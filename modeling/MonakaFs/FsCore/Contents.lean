import MonakaFs.FsCore.Storage

/-! What a block store holds, byte by byte.

A block that is absent, and everything behind the last block, holds zeros. Writing
changes the bytes it is given and no others; reading stops behind the last block,
also where the file goes on.
-/

set_option autoImplicit false

namespace MonakaFs.FsCore.BlockStorage

/-- A byte of a list of blocks. -/
def blockByte (blocks : List (Option Bytes)) (index : Nat) : UInt8 :=
  ((blocks[index / BLOCK_SIZE]?).join.getD zeroBlock).getD (index % BLOCK_SIZE) 0

def byteAt (storage : BlockStorage) (index : Nat) : UInt8 := blockByte storage.blocks index

/-- All bytes of the file. -/
def content (storage : BlockStorage) : Bytes := (List.range storage.size).map storage.byteAt

@[simp] theorem content_length (storage : BlockStorage) : storage.content.length = storage.size := by simp [content]

@[simp] theorem content_new : BlockStorage.new.content = [] := rfl

/-- Present blocks are of one size. -/
def Sized (blocks : List (Option Bytes)) : Prop := ∀ block, some block ∈ blocks → block.length = BLOCK_SIZE

/-! ### Blocks -/

section
variable {blocks : List (Option Bytes)} {block data : Bytes} {index offset i : Nat}

theorem zeroBlock_length : zeroBlock.length = BLOCK_SIZE := List.length_replicate

theorem zeroBlock_byte (i : Nat) : zeroBlock.getD i 0 = 0 := by
  rw [List.getD_eq_getElem?_getD, zeroBlock, List.getElem?_replicate]
  split <;> rfl

/-- Nothing is behind the last block. -/
theorem blockByte_behind (behind : blocks.length ≤ i / BLOCK_SIZE) : blockByte blocks i = 0 := by
  rw [blockByte, List.getElem?_eq_none behind]
  exact zeroBlock_byte _

theorem reach_length (blocks : List (Option Bytes)) (index : Nat) : index < (reach blocks index).length := by
  simp only [reach, List.length_append, List.length_replicate]
  omega

theorem reach_byte (blocks : List (Option Bytes)) (index i : Nat) : blockByte (reach blocks index) i = blockByte blocks i := by
  rw [blockByte, blockByte, reach, List.getElem?_append]
  split
  · rfl
  · next behind =>
    rw [List.getElem?_eq_none (Nat.not_lt.mp behind), List.getElem?_replicate]
    split <;> rfl

theorem reach_sized (sized : Sized blocks) (index : Nat) : Sized (reach blocks index) := by
  intro block member
  rcases List.mem_append.mp member with old | new
  · exact sized block old
  · cases List.eq_of_mem_replicate new

/-- The block that is there, or zeros. -/
theorem block_length (sized : Sized blocks) (index : Nat) : ((blocks[index]?).join.getD zeroBlock).length = BLOCK_SIZE := by
  cases found : blocks[index]? with
  | none => exact zeroBlock_length
  | some entry =>
    cases entry with
    | none => exact zeroBlock_length
    | some block => exact sized block (List.mem_of_getElem? found)

theorem set_byte (there : index < blocks.length) : blockByte (blocks.set index (some block)) i =
    if i / BLOCK_SIZE = index then block.getD (i % BLOCK_SIZE) 0 else blockByte blocks i := by
  rw [blockByte, blockByte, List.getElem?_set]
  by_cases same : index = i / BLOCK_SIZE
  · rw [if_pos same, if_pos (same ▸ there), if_pos same.symm]
    rfl
  · rw [if_neg same, if_neg fun back => same back.symm]

theorem set_sized (sized : Sized blocks) (length : block.length = BLOCK_SIZE) : Sized (blocks.set index (some block)) := by
  intro other member
  rcases List.mem_or_eq_of_mem_set member with old | new
  · exact sized other old
  · cases new
    exact length

theorem patch_length (fits : offset + data.length ≤ block.length) : (patch block offset data).length = block.length := by
  simp only [patch, List.length_append, List.length_take, List.length_drop]
  omega

theorem patch_byte (fits : offset + data.length ≤ block.length) : (patch block offset data).getD i 0 =
    if offset ≤ i ∧ i < offset + data.length then data.getD (i - offset) 0 else block.getD i 0 := by
  have front : (block.take offset).length = offset := by rw [List.length_take]; omega
  simp only [patch, List.getD_eq_getElem?_getD, List.append_assoc]
  rw [List.getElem?_append, front]
  by_cases before : i < offset
  · rw [if_pos before, if_neg (by omega), List.getElem?_take_of_lt before]
  rw [if_neg before, List.getElem?_append]
  by_cases within : i - offset < data.length
  · rw [if_pos within, if_pos (by omega)]
  · rw [if_neg within, if_neg (by omega), List.getElem?_drop]
    congr 2
    omega

end

/-! ### Writing -/

section
variable {blocks : List (Option Bytes)} {data : Bytes} {offset : Nat}

/-- The blocks after one round of the write loop. -/
def round (blocks : List (Option Bytes)) (offset : Nat) (data : Bytes) : List (Option Bytes) :=
  let blocks := reach blocks (offset / BLOCK_SIZE)
  blocks.set (offset / BLOCK_SIZE)
    (some (patch ((blocks[offset / BLOCK_SIZE]?).join.getD zeroBlock) (offset % BLOCK_SIZE) data))

theorem round_sized (sized : Sized blocks) (fits : offset % BLOCK_SIZE + data.length ≤ BLOCK_SIZE) :
    Sized (round blocks offset data) := by
  have block := block_length (reach_sized sized (offset / BLOCK_SIZE)) (offset / BLOCK_SIZE)
  refine set_sized (reach_sized sized _) ?_
  rw [patch_length, block]
  rw [block]
  exact fits

theorem round_byte (sized : Sized blocks) (fits : offset % BLOCK_SIZE + data.length ≤ BLOCK_SIZE) (i : Nat) :
    blockByte (round blocks offset data) i =
      if offset ≤ i ∧ i < offset + data.length then data.getD (i - offset) 0 else blockByte blocks i := by
  have block := block_length (reach_sized sized (offset / BLOCK_SIZE)) (offset / BLOCK_SIZE)
  rw [round, set_byte (reach_length blocks _), patch_byte (by rw [block]; exact fits),
    ← reach_byte blocks (offset / BLOCK_SIZE) i]
  have whole := Nat.div_add_mod offset BLOCK_SIZE
  have part := Nat.div_add_mod i BLOCK_SIZE
  have small : i % BLOCK_SIZE < BLOCK_SIZE := Nat.mod_lt _ (by decide)
  by_cases same : i / BLOCK_SIZE = offset / BLOCK_SIZE
  · rw [same] at part
    have apart : i % BLOCK_SIZE - offset % BLOCK_SIZE = i - offset := by omega
    have range : (offset % BLOCK_SIZE ≤ i % BLOCK_SIZE ∧ i % BLOCK_SIZE < offset % BLOCK_SIZE + data.length) ↔
        (offset ≤ i ∧ i < offset + data.length) := by omega
    rw [if_pos same, apart]
    by_cases within : offset ≤ i ∧ i < offset + data.length
    · rw [if_pos within, if_pos (range.mpr within)]
    · rw [if_neg within, if_neg (fun inside => within (range.mp inside)), blockByte, same]
  · rw [if_neg same, if_neg]
    rintro ⟨behind, before⟩
    refine same (Nat.div_eq_of_lt_le ?_ ?_)
    · rw [Nat.mul_comm]
      omega
    · rw [Nat.succ_mul, Nat.mul_comm]
      omega

/-- How much of the data goes into one block. -/
def share (offset : Nat) (data : Bytes) : Nat := min (BLOCK_SIZE - offset % BLOCK_SIZE) data.length

theorem share_length (offset : Nat) (data : Bytes) : (data.take (share offset data)).length = share offset data := by
  rw [List.length_take, share]
  omega

theorem share_fits (offset : Nat) (data : Bytes) : offset % BLOCK_SIZE + (data.take (share offset data)).length ≤ BLOCK_SIZE := by
  have small : offset % BLOCK_SIZE < BLOCK_SIZE := Nat.mod_lt _ (by decide)
  rw [share_length, share]
  omega

variable [target : Target]

theorem writeLoop_cons (rounds : Nat) (some : data ≠ []) : writeLoop (rounds + 1) blocks offset data =
    writeLoop rounds (round blocks offset (data.take (share offset data))) (toUsize (offset + share offset data))
      (data.drop (share offset data)) := by
  cases data with
  | nil => exact absurd rfl some
  | cons byte data => rfl

theorem writeLoop_nil (rounds : Nat) : writeLoop rounds blocks offset [] = (blocks, offset) := by
  cases rounds with
  | zero => rfl
  | succ rounds => rfl

theorem writeLoop_sized {rounds : Nat} (sized : Sized blocks) : Sized (writeLoop rounds blocks offset data).1 := by
  induction rounds generalizing blocks offset data with
  | zero => exact sized
  | succ rounds ih =>
    by_cases none : data = []
    · rw [none, writeLoop_nil]
      exact sized
    · rw [writeLoop_cons rounds none]
      exact ih (round_sized sized (share_fits offset data))

theorem writeLoop_byte {rounds : Nat} (sized : Sized blocks) (enough : data.length ≤ rounds)
    (fits : offset + data.length < 2 ^ target.usizeBits) :
    (writeLoop rounds blocks offset data).2 = offset + data.length ∧ ∀ i, blockByte (writeLoop rounds blocks offset data).1 i =
      if offset ≤ i ∧ i < offset + data.length then data.getD (i - offset) 0 else blockByte blocks i := by
  induction rounds generalizing blocks offset data with
  | zero =>
    obtain rfl := List.length_eq_zero_iff.mp (Nat.le_zero.mp enough)
    exact ⟨rfl, fun i => (by rw [if_neg (by simp only [List.length_nil]; omega)]; rfl)⟩
  | succ rounds ih =>
    by_cases none : data = []
    · subst none
      rw [writeLoop_nil]
      exact ⟨rfl, fun i => (by rw [if_neg (by simp only [List.length_nil]; omega)])⟩
    · have length := share_length offset data
      have round := round_byte sized (share_fits offset data)
      have onward : toUsize (offset + share offset data) = offset + share offset data :=
        Nat.mod_eq_of_lt (by rw [share]; omega)
      -- A round writes at least a byte, so that there are rounds enough.
      have progress : 0 < share offset data := by
        have some := List.length_pos_iff.mpr none
        have small : offset % BLOCK_SIZE < BLOCK_SIZE := Nat.mod_lt _ (by decide)
        rw [share]
        omega
      have within : share offset data ≤ data.length := Nat.min_le_right _ _
      have rest : (data.drop (share offset data)).length = data.length - share offset data := List.length_drop
      rw [writeLoop_cons rounds none, onward]
      obtain ⟨last, bytes⟩ := @ih _ (data.drop (share offset data)) (offset + share offset data)
        (round_sized sized (share_fits offset data)) (by omega) (by omega)
      refine ⟨by rw [last]; omega, fun i => ?_⟩
      rw [bytes, round, length, rest]
      simp only [List.getD_eq_getElem?_getD]
      -- The byte is written in a later round, in this one, or in none.
      by_cases later : offset + share offset data ≤ i ∧ i < offset + data.length
      · rw [if_pos (by omega), if_pos (by omega), List.getElem?_drop]
        congr 2
        omega
      · rw [if_neg (by omega)]
        by_cases here : offset ≤ i ∧ i < offset + share offset data
        · rw [if_pos here, if_pos (by omega), List.getElem?_take_of_lt (by omega)]
        · rw [if_neg here, if_neg (by omega)]

theorem writeLoop_end {rounds : Nat} (known : offset < 2 ^ target.usizeBits) :
    (writeLoop rounds blocks offset data).2 < 2 ^ target.usizeBits := by
  induction rounds generalizing blocks offset data with
  | zero => exact known
  | succ rounds ih =>
    by_cases none : data = []
    · rw [none, writeLoop_nil]
      exact known
    · rw [writeLoop_cons rounds none]
      exact ih (Nat.mod_lt _ (Nat.two_pow_pos _))

end

/-- What holds of every file. -/
structure Whole [target : Target] (storage : BlockStorage) : Prop where
  sized : Sized storage.blocks
  small : storage.size < 2 ^ target.usizeBits

section
variable [target : Target] {storage : BlockStorage} {data : Bytes} {offset : Nat}

theorem new_whole : Whole .new := ⟨fun _ member => (by cases member), Nat.two_pow_pos _⟩

theorem write_whole (whole : Whole storage) (known : offset < 2 ^ target.usizeBits) : Whole (storage.write offset data) := by
  unfold write
  split
  · exact whole
  · exact ⟨writeLoop_sized whole.sized, max_lt whole.small (writeLoop_end known)⟩

theorem write_byte (whole : Whole storage) (fits : offset + data.length < 2 ^ target.usizeBits) (i : Nat) :
    (storage.write offset data).byteAt i =
      if offset ≤ i ∧ i < offset + data.length then data.getD (i - offset) 0 else storage.byteAt i := by
  unfold write
  split
  · next none =>
    subst none
    rw [if_neg (by simp only [List.length_nil]; omega)]
  · exact (writeLoop_byte whole.sized (le_refl _) fits).2 i

theorem write_size (whole : Whole storage) (fits : offset + data.length < 2 ^ target.usizeBits) (some : data ≠ []) :
    (storage.write offset data).size = max storage.size (offset + data.length) := by
  rw [write, if_neg some, ← (writeLoop_byte whole.sized (le_refl _) fits).1]

/-- Writing at the end appends. -/
theorem append_content (whole : Whole storage) (fits : storage.size + data.length < 2 ^ target.usizeBits) :
    (storage.write storage.size data).content = storage.content ++ data := by
  by_cases none : data = []
  · rw [write, if_pos none, none, List.append_nil]
  · have size := write_size whole fits none
    rw [Nat.max_eq_right (Nat.le_add_right _ _)] at size
    rw [content, content, size, List.range_add, List.map_append, List.map_map]
    congr 1
    · refine List.map_congr_left fun i within => ?_
      have before := List.mem_range.mp within
      rw [write_byte whole fits, if_neg (by omega)]
    · refine List.ext_getElem (by simp) fun i within there => ?_
      simp only [List.length_map, List.length_range] at within
      simp only [List.getElem_map, List.getElem_range, Function.comp, write_byte whole fits]
      rw [if_pos (by omega), Nat.add_sub_cancel_left, List.getD_eq_getElem?_getD, List.getElem?_eq_getElem there, Option.getD_some]

/-! ### Truncation -/

section
omit target
variable {blocks : List (Option Bytes)} {index start i : Nat}

theorem clearTail_length (block : Bytes) (offset : Nat) : (clearTail block offset).length = block.length := by
  simp only [clearTail, List.length_append, List.length_take, List.length_replicate]
  omega

theorem clearTail_byte (block : Bytes) (offset i : Nat) :
    (clearTail block offset).getD i 0 = if i < offset then block.getD i 0 else 0 := by
  simp only [clearTail, List.getD_eq_getElem?_getD]
  by_cases before : i < offset
  · rw [if_pos before, List.getElem?_append]
    by_cases within : i < block.length
    · rw [if_pos (by rw [List.length_take]; omega), List.getElem?_take_of_lt before]
    · rw [if_neg (by rw [List.length_take]; omega), List.getElem?_eq_none (Nat.not_lt.mp within), List.getElem?_replicate]
      split <;> rfl
  · rw [if_neg before, List.getElem?_append_right (by rw [List.length_take]; omega), List.getElem?_replicate]
    split <;> rfl

theorem take_sized (sized : Sized blocks) (count : Nat) : Sized (blocks.take count) :=
  fun block member => sized block (List.mem_of_mem_take member)

theorem take_byte (blocks : List (Option Bytes)) (count i : Nat) :
    blockByte (blocks.take count) i = if i / BLOCK_SIZE < count then blockByte blocks i else 0 := by
  split
  · next before => rw [blockByte, blockByte, List.getElem?_take_of_lt before]
  · exact blockByte_behind (by rw [List.length_take]; omega)

/-- The blocks with the rest of one zeroed. -/
def cleared (blocks : List (Option Bytes)) (index start : Nat) : List (Option Bytes) :=
  blocks.modify index fun block => block.map (clearTail · start)

theorem cleared_get (blocks : List (Option Bytes)) (index start at' : Nat) : (cleared blocks index start)[at']? =
    if at' = index then (blocks[at']?).map fun block => block.map (clearTail · start) else blocks[at']? := by
  rw [cleared, List.getElem?_modify]
  by_cases same : at' = index
  · subst same
    simp only [if_true]
    rfl
  · have other : ¬ index = at' := fun back => same back.symm
    simp only [same, other, if_false]
    cases blocks[at']? <;> rfl

theorem cleared_sized (sized : Sized blocks) : Sized (cleared blocks index start) := by
  intro block member
  obtain ⟨at', found⟩ := List.mem_iff_getElem?.mp member
  rw [cleared_get] at found
  split at found
  · obtain ⟨entry, stored, same⟩ := Option.map_eq_some_iff.mp found
    obtain ⟨block', rfl, rfl⟩ := Option.map_eq_some_iff.mp same
    rw [clearTail_length]
    exact sized block' (List.mem_of_getElem? stored)
  · exact sized block (List.mem_of_getElem? found)

theorem cleared_byte (blocks : List (Option Bytes)) (index start i : Nat) : blockByte (cleared blocks index start) i =
    if i / BLOCK_SIZE = index ∧ start ≤ i % BLOCK_SIZE then 0 else blockByte blocks i := by
  rw [blockByte, cleared_get, blockByte]
  by_cases same : i / BLOCK_SIZE = index
  · have zeros (entry : Option Bytes) : ((entry.map (clearTail · start)).getD zeroBlock).getD (i % BLOCK_SIZE) 0 =
        if start ≤ i % BLOCK_SIZE then 0 else (entry.getD zeroBlock).getD (i % BLOCK_SIZE) 0 := by
      cases entry with
      | none =>
        simp only [Option.map_none, Option.getD_none, zeroBlock_byte]
        split <;> rfl
      | some block =>
        simp only [Option.map_some, Option.getD_some, clearTail_byte]
        by_cases before : i % BLOCK_SIZE < start
        · rw [if_pos before, if_neg (Nat.not_le.mpr before)]
        · rw [if_neg before, if_pos (Nat.not_lt.mp before)]
    simp only [same, if_true, true_and]
    rw [← same]
    cases blocks[i / BLOCK_SIZE]? with
    | none => exact zeros none
    | some entry => exact zeros entry
  · simp only [same, if_false, false_and]

end

theorem truncate_whole (whole : Whole storage) {size : Nat} (known : size < 2 ^ target.usizeBits) :
    Whole (storage.truncate size) := by
  unfold truncate
  split
  · refine ⟨?_, known⟩
    dsimp only
    split
    · exact cleared_sized (take_sized whole.sized _)
    · exact take_sized whole.sized _
  · split
    · exact ⟨whole.sized, known⟩
    · exact whole

omit target in
theorem truncate_byte (storage : BlockStorage) (size i : Nat) : (storage.truncate size).byteAt i =
    if size < storage.size ∧ size ≤ i then 0 else storage.byteAt i := by
  unfold truncate
  split
  · next shrinks =>
    simp only [shrinks, true_and, byteAt]
    split
    · next partial' =>
      -- the last block is kept in part
      have kept : i < size → ¬ (i / BLOCK_SIZE = (size + BLOCK_SIZE - 1) / BLOCK_SIZE - 1 ∧ size % BLOCK_SIZE ≤ i % BLOCK_SIZE) ∧
          i / BLOCK_SIZE < (size + BLOCK_SIZE - 1) / BLOCK_SIZE := by
        simp only [BLOCK_SIZE] at partial' ⊢
        omega
      have gone : ¬ i < size → i / BLOCK_SIZE < (size + BLOCK_SIZE - 1) / BLOCK_SIZE →
          i / BLOCK_SIZE = (size + BLOCK_SIZE - 1) / BLOCK_SIZE - 1 ∧ size % BLOCK_SIZE ≤ i % BLOCK_SIZE := by
        simp only [BLOCK_SIZE] at partial' ⊢
        omega
      rw [← cleared, cleared_byte, take_byte]
      by_cases before : i < size
      · rw [if_neg (kept before).1, if_pos (kept before).2, if_neg (Nat.not_le.mpr before)]
      · rw [if_pos (Nat.not_lt.mp before)]
        split
        · rfl
        · next other => rw [if_neg fun within => other (gone before within)]
    · next full =>
      have kept : i / BLOCK_SIZE < (size + BLOCK_SIZE - 1) / BLOCK_SIZE ↔ ¬ size ≤ i := by
        simp only [BLOCK_SIZE] at full ⊢
        omega
      rw [take_byte]
      by_cases behind : size ≤ i
      · rw [if_pos behind, if_neg fun within => kept.mp within behind]
      · rw [if_neg behind, if_pos (kept.mpr behind)]
  · next grows =>
    have same : ¬ (size < storage.size ∧ size ≤ i) := fun both => grows both.1
    simp only [same, if_false]
    split <;> rfl

omit target in
theorem truncate_size (storage : BlockStorage) (size : Nat) : (storage.truncate size).size = size := by
  unfold truncate
  split
  · rfl
  · split
    · rfl
    · omega

/-! ### Reading -/

/-- Behind the last block nothing is read. -/
def readable (storage : BlockStorage) : Nat := min storage.size (storage.blocks.length * BLOCK_SIZE)

omit target in
/-- A part of one block. -/
theorem part_bytes (sized : Sized storage.blocks) {block : Option Bytes} (found : storage.blocks[offset / BLOCK_SIZE]? = some block)
    {count : Nat} (fits : offset % BLOCK_SIZE + count ≤ BLOCK_SIZE) :
    ((block.getD zeroBlock).drop (offset % BLOCK_SIZE)).take count = (List.range count).map fun i => storage.byteAt (offset + i) := by
  have length := block_length sized (offset / BLOCK_SIZE)
  rw [found] at length
  simp only [Option.join, Option.bind_some, id] at length
  refine List.ext_getElem ?_ fun i within there => ?_
  · rw [List.length_take, List.length_drop, length, List.length_map, List.length_range]
    omega
  · rw [List.length_map, List.length_range] at there
    have place : (offset + i) / BLOCK_SIZE = offset / BLOCK_SIZE ∧ (offset + i) % BLOCK_SIZE = offset % BLOCK_SIZE + i := by
      simp only [BLOCK_SIZE] at fits ⊢
      omega
    simp only [List.getElem_take, List.getElem_drop, List.getElem_map, List.getElem_range, byteAt, blockByte, place, found,
      Option.join, Option.bind_some, id]
    rw [List.getD_eq_getElem?_getD, List.getElem?_eq_getElem (by omega), Option.getD_some]

theorem readLoop_eq (whole : Whole storage) {rounds wanted : Nat} (enough : wanted ≤ rounds) :
    storage.readLoop rounds wanted offset =
      (List.range (min wanted (storage.readable - offset))).map fun i => storage.byteAt (offset + i) := by
  induction rounds generalizing wanted offset with
  | zero =>
    rw [Nat.le_zero.mp enough, Nat.zero_min]
    rfl
  | succ rounds ih =>
    unfold readLoop
    split
    · next ended =>
      have nothing : min wanted (storage.readable - offset) = 0 := by
        rw [readable]
        omega
      rw [nothing]
      rfl
    · next more =>
      dsimp only
      split
      -- The blocks end before the size does.
      · next behind =>
        have last := List.getElem?_eq_none_iff.mp behind
        have nothing : min wanted (storage.readable - offset) = 0 := by
          simp only [readable, BLOCK_SIZE] at last ⊢
          omega
        rw [nothing]
        rfl
      · next block found =>
        obtain ⟨there, -⟩ := List.getElem?_eq_some_iff.mp found
        have small : offset % BLOCK_SIZE < BLOCK_SIZE := Nat.mod_lt _ (by decide)
        -- This round reads as many bytes as the block has, and no more than are wanted.
        obtain ⟨count, size⟩ : ∃ count, min (BLOCK_SIZE - offset % BLOCK_SIZE) (min wanted (storage.size - offset)) = count := ⟨_, rfl⟩
        have onward : toUsize (offset + count) = offset + count := by
          refine Nat.mod_eq_of_lt (lt_of_le_of_lt ?_ whole.small)
          omega
        have split : min wanted (storage.readable - offset) = count + min (wanted - count) (storage.readable - (offset + count)) := by
          simp only [readable, BLOCK_SIZE] at size small there ⊢
          omega
        rw [size, onward, part_bytes whole.sized found (by omega), ih (by omega), split, List.range_add, List.map_append, List.map_map]
        simp only [Function.comp_def, Nat.add_assoc]

theorem read_eq (whole : Whole storage) (wanted : Nat) : storage.read offset wanted =
    (List.range (min wanted (storage.readable - offset))).map fun i => storage.byteAt (offset + i) := by
  unfold read
  split
  · next ended =>
    have nothing : min wanted (storage.readable - offset) = 0 := by
      rw [readable]
      omega
    rw [nothing]
    rfl
  · exact readLoop_eq whole (le_refl wanted)

end

end MonakaFs.FsCore.BlockStorage
