import MonakaFs.FsCore.Sparse

/-! What is behind the end of a file.

Blocks are only kept as far as the file goes, and the rest of the last one is zeroed. Bytes
that were cut off do not come back when the file grows again.
-/

set_option autoImplicit false

namespace MonakaFs.FsCore

open Async BlockStorage

/-! ### The number of blocks -/

section
variable {blocks : List (Option Bytes)} {data : Bytes} {offset : Nat}

/-- Blocks for so many bytes. -/
def blockCount (size : Nat) : Nat := (size + BLOCK_SIZE - 1) / BLOCK_SIZE

theorem blockCount_mono {size larger : Nat} (le : size ≤ larger) : blockCount size ≤ blockCount larger :=
  Nat.div_le_div_right (Nat.sub_le_sub_right (Nat.add_le_add_right le _) 1)

theorem round_length (blocks : List (Option Bytes)) (offset : Nat) (data : Bytes) :
    (BlockStorage.round blocks offset data).length = max blocks.length (offset / BLOCK_SIZE + 1) := by
  simp only [BlockStorage.round, List.length_set, reach, List.length_append, List.length_replicate]
  omega

variable [target : Target]

theorem writeLoop_grows (rounds : Nat) : blocks.length ≤ (writeLoop rounds blocks offset data).1.length := by
  induction rounds generalizing blocks offset data with
  | zero => exact Nat.le_refl _
  | succ rounds ih =>
    by_cases none : data = []
    · rw [none, writeLoop_nil]
    · rw [writeLoop_cons rounds none]
      refine Nat.le_trans ?_ ih
      rw [round_length]
      exact Nat.le_max_left _ _

/-- There is a block for the first byte. -/
theorem writeLoop_reaches (rounds : Nat) (some : data ≠ []) : offset / BLOCK_SIZE < (writeLoop (rounds + 1) blocks offset data).1.length := by
  rw [writeLoop_cons rounds some]
  refine Nat.lt_of_lt_of_le ?_ (writeLoop_grows rounds)
  rw [round_length]
  exact Nat.le_max_right _ _

/-- There is no block behind the last byte. -/
theorem writeLoop_length {rounds : Nat} (fits : offset + data.length < 2 ^ target.usizeBits) :
    (writeLoop rounds blocks offset data).1.length ≤ max blocks.length (blockCount (offset + data.length)) := by
  induction rounds generalizing blocks offset data with
  | zero => exact Nat.le_max_left _ _
  | succ rounds ih =>
    by_cases none : data = []
    · rw [none, writeLoop_nil]
      exact Nat.le_max_left _ _
    have within : share offset data ≤ data.length := Nat.min_le_right _ _
    have onward : toUsize (offset + share offset data) = offset + share offset data := Nat.mod_eq_of_lt (by omega)
    have rest : offset + share offset data + (data.drop (share offset data)).length = offset + data.length := by
      rw [List.length_drop]
      omega
    have here : offset / BLOCK_SIZE + 1 ≤ blockCount (offset + data.length) := by
      have some := List.length_pos_iff.mpr none
      simp only [blockCount, BLOCK_SIZE]
      omega
    rw [writeLoop_cons rounds none, onward]
    have later := @ih (BlockStorage.round blocks offset (data.take (share offset data))) (data.drop (share offset data))
      (offset + share offset data) (by rw [rest]; exact fits)
    rw [rest, round_length] at later
    omega

end

/-- The blocks do not go beyond the end of the file. -/
def Short (storage : BlockStorage) : Prop := storage.blocks.length ≤ blockCount storage.size

section
variable {storage : BlockStorage} {bytes data : Bytes} {offset size n : Nat}

theorem Short.truncate (short : Short storage) (size : Nat) : Short (storage.truncate size) := by
  unfold Short
  rw [truncate_size]
  unfold BlockStorage.truncate
  split
  · dsimp only
    have taken : (storage.blocks.take ((size + BLOCK_SIZE - 1) / BLOCK_SIZE)).length ≤ blockCount size := by
      rw [List.length_take]
      exact Nat.min_le_left _ _
    split
    · rw [List.length_modify]
      exact taken
    · exact taken
  · next grows =>
    have more := Nat.le_trans short (blockCount_mono (Nat.le_of_not_lt grows))
    split <;> exact more

variable [target : Target]

theorem Short.write (short : Short storage) (whole : Whole storage) (fits : offset + data.length < 2 ^ target.usizeBits) :
    Short (storage.write offset data) := by
  by_cases none : data = []
  · rw [BlockStorage.write, if_pos none]
    exact short
  · unfold Short
    rw [write_size whole fits none]
    have blocks : (storage.write offset data).blocks = (writeLoop data.length storage.blocks offset data).1 := by
      rw [BlockStorage.write, if_neg none]
    rw [blocks]
    refine Nat.le_trans (writeLoop_length fits) (max_le ?_ ?_)
    · exact Nat.le_trans short (blockCount_mono (Nat.le_max_left _ _))
    · exact blockCount_mono (Nat.le_max_right _ _)

/-! ### Bytes that were cut off -/

omit target in
theorem Holds.behind (holds : Holds storage bytes) {i : Nat} (behind : storage.size ≤ i) : storage.byteAt i = 0 := by
  rw [holds.byte, List.getD_eq_getElem?_getD, List.getElem?_eq_none (by rw [← holds.size]; exact behind)]
  rfl

/-- The bytes of an allocated block. -/
theorem block_byte (whole : Whole storage) {k j : Nat} {block : Bytes} {byte : UInt8} (there : storage.blocks[k]? = some (some block))
    (held : block[j]? = some byte) : storage.byteAt (k * BLOCK_SIZE + j) = byte := by
  obtain ⟨within, -⟩ := List.getElem?_eq_some_iff.mp held
  rw [whole.sized block (List.mem_of_getElem? there)] at within
  have place : (k * BLOCK_SIZE + j) / BLOCK_SIZE = k ∧ (k * BLOCK_SIZE + j) % BLOCK_SIZE = j := by
    simp only [BLOCK_SIZE] at within ⊢
    omega
  rw [byteAt, blockByte, place.1, place.2, there]
  simp only [Option.join, Option.bind_some, id, Option.getD_some, List.getD_eq_getElem?_getD, held]

theorem read_mem (whole : Whole storage) {wanted : Nat} {byte : UInt8} (member : byte ∈ storage.read offset wanted) :
    ∃ i, offset ≤ i ∧ storage.byteAt i = byte := by
  rw [read_eq whole] at member
  obtain ⟨i, -, same⟩ := List.mem_map.mp member
  exact ⟨offset + i, Nat.le_add_right _ _, same⟩

omit target in
/-- What is cut off is not there any more. -/
theorem truncate_behind (shrinks : n < storage.size) {i : Nat} (behind : n ≤ i) : (storage.truncate n).byteAt i = 0 := by
  rw [truncate_byte, if_pos ⟨shrinks, behind⟩]

/-- Truncated bytes are gone: nothing is kept behind the end, and whatever the file grows by is zero. -/
structure Forgets (storage : BlockStorage) : Prop where
  zeros : ∀ k block j byte, storage.blocks[k]? = some (some block) → block[j]? = some byte → storage.size ≤ k * BLOCK_SIZE + j → byte = 0
  short : Short storage
  grown : ∀ n < storage.size, ∀ size < 2 ^ target.usizeBits, ∀ offset wanted byte, n ≤ offset →
    byte ∈ ((storage.truncate n).truncate size).read offset wanted → byte = 0
  gap : ∀ n < storage.size, ∀ offset data, n ≤ offset → data ≠ [] → offset + data.length < 2 ^ target.usizeBits →
    ((storage.truncate n).write offset data).read n (offset - n) = List.replicate (offset - n) 0

theorem gap_zeros (whole : Whole storage) (shrinks : n < storage.size) (behind : n ≤ offset) (some : data ≠ [])
    (fits : offset + data.length < 2 ^ target.usizeBits) :
    ((storage.truncate n).write offset data).read n (offset - n) = List.replicate (offset - n) 0 := by
  have cut : Whole (storage.truncate n) := truncate_whole whole (by omega)
  have reaches : offset ≤ ((storage.truncate n).write offset data).readable := by
    have size : offset ≤ ((storage.truncate n).write offset data).size := by
      rw [write_size cut fits some]
      omega
    have blocks : offset / BLOCK_SIZE < ((storage.truncate n).write offset data).blocks.length := by
      obtain ⟨rounds, rounds_eq⟩ : ∃ rounds, data.length = rounds + 1 := Nat.exists_eq_succ_of_ne_zero (List.length_pos_iff.mpr some).ne'
      rw [BlockStorage.write, if_neg some, rounds_eq]
      exact writeLoop_reaches rounds some
    simp only [readable, BLOCK_SIZE] at blocks ⊢
    omega
  rw [read_eq (write_whole cut (by omega)), Nat.min_eq_left (by omega)]
  refine List.eq_replicate_iff.mpr ⟨by rw [List.length_map, List.length_range], fun byte member => ?_⟩
  obtain ⟨i, within, rfl⟩ := List.mem_map.mp member
  have before := List.mem_range.mp within
  rw [write_byte cut fits, if_neg (by omega), truncate_behind shrinks (Nat.le_add_right _ _)]

theorem Holds.forgets (holds : Holds storage bytes) (whole : Whole storage) (short : Short storage) : Forgets storage where
  zeros k block j byte there held behind := by
    rw [← block_byte whole there held]
    exact holds.behind behind
  short := short
  grown n shrinks size word offset wanted byte behind member := by
    have cut : Whole (storage.truncate n) := truncate_whole whole (Nat.lt_trans shrinks whole.small)
    obtain ⟨i, later, rfl⟩ := read_mem (truncate_whole cut word) member
    rw [truncate_byte]
    split
    · rfl
    · exact truncate_behind shrinks (Nat.le_trans behind later)
  gap n shrinks offset data behind some fits := gap_zeros whole shrinks behind some fits

/-- A read gives the front of what the flat array has. -/
theorem Holds.read_prefix (holds : Holds storage bytes) (whole : Whole storage) (wanted : Nat) :
    storage.read offset wanted <+: Flat.read bytes offset wanted := by
  have fewer : min wanted (storage.readable - offset) ≤ min wanted (bytes.length - offset) := by
    rw [← holds.size, readable]
    omega
  have front : storage.read offset wanted = (Flat.read bytes offset wanted).take (min wanted (storage.readable - offset)) := by
    rw [read_eq whole]
    refine List.ext_getElem ?_ fun i here there => ?_
    · rw [List.length_map, List.length_range, List.length_take, Flat.read_length, Nat.min_eq_left fewer]
    · rw [List.length_map, List.length_range] at here
      simp only [List.getElem_map, List.getElem_range, Flat.read, List.getElem_take, List.getElem_drop]
      rw [holds.byte, List.getD_eq_getElem?_getD, List.getElem?_eq_getElem (by omega), Option.getD_some]
  rw [front]
  exact List.take_prefix _ _

/-! ### Runs -/

/-- A write ends within the machine words. -/
def Access.Ends : Access → Prop
  | .write offset data => data = [] ∨ offset + data.length < 2 ^ target.usizeBits
  | _ => True

/-- Nothing is left behind the end afterwards, and a read gives the front of what the flat array has. -/
def ForgetsAt (both : BlockStorage × Bytes) (event : Access) : Prop :=
  Forgets (access both event).1 ∧ ∀ offset wanted, event = .read offset wanted → both.1.read offset wanted <+: Flat.read both.2 offset wanted

variable {both : BlockStorage × Bytes} {event : Access}

theorem access_forgets (word : event.IsWord) (ends : event.Ends) (mirrors : Mirrors both ∧ Short both.1) :
    (Mirrors (access both event) ∧ Short (access both event).1) ∧ ForgetsAt both event := by
  obtain ⟨⟨whole, holds⟩, short⟩ := mirrors
  cases event with
  | write offset data =>
    have fits : offset + data.length < 2 ^ target.usizeBits := by
      rcases ends with none | fits
      · rw [none]
        exact word.1
      · exact fits
    have after : @Whole _ (both.1.write offset data) := write_whole whole word.1
    have holds := holds.write whole fits
    have short := short.write whole fits
    exact ⟨⟨⟨after, holds⟩, short⟩, holds.forgets after short, fun _ _ same => by cases same⟩
  | truncate size =>
    have after : Whole (both.1.truncate size) := truncate_whole whole word
    exact ⟨⟨⟨after, holds.truncate size⟩, short.truncate size⟩, (holds.truncate size).forgets after (short.truncate size), fun _ _ same => by cases same⟩
  | read offset wanted =>
    refine ⟨⟨⟨whole, holds⟩, short⟩, holds.forgets whole short, ?_⟩
    rintro offset' wanted' same
    cases same
    exact holds.read_prefix whole wanted

theorem run_forgets {events : List Access} (words : ∀ event ∈ events, event.IsWord) (ends : ∀ event ∈ events, event.Ends)
    (mirrors : Mirrors both ∧ Short both.1) : AtEveryEvent access ForgetsAt events both := by
  induction events generalizing both with
  | nil => trivial
  | cons event events ih =>
    obtain ⟨after, forgets⟩ := access_forgets (words event List.mem_cons_self) (ends event List.mem_cons_self) mirrors
    refine ⟨forgets, ih (fun other member => ?_) (fun other member => ?_) after⟩
    · exact words other (List.mem_cons_of_mem _ member)
    · exact ends other (List.mem_cons_of_mem _ member)

/-- As long as every write ends within the machine words, truncated bytes never come back. -/
theorem forgets_of_ends {events : List Access} (words : ∀ event ∈ events, event.IsWord) (ends : ∀ event ∈ events, event.Ends) :
    AtEveryEvent access ForgetsAt events (.new, []) :=
  run_forgets words ends ⟨⟨new_whole, new_holds⟩, Nat.zero_le _⟩

end

/-- A file that is cut in the middle of a block and grows again. -/
def regrown : List Access := [.write 0 [7, 8, 9], .truncate 1, .truncate 3, .read 0 3]

theorem regrown_forgets :
    let _ : Target := ⟨32⟩
    AtEveryEvent access ForgetsAt regrown (.new, []) := by
  let _ : Target := ⟨32⟩
  refine forgets_of_ends (fun event member => ?_) fun event member => ?_
  · simp only [regrown, List.mem_cons, List.not_mem_nil, or_false] at member
    rcases member with rfl | rfl | rfl | rfl
    · exact ⟨by decide, by decide⟩
    · exact (by decide : 1 < 2 ^ 32)
    · exact (by decide : 3 < 2 ^ 32)
    · exact ⟨by decide, by decide⟩
  · simp only [regrown, List.mem_cons, List.not_mem_nil, or_false] at member
    rcases member with rfl | rfl | rfl | rfl
    · exact .inr (by decide)
    · trivial
    · trivial
    · trivial

/-- The offset behind the last byte that a 32-bit machine can count to is 0. -/
theorem lastByte_stays :
    let _ : Target := ⟨32⟩
    ¬ AtEveryEvent access ForgetsAt [.write (2 ^ 32 - 1) [1]] (.new, []) := by
  intro target forgets
  have short := forgets.1.1.short
  have one : share (2 ^ 32 - 1) [1] = 1 := rfl
  have wraps : toUsize (2 ^ 32 - 1 + 1) = 0 := Nat.mod_self (2 ^ 32)
  have loop : writeLoop 1 [] (2 ^ 32 - 1) [1] = (BlockStorage.round [] (2 ^ 32 - 1) ([1].take 1), toUsize (2 ^ 32 - 1 + 1)) := by
    rw [writeLoop_cons 0 (List.cons_ne_nil _ _), one]
    rfl
  have written : BlockStorage.new.write (2 ^ 32 - 1) [1] = ⟨BlockStorage.round [] (2 ^ 32 - 1) ([1].take 1), 0⟩ := by
    unfold BlockStorage.write
    rw [if_neg (List.cons_ne_nil _ _), List.length_singleton, BlockStorage.new, loop]
    dsimp only
    rw [wraps, Nat.max_self]
  have kept : (access (.new, []) (.write (2 ^ 32 - 1) [1])).1 = BlockStorage.new.write (2 ^ 32 - 1) [1] := rfl
  rw [kept, written, Short, round_length] at short
  exact absurd short (by decide)

end MonakaFs.FsCore
