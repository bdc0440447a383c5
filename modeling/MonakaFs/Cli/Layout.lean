import MonakaFs.Cli.CoreModule

/-! Where the snapshot goes, and what it meets there.

It ends a page and at most 15 bytes below the end of the new memory. That it lies on
nothing else is not checked.
-/

set_option autoImplicit false

namespace MonakaFs.Cli.CoreModule

open FsCore

/-! ### What is asked of it -/

/-- The value of a constant expression, a 32-bit word. -/
def evaluate (globals : Nat → Nat) : List Operator → List Nat → Option Nat
  | [], [value] => some value
  | .i32Const value :: ops, stack => evaluate globals ops ((u32 value).toNat :: stack)
  | .globalGet index :: ops, stack => evaluate globals ops (globals index % 2 ^ 32 :: stack)
  | .i32Add :: ops, b :: a :: stack => evaluate globals ops ((a + b) % 2 ^ 32 :: stack)
  | .i32Sub :: ops, b :: a :: stack => evaluate globals ops ((a + (2 ^ 32 - b)) % 2 ^ 32 :: stack)
  | .i32Mul :: ops, b :: a :: stack => evaluate globals ops (a * b % 2 ^ 32 :: stack)
  | _, _ => none

/-- Where the bytes of an active segment go. -/
def Segment.place (globals : Nat → Nat) (segment : Segment) : Option Nat :=
  match segment.kind with
  | .active _ offset => evaluate globals offset []
  | .passive => none

/-- The addresses of some bytes. -/
def span (addr len : Nat) : Set Nat := Set.Ico addr (addr + len)

def MemoryType.pageBytes (memory : MemoryType) : Nat := 2 ^ memory.pageSizeLog2.getD 16

/-- A module with one 32-bit memory, in which the active segments lie. -/
structure OneMemory (globals : Nat → Nat) (core : Core) (memory : MemoryType) : Prop where
  one : core.memories = [memory]
  narrow : memory.memory64 = false
  pageSize : memory.pageSizeLog2 ∈ [none, some 0, some 16]
  few : memory.minimum * memory.pageBytes ≤ 2 ^ 32
  limited : ∀ most, memory.maximum = some most → memory.minimum ≤ most
  data : core.dataSections.length ≤ 1
  inside : ∀ segment ∈ core.segments, ∀ place, segment.place globals = some place →
    place + segment.data.length ≤ memory.minimum * memory.pageBytes

/-- The snapshot is in the new module, inside its memory, and on nothing else. -/
structure Placed (globals : Nat → Nat) (core out : Core) (snapshot : Bytes) (ptrAddr lenAddr addr : Nat) : Prop where
  embedded : ∃ kept, kept.length = core.segments.length ∧ out.segments = kept ++ added addr snapshot ptrAddr lenAddr
  word : addr < 2 ^ 32
  inside : ∀ memory ∈ out.memories, addr + snapshot.length ≤ memory.minimum * memory.pageBytes
  limited : ∀ memory ∈ out.memories, ∀ most, memory.maximum = some most → memory.minimum ≤ most
  unwrapped : intermediates u32 core.pages snapshot.length = intermediates id core.pages snapshot.length
  apart : ∀ segment ∈ core.segments, ∀ place, segment.place globals = some place →
    Disjoint (span addr snapshot.length) (span place segment.data.length)
  cells : Disjoint (span addr snapshot.length) (span ptrAddr 4) ∧ Disjoint (span addr snapshot.length) (span lenAddr 4)

/-! ### The layout without wrapping -/

def roundUp (len : Nat) : Nat := (len + 15) / 16 * 16

/-- Pages for 2 MiB and the snapshot. -/
def neededPages (len : Nat) : Nat := (0x200000 + 256 + roundUp len + 65535) / 65536

def grownPages (pages len : Nat) : Nat := max pages (neededPages len)

/-- A page below the end. -/
def home (pages len : Nat) : Nat := (grownPages pages len - 1) * 65536 - roundUp len

/-- No size needs more than 32 bits. -/
def Small (pages len : Nat) : Prop := pages < 65536 ∧ len ≤ 4292804352

theorem roundUp_cast (len : Nat) : ((len : Int) + 15) / 16 * 16 = roundUp len := by
  unfold roundUp
  omega

theorem grownPages_cast (pages len : Nat) : (if (roundUp len : Int) + 256 + 0x200000 ≤ pages * 65536 then (pages : Int)
    else max (pages : Int) ((roundUp len + 256 + 0x200000 + (65536 - 1)) / 65536)) = grownPages pages len := by
  unfold grownPages neededPages
  generalize roundUp len = size
  rw [Nat.cast_max]
  split
  · omega
  · omega

theorem small_iff (pages len : Nat) : Small pages len ↔ grownPages pages len < 65536 := by
  unfold Small grownPages neededPages roundUp
  omega

theorem Small.roundUp_le {pages len : Nat} (small : Small pages len) : roundUp len ≤ 4292804352 := by
  obtain ⟨-, short⟩ := small
  unfold roundUp
  omega

/-- The new memory has room for the snapshot and 2 MiB. -/
theorem needed_le (pages len : Nat) : 0x200000 + 256 + roundUp len ≤ grownPages pages len * 65536 := by
  have most : neededPages len ≤ grownPages pages len := Nat.le_max_right _ _
  unfold neededPages at most
  omega

section
variable {word : Int → Int} {pages len : Nat} (honest : ∀ n, 0 ≤ n → n < 2 ^ 32 → word n = n) (small : Small pages len)
include honest small

theorem currentMemorySize_exact : currentMemorySize word pages = pages * 65536 := by
  obtain ⟨few, -⟩ := small
  unfold currentMemorySize pageSize
  rw [honest pages (by omega) (by omega), honest _ (by omega) (by omega)]

theorem snapshotSize_exact : snapshotSize word len = roundUp len := by
  obtain ⟨-, short⟩ := small
  unfold snapshotSize
  rw [honest len (by omega) (by omega), honest _ (by omega) (by omega), roundUp_cast]

theorem threshold_exact : threshold word len = roundUp len + 256 + 0x200000 ∧ snapshotSpaceNeeded word len = roundUp len + 256 := by
  have size := snapshotSize_exact honest small
  have le := small.roundUp_le
  have space : snapshotSpaceNeeded word len = roundUp len + 256 := by
    unfold snapshotSpaceNeeded
    rw [size, honest _ (by omega) (by omega)]
  refine ⟨?_, space⟩
  unfold threshold
  rw [space, honest _ (by omega) (by omega)]

theorem newMemoryPages_exact : newMemoryPages word pages len = grownPages pages len := by
  have few := small.1
  unfold newMemoryPages pageSize
  rw [(threshold_exact honest small).1, currentMemorySize_exact honest small, honest pages (by omega) (by omega), grownPages_cast]

theorem newMemorySize_exact : newMemorySize word pages len = grownPages pages len * 65536 := by
  have few := (small_iff pages len).mp small
  unfold newMemorySize pageSize
  rw [newMemoryPages_exact honest small, honest _ (by omega) (by omega)]

/-- With sizes below 2 ^ 32, words are integers. -/
theorem intermediates_exact : intermediates word pages len =
    ([(pages : Int), pages * 65536, len, len + 15, roundUp len + 256, roundUp len + 256 + 0x200000, grownPages pages len * 65536,
      grownPages pages len * 65536 - roundUp len, grownPages pages len * 65536 - roundUp len - 65536] : List Int) := by
  obtain ⟨threshold, space⟩ := threshold_exact honest small
  have room := needed_le pages len
  have few := (small_iff pages len).mp small
  obtain ⟨own, short⟩ := small
  have above : word (grownPages pages len * 65536 - roundUp len) = grownPages pages len * 65536 - roundUp len := honest _ (by omega) (by omega)
  have unaligned : word (grownPages pages len * 65536 - roundUp len - 65536) = grownPages pages len * 65536 - roundUp len - 65536 :=
    honest _ (by omega) (by omega)
  unfold intermediates pageSize
  rw [honest pages (by omega) (by omega), currentMemorySize_exact honest ⟨own, short⟩, honest len (by omega) (by omega),
    honest (len + 15) (by omega) (by omega), space, threshold, newMemorySize_exact honest ⟨own, short⟩, snapshotSize_exact honest ⟨own, short⟩,
    above, unaligned]

theorem snapshotAddr_exact : snapshotAddr word pages len = home pages len := by
  have room := needed_le pages len
  have few := (small_iff pages len).mp small
  have le := small.roundUp_le
  have aligned : roundUp len = (len + 15) / 16 * 16 := rfl
  unfold snapshotAddr home pageSize
  rw [newMemorySize_exact honest small, snapshotSize_exact honest small, honest (grownPages pages len * 65536 - roundUp len) (by omega) (by omega),
    honest _ (by omega) (by omega)]
  generalize grownPages pages len = grown at room few
  generalize roundUp len = size at room le aligned
  omega

end

theorem u32_honest (n : Int) (low : 0 ≤ n) (high : n < 2 ^ 32) : u32 n = n := Int.emod_eq_of_lt low high

theorem newMemoryPages_id (pages len : Nat) : newMemoryPages id pages len = grownPages pages len := by
  rw [← grownPages_cast, ← roundUp_cast]
  rfl

/-- Nothing wraps around exactly if the sizes are small. -/
theorem unwrapped_iff (pages len : Nat) : intermediates u32 pages len = intermediates id pages len ↔ Small pages len := by
  constructor
  · intro same
    unfold intermediates at same
    simp only [List.cons.injEq] at same
    obtain ⟨own, current, -, -, -, threshold, size, -⟩ := same
    have grown : newMemoryPages u32 pages len = newMemoryPages id pages len := by
      unfold newMemoryPages
      rw [own, current, threshold]
    unfold newMemorySize at size
    rw [grown, newMemoryPages_id] at size
    have word := Int.emod_lt_of_pos ((grownPages pages len : Int) * pageSize) (show (0 : Int) < 2 ^ 32 by decide)
    have below : (grownPages pages len : Int) * 65536 < 2 ^ 32 := lt_of_eq_of_lt size.symm word
    rw [small_iff]
    omega
  · intro small
    rw [intermediates_exact u32_honest small, @intermediates_exact id pages len (fun _ _ _ => rfl) small]

/-! ### When the snapshot is alone there -/

/-- The sizes are small, the memory may and can hold the snapshot, and nothing else is there. -/
structure Clear (globals : Nat → Nat) (core : Core) (memory : MemoryType) (len ptrAddr lenAddr : Nat) : Prop where
  small : Small core.pages len
  defined : core.definedMemories ≠ [] → memory.pageBytes = 65536 ∧ ∀ most, memory.maximum = some most → grownPages core.pages len ≤ most
  imported : core.definedMemories = [] → home core.pages len + len ≤ memory.minimum * memory.pageBytes
  apart : ∀ segment ∈ core.segments, ∀ place, segment.place globals = some place →
    Disjoint (span (home core.pages len) len) (span place segment.data.length)
  cells : Disjoint (span (home core.pages len) len) (span ptrAddr 4) ∧ Disjoint (span (home core.pages len) len) (span lenAddr 4)

section
variable {globals : Nat → Nat} {core out : Core} {memory : MemoryType} {snapshot : Bytes} {ptrAddr lenAddr addr len : Nat}

theorem toI32_injective {a b : Nat} (small : a < 2 ^ 32) (small' : b < 2 ^ 32) (same : toI32 a = toI32 b) : a = b := by
  unfold toI32 at same
  split at same <;> split at same <;> omega

theorem snapshotAddr_word (pages len : Nat) : (snapshotAddr u32 pages len).toNat < 2 ^ 32 := by
  unfold snapshotAddr
  have low := Int.emod_nonneg (u32 (newMemorySize u32 pages len - snapshotSize u32 len) - pageSize) (show (2 : Int) ^ 32 ≠ 0 by decide)
  have high := Int.emod_lt_of_pos (u32 (newMemorySize u32 pages len - snapshotSize u32 len) - pageSize) (show (0 : Int) < 2 ^ 32 by decide)
  unfold u32 at low high ⊢
  omega

theorem added_length (addr : Nat) (snapshot : Bytes) (ptrAddr lenAddr : Nat) : (added addr snapshot ptrAddr lenAddr).length = 3 := rfl

/-- The address is seen in the segments. -/
theorem added_injective {addr other : Nat} {snapshot : Bytes} {ptrAddr lenAddr : Nat} {kept kept' : List Segment} (word : addr < 2 ^ 32)
    (word' : other < 2 ^ 32) (same : kept ++ added addr snapshot ptrAddr lenAddr = kept' ++ added other snapshot ptrAddr lenAddr) :
    addr = other := by
  obtain ⟨-, last⟩ := List.append_inj' same (by rw [added_length, added_length])
  rw [added, added, List.cons.injEq] at last
  have first := last.1
  rw [activeAt, activeAt, Segment.mk.injEq, DataKind.active.injEq, List.cons.injEq, Operator.i32Const.injEq] at first
  exact toI32_injective word word' first.1.2.1

theorem span_above {addr len place size : Nat} (above : place + size ≤ addr) : Disjoint (span addr len) (span place size) := by
  rw [span, span, Set.Ico_disjoint_Ico]
  omega

theorem home_end (pages len : Nat) : home pages len + len ≤ grownPages pages len * 65536 := by
  have room := needed_le pages len
  unfold home
  have enough : len ≤ roundUp len := by unfold roundUp; omega
  omega

/-- The snapshot is far above the pages of a small memory. -/
theorem home_far {pages : Nat} (small : Small pages len) : ¬ home pages len + len ≤ grownPages pages len := by
  have room := needed_le pages len
  have few := (small_iff pages len).mp small
  unfold home
  omega

/-- The memory is imported or defined. -/
theorem OneMemory.split (one : OneMemory globals core memory) :
    (core.imported.filterMap Import.memory? = [memory] ∧ core.definedMemories = [] ∧ core.pages = 0) ∨
      (core.imported.filterMap Import.memory? = [] ∧ core.definedMemories = [memory] ∧ core.pages = memory.minimum) := by
  rcases List.append_eq_singleton_iff.mp one.one with ⟨none, single⟩ | ⟨single, none⟩
  · exact .inr ⟨none, single, by rw [Core.pages, single]; rfl⟩
  · exact .inl ⟨single, none, by rw [Core.pages, none]; rfl⟩

theorem OneMemory.single (one : OneMemory globals core memory) (some : core.dataSections ≠ []) : (Core.dataSections core).length = 1 :=
  le_antisymm one.data (List.length_pos_iff.mpr some)

theorem OneMemory.pageBytes (one : OneMemory globals core memory) : memory.pageBytes = 65536 ∨ memory.pageBytes = 1 := by
  have known := one.pageSize
  simp only [List.mem_cons, List.not_mem_nil, or_false] at known
  rcases known with same | same | same
  · exact .inl (by rw [MemoryType.pageBytes, same]; rfl)
  · exact .inr (by rw [MemoryType.pageBytes, same]; rfl)
  · exact .inl (by rw [MemoryType.pageBytes, same]; rfl)

theorem snapshotAddr_home {pages : Nat} (small : Small pages len) : (snapshotAddr u32 pages len).toNat = home pages len := by
  rw [snapshotAddr_exact u32_honest small]
  exact Int.toNat_natCast _

theorem grow_maximum (pages : Int) (memory : MemoryType) : (grow pages memory).maximum = memory.maximum := rfl

theorem grow_pageBytes (pages : Int) (memory : MemoryType) : (grow pages memory).pageBytes = memory.pageBytes := rfl

theorem grow_minimum {pages : Nat} (small : Small pages len) (own : memory.minimum = pages) :
    (grow (newMemoryPages u32 pages len) memory).minimum = grownPages pages len := by
  have few := small.1
  have more : pages ≤ grownPages pages len := Nat.le_max_left _ _
  rw [newMemoryPages_exact u32_honest small, grow, own, u32_honest _ (by omega) (by omega)]
  dsimp only
  omega

/-- The segments of a module with one data section. -/
theorem rewritten_segments {pages : Int} {segments : List Segment} (rewritten : List.Forall₂ (Rewritten pages segments) core out)
    (one : (Core.dataSections core).length = 1) :
    ∃ kept, List.Forall₂ Reencoded (Core.segments core) kept ∧ Core.segments out = kept ++ segments := by
  obtain ⟨old, data⟩ := List.length_eq_one_iff.mp one
  have new := rewritten_data rewritten
  rw [data, List.forall₂_cons_left_iff] at new
  obtain ⟨later, rest, ⟨kept, each, rfl⟩, none, data'⟩ := new
  rw [List.forall₂_nil_left_iff] at none
  subst none
  refine ⟨kept, ?_, ?_⟩
  · rw [Core.segments, data, List.flatten_singleton]
    exact each
  · rw [Core.segments, data', List.flatten_singleton]

/-- What the new memory is like, if nothing wraps around. -/
theorem placed_memory (one : OneMemory globals core memory) (small : Small core.pages len)
    (rewritten : List.Forall₂ (Rewritten (newMemoryPages u32 core.pages len) (added addr snapshot ptrAddr lenAddr)) core out) :
    (∀ memory ∈ Core.memories out, home core.pages len + len ≤ memory.minimum * memory.pageBytes) ∧
        (∀ memory ∈ Core.memories out, ∀ most, memory.maximum = some most → memory.minimum ≤ most) ↔
      (core.definedMemories ≠ [] → memory.pageBytes = 65536 ∧ ∀ most, memory.maximum = some most → grownPages core.pages len ≤ most) ∧
        (core.definedMemories = [] → home core.pages len + len ≤ memory.minimum * memory.pageBytes) := by
  rw [rewritten_memories rewritten]
  rcases one.split with ⟨imported, defined, -⟩ | ⟨imported, defined, own⟩
  · rw [imported, defined, List.map_nil, List.append_nil, List.forall_mem_singleton, List.forall_mem_singleton]
    exact ⟨fun both => ⟨fun some => absurd rfl some, fun _ => both.1⟩, fun both => ⟨both.2 rfl, one.limited⟩⟩
  · rw [imported, defined, List.map_singleton, List.nil_append, List.forall_mem_singleton, List.forall_mem_singleton,
      grow_minimum small own.symm, grow_maximum, grow_pageBytes]
    constructor
    · rintro ⟨inside, limited⟩
      refine ⟨fun _ => ⟨?_, limited⟩, fun none => (by cases none)⟩
      rcases one.pageBytes with large | tiny
      · exact large
      · rw [tiny, Nat.mul_one] at inside
        exact absurd inside (home_far small)
    · rintro ⟨known, -⟩
      obtain ⟨large, limited⟩ := known (List.cons_ne_nil _ _)
      rw [large]
      exact ⟨home_end _ _, limited⟩

/-- The new module is as it should be exactly if the program's own data and the memory's limit leave the place alone. -/
theorem placed_clear (one : OneMemory globals core memory) (some : (Core.dataSections core).length = 1)
    (rewritten : List.Forall₂ (Rewritten (newMemoryPages u32 core.pages snapshot.length)
      (added (snapshotAddr u32 core.pages snapshot.length).toNat snapshot ptrAddr lenAddr)) core out) :
    (∃ addr, Placed globals core out snapshot ptrAddr lenAddr addr) ↔ Clear globals core memory snapshot.length ptrAddr lenAddr := by
  obtain ⟨kept, each, segments⟩ := rewritten_segments rewritten some
  constructor
  · rintro ⟨addr, placed⟩
    have small := (unwrapped_iff _ _).mp placed.unwrapped
    obtain ⟨kept', -, segments'⟩ := placed.embedded
    have here := added_injective placed.word (snapshotAddr_word _ _) (segments'.symm.trans segments)
    rw [snapshotAddr_home small] at here
    subst here
    obtain ⟨defined, imported⟩ := (placed_memory one small rewritten).mp ⟨placed.inside, placed.limited⟩
    exact ⟨small, defined, imported, placed.apart, placed.cells⟩
  · intro clear
    have memories := (placed_memory one clear.small rewritten).mpr ⟨clear.defined, clear.imported⟩
    have here := snapshotAddr_home clear.small
    have word := snapshotAddr_word core.pages snapshot.length
    rw [here] at segments word
    exact ⟨home core.pages snapshot.length, ⟨kept, each.length_eq.symm, segments⟩, word, memories.1, memories.2,
      (unwrapped_iff _ _).mpr clear.small, clear.apart, clear.cells⟩

/-- A module with data is harmed if the place is not clear. -/
theorem harmed_of_not_clear (one : OneMemory globals core memory) (some : (Core.dataSections core).length = 1)
    (constant : ∀ segment ∈ core.segments, segment.Constant) (snapshot : Bytes) (ptrAddr lenAddr : Nat)
    (unclear : ¬ Clear globals core memory snapshot.length ptrAddr lenAddr) :
    ∃ out, modifyCoreModule core snapshot ptrAddr lenAddr = .ok out ∧ ¬ ∃ addr, Placed globals core out snapshot ptrAddr lenAddr addr := by
  obtain ⟨out, ok⟩ := modify_total (List.length_pos_iff.mp (some ▸ Nat.one_pos)) constant snapshot ptrAddr lenAddr
  have rewritten := (modify_rewritten.mp ok).2
  exact ⟨out, ok, fun placed => unclear ((placed_clear one some rewritten).mp placed)⟩

/-- Embedding is without harm exactly if it is refused, or nothing is where the snapshot goes. -/
theorem placed_iff (one : OneMemory globals core memory) (snapshot : Bytes) (ptrAddr lenAddr : Nat) :
    (∀ out, modifyCoreModule core snapshot ptrAddr lenAddr = .ok out → ∃ addr, Placed globals core out snapshot ptrAddr lenAddr addr) ↔
      core.dataSections = [] ∨ (∃ segment ∈ core.segments, ¬ segment.Constant) ∨
        Clear globals core memory snapshot.length ptrAddr lenAddr := by
  constructor
  · intro placed
    by_cases none : core.dataSections = []
    · exact .inl none
    by_cases constant : ∀ segment ∈ core.segments, segment.Constant
    · refine .inr (.inr (by_contra fun unclear => ?_))
      obtain ⟨out, ok, harmed⟩ := harmed_of_not_clear one (one.single none) constant snapshot ptrAddr lenAddr unclear
      exact harmed (placed out ok)
    · push Not at constant
      exact .inr (.inl constant)
  · intro harmless out ok
    obtain ⟨some, rewritten⟩ := modify_rewritten.mp ok
    rcases harmless with none | ⟨segment, within, other⟩ | clear
    · exact absurd none some
    · exact absurd (rewritten_constant rewritten segment within) other
    · exact (placed_clear one (one.single some) rewritten).mpr clear

end

/-! ### A byte of data -/

/-- A module with 64 pages, and a byte at this address. -/
def byteAt (addr : Int) : Core := [.memories [⟨64, none, false, false, none⟩], .data [⟨.active 0 [.i32Const addr], [1]⟩]]

theorem byteAt_home (addr : Int) : home (Core.pages (byteAt addr)) 16 = 4128752 := by
  have pages : Core.pages (byteAt addr) = 64 := rfl
  rw [pages]
  decide

theorem byteAt_constant (addr : Int) : ∀ segment ∈ (byteAt addr).segments, segment.Constant := by
  intro segment within memoryIndex ops active
  cases List.mem_singleton.mp within
  cases active
  exact ⟨_, _, rfl⟩

section
variable {addr : Int} (low : 0 ≤ addr) (high : addr < 4194304)
include low high

theorem byteAt_place (globals : Nat → Nat) {segment : Segment} (within : segment ∈ (byteAt addr).segments) {place : Nat}
    (here : segment.place globals = some place) : place = addr.toNat ∧ segment.data.length = 1 := by
  cases List.mem_singleton.mp within
  cases here
  rw [u32_honest addr low (by omega)]
  exact ⟨rfl, rfl⟩

theorem byteAt_oneMemory (globals : Nat → Nat) : OneMemory globals (byteAt addr) ⟨64, none, false, false, none⟩ where
  one := rfl
  narrow := rfl
  pageSize := by decide
  few := by decide
  limited := fun most none => (by cases none)
  data := le_of_eq rfl
  inside := by
    intro segment within place here
    obtain ⟨rfl, one⟩ := byteAt_place low high globals within here
    have bytes : MemoryType.pageBytes ⟨64, none, false, false, none⟩ = 65536 := rfl
    rw [one, bytes]
    dsimp only
    omega

/-- A byte below the snapshot is left alone. -/
theorem byteAt_clear (globals : Nat → Nat) (below : addr < 4128752) :
    Clear globals (byteAt addr) ⟨64, none, false, false, none⟩ 16 1040 1044 := by
  have home : home (Core.pages (byteAt addr)) 16 = 4128752 := byteAt_home addr
  refine ⟨⟨(by decide : 64 < 65536), by decide⟩, fun _ => ⟨rfl, fun most none => (by cases none)⟩, fun none => (by cases none), ?_, ?_, ?_⟩
  · intro segment within place here
    obtain ⟨rfl, one⟩ := byteAt_place low high globals within here
    rw [home, one]
    exact span_above (by omega)
  · rw [home]
    exact span_above (by decide)
  · rw [home]
    exact span_above (by decide)

end

theorem byteAt_not_clear {globals : Nat → Nat} {memory : MemoryType} {len ptrAddr lenAddr : Nat} (size : len = 16) :
    ¬ Clear globals (byteAt 4128752) memory len ptrAddr lenAddr := by
  intro clear
  have place : Segment.place globals ⟨.active 0 [.i32Const 4128752], [1]⟩ = some 4128752 := rfl
  have apart := clear.apart _ List.mem_cons_self _ place
  rw [size, byteAt_home] at apart
  have within (len : Nat) (some : 0 < len) : 4128752 ∈ span 4128752 len := Set.mem_Ico.mpr ⟨le_refl _, Nat.lt_add_of_pos_right some⟩
  exact Set.disjoint_left.mp apart (within 16 (by decide)) (within 1 Nat.one_pos)

/-- A byte at the beginning is left alone. -/
theorem low_placed : ∃ out, modifyCoreModule (byteAt 1024) (List.replicate 16 7) 1040 1044 = .ok out ∧
    ∃ addr, Placed (fun _ => 0) (byteAt 1024) out (List.replicate 16 7) 1040 1044 addr := by
  have some : Core.dataSections (byteAt 1024) ≠ [] := List.cons_ne_nil _ _
  obtain ⟨out, ok⟩ := modify_total some (byteAt_constant 1024) (List.replicate 16 7) 1040 1044
  have clear := byteAt_clear (show (0 : Int) ≤ 1024 by decide) (by decide) (fun _ => 0) (by decide)
  exact ⟨out, ok, (placed_iff (byteAt_oneMemory (by decide) (by decide) _) (List.replicate 16 7) 1040 1044).mpr (.inr (.inr clear)) out ok⟩

/-- A byte one page and 16 bytes below the end is overwritten. -/
theorem high_overwritten : ¬ ∀ (globals : Nat → Nat) (core : Core) (memory : MemoryType), OneMemory globals core memory →
    ∀ snapshot ptrAddr lenAddr out, modifyCoreModule core snapshot ptrAddr lenAddr = .ok out →
      ∃ addr, Placed globals core out snapshot ptrAddr lenAddr addr := by
  intro all
  have one := @byteAt_oneMemory 4128752 (by decide) (by decide) fun _ => 0
  obtain ⟨out, ok, harmed⟩ := harmed_of_not_clear one rfl (byteAt_constant _) (List.replicate 16 7) 1040 1044 (byteAt_not_clear List.length_replicate)
  exact harmed (all _ _ _ one _ _ _ out ok)

end MonakaFs.Cli.CoreModule
