import MonakaFs.Cli.Layout

/-! What is rewritten, and whether the new module is valid.

The sections that are copied may speak of those that are not: the number of segments is
written down a second time, in a section of its own.
-/

set_option autoImplicit false

namespace MonakaFs.Cli.CoreModule

open FsCore

/-! ### Valid modules -/

/-- The type of a constant expression. -/
def typeOf (globals : List GlobalType) : List Operator → List ValType → Option ValType
  | [], [type] => some type
  | .i32Const _ :: ops, stack => typeOf globals ops (.i32 :: stack)
  | .i64Const _ :: ops, stack => typeOf globals ops (.i64 :: stack)
  | .globalGet index :: ops, stack =>
      match globals[index]? with
      | some ⟨content, false⟩ => typeOf globals ops (content :: stack)
      | _ => none
  | .i32Add :: ops, .i32 :: .i32 :: stack => typeOf globals ops (.i32 :: stack)
  | .i32Sub :: ops, .i32 :: .i32 :: stack => typeOf globals ops (.i32 :: stack)
  | .i32Mul :: ops, .i32 :: .i32 :: stack => typeOf globals ops (.i32 :: stack)
  | .i64Add :: ops, .i64 :: .i64 :: stack => typeOf globals ops (.i64 :: stack)
  | .i64Sub :: ops, .i64 :: .i64 :: stack => typeOf globals ops (.i64 :: stack)
  | .i64Mul :: ops, .i64 :: .i64 :: stack => typeOf globals ops (.i64 :: stack)
  | _, _ => none

def MemoryType.addressType (memory : MemoryType) : ValType := if memory.memory64 then .i64 else .i32

/-- The pages that can be addressed. -/
def MemoryType.limit (memory : MemoryType) : Nat := 2 ^ ((if memory.memory64 then 64 else 32) - memory.pageSizeLog2.getD 16)

structure MemoryType.Valid (memory : MemoryType) : Prop where
  few : memory.minimum ≤ memory.limit
  most : ∀ most, memory.maximum = some most → memory.minimum ≤ most ∧ most ≤ memory.limit
  shared : memory.shared → memory.maximum.isSome

def Import.global? (entry : Import) : Option GlobalType :=
  match entry.type with
  | .global type => some type
  | _ => none

def Section.definedGlobals : Section → List Global
  | .globals types => types
  | _ => []

namespace Core

variable (core : Core)

def definedGlobals : List Global := core.flatMap Section.definedGlobals

/-- Imported globals come first. -/
def globalTypes : List GlobalType := core.imported.filterMap Import.global? ++ core.definedGlobals.map (·.type)

def addressTypes : List ValType := core.memories.map MemoryType.addressType

end Core

def Segment.Valid (core : Core) (segment : Segment) : Prop :=
  ∀ memoryIndex offset, segment.kind = .active memoryIndex offset →
    ∃ type, core.addressTypes[memoryIndex]? = some type ∧ typeOf core.globalTypes offset [] = some type

/-- A section without the sizes of its memories and without its segments. -/
def Section.shape : Section → Section
  | .memories types => .memories (types.map fun memory => { memory with minimum := 0 })
  | .data _ => .data []
  | part => part

/-- Whatever else a module has to meet, `rest` says. -/
structure Valid (rest : Core → Prop) (core : Core) : Prop where
  rest : rest (core.map Section.shape)
  memories : ∀ memory ∈ core.definedMemories, memory.Valid
  counted : ∀ count, .dataCount count ∈ core → count = core.segments.length
  segments : ∀ segment ∈ core.segments, segment.Valid core

/-! ### What may change -/

def Raised (memory later : MemoryType) : Prop := later = { memory with minimum := later.minimum } ∧ memory.minimum ≤ later.minimum

inductive Corresponding (segments : List Segment) : Section → Section → Prop where
  | memories {types later : List MemoryType} (each : List.Forall₂ Raised types later) :
      Corresponding segments (.memories types) (.memories later)
  | data (old : List Segment) : Corresponding segments (.data old) (.data (old ++ segments))
  | same {part : Section} (defined : ∀ types, part ≠ .memories types) (data : ∀ old, part ≠ .data old) : Corresponding segments part part

/-- Memories are raised and segments are added. All else is as it was, and the module is valid. -/
structure Conservative (rest : Core → Prop) (core out : Core) (snapshot : Bytes) (ptrAddr lenAddr : Nat) : Prop where
  sections : ∃ addr, List.Forall₂ (Corresponding (added addr snapshot ptrAddr lenAddr)) core out
  counted : ∀ count, .dataCount count ∈ out → count = out.segments.length
  valid : Valid rest out

/-! ### When nothing else has to change -/

/-- The bytes that the layout asks for, as a 32-bit word. -/
def neededBytes (len : Nat) : Nat := (0x200000 + 256 + roundUp len) % 2 ^ 32

def Segment.Single (segment : Segment) : Prop := ∀ memoryIndex ops, segment.kind = .active memoryIndex ops → ∃ value, ops = [.i32Const value]

/-- The memory may grow as far as it is asked to. -/
def MemoryType.Roomy (memory : MemoryType) (pages len : Nat) : Prop :=
  ∀ most, most = memory.limit ∨ memory.maximum = some most → pages ≤ most ∧ neededBytes len ≤ most * 65536

/-- Segments are not counted elsewhere, offsets are constants, and the memories can take what they get. -/
structure Plain (core : Core) (len : Nat) : Prop where
  uncounted : ∀ count, .dataCount count ∉ core
  single : ∀ segment ∈ core.segments, segment.Single
  words : ∀ memory ∈ core.definedMemories, memory.minimum < 2 ^ 32
  roomy : ∀ memory ∈ core.definedMemories, memory.Roomy core.pages len
  first : core.addressTypes[0]? = some .i32

/-! ### Sizes -/

theorem threshold_needed (len : Nat) : threshold u32 len = neededBytes len := by
  unfold threshold snapshotSpaceNeeded snapshotSize neededBytes roundUp u32
  push_cast
  omega

theorem newMemoryPages_le {pages : Nat} (word : pages < 2 ^ 32) (len most : Nat) :
    newMemoryPages u32 pages len ≤ most ↔ pages ≤ most ∧ neededBytes len ≤ most * 65536 := by
  unfold newMemoryPages currentMemorySize pageSize
  rw [threshold_needed, u32_honest pages (by omega) (by omega)]
  generalize neededBytes len = needed
  unfold u32
  split
  · omega
  · omega

theorem newMemoryPages_word (pages len : Nat) : 0 ≤ newMemoryPages u32 pages len ∧ newMemoryPages u32 pages len < 2 ^ 32 := by
  have most : neededBytes len < 2 ^ 32 := Nat.mod_lt _ (Nat.two_pow_pos 32)
  unfold newMemoryPages currentMemorySize pageSize
  rw [threshold_needed]
  generalize neededBytes len = needed at most
  unfold u32
  split
  · omega
  · omega

/-! ### A memory -/

section
variable {memory : MemoryType} {pages : Int}

theorem grow_raised (low : 0 ≤ pages) (high : pages < 2 ^ 32) : Raised memory (grow pages memory) ↔ memory.minimum < 2 ^ 32 := by
  have minimum : (grow pages memory).minimum = (max (u32 memory.minimum) pages).toNat := rfl
  unfold Raised
  rw [minimum]
  unfold u32
  constructor
  · rintro ⟨-, raised⟩
    omega
  · intro word
    refine ⟨rfl, ?_⟩
    omega

/-- A memory that was valid stays so if it may have these pages. -/
theorem grow_valid (valid : memory.Valid) (word : memory.minimum < 2 ^ 32) :
    (grow pages memory).Valid ↔ ∀ most : Nat, most = memory.limit ∨ memory.maximum = some most → pages ≤ most := by
  have minimum (most : Nat) : (grow pages memory).minimum ≤ most ↔ memory.minimum ≤ most ∧ pages ≤ most := by
    have grown : (grow pages memory).minimum = (max (u32 memory.minimum) pages).toNat := rfl
    rw [grown, u32_honest _ (by omega) (by omega)]
    omega
  constructor
  · rintro ⟨few, most, -⟩ bound (rfl | known)
    · exact ((minimum _).mp few).2
    · exact ((minimum _).mp (most bound known).1).2
  · intro roomy
    refine ⟨?_, ?_, valid.shared⟩
    · exact (minimum _).mpr ⟨valid.few, roomy _ (.inl rfl)⟩
    · intro most known
      obtain ⟨enough, bounded⟩ := valid.most most known
      exact ⟨(minimum _).mpr ⟨enough, roomy most (.inr known)⟩, bounded⟩

end

/-! ### A segment -/

theorem Reencoded.single {segment later : Segment} (reencoded : Reencoded segment later) : later.Single ∧ (segment.Single ↔ later = segment) := by
  cases reencoded with
  | active memoryIndex value rest data =>
    constructor
    · intro other ops same
      cases same
      exact ⟨value, rfl⟩
    · constructor
      · intro single
        obtain ⟨other, same⟩ := single memoryIndex _ rfl
        cases same
        rfl
      · intro same
        cases same
        intro other ops active
        cases active
        exact ⟨value, rfl⟩
  | passive data =>
    constructor
    · intro other ops same
      cases same
    · refine ⟨fun _ => rfl, fun _ other ops same => ?_⟩
      cases same

theorem reencoded_single {old kept : List Segment} (each : List.Forall₂ Reencoded old kept) :
    (∀ segment ∈ old, segment.Single) ↔ kept = old := by
  induction each with
  | nil => exact ⟨fun _ => rfl, fun _ _ member => by cases member⟩
  | cons here rest ih => rw [List.forall_mem_cons, ih, here.single.2, List.cons.injEq]

theorem reencoded_mem {old kept : List Segment} (each : List.Forall₂ Reencoded old kept) {later : Segment} (within : later ∈ kept) :
    ∃ segment ∈ old, Reencoded segment later := by
  induction each with
  | nil => cases within
  | cons here rest ih =>
    rcases List.mem_cons.mp within with rfl | others
    · exact ⟨_, List.mem_cons_self, here⟩
    · obtain ⟨segment, member, reencoded⟩ := ih others
      exact ⟨segment, List.mem_cons_of_mem _ member, reencoded⟩

section
variable {core out : Core} {pages : Int} {segments : List Segment} {part later : Section}

/-! ### A section -/

theorem Rewritten.corresponding (rewritten : Rewritten pages segments part later) (low : 0 ≤ pages) (high : pages < 2 ^ 32)
    (single : ∀ segment ∈ part.data?.getD [], segment.Single) (words : ∀ memory ∈ part.defined, memory.minimum < 2 ^ 32) :
    Corresponding segments part later := by
  cases rewritten with
  | memories types =>
    refine .memories (List.forall₂_map_right_iff.mpr (List.forall₂_same.mpr fun memory within => ?_))
    exact (grow_raised low high).mpr (words memory within)
  | data each =>
    have same := (reencoded_single each).mp single
    subst same
    exact .data _
  | same defined data => exact .same defined data

theorem Corresponding.raised {types : List MemoryType} (corresponding : Corresponding segments (.memories types) later) :
    ∃ grown, later = .memories grown ∧ List.Forall₂ Raised types grown := by
  cases corresponding with
  | memories each => exact ⟨_, rfl, each⟩
  | same defined data => exact absurd rfl (defined types)

theorem Corresponding.extended {old : List Segment} (corresponding : Corresponding segments (.data old) later) : later = .data (old ++ segments) := by
  cases corresponding with
  | data old => rfl
  | same defined data => exact absurd rfl (data old)

theorem Rewritten.plain {others : List Segment} (rewritten : Rewritten pages segments part later) (low : 0 ≤ pages) (high : pages < 2 ^ 32)
    (long : segments.length = others.length) (corresponding : Corresponding others part later) :
    (∀ segment ∈ part.data?.getD [], segment.Single) ∧ ∀ memory ∈ part.defined, memory.minimum < 2 ^ 32 := by
  cases rewritten with
  | memories types =>
    refine ⟨fun _ member => (by cases member), fun memory within => ?_⟩
    obtain ⟨grown, same, each⟩ := corresponding.raised
    cases same
    rw [List.forall₂_map_right_iff, List.forall₂_same] at each
    exact (grow_raised low high).mp (each memory within)
  | data each =>
    refine ⟨?_, fun _ member => (by cases member)⟩
    have same := List.append_inj' (Section.data.inj corresponding.extended) long
    exact (reencoded_single each).mpr same.1
  | same defined data =>
    cases part with
    | memories types => exact absurd rfl (defined types)
    | data old => exact absurd rfl (data old)
    | _ => exact ⟨fun _ member => (by cases member), fun _ member => (by cases member)⟩

/-! ### A module -/

theorem plain_of_corresponding {others : List Segment} (rewritten : List.Forall₂ (Rewritten pages segments) core out) (low : 0 ≤ pages)
    (high : pages < 2 ^ 32) (long : segments.length = others.length) (corresponding : List.Forall₂ (Corresponding others) core out) :
    (∀ segment ∈ Core.segments core, segment.Single) ∧ ∀ memory ∈ Core.definedMemories core, memory.minimum < 2 ^ 32 := by
  induction rewritten with
  | nil => exact ⟨fun _ member => (by cases member), fun _ member => (by cases member)⟩
  | cons here rest ih =>
    obtain ⟨first, others⟩ := List.forall₂_cons.mp corresponding
    obtain ⟨single, words⟩ := here.plain low high long first
    obtain ⟨single', words'⟩ := ih others
    rw [segments_cons]
    exact ⟨List.forall_mem_append.mpr ⟨single, single'⟩, List.forall_mem_append.mpr ⟨words, words'⟩⟩

theorem corresponding_of_plain (rewritten : List.Forall₂ (Rewritten pages segments) core out) (low : 0 ≤ pages) (high : pages < 2 ^ 32)
    (single : ∀ segment ∈ Core.segments core, segment.Single) (words : ∀ memory ∈ Core.definedMemories core, memory.minimum < 2 ^ 32) :
    List.Forall₂ (Corresponding segments) core out := by
  induction rewritten with
  | nil => exact .nil
  | cons here rest ih =>
    rw [segments_cons] at single
    obtain ⟨first, others⟩ := List.forall_mem_append.mp single
    obtain ⟨first', others'⟩ := List.forall_mem_append.mp words
    exact .cons (here.corresponding low high first first') (ih others others')

theorem Rewritten.shape (rewritten : Rewritten pages segments part later) : later.shape = part.shape := by
  cases rewritten with
  | memories types =>
    rw [Section.shape, List.map_map]
    rfl
  | data each => rfl
  | same defined data => rfl

theorem Rewritten.definedGlobals (rewritten : Rewritten pages segments part later) : later.definedGlobals = part.definedGlobals := by
  cases rewritten with
  | memories types => rfl
  | data each => rfl
  | same defined data => rfl

theorem Rewritten.count (rewritten : Rewritten pages segments part later) (count : Nat) : later = .dataCount count ↔ part = .dataCount count := by
  cases rewritten with
  | memories types => exact ⟨fun same => (by cases same), fun same => (by cases same)⟩
  | data each => exact ⟨fun same => (by cases same), fun same => (by cases same)⟩
  | same defined data => rfl

section
variable (rewritten : List.Forall₂ (Rewritten pages segments) core out)
include rewritten

theorem rewritten_shape : out.map Section.shape = core.map Section.shape := by
  induction rewritten with
  | nil => rfl
  | cons here rest ih => rw [List.map_cons, List.map_cons, here.shape, ih]

theorem rewritten_count (count : Nat) : Section.dataCount count ∈ out ↔ Section.dataCount count ∈ core := by
  induction rewritten with
  | nil => rfl
  | cons here rest ih => rw [List.mem_cons, List.mem_cons, ih, eq_comm, here.count, eq_comm]

theorem rewritten_globalTypes : Core.globalTypes out = Core.globalTypes core := by
  have globals : Core.definedGlobals out = Core.definedGlobals core := by
    induction rewritten with
    | nil => rfl
    | cons here rest ih => exact congrArg₂ (· ++ ·) here.definedGlobals ih
  rw [Core.globalTypes, Core.globalTypes, rewritten_imported rewritten, globals]

theorem rewritten_addressTypes : Core.addressTypes out = Core.addressTypes core := by
  have same : MemoryType.addressType ∘ grow pages = MemoryType.addressType := rfl
  rw [Core.addressTypes, Core.addressTypes, rewritten_memories rewritten, Core.memories, List.map_append, List.map_append, List.map_map, same]

theorem rewritten_length : (Core.segments out).length = (Core.segments core).length + segments.length * (Core.dataSections core).length := by
  have data := rewritten_data rewritten
  unfold Core.segments
  generalize Core.dataSections core = old, Core.dataSections out = new at data
  induction data with
  | nil => rfl
  | cons here rest ih =>
    obtain ⟨kept, each, rfl⟩ := here
    rw [List.flatten_cons, List.flatten_cons, List.length_append, List.length_append, List.length_append, ih, List.length_cons,
      each.length_eq]
    ring

theorem rewritten_valid (segment : Segment) : segment.Valid out ↔ segment.Valid core := by
  rw [Segment.Valid, Segment.Valid, rewritten_globalTypes rewritten, rewritten_addressTypes rewritten]

/-- A segment of the new module is one of the old ones, or was added. -/
theorem mem_rewritten {segment : Segment} (within : segment ∈ Core.segments out) :
    (∃ old ∈ Core.segments core, Reencoded old segment) ∨ segment ∈ segments := by
  have data := rewritten_data rewritten
  unfold Core.segments at within ⊢
  generalize Core.dataSections core = old, Core.dataSections out = new at data within
  induction data with
  | nil => cases within
  | @cons before after _ _ here rest ih =>
    obtain ⟨kept, each, rfl⟩ := here
    rw [List.flatten_cons] at within ⊢
    rcases List.mem_append.mp within with first | others
    · rcases List.mem_append.mp first with known | new
      · obtain ⟨origin, member, reencoded⟩ := reencoded_mem each known
        exact .inl ⟨origin, List.mem_append_left _ member, reencoded⟩
      · exact .inr new
    · rcases ih others with ⟨origin, member, reencoded⟩ | new
      · exact .inl ⟨origin, List.mem_append_right _ member, reencoded⟩
      · exact .inr new

theorem added_mem (some : Core.dataSections core ≠ []) : ∀ segment ∈ segments, segment ∈ Core.segments out := by
  have data := rewritten_data rewritten
  unfold Core.segments
  generalize Core.dataSections core = old, Core.dataSections out = new at data some
  cases data with
  | nil => exact absurd rfl some
  | cons here rest =>
    obtain ⟨kept, each, rfl⟩ := here
    exact fun segment within => List.mem_append_left _ (List.mem_append_right _ within)

end

end

theorem activeAt_valid (core : Core) (addr : Nat) (data : Bytes) : (activeAt addr data).Valid core ↔ core.addressTypes[0]? = some .i32 := by
  constructor
  · intro valid
    obtain ⟨type, there, typed⟩ := valid 0 _ rfl
    cases typed
    exact there
  · intro first memoryIndex offset active
    cases active
    exact ⟨.i32, first, rfl⟩

theorem added_active {addr : Nat} {snapshot : Bytes} {ptrAddr lenAddr : Nat} {segment : Segment}
    (within : segment ∈ added addr snapshot ptrAddr lenAddr) : ∃ place data, segment = activeAt place data := by
  simp only [added, List.mem_cons, List.not_mem_nil, or_false] at within
  rcases within with rfl | rfl | rfl
  · exact ⟨_, _, rfl⟩
  · exact ⟨_, _, rfl⟩
  · exact ⟨_, _, rfl⟩

/-! ### Embedding -/

section
variable {rest : Core → Prop} {core out : Core} {snapshot : Bytes} {ptrAddr lenAddr : Nat}

/-- The layout is made for a word, if all minima are words. -/
theorem pages_word (words : ∀ memory ∈ Core.definedMemories core, memory.minimum < 2 ^ 32) : Core.pages core < 2 ^ 32 := by
  unfold Core.pages
  cases last : (Core.definedMemories core).getLast? with
  | none => exact Nat.two_pow_pos 32
  | some memory => exact words memory (List.mem_of_getLast? last)

theorem conservative_plain (valid : Valid rest core) (ok : modifyCoreModule core snapshot ptrAddr lenAddr = .ok out)
    (conservative : Conservative rest core out snapshot ptrAddr lenAddr) : Plain core snapshot.length := by
  obtain ⟨some, rewritten⟩ := modify_rewritten.mp ok
  obtain ⟨⟨addr, corresponding⟩, counted, valid'⟩ := conservative
  obtain ⟨low, high⟩ := newMemoryPages_word core.pages snapshot.length
  obtain ⟨single, words⟩ := plain_of_corresponding rewritten low high (by rw [added_length, added_length]) corresponding
  have word := pages_word words
  refine ⟨?_, single, words, ?_, ?_⟩
  · intro count within
    have before := valid.counted count within
    have after := counted count ((rewritten_count rewritten count).mpr within)
    have more := List.length_pos_iff.mpr some
    rw [rewritten_length rewritten, added_length] at after
    omega
  · intro memory within most bound
    have grown := valid'.memories
    rw [rewritten_defined rewritten, List.forall_mem_map] at grown
    exact (newMemoryPages_le word _ _).mp ((grow_valid (valid.memories memory within) (words memory within)).mp (grown memory within) most bound)
  · have within := added_mem rewritten some _ List.mem_cons_self
    exact (activeAt_valid core _ _).mp ((rewritten_valid rewritten _).mp (valid'.segments _ within))

theorem plain_conservative (valid : Valid rest core) (ok : modifyCoreModule core snapshot ptrAddr lenAddr = .ok out)
    (plain : Plain core snapshot.length) : Conservative rest core out snapshot ptrAddr lenAddr := by
  obtain ⟨some, rewritten⟩ := modify_rewritten.mp ok
  obtain ⟨low, high⟩ := newMemoryPages_word core.pages snapshot.length
  have uncounted (count : Nat) : Section.dataCount count ∉ out := fun within => plain.uncounted count ((rewritten_count rewritten count).mp within)
  have corresponding := corresponding_of_plain rewritten low high plain.single plain.words
  refine ⟨⟨_, corresponding⟩, fun count within => absurd within (uncounted count), ?_, ?_, fun count within => absurd within (uncounted count), ?_⟩
  · rw [rewritten_shape rewritten]
    exact valid.rest
  · rw [rewritten_defined rewritten, List.forall_mem_map]
    intro memory within
    refine (grow_valid (valid.memories memory within) (plain.words memory within)).mpr fun most bound => ?_
    exact (newMemoryPages_le (pages_word plain.words) _ _).mpr (plain.roomy memory within most bound)
  · intro segment within
    rw [rewritten_valid rewritten]
    rcases mem_rewritten rewritten within with ⟨old, member, reencoded⟩ | new
    · rw [reencoded.single.2.mp (plain.single old member)]
      exact valid.segments old member
    · obtain ⟨addr, data, rfl⟩ := added_active new
      exact (activeAt_valid core addr data).mpr plain.first

/-- Of a valid module that is accepted, nothing else is changed and a valid one is made exactly if it is plain. -/
theorem conservative_iff (valid : Valid rest core) (ok : modifyCoreModule core snapshot ptrAddr lenAddr = .ok out) :
    Conservative rest core out snapshot ptrAddr lenAddr ↔ Plain core snapshot.length :=
  ⟨conservative_plain valid ok, plain_conservative valid ok⟩

end

/-! ### A byte of data -/

/-- The module with a byte, and possibly with the number of its segments. -/
def counting (counted : Bool) : Core :=
  [.memories [⟨64, none, false, false, none⟩], if counted then .dataCount 1 else .custom "name" [], .data [⟨.active 0 [.i32Const 1024], [1]⟩]]

theorem counting_some (counted : Bool) : Core.dataSections (counting counted) = [[⟨.active 0 [.i32Const 1024], [1]⟩]] := by
  cases counted <;> rfl

theorem counting_defined (counted : Bool) : Core.definedMemories (counting counted) = [⟨64, none, false, false, none⟩] := by
  cases counted <;> rfl

theorem counting_first (counted : Bool) : (Core.addressTypes (counting counted))[0]? = some .i32 := by
  cases counted <;> rfl

theorem counting_single (counted : Bool) : ∀ segment ∈ Core.segments (counting counted), segment.Single := by
  intro segment within memoryIndex ops active
  rw [Core.segments, counting_some] at within
  cases List.mem_singleton.mp within
  cases active
  exact ⟨_, rfl⟩

theorem counting_valid (counted : Bool) : Valid (fun _ => True) (counting counted) where
  rest := trivial
  memories := by
    intro memory within
    rw [counting_defined] at within
    cases List.mem_singleton.mp within
    exact ⟨by decide, fun most none => (by cases none), fun shared => (by cases shared)⟩
  counted := by
    intro count within
    rw [Core.segments, counting_some]
    cases counted <;> simp [counting] at within
    exact within
  segments := by
    intro segment within memoryIndex offset active
    rw [Core.segments, counting_some] at within
    cases List.mem_singleton.mp within
    cases active
    exact ⟨.i32, counting_first counted, rfl⟩

theorem counting_total (counted : Bool) : ∃ out, modifyCoreModule (counting counted) (List.replicate 16 7) 1040 1044 = .ok out :=
  modify_total (by rw [counting_some]; exact List.cons_ne_nil _ _)
    (fun segment within memoryIndex ops active => (counting_single counted segment within memoryIndex ops active).imp fun value same => ⟨[], same⟩) _ _ _

theorem uncounted_plain : Plain (counting false) 16 where
  uncounted := by simp [counting]
  single := counting_single false
  words := by
    intro memory within
    cases List.mem_singleton.mp within
    decide
  roomy := by
    intro memory within most bound
    cases List.mem_singleton.mp within
    rcases bound with rfl | none
    · exact ⟨by decide, by decide⟩
    · cases none
  first := counting_first false

/-- Without the number, only the data change. -/
theorem uncounted_conservative : ∃ out, modifyCoreModule (counting false) (List.replicate 16 7) 1040 1044 = .ok out ∧
    Conservative (fun _ => True) (counting false) out (List.replicate 16 7) 1040 1044 := by
  obtain ⟨out, ok⟩ := counting_total false
  exact ⟨out, ok, (conservative_iff (counting_valid false) ok).mpr uncounted_plain⟩

/-- The number is copied, and wrong after that. -/
theorem counted_invalid : ¬ ∀ (rest : Core → Prop) (core out : Core) (snapshot : Bytes) (ptrAddr lenAddr : Nat), Valid rest core →
    modifyCoreModule core snapshot ptrAddr lenAddr = .ok out → Conservative rest core out snapshot ptrAddr lenAddr := by
  intro all
  obtain ⟨out, ok⟩ := counting_total true
  have plain := conservative_plain (counting_valid true) ok (all _ _ _ _ _ _ (counting_valid true) ok)
  exact plain.uncounted 1 (by simp [counting])

end MonakaFs.Cli.CoreModule
