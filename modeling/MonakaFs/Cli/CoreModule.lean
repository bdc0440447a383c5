import MonakaFs.FsCore.Types

/-! Core modules, and how a snapshot is put into one.

The memory is made large enough, and the snapshot is put one page below its end. Whatever
the program itself has there is overwritten. The sizes are 32-bit words, which wrap.
-/

set_option autoImplicit false

namespace MonakaFs.Cli.CoreModule

open FsCore

/-! ### Modules -/

inductive Operator where
  | i32Const (value : Int)
  | i64Const (value : Int)
  | globalGet (index : Nat)
  | i32Add
  | i32Sub
  | i32Mul
  | i64Add
  | i64Sub
  | i64Mul
  | other (code : Bytes)
  deriving DecidableEq

inductive ValType where
  | i32
  | i64
  | other (code : Bytes)
  deriving DecidableEq

structure GlobalType where
  content : ValType
  mutable : Bool
  deriving DecidableEq

structure Global where
  type : GlobalType
  init : List Operator
  deriving DecidableEq

/-- Sizes are in pages. -/
structure MemoryType where
  minimum : Nat
  maximum : Option Nat
  memory64 : Bool
  shared : Bool
  pageSizeLog2 : Option Nat
  deriving DecidableEq

inductive TypeRef where
  | memory (type : MemoryType)
  | global (type : GlobalType)
  | other (code : Bytes)
  deriving DecidableEq

structure Import where
  module : String
  name : String
  type : TypeRef
  deriving DecidableEq

inductive ExternalKind where
  | func
  | table
  | memory
  | global
  | tag
  deriving DecidableEq

structure Export where
  name : String
  kind : ExternalKind
  index : Nat
  deriving DecidableEq

inductive DataKind where
  | active (memoryIndex : Nat) (offset : List Operator)
  | passive
  deriving DecidableEq

structure Segment where
  kind : DataKind
  data : Bytes
  deriving DecidableEq

inductive Section where
  | custom (name : String) (data : Bytes)
  | imports (imports : List Import)
  | memories (memories : List MemoryType)
  | globals (globals : List Global)
  | exports (exports : List Export)
  | dataCount (count : Nat)
  | code (bodies : List Bytes)
  | data (segments : List Segment)
  | other (id : Nat) (contents : Bytes)
  deriving DecidableEq

/-- The sections of a module, behind its header. -/
abbrev Core := List Section

/-! ### What the parser gives -/

inductive Payload where
  | version
  | reader (part : Section)
  | codeSectionStart (bodies : List Bytes)
  | codeSectionEntry (body : Bytes)
  | ended

/-- A code section comes as its start and its bodies, every other section at once. -/
def Section.payloads : Section → List Payload
  | .code bodies => .codeSectionStart bodies :: bodies.map .codeSectionEntry
  | part => [.reader part]

def parseAll (core : Core) : List Payload := .version :: core.flatMap Section.payloads ++ [.ended]

/-- The section that starts here. -/
def Payload.asSection : Payload → Option Section
  | .reader part => some part
  | .codeSectionStart bodies => some (.code bodies)
  | _ => none

/-! ### The layout -/

def u32 (n : Int) : Int := n % 2 ^ 32

def pageSize : Int := 65536

section
variable (word : Int → Int) (pages len : Nat)

/-! Words are what `word` makes of integers. To clear the last four bits is to round down to
a multiple of 16. -/

def currentMemorySize : Int := word (word pages * pageSize)

def snapshotSize : Int := word (word len + 15) / 16 * 16

def snapshotSpaceNeeded : Int := word (snapshotSize word len + 256)

def threshold : Int := word (snapshotSpaceNeeded word len + 0x200000)

def newMemoryPages : Int :=
  if threshold word len ≤ currentMemorySize word pages then word pages
  else max (word pages) ((threshold word len + (pageSize - 1)) / pageSize)

def newMemorySize : Int := word (newMemoryPages word pages len * pageSize)

def snapshotAddr : Int := word (word (newMemorySize word pages len - snapshotSize word len) - pageSize) / 16 * 16

/-- What the calculation makes words of. -/
def intermediates : List Int :=
  [word pages, currentMemorySize word pages, word len, word (word len + 15), snapshotSpaceNeeded word len, threshold word len,
    newMemorySize word pages len, word (newMemorySize word pages len - snapshotSize word len),
    word (word (newMemorySize word pages len - snapshotSize word len) - pageSize)]

end

/-! ### The new module -/

/-- `as i32`. -/
def toI32 (n : Nat) : Int := if n < 2 ^ 31 then n else n - 2 ^ 32

def toLeBytes (n : Nat) : Bytes := [UInt8.ofNat n, UInt8.ofNat (n / 2 ^ 8), UInt8.ofNat (n / 2 ^ 16), UInt8.ofNat (n / 2 ^ 24)]

def activeAt (addr : Nat) (data : Bytes) : Segment := ⟨.active 0 [.i32Const (toI32 addr)], data⟩

/-- Only the first operator of an offset is looked at. -/
def reencode (segment : Segment) : Except String Segment :=
  match segment.kind with
  | .active memoryIndex (.i32Const value :: _) => .ok ⟨.active memoryIndex [.i32Const value], segment.data⟩
  | .active _ _ => .error "Unsupported data segment offset expression"
  | .passive => .ok segment

def grow (pages : Int) (memory : MemoryType) : MemoryType := { memory with minimum := (max (u32 memory.minimum) pages).toNat }

/-- The snapshot, its address and its length. -/
def added (addr : Nat) (snapshot : Bytes) (ptrAddr lenAddr : Nat) : List Segment :=
  [activeAt addr snapshot, activeAt ptrAddr (toLeBytes addr), activeAt lenAddr (toLeBytes (snapshot.length % 2 ^ 32))]

/-- Whether there is a data section, and the minimum of the last memory. The layout makes a word of it. -/
def scan (found : Bool × Nat) : Payload → Bool × Nat
  | .reader (.data _) => (true, found.2)
  | .reader (.memories memories) => (found.1, memories.foldl (fun _ memory => memory.minimum) found.2)
  | _ => found

/-- What the loop does with a payload. -/
def copy (pages : Int) (segments : List Segment) (state : List Section × Bool) : Payload → Except String (List Section × Bool)
  | .reader (.memories memories) => .ok (state.1 ++ [.memories (memories.map (grow pages))], state.2)
  | .reader (.data old) => do
      let kept ← old.mapM reencode
      return (state.1 ++ [.data (kept ++ segments)], true)
  | payload => .ok (state.1 ++ payload.asSection.toList, state.2)

def modifyCoreModule (core : Core) (snapshot : Bytes) (ptrAddr lenAddr : Nat) : Except String Core := do
  let (hasDataSection, memoryMinPages) := (parseAll core).foldl scan (false, 0)
  if !hasDataSection then throw "No data section found in core module"
  let addr := (snapshotAddr u32 memoryMinPages snapshot.length).toNat
  let (result, modified) ← (parseAll core).foldlM
    (copy (newMemoryPages u32 memoryMinPages snapshot.length) (added addr snapshot ptrAddr lenAddr)) ([], false)
  if !modified then throw "Failed to modify data section"
  return result

/-! ### Section by section -/

/-- What becomes of a section. -/
def rewrite (pages : Int) (segments : List Segment) : Section → Except String Section
  | .memories memories => .ok (.memories (memories.map (grow pages)))
  | .data old => (old.mapM reencode).map fun kept => .data (kept ++ segments)
  | part => .ok part

def Section.defined : Section → List MemoryType
  | .memories types => types
  | _ => []

def Section.data? : Section → Option (List Segment)
  | .data segments => some segments
  | _ => none

def Import.memory? (entry : Import) : Option MemoryType :=
  match entry.type with
  | .memory type => some type
  | _ => none

def Section.imported : Section → List Import
  | .imports entries => entries
  | _ => []

namespace Core

def imported (core : Core) : List Import := core.flatMap Section.imported

def definedMemories (core : Core) : List MemoryType := core.flatMap Section.defined

def dataSections (core : Core) : List (List Segment) := core.filterMap Section.data?

def segments (core : Core) : List Segment := core.dataSections.flatten

/-- Imported memories come first. -/
def memories (core : Core) : List MemoryType := core.imported.filterMap Import.memory? ++ core.definedMemories

/-- The minimum that the layout is made for. -/
def pages (core : Core) : Nat := ((core.definedMemories.getLast?).map (·.minimum)).getD 0

end Core

section
variable {core out : Core} {pages : Int} {segments : List Segment} {state : List Section × Bool} {found : Bool × Nat}

theorem last_memory (memories : List MemoryType) (before : Nat) :
    memories.foldl (fun _ memory => memory.minimum) before = ((memories.getLast?).map (·.minimum)).getD before := by
  induction memories generalizing before with
  | nil => rfl
  | cons memory memories ih =>
    rw [List.foldl_cons, ih, List.getLast?_cons]
    cases memories.getLast? with
    | none => rfl
    | some last => rfl

theorem scan_bodies (bodies : List Bytes) : (bodies.map Payload.codeSectionEntry).foldl scan found = found := by
  induction bodies with
  | nil => rfl
  | cons body bodies ih => exact ih

theorem dataSections_cons (part : Section) (core : Core) :
    Core.dataSections (part :: core) = part.data?.toList ++ core.dataSections := by
  rw [Core.dataSections, List.filterMap_cons]
  cases part.data? with
  | none => rfl
  | some segments => rfl

theorem isEmpty_data (part : Section) (rest : List (List Segment)) : (!(part.data?.toList ++ rest).isEmpty) = (part.data?.isSome || !rest.isEmpty) := by
  cases part.data? with
  | none => rfl
  | some segments => rfl

theorem scan_section (part : Section) : part.payloads.foldl scan found =
    (found.1 || part.data?.isSome, ((part.defined.getLast?).map (·.minimum)).getD found.2) := by
  have nothing : found = (found.1 || false, found.2) := by rw [Bool.or_false]
  cases part with
  | code bodies =>
    have start : scan found (.codeSectionStart bodies) = found := rfl
    rw [Section.payloads, List.foldl_cons, start, scan_bodies]
    exact nothing
  | data old => exact congrArg (·, found.2) (Bool.or_true found.1).symm
  | memories memories =>
    have last := last_memory memories found.2
    rw [Section.defined, ← last]
    exact congrArg (·, memories.foldl (fun _ memory => memory.minimum) found.2) (Bool.or_false found.1).symm
  | _ => exact nothing

theorem scan_core : (core.flatMap Section.payloads).foldl scan found =
    (found.1 || !core.dataSections.isEmpty, ((core.definedMemories.getLast?).map (·.minimum)).getD found.2) := by
  induction core generalizing found with
  | nil =>
    rw [List.flatMap_nil, List.foldl_nil]
    exact congrArg (·, found.2) (Bool.or_false found.1).symm
  | cons part core ih =>
    have defined : Core.definedMemories (part :: core) = part.defined ++ Core.definedMemories core := List.flatMap_cons
    rw [List.flatMap_cons, List.foldl_append, scan_section, ih, dataSections_cons, isEmpty_data, Bool.or_assoc, defined, List.getLast?_append]
    cases (Core.definedMemories core).getLast? with
    | none => rfl
    | some last => rfl

theorem scan_all (core : Core) : (parseAll core).foldl scan (false, 0) = (!core.dataSections.isEmpty, core.pages) := by
  have start : scan (false, 0) .version = (false, 0) := rfl
  have ended : ∀ found, scan found .ended = found := fun _ => rfl
  rw [parseAll, List.cons_append, List.foldl_cons, start, List.foldl_append, scan_core, List.foldl_cons, ended, List.foldl_nil, Bool.false_or]
  rfl

/-- An event that starts no section adds nothing. -/
theorem copy_nothing {payload : Payload} (none : copy pages segments state payload = .ok (state.1 ++ [], state.2)) :
    copy pages segments state payload = .ok state := by
  rw [none, List.append_nil]

theorem copy_bodies (bodies : List Bytes) : (bodies.map Payload.codeSectionEntry).foldlM (copy pages segments) state = .ok state := by
  induction bodies with
  | nil => rfl
  | cons body bodies ih =>
    have entry : copy pages segments state (.codeSectionEntry body) = .ok state := copy_nothing rfl
    rw [List.map_cons, List.foldlM_cons, entry]
    exact ih

/-- A section may come in several events, but is written once. -/
theorem copy_section (part : Section) : part.payloads.foldlM (copy pages segments) state =
    (rewrite pages segments part).map fun later => (state.1 ++ [later], state.2 || part.data?.isSome) := by
  have unmodified (later : Section) : (state.1 ++ [later], state.2) = (state.1 ++ [later], state.2 || false) := by rw [Bool.or_false]
  cases part with
  | code bodies =>
    have start : copy pages segments state (.codeSectionStart bodies) = .ok (state.1 ++ [.code bodies], state.2) := rfl
    rw [Section.payloads, List.foldlM_cons, start]
    exact (copy_bodies bodies).trans (congrArg Except.ok (unmodified _))
  | data old =>
    have one : Section.payloads (.data old) = [.reader (.data old)] := rfl
    rw [one, List.foldlM_cons, copy, rewrite]
    cases old.mapM reencode with
    | error e => rfl
    | ok kept => exact congrArg (fun modified => Except.ok (_, modified)) (Bool.or_true state.2).symm
  | _ => exact congrArg Except.ok (unmodified _)

theorem copy_core : (core.flatMap Section.payloads).foldlM (copy pages segments) state =
    (core.mapM (rewrite pages segments)).map fun later => (state.1 ++ later, state.2 || !core.dataSections.isEmpty) := by
  induction core generalizing state with
  | nil =>
    have same : state = (state.1 ++ [], state.2 || false) := by rw [List.append_nil, Bool.or_false]
    exact congrArg Except.ok same
  | cons part core ih =>
    rw [List.flatMap_cons, List.foldlM_append, copy_section, List.mapM_cons]
    cases rewrite pages segments part with
    | error e => rfl
    | ok later =>
      refine ih.trans ?_
      rw [dataSections_cons, isEmpty_data, ← Bool.or_assoc]
      cases core.mapM (rewrite pages segments) with
      | error e => rfl
      | ok rest => exact congrArg (fun written => Except.ok (written, _)) (List.append_assoc state.1 [later] rest)

theorem copy_all (core : Core) : (parseAll core).foldlM (copy pages segments) ([], false) =
    (core.mapM (rewrite pages segments)).map fun later => (later, !core.dataSections.isEmpty) := by
  have start : copy pages segments ([], false) .version = .ok ([], false) := rfl
  have ended (state : List Section × Bool) : [Payload.ended].foldlM (copy pages segments) state = .ok state := by
    have last : copy pages segments state .ended = .ok state := copy_nothing rfl
    rw [List.foldlM_cons, last]
    rfl
  rw [parseAll, List.cons_append, List.foldlM_cons, start]
  refine List.foldlM_append.trans ?_
  rw [copy_core]
  cases core.mapM (rewrite pages segments) with
  | error e => rfl
  | ok later => exact ended _

end

/-- A module is rewritten section by section, if it has data at all. -/
theorem modify_ok {core out : Core} {snapshot : Bytes} {ptrAddr lenAddr : Nat} :
    modifyCoreModule core snapshot ptrAddr lenAddr = .ok out ↔ core.dataSections ≠ [] ∧
      core.mapM (rewrite (newMemoryPages u32 core.pages snapshot.length)
        (added (snapshotAddr u32 core.pages snapshot.length).toNat snapshot ptrAddr lenAddr)) = .ok out := by
  unfold modifyCoreModule
  rw [scan_all]
  cases some : core.dataSections with
  | nil =>
    constructor
    · intro failed
      cases failed
    · rintro ⟨none, -⟩
      exact absurd rfl none
  | cons old others =>
    dsimp only
    generalize newMemoryPages u32 core.pages snapshot.length = pages
    generalize added (snapshotAddr u32 core.pages snapshot.length).toNat snapshot ptrAddr lenAddr = segments
    rw [copy_all, some]
    cases core.mapM (rewrite pages segments) with
    | error e => exact ⟨fun failed => (by cases failed), fun ok => (by cases ok.2)⟩
    | ok later => exact ⟨fun ok => ⟨List.cons_ne_nil old others, ok⟩, fun ok => ok.2⟩

/-! ### What comes out -/

theorem mapM_ok {A B : Type} {step : A → Except String B} {items : List A} {results : List B} :
    items.mapM step = .ok results ↔ List.Forall₂ (fun item result => step item = .ok result) items results := by
  induction items generalizing results with
  | nil =>
    rw [List.mapM_nil, List.forall₂_nil_left_iff]
    exact ⟨fun same => (Except.ok.inj same).symm, fun same => congrArg Except.ok same.symm⟩
  | cons item items ih =>
    rw [List.mapM_cons, List.forall₂_cons_left_iff]
    cases first : step item with
    | error e =>
      constructor
      · intro failed
        cases failed
      · rintro ⟨result, rest, same, -⟩
        cases same
    | ok result =>
      constructor
      · intro all
        cases rest : items.mapM step with
        | error e =>
          rw [rest] at all
          cases all
        | ok later =>
          rw [rest] at all
          cases all
          exact ⟨result, later, rfl, ih.mp rest, rfl⟩
      · rintro ⟨other, later, same, rest, rfl⟩
        cases same
        rw [ih.mpr rest]
        rfl

/-- The offset begins with a constant. -/
def Segment.Constant (segment : Segment) : Prop :=
  ∀ memoryIndex ops, segment.kind = .active memoryIndex ops → ∃ value rest, ops = .i32Const value :: rest

/-- What becomes of a segment. -/
inductive Reencoded : Segment → Segment → Prop where
  | active (memoryIndex : Nat) (value : Int) (rest : List Operator) (data : Bytes) :
      Reencoded ⟨.active memoryIndex (.i32Const value :: rest), data⟩ ⟨.active memoryIndex [.i32Const value], data⟩
  | passive (data : Bytes) : Reencoded ⟨.passive, data⟩ ⟨.passive, data⟩

theorem Segment.Constant.reencoded {segment : Segment} (constant : segment.Constant) : ∃ later, Reencoded segment later := by
  rcases segment with ⟨⟨memoryIndex, ops⟩ | ⟨⟩, data⟩
  · obtain ⟨value, rest, rfl⟩ := constant memoryIndex ops rfl
    exact ⟨_, .active memoryIndex value rest data⟩
  · exact ⟨_, .passive data⟩

theorem Reencoded.constant {segment later : Segment} (reencoded : Reencoded segment later) : segment.Constant := by
  cases reencoded with
  | active memoryIndex value rest data =>
    intro other ops same
    cases same
    exact ⟨value, rest, rfl⟩
  | passive data =>
    intro other ops same
    cases same

theorem reencode_ok {segment later : Segment} : reencode segment = .ok later ↔ Reencoded segment later := by
  constructor
  · intro ok
    rcases segment with ⟨⟨memoryIndex, ops⟩ | ⟨⟩, data⟩
    · cases ops with
      | nil => cases ok
      | cons op rest =>
        cases op with
        | i32Const value =>
          cases ok
          exact .active memoryIndex value rest data
        | _ => cases ok
    · cases ok
      exact .passive data
  · intro reencoded
    cases reencoded with
    | active memoryIndex value rest data => rfl
    | passive data => rfl

/-- What becomes of a section. -/
inductive Rewritten (pages : Int) (segments : List Segment) : Section → Section → Prop where
  | memories (types : List MemoryType) : Rewritten pages segments (.memories types) (.memories (types.map (grow pages)))
  | data {old kept : List Segment} (each : List.Forall₂ Reencoded old kept) :
      Rewritten pages segments (.data old) (.data (kept ++ segments))
  | same {part : Section} (defined : ∀ types, part ≠ .memories types) (data : ∀ old, part ≠ .data old) : Rewritten pages segments part part

section
variable {core out : Core} {pages : Int} {segments : List Segment} {part later : Section}

theorem reencode_all {old kept : List Segment} : old.mapM reencode = .ok kept ↔ List.Forall₂ Reencoded old kept := by
  have each : (fun segment later => reencode segment = .ok later) = Reencoded := by
    funext segment later
    exact propext reencode_ok
  rw [mapM_ok, each]

theorem rewrite_ok : rewrite pages segments part = .ok later ↔ Rewritten pages segments part later := by
  constructor
  · intro ok
    cases part with
    | memories types =>
      cases ok
      exact .memories types
    | data old =>
      rw [rewrite] at ok
      cases each : old.mapM reencode with
      | error e =>
        rw [each] at ok
        cases ok
      | ok kept =>
        rw [each] at ok
        cases ok
        exact .data (reencode_all.mp each)
    | _ =>
      cases ok
      exact .same (fun _ same => by cases same) (fun _ same => by cases same)
  · intro rewritten
    cases rewritten with
    | memories types => rfl
    | data each =>
      rw [rewrite, reencode_all.mpr each]
      rfl
    | same defined data =>
      cases part with
      | memories types => exact absurd rfl (defined types)
      | data old => exact absurd rfl (data old)
      | _ => rfl

theorem rewrite_all : core.mapM (rewrite pages segments) = .ok out ↔ List.Forall₂ (Rewritten pages segments) core out := by
  have each : (fun part later => rewrite pages segments part = .ok later) = Rewritten pages segments := by
    funext part later
    exact propext rewrite_ok
  rw [mapM_ok, each]

/-! What is read off a rewritten module. -/

theorem Rewritten.imported (rewritten : Rewritten pages segments part later) : later.imported = part.imported := by
  cases rewritten with
  | memories types => rfl
  | data each => rfl
  | same defined data => rfl

theorem Rewritten.defined (rewritten : Rewritten pages segments part later) : later.defined = part.defined.map (grow pages) := by
  cases rewritten with
  | memories types => rfl
  | data each => rfl
  | same defined data =>
    cases part with
    | memories types => exact absurd rfl (defined types)
    | _ => rfl

theorem Rewritten.data? (rewritten : Rewritten pages segments part later) :
    Option.Rel (fun old new => ∃ kept, List.Forall₂ Reencoded old kept ∧ new = kept ++ segments) part.data? later.data? := by
  cases rewritten with
  | memories types => exact .none
  | data each => exact .some ⟨_, each, rfl⟩
  | same defined data =>
    cases part with
    | data old => exact absurd rfl (data old)
    | _ => exact .none

variable (rewritten : List.Forall₂ (Rewritten pages segments) core out)
include rewritten

theorem rewritten_imported : Core.imported out = Core.imported core := by
  induction rewritten with
  | nil => rfl
  | cons here rest ih => exact congrArg₂ (· ++ ·) here.imported ih

theorem rewritten_defined : Core.definedMemories out = (Core.definedMemories core).map (grow pages) := by
  induction rewritten with
  | nil => rfl
  | cons here rest ih =>
    have both := congrArg₂ (· ++ ·) here.defined ih
    rw [← List.map_append] at both
    exact both

theorem rewritten_data : List.Forall₂ (fun old new => ∃ kept, List.Forall₂ Reencoded old kept ∧ new = kept ++ segments)
    (Core.dataSections core) (Core.dataSections out) := by
  induction rewritten with
  | nil => exact .nil
  | @cons part later core out here rest ih =>
    rw [dataSections_cons, dataSections_cons]
    have data := here.data?
    generalize part.data? = old, later.data? = new at data
    cases data with
    | none => exact ih
    | some one => exact .cons one ih

theorem rewritten_memories : Core.memories out =
    (Core.imported core).filterMap Import.memory? ++ (Core.definedMemories core).map (grow pages) := by
  rw [Core.memories, rewritten_imported rewritten, rewritten_defined rewritten]

end

section
variable {core out : Core} {snapshot : Bytes} {ptrAddr lenAddr : Nat} {pages : Int} {segments : List Segment}

theorem modify_rewritten : modifyCoreModule core snapshot ptrAddr lenAddr = .ok out ↔ core.dataSections ≠ [] ∧
    List.Forall₂ (Rewritten (newMemoryPages u32 core.pages snapshot.length)
      (added (snapshotAddr u32 core.pages snapshot.length).toNat snapshot ptrAddr lenAddr)) core out := by
  rw [modify_ok, rewrite_all]

theorem reencoded_constant {old kept : List Segment} (each : List.Forall₂ Reencoded old kept) : ∀ segment ∈ old, segment.Constant := by
  induction each with
  | nil => exact fun _ member => by cases member
  | cons here rest ih => exact List.forall_mem_cons.mpr ⟨here.constant, ih⟩

theorem reencoded_total {old : List Segment} (constant : ∀ segment ∈ old, segment.Constant) : ∃ kept, List.Forall₂ Reencoded old kept := by
  induction old with
  | nil => exact ⟨[], .nil⟩
  | cons segment old ih =>
    obtain ⟨first, others⟩ := List.forall_mem_cons.mp constant
    obtain ⟨later, here⟩ := first.reencoded
    obtain ⟨kept, rest⟩ := ih others
    exact ⟨later :: kept, .cons here rest⟩

theorem segments_cons (part : Section) (core : Core) : Core.segments (part :: core) = part.data?.getD [] ++ core.segments := by
  rw [Core.segments, dataSections_cons, List.flatten_append]
  cases part.data? with
  | none => rfl
  | some old => exact congrArg (· ++ core.segments) (List.append_nil old)

theorem rewritten_constant (rewritten : List.Forall₂ (Rewritten pages segments) core out) :
    ∀ segment ∈ Core.segments core, segment.Constant := by
  induction rewritten with
  | nil => exact fun _ member => by cases member
  | @cons part later core out here rest ih =>
    rw [segments_cons]
    refine List.forall_mem_append.mpr ⟨?_, ih⟩
    cases here with
    | memories types => exact fun _ member => by cases member
    | data each => exact reencoded_constant each
    | same defined data =>
      cases part with
      | data old => exact absurd rfl (data old)
      | _ => exact fun _ member => by cases member

/-- A module can be rewritten if all offsets begin with constants. -/
theorem rewritten_total (constant : ∀ segment ∈ Core.segments core, segment.Constant) :
    ∃ out, List.Forall₂ (Rewritten pages segments) core out := by
  induction core with
  | nil => exact ⟨[], .nil⟩
  | cons part core ih =>
    rw [segments_cons, List.forall_mem_append] at constant
    obtain ⟨out, rest⟩ := ih constant.2
    cases part with
    | memories types => exact ⟨_, .cons (.memories types) rest⟩
    | data old =>
      obtain ⟨kept, each⟩ := reencoded_total constant.1
      exact ⟨_, .cons (.data each) rest⟩
    | _ => exact ⟨_, .cons (.same (fun _ same => by cases same) (fun _ same => by cases same)) rest⟩

/-- What has data, all at constant offsets, is accepted. -/
theorem modify_total (some : Core.dataSections core ≠ []) (constant : ∀ segment ∈ Core.segments core, segment.Constant) (snapshot : Bytes)
    (ptrAddr lenAddr : Nat) : ∃ out, modifyCoreModule core snapshot ptrAddr lenAddr = .ok out := by
  obtain ⟨out, rewritten⟩ := rewritten_total constant
  exact ⟨out, modify_rewritten.mpr ⟨some, rewritten⟩⟩

end

end MonakaFs.Cli.CoreModule
