import MonakaFs.Cli.Rewriting

/-! The cells that are patched.

The exports say which globals hold their addresses. Exports count imported globals first;
the search through the definitions does not.
-/

set_option autoImplicit false

namespace MonakaFs.Cli.CoreModule

open FsCore

def ptrName : String := "MONAKA_FS_FS_DATA_PTR"

def lenName : String := "MONAKA_FS_FS_DATA_LEN"

/-! ### The search -/

/-- The indices of the two globals, as far as they are known. -/
def seeExport (found : Option Nat × Option Nat) (entry : Export) : Option Nat × Option Nat :=
  if entry.name = ptrName then (if entry.kind = .global then (some entry.index, found.2) else found)
  else if entry.name = lenName then (if entry.kind = .global then (found.1, some entry.index) else found)
  else found

def scanExports (found : Option Nat × Option Nat) : Payload → Option Nat × Option Nat
  | .reader (.exports entries) => entries.foldl seeExport found
  | _ => found

/-- The constant that the value of a global begins with, as a word. -/
def Global.address (global : Global) : Option Nat :=
  match global.init with
  | .i32Const value :: _ => some (u32 value).toNat
  | _ => none

/-- The number of definitions so far, and the two addresses. -/
def seeGlobal (ptrIdx lenIdx : Nat) (state : Nat × Option Nat × Option Nat) (global : Global) : Nat × Option Nat × Option Nat :=
  (state.1 + 1, if state.1 = ptrIdx then global.address.or state.2.1 else state.2.1,
    if state.1 = lenIdx then global.address.or state.2.2 else state.2.2)

def scanGlobals (ptrIdx lenIdx : Nat) (state : Nat × Option Nat × Option Nat) : Payload → Nat × Option Nat × Option Nat
  | .reader (.globals globals) => globals.foldl (seeGlobal ptrIdx lenIdx) state
  | _ => state

def context {A : Type} (message : String) : Option A → Except String A
  | some value => .ok value
  | none => .error message

def findMonakaAddresses (core : Core) : Except String (Nat × Nat) := do
  let (ptrGlobalIdx, lenGlobalIdx) := (parseAll core).foldl scanExports (none, none)
  let ptrIdx ← context "MONAKA_FS_FS_DATA_PTR export not found" ptrGlobalIdx
  let lenIdx ← context "MONAKA_FS_FS_DATA_LEN export not found" lenGlobalIdx
  let (_, ptrAddr, lenAddr) := (parseAll core).foldl (scanGlobals ptrIdx lenIdx) (0, none, none)
  let ptr ← context "Could not find MONAKA_FS_FS_DATA_PTR address" ptrAddr
  let len ← context "Could not find MONAKA_FS_FS_DATA_LEN address" lenAddr
  return (ptr, len)

/-! ### What is exported -/

def Section.exported : Section → List Export
  | .exports entries => entries
  | _ => []

namespace Core

variable (core : Core)

def exported : List Export := core.flatMap Section.exported

def importedGlobals : List GlobalType := core.imported.filterMap Import.global?

/-- The values of all globals, in the order of their indices. Those of imported ones are not known. -/
def globalSpace : List (Option (List Operator)) := core.importedGlobals.map (fun _ => none) ++ core.definedGlobals.map fun global => some global.init

end Core

/-- The name is exported, and stands for a global that is defined by a constant. -/
structure Denotes (core : Core) (name : String) (index : Nat) (value : Int) : Prop where
  exported : ⟨name, .global, index⟩ ∈ core.exported
  defined : core.globalSpace[index]? = some (some [.i32Const value])

/-- The definition at the index of an export, counted without the imports, begins with the same constant. -/
def Aligned (core : Core) (index : Nat) (value : Int) : Prop :=
  ∃ global other rest, core.definedGlobals[index]? = some global ∧ global.init = .i32Const other :: rest ∧ u32 other = u32 value

/-! ### What the search finds -/

section
variable {S A : Type}

/-- A scan that looks at the entries of some sections looks at them in order. -/
theorem scan_entries {step : S → Payload → S} {entries : Section → List A} {see : S → A → S}
    (reads : ∀ state part, step state (.reader part) = (entries part).foldl see state)
    (passes : ∀ state payload, (∀ part, payload ≠ .reader part) → step state payload = state) (code : ∀ bodies, entries (.code bodies) = [])
    (core : Core) (state : S) : (parseAll core).foldl step state = (core.flatMap entries).foldl see state := by
  have one (part : Section) (state : S) : part.payloads.foldl step state = (entries part).foldl see state := by
    cases part with
    | code bodies =>
      have body (bodies : List Bytes) : (bodies.map Payload.codeSectionEntry).foldl step state = state := by
        induction bodies with
        | nil => rfl
        | cons body bodies ih =>
          rw [List.map_cons, List.foldl_cons, passes state _ fun _ same => (by cases same)]
          exact ih
      rw [Section.payloads, List.foldl_cons, passes state _ fun _ same => (by cases same), body, code]
      rfl
    | _ => exact reads state _
  have all (state : S) : (core.flatMap Section.payloads).foldl step state = (core.flatMap entries).foldl see state := by
    induction core generalizing state with
    | nil => rfl
    | cons part core ih => rw [List.flatMap_cons, List.flatMap_cons, List.foldl_append, List.foldl_append, one, ih]
  rw [parseAll, List.cons_append, List.foldl_cons, passes state _ fun _ same => (by cases same), List.foldl_append, all, List.foldl_cons,
    passes _ _ fun _ same => (by cases same), List.foldl_nil]

end

section
variable {name : String} {entries : List Export} {found : Option Nat × Option Nat} {index : Nat}

/-- What is known about one of the two names. -/
def slot (name : String) (found : Option Nat × Option Nat) : Option Nat := if name = ptrName then found.1 else found.2

theorem seeExport_slot (known : name = ptrName ∨ name = lenName) (entry : Export) :
    slot name (seeExport found entry) = if entry.name = name ∧ entry.kind = .global then some entry.index else slot name found := by
  have different : lenName ≠ ptrName := by decide
  rcases known with rfl | rfl
  · have first (found : Option Nat × Option Nat) : slot ptrName found = found.1 := if_pos rfl
    rw [first, first, seeExport]
    by_cases named : entry.name = ptrName
    · by_cases global : entry.kind = .global
      · rw [if_pos named, if_pos global, if_pos ⟨named, global⟩]
      · rw [if_pos named, if_neg global, if_neg fun both => global both.2]
    · have other : ¬ (entry.name = ptrName ∧ entry.kind = .global) := fun both => named both.1
      rw [if_neg other, if_neg named]
      split
      · split <;> rfl
      · rfl
  · have second (found : Option Nat × Option Nat) : slot lenName found = found.2 := if_neg different
    rw [second, second, seeExport]
    by_cases named : entry.name = lenName
    · by_cases global : entry.kind = .global
      · rw [if_neg (named ▸ different), if_pos named, if_pos global, if_pos ⟨named, global⟩]
      · rw [if_neg (named ▸ different), if_pos named, if_neg global, if_neg fun both => global both.2]
    · have other : ¬ (entry.name = lenName ∧ entry.kind = .global) := fun both => named both.1
      rw [if_neg other, if_neg named]
      split
      · split <;> rfl
      · rfl

theorem exports_untouched (known : name = ptrName ∨ name = lenName) (absent : name ∉ entries.map (·.name)) :
    slot name (entries.foldl seeExport found) = slot name found := by
  induction entries generalizing found with
  | nil => rfl
  | cons entry entries ih =>
    rw [List.map_cons, List.mem_cons, not_or] at absent
    rw [List.foldl_cons, ih absent.2, seeExport_slot known, if_neg fun same => absent.1 same.1.symm]

/-- If no name comes twice, the index of an export is found. -/
theorem exports_found (known : name = ptrName ∨ name = lenName) (unique : (entries.map (·.name)).Nodup)
    (exported : ⟨name, .global, index⟩ ∈ entries) : slot name (entries.foldl seeExport found) = some index := by
  induction entries generalizing found with
  | nil => cases exported
  | cons entry entries ih =>
    rw [List.map_cons, List.nodup_cons] at unique
    rw [List.foldl_cons]
    rcases List.mem_cons.mp exported with rfl | later
    · rw [exports_untouched known unique.1, seeExport_slot known, if_pos ⟨rfl, rfl⟩]
    · exact ih unique.2 later

end

section
variable {globals : List Global} {ptrIdx lenIdx index count : Nat} {found : Option Nat}

/-- The address at an index, if the definitions are numbered from `count` on. -/
def pick (globals : List Global) (count index : Nat) (found : Option Nat) : Option Nat :=
  ((if count ≤ index then globals[index - count]? else none).bind Global.address).or found

theorem pick_cons (global : Global) : pick (global :: globals) count index found =
    pick globals (count + 1) index (if count = index then global.address.or found else found) := by
  unfold pick
  rcases Nat.lt_trichotomy count index with before | here | behind
  · have next : index - count = index - (count + 1) + 1 := by omega
    rw [if_pos before.le, if_pos (Nat.succ_le_of_lt before), if_neg before.ne, next, List.getElem?_cons_succ]
  · subst here
    rw [if_pos (le_refl count), if_neg (Nat.not_succ_le_self count), if_pos rfl, Nat.sub_self, List.getElem?_cons_zero]
    rfl
  · rw [if_neg (Nat.not_le_of_gt behind), if_neg (by omega), if_neg behind.ne']

theorem globals_found (ptr len : Option Nat) : globals.foldl (seeGlobal ptrIdx lenIdx) (count, ptr, len) =
    (count + globals.length, pick globals count ptrIdx ptr, pick globals count lenIdx len) := by
  induction globals generalizing count ptr len with
  | nil =>
    have nothing (index : Nat) (found : Option Nat) : pick [] count index found = found := by
      unfold pick
      split <;> rfl
    rw [nothing, nothing]
    rfl
  | cons global globals ih =>
    rw [List.foldl_cons, seeGlobal, ih, pick_cons, pick_cons, List.length_cons, Nat.add_right_comm, ← Nat.add_assoc]

end

/-! ### The addresses -/

theorem scanned_exports (core : Core) (found : Option Nat × Option Nat) :
    (parseAll core).foldl scanExports found = core.exported.foldl seeExport found := by
  refine scan_entries (fun state part => ?_) (fun state payload other => ?_) (fun _ => rfl) core found
  · cases part <;> rfl
  · cases payload with
    | reader part => exact absurd rfl (other part)
    | _ => rfl

theorem scanned_globals (core : Core) (ptrIdx lenIdx : Nat) (state : Nat × Option Nat × Option Nat) :
    (parseAll core).foldl (scanGlobals ptrIdx lenIdx) state = core.definedGlobals.foldl (seeGlobal ptrIdx lenIdx) state := by
  refine scan_entries (fun state part => ?_) (fun state payload other => ?_) (fun _ => rfl) core state
  · cases part <;> rfl
  · cases payload with
    | reader part => exact absurd rfl (other part)
    | _ => rfl

theorem pick_all (globals : List Global) (index : Nat) : pick globals 0 index none = globals[index]?.bind Global.address := by
  rw [pick, if_pos (Nat.zero_le index), Nat.sub_zero, Option.or_none]

section
variable {core : Core} {i j : Nat} {p q : Int}

theorem findMonakaAddresses_eq (unique : (core.exported.map (·.name)).Nodup) (ptr : Denotes core ptrName i p) (len : Denotes core lenName j q)
    (result : Nat × Nat) : findMonakaAddresses core = .ok result ↔
      (core.definedGlobals[i]?.bind Global.address) = some result.1 ∧ (core.definedGlobals[j]?.bind Global.address) = some result.2 := by
  have exports : (parseAll core).foldl scanExports (none, none) = (some i, some j) := by
    rw [scanned_exports]
    exact Prod.ext (exports_found (.inl rfl) unique ptr.exported) (exports_found (.inr rfl) unique len.exported)
  have addresses : (parseAll core).foldl (scanGlobals i j) (0, none, none) = (core.definedGlobals.length,
      core.definedGlobals[i]?.bind Global.address, core.definedGlobals[j]?.bind Global.address) := by
    rw [scanned_globals, globals_found, Nat.zero_add, pick_all, pick_all]
  unfold findMonakaAddresses
  rw [exports]
  dsimp only [context, bind, Except.bind]
  rw [addresses]
  dsimp only
  cases core.definedGlobals[i]?.bind Global.address with
  | none => exact ⟨fun failed => (by cases failed), fun both => (by cases both.1)⟩
  | some ptr =>
    cases core.definedGlobals[j]?.bind Global.address with
    | none => exact ⟨fun failed => (by cases failed), fun both => (by cases both.2)⟩
    | some len =>
      constructor
      · intro found
        cases found
        exact ⟨rfl, rfl⟩
      · rintro ⟨first, second⟩
        cases first
        cases second
        rfl

theorem address_some {global : Global} {word : Nat} :
    global.address = some word ↔ ∃ other rest, global.init = .i32Const other :: rest ∧ (u32 other).toNat = word := by
  rcases global with ⟨type, init⟩
  constructor
  · intro found
    cases init with
    | nil => cases found
    | cons op rest =>
      cases op with
      | i32Const other => exact ⟨other, rest, rfl, Option.some.inj found⟩
      | _ => cases found
  · rintro ⟨other, rest, rfl, rfl⟩
    rfl

theorem u32_toNat {a b : Int} : (u32 a).toNat = (u32 b).toNat ↔ u32 a = u32 b := by
  unfold u32
  omega

theorem aligned_iff (core : Core) (index : Nat) (value : Int) :
    core.definedGlobals[index]?.bind Global.address = some (u32 value).toNat ↔ Aligned core index value := by
  constructor
  · intro found
    obtain ⟨global, there, address⟩ := Option.bind_eq_some_iff.mp found
    obtain ⟨other, rest, init, same⟩ := address_some.mp address
    exact ⟨global, other, rest, there, init, u32_toNat.mp same⟩
  · rintro ⟨global, other, rest, there, init, same⟩
    rw [there, Option.bind_some, address_some]
    exact ⟨other, rest, init, u32_toNat.mpr same⟩

/-- The addresses are those of the exported globals exactly if the definitions that are looked at hold the same. -/
theorem findMonakaAddresses_iff (unique : (core.exported.map (·.name)).Nodup) (ptr : Denotes core ptrName i p) (len : Denotes core lenName j q) :
    findMonakaAddresses core = .ok ((u32 p).toNat, (u32 q).toNat) ↔ Aligned core i p ∧ Aligned core j q := by
  rw [findMonakaAddresses_eq unique ptr len, aligned_iff, aligned_iff]

/-- Without imported globals there is no difference. -/
theorem aligned_of_none {name : String} (none : core.importedGlobals = []) (denotes : Denotes core name i p) : Aligned core i p := by
  have defined := denotes.defined
  rw [Core.globalSpace, none, List.map_nil, List.nil_append, List.getElem?_map, Option.map_eq_some_iff] at defined
  obtain ⟨global, there, same⟩ := defined
  exact ⟨global, p, [], there, Option.some.inj same, rfl⟩

end

/-- Three definitions behind some imports. The first two are exported. -/
def exporting (imports : Nat) : Core :=
  [.imports (List.replicate imports ⟨"env", "base", .global ⟨.i32, false⟩⟩),
    .globals [⟨⟨.i32, false⟩, [.i32Const 1040]⟩, ⟨⟨.i32, false⟩, [.i32Const 1044]⟩, ⟨⟨.i32, false⟩, [.i32Const 2048]⟩],
    .exports [⟨ptrName, .global, imports⟩, ⟨lenName, .global, imports + 1⟩]]

theorem exporting_unique (imports : Nat) : ((exporting imports).exported.map (·.name)).Nodup := by
  have names : (exporting imports).exported.map (·.name) = [ptrName, lenName] := rfl
  rw [names]
  decide

theorem exporting_denotes (imports : Nat) :
    Denotes (exporting imports) ptrName imports 1040 ∧ Denotes (exporting imports) lenName (imports + 1) 1044 := by
  have imported : (exporting imports).importedGlobals.length = imports := by
    have entries : (exporting imports).imported = List.replicate imports ⟨"env", "base", .global ⟨.i32, false⟩⟩ := List.append_nil _
    have known : Import.global? ⟨"env", "base", .global ⟨.i32, false⟩⟩ = some ⟨.i32, false⟩ := rfl
    rw [Core.importedGlobals, entries, List.filterMap_replicate_of_some known, List.length_replicate]
  refine ⟨⟨List.mem_cons_self, ?_⟩, ⟨List.mem_cons_of_mem _ List.mem_cons_self, ?_⟩⟩
  · rw [Core.globalSpace, List.getElem?_append_right (by rw [List.length_map, imported]), List.length_map, imported, Nat.sub_self]
    rfl
  · rw [Core.globalSpace, List.getElem?_append_right (by rw [List.length_map, imported]; exact Nat.le_succ _), List.length_map, imported,
      Nat.add_sub_cancel_left]
    rfl

theorem unshifted_found : findMonakaAddresses (exporting 0) = .ok (1040, 1044) :=
  (findMonakaAddresses_iff (exporting_unique 0) (exporting_denotes 0).1 (exporting_denotes 0).2).mpr
    ⟨aligned_of_none rfl (exporting_denotes 0).1, aligned_of_none rfl (exporting_denotes 0).2⟩

/-- One import, and the next two definitions are taken. -/
theorem shifted_found : ¬ ∀ (core : Core) (i j : Nat) (p q : Int), (core.exported.map (·.name)).Nodup → Denotes core ptrName i p →
    Denotes core lenName j q → findMonakaAddresses core = .ok ((u32 p).toNat, (u32 q).toNat) := by
  intro all
  have found := all _ _ _ _ _ (exporting_unique 1) (exporting_denotes 1).1 (exporting_denotes 1).2
  have ptr := ((findMonakaAddresses_eq (exporting_unique 1) (exporting_denotes 1).1 (exporting_denotes 1).2 _).mp found).1
  exact absurd ptr (by decide)

end MonakaFs.Cli.CoreModule
