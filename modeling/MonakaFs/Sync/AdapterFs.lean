import MonakaFs.FsCore.WholeFiles
import MonakaFs.Sync.FsBackend

/-! The in-memory filesystem behind the sync layer.

Both deployments wrap it in the same way: a call goes to the filesystem, and its error
becomes one of the store's. What the sync layer relies on holds by the components of a
path, since a file has more than one spelling.
-/

set_option autoImplicit false

namespace MonakaFs.FsCore

/-- What `{:?}` prints. -/
def FsError.debug : FsError → String
  | .notFound => "NotFound"
  | .notADirectory => "NotADirectory"
  | .isADirectory => "IsADirectory"
  | .invalidArgument => "InvalidArgument"
  | .badFileDescriptor => "BadFileDescriptor"
  | .permissionDenied => "PermissionDenied"
  | .alreadyExists => "AlreadyExists"
  | .notEmpty => "NotEmpty"

end MonakaFs.FsCore

namespace MonakaFs.Sync

open FsCore

/-- The wrapper of the WASI adapter. -/
abbrev AdapterFs (T : Type) := Fs T

/-- The wrapper of the host, whose filesystem counts its operations for a clock. -/
abbrev HostFs := AdapterFs MonotonicCounter

/-- The flags of an open for replacing. -/
def replacing : Nat := O_RDWR ||| O_CREAT ||| O_TRUNC

section
variable {T : Type} [TimeProvider T] [target : Target]

/-- A call of the filesystem, with the error that its wrapper reports. -/
def wrapped {A : Type} (call : Fs T → Outcome T A) (error : String → S3Error) (action : String) : FsCall (AdapterFs T) A := fun fs =>
  ((call fs).1.mapError fun e => error s!"Failed to {action}: {e.debug}", (call fs).2)

instance : FsBackend (AdapterFs T) where
  openRead path := wrapped (·.openPathWithFlags path O_RDONLY) (.read path) "open"
  openWriteTruncate path := wrapped (·.openPathWithFlags path replacing) (.write path) "open"
  read fd wanted := wrapped (·.read fd wanted) (.read s!"fd {fd}") "read"
  write fd buf := wrapped (·.write fd buf) (.write s!"fd {fd}") "write"
  close fd := wrapped (·.close fd) (.write s!"fd {fd}") "close"
  statModified path fs := ((fs.stat path).toOption.map (·.modified)).getD 0
  fstatSize fd := wrapped (fun fs => ((fs.fstat fd).map (·.size), fs)) (.read s!"fd {fd}") "stat"
  unlink path := wrapped (·.unlink path) (.delete path) "unlink"
  mkdirP path fs := (fs.mkdirP path).2
  rmdir path := wrapped (·.rmdir path) (.delete path) "rmdir"

end

/-! ### Parents -/

/-- The pieces of a text hold no separator. -/
theorem splitOn_clean {separator : Char} {text piece : List Char} (member : piece ∈ text.splitOn separator) : separator ∉ piece := by
  induction text generalizing piece with
  | nil =>
    obtain rfl := List.mem_singleton.mp member
    exact List.not_mem_nil
  | cons c text ih =>
    rw [List.splitOn_cons_eq_if_modifyHead] at member
    split at member
    · rcases List.mem_cons.mp member with rfl | later
      · exact List.not_mem_nil
      · exact ih later
    · next other =>
      obtain ⟨first, rest, pieces⟩ := List.exists_cons_of_ne_nil (List.splitOn_ne_nil separator text)
      rw [pieces, List.modifyHead_cons] at member
      rw [pieces] at ih
      rcases List.mem_cons.mp member with rfl | later
      · rw [List.mem_cons, not_or]
        exact ⟨fun same => other (by rw [same, beq_self_eq_true]), ih List.mem_cons_self⟩
      · exact ih (List.mem_cons_of_mem _ later)

/-- The components among segments. -/
def named (segments : List (List Char)) : List String := (segments.filter (· ≠ [])).map String.ofList

theorem named_append (front back : List (List Char)) : named (front ++ back) = named front ++ named back := by
  simp [named]

theorem named_single {segment : List Char} (some : segment ≠ []) : named [segment] = [String.ofList segment] := by
  simp [named, some]

theorem components_pieces (path : String) : components path = named (path.toList.splitOn '/') := components_eq path

theorem components_joined {first : List Char} {rest : List (List Char)} (clean : ∀ segment ∈ first :: rest, '/' ∉ segment) :
    components (String.ofList (['/'].intercalate (first :: rest))) = named (first :: rest) := by
  rw [components_pieces, String.toList_ofList, List.splitOn_intercalate _ clean (by simp)]

/-- What is skipped at the end of a path are empty segments and single dots. -/
theorem dropTrailing_split (segments : List (List Char)) :
    ∃ rest, segments = dropTrailing segments ++ rest ∧ ∀ name ∈ named rest, name = "." := by
  induction segments using List.reverseRecOn with
  | nil => exact ⟨[], rfl, fun name member => by cases member⟩
  | append_singleton segments last ih =>
    rw [dropTrailing, List.rdropWhile_concat]
    split
    · next skipped =>
      obtain ⟨rest, whole, dots⟩ := ih
      refine ⟨rest ++ [last], by rw [← List.append_assoc, ← dropTrailing, ← whole], fun name member => ?_⟩
      rw [named_append, List.mem_append] at member
      rcases member with before | here
      · exact dots name before
      · rcases Bool.or_eq_true_iff.mp skipped with blank | dot
        · rw [eq_of_beq blank] at here
          cases here
        · rw [eq_of_beq dot] at here
          exact List.mem_singleton.mp here
    · exact ⟨[], (List.append_nil _).symm, fun name member => by cases member⟩

theorem dropTrailing_last {segments : List (List Char)} (some : dropTrailing segments ≠ []) :
    ∃ front last, dropTrailing segments = front ++ [last] ∧ last ≠ [] := by
  refine ⟨_, _, (List.dropLast_append_getLast some).symm, fun blank => ?_⟩
  refine List.rdropWhile_last_not _ _ some ?_
  rw [show (List.rdropWhile _ segments).getLast some = [] from blank]
  rfl

/-- A path is its parent and one more component, but for single dots. -/
theorem parentPath_components {path parent : String} (found : parentPath path = some parent) :
    ∃ tail, components path = components parent ++ tail ∧ tail ≠ [] ∧ ("." ∉ components path → tail.length = 1) := by
  have clean : ∀ segment ∈ path.toList.splitOn '/', '/' ∉ segment := fun segment member => splitOn_clean member
  rw [components_pieces path]
  unfold parentPath at found
  split at found
  · cases found
  next first rest pieces =>
  rw [pieces] at clean ⊢
  obtain ⟨junk, whole, dots⟩ := dropTrailing_split rest
  have none_of {segments : List (List Char)} (only : ∀ name ∈ named segments, name = ".") (apart : "." ∉ named segments) :
      named segments = [] := List.eq_nil_iff_forall_not_mem.mpr fun name member => apart (only name member ▸ member)
  split at found
  · next empty =>
    split at found
    · cases found
    next some =>
    cases found
    rw [empty, List.nil_append] at whole
    have split : named (first :: rest) = String.ofList first :: named junk := by
      rw [whole, ← List.singleton_append, named_append, named_single some]
      rfl
    refine ⟨named (first :: rest), (List.nil_append _).symm, by rw [split]; exact List.cons_ne_nil _ _, fun apart => ?_⟩
    rw [split] at apart ⊢
    rw [none_of dots fun member => apart (List.mem_cons_of_mem _ member)]
    rfl
  · next segment segments kept =>
    obtain ⟨front, last, ends, some⟩ : ∃ front last, dropTrailing rest = front ++ [last] ∧ last ≠ [] :=
      dropTrailing_last (by rw [kept]; exact List.cons_ne_nil _ _)
    have begun : (segment :: segments).dropLast = front := by rw [← kept, ends, List.dropLast_concat]
    obtain ⟨junk', whole', dots'⟩ := dropTrailing_split front
    rw [begun] at found
    dsimp only at found
    have divided : named (first :: rest) = named (first :: dropTrailing front) ++ (named junk' ++ String.ofList last :: named junk) := by
      have pieces' : first :: rest = (first :: dropTrailing front) ++ (junk' ++ ([last] ++ junk)) := by
        rw [List.cons_append, ← List.append_assoc, ← whole', ← List.append_assoc, ← ends, ← whole]
      rw [pieces', named_append, named_append, named_append, named_single some]
      rfl
    have parents : components parent = named (first :: dropTrailing front) := by
      split at found
      · next root =>
        cases found
        rw [root.1, root.2]
        rfl
      · cases found
        refine components_joined fun part member => clean part ?_
        rcases List.mem_cons.mp member with rfl | inside
        · exact List.mem_cons_self
        · refine List.mem_cons_of_mem _ ?_
          rw [whole, ends]
          exact List.mem_append_left _ (List.mem_append_left _ ((List.rdropWhile_prefix _ _).subset inside))
    refine ⟨_, by rw [parents]; exact divided, by simp, fun apart => ?_⟩
    rw [divided, List.mem_append, List.mem_append, List.mem_cons] at apart
    rw [none_of dots' fun member => apart (.inr (.inl member)), none_of dots fun member => apart (.inr (.inr (.inr member)))]
    rfl

theorem parentPath_none {path : String} (missing : parentPath path = none) : ∀ name ∈ components path, name = "." := by
  rw [components_pieces path]
  unfold parentPath at missing
  split at missing
  · next nothing => exact absurd nothing (List.splitOn_ne_nil _ _)
  next first rest pieces =>
  rw [pieces]
  obtain ⟨junk, whole, dots⟩ := dropTrailing_split rest
  split at missing
  · next empty =>
    split at missing
    · next blank =>
      rw [empty, List.nil_append] at whole
      rw [blank, whole]
      exact dots
    · cases missing
  · dsimp only at missing
    split at missing <;> cases missing

end MonakaFs.Sync
