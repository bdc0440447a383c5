import MonakaFs.FsCore.Renames

/-! Runs of calls, as long as there are inode numbers left. -/

set_option autoImplicit false

namespace MonakaFs.FsCore

namespace Fs

variable {T : Type} [TimeProvider T] {fs later : Fs T} {d v : InodeId} {name : String} {flags : Nat}

/-! ### The two ways to open -/

theorem openPath_effect (path : String) (flags : Nat) (sane : Sane fs) :
    (∃ d name, fs.links.Below fs.rootInode d ∧ Opening d name flags fs (fs.openPathWithFlags path flags).2) ∨
      (Same fs (fs.openPathWithFlags path flags).2 ∧ ((fs.openPathWithFlags path flags).2.holder = fs.holder ∨
        (fs.openPathWithFlags path flags).2.holder = Function.update fs.holder fs.nextFd (some fs.rootInode))) := by
  unfold openPathWithFlags
  split
  · exact .inr ⟨.refl fs, .inl rfl⟩
  split
  · obtain ⟨same, held⟩ := insertFd_effect fs fs.rootInode flags
    exact .inr ⟨same, .inr held⟩
  · next name _ =>
    split
    · exact .inr ⟨.refl fs, .inl rfl⟩
    · next parent found =>
      obtain ⟨walked, dir⟩ := (findParent_ok sane).mp found
      exact .inl ⟨parent, name, .of_walk walked, openEntry_effect sane dir⟩

/-- A path that may be opened below a directory. -/
def Relative (path : String) : Prop := ['/'].isPrefixOf path.toList = false

/-- What an open below a descriptor reaches. -/
structure Reaches (fs : Fs T) (dirFd : Fd) (path : String) (dir d : InodeId) (name : String) : Prop where
  relative : Relative path
  held : fs.holder dirFd = some dir
  start : fs.kind dir = some true
  walked : ∃ front, relativeComponents path = front ++ [name] ∧ fs.links.walk dir front = some d
  dir : fs.kind d = some true

omit [TimeProvider T] in
theorem Reaches.unique {dirFd : Fd} {path : String} {dir dir' d' : InodeId} {name' : String}
    (reaches : Reaches fs dirFd path dir d name) (again : Reaches fs dirFd path dir' d' name') : d' = d ∧ name' = name := by
  obtain ⟨front, split, walked⟩ := reaches.walked
  obtain ⟨front', split', walked'⟩ := again.walked
  obtain ⟨rfl, tail⟩ := List.append_inj' (split.symm.trans split') rfl
  cases tail
  cases reaches.held.symm.trans again.held
  cases walked.symm.trans walked'
  exact ⟨rfl, rfl⟩

theorem openAt_effect (dirFd : Fd) (path : String) (flags : Nat) (sane : Sane fs) :
    (∃ dir d name, Reaches fs dirFd path dir d name ∧ Opening d name flags fs (fs.openAt dirFd path flags).2) ∨
      ((∀ dir d name, ¬ Reaches fs dirFd path dir d name) ∧ Same fs (fs.openAt dirFd path flags).2 ∧
        (fs.openAt dirFd path flags).2.holder = fs.holder) := by
  unfold openAt
  split
  -- The refusals in the order of the source. Each is about something that reaching needs.
  · next absolute =>
    refine .inr ⟨fun dir d name reaches => ?_, .refl fs, rfl⟩
    have relative := reaches.relative
    rw [Relative, absolute] at relative
    cases relative
  next relative =>
  split
  · next missing =>
    refine .inr ⟨fun dir d name reaches => ?_, .refl fs, rfl⟩
    have held := reaches.held
    rw [holder, missing] at held
    cases held
  · next handle found =>
    have held : fs.holder dirFd = some handle.inodeId := by rw [holder, found]; rfl
    have there := sane.opened dirFd _ held
    rw [kind_some] at there
    rw [if_neg (by rw [Option.isNone_iff_eq_none, ← ne_eq, ← Option.isSome_iff_ne_none]; exact there)]
    split
    · next file =>
      refine .inr ⟨fun dir d name reaches => ?_, .refl fs, rfl⟩
      have start := reaches.start
      cases held.symm.trans reaches.held
      rw [isFile_iff.mp file] at start
      cases start
    next notFile =>
    have start : fs.kind handle.inodeId = some true := by
      rw [← kind_some] at there
      obtain ⟨isDir, kind⟩ := Option.isSome_iff_exists.mp there
      cases isDir with
      | true => exact kind
      | false => exact absurd (isFile_iff.mpr kind) notFile
    split
    · next none =>
      refine .inr ⟨fun dir d name reaches => ?_, .refl fs, rfl⟩
      obtain ⟨front, split, -⟩ := reaches.walked
      rw [split, List.getLast?_concat] at none
      cases none
    · next name last =>
      obtain ⟨front, split⟩ := List.getLast?_eq_some_iff.mp last
      rw [split, List.dropLast_concat]
      cases found : fs.descend handle.inodeId front with
      | error e =>
        refine .inr ⟨fun dir d name' reaches => ?_, .refl fs, rfl⟩
        obtain ⟨front', split', walked⟩ := reaches.walked
        obtain ⟨rfl, -⟩ := List.append_inj' (split.symm.trans split') rfl
        cases held.symm.trans reaches.held
        rw [(descend_ok start sane.named).mpr ⟨walked, reaches.dir⟩] at found
        cases found
      | ok parent =>
        obtain ⟨walked, dir⟩ := (descend_ok start sane.named).mp found
        refine .inl ⟨handle.inodeId, parent, name, ?_, openEntry_effect sane dir⟩
        exact ⟨Bool.eq_false_iff.mpr relative, held, start, ⟨front, split, walked⟩, dir⟩

/-! ### Invariants -/

omit [TimeProvider T] in
/-- One descriptor is opened on an inode that is there, or closed. -/
theorem Same.sane_update {fd : Fd} {target : Option InodeId} (sane : Sane fs) (same : Same fs later)
    (held : later.holder = Function.update fs.holder fd target) (there : ∀ id, target = some id → (fs.kind id).isSome) :
    Sane later := by
  refine same.sane sane fun other id open' => ?_
  rw [held, Function.update_apply] at open'
  rw [same.kind]
  split at open'
  · exact there id open'
  · exact sane.opened other id open'

omit [TimeProvider T] in
theorem Opening.sane (sane : Sane fs) (opening : Opening d name flags fs later) (room : fs.nextInode + 1 < 2 ^ 64) :
    Sane later := by
  cases opening with
  | refused _ same held => exact same.sane sane (by rw [held, same.kind]; exact sane.opened)
  | opened named same held => exact same.sane_update sane held fun id open' => (by cases open'; exact sane.named _ _ _ named)
  | left _ _ made => exact made.sane sane room
  | created _ _ made same held =>
    refine same.sane_update (made.sane sane room) (held.trans (by rw [made.holder])) fun id open' => ?_
    cases open'
    rw [made.kind, Function.update_self]
    rfl

omit [TimeProvider T] in
theorem Grown.sane (grown : Grown fs later) (sane : Sane fs) : Sane later := by
  induction grown with
  | done => exact sane
  | more _ room made _ ih => exact ih (made.sane sane room)

theorem new_sane (clock : T) : Sane (withTimeProvider clock) := by
  have table : (withTimeProvider clock).inodeTable =
      AList.insert 0 (Inode.newDir (TimeProvider.now clock).1) (∅ : Table InodeId Inode) := rfl
  have lookup (id : InodeId) : (withTimeProvider clock).inodeTable.lookup id =
      if id = 0 then some (Inode.newDir (TimeProvider.now clock).1) else none := by rw [table, Table.lookup_insert]; rfl
  have kind (id : InodeId) : (withTimeProvider clock).kind id = if id = 0 then some true else none := by
    rw [Fs.kind, lookup]
    split <;> rfl
  have links (d : InodeId) (name : String) : (withTimeProvider clock).links d name = none := by
    rw [Fs.links, entries_eq, lookup]
    split <;> rfl
  have nothing {d v : InodeId} {name : String} : ¬ (withTimeProvider clock).links d name = some v := by
    rw [links]
    exact fun same => by cases same
  -- Nothing is linked yet, and nothing is open.
  refine ⟨?_, fun d n v named => absurd named nothing, ?_, ?_, ⟨?_, fun named _ => absurd named nothing⟩, ?_⟩
  · rw [kind]; rfl
  · intro id inode present
    rw [lookup] at present
    split at present
    · cases present; rfl
    · cases present
  · intro id there
    rw [kind] at there
    split at there
    · next same => subst same; exact Nat.one_pos
    · cases there
  · rintro ⟨d, n, named⟩
    exact nothing named
  · intro fd id held
    cases held

end Fs

/-- How many inodes a call may create. -/
def Call.creates : Call → Nat
  | .openPathWithFlags _ _ | .openAt _ _ _ | .mkdir _ => 1
  | .mkdirP path => (components path).length
  | _ => 0

section
variable {T : Type}

/-- There are numbers left for the inodes that a call may create. -/
def Room (call : Call) (fs : Fs T) : Prop := fs.nextInode + call.creates < 2 ^ 64

instance (call : Call) (fs : Fs T) : Decidable (Room call fs) := Nat.decLt _ _

variable [TimeProvider T] [Target] {fs : Fs T}

open Fs

theorem perform_sane (call : Call) (sane : Sane fs) (room : Room call fs) : Sane (call.perform fs) := by
  have unchanged {later : Fs T} (effect : Same fs later ∧ later.holder = fs.holder) : Sane later :=
    effect.1.sane sane (by rw [effect.2, effect.1.kind]; exact sane.opened)
  cases call with
  | openPathWithFlags path flags =>
    rcases openPath_effect path flags sane with ⟨d, name, -, opening⟩ | ⟨same, held | held⟩
    · exact opening.sane sane room
    · exact unchanged ⟨same, held⟩
    · exact same.sane_update sane held fun id open' => (by cases open'; rw [sane.root]; rfl)
  | openAt dirFd path flags =>
    rcases openAt_effect dirFd path flags sane with ⟨dir, d, name, -, opening⟩ | ⟨-, effect⟩
    · exact opening.sane sane room
    · exact unchanged effect
  | write fd buf => exact unchanged (writeThrough_effect fs fd _ _ buf)
  | writeAt fd offset buf => exact unchanged (writeThrough_effect fs fd _ _ buf)
  | appendWrite fd buf => exact unchanged (writeThrough_effect fs fd _ _ buf)
  | read fd wanted => exact unchanged (readThrough_effect fs fd _ wanted)
  | readAt fd offset wanted => exact unchanged (readThrough_effect fs fd _ wanted)
  | ftruncate fd size => exact unchanged (ftruncate_effect fs fd size)
  | seek fd offset whence => exact unchanged (seek_effect fs fd offset whence)
  | close fd =>
    obtain ⟨same, held⟩ := close_effect fs fd
    exact same.sane_update sane held fun id open' => (by cases open')
  | mkdir path =>
    rcases mkdir_effect path sane with ⟨d, name, -, made⟩ | effect
    · exact made.sane sane room
    · exact unchanged effect
  | mkdirP path => exact (mkdirP_effect path sane room).sane sane
  | unlink path =>
    rcases unlink_effect path sane with ⟨d, name, v, -, -, gone⟩ | ⟨-, effect⟩
    · exact gone.sane sane
    · exact unchanged effect
  | rmdir path =>
    rcases rmdir_effect path sane with ⟨d, name, v, -, -, gone⟩ | ⟨-, effect⟩
    · exact gone.sane sane
    · exact unchanged effect
  | rename oldPath newPath =>
    rcases rename_effect oldPath newPath sane with ⟨d, name, e, newName, v, -, moved⟩ | ⟨-, effect⟩
    · exact moved.sane sane
    · exact unchanged effect

theorem after_sane {calls : List Call} (sane : Sane fs) (room : Along Room calls fs) : Sane (after calls fs) :=
  after_keeps (fun call _ room sane => perform_sane call sane room) room sane

end
end MonakaFs.FsCore
