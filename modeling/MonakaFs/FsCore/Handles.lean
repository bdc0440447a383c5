import MonakaFs.FsCore.Isolation

/-! Open descriptors: what their handles say, and what they refer to.

A descriptor keeps its inode and its flags until it is closed; only its position moves.
What may be opened for writing is checked when it is opened, and an inode never turns
into one of another kind.
-/

set_option autoImplicit false

namespace MonakaFs.FsCore

open Fs

section
variable {T : Type} [TimeProvider T] {fs later : Fs T} {id d : InodeId} {name : String} {fd : Fd}

/-! ### Handles after a call -/

/-- Every handle was there before, up to its position, which is a machine word where it moved. -/
def Carried (fs later : Fs T) : Prop := ∀ fd handle, later.fdTable.lookup fd = some handle →
  ∃ position, fs.fdTable.lookup fd = some { handle with position := position } ∧
    (handle.position = position ∨ handle.position < 2 ^ 64)

omit [TimeProvider T] in
theorem Carried.of_fds (fds : later.fdTable = fs.fdTable) : Carried fs later := by
  intro fd handle found
  rw [fds] at found
  exact ⟨handle.position, found, .inl rfl⟩

omit [TimeProvider T] in
theorem setPosition_carried {position : Nat} (fds : later.fdTable = fs.fdTable) (small : position < 2 ^ 64) :
    Carried fs (later.setPosition fd position) := by
  intro other handle found
  unfold setPosition at found
  split at found
  · next old here =>
    rw [Table.lookup_insert] at found
    split at found
    · next same =>
      cases found
      exact ⟨old.position, by rw [same, ← fds, here], .inr small⟩
    · exact ⟨handle.position, by rw [← fds, found], .inl rfl⟩
  · exact ⟨handle.position, by rw [← fds, found], .inl rfl⟩

omit [TimeProvider T] in
theorem close_carried (fs : Fs T) (fd : Fd) : Carried fs (fs.close fd).2 := by
  unfold close
  split
  · intro other handle found
    rw [Table.lookup_erase] at found
    split at found
    · cases found
    · exact ⟨handle.position, found, .inl rfl⟩
  · exact .of_fds rfl

theorem toI64_range (n : Int) : -2 ^ 63 ≤ toI64 n ∧ toI64 n < 2 ^ 63 :=
  ⟨Int.le_bmod (by decide), Int.bmod_lt (by decide)⟩

theorem toU64_lt (n : Nat) : toU64 n < 2 ^ 64 := Nat.mod_lt _ (by decide)

omit [TimeProvider T] in
theorem seek_carried (fs : Fs T) (fd : Fd) (offset whence : Int) : Carried fs (fs.seek fd offset whence).2 := by
  unfold seek
  split
  · exact .of_fds rfl
  split
  · exact .of_fds rfl
  split
  · exact .of_fds rfl
  dsimp only
  split
  · exact .of_fds rfl
  split
  · exact .of_fds rfl
  · next base _ within =>
    have small := toI64_range (base + offset)
    exact setPosition_carried rfl (by omega)

omit [TimeProvider T] in
theorem readThrough_carried [Target] (fs : Fs T) (fd : Fd) (position : FileHandle → Nat) (wanted : Nat) :
    Carried fs (fs.readThrough fd position wanted).2 := by
  unfold readThrough
  split
  · exact .of_fds rfl
  split
  · exact .of_fds rfl
  split
  · exact .of_fds rfl
  split
  · exact .of_fds rfl
  · exact setPosition_carried rfl (toU64_lt _)

theorem writeThrough_carried [Target] (fs : Fs T) (fd : Fd) (position : FileHandle → BlockStorage → Nat) {after : Nat → Nat → Nat}
    (small : ∀ pos n, after pos n < 2 ^ 64) (buf : Bytes) : Carried fs (fs.writeThrough fd position after buf).2 := by
  unfold writeThrough
  split
  · exact .of_fds rfl
  split
  · exact .of_fds rfl
  split
  · exact .of_fds rfl
  split
  · exact .of_fds rfl
  · exact setPosition_carried rfl (small _ _)

theorem ftruncate_carried [Target] (fs : Fs T) (fd : Fd) (size : Nat) : Carried fs (fs.ftruncate fd size).2 := by
  unfold ftruncate
  split
  · exact .of_fds rfl
  split
  · exact .of_fds rfl
  split
  · exact .of_fds rfl
  split
  · exact .of_fds rfl
  · exact .of_fds rfl

/-- The flags of a call that opens. -/
def Call.flags : Call → Option Nat
  | .openPathWithFlags _ flags => some flags
  | .openAt _ _ flags => some flags
  | _ => none

/-- Every other handle is as before, up to its position, and the new one is at the start. -/
def Extended (fs later : Fs T) (flags : Nat) : Prop := ∃ id, later.fdTable = AList.insert fs.nextFd ⟨id, 0, flags⟩ fs.fdTable

theorem perform_handles [Target] (call : Call) (fs : Fs T) : Carried fs (call.perform fs) ∨
    ∃ flags, call.flags = some flags ∧ Extended fs (call.perform fs) flags := by
  have granted {flags : Nat} {outcome : Outcome T Fd} (known : call.flags = some flags) (handed : Handed fs flags outcome) :
      Carried fs outcome.2 ∨ ∃ flags, call.flags = some flags ∧ Extended fs outcome.2 flags := by
    cases handed with
    | refused e beside => exact .inl (.of_fds beside.fds)
    | opened id table next => exact .inr ⟨flags, known, id, table⟩
  cases call with
  | openPathWithFlags path flags => exact granted rfl (openPath_handed fs path flags)
  | openAt dirFd path flags => exact granted rfl (openAt_handed fs dirFd path flags)
  | write fd buf => exact .inl (writeThrough_carried fs fd _ (fun _ _ => toU64_lt _) buf)
  | writeAt fd offset buf => exact .inl (writeThrough_carried fs fd _ (fun _ _ => toU64_lt _) buf)
  | appendWrite fd buf => exact .inl (writeThrough_carried fs fd _ (fun _ _ => toU64_lt _) buf)
  | read fd wanted => exact .inl (readThrough_carried fs fd _ wanted)
  | readAt fd offset wanted => exact .inl (readThrough_carried fs fd _ wanted)
  | ftruncate fd size => exact .inl (ftruncate_carried fs fd size)
  | seek fd offset whence => exact .inl (seek_carried fs fd offset whence)
  | close fd => exact .inl (close_carried fs fd)
  | mkdir path => exact .inl (.of_fds (mkdir_beside fs path).fds)
  | mkdirP path => exact .inl (.of_fds (mkdirP_beside fs path).fds)
  | unlink path => exact .inl (.of_fds (unlink_quiet fs path).fds)
  | rmdir path => exact .inl (.of_fds (rmdir_quiet fs path).fds)
  | rename oldPath newPath => exact .inl (.of_fds (rename_quiet fs oldPath newPath).fds)

/-! ### Kinds after a call -/

omit [TimeProvider T] in
theorem Created.kind_stays {isDir : Bool} (sane : Sane fs) (made : Created d name isDir fs later) (there : (fs.kind id).isSome) :
    later.kind id = fs.kind id := by
  rw [made.kind, Function.update_of_ne]
  rintro rfl
  rw [sane.unused] at there
  cases there

omit [TimeProvider T] in
theorem Grown.kind_stays (grown : Grown fs later) (sane : Sane fs) (there : (fs.kind id).isSome) : later.kind id = fs.kind id := by
  induction grown with
  | done => rfl
  | more _ room made _ ih =>
    have first := Created.kind_stays sane made there
    rw [ih (made.sane sane room) (first ▸ there), first]

omit [TimeProvider T] in
theorem Opening.kind_stays {flags : Nat} (opening : Opening d name flags fs later) (sane : Sane fs) (there : (fs.kind id).isSome) :
    later.kind id = fs.kind id := by
  cases opening with
  | refused _ same _ => rw [same.kind]
  | opened _ same _ => rw [same.kind]
  | left _ _ made => exact Created.kind_stays sane made there
  | created _ _ made same _ => rw [same.kind, Created.kind_stays sane made there]

/-- An inode stays a file, or a directory. -/
theorem perform_kind [Target] (call : Call) (sane : Sane fs) (room : Room call fs) (there : (fs.kind id).isSome) :
    (call.perform fs).kind id = fs.kind id := by
  have unchanged {later : Fs T} (effect : Same fs later ∧ later.holder = fs.holder) : later.kind id = fs.kind id := by
    rw [effect.1.kind]
  cases call with
  | openPathWithFlags path flags =>
    rcases openPath_effect path flags sane with ⟨d, name, -, opening⟩ | ⟨same, -⟩
    · exact Opening.kind_stays opening sane there
    · exact congrFun same.kind id
  | openAt dirFd path flags =>
    rcases openAt_effect dirFd path flags sane with ⟨dir, d, name, -, opening⟩ | ⟨-, effect⟩
    · exact Opening.kind_stays opening sane there
    · exact unchanged effect
  | write fd buf => exact unchanged (writeThrough_effect fs fd _ _ buf)
  | writeAt fd offset buf => exact unchanged (writeThrough_effect fs fd _ _ buf)
  | appendWrite fd buf => exact unchanged (writeThrough_effect fs fd _ _ buf)
  | read fd wanted => exact unchanged (readThrough_effect fs fd _ wanted)
  | readAt fd offset wanted => exact unchanged (readThrough_effect fs fd _ wanted)
  | ftruncate fd size => exact unchanged (ftruncate_effect fs fd size)
  | seek fd offset whence => exact unchanged (seek_effect fs fd offset whence)
  | close fd => exact congrFun (close_effect fs fd).1.kind id
  | mkdir path =>
    rcases mkdir_effect path sane with ⟨d, name, -, made⟩ | effect
    · exact Created.kind_stays sane made there
    · exact unchanged effect
  | mkdirP path => exact Grown.kind_stays (mkdirP_effect path sane room) sane there
  | unlink path =>
    rcases unlink_effect path sane with ⟨d, name, v, -, -, gone⟩ | ⟨-, effect⟩
    · exact congrFun gone.kind id
    · exact unchanged effect
  | rmdir path =>
    rcases rmdir_effect path sane with ⟨d, name, v, -, -, gone⟩ | ⟨-, effect⟩
    · exact congrFun gone.kind id
    · exact unchanged effect
  | rename oldPath newPath =>
    rcases rename_effect oldPath newPath sane with ⟨d, name, e, newName, v, -, moved⟩ | ⟨-, effect⟩
    · exact congrFun moved.kind id
    · exact unchanged effect

/-! ### Write access -/

/-- Flags that ask for write access, or to cut the file down. -/
def Writing (flags : Nat) : Prop := accessMode flags = O_WRONLY ∨ accessMode flags = O_RDWR ∨ flags &&& O_TRUNC ≠ 0

instance (flags : Nat) : Decidable (Writing flags) := inferInstanceAs (Decidable (_ ∨ _ ∨ _))

/-- Descriptors with write access refer to files. -/
def FilesOnly (fs : Fs T) : Prop := ∀ fd handle, fs.fdTable.lookup fd = some handle → Writing handle.flags →
  fs.kind handle.inodeId = some false

/-- The call opens the root with write access. -/
def WritesRoot (call : Call) (_ : Fs T) : Prop := ∃ path flags, call = .openPathWithFlags path flags ∧ path ≠ "" ∧
  components path = [] ∧ Writing flags

/-- What an open hands out suits its flags. -/
def Proper (outcome : Outcome T Fd) : Prop := ∀ fd handle, outcome.1 = .ok fd → outcome.2.fdTable.lookup fd = some handle →
  Writing handle.flags → outcome.2.kind handle.inodeId = some false

omit [TimeProvider T] in
theorem Proper.error (e : FsError) : Proper (.error e, fs) := fun _ _ failed => by cases failed

omit [TimeProvider T] in
theorem insertFd_proper {flags : Nat} (suits : Writing flags → fs.kind id = some false) : Proper (fs.insertFd id flags) := by
  intro fd handle opened found writing
  cases opened
  rw [insertFd, Table.lookup_insert, if_pos rfl] at found
  cases found
  rw [(insertFd_effect fs id flags).1.kind]
  exact suits writing

theorem openInode_proper (fs : Fs T) (id : InodeId) (flags : Nat) : Proper (fs.openInode id flags) := by
  unfold openInode
  split
  · exact .error _
  next inode stored =>
  split
  · split
    · exact .error _
    next access =>
    split
    · exact .error _
    next cuts =>
    refine insertFd_proper fun writing => ?_
    rcases writing with only | both | cut
    · exact absurd (.inl only) access
    · exact absurd (.inr both) access
    · exact absurd cut cuts
  · next storage file =>
    have kind : fs.kind id = some false := by
      rw [kind, stored, Option.map_some, file]
      rfl
    split
    · split
      · exact .error _
      · refine insertFd_proper fun _ => ?_
        rw [(update_effect stored file (storage.truncate 0) 0).1.kind, kind]
    · exact insertFd_proper fun _ => kind

theorem openEntry_proper (fs : Fs T) (d : InodeId) (name : String) (flags : Nat) : Proper (fs.openEntry d name flags) := by
  unfold openEntry
  split
  · exact .error _
  · exact openInode_proper _ _ flags

theorem openAt_proper (fs : Fs T) (dirFd : Fd) (path : String) (flags : Nat) : Proper (fs.openAt dirFd path flags) := by
  rcases openAt_cases fs dirFd path flags with ⟨⟨e, result⟩, -⟩ | ⟨d, name, -, result⟩
  · exact result ▸ .error e
  · exact result ▸ openEntry_proper fs d name flags

/-- Only the root is opened without a look at the flags. -/
theorem openPath_proper {path : String} {flags : Nat} (elsewhere : ¬ WritesRoot (.openPathWithFlags path flags) fs) :
    Proper (fs.openPathWithFlags path flags) := by
  unfold openPathWithFlags
  split
  · exact .error _
  next named =>
  split
  · next root =>
    exact insertFd_proper fun writing =>
      absurd ⟨path, flags, rfl, named, List.getLast?_eq_none_iff.mp root, writing⟩ elsewhere
  split
  · exact .error _
  · exact openEntry_proper fs _ _ flags

omit [TimeProvider T] in
theorem filesOnly_carried (carried : Carried fs later) (kinds : ∀ id, (fs.kind id).isSome → later.kind id = fs.kind id)
    (sane : Sane fs) (only : FilesOnly fs) : FilesOnly later := by
  intro fd handle found writing
  obtain ⟨position, before, -⟩ := carried fd handle found
  have held : fs.holder fd = some handle.inodeId := by rw [holder, before]; rfl
  rw [kinds handle.inodeId (sane.opened fd _ held)]
  have file := only fd { handle with position := position } before writing
  exact file

omit [TimeProvider T] in
theorem filesOnly_opened {flags : Nat} {outcome : Outcome T Fd} (handed : Handed fs flags outcome) (proper : Proper outcome)
    (kinds : ∀ id, (fs.kind id).isSome → outcome.2.kind id = fs.kind id) (sane : Sane fs) (only : FilesOnly fs) :
    FilesOnly outcome.2 := by
  cases handed with
  | refused e beside => exact filesOnly_carried (.of_fds beside.fds) kinds sane only
  | @opened id later table next =>
    intro fd handle found writing
    by_cases new : fd = fs.nextFd
    · exact proper fd handle (by rw [new]) found writing
    · dsimp only at found
      rw [table, Table.lookup_insert, if_neg new] at found
      have held : fs.holder fd = some handle.inodeId := by rw [holder, found]; rfl
      dsimp only at kinds ⊢
      rw [kinds handle.inodeId (sane.opened fd _ held)]
      exact only fd handle found writing

/-- One call keeps it so exactly if it does not open the root with write access. -/
theorem perform_filesOnly [Target] {call : Call} (sane : Sane fs) (room : Room call fs) (only : FilesOnly fs) :
    FilesOnly (call.perform fs) ↔ ¬ WritesRoot call fs := by
  constructor
  · rintro only' ⟨path, flags, rfl, named, root, writing⟩
    have opened : fs.openPathWithFlags path flags = fs.insertFd fs.rootInode flags := by
      rw [openPathWithFlags, if_neg named, root]
      rfl
    have found : ((fs.openPathWithFlags path flags).2).fdTable.lookup fs.nextFd = some ⟨fs.rootInode, 0, flags⟩ := by
      rw [opened, insertFd, Table.lookup_insert, if_pos rfl]
    have file := only' fs.nextFd _ found writing
    rw [perform_kind _ sane room (by rw [sane.root]; rfl), sane.root] at file
    cases file
  · intro elsewhere
    have kinds (id : InodeId) (there : (fs.kind id).isSome) := perform_kind call sane room there
    have quiet (none : call.flags = none) : FilesOnly (call.perform fs) := by
      rcases perform_handles call fs with carried | ⟨flags, known, -⟩
      · exact filesOnly_carried carried kinds sane only
      · cases none.symm.trans known
    cases call with
    | openPathWithFlags path flags => exact filesOnly_opened (openPath_handed fs path flags) (openPath_proper elsewhere) kinds sane only
    | openAt dirFd path flags => exact filesOnly_opened (openAt_handed fs dirFd path flags) (openAt_proper fs dirFd path flags) kinds sane only
    | _ => exact quiet rfl

/-- As long as inode numbers last, descriptors with write access refer to files all along
a run exactly if no call opens the root with write access. -/
theorem always_filesOnly_iff [Target] {calls : List Call} (clock : T) (room : Along Room calls (withTimeProvider clock)) :
    (∀ front, front <+: calls → FilesOnly (after front (withTimeProvider clock))) ↔
      Along (fun call fs => ¬ WritesRoot call fs) calls (withTimeProvider clock) :=
  always_iff (fun call _ room sane => perform_sane call sane room) (fun _ _ sane room only => perform_filesOnly sane room only)
    (new_sane clock) (fun _ _ found => by cases found) room

end

/-- The root opened for writing, under a spelling of its own. -/
def rootWriter : List Call := [.openPathWithFlags "//" O_RDWR]

theorem always_filesOnly_rootWriter : (∀ front, front <+: rootWriter → FilesOnly (@after _ _ .wasm32 front Fs.new)) ↔
    @Along _ _ .wasm32 (fun call fs => ¬ WritesRoot call fs) rootWriter Fs.new :=
  @always_filesOnly_iff MonotonicCounter _ .wasm32 rootWriter .new ⟨by decide, trivial⟩

theorem rootWriter_directory : ¬ FilesOnly (@after _ _ .wasm32 rootWriter Fs.new) := by
  intro only
  have file := only 3 ⟨0, 0, O_RDWR⟩ rfl (by decide)
  cases file

end MonakaFs.FsCore
