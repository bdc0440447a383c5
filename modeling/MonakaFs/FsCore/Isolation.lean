import MonakaFs.FsCore.Snapshots

/-! Open descriptors and what happens around them.

Inodes are never taken out of the table and numbers are given in order, so a number
stands for one inode as long as the counter does not wrap. A descriptor keeps its
inode until it is closed, and its file is changed by writes and truncations only.
-/

set_option autoImplicit false

namespace MonakaFs.FsCore

open Fs

section
variable {T : Type} {fs later : Fs T}

/-- Descriptors are the same. -/
structure Beside (fs later : Fs T) : Prop where
  fds : later.fdTable = fs.fdTable
  nextFd : later.nextFd = fs.nextFd

/-- Descriptors and both counters are the same. -/
structure Quiet (fs later : Fs T) : Prop extends Beside fs later where
  nextInode : later.nextInode = fs.nextInode

theorem Beside.refl (fs : Fs T) : Beside fs fs := ⟨rfl, rfl⟩

theorem Quiet.refl (fs : Fs T) : Quiet fs fs := ⟨.refl fs, rfl⟩

theorem Beside.trans {last : Fs T} (first : Beside fs later) (second : Beside later last) : Beside fs last :=
  ⟨second.fds.trans first.fds, second.nextFd.trans first.nextFd⟩

variable [TimeProvider T]

theorem removeEntry_quiet (fs : Fs T) (d : InodeId) (name : String) : Quiet fs (fs.removeEntry d name).2 := by
  unfold removeEntry
  split
  · exact .refl fs
  split
  · exact .refl fs
  · exact ⟨⟨rfl, rfl⟩, rfl⟩

theorem unlink_quiet (fs : Fs T) (path : String) : Quiet fs (fs.unlink path).2 := by
  unfold unlink
  split
  · exact .refl fs
  split
  · exact .refl fs
  split
  · exact removeEntry_quiet fs _ _
  · exact .refl fs

theorem rmdir_quiet (fs : Fs T) (path : String) : Quiet fs (fs.rmdir path).2 := by
  unfold rmdir
  split
  · exact .refl fs
  split
  · exact .refl fs
  split
  · exact .refl fs
  split
  · exact removeEntry_quiet fs _ _
  · exact .refl fs

theorem moveEntry_quiet (fs : Fs T) (d : InodeId) (name : String) (e : InodeId) (newName : String) :
    Quiet fs (fs.moveEntry d name e newName).2 := by
  unfold moveEntry
  dsimp only
  split
  · exact ⟨⟨rfl, rfl⟩, rfl⟩
  split
  · exact ⟨⟨rfl, rfl⟩, rfl⟩
  split
  · exact ⟨⟨rfl, rfl⟩, rfl⟩
  split
  · exact ⟨⟨rfl, rfl⟩, rfl⟩
  split
  · exact ⟨⟨rfl, rfl⟩, rfl⟩
  split
  · exact ⟨⟨rfl, rfl⟩, rfl⟩
  · exact ⟨⟨rfl, rfl⟩, rfl⟩

theorem rename_quiet (fs : Fs T) (oldPath newPath : String) : Quiet fs (fs.rename oldPath newPath).2 := by
  unfold rename
  split
  · exact .refl fs
  split
  · split
    · exact .refl fs
    split
    · exact .refl fs
    split
    · exact .refl fs
    split
    · exact .refl fs
    split
    · exact .refl fs
    · exact moveEntry_quiet fs _ _ _ _
  · exact .refl fs

theorem createInode_beside (fs : Fs T) (d : InodeId) (name : String) (isDir : Bool) :
    Beside fs (fs.createInode d name isDir).2 := by
  unfold createInode
  split
  · exact .refl fs
  split
  · exact .refl fs
  split
  · exact .refl fs
  · exact ⟨rfl, rfl⟩

theorem mkdir_beside (fs : Fs T) (path : String) : Beside fs (fs.mkdir path).2 := by
  unfold mkdir
  split
  · exact .refl fs
  · next parent name _ =>
    have beside := createInode_beside fs parent name true
    split
    · next result => rw [result] at beside; exact beside
    · next result => rw [result] at beside; exact beside

theorem mkdirPath_beside {d : InodeId} {comps : List String} : Beside fs (fs.mkdirPath d comps).2 := by
  induction comps generalizing fs d with
  | nil => exact .refl fs
  | cons comp comps ih =>
    have beside := createInode_beside fs d comp true
    unfold mkdirPath
    split
    · split
      · exact .refl fs
      · exact ih
    · split
      · next result => rw [result] at beside; exact beside.trans ih
      · next result =>
        rw [result] at beside
        split
        · exact beside.trans ih
        · exact beside
      · next result => rw [result] at beside; exact beside
    · exact .refl fs

theorem mkdirP_beside (fs : Fs T) (path : String) : Beside fs (fs.mkdirP path).2 := by
  unfold mkdirP
  split
  · exact .refl fs
  split
  · exact .refl fs
  split
  · exact mkdirPath_beside
  · exact .refl fs

/-! ### Descriptors after a call -/

omit [TimeProvider T] in
theorem setPosition_nextFd (fs : Fs T) (fd : Fd) (position : Nat) : (fs.setPosition fd position).nextFd = fs.nextFd := by
  unfold setPosition
  split
  · rfl
  · rfl

omit [TimeProvider T] in
theorem close_nextFd (fs : Fs T) (fd : Fd) : (fs.close fd).2.nextFd = fs.nextFd := by
  unfold close
  split
  · rfl
  · rfl

omit [TimeProvider T] in
theorem seek_nextFd (fs : Fs T) (fd : Fd) (offset whence : Int) : (fs.seek fd offset whence).2.nextFd = fs.nextFd := by
  unfold seek
  split
  · rfl
  split
  · rfl
  split
  · rfl
  dsimp only
  split
  · rfl
  split
  · rfl
  · exact setPosition_nextFd fs fd _

omit [TimeProvider T] in
theorem readThrough_nextFd [Target] (fs : Fs T) (fd : Fd) (position : FileHandle → Nat) (wanted : Nat) :
    (fs.readThrough fd position wanted).2.nextFd = fs.nextFd := by
  unfold readThrough
  split
  · rfl
  split
  · rfl
  split
  · rfl
  split
  · rfl
  · exact setPosition_nextFd fs fd _

theorem writeThrough_nextFd [Target] (fs : Fs T) (fd : Fd) (position : FileHandle → BlockStorage → Nat) (after : Nat → Nat → Nat)
    (buf : Bytes) : (fs.writeThrough fd position after buf).2.nextFd = fs.nextFd := by
  unfold writeThrough
  split
  · rfl
  split
  · rfl
  split
  · rfl
  split
  · rfl
  · exact setPosition_nextFd _ fd _

theorem ftruncate_nextFd [Target] (fs : Fs T) (fd : Fd) (size : Nat) : (fs.ftruncate fd size).2.nextFd = fs.nextFd := by
  unfold ftruncate
  split
  · rfl
  split
  · rfl
  split
  · rfl
  split
  · rfl
  · rfl

/-- What a call does to the descriptors. -/
inductive Turn (fs later : Fs T) : Prop where
  | same (held : later.holder = fs.holder) (next : later.nextFd = fs.nextFd)
  | opened (id : InodeId) (held : later.holder = Function.update fs.holder fs.nextFd (some id))
      (next : later.nextFd = (fs.nextFd + 1) % 2 ^ 32)

omit [TimeProvider T] in
theorem Beside.holder (beside : Beside fs later) : later.holder = fs.holder := by
  funext fd
  rw [Fs.holder, Fs.holder, beside.fds]

omit [TimeProvider T] in
theorem Beside.turn (beside : Beside fs later) : Turn fs later := .same beside.holder beside.nextFd

/-- An open fails without touching a descriptor, or hands out the next one. -/
inductive Handed (fs : Fs T) (flags : Nat) : Outcome T Fd → Prop where
  | refused (e : FsError) {later : Fs T} (beside : Beside fs later) : Handed fs flags (.error e, later)
  | opened (id : InodeId) {later : Fs T} (table : later.fdTable = AList.insert fs.nextFd ⟨id, 0, flags⟩ fs.fdTable)
      (next : later.nextFd = (fs.nextFd + 1) % 2 ^ 32) : Handed fs flags (.ok fs.nextFd, later)

omit [TimeProvider T] in
theorem holder_opened {flags : Nat} {id : InodeId} (table : later.fdTable = AList.insert fs.nextFd ⟨id, 0, flags⟩ fs.fdTable) :
    later.holder = Function.update fs.holder fs.nextFd (some id) := by
  funext fd
  rw [Fs.holder, table, Table.lookup_insert, Function.update_apply]
  split <;> rfl

omit [TimeProvider T] in
theorem Handed.turn {flags : Nat} {outcome : Outcome T Fd} (handed : Handed fs flags outcome) : Turn fs outcome.2 := by
  cases handed with
  | refused e beside => exact beside.turn
  | opened id table next => exact .opened id (holder_opened table) next

omit [TimeProvider T] in
/-- What happens beside the descriptors makes no difference. -/
theorem Handed.after_beside {flags : Nat} {outcome : Outcome T Fd} (beside : Beside fs later)
    (handed : Handed later flags outcome) : Handed fs flags outcome := by
  cases handed with
  | refused e more => exact .refused e (beside.trans more)
  | opened id table next =>
    rw [beside.fds, beside.nextFd] at table
    rw [beside.nextFd] at next ⊢
    exact .opened id table next

omit [TimeProvider T] in
theorem insertFd_handed (fs : Fs T) (id : InodeId) (flags : Nat) : Handed fs flags (fs.insertFd id flags) :=
  .opened id rfl rfl

theorem openInode_handed (fs : Fs T) (id : InodeId) (flags : Nat) : Handed fs flags (fs.openInode id flags) := by
  unfold openInode
  split
  · exact .refused _ (.refl fs)
  split
  · split
    · exact .refused _ (.refl fs)
    split
    · exact .refused _ (.refl fs)
    · exact insertFd_handed fs id flags
  · split
    · split
      · exact .refused _ (.refl fs)
      · have beside (inode : Nat → Inode) : Beside fs (fs.update id inode) := ⟨rfl, rfl⟩
        exact (insertFd_handed _ id flags).after_beside (beside _)
    · exact insertFd_handed fs id flags

theorem openEntry_handed (fs : Fs T) (d : InodeId) (name : String) (flags : Nat) :
    Handed fs flags (fs.openEntry d name flags) := by
  rcases findOrCreate_cases fs d name flags with ⟨e, result⟩ | ⟨id, -, result⟩ | ⟨-, later, made, result⟩
  · rw [openEntry, result]
    exact .refused e (.refl fs)
  · rw [openEntry, result]
    exact openInode_handed fs id flags
  · have beside := createInode_beside fs d name false
    rw [made] at beside
    rw [openEntry, result]
    exact (openInode_handed later fs.nextInode flags).after_beside beside

theorem openPath_handed (fs : Fs T) (path : String) (flags : Nat) : Handed fs flags (fs.openPathWithFlags path flags) := by
  rcases openPath_cases fs path flags with ⟨⟨e, result⟩, -⟩ | ⟨result, -⟩ | ⟨d, name, -, result⟩
  · exact result ▸ .refused e (.refl fs)
  · exact result ▸ insertFd_handed fs fs.rootInode flags
  · exact result ▸ openEntry_handed fs d name flags

theorem openAt_handed (fs : Fs T) (dirFd : Fd) (path : String) (flags : Nat) :
    Handed fs flags (fs.openAt dirFd path flags) := by
  rcases openAt_cases fs dirFd path flags with ⟨⟨e, result⟩, -⟩ | ⟨d, name, -, result⟩
  · exact result ▸ .refused e (.refl fs)
  · exact result ▸ openEntry_handed fs d name flags

variable [Target]

theorem perform_turn (fs : Fs T) (call : Call) (open' : ∀ fd, call ≠ .close fd) : Turn fs (call.perform fs) := by
  have unmoved {later : Fs T} (effect : Same fs later ∧ later.holder = fs.holder) (next : later.nextFd = fs.nextFd) :
      Turn fs later := .same effect.2 next
  cases call with
  | openPathWithFlags path flags => exact (openPath_handed fs path flags).turn
  | openAt dirFd path flags => exact (openAt_handed fs dirFd path flags).turn
  | write fd buf => exact unmoved (writeThrough_effect fs fd _ _ buf) (writeThrough_nextFd fs fd _ _ buf)
  | writeAt fd offset buf => exact unmoved (writeThrough_effect fs fd _ _ buf) (writeThrough_nextFd fs fd _ _ buf)
  | appendWrite fd buf => exact unmoved (writeThrough_effect fs fd _ _ buf) (writeThrough_nextFd fs fd _ _ buf)
  | read fd wanted => exact unmoved (readThrough_effect fs fd _ wanted) (readThrough_nextFd fs fd _ wanted)
  | readAt fd offset wanted => exact unmoved (readThrough_effect fs fd _ wanted) (readThrough_nextFd fs fd _ wanted)
  | ftruncate fd size => exact unmoved (ftruncate_effect fs fd size) (ftruncate_nextFd fs fd size)
  | seek fd offset whence => exact unmoved (seek_effect fs fd offset whence) (seek_nextFd fs fd offset whence)
  | close fd => exact absurd rfl (open' fd)
  | mkdir path => exact (mkdir_beside fs path).turn
  | mkdirP path => exact (mkdirP_beside fs path).turn
  | unlink path => exact (unlink_quiet fs path).turn
  | rmdir path => exact (rmdir_quiet fs path).turn
  | rename oldPath newPath => exact (rename_quiet fs oldPath newPath).turn

/-- The counter of inodes goes on by one for each creation. -/
theorem perform_next (fs : Fs T) (call : Call) : toU64 (call.perform fs).nextInode = toU64 (fs.nextInode + call.creations fs) := by
  -- All calls but `mkdirP` make one inode at most.
  have single (one : ∀ path, call ≠ .mkdirP path)
      (next : (call.perform fs).nextInode = fs.nextInode ∨ (call.perform fs).nextInode = toU64 (fs.nextInode + 1)) :
      toU64 (call.perform fs).nextInode = toU64 (fs.nextInode + call.creations fs) := by
    rw [Call.creations.eq_2 call fs one]
    rcases next with same | more
    · rw [if_pos same, same]
      rfl
    · rw [if_neg (by rw [more]; exact toU64_ne _), more]
      exact Nat.mod_mod _ _
  have opened (d : InodeId) (name : String) (flags : Nat) : (fs.openEntry d name flags).2.nextInode = fs.nextInode ∨
      (fs.openEntry d name flags).2.nextInode = toU64 (fs.nextInode + 1) := by
    rcases openEntry_node fs d name flags with ⟨-, same⟩ | ⟨_, _, -, -, -, -, same⟩ | ⟨-, more⟩
    · exact .inl same
    · exact .inl same
    · exact .inr more
  cases call with
  | openPathWithFlags path flags =>
    refine single (fun _ same => by cases same) ?_
    rcases openPath_cases fs path flags with ⟨⟨e, result⟩, -⟩ | ⟨result, -⟩ | ⟨d, name, -, result⟩
    · exact .inl (by rw [Call.perform, result])
    · exact .inl (by rw [Call.perform, result]; rfl)
    · rw [Call.perform, result]
      exact opened d name flags
  | openAt dirFd path flags =>
    refine single (fun _ same => by cases same) ?_
    rcases openAt_cases fs dirFd path flags with ⟨⟨e, result⟩, -⟩ | ⟨d, name, -, result⟩
    · exact .inl (by rw [Call.perform, result])
    · rw [Call.perform, result]
      exact opened d name flags
  | write fd buf => exact single (fun _ same => by cases same) (.inl (writeThrough_effect fs fd _ _ buf).1.next)
  | writeAt fd offset buf => exact single (fun _ same => by cases same) (.inl (writeThrough_effect fs fd _ _ buf).1.next)
  | appendWrite fd buf => exact single (fun _ same => by cases same) (.inl (writeThrough_effect fs fd _ _ buf).1.next)
  | read fd wanted => exact single (fun _ same => by cases same) (.inl (readThrough_effect fs fd _ wanted).1.next)
  | readAt fd offset wanted => exact single (fun _ same => by cases same) (.inl (readThrough_effect fs fd _ wanted).1.next)
  | ftruncate fd size => exact single (fun _ same => by cases same) (.inl (ftruncate_effect fs fd size).1.next)
  | seek fd offset whence => exact single (fun _ same => by cases same) (.inl (seek_effect fs fd offset whence).1.next)
  | close fd => exact single (fun _ same => by cases same) (.inl (close_effect fs fd).1.next)
  | mkdir path =>
    refine single (fun _ same => by cases same) ?_
    rcases mkdir_node fs path with same | ⟨-, next⟩
    · exact .inl (by rw [Call.perform, same])
    · exact .inr next
  | mkdirP path => exact (mkdirP_numbered fs path).next
  | unlink path => exact single (fun _ same => by cases same) (.inl (unlink_quiet fs path).nextInode)
  | rmdir path => exact single (fun _ same => by cases same) (.inl (rmdir_quiet fs path).nextInode)
  | rename oldPath newPath => exact single (fun _ same => by cases same) (.inl (rename_quiet fs oldPath newPath).nextInode)

/-! ### Runs -/

/-- How many descriptors a call hands out. -/
def Call.descriptors (call : Call) (fs : Fs T) : Nat := if (call.perform fs).nextFd = fs.nextFd then 0 else 1

/-- Filesystems as they can come to be, with the number of inodes created so far and
the number of opens since it was set up. -/
inductive Run : Nat → Nat → Fs T → Prop where
  | new (clock : T) : Run 0 0 (withTimeProvider clock)
  | called {made opened : Nat} {fs : Fs T} (run : Run made opened fs) (call : Call) (numbers : made + call.creations fs < 2 ^ 64)
      (descriptors : opened + call.descriptors fs < 2 ^ 32 - 3) :
      Run (made + call.creations fs) (opened + call.descriptors fs) (call.perform fs)
  | restored {made opened : Nat} {fs : Fs T} {inodes : List (Sigma fun _ : InodeId => Inode)} (run : Run made opened fs)
      (visits : Visits fs inodes) (clock : T) : Run made 0 (fromSnapshot (fs.toSnapshot inodes) clock)

/-- Further calls that stay below the limits. -/
def Within : Nat → Nat → List Call → Fs T → Prop
  | _, _, [], _ => True
  | made, opened, call :: calls, fs => made + call.creations fs < 2 ^ 64 ∧ opened + call.descriptors fs < 2 ^ 32 - 3 ∧
      Within (made + call.creations fs) (opened + call.descriptors fs) calls (call.perform fs)

omit [TimeProvider T] [Target] in
theorem nextFd_ne (n : Nat) : (n + 1) % 2 ^ 32 ≠ n := by omega

omit [TimeProvider T] [Target] in
theorem nextFd_eq {n opened : Nat} (here : n = opened + 3) (room : opened + 1 < 2 ^ 32 - 3) :
    (n + 1) % 2 ^ 32 = opened + 1 + 3 := by omega

/-- Numbers are given in order. -/
structure Counted (made opened : Nat) (fs : Fs T) : Prop where
  few : made < 2 ^ 64
  nextInode : toU64 fs.nextInode = toU64 (made + 1)
  inodes : ∀ id, (fs.node id).isSome → toU64 id ≤ made
  fewFds : opened < 2 ^ 32 - 3
  nextFd : fs.nextFd = opened + 3
  fds : ∀ fd id, fs.holder fd = some id → fd < opened + 3

variable {made opened : Nat} {call : Call} {fd : Fd} {id : InodeId}

omit [Target] in
theorem counted_new (clock : T) : Counted 0 0 (withTimeProvider clock) := by
  refine ⟨by decide, rfl, fun id there => ?_, by decide, rfl, fun fd id held => ?_⟩
  · rw [node, withTimeProvider] at there
    dsimp only at there
    rw [Table.lookup_insert] at there
    split at there
    · next root => rw [root]; rfl
    · cases there
  · cases held

/-- The numbers of a call come behind all that were given. -/
theorem Counted.number (counted : Counted made opened fs) {k : Nat} (room : made + call.creations fs < 2 ^ 64)
    (fewer : k < call.creations fs) : toU64 (fs.nextInode + k) = made + 1 + k := by
  have next := counted.nextInode
  simp only [toU64] at next ⊢
  omega

theorem Counted.inodes_called (counted : Counted made opened fs) (room : made + call.creations fs < 2 ^ 64)
    (there : ((call.perform fs).node id).isSome) : toU64 id ≤ made + call.creations fs := by
  have fate := perform_fate call fs id
  generalize (call.perform fs).node id = result at fate there
  have old (before : (fs.node id).isSome) : toU64 id ≤ made + call.creations fs :=
    le_trans (counted.inodes id before) (Nat.le_add_right _ _)
  cases fate with
  | kept same => exact old (by rw [← same]; exact there)
  | created isDir fewer number =>
    rw [number, counted.number room fewer]
    omega
  | written found => exact old (by rw [found]; rfl)
  | truncated found => exact old (by rw [found]; rfl)

/-- A descriptor that is handed out is a new one. -/
theorem Counted.descriptors_called (counted : Counted made opened fs) (room : opened + call.descriptors fs < 2 ^ 32 - 3) :
    (call.perform fs).nextFd = opened + call.descriptors fs + 3 ∧
      ∀ fd id, (call.perform fs).holder fd = some id → fd < opened + call.descriptors fs + 3 := by
  have here := counted.nextFd
  by_cases closes : ∃ fd, call = .close fd
  · obtain ⟨fd, rfl⟩ := closes
    have none : Call.descriptors (.close fd) fs = 0 := if_pos (close_nextFd fs fd)
    rw [none]
    refine ⟨(close_nextFd fs fd).trans here, fun other id held => ?_⟩
    rw [Call.perform, (close_effect fs fd).2, Function.update_apply] at held
    split at held
    · cases held
    · exact counted.fds other id held
  · cases perform_turn fs call fun fd same => closes ⟨fd, same⟩ with
    | same held next =>
      have none : call.descriptors fs = 0 := if_pos next
      rw [none]
      refine ⟨next.trans here, fun other id held' => ?_⟩
      rw [held] at held'
      exact counted.fds other id held'
    | opened id held next =>
      have one : call.descriptors fs = 1 := if_neg (by rw [next]; exact nextFd_ne _)
      rw [one] at room ⊢
      refine ⟨next.trans (nextFd_eq here room), fun other id' held' => ?_⟩
      rw [held, Function.update_apply, here] at held'
      split at held'
      · next same => exact same ▸ Nat.lt_succ_self _
      · exact Nat.lt_succ_of_lt (counted.fds other id' held')

theorem Counted.called (counted : Counted made opened fs) (room : made + call.creations fs < 2 ^ 64)
    (room' : opened + call.descriptors fs < 2 ^ 32 - 3) :
    Counted (made + call.creations fs) (opened + call.descriptors fs) (call.perform fs) := by
  have next : toU64 (call.perform fs).nextInode = toU64 (made + call.creations fs + 1) := by
    have before := counted.nextInode
    have after := perform_next fs call
    simp only [toU64] at before after ⊢
    omega
  have fds : (call.perform fs).nextFd = opened + call.descriptors fs + 3 ∧
      ∀ fd id, (call.perform fs).holder fd = some id → fd < opened + call.descriptors fs + 3 :=
    counted.descriptors_called room'
  exact ⟨room, next, fun id there => counted.inodes_called room there, room', fds.1, fds.2⟩

omit [TimeProvider T] in
theorem Counted.restored {inodes : List (Sigma fun _ : InodeId => Inode)} (counted : Counted made opened fs)
    (visits : Visits fs inodes) (clock : T) : Counted made 0 (fromSnapshot (fs.toSnapshot inodes) clock) := by
  refine ⟨counted.few, counted.nextInode, fun id there => counted.inodes id ?_, by decide, rfl, fun fd id held => ?_⟩
  · rw [node, restored_lookup visits, Option.isSome_map, Option.isSome_map] at there
    rw [node, Option.isSome_map]
    exact there
  · cases held

theorem Run.counted (run : Run made opened fs) : Counted made opened fs := by
  induction run with
  | new clock => exact counted_new clock
  | called _ call numbers descriptors ih => exact ih.called numbers descriptors
  | restored _ visits clock ih => exact ih.restored visits clock

/-! ### One descriptor -/

/-- A call that neither closes the descriptor nor changes its file. -/
def LeavesAlone (fd : Fd) (id : InodeId) (call : Call) (fs : Fs T) : Prop := call ≠ .close fd ∧ ¬ Changes call id fs

theorem Counted.alone {stored : Option Stored} (counted : Counted made opened fs) (room : made + call.creations fs < 2 ^ 64)
    (alone : LeavesAlone fd id call fs) (held : fs.holder fd = some id) (file : fs.node id = some stored) :
    (call.perform fs).holder fd = some id ∧ (call.perform fs).node id = some stored := by
  constructor
  · by_cases closes : ∃ other, call = .close other
    · obtain ⟨other, rfl⟩ := closes
      rw [Call.perform, (close_effect fs other).2, Function.update_of_ne]
      · exact held
      · rintro rfl
        exact alone.1 rfl
    · cases perform_turn fs call fun other same => closes ⟨other, same⟩ with
      | same kept _ => rw [kept, held]
      | opened new kept _ =>
        have before := counted.fds fd id held
        rw [kept, Function.update_of_ne (by rw [counted.nextFd]; exact Nat.ne_of_lt before), held]
  · have fate := perform_fate call fs id
    generalize (call.perform fs).node id = result at fate ⊢
    cases fate with
    | kept same => rw [same, file]
    | created isDir fewer number =>
      have before := counted.inodes id (by rw [file]; rfl)
      rw [number, counted.number room fewer] at before
      omega
    | written _ changes => exact absurd changes alone.2
    | truncated _ changes => exact absurd changes alone.2

/-- In every run a descriptor keeps its file and the file its bytes and its size, until
the descriptor is closed or the file is written to or truncated, and what is created
gets a number that nothing has. -/
theorem descriptor_isolated {stored : Stored} {calls : List Call} (run : Run made opened fs) (held : fs.holder fd = some id)
    (file : fs.node id = some (some stored)) (within : Within made opened calls fs) (alone : Along (LeavesAlone fd id) calls fs) :
    (after calls fs).holder fd = some id ∧ (after calls fs).node id = some (some stored) ∧
      ∀ call, Within made opened (calls ++ [call]) fs → ∀ k, k < call.creations (after calls fs) →
        (after calls fs).node (toU64 ((after calls fs).nextInode + k)) = none := by
  induction calls generalizing fs made opened with
  | nil =>
    refine ⟨held, file, fun call room k fewer => ?_⟩
    by_contra there
    have before := run.counted.inodes _ (Option.isSome_iff_ne_none.mpr there)
    have number := run.counted.number room.1 fewer
    rw [after, List.foldl_nil, number] at before
    have small : toU64 (made + 1 + k) ≤ made := before
    have few := room.1
    have less : k < call.creations fs := fewer
    simp only [toU64] at small
    omega
  | cons call calls ih =>
    obtain ⟨held', file'⟩ := run.counted.alone within.1 alone.1 held file
    obtain ⟨kept, same, fresh⟩ := ih (run.called call within.1 within.2.1) held' file' within.2.2 alone.2
    exact ⟨kept, same, fun later room => fresh later room.2.2⟩

end

/-- A file that is written, unlinked and made again while it is open. -/
def writtenFile [Target] : Fs MonotonicCounter :=
  (Call.write 3 [1, 2]).perform ((Call.openPathWithFlags "/f" (O_RDWR ||| O_CREAT)).perform Fs.new)

def remadeFile : List Call := [.unlink "/f", .openPathWithFlags "/f" (O_RDWR ||| O_CREAT), .write 4 [9]]

theorem remade_isolated :
    let _ : Target := .wasm32
    let stored : Stored := ⟨BlockStorage.new.write 0 [1, 2], 2⟩
    (after remadeFile writtenFile).holder 3 = some 1 ∧ (after remadeFile writtenFile).node 1 = some (some stored) ∧
      ∀ call, Within 1 1 (remadeFile ++ [call]) writtenFile → ∀ k, k < call.creations (after remadeFile writtenFile) →
        (after remadeFile writtenFile).node (toU64 ((after remadeFile writtenFile).nextInode + k)) = none := by
  let _ : Target := .wasm32
  have run : Run 1 1 writtenFile :=
    .called (.called (.new MonotonicCounter.new) (.openPathWithFlags "/f" (O_RDWR ||| O_CREAT)) (by decide) (by decide))
      (.write 3 [1, 2]) (by decide) (by decide)
  refine descriptor_isolated run ?_ ?_ ?_ ?_
  · rfl
  · rfl
  · exact ⟨by decide, by decide, by decide, by decide, by decide, by decide, trivial⟩
  · refine ⟨⟨fun same => (by cases same), ?_⟩, ⟨fun same => (by cases same), ?_⟩, ⟨fun same => (by cases same), ?_⟩, trivial⟩
    · rintro ⟨parent, name, flags, opens, -⟩
      cases opens
    · rintro ⟨parent, name, flags, opens, -, truncates⟩
      have arrives : some (0, "f", O_RDWR ||| O_CREAT) = some (parent, name, flags) := opens
      cases arrives
      exact absurd truncates (by decide)
    · intro held
      have other : some 2 = some 1 := held
      cases other

end MonakaFs.FsCore
