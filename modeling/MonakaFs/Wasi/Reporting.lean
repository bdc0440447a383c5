import MonakaFs.FsCore.Refusals
import MonakaFs.Wasi.HostSync

/-! Which changes reach the sync manager before the file is closed.

An open, a write through a descriptor and one through a stream report nothing. A change by
one of these is reported with the next truncation, with a sync or with the drop of a stream,
and only if one of them comes before the last write descriptor is dropped.
-/

set_option autoImplicit false

namespace MonakaFs.Wasi.VfsHost

open FsCore Fs

/-! ### What the calls of the guest are about -/

section
variable {T : Type}

/-- A descriptor of the path. -/
def HostState.IsAt (state : HostState T) (rep : Nat) (path : String) (kind : OpenKind) : Prop :=
  ∃ wrapper, state.descriptor rep = some wrapper ∧ wrapper.path = some path ∧ OpenKind.fromFsFlags wrapper.flags = kind

variable [TimeProvider T] [Target]

/-- The call tells of the path. -/
def Event.Announces (state : HostState T) (path : String) : Event → Prop
  | .setSize rep size => ∃ wrapper, state.descriptor rep = some wrapper ∧ wrapper.path = some path ∧
      (state.sharedVfs.ftruncate wrapper.fd size).failed = false
  | .sync rep => state.IsAt rep path .write
  | .dropStream rep => ∃ stream, state.output rep = some stream ∧ stream.path = some path
  | _ => False

/-- The call may change the path and tells nothing of it. -/
def Event.Quiet (state : HostState T) (path : String) : Event → Prop
  | .openAt .. | .write .. | .streamWrite .. => True
  | .setSize rep _ => ∀ wrapper, state.descriptor rep = some wrapper → wrapper.path ≠ some path
  | _ => False

/-- The call drops the last descriptor that has the path open for write. -/
def Event.DropsLast (state : HostState T) (path : String) : Event → Prop
  | .dropDescriptor rep => state.IsAt rep path .write ∧ ∀ other, other ≠ rep → ¬ state.IsAt other path .write
  | _ => False

def Moment.Announces (path : String) (moment : Moment T) : Prop := moment.event.Announces moment.before path

def Moment.DropsLast (path : String) (moment : Moment T) : Prop := moment.event.DropsLast moment.before path

/-- A quiet change of the path, and since then nothing that tells of it. -/
def Unannounced (path : String) (past : List (Moment T)) : Prop :=
  ∃ newer change older, past = newer ++ change :: older ∧ Changes path change ∧ change.event.Quiet change.before path ∧
    ∀ later ∈ newer, ¬ later.Announces path ∧ ¬ later.DropsLast path

/-- The guest tells of its quiet changes before it drops the last write descriptor, and of
nothing afterwards. -/
structure Careful (past : List (Moment T)) : Prop where
  announced : ∀ newer moment older path, past = newer ++ moment :: older → moment.DropsLast path → ¬ Unannounced path older
  settled : ∀ newer moment older path, past = newer ++ moment :: older → moment.Announces path →
    (∃ earlier ∈ older, earlier.DropsLast path) → moment.before.WriteOpen path

end

/-! ### Contents -/

section
variable {T : Type} {fs later : Fs T} {path : String}

theorem contentAt_of_table (table : later.inodeTable = fs.inodeTable) (root : later.rootInode = fs.rootInode) :
    contentAt later path = contentAt fs path := by
  have links : later.links = fs.links := by
    funext d name
    rw [Fs.links, Fs.links, entries_eq, entries_eq, table]
  have nodes : later.node = fs.node := node_of_table table
  have bytes : bytesOf later = bytesOf fs := by
    funext id
    rw [bytesOf, bytesOf, nodes]
  rw [contentAt, contentAt, resolve, resolve, links, root, bytes]

theorem contentAt_close (fs : Fs T) (fd : Fd) : contentAt (fs.close fd).2 path = contentAt fs path := by
  refine contentAt_of_table ?_ ?_ <;>
  · unfold close
    split <;> rfl

end

/-! ### One call -/

section
variable {T : Type} [TimeProvider T] [Target]
variable {hooks : S3SyncHooks} {turn : Turn} {state : HostState T} {event : Event} {path : String}

omit [Target] in
theorem onOpen_calls (fullPath : String) (kind : OpenKind) (call : ManagerCall) (made : call ∈ hooks.onOpen fullPath kind) :
    call = .onOpenWrite fullPath ∨ call = .checkAndRefreshFromS3 fullPath := by
  unfold S3SyncHooks.onOpen at made
  split at made
  · exact .inl (List.mem_singleton.mp made)
  split at made
  · exact .inr (List.mem_singleton.mp made)
  · cases made

/-- An open makes the calls of its hook, if it comes so far. -/
theorem openAt_calls (dir : Nat) (path : String) (openFlags : OpenFlags) (flags : DescriptorFlags) :
    ∃ fullPath kind, ∀ call ∈ (state.step hooks turn (.openAt dir path openFlags flags)).1, call ∈ hooks.onOpen fullPath kind := by
  dsimp only [HostState.step]
  cases state.descriptor dir with
  | none => exact ⟨path, .read, fun call made => by simp at made⟩
  | some d =>
    refine ⟨resolvePath d.path path, OpenKind.fromFsFlags (fsFlags openFlags flags), fun call made => ?_⟩
    dsimp only at made
    split at made
    · exact made
    split at made <;> exact made

theorem streamWrite_calls (rep : Nat) (bytes : Bytes) : (state.step hooks turn (.streamWrite rep bytes)).1 = [] := by
  dsimp only [HostState.step]
  cases state.output rep with
  | none => rfl
  | some s =>
    dsimp only
    split <;> rfl

theorem setSize_calls (rep size : Nat) (call : ManagerCall) :
    call ∈ (state.step hooks turn (.setSize rep size)).1 ↔
      ∃ wrapper path, state.descriptor rep = some wrapper ∧ wrapper.path = some path ∧
        (state.sharedVfs.ftruncate wrapper.fd size).failed = false ∧ call = hooks.onTruncate path := by
  dsimp only [HostState.step]
  cases state.descriptor rep with
  | none => simp
  | some d =>
    dsimp only
    split
    next e fs cut => simp [cut, Outcome.failed, Except.toOption]
    next fs cut =>
      constructor
      · intro made
        obtain ⟨path, named, rfl⟩ := List.mem_map.mp made
        exact ⟨d, path, rfl, Option.mem_toList.mp named, by rw [cut]; rfl, rfl⟩
      · rintro ⟨wrapper, path, same, named, -, rfl⟩
        cases same
        exact List.mem_map.mpr ⟨path, Option.mem_toList.mpr named, rfl⟩

theorem sync_calls (rep : Nat) (call : ManagerCall) :
    call ∈ (state.step hooks turn (.sync rep)).1 ↔
      ∃ path, state.IsAt rep path .write ∧ (call = hooks.onWrite path ∨ call = .onFsync path) := by
  dsimp only [HostState.step, HostState.IsAt]
  cases state.descriptor rep with
  | none => simp
  | some d =>
    dsimp only
    split
    next writing => simp [writing, S3SyncHooks.onFsync]
    next reading => simp [reading]

theorem dropStream_calls (rep : Nat) (call : ManagerCall) :
    call ∈ (state.step hooks turn (.dropStream rep)).1 ↔
      ∃ stream path, state.output rep = some stream ∧ stream.path = some path ∧ call = hooks.onWrite path := by
  dsimp only [HostState.step]
  cases state.output rep with
  | none => simp
  | some s => simp [eq_comm]

theorem dropDescriptor_calls (rep : Nat) (call : ManagerCall) (made : call ∈ (state.step hooks turn (.dropDescriptor rep)).1) :
    ∃ path, state.IsAt rep path .write ∧ call = .onClose path := by
  dsimp only [HostState.step] at made
  cases there : state.descriptor rep with
  | none => simp [there] at made
  | some d =>
    simp only [there] at made
    split at made
    next writing =>
      obtain ⟨path, named, closed⟩ := List.mem_flatMap.mp made
      unfold S3SyncHooks.onClose at closed
      split at closed
      · exact ⟨path, ⟨d, there, Option.mem_toList.mp named, writing⟩, List.mem_singleton.mp closed⟩
      · cases closed
    next reading => cases made

/-! ### Reports, closes and changes -/

omit [Target] in
theorem onWrite_calls (path : String) : hooks.onWrite path = .syncFileNow path ∨ hooks.onWrite path = .enqueueUpload path := by
  unfold S3SyncHooks.onWrite
  split
  · exact .inl rfl
  · exact .inr rfl

/-- Opens, what tells of a path, and drops of write descriptors make different calls. -/
theorem step_calls {call : ManagerCall} (made : call ∈ (state.step hooks turn event).1) :
    (∃ path, call = .onOpenWrite path ∨ call = .checkAndRefreshFromS3 path) ∨
    (∃ path, event.Announces state path ∧ (call = .syncFileNow path ∨ call = .enqueueUpload path ∨ call = .onFsync path)) ∨
    ∃ rep path, event = .dropDescriptor rep ∧ state.IsAt rep path .write ∧ call = .onClose path := by
  have writes {path : String} (same : call = hooks.onWrite path) :
      call = .syncFileNow path ∨ call = .enqueueUpload path ∨ call = .onFsync path := by
    rcases @onWrite_calls hooks path with now | later
    · exact .inl (same.trans now)
    · exact .inr (.inl (same.trans later))
  -- The events that write call nothing. A drop or a sync announces what was written.
  cases event with
  | openAt dir name openFlags flags =>
    obtain ⟨fullPath, kind, opens⟩ := @openAt_calls _ _ _ hooks turn state dir name openFlags flags
    exact .inl ⟨fullPath, onOpen_calls fullPath kind _ (opens _ made)⟩
  | write rep buffer offset => cases there : state.descriptor rep <;> simp [HostState.step, there] at made
  | writeViaStream rep offset => cases there : state.descriptor rep <;> simp [HostState.step, there] at made
  | appendViaStream rep => cases there : state.descriptor rep <;> simp [HostState.step, there] at made
  | streamWrite rep bytes => simp [streamWrite_calls] at made
  | setSize rep size =>
    obtain ⟨wrapper, path, there, named, cut, same⟩ := (setSize_calls rep size call).mp made
    exact .inr (.inl ⟨path, ⟨wrapper, there, named, cut⟩, writes same⟩)
  | sync rep =>
    obtain ⟨path, there, same | same⟩ := (sync_calls rep call).mp made
    · exact .inr (.inl ⟨path, there, writes same⟩)
    · exact .inr (.inl ⟨path, there, .inr (.inr same)⟩)
  | dropStream rep =>
    obtain ⟨stream, path, there, named, same⟩ := (dropStream_calls rep call).mp made
    exact .inr (.inl ⟨path, ⟨stream, there, named⟩, writes same⟩)
  | dropDescriptor rep =>
    obtain ⟨path, there, same⟩ := dropDescriptor_calls rep call made
    exact .inr (.inr ⟨rep, path, rfl, there, same⟩)

/-- In batch mode, what is reported is what the call tells of. -/
theorem step_reports (batch : hooks.isRealtime = false) :
    .enqueueUpload path ∈ (state.step hooks turn event).1 ↔ event.Announces state path := by
  have later : .enqueueUpload path = hooks.onWrite path := by rw [S3SyncHooks.onWrite, batch]; rfl
  constructor
  · intro reported
    rcases step_calls reported with ⟨_, same | same⟩ | ⟨_, told, same | same | same⟩ | ⟨_, _, _, _, same⟩ <;> cases same
    exact told
  · intro told
    cases event with
    | setSize rep size =>
      obtain ⟨wrapper, there, named, cut⟩ := told
      exact (setSize_calls rep size _).mpr ⟨wrapper, path, there, named, cut, later⟩
    | sync rep => exact (sync_calls rep _).mpr ⟨path, told, .inl later⟩
    | dropStream rep =>
      obtain ⟨stream, there, named⟩ := told
      exact (dropStream_calls rep _).mpr ⟨stream, path, there, named, later⟩
    | openAt | write | writeViaStream | appendViaStream | streamWrite | dropDescriptor => exact told.elim

/-- A sync tells of the path before it pushes it. -/
theorem announces_of_fsync (synced : .onFsync path ∈ (state.step hooks turn event).1) : event.Announces state path := by
  rcases step_calls synced with ⟨_, same | same⟩ | ⟨_, told, same | same | same⟩ | ⟨_, _, _, _, same⟩ <;> cases same
  exact told

/-- The close hook runs for a write descriptor that is dropped. -/
theorem step_closes (locks : hooks.fileLockEnabled = true) :
    .onClose path ∈ (state.step hooks turn event).1 ↔ ∃ rep, event = .dropDescriptor rep ∧ state.IsAt rep path .write := by
  constructor
  · intro closed
    rcases step_calls closed with ⟨_, same | same⟩ | ⟨_, _, same | same | same⟩ | ⟨rep, _, dropped, there, same⟩ <;> cases same
    exact ⟨rep, dropped, there⟩
  · rintro ⟨rep, rfl, wrapper, there, named, writing⟩
    simp [HostState.step, there, named, writing, S3SyncHooks.onClose, locks]

/-- Without the descriptor, the others are as they were. -/
theorem dropDescriptor_descriptor {rep : Nat} (there : (state.descriptor rep).isSome) (other : Nat) :
    (state.step hooks turn (.dropDescriptor rep)).2.descriptor other = if other = rep then none else state.descriptor other := by
  obtain ⟨d, there⟩ := Option.isSome_iff_exists.mp there
  have after : (state.step hooks turn (.dropDescriptor rep)).2.table = Function.update state.table rep none := by
    simp only [HostState.step, there, HostState.put]
  by_cases same : other = rep
  · subst same
    rw [if_pos rfl, HostState.descriptor, after, Function.update_self]
  · rw [if_neg same, HostState.descriptor, after, Function.update_of_ne same]
    rfl

/-- Only an open, a write and a truncation change contents. -/
theorem quiet_or_announces (changed : contentAt (state.step hooks turn event).2.sharedVfs path ≠ contentAt state.sharedVfs path) :
    event.Quiet state path ∨ event.Announces state path := by
  cases event with
  | openAt dir name openFlags flags => exact .inl trivial
  | write rep buffer offset => exact .inl trivial
  | streamWrite rep bytes => exact .inl trivial
  | writeViaStream rep offset =>
    refine absurd ?_ changed
    dsimp only [HostState.step]
    cases state.descriptor rep <;> rfl
  | appendViaStream rep =>
    refine absurd ?_ changed
    dsimp only [HostState.step]
    cases state.descriptor rep <;> rfl
  | sync rep =>
    refine absurd ?_ changed
    dsimp only [HostState.step]
    cases state.descriptor rep <;> rfl
  | dropStream rep =>
    refine absurd ?_ changed
    dsimp only [HostState.step]
    cases state.output rep <;> rfl
  | dropDescriptor rep =>
    refine absurd ?_ changed
    dsimp only [HostState.step]
    cases state.descriptor rep with
    | none => rfl
    | some d => exact contentAt_close state.sharedVfs d.fd
  | setSize rep size =>
    cases there : state.descriptor rep with
    | none => exact .inl fun wrapper found => by rw [there] at found; cases found
    | some d =>
      by_cases named : d.path = some path
      · refine .inr ⟨d, there, named, ?_⟩
        -- a truncation that fails leaves the file as it is
        by_contra failed
        have clean := ftruncate_clean state.sharedVfs d.fd size (by simpa using failed)
        refine changed ?_
        simp only [HostState.step, there]
        split
        · next e fs cut => rw [cut] at clean; rw [show fs = state.sharedVfs from clean]
        · next fs cut => rw [cut] at clean; rw [show fs = state.sharedVfs from clean]
      · refine .inl fun wrapper found => ?_
        rw [there] at found
        cases found
        exact named

/-- The path is no longer open for write after the drop of its last write descriptor. -/
theorem dropped_writeOpen {rep : Nat} (there : state.IsAt rep path .write) :
    (state.step hooks turn (.dropDescriptor rep)).2.WriteOpen path ↔ ∃ other, other ≠ rep ∧ state.IsAt other path .write := by
  obtain ⟨d, found, -⟩ := there
  have left (other : Nat) := @dropDescriptor_descriptor _ _ _ hooks turn state rep (by rw [found]; rfl) other
  constructor
  · rintro ⟨other, wrapper, still, rest⟩
    rw [left] at still
    split at still
    · cases still
    next apart => exact ⟨other, apart, wrapper, still, rest⟩
  · rintro ⟨other, apart, wrapper, still, rest⟩
    exact ⟨other, wrapper, by rw [left, if_neg apart]; exact still, rest⟩

/-! ### Runs of the guest -/

/-- The call was made in the state before. -/
def Moment.Made (hooks : S3SyncHooks) (moment : Moment T) : Prop :=
  ∃ turn, moment.calls = (moment.before.step hooks turn moment.event).1 ∧ moment.after = (moment.before.step hooks turn moment.event).2

theorem Run.made {start : HostState T} {past : List (Moment T)} (run : Run hooks start past state) :
    ∀ moment ∈ past, moment.Made hooks := by
  induction run with
  | start => exact fun moment old => by cases old
  | call fs turn event _ _ earlier =>
    intro moment old
    rcases List.mem_cons.mp old with rfl | old
    · exact ⟨turn, rfl, rfl⟩
    · exact earlier moment old

namespace Moment.Made

variable {moment : Moment T} (made : moment.Made hooks)
include made

theorem reports (batch : hooks.isRealtime = false) : Reports path moment ↔ moment.Announces path := by
  obtain ⟨turn, calls, -⟩ := made
  rw [Reports, calls]
  exact step_reports batch

theorem closesLast (locks : hooks.fileLockEnabled = true) : ClosesLast path moment ↔ moment.DropsLast path := by
  obtain ⟨turn, calls, after⟩ := made
  rw [ClosesLast, calls, after, step_closes locks]
  constructor
  · rintro ⟨⟨rep, dropped, there⟩, closed⟩
    rw [dropped, dropped_writeOpen there] at closed
    rw [Moment.DropsLast, dropped]
    exact ⟨there, fun other apart still => closed ⟨other, apart, still⟩⟩
  · intro last
    unfold Moment.DropsLast at last
    cases event : moment.event with
    | dropDescriptor rep =>
      rw [event] at last
      obtain ⟨there, alone⟩ := last
      refine ⟨⟨rep, rfl, there⟩, ?_⟩
      rw [dropped_writeOpen there]
      rintro ⟨other, apart, still⟩
      exact alone other apart still
    | openAt | write | writeViaStream | appendViaStream | streamWrite | setSize | sync | dropStream =>
      rw [event] at last
      exact last.elim

theorem pushes (locks : hooks.fileLockEnabled = true) (pushed : Pushes path moment) :
    moment.Announces path ∨ moment.DropsLast path := by
  rcases pushed with synced | closed
  · obtain ⟨turn, calls, -⟩ := made
    rw [calls] at synced
    exact .inl (announces_of_fsync synced)
  · exact .inr ((made.closesLast locks).mp closed)

theorem changes (changed : Changes path moment) : moment.event.Quiet moment.before path ∨ moment.Announces path := by
  obtain ⟨turn, -, after⟩ := made
  rw [Changes, after] at changed
  exact quiet_or_announces changed

end Moment.Made

theorem quiet_not_announces (quiet : event.Quiet state path) : ¬ event.Announces state path := by
  cases event with
  | setSize rep size => exact fun ⟨wrapper, there, named, _⟩ => quiet wrapper there named
  | openAt | write | streamWrite => exact fun told => told
  | writeViaStream | appendViaStream | sync | dropStream | dropDescriptor => exact quiet.elim

/-- What the manager is not told of yet are the quiet changes. -/
theorem owed_iff {past : List (Moment T)} (batch : hooks.isRealtime = false) (locks : hooks.fileLockEnabled = true)
    (made : ∀ moment ∈ past, moment.Made hooks) : Owed path past ↔ Unannounced path past := by
  constructor
  · rintro ⟨newer, change, older, rfl, changed, unreported, since⟩
    have here := made change (List.mem_append_right _ (List.mem_cons_self ..))
    have silent : ¬ change.Announces path := fun told => unreported ((here.reports batch).mpr told)
    refine ⟨newer, change, older, rfl, changed, (here.changes changed).resolve_right silent, fun later new => ?_⟩
    have there := made later (List.mem_append_left _ new)
    obtain ⟨unreported, unpushed⟩ := since later new
    exact ⟨fun told => unreported ((there.reports batch).mpr told), fun last => unpushed (.inr ((there.closesLast locks).mpr last))⟩
  · rintro ⟨newer, change, older, rfl, changed, quiet, since⟩
    have here := made change (List.mem_append_right _ (List.mem_cons_self ..))
    refine ⟨newer, change, older, rfl, changed, fun told => quiet_not_announces quiet ((here.reports batch).mp told), fun later new => ?_⟩
    have there := made later (List.mem_append_left _ new)
    obtain ⟨silent, more⟩ := since later new
    exact ⟨fun reported => silent ((there.reports batch).mp reported), fun pushed => (there.pushes locks pushed).elim silent more⟩

/-- Changes reach the manager in time if and only if the guest tells of them. -/
theorem inTime_iff_careful {start : HostState T} {past : List (Moment T)} (batch : hooks.isRealtime = false)
    (locks : hooks.fileLockEnabled = true) (run : Run hooks start past state) : InTime past ↔ Careful past := by
  have made {newer older : List (Moment T)} {moment : Moment T} (split : past = newer ++ moment :: older) :
      moment.Made hooks ∧ ∀ earlier ∈ older, earlier.Made hooks :=
    ⟨run.made moment (by rw [split]; exact List.mem_append_right _ (List.mem_cons_self ..)),
      fun earlier old => run.made earlier (by rw [split]; exact List.mem_append_right _ (List.mem_cons_of_mem _ old))⟩
  constructor
  · rintro ⟨reported, silent⟩
    constructor
    · intro newer moment older path split last unannounced
      obtain ⟨here, before⟩ := made split
      exact reported newer moment older path split ((here.closesLast locks).mpr last) ((owed_iff batch locks before).mpr unannounced)
    · rintro newer moment older path split told ⟨earlier, old, last⟩
      obtain ⟨here, before⟩ := made split
      exact silent newer moment older path split ((here.reports batch).mpr told) ⟨earlier, old, ((before earlier old).closesLast locks).mpr last⟩
  · rintro ⟨announced, settled⟩
    constructor
    · intro newer moment older path split last owed
      obtain ⟨here, before⟩ := made split
      exact announced newer moment older path split ((here.closesLast locks).mp last) ((owed_iff batch locks before).mp owed)
    · rintro newer moment older path split reports ⟨earlier, old, last⟩
      obtain ⟨here, before⟩ := made split
      exact settled newer moment older path split ((here.reports batch).mp reports) ⟨earlier, old, ((before earlier old).closesLast locks).mp last⟩

end

/-- A host whose guest has the root, in batch mode with file locks. -/
def locking : S3SyncHooks := ⟨false, true, false⟩

def preopened : HostState MonotonicCounter where
  table rep := if rep = 0 then some (.descriptor ⟨3, some "/", O_RDONLY⟩) else none
  sharedVfs := ((withTimeProvider MonotonicCounter.new).openPathWithFlags "/" O_RDONLY).2

def HostState.next [Target] (state : HostState MonotonicCounter) (rep : Nat) (event : Event) : Moment MonotonicCounter :=
  ⟨event, state, (state.step locking ⟨rep, true⟩ event).1, (state.step locking ⟨rep, true⟩ event).2⟩

theorem Run.next [Target] {past : List (Moment MonotonicCounter)} {state : HostState MonotonicCounter} (run : Run locking preopened past state)
    {rep : Nat} (fresh : state.table rep = none) (event : Event) :
    Run locking preopened (state.next rep event :: past) (state.next rep event).after :=
  .call state.sharedVfs ⟨rep, true⟩ event run fresh

/-- A file is made, changed and closed. -/
def opening [Target] : Moment MonotonicCounter := preopened.next 1 (.openAt 0 "a" ⟨true, false⟩ ⟨false, true⟩)

def changing [Target] (event : Event) : Moment MonotonicCounter := opening.after.next 2 event

def closing [Target] (event : Event) : Moment MonotonicCounter := (changing event).after.next 2 (.dropDescriptor 1)

theorem inTime_of_setSize :
    let _ : Target := ⟨64⟩
    let event : Event := .setSize 1 5
    Run locking preopened [closing event, changing event, opening] (closing event).after ∧
      InTime [closing event, changing event, opening] := by
  let _ : Target := ⟨64⟩
  have run : Run locking preopened [closing (.setSize 1 5), changing (.setSize 1 5), opening] (closing (.setSize 1 5)).after :=
    .next (.next (.next .start rfl _) rfl _) rfl _
  refine ⟨run, (inTime_iff_careful rfl rfl run).mpr ⟨?_, ?_⟩⟩
  · rintro (_ | ⟨last, _ | ⟨middle, _ | ⟨first, newer⟩⟩⟩) moment older path split dropped unannounced
    · cases split
      obtain ⟨⟨wrapper, there, named, -⟩, -⟩ := dropped
      cases there
      cases named
      obtain ⟨_ | ⟨after, _ | ⟨more, newer⟩⟩, change, before, split, -, quiet, since⟩ := unannounced
      · cases split
        exact quiet _ rfl rfl
      · cases split
        exact (since _ (List.mem_cons_self ..)).1 ⟨_, rfl, rfl, by decide⟩
      · simp at split
    · cases split
      exact dropped
    · cases split
      exact dropped
    · simp at split
  · rintro (_ | ⟨last, _ | ⟨middle, _ | ⟨first, newer⟩⟩⟩) moment older path split told ⟨earlier, old, dropped⟩
    · cases split
      exact told.elim
    · cases split
      rcases List.mem_cons.mp old with rfl | old
      · exact dropped.elim
      · cases old
    · cases split
      cases old
    · simp at split

/-- What is written through the descriptor itself is not reported. -/
theorem write_not_inTime :
    let _ : Target := ⟨64⟩
    let event : Event := .write 1 [7] 0
    Run locking preopened [closing event, changing event, opening] (closing event).after ∧
      ¬ InTime [closing event, changing event, opening] := by
  let _ : Target := ⟨64⟩
  refine ⟨.next (.next (.next .start rfl _) rfl _) rfl _, fun inTime => ?_⟩
  refine inTime.reported [] _ _ "/a" rfl ⟨by decide, ?_⟩ ⟨[], changing (.write 1 [7] 0), [opening], rfl, ?_, ?_, fun later new => by cases new⟩
  rotate_left
  · unfold Changes
    decide
  · unfold Reports
    decide
  rintro ⟨rep, wrapper, found, named, -⟩
  have same : (closing (.write 1 [7] 0)).after.descriptor rep = preopened.descriptor rep := by
    rcases rep with _ | _ | rep <;> rfl
  rw [same] at found
  cases rep with
  | zero =>
    cases found
    exact absurd named (by decide)
  | succ rep => cases found

end MonakaFs.Wasi.VfsHost
