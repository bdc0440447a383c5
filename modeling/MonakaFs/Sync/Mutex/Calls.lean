import MonakaFs.Sync.Mutex.Protocol

/-! Every call of an instance keeps its lock invariant.

The lease table follows the records: an entry appears once its record is written,
its ETag changes once the record is renewed, and it rests before the record goes.
-/

set_option autoImplicit false

namespace MonakaFs.Sync.Mutex

open Async SyncManager

section
variable [EtagScheme] {F T : Type} {ids : T → InstanceId} {member : T} {s : Node F}

theorem Wrote.unique {id : InstanceId} {path : String} {moment : Entry F} {epoch expires epoch' expires' : Nat}
    (first : Wrote id path epoch expires moment) (second : Wrote id path epoch' expires' moment) :
    epoch = epoch' ∧ expires = expires' := by
  obtain ⟨op, reply, before, after⟩ := moment
  cases op with
  | request r =>
    cases r with
    | put key body cond =>
      obtain ⟨-, rfl, rfl, -⟩ := LockRecord.encode_inj (first.2.1.symm.trans second.2.1)
      exact ⟨rfl, rfl⟩
    | list | head | get | delete => exact first.elim
  | queue | cache | leases | schedule | now | wake | jitter | fs | arrange | app => exact first.elim

theorem Latest.unique {id : InstanceId} {path : String} {log : Log F} {epoch expires epoch' expires' : Nat}
    (first : Latest id path epoch expires log) (second : Latest id path epoch' expires' log) :
    epoch = epoch' ∧ expires = expires' := by
  induction log with
  | nil => exact first.elim
  | cons moment older ih =>
    rcases first with wrote | ⟨silent, first⟩ <;> rcases second with wrote' | ⟨silent', second⟩
    · exact wrote.unique wrote'
    · exact (silent' _ _ wrote).elim
    · exact (silent _ _ wrote').elim
    · exact ih first second

variable [FsBackend F] {A : Type} {post : A → Node F → Prop}

/-- A change of the lease table after which every lease is still backed, and every live
one was live before or has just been recorded. -/
theorem safe_leases {change : LeaseTable → LeaseTable} {k : LeaseTable → Task F A}
    (coherent : Coherent ids member s)
    (backed : ∀ path lease, (change s.state.manager.leases).lookup path = some lease → Backed ids member path lease)
    (lives : ∀ path lease, (change s.state.manager.leases).lookup path = some lease → lease.Live →
      (∃ before, s.state.manager.leases.lookup path = some before ∧ before.Live) ∨
        ∃ lockEtag, Recorded (ids member) path lockEtag s)
    (rest : ∀ u, Coherent ids member u → (contract ids member).Safe post (k s.state.manager.leases) u) :
    (contract ids member).Safe post (next (.leases change) k) s := by
  refine Contract.safe_call fun t moves => ⟨trivial, fun reply u effect => ?_⟩
  obtain ⟨⟨turn, -, answer, later⟩, logged⟩ := node_effect effect
  have silent (path : String) (epoch expires : Nat) :
      Latest (ids member) path epoch expires u.log ↔ Latest (ids member) path epoch expires t.log := by
    rw [logged]
    exact latest_skip fun _ _ => id
  have store : u.state.store = t.state.store := by rw [later]; rfl
  have now : u.state.now = t.state.now := by rw [later]; rfl
  have leases : u.state.manager.leases = change s.state.manager.leases := by
    rw [later, ← moves.manager]; rfl
  have before := coherent.others moves
  have coherent' : Coherent ids member u := by
    refine ⟨by rw [store]; exact before.lawful, by rw [leases]; exact backed, ?_⟩
    intro path lease epoch expires found live latest fresh
    rw [leases] at found
    rw [now] at fresh
    rw [store]
    have latest := (silent ..).mp latest
    -- Either the entry was live before, or its record was written by this task.
    rcases lives path lease found live with ⟨old, present, live⟩ | ⟨lockEtag, recorded⟩
    · exact before.held path old epoch expires (by rw [moves.manager]; exact present) live latest fresh
    · obtain ⟨epoch', expires', -, latest', stored⟩ := (closed_recorded path lockEtag).others recorded moves
      obtain ⟨rfl, rfl⟩ := latest.unique latest'
      exact stored fresh
  have same : reply = s.state.manager.leases := by rw [answer, ← moves.manager]; rfl
  rw [same]
  exact ⟨⟨now.ge, coherent', trivial, fun path _ changed => (changed (by rw [store])).elim,
    fun path _ changed => (changed (by rw [store])).elim⟩, rest u coherent'⟩

/-! ### Opening and closing -/

theorem joinHeld_safe (path : String) (rounds : Nat) (coherent : Coherent ids member s) :
    (contract ids member).Safe (fun joined t => Coherent ids member t ∧ (joined = false → Absent path t))
      (joinHeld (F := F) path rounds) s := by
  induction rounds generalizing s with
  | zero => exact fun _ _ => trivial
  | succ rounds ih =>
    simp only [joinHeld, withLeases_bind]
    refine safe_unlocked closed_true (unlocked_alter fun lease => ?_) coherent trivial
      fun t leases u effect _ coherent _ => ?_
    · split <;> exact ⟨rfl, rfl, id⟩
    split
    · next missing =>
      obtain ⟨⟨turn, -, answer, later⟩, -⟩ := node_effect effect
      have absent : Absent path u := by
        have before : t.state.manager.leases.lookup path = none := by rw [← missing, answer]; rfl
        rw [Absent, later]
        exact (Map.lookup_alter ..).trans (by rw [if_pos rfl, before]; rfl)
      exact Contract.safe_done fun v moves =>
        ⟨coherent.others moves, fun _ => (closed_absent path).others absent moves⟩
    · split
      · simp only [sleep, instant_bind]
        exact safe_unlocked closed_true trivial coherent trivial fun _ _ v _ _ coherent _ =>
          safe_unlocked closed_true trivial coherent trivial fun _ _ w _ _ coherent _ => ih coherent
      · exact Contract.safe_done fun v moves => ⟨coherent.others moves, fun same => by cases same⟩

omit [FsBackend F] in
theorem Granted.own {path : String} {acquired : Acquired} (granted : Granted ids member path acquired s) :
    ∃ epoch expires, acquired.lockEtag = etagFor (recordOf (ids member) epoch expires path) := by
  obtain ⟨-, epoch, expires, same, -⟩ := granted
  exact ⟨epoch, expires, same⟩

variable {manager : SyncManager}

theorem pinLease_safe {path : String} {acquired : Acquired} (reads : ReadsBack ids member path)
    (coherent : Coherent ids member s) (absent : Absent path s) (granted : Granted ids member path acquired s) :
    (contract ids member).Safe (fun _ t => Coherent ids member t)
      (manager.pinLease (F := F) path acquired) s := by
  have closed := (closed_absent (F := F) path).and (closed_granted path acquired : Closed ids member _)
  simp only [pinLease, withLeases_bind]
  refine safe_unlocked closed (unlocked_alter fun lease => ⟨rfl, rfl, id⟩) coherent ⟨absent, granted⟩
    fun t leases u effect before coherent here => ?_
  obtain ⟨⟨turn, -, answer, -⟩, -⟩ := node_effect effect
  have missing : leases.lookup path = none := by rw [answer]; exact before.1
  simp only [missing, Option.isSome_none, Bool.false_eq_true, if_false]
  refine (data_safe closed (leaseBase_data manager path) coherent here).bind fun base v done => ?_
  obtain ⟨coherent, absent, granted⟩ := done
  rcases base with e | base
  · exact (release_safe coherent absent.resting granted.own).bind fun _ w coherent =>
      Contract.safe_done fun x moves => coherent.others moves
  · refine safe_leases coherent (fun name lease found => ?_) (fun name lease found live => ?_)
      fun w coherent => Contract.safe_done fun x moves => coherent.others moves
    · rw [Map.lookup_insert_eq] at found
      split at found
      · next same =>
        cases found
        exact same ▸ ⟨reads, granted.1, granted.own⟩
      · exact coherent.backed name lease found
    · rw [Map.lookup_insert_eq] at found
      split at found
      · next same => exact .inr ⟨acquired.lockEtag, same ▸ granted.2⟩
      · exact .inl ⟨lease, found, live⟩

theorem onOpenWrite_safe {path : String} (identity : manager.instanceId = ids member) (reads : ReadsBack ids member path) (rounds : Nat)
    (coherent : Coherent ids member s) :
    (contract ids member).Safe (fun _ t => Coherent ids member t) (manager.onOpenWrite (F := F) rounds path) s := by
  have done {u : Node F} (coherent : Coherent ids member u) (result : Except SyncError Unit) :
      (contract ids member).Safe (fun _ t => Coherent ids member t) (pure result : Task F _) u :=
    Contract.safe_done fun x moves => coherent.others moves
  unfold onOpenWrite
  split
  · exact done coherent _
  refine (joinHeld_safe path rounds coherent).bind fun joined t after => ?_
  cases joined with
  | true => exact done after.1 _
  | false =>
    rw [identity]
    refine (acquire_safe _ _ reads after.1 (after.2 rfl)).bind fun result u acquired => ?_
    rcases result with e | lease
    · exact done acquired.1.1 _
    · exact pinLease_safe reads acquired.1.1 acquired.1.2 (acquired.2 lease rfl)

theorem finishRelease_safe {path : String} {snapshot : WriteLease} (backed : Backed ids member path snapshot)
    (coherent : Coherent ids member s) (resting : Resting path s) :
    (contract ids member).Safe (fun _ t => Coherent ids member t)
      (manager.finishRelease (F := F) path snapshot) s := by
  refine (data_safe (closed_resting path) (flushLease_data manager path snapshot) coherent resting).bind
    fun result t done => ?_
  refine (release_safe done.1 done.2 backed.2.2).bind fun _ u coherent => ?_
  simp only [withLeases_bind]
  exact safe_unlocked closed_true (unlocked_erase path) coherent trivial fun _ _ v _ _ coherent _ =>
    Contract.safe_done fun w moves => coherent.others moves

omit [FsBackend F] in
/-- The entry that an operation marks as releasing is backed, and nobody counts on it any more. -/
theorem marked {path : String} {lease : WriteLease} {change : WriteLease → WriteLease} {t u : Node F}
    (coherent : Coherent ids member t) (found : t.state.manager.leases.lookup path = some lease)
    (marks : (change lease).releasing = true) (leases : u.state.manager.leases = t.state.manager.leases.alter path change) :
    Backed ids member path { lease with releasing := true } ∧ Resting path u := by
  refine ⟨coherent.backed path lease found, fun other present live => ?_⟩
  rw [leases, Map.lookup_alter, if_pos rfl, found] at present
  cases present
  rw [live.2] at marks
  cases marks

theorem onClose_safe (path : String) (coherent : Coherent ids member s) :
    (contract ids member).Safe (fun _ t => Coherent ids member t) (manager.onClose (F := F) path) s := by
  simp only [onClose, withLeases_bind]
  refine Contract.safe_call fun t moves => ⟨trivial, fun leases u effect => ?_⟩
  have coherent := coherent.others moves
  have unlocked : Op.Unlocked (F := F) (.leases (·.alter path closeEntry)) :=
    unlocked_alter fun lease => by
      unfold closeEntry
      split
      · exact ⟨rfl, rfl, id⟩
      · exact ⟨rfl, rfl, fun live => Bool.noConfusion live.2⟩
  have fair := coherent.fair unlocked effect
  obtain ⟨⟨turn, -, answer, later⟩, -⟩ := node_effect effect
  refine ⟨fair, ?_⟩
  have done (result : Except SyncError Unit) :
      (contract ids member).Safe (fun _ t => Coherent ids member t) (pure result : Task F _) u :=
    Contract.safe_done fun x moves => fair.coherent.others moves
  split
  · exact done _
  · next lease found =>
    split
    · exact done _
    · next last =>
      have present : t.state.manager.leases.lookup path = some lease := by rw [← found, answer]; rfl
      have releasing : u.state.manager.leases = t.state.manager.leases.alter path closeEntry := by rw [later]; rfl
      obtain ⟨backed, resting⟩ := marked coherent present (by rw [closeEntry, if_neg last]) releasing
      exact finishRelease_safe backed fair.coherent resting

theorem releaseLeases_safe (paths : List String) (firstError : Option SyncError) (coherent : Coherent ids member s) :
    (contract ids member).Safe (fun _ t => Coherent ids member t)
      (manager.releaseLeases (F := F) paths firstError) s := by
  induction paths generalizing s firstError with
  | nil => cases firstError <;> exact Contract.safe_done fun x moves => coherent.others moves
  | cons path paths ih =>
    simp only [releaseLeases, beginRelease, withLeases_bind, Prog.call_bind]
    refine Contract.safe_call fun t moves => ⟨trivial, fun leases u effect => ?_⟩
    have coherent := coherent.others moves
    have unlocked : Op.Unlocked (F := F) (.leases (·.alter path fun lease => { lease with releasing := true })) :=
      unlocked_alter fun lease => ⟨rfl, rfl, fun live => Bool.noConfusion live.2⟩
    have fair := coherent.fair unlocked effect
    obtain ⟨⟨turn, -, answer, later⟩, -⟩ := node_effect effect
    refine ⟨fair, ?_⟩
    cases found : (leases : LeaseTable).lookup path with
    | none =>
      simp only [Option.map_none, Prog.pure_eq, Prog.done_bind]
      exact ih firstError fair.coherent
    | some lease =>
      simp only [Option.map_some, Prog.pure_eq, Prog.done_bind]
      have present : t.state.manager.leases.lookup path = some lease := by rw [← found, answer]; rfl
      have releasing : u.state.manager.leases =
          t.state.manager.leases.alter path fun lease => { lease with releasing := true } := by rw [later]; rfl
      obtain ⟨backed, resting⟩ := marked coherent present rfl releasing
      refine (finishRelease_safe backed fair.coherent resting).bind fun result v coherent => ?_
      rcases result with e | _ <;> exact ih _ coherent

theorem releaseAllLeases_safe (coherent : Coherent ids member s) :
    (contract ids member).Safe (fun _ t => Coherent ids member t) (manager.releaseAllLeases (F := F)) s := by
  simp only [releaseAllLeases, withLeases_bind]
  refine safe_unlocked closed_true (data_unlocked _ .readLeases) coherent trivial fun _ leases t _ _ coherent _ => ?_
  simp only [arrange_bind]
  exact safe_unlocked closed_true (data_unlocked _ .arrange) coherent trivial fun _ paths u _ _ coherent _ =>
    releaseLeases_safe paths none coherent

/-! ### Renewal -/

theorem renew_safe {path lockEtag : String} {epoch : Nat} (lease : Nat) (reads : ReadsBack ids member path)
    (bound : epoch < 2 ^ 64) (own : ∃ epoch expires, lockEtag = etagFor (recordOf (ids member) epoch expires path))
    (coherent : Coherent ids member s) :
    (contract ids member).Safe (fun result t => Coherent ids member t ∧ ∀ renewed, result = .ok renewed →
      ∃ epoch expires, renewed.1 = etagFor (recordOf (ids member) epoch expires path))
      (renew (F := F) (ids member) path epoch lockEtag lease) s := by
  simp only [renew, instant_bind, putObject_bind]
  refine safe_unlocked closed_true trivial coherent trivial fun _ now t _ _ coherent _ => ?_
  refine safe_unlocked closed_true trivial coherent trivial fun _ start u _ _ coherent _ => ?_
  refine Contract.safe_call fun v moves => ⟨trivial, fun reply w effect => ?_⟩
  have coherent := coherent.others moves
  rcases (reply : Except S3Error String) with e | etag
  · obtain ⟨fair, -⟩ := record_error coherent effect
    exact ⟨fair, Contract.safe_done fun x moves => ⟨fair.coherent.others moves, fun _ same => by cases same⟩⟩
  · obtain ⟨epoch', expires', rfl⟩ := own
    have entitled : Entitled (ids member) path v.state.now
        (.ifMatch (etagFor (recordOf (ids member) epoch' expires' path))) := ⟨_, rfl, .inr ⟨epoch', expires', rfl⟩⟩
    obtain ⟨fair, -, recorded⟩ := record_ok bound (Nat.mod_lt _ (Nat.two_pow_pos 64)) reads coherent entitled
      (fun _ => ⟨epoch', expires', rfl⟩) effect
    obtain ⟨epoch'', expires'', same, -⟩ := recorded
    refine ⟨fair, Contract.safe_done fun x moves => ⟨fair.coherent.others moves, fun renewed equal => ?_⟩⟩
    cases equal
    exact ⟨epoch'', expires'', same⟩

theorem renewPaths_safe (identity : manager.instanceId = ids member) (paths : List String)
    (coherent : Coherent ids member s) :
    (contract ids member).Safe (fun _ t => Coherent ids member t) (manager.renewPaths (F := F) paths) s := by
  induction paths generalizing s with
  | nil => exact Contract.safe_done fun x moves => coherent.others moves
  | cons path paths ih =>
    simp only [renewPaths, withLeases_bind]
    refine safe_unlocked closed_true (data_unlocked _ .readLeases) coherent trivial
      fun t leases u effect _ coherent _ => ?_
    obtain ⟨⟨turn, -, answer, later⟩, -⟩ := node_effect effect
    split
    · exact ih coherent
    · next lease found =>
      have present : u.state.manager.leases.lookup path = some lease := by rw [later, ← found, answer]; rfl
      obtain ⟨reads, bound, own⟩ := coherent.backed path lease present
      rw [identity]
      refine (renew_safe _ reads bound own coherent).bind fun result v done => ?_
      rcases result with e | ⟨newEtag, expiresAt⟩
      · dsimp only
        -- A lease that was lost is not live any more.
        split
        · refine safe_unlocked closed_true (unlocked_alter fun lease => ⟨rfl, rfl, fun live => ?_⟩) done.1 trivial
            fun _ _ w _ _ coherent _ => ih coherent
          exact Bool.noConfusion live.1
        · exact ih done.1
      -- A renewed lease gets the new record, with the same epoch.
      · have own := done.2 _ rfl
        refine safe_leases done.1 (fun name lease found => ?_) (fun name lease found live => ?_) fun w => ih
        · rw [Map.lookup_alter] at found
          split at found
          · next same =>
            obtain ⟨before, present, rfl⟩ := Option.map_eq_some_iff.mp found
            obtain ⟨reads, bound, -⟩ := done.1.backed path before present
            exact same ▸ ⟨reads, bound, own⟩
          · exact done.1.backed name lease found
        · rw [Map.lookup_alter] at found
          split at found
          · next same =>
            obtain ⟨before, present, rfl⟩ := Option.map_eq_some_iff.mp found
            exact .inl ⟨before, same ▸ present, live⟩
          · exact .inl ⟨lease, found, live⟩

theorem renewLeases_safe (identity : manager.instanceId = ids member) (coherent : Coherent ids member s) :
    (contract ids member).Safe (fun _ t => Coherent ids member t) (manager.renewLeases (F := F)) s := by
  simp only [renewLeases, instant_bind]
  refine safe_unlocked closed_true trivial coherent trivial fun _ now t _ _ coherent _ => ?_
  simp only [withLeases_bind]
  refine safe_unlocked closed_true (data_unlocked _ .readLeases) coherent trivial fun _ leases u _ _ coherent _ => ?_
  simp only [arrange_bind]
  exact safe_unlocked closed_true (data_unlocked _ .arrange) coherent trivial fun _ due v _ _ coherent _ =>
    renewPaths_safe identity due coherent

theorem maybeSync_safe (identity : manager.instanceId = ids member) (coherent : Coherent ids member s) :
    (contract ids member).Safe (fun _ t => Coherent ids member t) (manager.maybeSync (F := F)) s := by
  have rest {u : Node F} (coherent : Coherent ids member u) :
      (contract ids member).Safe (fun _ t => Coherent ids member t)
        (manager.flushIfDue >>= fun flushed => manager.pollIfDue >>= fun polled =>
          (pure (flushed || polled) : Task F Bool)) u := by
    refine (data_safe closed_true (flushIfDue_data manager) coherent trivial).bind fun flushed v done => ?_
    refine (data_safe closed_true (pollIfDue_data manager) done.1 trivial).bind fun polled w done => ?_
    exact Contract.safe_done fun x moves => done.1.others moves
  simp only [maybeSync, withSchedule_bind]
  refine safe_unlocked closed_true trivial coherent trivial fun _ schedule t _ _ coherent _ => ?_
  split
  · exact Contract.safe_done fun x moves => coherent.others moves
  · split
    · exact (renewLeases_safe identity coherent).bind fun _ u coherent => rest coherent
    · exact rest coherent

/-! ### All calls -/

/-- The calls under which records stay readable: files are opened for write under
paths whose records read back. -/
def Permitted (ids : T → InstanceId) (member : T) : Call F → Prop
  | .openWrite _ path => ReadsBack ids member path
  | _ => True

theorem call_safe (identity : manager.instanceId = ids member) {call : Call F} (permitted : Permitted ids member call)
    (coherent : Coherent ids member s) :
    (contract ids member).Safe (fun _ t => Coherent ids member t) (call.task manager) s := by
  have drop {A : Type} {task : Task F A} (safe : (contract ids member).Safe (fun _ t => Coherent ids member t) task s) :
      (contract ids member).Safe (fun _ t => Coherent ids member t) (task >>= fun _ => (pure () : Task F Unit)) s :=
    safe.bind fun _ _ coherent => Contract.safe_done fun x moves => coherent.others moves
  have data {A : Type} {task : Task F A} (data : OnData True task) :
      (contract ids member).Safe (fun _ t => Coherent ids member t) task s :=
    (data_safe closed_true data coherent trivial).weaken fun _ _ done => done.1
  cases call with
  | openWrite rounds path => exact drop (onOpenWrite_safe identity permitted rounds coherent)
  | close path => exact drop (onClose_safe path coherent)
  | releaseAllLeases => exact drop (releaseAllLeases_safe coherent)
  | renewLeases => exact renewLeases_safe identity coherent
  | maybeSync => exact drop (maybeSync_safe identity coherent)
  | fsync path => exact drop (data (onFsync_data manager path))
  | write path change => exact data ⟨.app, fun _ => enqueueUpload_data path⟩
  | writeNow path change => exact data ⟨.app, fun _ => (syncFileNow_data manager path).bind fun _ => trivial⟩
  | unlink path change => exact data ⟨.app, fun _ => enqueueDelete_data path⟩
  | read path => exact drop (data (refreshFileFromS3_data path))
  | stat path => exact drop (data (checkAndRefreshFromS3_data path))
  | mkdir path => exact drop (data (onMkdir_data path))
  | rmdir path => exact drop (data (onRmdir_data path))
  | flushOutbound => exact drop (data (flushLoop_data manager _ _))
  | forceFlush rounds => exact drop (data (forceFlush_data manager rounds))
  | pollInbound => exact drop (data pollInbound_data)

end

end MonakaFs.Sync.Mutex
