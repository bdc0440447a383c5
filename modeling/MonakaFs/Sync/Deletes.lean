import MonakaFs.Sync.Chronicle
import MonakaFs.Sync.Provenance.Rules

/-! Which versions a delete removes.

A delete names the ETag that was cached when it was queued, or the base of the lease
under which the file was unlinked. With neither it names none, and removes whatever
is there. Every other delete removes a version the instance has observed.
-/

set_option autoImplicit false

namespace MonakaFs.Sync.Deletes

open Async SyncManager Provenance

/-- A key that is no directory marker. -/
def Plain (key : String) : Prop := ∀ path, key ≠ dirMarkerKey path

section
variable [EtagScheme] {F : Type}

/-- The instance had this ETag cached, or under a lease, when it performed one of these operations. -/
def Observed (path etag : String) (log : Log F) : Prop := ∃ earlier ∈ log, Basis earlier.before.manager path etag

/-- A delete removes only a version that was observed before. -/
def RemovesObserved (older : Log F) (moment : Entry F) : Prop :=
  ∀ path cond version, moment.op = .request (.delete (fileKey path) cond) → Plain (fileKey path) →
    object path moment.before = some version → object path moment.after ≠ some version →
    ∃ name, fileKey name = fileKey path ∧ Observed name version.etag older

/-- An unconditional delete finds no file. -/
def Guarded (_ : Log F) (moment : Entry F) : Prop :=
  ∀ path, moment.op = .request (.delete (fileKey path) .none) → Plain (fileKey path) → object path moment.before = none

theorem Observed.grow {path etag : String} {older : Log F} {moment : Entry F} (observed : Observed path etag older) :
    Observed path etag (moment :: older) :=
  let ⟨earlier, member, basis⟩ := observed
  ⟨earlier, List.mem_cons_of_mem _ member, basis⟩

end

/-- An operation that deletes no file and queues no delete. -/
def Op.Harmless {F : Type} : Op F → Prop
  | .request (.delete key _) => ∀ path, key = fileKey path → ¬ Plain key
  | .queue change => ∀ queue path etag, .delete path (some etag) ∈ change queue → .delete path (some etag) ∈ queue
  | _ => True

abbrev OnlyHarmless {F A : Type} (task : Task F A) : Prop := task.Only (I := syncSignature F) Op.Harmless

section
variable {F : Type} (manager : SyncManager) (path : String)

theorem data_harmless (op : Op F) (data : op.Data False) : Op.Harmless op := by
  cases data with
  | @look r looks =>
    cases r with
    | put | delete => cases looks
    | list | head | get => trivial
  | readQueue => exact fun _ _ _ member => member
  | pop => exact fun _ _ _ member => List.mem_of_mem_tail member
  | take => exact fun _ _ _ member => (List.mem_filter.mp member).1
  | requeue =>
    intro queue path etag member
    simpa using member
  | enqueue =>
    intro queue path etag member
    simp only [List.mem_append, List.mem_filter, List.mem_singleton, reduceCtorEq, or_false] at member
    exact member.1
  | deleteFile forbidden | deleteMarker forbidden | enqueueDelete forbidden => exact forbidden.elim
  | putFile | putMarker | cache | readLeases | pin | unpin | markDirty | markDelete | schedule | now | fs | arrange | app =>
    trivial

theorem quiet_harmless (op : Op F) (quiet : op.Quiet) : Op.Harmless op := by
  cases op with
  | request r =>
    cases r with
    | list | head | get | put => trivial
    | delete key cond =>
      obtain ⟨lock, rfl⟩ := quiet
      exact fun path same => absurd same.symm (fileKey_ne_lockKey path lock)
  | queue | cache | leases | schedule | fs | app => exact quiet.elim
  | now | wake | jitter | arrange => trivial

theorem joinHeld_harmless (rounds : Nat) : OnlyHarmless (F := F) (joinHeld path rounds) := by
  induction rounds with
  | zero => trivial
  | succ rounds ih =>
    simp only [joinHeld, withLeases_bind, only_next]
    refine ⟨trivial, fun leases => ?_⟩
    split
    · trivial
    · split
      · exact ⟨trivial, fun _ => ⟨trivial, fun _ => ih⟩⟩
      · trivial

theorem onOpenWrite_harmless (rounds : Nat) : OnlyHarmless (F := F) (manager.onOpenWrite rounds path) := by
  unfold onOpenWrite
  split
  · trivial
  apply (joinHeld_harmless path rounds).bind
  intro joined
  split
  · trivial
  apply ((acquire_silent _ _ _ _).mono quiet_harmless).bind
  rintro (e | acquired)
  · trivial
  have release := (release_silent (F := F) path acquired.lockEtag).mono quiet_harmless
  simp only [pinLease, withLeases_bind, only_next]
  refine ⟨trivial, fun leases => ?_⟩
  split
  · exact release.bind fun _ => trivial
  apply ((leaseBase_data manager path).mono data_harmless).bind
  rintro (e | base)
  · exact release.bind fun _ => trivial
  · exact ⟨trivial, fun _ => trivial⟩

theorem onRmdir_harmless : OnlyHarmless (F := F) (onRmdir path) := by
  simp only [onRmdir, deleteDirMarker_bind, withCache_bind, only_next]
  refine ⟨trivial, fun cache => ⟨fun _ _ plain => plain path rfl, fun reply => ?_⟩⟩
  split
  · split
    · exact ⟨trivial, fun _ => trivial⟩
    · trivial
  · exact ⟨trivial, fun _ => trivial⟩

theorem renewPaths_harmless (paths : List String) : OnlyHarmless (F := F) (manager.renewPaths paths) := by
  induction paths with
  | nil => trivial
  | cons path paths ih =>
    simp only [renewPaths, withLeases_bind, only_next]
    refine ⟨trivial, fun leases => ?_⟩
    split
    · exact ih
    · apply ((renew_silent _ _ _ _ _).mono quiet_harmless).bind
      intro renewed
      split
      · exact ⟨trivial, fun _ => ih⟩
      · split
        · exact ⟨trivial, fun _ => ih⟩
        · exact ih

theorem renewLeases_harmless : OnlyHarmless (F := F) manager.renewLeases :=
  ⟨trivial, fun _ => ⟨trivial, fun _ => ⟨trivial, fun due => renewPaths_harmless manager due⟩⟩⟩

end

/-! ### Keeping the queue honest -/

section
variable [EtagScheme] {F A : Type} [FsBackend F] {admits : Turn → Prop} {s : Node F} {post : A → Node F → Prop}

abbrev deleting (admits : Turn → Prop) : Contract (syncSignature F) (Node F) := chronicle Guarded RemovesObserved admits

/-- Every ETag a queued delete names was observed. -/
def QueueSeen (s : Node F) : Prop :=
  ∀ path etag, .delete path (some etag) ∈ s.state.manager.outboundQueue → Observed path etag s.log

theorem QueueSeen.stable {t : Node F} (seen : QueueSeen s) (moved : (deleting (F := F) admits).rely s t) : QueueSeen t := by
  intro path etag queued
  rw [moved.1] at queued
  rw [moved.2.2]
  exact seen path etag queued

/-- The queue of an answer, for an operation that queues no delete. -/
theorem harmless_act {op : Op F} (harmless : Op.Harmless op) (turn : Turn) (t : Snapshot F) {path etag : String}
    (queued : .delete path (some etag) ∈ (t.act turn op).2.manager.outboundQueue) :
    .delete path (some etag) ∈ t.manager.outboundQueue := by
  cases op with
  | queue change => exact harmless _ _ _ queued
  | request | cache | leases | schedule | now | wake | jitter | fs | arrange | app => exact queued

omit [FsBackend F] in
theorem harmless_account {op : Op F} (harmless : Op.Harmless op) (older : Log F) (reply : op.Reply) (t u : Snapshot F) :
    RemovesObserved older ⟨op, reply, t, u⟩ := by
  rintro path cond version same plain found gone
  cases op with
  | request r =>
    cases same
    exact (harmless path rfl plain).elim
  | queue | cache | leases | schedule | now | wake | jitter | fs | arrange | app => cases same

theorem keeps_seen : (deleting (F := F) admits).Keeps QueueSeen Op.Harmless where
  stable seen moved := seen.stable moved
  waits _ := trivial
  step harmless seen effect := by
    refine ⟨harmless_account harmless _ _ _ _, fun path etag queued => ?_⟩
    obtain ⟨⟨turn, -, -, later⟩, logged⟩ := node_effect effect.1
    rw [later] at queued
    rw [logged]
    exact (seen path etag (harmless_act harmless turn _ queued)).grow

abbrev Seeing : A → Node F → Prop := fun _ t => QueueSeen t

theorem harmless_safe {task : Task F A} (only : OnlyHarmless task) (seen : QueueSeen s) :
    (deleting admits).Safe Seeing task s := keeps_seen.safe only seen

theorem data_safe {task : Task F A} (data : OnData False task) (seen : QueueSeen s) :
    (deleting admits).Safe Seeing task s := harmless_safe (data.mono data_harmless) seen

theorem return_seen {value : A} (seen : QueueSeen s) : (deleting admits).Safe Seeing (.done value : Task F A) s :=
  fun _ moved => seen.stable moved

theorem harmless_next {op : Op F} {k : op.Reply → Task F A} (harmless : Op.Harmless op) (seen : QueueSeen s)
    (rest : ∀ reply u, QueueSeen u → (deleting admits).Safe post (k reply) u) :
    (deleting admits).Safe post (next op k) s :=
  Contract.safe_call fun _ moved => ⟨trivial, fun reply u effect =>
    let ⟨guarantee, seen⟩ := keeps_seen.step harmless (seen.stable moved) effect
    ⟨guarantee, rest reply u seen⟩⟩

/-- A look at the leases observes their bases. -/
theorem leases_next {change : LeaseTable → LeaseTable} {k : LeaseTable → Task F A} (seen : QueueSeen s)
    (rest : ∀ leases u, QueueSeen u → (∀ path lease etag, AList.lookup path (leases : LeaseTable) = some lease →
      lease.baseEtag = some etag → Observed path etag u.log) → (deleting admits).Safe post (k leases) u) :
    (deleting admits).Safe post (next (.leases change) k) s := by
  refine Contract.safe_call fun t moved => ⟨trivial, fun reply u effect => ?_⟩
  obtain ⟨guarantee, seen'⟩ := keeps_seen.step (show Op.Harmless (.leases change) from trivial) (seen.stable moved) effect
  refine ⟨guarantee, rest reply u seen' fun path lease etag found base => ?_⟩
  obtain ⟨⟨turn, -, answer, -⟩, logged⟩ := node_effect effect.1
  have found : t.state.manager.leases.lookup path = some lease := by rw [answer] at found; exact found
  rw [logged]
  refine ⟨_, List.mem_cons_self .., .inr ?_⟩
  rw [ManagerState.baseEtag, LeaseTable.base, found]
  exact base

/-- A look at the cache observes its ETags. -/
theorem cache_next {change : MetadataCache → MetadataCache} {k : MetadataCache → Task F A} (seen : QueueSeen s)
    (rest : ∀ cache u, QueueSeen u → (∀ path etag, MetadataCache.etag cache path = some etag → Observed path etag u.log) →
      (deleting admits).Safe post (k cache) u) :
    (deleting admits).Safe post (next (.cache change) k) s := by
  refine Contract.safe_call fun t moved => ⟨trivial, fun reply u effect => ?_⟩
  obtain ⟨guarantee, seen'⟩ := keeps_seen.step (show Op.Harmless (.cache change) from trivial) (seen.stable moved) effect
  refine ⟨guarantee, rest reply u seen' fun path etag found => ?_⟩
  obtain ⟨⟨turn, -, answer, -⟩, logged⟩ := node_effect effect.1
  rw [answer] at found
  rw [logged]
  exact ⟨_, List.mem_cons_self .., .inl found⟩

/-- A section of the queue that may add one observed delete. -/
theorem queue_next {change : List SyncOperation → List SyncOperation} {k : List SyncOperation → Task F A} (seen : QueueSeen s)
    (adds : ∀ queue path etag, .delete path (some etag) ∈ change queue → .delete path (some etag) ∈ queue ∨ Observed path etag s.log)
    (rest : ∀ queue u, QueueSeen u → (∀ path etag, .delete path (some etag) ∈ (queue : List SyncOperation) →
      Observed path etag u.log) → (deleting admits).Safe post (k queue) u) :
    (deleting admits).Safe post (next (.queue change) k) s := by
  refine Contract.safe_call fun t moved => ⟨trivial, fun reply u effect => ?_⟩
  have seen := seen.stable moved
  obtain ⟨⟨turn, -, answer, later⟩, logged⟩ := node_effect effect.1
  refine ⟨fun path cond version same => (by cases same), rest reply u (fun path etag queued => ?_) fun path etag queued => ?_⟩
  · rw [later] at queued
    rw [logged]
    rcases adds _ path etag queued with old | observed
    · exact (seen path etag old).grow
    · rw [moved.2.2]
      exact observed.grow
  · rw [answer] at queued
    rw [logged]
    exact (seen path etag queued).grow

/-- A delete that names an observed ETag, or none. -/
theorem delete_next {path : String} {cond : Precondition} {k : Except S3Error Unit → Task F A} (seen : QueueSeen s)
    (observed : ∀ etag, cond = .ifMatch etag → Observed path etag s.log)
    (rest : ∀ reply u, QueueSeen u → (deleting admits).Safe post (k reply) u) :
    (deleting admits).Safe post (next (.request (.delete (fileKey path) cond)) k) s := by
  refine Contract.safe_call fun t moved => ⟨trivial, fun reply u effect => ?_⟩
  have seen := seen.stable moved
  obtain ⟨⟨turn, -, -, later⟩, logged⟩ := node_effect effect.1
  constructor
  · intro name cond' version same plain found gone
    have same := Op.request.inj same
    obtain ⟨key, rfl⟩ := Request.delete.inj same
    -- If the version is gone, then the store has served the request, however it answered.
    have served : (t.state.store.delete (fileKey path) cond).2.objects.lookup (fileKey path) ≠ some version := by
      intro kept
      refine gone ?_
      rw [object, ← key, later]
      show (t.state.store.serveWith turn.fault (.delete (fileKey path) cond)).2.objects.lookup (fileKey path) = _
      cases turn.fault with
      | answered | unanswered e => exact kept
      | unsent e => rw [key]; exact found
    rw [object, ← key] at found
    rcases t.state.store.delete_cases (fileKey path) cond with ⟨passes, -⟩ | kept
    · refine ⟨path, key, ?_⟩
      cases cond with
      | none =>
        have absent := effect.2 path rfl (by rw [key]; exact plain)
        rw [object] at absent
        rw [absent] at found
        cases found
      | ifNoneMatchAny => rw [show t.state.store.objects.lookup (fileKey path) = none from passes] at found; cases found
      -- The tag of the condition is that of the version, and was observed before.
      | ifMatch etag =>
        obtain ⟨version', found', tag⟩ := passes
        rw [found'] at found
        cases found
        rw [tag, moved.2.2]
        exact observed etag rfl
    · rw [kept] at served
      exact (served found).elim
  · refine rest reply u fun name etag queued => ?_
    rw [later] at queued
    rw [logged]
    exact (seen name etag queued).grow

/-! ### The calls that delete -/

variable (manager : SyncManager) (path : String)

theorem enqueueDelete_safe (seen : QueueSeen s) : (deleting admits).Safe Seeing (enqueueDelete (F := F) path) s := by
  simp only [enqueueDelete, withLeases_bind]
  refine leases_next seen fun leases t seen _ => ?_
  split
  · exact return_seen seen
  simp only [withCache_bind, withQueue_bind]
  refine cache_next seen fun cache u seen observed => queue_next seen (fun queue name etag queued => ?_) fun _ _ seen _ => return_seen seen
  simp only [List.mem_append, List.mem_filter, List.mem_singleton, SyncOperation.delete.injEq] at queued
  rcases queued with old | ⟨rfl, cached⟩
  · exact .inl old.1
  · exact .inr (observed _ etag cached.symm)

theorem flushLease_safe {snapshot : WriteLease} (seen : QueueSeen s)
    (observed : ∀ etag, snapshot.baseEtag = some etag → Observed path etag s.log) :
    (deleting admits).Safe Seeing (manager.flushLease (F := F) path snapshot) s := by
  unfold flushLease
  split
  · split
    · exact harmless_next trivial seen fun _ _ seen => return_seen seen
    · next base found =>
      simp only [deleteFile_bind]
      refine delete_next seen (fun etag same => by cases same; exact observed _ found) fun reply t seen => ?_
      rcases (reply : Except S3Error Unit) with e | _
      · dsimp only
        split
        · exact (data_safe (conflict_data path) seen).bind fun _ _ seen => return_seen seen
        · exact return_seen seen
      · exact harmless_next trivial seen fun _ _ seen => return_seen seen
  · split
    · exact return_seen seen
    · refine (data_safe (uploadWithCond_data manager path _) seen).bind fun result t seen => ?_
      rcases result with e | etag
      · dsimp only
        split
        · exact (data_safe (conflict_data path) seen).bind fun _ _ seen => return_seen seen
        · exact return_seen seen
      · exact return_seen seen

theorem finishRelease_safe {snapshot : WriteLease} (seen : QueueSeen s)
    (observed : ∀ etag, snapshot.baseEtag = some etag → Observed path etag s.log) :
    (deleting admits).Safe Seeing (manager.finishRelease (F := F) path snapshot) s := by
  refine (flushLease_safe manager path seen observed).bind fun result t seen => ?_
  refine (harmless_safe ((release_silent path snapshot.lockEtag).mono quiet_harmless) seen).bind fun _ u seen => ?_
  exact harmless_next trivial seen fun _ _ seen => return_seen seen

theorem onClose_safe (seen : QueueSeen s) : (deleting admits).Safe Seeing (manager.onClose (F := F) path) s := by
  simp only [onClose, withLeases_bind]
  refine leases_next seen fun leases t seen observed => ?_
  split
  · exact return_seen seen
  · next lease found =>
    split
    · exact return_seen seen
    · exact finishRelease_safe manager path seen fun etag base => observed path lease etag found base

theorem onFsync_safe (seen : QueueSeen s) : (deleting admits).Safe Seeing (manager.onFsync (F := F) path) s := by
  simp only [onFsync, withLeases_bind]
  refine leases_next seen fun leases t seen observed => ?_
  split
  · next lease found =>
    split
    · exact flushLease_safe manager path seen fun etag base => observed path lease etag found base
    · exact return_seen seen
  · exact data_safe (syncFileNow_data manager path) seen

theorem releaseLeases_safe (paths : List String) (firstError : Option SyncError) (seen : QueueSeen s) :
    (deleting admits).Safe Seeing (manager.releaseLeases (F := F) paths firstError) s := by
  induction paths generalizing firstError s with
  | nil => cases firstError <;> exact return_seen seen
  | cons path paths ih =>
    simp only [releaseLeases, beginRelease, withLeases_bind, Prog.call_bind]
    refine leases_next seen fun leases t seen observed => ?_
    simp only [Prog.pure_eq, Prog.done_bind]
    cases found : AList.lookup path (leases : LeaseTable) with
    | none => exact ih _ seen
    | some lease =>
      refine (finishRelease_safe manager path seen fun etag base => observed path lease etag found base).bind
        fun result u seen => ?_
      rcases result with e | _
      · exact ih _ seen
      · exact ih _ seen

theorem releaseAllLeases_safe (seen : QueueSeen s) :
    (deleting admits).Safe Seeing (manager.releaseAllLeases (F := F)) s := by
  have listed : OnlyHarmless (F := F) (withLeases id >>= fun leases => arrange leases.keys) :=
    ⟨trivial, fun _ => ⟨trivial, fun _ => trivial⟩⟩
  refine (harmless_safe listed seen).bind (k := fun paths => manager.releaseLeases paths none) fun paths t seen => ?_
  exact releaseLeases_safe manager paths none seen

theorem flushDelete_safe {etag : Option String} (seen : QueueSeen s) (observed : ∀ e, etag = some e → Observed path e s.log) :
    (deleting admits).Safe Seeing (manager.flushDelete (F := F) path etag) s := by
  have plainly (t : Node F) (seen : QueueSeen t) : (deleting admits).Safe Seeing
      (deleteFile path .none >>= fun _ => (pure () : Task F Unit)) t :=
    delete_next seen (fun _ same => by cases same) fun _ _ seen => return_seen seen
  simp only [flushDelete, deleteFile_bind]
  refine delete_next seen (fun e same => ?_) fun reply t seen => ?_
  · cases etag with
    | none => cases same
    | some tag => cases same; exact observed _ rfl
  · split
    · exact return_seen seen
    · split
      · split
        · exact (data_safe (refreshLocalFromRemote_data path) seen).bind fun _ _ seen => return_seen seen
        · exact plainly t seen
      · split
        · exact plainly t seen
        · exact return_seen seen

theorem flushLoop_safe (batch processed : Nat) (seen : QueueSeen s) :
    (deleting admits).Safe Seeing (manager.flushLoop (F := F) batch processed) s := by
  induction batch generalizing processed s with
  | zero => exact data_safe ⟨.now, fun _ => ⟨.schedule, fun _ => trivial⟩⟩ seen
  | succ batch ih =>
    simp only [flushLoop, withQueue_bind]
    refine queue_next seen (fun queue name etag queued => .inl (List.mem_of_mem_tail queued)) fun queue t seen observed => ?_
    split
    · exact harmless_next trivial seen fun _ _ seen => harmless_next trivial seen fun _ _ seen => return_seen seen
    · refine (data_safe (flushUpload_data manager _) seen).bind fun result u seen => ?_
      rcases result with e | counted
      · exact return_seen seen
      · exact ih _ seen
    · next name etag found =>
      refine (flushDelete_safe manager name seen fun e same => observed name e ?_).bind fun _ u seen => ih _ seen
      rw [← same]
      exact List.mem_of_mem_head? found

theorem forceFlush_safe (rounds : Nat) (seen : QueueSeen s) :
    (deleting admits).Safe Seeing (manager.forceFlush (F := F) rounds) s := by
  induction rounds generalizing s with
  | zero => exact fun _ _ => trivial
  | succ rounds ih =>
    simp only [forceFlush, withQueue_bind]
    refine queue_next seen (fun _ _ _ queued => .inl queued) fun queue t seen _ => ?_
    split
    · exact return_seen seen
    · refine (flushLoop_safe manager _ _ seen).bind fun result u seen => ?_
      rcases result with e | count
      · exact return_seen seen
      · exact (ih seen).bind fun _ _ seen => return_seen seen

theorem flushIfDue_safe (seen : QueueSeen s) : (deleting admits).Safe Seeing (manager.flushIfDue (F := F)) s := by
  simp only [flushIfDue, withQueue_bind, withSchedule_bind, instant_bind]
  refine queue_next seen (fun _ _ _ queued => .inl queued) fun queue t seen _ => ?_
  refine harmless_next trivial seen fun schedule u seen => harmless_next trivial seen fun now v seen => ?_
  split
  · refine (flushLoop_safe manager _ _ seen).bind fun result w seen => ?_
    rcases result with e | count <;> exact return_seen seen
  · exact return_seen seen

theorem maybeSync_safe (seen : QueueSeen s) : (deleting admits).Safe Seeing (manager.maybeSync (F := F)) s := by
  have rest (t : Node F) (seen : QueueSeen t) : (deleting admits).Safe Seeing
      (do
        let flushed ← manager.flushIfDue (F := F)
        let polled ← manager.pollIfDue
        pure (flushed || polled)) t := by
    refine (flushIfDue_safe manager seen).bind fun flushed v seen => ?_
    exact (data_safe (pollIfDue_data manager) seen).bind fun polled w seen => return_seen seen
  simp only [maybeSync, withSchedule_bind]
  refine harmless_next trivial seen fun schedule t seen => ?_
  split
  · exact return_seen seen
  · split
    · exact (harmless_safe (renewLeases_harmless manager) seen).bind fun _ u seen => rest u seen
    · exact rest t seen

theorem call_safe (call : Call F) (seen : QueueSeen s) : (deleting admits).Safe Seeing (call.task manager) s := by
  have drop {B : Type} {task : Task F B} (safe : (deleting admits).Safe Seeing task s) :
      (deleting admits).Safe Seeing (task >>= fun _ => (pure () : Task F Unit)) s :=
    safe.bind fun _ _ seen => return_seen seen
  cases call with
  | openWrite rounds path => exact drop (harmless_safe (onOpenWrite_harmless manager path rounds) seen)
  | close path => exact drop (onClose_safe manager path seen)
  | fsync path => exact drop (onFsync_safe manager path seen)
  | write path change => exact data_safe ⟨.app, fun _ => enqueueUpload_data path⟩ seen
  | writeNow path change =>
    exact data_safe ⟨.app, fun _ => (syncFileNow_data manager path).bind fun _ => trivial⟩ seen
  | unlink path change => exact harmless_next trivial seen fun _ _ seen => enqueueDelete_safe path seen
  | read path => exact drop (data_safe (refreshFileFromS3_data path) seen)
  | stat path => exact drop (data_safe (checkAndRefreshFromS3_data path) seen)
  | mkdir path => exact drop (data_safe (onMkdir_data path) seen)
  | rmdir path => exact drop (harmless_safe (onRmdir_harmless path) seen)
  | flushOutbound => exact drop (flushLoop_safe manager _ _ seen)
  | forceFlush rounds => exact drop (forceFlush_safe manager rounds seen)
  | pollInbound => exact drop (data_safe pollInbound_data seen)
  | maybeSync => exact drop (maybeSync_safe manager seen)
  | renewLeases => exact harmless_safe (renewLeases_harmless manager) seen
  | releaseAllLeases => exact drop (releaseAllLeases_safe manager seen)

end

section
variable [EtagScheme] {F T : Type} [FsBackend F] [DecidableEq T] {manager : T → SyncManager} {admits : Turn → Prop}
  {permits : T → Call F → Prop} {ambient : ObjectStore → ObjectStore → Prop} {first last : ClusterConfig T F}

omit [DecidableEq T] in
theorem accounts : Accounts (F := F) Guarded RemovesObserved admits manager permits fun _ => QueueSeen where
  blank _ s _ fresh path etag queued := by
    obtain ⟨now, fresh⟩ := fresh
    rw [fresh] at queued
    cases queued
  stable _ _ _ seen moved := seen.stable moved
  load _ fresh _ seen := data_safe (initServer_data fresh) seen
  call member call _ _ seen := call_safe (manager member) call seen

/-- In every run in which no unconditional delete finds a file, every delete that
removes a version removes one its instance has observed. -/
theorem deletes_observed (unstarted : Unstarted first)
    (reached : instances.Reachable (clusterRules manager admits permits ambient) first last)
    (guarded : ∀ member, Throughout Guarded (last.shared.nodes member).log) (member : T) :
    Throughout RemovesObserved (last.shared.nodes member).log :=
  accounts.history unstarted (reachable_conditioned reached guarded) member

end

/-! ### Concrete runs -/

theorem plain_of_last {key : String} (file : key.toList.getLast? ≠ some '/') : Plain key := by
  rintro path rfl
  apply file
  simp [dirMarkerKey, String.toList_append]

section
open scoped ContentEtags

def sampleManager (second : Bool) : SyncManager :=
  Sample.manager .batch (if second then Sample.second else Sample.first)

def unconditional {F : Type} (moment : Entry F) : Bool :=
  match moment.op with
  | .request (.delete _ .none) => true
  | _ => false

theorem guarded_of_conditional {F : Type} {log : Log F} (each : log.all fun moment => !unconditional moment) :
    Throughout Guarded log := by
  refine throughout_of_forall fun moment member => ?_
  show Guarded [] moment
  intro path asked
  have conditional := List.all_eq_true.mp each moment member
  simp [unconditional, asked] at conditional

/-- A file of the store is unlinked after the load and the delete is flushed. -/
def unlinked : ClusterConfig Bool MemFs :=
  Sample.after sampleManager [("files/a", [1])]
    [(false, .flushOutbound), (false, .unlink "/a" (MemFs.removeLocal "/a")), (false, .flushOutbound)]

theorem unlinked_conditional (member : Bool) :
    (unlinked.shared.nodes member).log.all (fun moment => !unconditional moment) = true := by
  cases member <;> decide +kernel

theorem unlinked_reachable :
    instances.Reachable (clusterRules sampleManager Truthful (fun _ _ => True) fun _ _ => False)
      (Sample.cluster [("files/a", [1])]) unlinked :=
  Sample.after_reachable _ _ _

theorem deletes_observed_sample :
    Throughout RemovesObserved (unlinked.shared.nodes false).log ∧
      Throughout RemovesObserved (unlinked.shared.nodes true).log := by
  have reached := unlinked_reachable
  have conditional := unlinked_conditional
  -- the history is large, and nothing here should compute it
  generalize unlinked = last at *
  have observed := deletes_observed (Sample.cluster_unstarted _) reached fun member =>
    guarded_of_conditional (conditional member)
  exact ⟨observed false, observed true⟩

/-- A new file is created and unlinked before its upload is flushed. The other instance
creates the same path, and the delete is flushed after that. -/
def recreated : ClusterConfig Bool MemFs :=
  Sample.after sampleManager []
    [(false, .flushOutbound), (true, .flushOutbound), (false, .write "/a" (MemFs.writeLocal "/a" [1])),
      (false, .unlink "/a" (MemFs.removeLocal "/a")), (true, .openWrite 1 "/a"),
      (true, .write "/a" (MemFs.writeLocal "/a" [2])), (true, .close "/a"), (false, .flushOutbound)]

/-- Nothing was cached and nothing was leased. -/
def Unaware (moment : Entry MemFs) : Bool :=
  moment.before.manager.metadataCache.files.keys.isEmpty && moment.before.manager.leases.keys.isEmpty

/-- A delete removes a file that its instance knows nothing of. -/
def removesUnseen : Log MemFs → Bool
  | ⟨.request (.delete "files/a" .none), _, before, after⟩ :: older =>
      (before.store.objects.lookup "files/a").isSome && (after.store.objects.lookup "files/a").isNone &&
        older.all Unaware
  | _ => false

theorem unaware_basis {moment : Entry MemFs} (unaware : Unaware moment = true) (path etag : String) :
    ¬ Basis moment.before.manager path etag := by
  simp only [Unaware, Bool.and_eq_true, List.isEmpty_iff] at unaware
  have absent {B : Type} {entries : Map B} (empty : entries.keys = []) : entries.lookup path = none := by
    rw [AList.lookup_eq_none, AList.mem_keys, empty]
    exact List.not_mem_nil
  rintro (cached | based)
  · simp [MetadataCache.etag, MetadataCache.get, absent unaware.1] at cached
  · simp [ManagerState.baseEtag, LeaseTable.base, absent unaware.2] at based

theorem removesUnseen_offends {log : Log MemFs} (offends : removesUnseen log = true) :
    ¬ Throughout RemovesObserved log := by
  unfold removesUnseen at offends
  split at offends
  · next reply before after older =>
    simp only [Bool.and_eq_true, Option.isSome_iff_exists, Option.isNone_iff_eq_none, List.all_eq_true] at offends
    obtain ⟨⟨⟨version, there⟩, gone⟩, unaware⟩ := offends
    rintro ⟨observed, -⟩
    have gone : object "/a" after ≠ some version := by
      intro still
      rw [show object "/a" after = none from gone] at still
      cases still
    obtain ⟨name, -, earlier, member, basis⟩ := observed "/a" .none version rfl (plain_of_last (by decide)) there gone
    exact unaware_basis (unaware earlier member) _ _ basis
  · cases offends

theorem recreated_unseen :
    removesUnseen ((recreated.shared.nodes false).log.dropWhile fun moment => !unconditional moment) = true := by
  decide +kernel

/-- The delete removes the file of the other instance, which was never observed. -/
theorem deletes_unobserved :
    instances.Reachable (clusterRules sampleManager Truthful (fun _ _ => True) fun _ _ => False)
      (Sample.cluster []) recreated ∧
    ¬ Throughout RemovesObserved (recreated.shared.nodes false).log := by
  refine ⟨Sample.after_reachable _ _ _, ?_⟩
  have unseen := recreated_unseen
  generalize (recreated.shared.nodes false).log = log at *
  intro observed
  obtain ⟨newer, parts⟩ := log.dropWhile_suffix fun moment => !unconditional moment
  rw [← parts] at observed
  exact removesUnseen_offends unseen observed.older

end
end MonakaFs.Sync.Deletes
