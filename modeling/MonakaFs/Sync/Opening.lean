import MonakaFs.Sync.Runs

/-! What an open for write leaves in the local filesystem.

The open takes the lease, asks for the object's ETag and compares it with the
cached one. It downloads the object when they differ, and trusts the local copy
when they agree or when there is no object.
-/

set_option autoImplicit false

namespace MonakaFs.Sync.Opening

open Async SyncManager LawfulBackend

section
variable [EtagScheme] {F : Type} [LawfulBackend F] (path : String)

/-- The local copy exists if and only if the object does; then it has the same bytes
and the lease is based on its ETag. -/
structure Reflects (s : Snapshot F) : Prop where
  bytes : content s.fs path = (object path s).map (·.data)
  base : ∀ version, object path s = some version → s.manager.baseEtag path = some version.etag

/-- Without an object there is no local copy, and a cached ETag that is still the
object's stands for a local copy with its bytes. -/
def Current (s : Snapshot F) : Prop :=
  match object path s with
  | none => content s.fs path = none
  | some version => s.manager.metadataCache.etag path = some version.etag → content s.fs path = some version.data

/-- Nothing about the file has changed: its object, and what the instance has and knows of it. -/
structure SameFile (s t : Snapshot F) : Prop where
  object : object path t = object path s
  cached : t.manager.metadataCache.etag path = s.manager.metadataCache.etag path
  lease : t.manager.leases.lookup path = s.manager.leases.lookup path
  bytes : content t.fs path = content s.fs path
  queued : SyncOperation.upload path ∈ t.manager.outboundQueue → SyncOperation.upload path ∈ s.manager.outboundQueue

variable {path} {s t u : Snapshot F}

theorem SameFile.refl (s : Snapshot F) : SameFile path s s := ⟨rfl, rfl, rfl, rfl, id⟩

theorem SameFile.trans (first : SameFile path s t) (second : SameFile path t u) : SameFile path s u :=
  ⟨second.object.trans first.object, second.cached.trans first.cached, second.lease.trans first.lease,
    second.bytes.trans first.bytes, fun queued => first.queued (second.queued queued)⟩

/-- Everybody else leaves the file alone. -/
def elsewhere (path : String) : Surroundings F := ⟨SameFile path, .refl, .trans⟩

abbrev opening (path : String) : Contract (syncSignature F) (Node F) := runs Truthful (elsewhere path)

theorem quiet_same {op : Op F} (quiet : op.Quiet) {turn : Turn} (truthful : Truthful turn) :
    SameFile path s (s.act turn op).2 := by
  cases op with
  | request r =>
    rw [act_request truthful]
    refine ⟨ObjectStore.serve_other ?_, rfl, rfl, rfl, id⟩
    cases r with
    | list | head | get => exact nofun
    | put key body cond | delete key cond =>
      obtain ⟨other, rfl⟩ := quiet
      exact fun same => fileKey_ne_lockKey path other (Option.some.inj same).symm
  | now | wake | jitter | arrange => exact ⟨rfl, rfl, rfl, rfl, id⟩
  | queue | cache | leases | schedule | fs | app => exact quiet.elim

/-- A look for an entry that is not there. -/
theorem miss_same {change : WriteLease → WriteLease} {turn : Turn} (missing : s.manager.leases.lookup path = none) :
    SameFile path s (s.act turn (.leases (·.alter path change))).2 := by
  refine ⟨rfl, rfl, ?_, rfl, id⟩
  show (s.manager.leases.alter path change).lookup path = s.manager.leases.lookup path
  rw [Map.lookup_alter, if_pos rfl, missing]
  rfl

theorem keeps_same (start : Snapshot F) :
    (opening (F := F) path).Keeps (fun t => SameFile path start t.state) Op.Quiet where
  stable same moves := same.trans moves.2
  waits _ := trivial
  step quiet same effect := by
    obtain ⟨⟨turn, truthful, -, later⟩, -⟩ := node_effect effect
    exact ⟨trivial, same.trans (later ▸ quiet_same quiet truthful)⟩

/-- What the local copy is after the refresh. -/
def refreshed (path : String) (s : Snapshot F) : Option Bytes :=
  match object path s with
  | none => content s.fs path
  | some version =>
      if s.manager.metadataCache.etag path = some version.etag then content s.fs path else some version.data

/-- The state while the lease is not entered yet, after the refresh. -/
structure Ready (path : String) (start s : Snapshot F) : Prop where
  object : object path s = object path start
  bytes : content s.fs path = refreshed path start

variable {start : Snapshot F} {node : Node F}

theorem Ready.same (ready : Ready path start s) (same : SameFile path s t) : Ready path start t :=
  ⟨same.object.trans ready.object, same.bytes.trans ready.bytes⟩

theorem headAndRefresh_safe (same : SameFile path start node.state) :
    (opening path).Safe (fun result t => ∀ base flag, result = .ok (base, flag) →
      base = (object path start).map (·.etag) ∧ Ready path start t.state) (headAndRefresh (F := F) path) node := by
  simp only [headAndRefresh, headFile_bind]
  refine safe_next ?_
  rintro t found u moved ⟨_, truthful, answer, later⟩
  have same := same.trans moved
  rw [act_request truthful] at answer later
  have same' : SameFile path start u := by rw [later]; exact same
  -- The HEAD answers with the version that was there at the start, as nobody else changes it.
  cases present : object path start with
  | none =>
    have missing : t.store.objects.lookup (fileKey path) = none := same.object.trans present
    have answer : found = Except.ok none := by rw [answer]; simp [ObjectStore.serve, ObjectStore.head, missing]
    subst answer
    refine safe_return fun v moved' base flag returned => ?_
    cases returned
    have same := same'.trans moved'
    exact ⟨rfl, same.object, by rw [refreshed, present]; exact same.bytes⟩
  | some version =>
    have there : t.store.objects.lookup (fileKey path) = some version := same.object.trans present
    have answer : found = Except.ok (some (version.meta (fileKey path))) := by
      rw [answer]; simp [ObjectStore.serve, ObjectStore.head, there]
    subst answer
    simp only [withCache_bind]
    refine safe_next ?_
    rintro v cache w moved' ⟨_, _, answer', later'⟩
    have same := same'.trans moved'
    have same' : SameFile path start w := by rw [later']; exact same
    have known : cache.etag path = start.manager.metadataCache.etag path := by rw [answer']; exact same.cached
    rw [known]
    split
    -- The cache has the tag of the version: the file is not loaded.
    · next current =>
      refine safe_return fun x moved base flag returned => ?_
      cases returned
      have same := same'.trans moved
      exact ⟨rfl, same.object, by rw [refreshed, present]; exact same.bytes.trans (if_pos current).symm⟩
    · next stale =>
      simp only [getFile_bind]
      refine safe_next ?_
      rintro x fetched y moved ⟨_, truthful, answer, later⟩
      have same := same'.trans moved
      rw [act_request truthful] at answer later
      have same' : SameFile path start y := by rw [later]; exact same
      have there : x.store.objects.lookup (fileKey path) = some version := same.object.trans present
      have answer : fetched = Except.ok (some (version.data, version.meta (fileKey path))) := by
        rw [answer]; simp [ObjectStore.serve, ObjectStore.get, there]
      subst answer
      -- The GET brings the same version as the HEAD.
      simp only [storeDownload, onFs_bind, Prog.call_bind]
      refine safe_next ?_
      rintro z wrote a moved ⟨_, _, answer, later⟩
      have same := same'.trans moved
      cases outcome : (wrote : Except S3Error Unit) with
      | error e => exact safe_return fun _ _ base flag returned => by cases returned
      | ok done =>
        have bytes : content a.fs path = some version.data := by
          have wrote : (writeFileContent path version.data z.fs).1 = .ok () := answer.symm.trans outcome
          rw [later]
          exact (congrFun (write_ok wrote) path).trans (Function.update_self ..)
        have object' : object path a = object path start := by rw [later]; exact same.object
        simp only [withCache_bind, Prog.call_bind]
        refine safe_next ?_
        rintro b cache c moved ⟨_, _, _, later⟩
        refine safe_return fun d moved' base flag returned => ?_
        cases returned
        have ready : Ready path start a := ⟨object', by rw [refreshed, present]; exact bytes.trans (if_neg stale).symm⟩
        have ready : Ready path start c := by rw [later]; exact ⟨(ready.same moved).object, (ready.same moved).bytes⟩
        exact ⟨rfl, ready.same moved'⟩

/-- A program that only writes lock objects, before an error. -/
theorem fails_safe {task : Task F Unit} {err : SyncError} {B : Type} {post : Except SyncError B → Node F → Prop}
    (silent : Silent task) (errors : ∀ t, post (.error err) t) :
    (opening path).Safe post (task >>= fun _ => .done (.error err)) node :=
  (performed_safe silent (performed_nothing node)).bind fun _ _ _ => safe_return fun _ _ => errors _

theorem onOpenWrite_safe {manager : SyncManager} (locking : manager.config.fileLock = true) (rounds : Nat)
    (unleased : start.manager.leases.lookup path = none)
    (unqueued : .upload path ∉ start.manager.outboundQueue) (same : SameFile path start node.state) :
    (opening path).Safe (fun result t => result = .ok () → Ready path start t.state ∧
        t.state.manager.baseEtag path = (object path start).map (·.etag))
      (manager.onOpenWrite (F := F) rounds path) node := by
  simp only [onOpenWrite, locking, Bool.true_eq_false, if_false]
  -- The file is not leased at the start, and nobody else leases it.
  have misses : (opening path).Safe (fun joined t => joined = false ∧ SameFile path start t.state)
      (joinHeld (F := F) path rounds) node := by
    cases rounds with
    | zero => exact fun _ _ => trivial
    | succ rounds =>
      simp only [joinHeld, withLeases_bind]
      refine safe_next ?_
      rintro t leases u moved ⟨_, _, answer, later⟩
      have same := same.trans moved
      have missing : t.manager.leases.lookup path = none := same.lease.trans unleased
      have same' : SameFile path start u := same.trans (later ▸ miss_same missing)
      have unknown : AList.lookup path (leases : LeaseTable) = none := by rw [answer]; exact missing
      simp only [unknown]
      exact safe_return fun v moved => ⟨rfl, same'.trans moved⟩
  refine misses.bind ?_
  rintro joined t ⟨out, same⟩
  subst out
  simp only [Bool.false_eq_true, if_false]
  refine ((keeps_same start).safe (acquire_silent _ _ _ _) same).bind fun acquired u same => ?_
  rcases acquired with err | acquired
  · exact safe_return fun _ _ returned => by cases returned
  simp only [pinLease, withLeases_bind]
  refine safe_next ?_
  rintro v leases w moved ⟨_, _, answer, later⟩
  have same := same.trans moved
  have missing : v.manager.leases.lookup path = none := same.lease.trans unleased
  have same' : SameFile path start w := same.trans (later ▸ miss_same missing)
  have unknown : AList.lookup path (leases : LeaseTable) = none := by rw [answer]; exact missing
  -- No upload of the file is queued, so that the open takes what the store has.
  simp only [unknown, Option.isSome_none, Bool.false_eq_true, if_false, leaseBase, takePending, withQueue_bind,
    Prog.call_bind]
  refine safe_next ?_
  rintro x queue y moved ⟨_, _, answer, later⟩
  have same := same'.trans moved
  have empty : SyncOperation.upload path ∉ (queue : List SyncOperation) := by
    rw [answer]; exact fun queued => unqueued (same.queued queued)
  have same' : SameFile path start y := same.trans (later ▸ ⟨rfl, rfl, rfl, rfl, fun queued => (List.mem_filter.mp queued).1⟩)
  simp only [Prog.pure_eq, Prog.done_bind, empty, decide_false, Bool.false_eq_true, if_false, Prog.bind_assoc]
  refine (headAndRefresh_safe same').bind fun result z returned => ?_
  rcases result with err | ⟨base, flag⟩
  · exact fails_safe (release_silent _ _) fun _ same => by cases same
  · obtain ⟨based, ready⟩ := returned base flag rfl
    simp only [Except.map]
    refine safe_next fun a leases b moved ⟨_, _, _, later⟩ => safe_return fun c moved' _ => ?_
    have ready := ready.same moved
    have ready : Ready path start b := by rw [later]; exact ⟨ready.object, ready.bytes⟩
    refine ⟨ready.same moved', ?_⟩
    have entry : c.manager.leases.lookup path = some (newLease base acquired) := by
      rw [moved'.lease, later]
      exact (Map.lookup_insert_eq ..).trans (if_pos rfl)
    rw [ManagerState.baseEtag, LeaseTable.base, entry, ← based]
    rfl

/-- After an open for write the local copy reflects the store exactly when it was
current before, as far as the cache vouched for it. -/
theorem open_reflects {manager : SyncManager} (locking : manager.config.fileLock = true)
    (unleased : start.manager.leases.lookup path = none)
    (unqueued : ∀ op ∈ start.manager.outboundQueue, op.path ≠ path) {rounds : Nat} {last : Node F}
    (ran : Ran Truthful (elsewhere path) (manager.onOpenWrite (F := F) rounds path) start (.ok ()) last) :
    Reflects path last.state ↔ Current path start := by
  have quiet : SyncOperation.upload path ∉ start.manager.outboundQueue := fun queued => unqueued _ queued rfl
  obtain ⟨⟨present, bytes⟩, base⟩ := (onOpenWrite_safe locking rounds unleased quiet (.refl start)).exec ran rfl
  have based (version : MemObject) (found : object path last.state = some version) :
      last.state.manager.baseEtag path = some version.etag := by
    rw [base, ← present, found]
    rfl
  constructor
  · intro reflects
    have same := reflects.bytes
    rw [bytes, present, refreshed] at same
    unfold Current
    -- A cached tag is trusted, so that the local file has to be right for it.
    cases found : object path start with
    | none => simpa [found] using same
    | some version =>
      simp only [found, Option.map_some] at same
      intro known
      rwa [if_pos known] at same
  · intro current
    refine ⟨?_, based⟩
    rw [bytes, present, refreshed]
    unfold Current at current
    cases found : object path start with
    | none => simpa [found] using current
    | some version =>
      simp only [found] at current ⊢
      split
      · next known => exact current known
      · rfl

end

/-! ### Concrete runs -/

section
open scoped ContentEtags

def sampleManager (second : Bool) : SyncManager :=
  Sample.manager .batch (if second then Sample.second else Sample.first)

theorem plainly_elsewhere (count : Nat) : ∀ turn ∈ List.replicate count (plainly (F := MemFs)),
    (∀ s, (elsewhere "/a").moves s (turn.1 s)) ∧ Truthful turn.2 := quiet_turns rfl

/-- An instance that knows nothing, over a store with one file. -/
def newcomer : Snapshot MemFs := ⟨Sample.store [("files/a", [1])], 0, .new .empty 0, .empty⟩

theorem open_reflects_sample : ∃ last, Ran Truthful (elsewhere "/a") ((sampleManager false).onOpenWrite 1 "/a") newcomer
    (.ok ()) last ∧ Reflects "/a" last.state := by
  obtain ⟨value, last, ran, checked⟩ := solo_returned ((sampleManager false).onOpenWrite 1 "/a") newcomer
    (fun value _ => decide (value = .ok ())) (plainly_elsewhere 16) (by decide +kernel)
  obtain rfl := of_decide_eq_true checked
  exact ⟨last, ran, (open_reflects rfl rfl (fun _ queued => by cases queued) ran).mpr fun known => by cases known⟩

/-- Two instances load a file. The second one unlinks it and flushes. -/
def unlinked : ClusterConfig Bool MemFs :=
  play sampleManager .empty
    [(false, .launch .flushOutbound), (false, .perform 8), (true, .launch .flushOutbound), (true, .perform 8),
      (true, .launch (.unlink "/a" (MemFs.removeLocal "/a"))), (true, .perform 4),
      (true, .launch .flushOutbound), (true, .perform 8)]
    (Sample.cluster [("files/a", [1])])

/-- The first instance opens the file for write and keeps its copy of what is gone. -/
theorem open_reflects_stale :
    instances.Reachable (clusterRules sampleManager Truthful (fun _ _ => True) fun _ _ => False)
      (Sample.cluster [("files/a", [1])]) unlinked ∧
    ∃ last, Ran Truthful (elsewhere "/a") ((sampleManager false).onOpenWrite 1 "/a") (unlinked.shared.view false).state
      (.ok ()) last ∧ (unlinked.shared.view false).state.manager.leases.lookup "/a" = none ∧
      (unlinked.shared.view false).state.manager.outboundQueue = [] ∧ ¬ Reflects "/a" last.state := by
  refine ⟨play_reachable sampleManager MemFs.empty _ _ (fun _ _ => False) fun _ _ _ => trivial, ?_⟩
  obtain ⟨value, last, ran, checked⟩ := solo_returned ((sampleManager false).onOpenWrite 1 "/a")
    (unlinked.shared.view false).state (fun value last => decide (value = .ok () ∧
      object "/a" last.state = none ∧ last.state.fs.files.lookup "/a" = some [1])) (plainly_elsewhere 16)
    (by decide +kernel)
  obtain ⟨rfl, gone, kept⟩ := of_decide_eq_true checked
  refine ⟨last, ran, by decide +kernel, by decide +kernel, fun reflects => ?_⟩
  have bytes := reflects.bytes
  rw [gone] at bytes
  exact absurd (kept.symm.trans bytes) nofun

end

end MonakaFs.Sync.Opening
