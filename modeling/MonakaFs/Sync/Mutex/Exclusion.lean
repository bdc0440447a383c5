import MonakaFs.Sync.Mutex.Calls

/-! Mutual exclusion between instances.

Every call of an instance keeps its invariant while the others keep theirs, so in
every interleaving a lease that its holder counts on and whose record has not
expired is the stored one. Two instances cannot both be the author of it.
-/

set_option autoImplicit false

namespace MonakaFs.Sync.Mutex

open Async

section
variable [EtagScheme] {F T : Type} [DecidableEq T] [FsBackend F] {manager : T → SyncManager}

abbrev identities (manager : T → SyncManager) (member : T) : InstanceId := (manager member).instanceId

/-- Other tools leave the lock objects alone. -/
def LocksUntouched (before after : ObjectStore) : Prop :=
  ∀ path, after.objects.lookup (lockKey path) = before.objects.lookup (lockKey path)

/-- At most one instance counts on the lease of a lock object. -/
def Exclusive (manager : T → SyncManager) (cluster : Cluster T F) : Prop :=
  ∀ one other path path', lockKey path = lockKey path' → Holds (identities manager one) (cluster.view one) path →
    Holds (identities manager other) (cluster.view other) path' → one = other

/-- No renewal or release touched another instance's record. -/
def CleanHistory (manager : T → SyncManager) (cluster : Cluster T F) : Prop :=
  ∀ member, ∀ moment ∈ (cluster.nodes member).log, Clean (identities manager member) moment

def Invariant (manager : T → SyncManager) (cluster : Cluster T F) : Prop :=
  (∀ member, Coherent (identities manager) member (cluster.view member)) ∧ CleanHistory manager cluster

omit [DecidableEq T] [FsBackend F] in
/-- Two live leases of one lock object have the stored record in common, and so its author. -/
theorem Invariant.exclusive (distinct : Function.Injective (identities manager)) {cluster : Cluster T F}
    (invariant : Invariant manager cluster) : Exclusive manager cluster := by
  rintro one other path path' shared ⟨lease, epoch, expires, found, live, latest, fresh⟩
    ⟨lease', epoch', expires', found', live', latest', fresh'⟩
  obtain ⟨object, stored, same⟩ := (invariant.1 one).held path lease epoch expires found live latest fresh
  obtain ⟨object', stored', same'⟩ := (invariant.1 other).held path' lease' epoch' expires' found' live' latest' fresh'
  have stored : cluster.store.objects.lookup (lockKey path) = some object := stored
  have stored' : cluster.store.objects.lookup (lockKey path') = some object' := stored'
  rw [shared, stored'] at stored
  cases stored
  exact distinct (LockRecord.encode_inj (same.symm.trans same')).1

omit [FsBackend F] in
/-- What one member's fair operation looks like to another member. -/
theorem Fair.others (distinct : Function.Injective (identities manager)) {cluster : Cluster T F} {member other : T}
    (lawful : AllLawful (identities manager) cluster.store) {op : Op F} {reply : op.Reply} {u : Node F}
    (fair : Fair (identities manager) member op (cluster.view member) reply u) (different : other ≠ member) :
    Others (identities manager) other (cluster.view other) ((cluster.put member u).view other) where
  manager := by simp [Cluster.view, Cluster.put, different]
  fs := by simp [Cluster.view, Cluster.put, different]
  log := by simp [Cluster.view, Cluster.put, different]
  now := fair.now
  lawful _ := fair.coherent.lawful
  kept path epoch expires name object found same fresh := by
    by_contra changed
    have changed : u.state.store.objects.lookup (lockKey path) ≠ cluster.store.objects.lookup (lockKey path) :=
      fun equal => changed (equal.trans found)
    rcases fair.replaces path object changed found with ⟨_, _, _, own⟩ | takeable
    · exact different (distinct (LockRecord.encode_inj (same.symm.trans own)).1)
    · have law := lawful path object found
      rw [same] at law takeable
      exact absurd fresh (Nat.not_lt.mpr (law.expired takeable))
  unwritten path object found own := by
    by_contra before
    have changed : u.state.store.objects.lookup (lockKey path) ≠ cluster.store.objects.lookup (lockKey path) :=
      fun equal => before (equal.symm.trans found)
    obtain ⟨_, _, _, mine⟩ := own
    obtain ⟨_, _, _, written⟩ := fair.writes path object changed found
    exact different (distinct (LockRecord.encode_inj (mine.symm.trans written)).1)

theorem fits (distinct : Function.Injective (identities manager)) :
    instances.Fits (clusterRules (F := F) manager Truthful (Permitted (identities manager)) LocksUntouched)
      (Invariant manager) (fun member => contract (identities manager) member)
      (fun member (_ : Bool) s => Coherent (identities manager) member s) where
  effect _ := rfl
  kept member op cluster reply u holds effect fair := by
    refine ⟨fun other => ?_, fun other moment logged => ?_⟩
    · by_cases same : other = member
      · subst same
        have view : (cluster.put other u).view other = u := instances.view_put other cluster u
        exact view.symm ▸ fair.coherent
      -- An operation of another member leaves the records of this one to it, as identities differ.
      · exact (holds.1 other).others (fair.others distinct (holds.1 member).lawful same)
    · by_cases same : other = member
      · subst same
        simp only [instances, Cluster.put, Function.update_self, (node_effect effect).2, List.mem_cons] at logged
        rcases logged with rfl | older
        · exact fair.clean
        · exact holds.2 other moment older
      · simp only [instances, Cluster.put, Function.update_of_ne same] at logged
        exact holds.2 other moment logged
  others member op cluster reply u holds _ fair other different :=
    fair.others distinct (holds.1 member).lawful different
  ambient_kept cluster later holds moved := by
    refine ⟨fun member => ?_, fun member moment logged => holds.2 member moment (by rw [← moved.2.2]; exact logged)⟩
    have before := holds.1 member
    refine ⟨fun path object found => before.lawful path object ((moved.2.1 path).symm.trans found), ?_, ?_⟩
    · simpa only [Cluster.view, moved.2.2] using before.backed
    · intro path lease epoch expires found live latest fresh
      simp only [Cluster.view, moved.2.2] at found latest
      obtain ⟨object, stored, same⟩ :=
        before.held path lease epoch expires found live latest (lt_of_le_of_lt moved.1 fresh)
      exact ⟨object, (moved.2.1 path).trans stored, same⟩
  ambient cluster later holds moved member := by
    have node : later.nodes member = cluster.nodes member := by rw [moved.2.2]
    refine ⟨congrArg NodeState.manager node, congrArg NodeState.fs node, congrArg NodeState.log node, moved.1,
      fun lawful path object found => lawful path object ?_, ?_, ?_⟩
    · exact (moved.2.1 path).symm.trans found
    · exact fun path _ _ _ object found _ _ => (moved.2.1 path).trans found
    · exact fun path object found _ => (moved.2.1 path).symm.trans found
  starts member started s p t coherent starts := by
    obtain ⟨rfl, ⟨rfl, fresh, rfl⟩ | ⟨rfl, call, permitted, rfl⟩⟩ := starts
    · exact (data_safe closed_true (initServer_data fresh) coherent trivial).bind fun _ u done =>
        Contract.safe_done fun v moves => done.1.others moves
    · exact (call_safe (show _ = identities manager member from rfl) permitted coherent).bind fun _ u coherent =>
        Contract.safe_done fun v moves => coherent.others moves
  starts_kept member started cluster p s holds _ starts := by
    obtain ⟨rfl, -⟩ := starts
    exact (instances.put_view member cluster).symm ▸ holds
  starts_others member started cluster p s _ starts other different := by
    obtain ⟨rfl, -⟩ := starts
    exact (instances.put_view member cluster).symm ▸ Others.refl ..

/-- Nothing in the store was written by a running instance, or reads as if it were. -/
def NoRecords (manager : T → SyncManager) (store : ObjectStore) : Prop :=
  ∀ path object, store.objects.lookup (lockKey path) = some object → ∀ member,
    ¬ Authored (identities manager member) object.data ∧ ∀ record, LockRecord.parse object.data = some record →
      record.instanceId ≠ (identities manager member).text

omit [DecidableEq T] [FsBackend F] in
theorem start_invariant {config : ClusterConfig T F} (unstarted : Unstarted config)
    (unwritten : NoRecords manager config.shared.store) : Invariant manager config.shared := by
  refine ⟨fun member => ⟨fun path object found => .inl (unwritten path object found), ?_, ?_⟩, fun member moment logged => ?_⟩
  · intro path lease found
    obtain ⟨-, -, now, fresh⟩ := unstarted member
    simp only [Cluster.view, fresh] at found
    cases found
  · intro path lease epoch expires _ _ latest
    simp only [Cluster.view, (unstarted member).2.1] at latest
    exact latest.elim
  · rw [(unstarted member).2.1] at logged
    cases logged

/-- While every path opened for write has records that read back, at most one instance
counts on a lease, and no renewal or release touches another instance's record. -/
theorem lease_exclusion {first last : ClusterConfig T F} (distinct : Function.Injective (identities manager))
    (unstarted : Unstarted first) (unwritten : NoRecords manager first.shared.store)
    (reached : instances.Reachable
      (clusterRules manager Truthful (Permitted (identities manager)) LocksUntouched) first last) :
    Exclusive manager last.shared ∧ CleanHistory manager last.shared := by
  have holds := start_invariant unstarted unwritten
  have sound : instances.Sound (Invariant manager) (fun member => contract (identities manager) member)
      (fun member (_ : Bool) s => Coherent (identities manager) member s) first := by
    refine ⟨holds, fun member => ?_⟩
    rw [(unstarted member).1]
    exact Contract.safe_done fun t moves => (holds.1 member).others moves
  have invariant := ((fits distinct).reachable sound reached).1
  exact ⟨invariant.exclusive distinct, invariant.2⟩

end
section
variable [EtagScheme] {F : Type}

/-- Whether a moment writes an object under this key. -/
def writesTo (key : String) : Entry F → Bool
  | ⟨.request (.put name _ _), _, _, _⟩ => decide (name = key)
  | _ => false

theorem wrote_ok {id : InstanceId} {path : String} {epoch expires : Nat} (key : String) (body : Bytes)
    (cond : Precondition) (etag : String) (before after : Snapshot F) :
    (key = lockKey path ∧ body = recordOf id epoch expires path) ↔
      Wrote id path epoch expires ⟨.request (.put key body cond), .ok etag, before, after⟩ :=
  ⟨fun same => ⟨same.1, same.2, etag, rfl⟩, fun wrote => ⟨wrote.1, wrote.2.1⟩⟩

theorem wrote_error {id : InstanceId} {path : String} {epoch expires : Nat} (key : String) (body : Bytes)
    (cond : Precondition) (e : S3Error) (before after : Snapshot F) :
    ¬ Wrote id path epoch expires ⟨.request (.put key body cond), .error e, before, after⟩ := by
  rintro ⟨-, -, _, same⟩
  cases same

instance (id : InstanceId) (path : String) (epoch expires : Nat) :
    DecidablePred (Wrote (F := F) id path epoch expires)
  | ⟨.request (.put key body cond), (reply : Except S3Error String), before, after⟩ =>
      match reply with
      | .ok etag => decidable_of_iff _ (wrote_ok key body cond etag before after)
      | .error e => isFalse (wrote_error key body cond e before after)
  | ⟨.request (.list ..), _, _, _⟩ | ⟨.request (.head _), _, _, _⟩ | ⟨.request (.get _), _, _, _⟩
  | ⟨.request (.delete ..), _, _, _⟩ | ⟨.queue _, _, _, _⟩ | ⟨.cache _, _, _, _⟩ | ⟨.leases _, _, _, _⟩
  | ⟨.schedule _, _, _, _⟩ | ⟨.now, _, _, _⟩ | ⟨.wake _, _, _, _⟩ | ⟨.jitter, _, _, _⟩ | ⟨.fs _, _, _, _⟩
  | ⟨.arrange _, _, _, _⟩ | ⟨.app _, _, _, _⟩ => instDecidableFalse

theorem Wrote.writesTo {id : InstanceId} {path : String} {moment : Entry F} {epoch expires : Nat}
    (wrote : Wrote id path epoch expires moment) : writesTo (lockKey path) moment = true := by
  obtain ⟨op, reply, before, after⟩ := moment
  cases op with
  | request r =>
    cases r with
    | put key body cond => exact decide_eq_true wrote.1
    | list | head | get | delete => exact wrote.elim
  | queue | cache | leases | schedule | now | wake | jitter | fs | arrange | app => exact wrote.elim

theorem latest_of_find {id : InstanceId} {path : String} {epoch expires : Nat} {log : Log F}
    (found : (log.find? (writesTo (lockKey path))).any (fun moment =>
      decide (Wrote id path epoch expires moment)) = true) : Latest id path epoch expires log := by
  induction log with
  | nil => cases found
  | cons moment older ih =>
    rw [List.find?_cons] at found
    split at found
    · exact .inl (of_decide_eq_true found)
    · next other =>
      refine .inr ⟨fun epoch expires wrote => ?_, ih found⟩
      rw [wrote.writesTo] at other
      cases other

end

section
open scoped ContentEtags

def sampleManager (second : Bool) : SyncManager :=
  Sample.manager .batch (if second then Sample.second else Sample.first)

theorem sampleManager_distinct : Function.Injective (identities sampleManager) := by
  rintro (_ | _) (_ | _) same <;> first | rfl | exact absurd same (by decide)

theorem sample_unwritten : NoRecords sampleManager (Sample.store []) := by
  intro path object found
  cases found

def holdsIn (cluster : Cluster Bool MemFs) (member : Bool) (path : String) (epoch expires : Nat) : Bool :=
  ((cluster.nodes member).manager.leases.lookup path).any (fun lease => decide lease.Live) &&
    (((cluster.nodes member).log.find? (writesTo (lockKey path))).any fun moment =>
      decide (Wrote (identities sampleManager member) path epoch expires moment)) && decide (cluster.now < expires)

theorem holds_of_holdsIn {cluster : Cluster Bool MemFs} {member : Bool} {path : String} {epoch expires : Nat}
    (holds : holdsIn cluster member path epoch expires = true) :
    Holds (identities sampleManager member) (cluster.view member) path := by
  simp only [holdsIn, Bool.and_eq_true, decide_eq_true_eq] at holds
  obtain ⟨⟨live, latest⟩, fresh⟩ := holds
  obtain ⟨lease, found, live⟩ := (Option.any_eq_true _ _).mp live
  exact ⟨lease, epoch, expires, found, of_decide_eq_true live, latest_of_find latest, fresh⟩

/-- Two instances open the same path for write, one after the other. -/
def sampleRun (path : String) : ClusterConfig Bool MemFs :=
  play sampleManager .empty
    [(false, .launch .flushOutbound), (false, .perform 4), (true, .launch .flushOutbound), (true, .perform 4),
      (false, .launch (.openWrite 1 path)), (false, .perform 10),
      (true, .launch (.openWrite 1 path)), (true, .perform 11)]
    (Sample.cluster [])

theorem lease_exclusion_sample : Exclusive sampleManager (sampleRun "/a").shared ∧
    CleanHistory sampleManager (sampleRun "/a").shared := by
  have plain (member : Bool) : ReadsBack (identities sampleManager) member "/a" :=
    readsBack_of_oneLine _ sampleManager_distinct member (by decide)
  refine lease_exclusion sampleManager_distinct (Sample.cluster_unstarted []) sample_unwritten
    (play_reachable sampleManager MemFs.empty _ _ _ fun name call listed => ?_)
  simp only [List.mem_cons, Prod.mk.injEq, Action.launch.injEq, reduceCtorEq, List.not_mem_nil, or_false,
    and_false, false_or] at listed
  rcases listed with ⟨-, rfl⟩ | ⟨-, rfl⟩ | ⟨-, rfl⟩ | ⟨-, rfl⟩ <;> first | trivial | exact plain name

/-- A line feed in a path writes a second expiry into the record, and the second
instance takes over a lease that the first still counts on. -/
theorem lease_exclusion_injected :
    instances.Reachable (clusterRules sampleManager Truthful (fun _ _ => True) LocksUntouched)
      (Sample.cluster []) (sampleRun "/a\nexpires=0") ∧ ¬ Exclusive sampleManager (sampleRun "/a\nexpires=0").shared := by
  refine ⟨play_reachable sampleManager MemFs.empty _ _ _ fun _ _ _ => trivial, fun exclusive => ?_⟩
  have first : holdsIn (sampleRun "/a\nexpires=0").shared false "/a\nexpires=0" 1 1000 = true := by decide +kernel
  have second : holdsIn (sampleRun "/a\nexpires=0").shared true "/a\nexpires=0" 2 1000 = true := by decide +kernel
  cases exclusive false true _ _ rfl (holds_of_holdsIn first) (holds_of_holdsIn second)

end
end MonakaFs.Sync.Mutex
