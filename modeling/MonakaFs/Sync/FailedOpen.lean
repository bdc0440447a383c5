import MonakaFs.Sync.Mutex.Rules
import MonakaFs.Sync.Runs

/-! What a failed open for write leaves behind.

The open takes the lock object, empties the queue of uploads of the path, pushes or
refreshes the file, and enters the lease last. Every error on the way gives the
lock object back, but an upload that was taken out of the queue is not put back.
-/

set_option autoImplicit false

namespace MonakaFs.Sync.FailedOpen

open Async SyncManager

section
variable [EtagScheme] {F : Type} (owner : InstanceId) (path : String)

/-- The lock object of the path is a record of this instance, with this body. -/
def Recorded (body : Bytes) (s : Snapshot F) : Prop :=
  Mutex.Authored owner body ∧ ∃ version, s.store.objects.lookup (lockKey path) = some version ∧ version.data = body

/-- Others leave the manager alone and write no record in its name. -/
def rivals : Surroundings F where
  moves s t := t.manager = s.manager ∧ ∀ body, Recorded owner path body t → Recorded owner path body s
  refl _ := ⟨rfl, fun _ recorded => recorded⟩
  trans first second := ⟨second.1.trans first.1, fun body later => first.2 body (second.2 body later)⟩

/-- The queue and the lease table are as before, and there is no new record of this instance. -/
structure NoTrace (start last : Snapshot F) : Prop where
  queue : last.manager.outboundQueue = start.manager.outboundQueue
  leases : last.manager.leases = start.manager.leases
  records : ∀ body, Recorded owner path body last → Recorded owner path body start

/-- A record of this instance for the path is recognised when it is read back. -/
def Readable : Prop :=
  ∀ epoch expires, epoch < 2 ^ 64 → expires < 2 ^ 64 → ∃ record,
    LockRecord.parse (Mutex.recordOf owner epoch expires path) = some record ∧ record.instanceId = owner.text ∧
      record.epoch = epoch

omit [EtagScheme] in
theorem readable_of_oneLine (oneLine : '\n' ∉ path.toList) : Readable owner path := fun epoch expires bound bound' =>
  ⟨_, LockRecord.parse_encode owner epoch expires path oneLine bound bound', rfl, rfl⟩

/-- A request that reported a transport error. -/
def failed : Entry F → Bool
  | ⟨.request _, .error e, _, _⟩ => e.isTransport
  | _ => false

/-- A release that failed for another reason than that the lease is no longer ours. -/
def failsRelease : Entry F → Bool
  | ⟨.request (.delete key _), .error e, _, _⟩ =>
      decide (key = lockKey path) && !(e.isPreconditionFailed || e.isNotFound)
  | _ => false

/-- A record of the path that was stored although its write reported a transport error. -/
def losesRecord : Entry F → Bool
  | ⟨.request (.put key body _), .error e, _, after⟩ =>
      decide (key = lockKey path) && e.isTransport &&
        decide ((after.store.objects.lookup key).map (·.data) = some body)
  | _ => false

/-- A section under the queue's lock. -/
def asksQueue : Entry F → Bool
  | ⟨.queue _, _, _, _⟩ => true
  | _ => false

/-- An upload of the path was queued, and the call has come as far as the queue. -/
def Drained (start : Snapshot F) (log : Log F) : Prop :=
  .upload path ∈ start.manager.outboundQueue ∧ ∃ moment ∈ log, asksQueue moment = true

/-- At most one request fails, releases do not, and no stored record is taken for lost. -/
structure Tolerable (older : Log F) (moment : Entry F) : Prop where
  single : failed moment = true → ∀ earlier ∈ older, failed earlier = false
  released : failsRelease path moment = false
  readable : losesRecord path moment = true → Readable owner path

variable {owner path}

theorem tolerable_throughout {log : Log F} (single : log.countP failed ≤ 1)
    (released : ∀ moment ∈ log, failsRelease path moment = false)
    (readable : (∃ moment ∈ log, losesRecord path moment = true) → Readable owner path) :
    Throughout (Tolerable owner path) log := by
  induction log with
  | nil => trivial
  | cons moment older ih =>
    rw [List.countP_cons] at single
    refine ⟨⟨fun fails => ?_, released _ (List.mem_cons_self ..), fun lost => ?_⟩, ih (by omega)
      (fun later member => released later (List.mem_cons_of_mem _ member))
      (fun ⟨later, member, lost⟩ => readable ⟨later, List.mem_cons_of_mem _ member, lost⟩)⟩
    · rw [if_pos fails] at single
      have none : older.countP failed = 0 := by omega
      exact fun earlier member => Bool.eq_false_iff.mpr (List.countP_eq_zero.mp none earlier member)
    · exact readable ⟨moment, List.mem_cons_self .., lost⟩

/-! ### Taking the lock object -/

variable [FsBackend F] {s : Node F}

abbrev failing (owner : InstanceId) (path : String) : Contract (syncSignature F) (Node F) :=
  during (Tolerable owner path) Faulty (rivals owner path)

/-- The state before the queue is looked at. A record that was not there at the start
is one of the extra ones. -/
structure Early (owner : InstanceId) (path : String) (start : Snapshot F) (extra : Bytes → Prop) (t : Node F) : Prop where
  manager : t.state.manager = start.manager
  records : ∀ body, Recorded owner path body t.state → Recorded owner path body start ∨ extra body
  log : ∀ moment ∈ t.log, asksQueue moment = false

/-- Nothing has happened yet. -/
abbrev Before (owner : InstanceId) (path : String) (start : Snapshot F) : Node F → Prop :=
  Early owner path start fun _ => False

/-- The lock object is held: a new record has the ETag that was acquired. -/
abbrev Holding (owner : InstanceId) (path : String) (start : Snapshot F) (lockEtag : String) : Node F → Prop :=
  Early owner path start fun body => etagFor body = lockEtag

/-- After a write of the record failed, it may have been stored. -/
structure Unsure (owner : InstanceId) (path : String) (start : Snapshot F) (epoch expires : Nat) (t : Node F) : Prop where
  manager : t.state.manager = start.manager
  records : ∀ body, Recorded owner path body t.state → Recorded owner path body start ∨
    (body = Mutex.recordOf owner epoch expires path ∧ Readable owner path ∧ ∃ moment ∈ t.log, failed moment = true)
  log : ∀ moment ∈ t.log, asksQueue moment = false

variable {start : Snapshot F}

omit [FsBackend F] in
theorem Early.moves {extra : Bytes → Prop} {t : Node F} (early : Early owner path start extra s) (log : t.log = s.log)
    (moved : (rivals owner path).moves s.state t.state) : Early owner path start extra t :=
  ⟨moved.1.trans early.manager, fun body later => early.records body (moved.2 body later), log ▸ early.log⟩

/-- An operation that leaves the manager and the lock objects alone. -/
def Op.Idle : Op F → Prop
  | .request r => r.writes = none
  | .queue _ | .cache _ | .leases _ | .schedule _ => False
  | _ => True

theorem idle_act {op : Op F} (idle : Op.Idle op) (turn : Turn) (t : Snapshot F) :
    (t.act turn op).2.manager = t.manager ∧ (t.act turn op).2.store = t.store := by
  cases op with
  | request r =>
    refine ⟨rfl, ?_⟩
    show (t.store.serveWith turn.fault r).2 = t.store
    cases r with
    | put | delete => cases idle
    | list | head | get => cases turn.fault <;> rfl
  | queue | cache | leases | schedule => exact idle.elim
  | now | wake | jitter | fs | arrange | app => exact ⟨rfl, rfl⟩

theorem idle_next {A : Type} {post : A → Node F → Prop} {op : Op F} {k : op.Reply → Task F A} (idle : Op.Idle op)
    (before : Before owner path start s)
    (rest : ∀ reply u, Before owner path start u → (failing owner path).Safe post (k reply) u) :
    (failing owner path).Safe post (next op k) s := by
  refine during_next fun t reply u moved ⟨turn, _, _, later⟩ _ => rest reply _ ?_
  obtain ⟨manager, store⟩ := idle_act idle turn t
  rw [← later] at manager store
  refine ⟨manager.trans (moved.1.trans before.manager), fun body now => before.records body (moved.2 body ?_), ?_⟩
  · rwa [Recorded, ← store]
  · refine List.forall_mem_cons.mpr ⟨?_, before.log⟩
    cases op with
    | queue => exact idle.elim
    | request | cache | leases | schedule | now | wake | jitter | fs | arrange | app => rfl

/-- A look for a lease that is not there. -/
theorem miss_next {A : Type} {post : A → Node F → Prop} {extra : Bytes → Prop} {change : WriteLease → WriteLease}
    {k : LeaseTable → Task F A} (missing : start.manager.leases.lookup path = none) (early : Early owner path start extra s)
    (rest : ∀ leases u, AList.lookup path (leases : LeaseTable) = none → Early owner path start extra u →
      (failing owner path).Safe post (k leases) u) :
    (failing owner path).Safe post (next (.leases (·.alter path change)) k) s := by
  refine during_next ?_
  rintro t leases u moved ⟨_, _, answer, later⟩ _
  have early := early.moves (t := ⟨t, s.log⟩) rfl moved
  have manager : t.manager = start.manager := early.manager
  have absent : t.manager.leases.lookup path = none := by rw [manager]; exact missing
  have same : u.manager = start.manager := by
    rw [later, ← manager]
    simp only [Snapshot.act, Map.alter, absent]
  refine rest leases _ (by rw [answer]; exact absent) ⟨same, fun body recorded => early.records body ?_, ?_⟩
  · rw [later] at recorded
    exact recorded
  · exact List.forall_mem_cons.mpr ⟨rfl, early.log⟩

theorem before_return {A : Type} {post : A → Node F → Prop} {value : A} (before : Before owner path start s)
    (holds : ∀ t, Before owner path start t → post value t) :
    (failing owner path).Safe post (.done value : Task F A) s :=
  during_return fun _ moved => holds _ (before.moves rfl moved)

/-- What an attempt to take the lock object leaves. -/
def Took {E : Type} (owner : InstanceId) (path : String) (start : Snapshot F) : Except E Acquired → Node F → Prop
  | .ok acquired, t => Holding owner path start acquired.lockEtag t
  | .error _, t => Before owner path start t

/-- The verification tells whether the stored record is the one that was written. -/
theorem verifyLeaseLanded_safe {epoch expires : Nat} (bound : epoch < 2 ^ 64) (bound' : expires < 2 ^ 64)
    (unsure : Unsure owner path start epoch expires s) :
    (failing owner path).Safe (fun found t => match found with
      | some lockEtag => Holding owner path start lockEtag t
      | none => Before owner path start t) (verifyLeaseLanded (F := F) (lockKey path) owner epoch) s := by
  simp only [verifyLeaseLanded, getObject_bind]
  refine during_next ?_
  rintro t reply u moved ⟨turn, faulty, answer, later⟩ fine
  have store : u.store = t.store := by rw [later]; exact (idle_act (show Op.Idle (.request (.get (lockKey path))) from rfl) turn t).2
  have manager : u.manager = start.manager := by rw [later]; exact moved.1.trans unsure.manager
  have records (body : Bytes) (recorded : Recorded owner path body u) :=
    unsure.records body (moved.2 body (by rwa [Recorded, ← store]))
  have log : ∀ moment ∈ (⟨.request (.get (lockKey path)), reply, t, u⟩ :: s.log : Log F), asksQueue moment = false :=
    List.forall_mem_cons.mpr ⟨rfl, unsure.log⟩
  -- nothing new of ours is stored: the state is as before
  have clean (v : Snapshot F) (moved' : (rivals owner path).moves u v)
      (same : ∀ body, Recorded owner path body u → Recorded owner path body start) : Before owner path start ⟨v, _⟩ :=
    ⟨moved'.1.trans manager, fun body now => .inl (same body (moved'.2 body now)), log⟩
  rcases (reply : Except S3Error (Option (Bytes × ObjectMeta))) with e | _ | ⟨data, info⟩
  · have first := fine.single (look_failed (show (Request.get (lockKey path)).writes = none from rfl) faulty answer.symm)
    refine during_return fun v moved' => clean v moved' fun body recorded => ?_
    refine (records body recorded).resolve_right ?_
    rintro ⟨_, _, moment, member, fails⟩
    rw [first moment member] at fails
    cases fails
  · have missing := get_missing answer.symm
    refine during_return fun v moved' => clean v moved' fun body recorded => ?_
    obtain ⟨_, version, found, _⟩ := recorded
    rw [store, missing] at found
    cases found
  · obtain ⟨stored, present, bytes, tag⟩ := get_found answer.symm
    have only (body : Bytes) (recorded : Recorded owner path body u) : body = data := by
      obtain ⟨-, version, found, same⟩ := recorded
      rw [store, present] at found
      cases found
      exact same.symm.trans bytes
    -- a record that is ours is recognised
    have recognised (body : Bytes) (recorded : Recorded owner path body u) (unknown : ∀ record,
        LockRecord.parse data = some record → ¬ (record.instanceId = owner.text ∧ record.epoch = epoch)) :
        Recorded owner path body start := by
      refine (records body recorded).resolve_right ?_
      rintro ⟨ours, readable, _⟩
      obtain ⟨record, read, named, same⟩ := readable epoch expires bound bound'
      rw [← ours, only body recorded] at read
      exact unknown record read ⟨named, same⟩
    dsimp only
    split
    · next record read =>
      split
      · refine during_return fun v moved' => ⟨moved'.1.trans manager, fun body now => .inr ?_, log⟩
        rw [only body (moved'.2 body now), tag]
      · next unknown =>
        refine during_return fun v moved' => clean v moved' fun body recorded => recognised body recorded ?_
        rintro record' read'
        rw [read] at read'
        cases read'
        exact unknown
    · next unread =>
      refine during_return fun v moved' => clean v moved' fun body recorded => recognised body recorded ?_
      intro record read
      rw [unread] at read
      cases read

theorem writeRecord_safe {epoch lease : Nat} (bound : epoch < 2 ^ 64) (cond : Precondition)
    (before : Before owner path start s) :
    (failing owner path).Safe (Took owner path start) (writeRecord (F := F) owner path epoch lease cond) s := by
  simp only [writeRecord, instant_bind, putObject_bind]
  refine idle_next trivial before fun now u before => idle_next trivial before fun first v before => ?_
  refine during_next ?_
  rintro t reply w moved ⟨turn, faulty, answer, later⟩ fine
  have before := before.moves (t := ⟨t, v.log⟩) rfl moved
  have manager : w.manager = start.manager := by rw [later]; exact before.manager
  have expires : (now + lease) % 2 ^ 64 < 2 ^ 64 := Nat.mod_lt _ (by omega)
  rcases (reply : Except S3Error String) with e | lockEtag
  -- Without an answer the record may be there or not.
  · have unsure : Unsure owner path start epoch ((now + lease) % 2 ^ 64)
        ⟨w, ⟨.request (.put (lockKey path) (freshRecord owner epoch now lease path).encode cond), .error e, t, w⟩ :: v.log⟩ := by
      refine ⟨manager, fun body recorded => ?_, List.forall_mem_cons.mpr ⟨rfl, before.log⟩⟩
      rcases put_lost faulty answer.symm with kept | ⟨transport, version, found, bytes⟩
      · have same : w.store = t.store := by rw [later]; exact kept
        exact .inl ((before.records body (by rwa [Recorded, ← same])).resolve_right id)
      · have present : w.store.objects.lookup (lockKey path) = some version := by rw [later]; exact found
        obtain ⟨-, stored, found', same⟩ := recorded
        rw [present] at found'
        cases found'
        refine .inr ⟨same.symm.trans bytes, fine.readable ?_, _, List.mem_cons_self .., transport⟩
        simp [losesRecord, transport, present, bytes]
    refine (verifyLeaseLanded_safe bound expires unsure).bind fun found x outcome => ?_
    rcases found with _ | lockEtag
    · exact before_return outcome fun _ later => later
    · exact during_return fun y moved' => ⟨moved'.1.trans outcome.manager,
        fun body now => outcome.records body (moved'.2 body now), outcome.log⟩
  -- The record is written, and nobody else writes to it.
  · obtain ⟨version, found, tag, bytes⟩ := put_stored answer.symm
    have present : w.store.objects.lookup (lockKey path) = some version := by rw [later]; exact found
    refine during_return fun y moved' => ⟨moved'.1.trans manager, fun body now => .inr ?_,
      List.forall_mem_cons.mpr ⟨rfl, before.log⟩⟩
    obtain ⟨-, stored, found', same⟩ := moved'.2 body now
    rw [present] at found'
    cases found'
    rw [← same, ← tag]
    rfl

/-- What one look at the lock object leaves. -/
def Attempted (owner : InstanceId) (path : String) (start : Snapshot F) : Attempt → Node F → Prop
  | .acquired acquired, t => Holding owner path start acquired.lockEtag t
  | .failed _, t | .held _, t => Before owner path start t

theorem attempt_safe (lease : Nat) (holder : Option String) (before : Before owner path start s) :
    (failing owner path).Safe (Attempted owner path start) (attempt (F := F) owner path lease holder) s := by
  have epochs (record : Option LockRecord) : takeoverEpoch record < 2 ^ 64 := by
    cases record with
    | none => decide
    | some record => exact Nat.mod_lt _ (by decide)
  have refused (e : S3Error) (retry : Bool) (t : Node F) (before : Before owner path start t) :
      (failing owner path).Safe (Attempted owner path start)
        (pure (if retry then .held holder else .failed (.s3 e)) : Task F Attempt) t :=
    before_return before fun u before => by cases retry <;> exact before
  have took (acquired : Acquired) (t : Node F) (holding : Holding owner path start acquired.lockEtag t) :
      (failing owner path).Safe (Attempted owner path start) (pure (.acquired acquired) : Task F Attempt) t :=
    during_return fun _ moved => Early.moves holding rfl moved
  simp only [attempt, getObject_bind]
  refine idle_next rfl before fun reply u before => ?_
  rcases (reply : Except S3Error (Option (Bytes × ObjectMeta))) with e | _ | ⟨body, info⟩
  · exact before_return before fun _ later => later
  · refine (writeRecord_safe (by decide) _ before).bind fun result t outcome => ?_
    rcases result with e | acquired
    · exact refused e _ t outcome
    · exact took acquired t outcome
  · simp only [instant_bind]
    refine idle_next trivial before fun now v before => ?_
    split
    · refine (writeRecord_safe (epochs _) _ before).bind fun result t outcome => ?_
      rcases result with e | acquired
      · exact refused e _ t outcome
      · exact took acquired t outcome
    · exact before_return before fun _ later => later

theorem acquireLoop_safe (lease deadline attempts backoff : Nat) (holder : Option String)
    (before : Before owner path start s) :
    (failing owner path).Safe (Took owner path start)
      (acquireLoop (F := F) owner path lease deadline attempts backoff holder) s := by
  induction attempts generalizing backoff holder s with
  | zero => exact fun _ _ => trivial
  | succ attempts ih =>
    refine (attempt_safe lease holder before).bind fun outcome t attempted => ?_
    cases outcome with
    | acquired acquired => exact during_return fun _ moved => Early.moves attempted rfl moved
    | failed e => exact before_return attempted fun _ later => later
    | held holder =>
      simp only [instant_bind]
      refine idle_next trivial attempted fun now u before => ?_
      split
      · exact before_return before fun _ later => later
      · simp only [jitter_bind, wake_bind]
        exact idle_next trivial before fun extra v before => idle_next trivial before fun _ w before => ih _ _ before

theorem acquire_safe (lease timeout : Nat) (before : Before owner path start s) :
    (failing owner path).Safe (Took owner path start) (acquire (F := F) owner path lease timeout) s := by
  simp only [acquire, instant_bind]
  exact idle_next trivial before fun _ u before => acquireLoop_safe _ _ _ _ _ before

/-! ### After the lock object is taken -/

/-- The state while the lock object is held and the queue has been looked at. -/
structure After (owner : InstanceId) (path : String) (start : Snapshot F) (lockEtag : String) (t : Node F) : Prop where
  leases : t.state.manager.leases = start.manager.leases
  queue : t.state.manager.outboundQueue = start.manager.outboundQueue.filter (· ≠ .upload path)
  records : ∀ body, Recorded owner path body t.state → Recorded owner path body start ∨ etagFor body = lockEtag
  asked : ∃ moment ∈ t.log, asksQueue moment = true

/-- The same once the lock object has been given back. -/
structure Released (owner : InstanceId) (path : String) (start : Snapshot F) (t : Node F) : Prop where
  leases : t.state.manager.leases = start.manager.leases
  queue : t.state.manager.outboundQueue = start.manager.outboundQueue.filter (· ≠ .upload path)
  records : ∀ body, Recorded owner path body t.state → Recorded owner path body start
  asked : ∃ moment ∈ t.log, asksQueue moment = true

theorem transfers_act {op : Op F} (transfers : op.Transfers False path) (turn : Turn) (t : Snapshot F)
    (missing : t.manager.leases.lookup path = none) :
    (t.act turn op).2.manager.leases = t.manager.leases ∧
      (t.act turn op).2.manager.outboundQueue = t.manager.outboundQueue ∧
      (t.act turn op).2.store.objects.lookup (lockKey path) = t.store.objects.lookup (lockKey path) := by
  have same (change : WriteLease → WriteLease) : t.manager.leases.alter path change = t.manager.leases := by
    rw [Map.alter, missing]
  cases transfers with
  | look looks => exact ⟨rfl, rfl, serveWith_other (by rw [looks]; exact nofun)⟩
  | put => exact ⟨rfl, rfl, serveWith_other fun same => fileKey_ne_lockKey path path (Option.some.inj same)⟩
  | delete forbidden => exact forbidden.elim
  | pin | unpin => exact ⟨same _, rfl, rfl⟩
  | readCache | forget | uploaded | downloaded | readLeases | now | read | stat | write => exact ⟨rfl, rfl, rfl⟩

theorem keeps_after {lockEtag : String} (missing : start.manager.leases.lookup path = none) :
    (failing (F := F) owner path).Keeps (After owner path start lockEtag) (Op.Transfers False path) where
  stable after moves := ⟨(congrArg ManagerState.leases moves.2.1).trans after.leases,
    (congrArg ManagerState.outboundQueue moves.2.1).trans after.queue,
    fun body later => after.records body (moves.2.2 body later), moves.1 ▸ after.asked⟩
  waits _ := trivial
  step {op s reply u} transfers after effect := by
    obtain ⟨⟨turn, -, -, later⟩, logged⟩ := node_effect effect.1
    obtain ⟨leases, queue, lock⟩ := transfers_act transfers turn s.state (by rw [after.leases]; exact missing)
    rw [← later] at leases queue lock
    refine ⟨trivial, leases.trans after.leases, queue.trans after.queue, fun body recorded => after.records body ?_, ?_⟩
    · rwa [Recorded, ← lock]
    · obtain ⟨moment, member, asks⟩ := after.asked
      exact ⟨moment, by rw [logged]; exact List.mem_cons_of_mem _ member, asks⟩

/-- A release that does not fail leaves no new record. -/
theorem release_safe {lockEtag : String} (after : After owner path start lockEtag s) :
    (failing owner path).Safe (fun _ t => Released owner path start t) (release (F := F) path lockEtag) s := by
  simp only [release, deleteObject_bind]
  refine during_next ?_
  rintro t reply u moved ⟨turn, faulty, answer, later⟩ fine
  refine during_return fun v moved' => ?_
  have manager : u.manager = t.manager := by rw [later]; rfl
  refine ⟨?_, ?_, fun body recorded => ?_, ?_⟩
  · exact (congrArg ManagerState.leases (moved'.1.trans (manager.trans moved.1))).trans after.leases
  · exact (congrArg ManagerState.outboundQueue (moved'.1.trans (manager.trans moved.1))).trans after.queue
  · obtain ⟨own, version, found, bytes⟩ := moved'.2 body recorded
    -- A release that was lost would count as failed.
    have answered : turn.fault = .answered := by
      cases lost : turn.fault with
      | answered => rfl
      | unsent e | unanswered e =>
        have transport : e.isTransport = true := by rw [Faulty, lost] at faulty; exact faulty
        have reported : reply = .error e := by rw [answer]; simp only [Snapshot.act, lost, ObjectStore.serveWith]
        obtain ⟨present, known, -⟩ := S3Error.transport_kind transport
        have released := fine.released
        simp [reported, failsRelease, present, known] at released
    rw [act_request answered] at answer later
    rcases t.store.delete_leaves (lockKey path) lockEtag with ⟨text, rejected⟩ | leaves
    · have reported : reply = .error (.notImplemented (lockKey path) text) := answer.trans rejected
      have released := fine.released
      simp [reported, failsRelease, S3Error.isPreconditionFailed, S3Error.isNotFound] at released
    · rw [later] at found
      obtain ⟨stays, other⟩ := leaves version found
      rcases after.records body (moved.2 body ⟨own, version, stays, bytes⟩) with old | same
      · exact old
      · exact absurd (by rw [← same, ← bytes]; rfl) other
  · obtain ⟨moment, member, asks⟩ := after.asked
    exact ⟨moment, List.mem_cons_of_mem _ member, asks⟩

/-- How a failed open ends: before the queue was looked at, or after. -/
def Ended (owner : InstanceId) (path : String) (start : Snapshot F) (result : Except SyncError Unit) (t : Node F) : Prop :=
  ∀ e, result = .error e → Before owner path start t ∨ Released owner path start t

theorem takePending_safe {lockEtag : String} (holding : Holding owner path start lockEtag s) :
    (failing owner path).Safe (fun _ t => After owner path start lockEtag t) (takePending (F := F) path) s := by
  simp only [takePending, withQueue_bind]
  refine during_next fun t queue u moved ⟨_, _, _, later⟩ _ => during_return fun v moved' => ?_
  have holding := holding.moves (t := ⟨t, s.log⟩) rfl moved
  have manager : t.manager = start.manager := holding.manager
  refine ⟨?_, ?_, fun body recorded => ?_, _, List.mem_cons_self .., rfl⟩
  · rw [moved'.1, later, ← manager]; rfl
  · rw [moved'.1, later, ← manager]; rfl
  · have recorded := moved'.2 body recorded
    rw [later] at recorded
    exact holding.records body recorded

theorem leaseBase_safe {lockEtag : String} (manager : SyncManager) (missing : start.manager.leases.lookup path = none)
    (holding : Holding owner path start lockEtag s) :
    (failing owner path).Safe (fun _ t => After owner path start lockEtag t) (manager.leaseBase (F := F) path) s := by
  refine (takePending_safe holding).bind fun pending t after => (keeps_after missing).safe ?_ after
  split
  · apply (condForUpload_moving path).bind
    intro cond
    apply (uploadWithCond_moving manager path cond).bind
    rintro (e | etag)
    · dsimp only
      split
      · exact (conflict_moving path).bind fun _ => trivial
      · trivial
    · trivial
  · exact (headAndRefresh_moving path).bind fun _ => trivial

theorem pinLease_safe {manager : SyncManager} {acquired : Acquired} (missing : start.manager.leases.lookup path = none)
    (holding : Holding owner path start acquired.lockEtag s) :
    (failing owner path).Safe (Ended owner path start) (manager.pinLease (F := F) path acquired) s := by
  simp only [pinLease, withLeases_bind]
  refine miss_next missing holding fun leases u unknown holding => ?_
  simp only [unknown, Option.isSome_none, Bool.false_eq_true, if_false]
  refine (leaseBase_safe _ missing holding).bind fun result v after => ?_
  rcases result with e | base
  · exact (release_safe after).bind fun _ w released => during_return fun x moved e _ => .inr ⟨
      (congrArg ManagerState.leases moved.1).trans released.leases,
      (congrArg ManagerState.outboundQueue moved.1).trans released.queue,
      fun body later => released.records body (moved.2 body later), released.asked⟩
  · exact during_next fun _ _ _ _ _ _ => during_return fun _ _ e failed => by cases failed

/-! ### The whole call -/

/-- While nobody finishes the release of an entry, an open waits for it. -/
theorem joinHeld_stuck (rounds : Nat) {lease : WriteLease} (releasing : lease.releasing = true)
    (same : s.state.manager.leases.lookup path = some lease) :
    (failing owner path).Safe (fun _ _ => False) (joinHeld (F := F) path rounds) s := by
  induction rounds generalizing s with
  | zero => exact fun _ _ => trivial
  | succ rounds ih =>
    simp only [joinHeld, withLeases_bind]
    refine during_next ?_
    rintro t leases u moved ⟨_, _, answer, later⟩ _
    have held : t.manager.leases.lookup path = some lease := by rw [moved.1]; exact same
    have known : AList.lookup path (leases : LeaseTable) = some lease := by rw [answer]; exact held
    have held' : u.manager.leases.lookup path = some lease := by
      rw [later]
      show (t.manager.leases.alter path _).lookup path = some lease
      rw [Map.lookup_alter, if_pos rfl, held, Option.map_some, if_pos releasing]
    simp only [known, releasing, if_true, sleep, instant_bind, wake]
    refine during_next fun v now w moved' ⟨_, _, _, later'⟩ _ => during_next fun x _ y moved'' ⟨_, _, _, later''⟩ _ => ih ?_
    have manager : y.manager = u.manager := by rw [later'']; exact moved''.1.trans (by rw [later']; exact moved'.1)
    exact (congrArg (·.leases.lookup path) manager).trans held'

theorem joinHeld_safe (rounds : Nat) (before : Before owner path start s) :
    (failing owner path).Safe (fun joined t => joined = false → Before owner path start t ∧
      start.manager.leases.lookup path = none) (joinHeld (F := F) path rounds) s := by
  cases rounds with
  | zero => exact fun _ _ => trivial
  | succ rounds =>
    cases found : start.manager.leases.lookup path with
    | none =>
      simp only [joinHeld, withLeases_bind]
      refine miss_next found before fun leases u unknown before => ?_
      simp only [unknown]
      exact before_return before fun _ before _ => ⟨before, trivial⟩
    | some lease =>
      have held : s.state.manager.leases.lookup path = some lease := by rw [before.manager]; exact found
      by_cases releasing : lease.releasing = true
      · exact (joinHeld_stuck (rounds + 1) releasing held).weaken fun _ _ impossible => impossible.elim
      · simp only [joinHeld, withLeases_bind]
        refine during_next ?_
        rintro t leases u moved ⟨_, _, answer, _⟩ _
        have held : t.manager.leases.lookup path = some lease := by rw [moved.1]; exact held
        have known : AList.lookup path (leases : LeaseTable) = some lease := by rw [answer]; exact held
        simp only [known, releasing, Bool.false_eq_true, if_false]
        exact during_return fun _ _ joined => by cases joined

theorem onOpenWrite_safe (manager : SyncManager) (rounds : Nat) (before : Before manager.instanceId path start s) :
    (failing manager.instanceId path).Safe (Ended manager.instanceId path start)
      (manager.onOpenWrite (F := F) rounds path) s := by
  unfold onOpenWrite
  split
  · exact during_return fun _ _ e fails => by cases fails
  refine (joinHeld_safe rounds before).bind fun joined t free => ?_
  cases joined with
  | true => exact during_return fun _ _ e fails => by cases fails
  | false =>
    obtain ⟨before, missing⟩ := free rfl
    simp only [Bool.false_eq_true, if_false]
    refine (acquire_safe _ _ before).bind fun result u took => ?_
    rcases result with e | acquired
    · exact before_return took fun _ before e _ => .inl before
    · exact pinLease_safe missing took

/-- A failed open leaves no trace, unless it has drained a queued upload of the path. -/
theorem failed_open_traceless {manager : SyncManager} {rounds : Nat} {e : SyncError} {last : Node F}
    (ran : Ran Faulty (rivals manager.instanceId path) (manager.onOpenWrite rounds path) start (.error e) last)
    (single : last.log.countP failed ≤ 1) (released : ∀ moment ∈ last.log, failsRelease path moment = false)
    (readable : (∃ moment ∈ last.log, losesRecord path moment = true) → Readable manager.instanceId path) :
    NoTrace manager.instanceId path start last.state ↔ ¬ Drained path start last.log := by
  have before : Before manager.instanceId path start (⟨start, []⟩ : Node F) :=
    ⟨rfl, fun _ recorded => .inl recorded, fun _ member => by cases member⟩
  have ended := (onOpenWrite_safe manager rounds before).exec (ran.during (tolerable_throughout single released readable))
  rcases ended e rfl with before | after
  · refine iff_of_true ⟨?_, ?_, fun body recorded => (before.records body recorded).resolve_right id⟩ fun ⟨_, moment, member, asks⟩ => ?_
    · rw [before.manager]
    · rw [before.manager]
    · rw [before.log moment member] at asks
      cases asks
  · constructor
    · rintro untouched ⟨queued, -⟩
      rw [← untouched.queue, after.queue] at queued
      simp at queued
    · intro spared
      have unqueued : SyncOperation.upload path ∉ start.manager.outboundQueue := fun queued => spared ⟨queued, after.asked⟩
      refine ⟨after.queue.trans (List.filter_eq_self.mpr fun op member => decide_eq_true ?_), after.leases, after.records⟩
      rintro rfl
      exact unqueued member

end

/-! ### Concrete runs -/

section
open scoped ContentEtags

def sampleManager : SyncManager := Sample.manager .batch Sample.first

def loaded (calls : List (Call MemFs)) : ClusterConfig Unit MemFs :=
  Sample.after (fun _ => sampleManager) [] ((.flushOutbound :: calls).map fun call => ((), call))

/-- One request is lost, the one after so many operations. -/
def losingAfter (count : Nat) : List ((Snapshot MemFs → Snapshot MemFs) × Turn) :=
  List.replicate count plainly ++ (id, { fault := .unsent (.write "files/a" "timeout") }) :: List.replicate 8 plainly

theorem losingAfter_faulty (count : Nat) : ∀ turn ∈ losingAfter count,
    (∀ s : Snapshot MemFs, (rivals sampleManager.instanceId "/a").moves s (turn.1 s)) ∧ Faulty turn.2 := by
  intro turn listed
  have plain (many : Nat) : ∀ turn ∈ List.replicate many (plainly (F := MemFs)),
      (∀ s : Snapshot MemFs, (rivals sampleManager.instanceId "/a").moves s (turn.1 s)) ∧ Faulty turn.2 :=
    quiet_turns rfl
  simp only [losingAfter, List.mem_append, List.mem_cons] at listed
  rcases listed with early | rfl | late
  · exact plain _ turn early
  · exact ⟨(rivals _ _).refl, rfl⟩
  · exact plain _ turn late

def timeout : SyncError := .s3 (.write "files/a" "timeout")

/-- One request failed, none of them a release, and no record was taken for lost. -/
def tolerable (log : Log MemFs) : Bool :=
  decide (log.countP failed ≤ 1) && log.all fun moment => !failsRelease "/a" moment && !losesRecord "/a" moment

theorem tolerable_iff {log : Log MemFs} : tolerable log = true ↔ log.countP failed ≤ 1 ∧
    ∀ moment ∈ log, failsRelease "/a" moment = false ∧ losesRecord "/a" moment = false := by
  simp [tolerable]

/-- Nothing is queued, and the HEAD of the refresh times out. -/
theorem failed_open_traceless_sample : ∃ last,
    Ran Faulty (rivals sampleManager.instanceId "/a") (sampleManager.onOpenWrite 1 "/a")
      ((loaded []).shared.view ()).state (.error timeout) last ∧
    NoTrace sampleManager.instanceId "/a" ((loaded []).shared.view ()).state last.state := by
  obtain ⟨value, last, ran, checked⟩ := solo_returned (sampleManager.onOpenWrite 1 "/a") ((loaded []).shared.view ()).state
    (fun value last => decide (value = .error timeout) && tolerable last.log) (losingAfter_faulty 8) (by decide +kernel)
  rw [Bool.and_eq_true, decide_eq_true_eq, tolerable_iff] at checked
  obtain ⟨rfl, single, each⟩ := checked
  refine ⟨last, ran, (failed_open_traceless ran single (fun moment member => (each moment member).1) ?_).mpr ?_⟩
  · rintro ⟨moment, member, lost⟩
    rw [(each moment member).2] at lost
    cases lost
  · rintro ⟨queued, -⟩
    exact absurd queued (by decide +kernel)

/-- An instance that has written a file without a lease: its upload is queued. -/
def pending : Snapshot MemFs := ((loaded [.write "/a" (MemFs.writeLocal "/a" [1])]).shared.view ()).state

/-- The PUT of the open times out, and the queued upload is gone. -/
theorem failed_open_drains :
    instances.Reachable (clusterRules (fun _ => sampleManager) Truthful (fun _ _ => True) fun _ _ => False)
      (Sample.cluster []) (loaded [.write "/a" (MemFs.writeLocal "/a" [1])]) ∧
    ∃ last, Ran Faulty (rivals sampleManager.instanceId "/a") (sampleManager.onOpenWrite 1 "/a") pending
        (.error timeout) last ∧ timeout.isConflict = false ∧ last.log.countP failed ≤ 1 ∧
      (∀ moment ∈ last.log, failsRelease "/a" moment = false ∧ losesRecord "/a" moment = false) ∧
      ¬ NoTrace sampleManager.instanceId "/a" pending last.state := by
  refine ⟨Sample.after_reachable _ _ _, ?_⟩
  obtain ⟨value, last, ran, checked⟩ := solo_returned (sampleManager.onOpenWrite 1 "/a") pending
    (fun value last => decide (value = .error timeout) &&
      tolerable last.log && last.state.manager.outboundQueue.isEmpty)
    (losingAfter_faulty 12) (by decide +kernel)
  rw [Bool.and_eq_true, Bool.and_eq_true, decide_eq_true_eq, tolerable_iff, List.isEmpty_iff] at checked
  obtain ⟨⟨rfl, single, each⟩, empty⟩ := checked
  refine ⟨last, ran, rfl, single, each, fun untouched => ?_⟩
  have queued : pending.manager.outboundQueue = [.upload "/a"] := by decide +kernel
  rw [untouched.queue, queued] at empty
  cases empty

end

end MonakaFs.Sync.FailedOpen
