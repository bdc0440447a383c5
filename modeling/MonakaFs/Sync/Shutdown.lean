import MonakaFs.Async.Ending
import MonakaFs.Sync.Outbound.Flush

/-! What is in the store when the background thread has stopped.

At the end the thread flushes the queue and then releases every lease, and logs the
errors of both. The release goes on after an error. The flush does not: what is
queued behind an upload that fails is not tried any more.
-/

set_option autoImplicit false

namespace MonakaFs.Sync.Shutdown

open Async SyncManager Outbound

/-- The last things the background thread does. -/
def finalFlush {F : Type} (manager : SyncManager) (rounds : Nat) : Task F Unit := do
  let _ ← manager.forceFlush rounds
  let _ ← manager.releaseAllLeases
  return ()

section
variable [EtagScheme] {F A : Type} [FsBackend F]

/-- The instance is left alone, and its operations meet a condition. -/
abbrev stopping (fine : Entry F → Prop) (admits : Turn → Prop) : Contract (syncSignature F) (Node F) :=
  during (fun _ => fine) admits bystanders

/-- How the operations of each path always turn out on their own. -/
structure Outcomes where
  uploads : String → Prop
  /-- The upload reports an error. Where a newer remote version wins it does neither. -/
  fails : String → Prop
  deletes : String → Prop

/-- Whatever is done turns out as assigned. Of a delete that does not succeed nothing is known. -/
structure Assigned (fine : Entry F → Prop) (admits : Turn → Prop) (manager : SyncManager) (outcomes : Outcomes) : Prop where
  upload {path : String} {s t : Node F} {result : Except SyncError Bool} :
    (stopping fine admits).Exec (manager.flushUpload path) s result t → s.state.manager.leases.lookup path = none →
      (outcomes.uploads path → Since s.log (Applied (.upload path)) t) ∧ ((∃ e, result = .error e) ↔ outcomes.fails path)
  delete {path : String} {etag : Option String} {s t : Node F} :
    (stopping fine admits).Exec (manager.flushDelete path etag) s () t → outcomes.deletes path → Since s.log (Applied (.delete path etag)) t
  leased {path : String} {lease : WriteLease} {s t : Node F} {result : Except SyncError Unit} :
    (stopping fine admits).Exec (manager.flushLease path lease) s result t → lease.dirty = true → lease.pendingDelete = false →
      outcomes.uploads path → Since s.log (Applied (.upload path)) t
  apart (path : String) : outcomes.uploads path → ¬ outcomes.fails path

/-- The operation would succeed on its own. -/
def Succeeds (outcomes : Outcomes) : SyncOperation → Prop
  | .upload path => outcomes.uploads path
  | .delete path _ => outcomes.deletes path

/-- The flush stops at this operation. Uploads of leased paths are skipped. -/
def Blocks (start : Snapshot F) (outcomes : Outcomes) : SyncOperation → Prop
  | .upload path => start.manager.leases.lookup path = none ∧ outcomes.fails path
  | .delete .. => False

/-- The flush gets to an operation behind these, or the release of a lease does its work. -/
def Reached (start : Snapshot F) (outcomes : Outcomes) (front : List SyncOperation) : SyncOperation → Prop
  | .upload path =>
      match start.manager.leases.lookup path with
      | none => ∀ other ∈ front, ¬ Blocks start outcomes other
      | some lease => lease.dirty = true ∧ lease.pendingDelete = false ∧
          ∀ etag, SyncOperation.delete path etag ∉ start.manager.outboundQueue
  | .delete .. => ∀ other ∈ front, ¬ Blocks start outcomes other

/-- Everything that would succeed is reached. -/
def Unblocked (start : Snapshot F) (outcomes : Outcomes) : Prop :=
  ∀ front op back, start.manager.outboundQueue = front ++ op :: back → Succeeds outcomes op → Reached start outcomes front op

/-- No two queued operations, and no queued operation and no lease, are about one key. -/
def Apart (start : Snapshot F) : Prop :=
  (start.manager.outboundQueue.map fun op => fileKey op.path).Nodup ∧
    ∀ op ∈ start.manager.outboundQueue, ∀ path, start.manager.leases.lookup path ≠ none → fileKey path ≠ fileKey op.path

/-! ### What one operation leaves alone -/

/-- Neither a request nor a call into the filesystem. -/
def Op.Inner : Op F → Prop
  | .request _ | .fs _ => False
  | _ => True

/-- What belongs to the work on a path. -/
def Belongs (path : String) (op : Op F) : Prop := op.Transfers True path ∨ Op.Inner op

/-- The entries of other paths stay as they are, and no entry comes or goes. -/
structure Aside (path : String) (s t : Node F) : Prop where
  lease : ∀ other, other ≠ path → t.state.manager.leases.lookup other = s.state.manager.leases.lookup other
  present : ∀ other, t.state.manager.leases.lookup other = none ↔ s.state.manager.leases.lookup other = none
  log : Since s.log (fun extra => ∀ moment ∈ extra, Belongs path moment.op) t

variable {fine : Entry F → Prop} {admits : Turn → Prop} {manager : SyncManager} {outcomes : Outcomes}
  {path : String} {s t u : Node F}

omit [FsBackend F] in
theorem Aside.moves (path : String) (moves : t.log = s.log ∧ bystanders.moves s.state t.state) : Aside path s t := by
  have same : t.state.manager = s.state.manager := moves.2.1
  exact ⟨fun other _ => by rw [same], fun other => by rw [same], [], moves.1, fun _ member => (by cases member)⟩

omit [FsBackend F] in
theorem Aside.trans (first : Aside path s t) (second : Aside path t u) : Aside path s u := by
  refine ⟨fun other apart => (second.lease other apart).trans (first.lease other apart),
    fun other => (second.present other).trans (first.present other), ?_⟩
  obtain ⟨older, logged, each⟩ := first.log
  obtain ⟨newer, logged', each'⟩ := second.log
  refine ⟨newer ++ older, by rw [logged', logged, List.append_assoc], fun moment member => ?_⟩
  exact (List.mem_append.mp member).elim (each' moment) (each moment)

/-- One operation that belongs to the path. -/
theorem Aside.step {op : Op F} {reply : op.Reply} (aside : Aside path s t) (belongs : Belongs path op)
    (leases : ∀ turn other, (other ≠ path →
        (t.state.act turn op).2.manager.leases.lookup other = t.state.manager.leases.lookup other) ∧
      ((t.state.act turn op).2.manager.leases.lookup other = none ↔ t.state.manager.leases.lookup other = none))
    (effect : (stopping fine admits).effect op t reply u) : Aside path s u := by
  obtain ⟨⟨turn, -, -, served⟩, logged⟩ := node_effect effect.1
  refine aside.trans ⟨fun other apart => ?_, fun other => ?_, [_], logged, fun moment member => ?_⟩
  · rw [served]
    exact (leases turn other).1 apart
  · rw [served]
    exact (leases turn other).2
  · rw [List.mem_singleton.mp member]
    exact belongs

theorem transfers_leases {op : Op F} (transfers : op.Transfers True path) (state : Snapshot F) (turn : Turn) (other : String) :
    (other ≠ path → (state.act turn op).2.manager.leases.lookup other = state.manager.leases.lookup other) ∧
      ((state.act turn op).2.manager.leases.lookup other = none ↔ state.manager.leases.lookup other = none) := by
  cases transfers with
  | pin | unpin =>
    simp only [Snapshot.act, Map.lookup_alter]
    by_cases same : other = path
    · subst same
      simp
    · simp [same]
  | look | put | delete | readCache | forget | uploaded | downloaded | readLeases | now | read | stat | write =>
    exact ⟨fun _ => rfl, Iff.rfl⟩

theorem moving_aside {task : Task F A} (moving : Moving True path task) (s : Node F) :
    (stopping fine admits).Safe
      (fun _ t => Aside path s t ∧ t.state.manager.outboundQueue = s.state.manager.outboundQueue) task s := by
  have keeps : (stopping fine admits).Keeps
      (fun t => Aside path s t ∧ t.state.manager.outboundQueue = s.state.manager.outboundQueue) (Op.Transfers True path) := by
    refine ⟨fun {t u} kept moves => ⟨kept.1.trans (.moves path moves), ?_⟩, fun _ => trivial,
      fun {op t reply u} transfers kept effect => ⟨trivial, ?_⟩⟩
    · rw [show u.state.manager = t.state.manager from moves.2.1]
      exact kept.2
    · refine ⟨kept.1.step (.inl transfers) (transfers_leases transfers t.state) effect, ?_⟩
      obtain ⟨⟨turn, -, -, served⟩, -⟩ := node_effect effect.1
      rw [served]
      cases transfers <;> exact kept.2
  exact keeps.safe moving ⟨.moves path ⟨rfl, rfl, rfl⟩, rfl⟩

theorem stop_return {value : A} {post : A → Node F → Prop} (holds : ∀ t, bystanders.moves s.state t → post value ⟨t, s.log⟩) :
    (stopping fine admits).Safe post (.done value) s := during_return holds

/-- The upload of a path that is not leased. It puts something back only if it fails. -/
theorem flushUpload_aside (batch : manager.config.mode ≠ .realTime) (s : Node F) :
    (stopping fine admits).Safe (fun result t => Aside path s t ∧
      ∀ counted, result = .ok counted → t.state.manager.outboundQueue = s.state.manager.outboundQueue)
      (manager.flushUpload path) s := by
  -- Where it returns without putting back, the queue is as it was.
  have kept {t : Node F} {result : Except SyncError Bool}
      (still : Aside path s t ∧ t.state.manager.outboundQueue = s.state.manager.outboundQueue) :
      (stopping fine admits).Safe (fun result t => Aside path s t ∧
        ∀ counted, result = .ok counted → t.state.manager.outboundQueue = s.state.manager.outboundQueue) (.done result) t := by
    refine stop_return fun u moves => ⟨still.1.trans (.moves path ⟨rfl, moves⟩), fun _ _ => ?_⟩
    rw [show u.manager = t.state.manager from moves.1]
    exact still.2
  -- An upload that failed is put back. That is the only way the queue changes.
  have putBack (e : SyncError) {t : Node F} (aside : Aside path s t) :
      (stopping fine admits).Safe (fun result t => Aside path s t ∧
        ∀ counted, result = .ok counted → t.state.manager.outboundQueue = s.state.manager.outboundQueue) (do
          requeue path
          return (.error e : Except SyncError Bool)) t := by
    intro u moves
    refine ⟨trivial, fun reply v effect => ⟨trivial, fun w moves' => ⟨?_, fun _ same => by cases same⟩⟩⟩
    have inner : Belongs (F := F) path (.queue fun queue => queue ++ [.upload path]) := .inr trivial
    have there := (aside.trans (.moves path moves)).step inner (fun _ _ => ⟨fun _ => rfl, Iff.rfl⟩) effect
    exact there.trans (.moves path moves')
  have reads : Moving (F := F) True path (isLocked path) := ⟨.readLeases, fun _ => trivial⟩
  simp only [flushUpload, batch, if_false]
  refine (moving_aside reads s).bind fun locked t still => ?_
  split
  · exact kept still
  have further {u v : Node F} (first : Aside path s u ∧ u.state.manager.outboundQueue = s.state.manager.outboundQueue)
      (second : Aside path u v ∧ v.state.manager.outboundQueue = u.state.manager.outboundQueue) :
      Aside path s v ∧ v.state.manager.outboundQueue = s.state.manager.outboundQueue :=
    ⟨first.1.trans second.1, second.2.trans first.2⟩
  refine (moving_aside (condForUpload_moving path) t).bind fun cond u still' => ?_
  refine (moving_aside (uploadWithCond_moving manager path cond) u).bind fun result v still'' => ?_
  have still := further (further still still') still''
  rcases result with e | etag
  · dsimp only
    split
    · refine (moving_aside (handleUploadConflict_moving manager path) v).bind fun settled w last => ?_
      have still := further still last
      rcases settled with e | _
      · dsimp only
        split
        · exact kept still
        · exact putBack e still.1
      · exact kept still
    · exact putBack e still.1
  · exact kept still

/-! ### The flush -/

/-- What the operations so far have achieved, and what they have touched. -/
structure Worked (start : Snapshot F) (outcomes : Outcomes) (done touched : List SyncOperation) (t : Node F) : Prop where
  applied : ∀ op ∈ done, Succeeds outcomes op →
    (∀ path, op = .upload path → start.manager.leases.lookup path = none) → Applied op t.log
  lease : ∀ path, (∀ etag, SyncOperation.delete path etag ∉ done) →
    t.state.manager.leases.lookup path = start.manager.leases.lookup path
  present : ∀ path, t.state.manager.leases.lookup path = none ↔ start.manager.leases.lookup path = none
  log : ∀ moment ∈ t.log, Op.Inner moment.op ∨ ∃ op ∈ touched, moment.op.Transfers True op.path

/-- Between two operations. -/
structure Between (start : Snapshot F) (outcomes : Outcomes) (done : List SyncOperation) (t : Node F) : Prop where
  queue : start.manager.outboundQueue = done ++ t.state.manager.outboundQueue
  passed : ∀ op ∈ done, ¬ Blocks start outcomes op
  worked : Worked start outcomes done done t

/-- Everything was tried up to the first operation that stops the flush. -/
def Halted (start : Snapshot F) (outcomes : Outcomes) (t : Node F) : Prop :=
  ∃ done rest, start.manager.outboundQueue = done ++ rest ∧ (∀ op ∈ done, ¬ Blocks start outcomes op) ∧
    (∀ op, rest.head? = some op → Blocks start outcomes op) ∧ Worked start outcomes done (done ++ rest.take 1) t

variable {start : Snapshot F} {done touched : List SyncOperation} {op : SyncOperation}

omit [FsBackend F] in
theorem Worked.moves (worked : Worked start outcomes done touched s) (moves : t.log = s.log ∧ bystanders.moves s.state t.state) :
    Worked start outcomes done touched t := by
  have same : t.state.manager = s.state.manager := moves.2.1
  refine ⟨?_, ?_, ?_, ?_⟩
  · rw [moves.1]
    exact worked.applied
  · rw [same]
    exact worked.lease
  · rw [same]
    exact worked.present
  · rw [moves.1]
    exact worked.log

omit [FsBackend F] in
/-- One more operation, that belongs to its path. -/
theorem Worked.extend (worked : Worked start outcomes done done s) (aside : Aside op.path s t)
    (applied : Succeeds outcomes op → (∀ path, op = .upload path → start.manager.leases.lookup path = none) → Applied op t.log)
    (lease : ∀ path, op = .upload path → t.state.manager.leases.lookup path = s.state.manager.leases.lookup path) :
    Worked start outcomes (done ++ [op]) (done ++ [op]) t := by
  obtain ⟨extra, logged, each⟩ := aside.log
  refine ⟨fun other member succeeds free => ?_, fun path kept => ?_, fun path => (aside.present path).trans (worked.present path),
    fun moment member => ?_⟩
  · rcases List.mem_append.mp member with earlier | last
    · rw [logged]
      exact (worked.applied other earlier succeeds free).mono (List.subset_append_right ..)
    · rw [List.mem_singleton.mp last] at succeeds free ⊢
      exact applied succeeds free
  · refine Eq.trans ?_ (worked.lease path fun etag member => kept etag (List.mem_append_left _ member))
    cases op with
    | upload name =>
      by_cases same : path = name
      · exact lease path (same ▸ rfl)
      · exact aside.lease path same
    | delete name etag =>
      refine aside.lease path fun same => ?_
      subst same
      exact kept etag (by simp)
  · rw [logged] at member
    rcases List.mem_append.mp member with newer | older
    · exact (each moment newer).symm.imp_right fun transfers => ⟨op, by simp, transfers⟩
    · rcases worked.log moment older with inner | ⟨other, among, transfers⟩
      · exact .inl inner
      · exact .inr ⟨other, List.mem_append_left _ among, transfers⟩

omit [FsBackend F] in
/-- An operation outside the store and the filesystem, that leaves the leases alone. -/
theorem Worked.note {moment : Entry F} {v : Snapshot F} (worked : Worked start outcomes done touched s)
    (kind : Op.Inner moment.op) (leases : v.manager.leases = s.state.manager.leases) :
    Worked start outcomes done touched ⟨v, moment :: s.log⟩ := by
  refine ⟨fun op member succeeds free => ?_, fun path kept => ?_, fun path => ?_, fun later member => ?_⟩
  · exact (worked.applied op member succeeds free).mono (List.subset_cons_self ..)
  · rw [leases]
    exact worked.lease path kept
  · rw [leases]
    exact worked.present path
  · rcases List.mem_cons.mp member with rfl | older
    · exact .inl kind
    · exact worked.log later older

theorem inner_next {inner : Op F} {k : inner.Reply → Task F A} {post : A → Node F → Prop} (kind : Op.Inner inner)
    (between : Between start outcomes done s)
    (still : ∀ turn (t : Snapshot F), (t.act turn inner).2.manager.outboundQueue = t.manager.outboundQueue ∧
      (t.act turn inner).2.manager.leases = t.manager.leases)
    (rest : ∀ reply u, Between start outcomes done u → (stopping fine admits).Safe post (k reply) u) :
    (stopping fine admits).Safe post (next inner k) s := by
  refine during_next fun t reply u moves served _ => rest reply _ ?_
  obtain ⟨turn, -, -, rfl⟩ := served
  have same : t.manager = s.state.manager := moves.1
  refine ⟨?_, between.passed, between.worked.note kind ?_⟩
  · rw [(still turn t).1, same]
    exact between.queue
  · rw [(still turn t).2, same]

/-- What one operation leaves behind, by its result. -/
def Upto {A : Type} (start : Snapshot F) (outcomes : Outcomes) (done : List SyncOperation) (result : Except SyncError A) (t : Node F) : Prop :=
  match result with
  | .ok _ => Between start outcomes done t
  | .error _ => Halted start outcomes t

/-- What a flush leaves behind, by its result. -/
def Flushed (start : Snapshot F) (outcomes : Outcomes) (result : Except SyncError Nat) (t : Node F) : Prop :=
  match result with
  | .ok _ => ∃ done, Between start outcomes done t
  | .error _ => Halted start outcomes t

/-- One upload. A leased one is skipped, another one succeeds or stops the flush. -/
theorem flushUpload_between (batch : manager.config.mode ≠ .realTime) (assigned : Assigned fine admits manager outcomes)
    (popped : start.manager.outboundQueue = done ++ .upload path :: s.state.manager.outboundQueue)
    (passed : ∀ op ∈ done, ¬ Blocks start outcomes op) (worked : Worked start outcomes done done s) :
    (stopping fine admits).Safe (Upto start outcomes (done ++ [.upload path])) (manager.flushUpload path) s := by
  have passes (goes : ¬ Blocks start outcomes (.upload path)) (op : SyncOperation) (member : op ∈ done ++ [.upload path]) :
      ¬ Blocks start outcomes op := by
    rcases List.mem_append.mp member with earlier | last
    · exact passed op earlier
    · rw [List.mem_singleton.mp last]
      exact goes
  -- Only a path that is not leased is uploaded. What has a lease is passed over.
  by_cases free : start.manager.leases.lookup path = none
  · have here : s.state.manager.leases.lookup path = none := (worked.present path).mpr free
    refine (flushUpload_aside batch s).reached.weaken ?_
    rintro result t ⟨ran, aside, queue⟩
    have absent (name : String) (same : SyncOperation.upload path = .upload name) :
        t.state.manager.leases.lookup name = s.state.manager.leases.lookup name := by
      cases same
      rw [here]
      exact (aside.present path).mpr here
    have fate := assigned.upload ran here
    have last : Worked start outcomes (done ++ [.upload path]) (done ++ [.upload path]) t := by
      refine worked.extend aside (fun goes _ => ?_) absent
      obtain ⟨extra, logged, applied⟩ := fate.1 goes
      rw [logged]
      exact applied.mono (List.subset_append_left ..)
    rcases result with e | counted
    -- A failed upload ends the flush at this operation.
    · refine ⟨done, _, popped, passed, fun op first => ?_, ?_, ?_, last.present, last.log⟩
      · cases first
        exact ⟨free, fate.2.mp ⟨e, rfl⟩⟩
      · exact fun op member => last.applied op (List.mem_append_left _ member)
      · exact fun other kept => last.lease other (by simpa using kept)
    · have fine' : ¬ outcomes.fails path := fun fails => by
        obtain ⟨e, same⟩ := fate.2.mpr fails
        cases same
      refine ⟨?_, passes fun blocks => fine' blocks.2, last⟩
      rw [popped, queue counted rfl, List.append_assoc]
      rfl
  -- The lease was there at the start already.
  · simp only [flushUpload, batch, if_false, isLocked_bind]
    refine during_next fun t reply u moves served _ => ?_
    obtain ⟨turn, -, answer, rfl⟩ := served
    have leased : (AList.lookup path (reply : LeaseTable)).isSome = true := by
      rw [answer, Snapshot.act, show t.manager = s.state.manager from moves.1, Option.isSome_iff_ne_none]
      exact fun none => free ((worked.present path).mp none)
    rw [if_pos leased]
    refine stop_return fun v moves' => ?_
    have same : v.manager = s.state.manager := moves'.1.trans moves.1
    have aside : Aside path s (⟨v, ⟨.leases id, reply, t, (t.act turn (.leases id)).2⟩ :: s.log⟩ : Node F) := by
      refine ⟨fun other _ => by rw [same], fun other => by rw [same], [_], rfl, fun moment member => ?_⟩
      rw [List.mem_singleton.mp member]
      exact .inl .readLeases
    refine ⟨?_, passes fun blocks => free blocks.1, worked.extend aside (fun _ skipped => absurd (skipped path rfl) free) ?_⟩
    · rw [popped, same, List.append_assoc]
      rfl
    · intro name _
      rw [same]

/-- Deletes stop nothing. -/
theorem flushDelete_between {etag : Option String} (assigned : Assigned fine admits manager outcomes)
    (popped : start.manager.outboundQueue = done ++ .delete path etag :: s.state.manager.outboundQueue)
    (passed : ∀ op ∈ done, ¬ Blocks start outcomes op) (worked : Worked start outcomes done done s) :
    (stopping fine admits).Safe (fun _ t => Between start outcomes (done ++ [.delete path etag]) t)
      (manager.flushDelete path etag) s := by
  refine (moving_aside (flushDelete_moving manager path etag) s).reached.weaken ?_
  rintro _ t ⟨ran, aside, queue⟩
  refine ⟨?_, fun op member => ?_, worked.extend aside (fun goes _ => ?_) fun _ same => by cases same⟩
  · rw [popped, queue, List.append_assoc]
    rfl
  · rcases List.mem_append.mp member with earlier | last
    · exact passed op earlier
    · rw [List.mem_singleton.mp last]
      exact id
  · obtain ⟨extra, logged, applied⟩ := assigned.delete ran goes
    rw [logged]
    exact applied.mono (List.subset_append_left ..)

theorem flushLoop_flushed (batch : manager.config.mode ≠ .realTime) (assigned : Assigned fine admits manager outcomes)
    (rounds processed : Nat) (between : Between start outcomes done s) :
    (stopping fine admits).Safe (Flushed start outcomes) (manager.flushLoop rounds processed) s := by
  -- However the loop ends, it notes the time and returns.
  have finish {s : Node F} {done : List SyncOperation} (processed : Nat) (between : Between start outcomes done s) :
      (stopping fine admits).Safe (Flushed start outcomes) (do
        let now ← instant
        let _ ← withSchedule fun schedule => { schedule with lastFlush := now }
        return .ok processed) s := by
    refine inner_next trivial between (fun _ _ => ⟨rfl, rfl⟩) fun now t between => ?_
    refine inner_next trivial between (fun _ _ => ⟨rfl, rfl⟩) fun _ u between => ?_
    refine stop_return fun v moves => ⟨_, ?_, between.passed, between.worked.moves ⟨rfl, moves⟩⟩
    rw [show v.manager = u.state.manager from moves.1]
    exact between.queue
  -- The induction is on the rounds. What has been done moves from the queue to the front.
  induction rounds generalizing processed s done with
  | zero => exact finish processed between
  | succ rounds ih =>
    simp only [flushLoop, withQueue_bind]
    refine during_next fun t reply u moves served _ => ?_
    obtain ⟨turn, -, rfl, rfl⟩ := served
    have same : t.manager = s.state.manager := moves.1
    have queued : start.manager.outboundQueue = done ++ t.manager.outboundQueue := by
      rw [same]
      exact between.queue
    have worked : Worked start outcomes done done (⟨(t.act turn (.queue List.tail)).2,
        ⟨.queue List.tail, (t.act turn (.queue List.tail)).1, t, (t.act turn (.queue List.tail)).2⟩ :: s.log⟩ : Node F) :=
      between.worked.note trivial (by rw [← same]; rfl)
    simp only [Snapshot.act] at worked ⊢
    cases front : t.manager.outboundQueue with
    | nil =>
      rw [front] at queued worked
      exact finish processed ⟨queued, between.passed, worked⟩
    | cons op rest =>
      rw [front] at queued worked
      cases op with
      | upload path =>
        refine (flushUpload_between batch assigned queued between.passed worked).bind fun result v outcome => ?_
        rcases result with e | counted
        · obtain ⟨done', rest', split, passed, stops, worked⟩ := outcome
          exact stop_return fun w moves => ⟨done', rest', split, passed, stops, worked.moves ⟨rfl, moves⟩⟩
        · exact ih _ outcome
      | delete path etag =>
        exact (flushDelete_between assigned queued between.passed worked).bind fun _ v between => ih _ between

/-- However it ends, everything was tried up to the first operation that stops the flush. -/
theorem forceFlush_halted (batch : manager.config.mode ≠ .realTime) (assigned : Assigned fine admits manager outcomes)
    (rounds : Nat) (between : Between start outcomes done s) :
    (stopping fine admits).Safe (fun _ t => Halted start outcomes t) (manager.forceFlush rounds) s := by
  have still {u v : Node F} (halted : Halted start outcomes u) (moves : v.log = u.log ∧ bystanders.moves u.state v.state) :
      Halted start outcomes v := by
    obtain ⟨done, rest, split, passed, stops, worked⟩ := halted
    exact ⟨done, rest, split, passed, stops, worked.moves moves⟩
  induction rounds generalizing s done with
  | zero => exact fun _ _ => trivial
  | succ rounds ih =>
    simp only [forceFlush, withQueue_bind]
    refine during_next fun t reply u moves served _ => ?_
    obtain ⟨turn, -, rfl, rfl⟩ := served
    have same : t.manager = s.state.manager := moves.1
    have between : Between start outcomes done
        (⟨(t.act turn (.queue id)).2, ⟨.queue id, (t.act turn (.queue id)).1, t, (t.act turn (.queue id)).2⟩ :: s.log⟩ : Node F) := by
      refine ⟨?_, between.passed, between.worked.note trivial (by rw [← same]; rfl)⟩
      rw [between.queue, ← same]
      rfl
    split
    · next empty =>
      have none : t.manager.outboundQueue = [] := List.isEmpty_iff.mp empty
      have halted : Halted start outcomes
          (⟨(t.act turn (.queue id)).2, ⟨.queue id, (t.act turn (.queue id)).1, t, (t.act turn (.queue id)).2⟩ :: s.log⟩ : Node F) := by
        refine ⟨done, [], ?_, between.passed, fun _ same => (by cases same), ?_⟩
        · rw [between.queue, ← none]
          rfl
        · rw [List.take_nil, List.append_nil]
          exact between.worked
      exact stop_return fun v moves => still halted ⟨rfl, moves⟩
    · refine (flushLoop_flushed batch assigned _ 0 between).bind fun result v outcome => ?_
      rcases result with e | count
      · exact stop_return fun w moves => still outcome ⟨rfl, moves⟩
      · obtain ⟨done', between⟩ := outcome
        exact (ih between).bind fun rest w halted => stop_return fun x moves => still halted ⟨rfl, moves⟩

/-! ### The release of the leases -/

/-- The record only grows. -/
theorem keeps_record (task : Task F A) (s : Node F) :
    (stopping fine admits).Safe (fun _ t => s.log ⊆ t.log) task s := by
  suffices grows : ∀ t : Node F, s.log ⊆ t.log → (stopping fine admits).Safe (fun _ t => s.log ⊆ t.log) task t from grows s (.refl _)
  induction task with
  | done value =>
    intro t within u moves
    rw [show u.log = t.log from moves.1]
    exact within
  | halt => exact fun _ _ _ _ => trivial
  | call op next ih =>
    intro t within u moves
    refine ⟨trivial, fun reply v effect => ⟨trivial, ih reply v ?_⟩⟩
    rw [(node_effect effect.1).2, moves.1]
    exact List.Subset.trans within (List.subset_cons_self ..)

/-- The lease of the path has a change to push. -/
def Dirty (path : String) (state : Snapshot F) : Prop :=
  ∃ lease, state.manager.leases.lookup path = some lease ∧ lease.dirty = true ∧ lease.pendingDelete = false

variable {name : String} {snapshot : WriteLease}

theorem finishRelease_pushes (assigned : Assigned fine admits manager outcomes) (goes : outcomes.uploads path)
    (due : (path = name ∧ snapshot.dirty = true ∧ snapshot.pendingDelete = false) ∨ (path ≠ name ∧ Dirty path s.state)) :
    (stopping fine admits).Safe (fun _ t => Applied (.upload path) t.log ∨ (path ≠ name ∧ Dirty path t.state))
      (manager.finishRelease name snapshot) s := by
  unfold finishRelease
  refine (moving_aside (flushLease_moving manager name snapshot) s).reached.bind ?_
  rintro result t ⟨ran, aside, -⟩
  have flushed : Applied (.upload path) t.log ∨ (path ≠ name ∧ Dirty path t.state) := by
    rcases due with ⟨rfl, dirty, kept⟩ | ⟨other, lease, held, marks⟩
    · obtain ⟨newer, logged', applied⟩ := assigned.leased ran dirty kept goes
      rw [logged']
      exact .inl (applied.mono (List.subset_append_left ..))
    · exact .inr ⟨other, lease, (aside.lease path other).trans held, marks⟩
  simp only [release, deleteObject_bind, withLeases_bind, Prog.call_bind]
  refine during_next fun u reply v moves served _ => ?_
  obtain ⟨turn, -, -, rfl⟩ := served
  refine during_next fun w reply' x moves' served' _ => ?_
  obtain ⟨turn', -, -, rfl⟩ := served'
  refine stop_return fun y moves'' => ?_
  have first : u.manager = t.state.manager := moves.1
  have second : w.manager = u.manager := moves'.1
  have third : y.manager = { w.manager with leases := w.manager.leases.erase name } := moves''.1
  have erased : y.manager.leases = t.state.manager.leases.erase name := by rw [third, second, first]
  rcases flushed with applied | ⟨other, lease, held, marks⟩
  · exact .inl (applied.mono (List.Subset.trans (List.subset_cons_self ..) (List.subset_cons_self ..)))
  · refine .inr ⟨other, lease, ?_, marks⟩
    rw [erased, Map.lookup_erase_eq, if_neg other]
    exact held

theorem releaseLeases_pushes (assigned : Assigned fine admits manager outcomes) (goes : outcomes.uploads path) (paths : List String)
    (firstError : Option SyncError) (due : Applied (.upload path) s.log ∨ (path ∈ paths ∧ Dirty path s.state)) :
    (stopping fine admits).Safe (fun _ t => Applied (.upload path) t.log) (manager.releaseLeases paths firstError) s := by
  -- The induction is on the leases. The path may be the next one, and is pushed then.
  rcases due with applied | due
  · exact (keeps_record _ s).weaken fun _ _ within => applied.mono within
  induction paths generalizing s firstError with
  | nil => cases due.1
  | cons name rest ih =>
    obtain ⟨member, lease, held, marks⟩ := due
    simp only [releaseLeases, beginRelease, withLeases_bind, Prog.call_bind, Prog.pure_eq, Prog.done_bind]
    refine during_next fun t reply u moves served _ => ?_
    obtain ⟨turn, -, answer, rfl⟩ := served
    have same : t.manager = s.state.manager := moves.1
    obtain rfl : reply = s.state.manager.leases := by rw [← same]; exact answer
    have others (other : path ≠ name) : Dirty path
        (t.act turn (.leases (·.alter name fun lease => { lease with releasing := true }))).2 := by
      refine ⟨lease, ?_, marks⟩
      rw [Snapshot.act, same, Map.lookup_alter, if_neg other]
      exact held
    cases found : AList.lookup name s.state.manager.leases with
    | none =>
      have other : path ≠ name := fun same => by
        rw [same, found] at held
        cases held
      exact ih firstError ⟨(List.mem_cons.mp member).resolve_left other, others other⟩
    | some entry =>
      refine (finishRelease_pushes assigned goes ?_).bind fun result v outcome => ?_
      · by_cases same : path = name
        · rw [same, found] at held
          cases held
          exact .inl ⟨same, marks⟩
        · exact .inr ⟨same, others same⟩
      · have onward (firstError : Option SyncError) :
            (stopping fine admits).Safe (fun _ t => Applied (.upload path) t.log) (manager.releaseLeases rest firstError) v := by
          rcases outcome with applied | ⟨other, dirty⟩
          -- An error of another path does not stop the loop.
          · exact (keeps_record _ v).weaken fun _ _ within => applied.mono within
          · exact ih firstError ⟨(List.mem_cons.mp member).resolve_left other, dirty⟩
        cases result <;> exact onward _

theorem releaseAllLeases_pushes (assigned : Assigned fine admits manager outcomes) (goes : outcomes.uploads path)
    (dirty : Dirty path s.state) :
    (stopping fine admits).Safe (fun _ t => Applied (.upload path) t.log) manager.releaseAllLeases s := by
  obtain ⟨lease, held, marks⟩ := dirty
  simp only [releaseAllLeases, withLeases_bind, arrange_bind]
  refine during_next fun t reply u moves served _ => ?_
  obtain ⟨turn, -, answer, rfl⟩ := served
  have same : t.manager = s.state.manager := moves.1
  obtain rfl : reply = s.state.manager.leases := by rw [← same]; exact answer
  refine during_next fun v paths w moves' served' _ => ?_
  obtain ⟨turn', -, rfl, walked⟩ := served'
  refine releaseLeases_pushes assigned goes _ none (.inr ⟨?_, lease, ?_, marks⟩)
  · exact (turn'.walk _).mem_iff.mpr (AList.mem_keys.mpr (AList.lookup_isSome.mp (by rw [held]; rfl)))
  · have first : w.manager = t.manager := by
      rw [walked]
      exact moves'.1
    rw [first, same]
    exact held

/-! ### What is never touched -/

/-- An operation on one of these paths, or on a lock object, or on neither store nor filesystem. -/
def Within (paths : String → Prop) (op : Op F) : Prop :=
  Op.Inner op ∨ (∃ path cond, op = .request (.delete (lockKey path) cond)) ∨ ∃ path, paths path ∧ op.Transfers True path

/-- Only these paths were worked on, and only they are leased. -/
structure Confined (paths : String → Prop) (t : Node F) : Prop where
  log : ∀ moment ∈ t.log, Within paths moment.op
  leased : ∀ path, t.state.manager.leases.lookup path ≠ none → paths path

variable {paths : String → Prop}

omit [FsBackend F] in
theorem Confined.moves (confined : Confined paths s) (moves : t.log = s.log ∧ bystanders.moves s.state t.state) : Confined paths t := by
  have same : t.state.manager = s.state.manager := moves.2.1
  exact ⟨by rw [moves.1]; exact confined.log, by rw [same]; exact confined.leased⟩

theorem confined_return {value : A} (confined : Confined paths s) :
    (stopping fine admits).Safe (fun _ t => Confined paths t) (.done value) s :=
  stop_return fun _ moves => confined.moves ⟨rfl, moves⟩

/-- One operation that brings no lease. -/
theorem confined_next {inner : Op F} {k : inner.Reply → Task F A} {post : A → Node F → Prop} (confined : Confined paths s)
    (within : Within paths inner)
    (leases : ∀ turn (t : Snapshot F) path, (t.act turn inner).2.manager.leases.lookup path ≠ none → t.manager.leases.lookup path ≠ none)
    (rest : ∀ turn (t : Snapshot F) u, t.manager = s.state.manager → Confined paths u →
      (stopping fine admits).Safe post (k (t.act turn inner).1) u) :
    (stopping fine admits).Safe post (next inner k) s := by
  refine during_next fun t reply u moves served _ => ?_
  obtain ⟨turn, -, rfl, rfl⟩ := served
  have same : t.manager = s.state.manager := moves.1
  refine rest turn t _ same ⟨fun moment member => ?_, fun path leased => ?_⟩
  · rcases List.mem_cons.mp member with rfl | older
    · exact within
    · exact confined.log moment older
  · refine confined.leased path ?_
    rw [← same]
    exact leases turn t path leased

theorem finishRelease_confined (confined : Confined paths s) (here : paths name) :
    (stopping fine admits).Safe (fun _ t => Confined paths t) (manager.finishRelease name snapshot) s := by
  unfold finishRelease
  refine (moving_aside (flushLease_moving manager name snapshot) s).bind ?_
  rintro result t ⟨aside, -⟩
  have confined : Confined paths t := by
    obtain ⟨extra, logged, each⟩ := aside.log
    refine ⟨fun moment member => ?_, fun path leased => confined.leased path fun none => leased ((aside.present path).mpr none)⟩
    rw [logged] at member
    rcases List.mem_append.mp member with newer | older
    · exact (each moment newer).symm.imp_right fun transfers => .inr ⟨name, here, transfers⟩
    · exact confined.log moment older
  simp only [release, deleteObject_bind, withLeases_bind, Prog.call_bind]
  refine confined_next confined (.inr (.inl ⟨name, _, rfl⟩)) (fun _ _ _ => id) fun _ _ u _ confined => ?_
  refine confined_next confined (.inl trivial) (fun turn v path leased => ?_) fun _ _ v _ confined => confined_return confined
  rw [Snapshot.act, Map.lookup_erase_eq] at leased
  split at leased
  · exact absurd rfl leased
  · exact leased

theorem releaseLeases_confined (names : List String) (firstError : Option SyncError) (confined : Confined paths s) :
    (stopping fine admits).Safe (fun _ t => Confined paths t) (manager.releaseLeases names firstError) s := by
  induction names generalizing s firstError with
  | nil => cases firstError <;> exact confined_return confined
  | cons name rest ih =>
    simp only [releaseLeases, beginRelease, withLeases_bind, Prog.call_bind, Prog.pure_eq, Prog.done_bind]
    refine confined_next confined (.inl trivial) (fun turn t path leased => ?_) fun turn t u same known => ?_
    · rw [Snapshot.act, Map.lookup_alter] at leased
      split at leased
      · next equal =>
        subst equal
        exact fun none => leased (by rw [none]; rfl)
      · exact leased
    · simp only [Snapshot.act, same]
      cases found : AList.lookup name s.state.manager.leases with
      | none => exact ih firstError known
      | some lease =>
        have here : paths name := confined.leased name (by rw [found]; exact Option.some_ne_none lease)
        refine (finishRelease_confined known here).bind fun result v confined => ?_
        cases result <;> exact ih _ confined

theorem releaseAllLeases_confined (confined : Confined paths s) :
    (stopping fine admits).Safe (fun _ t => Confined paths t) manager.releaseAllLeases s := by
  simp only [releaseAllLeases, withLeases_bind, arrange_bind]
  refine confined_next confined (.inl trivial) (fun _ _ _ => id) fun turn t u _ confined => ?_
  exact confined_next confined (.inl trivial) (fun _ _ _ => id) fun _ _ v _ confined => releaseLeases_confined _ none confined

omit [FsBackend F] in
theorem readOf_op {moment : Entry F} {body : Bytes} (found : Upload.readOf path moment = some body) :
    moment.op = .fs (.readFileContent path) := by
  unfold Upload.readOf at found
  split at found
  · split at found
    · next same => rw [same]
    · cases found
  · cases found

omit [EtagScheme] [FsBackend F] in
theorem transfers_delete {key : String} {cond : Precondition} (transfers : Op.Transfers (F := F) True path (.request (.delete key cond))) :
    key = fileKey path := by
  cases transfers with
  | look reads => cases reads
  | delete _ => rfl

omit [FsBackend F] in
/-- What happens to other objects applies no operation. -/
theorem Confined.unapplied (confined : Confined paths t) (apart : ∀ path, paths path → fileKey path ≠ fileKey op.path) :
    ¬ Applied op t.log := by
  intro applied
  cases op with
  | upload path =>
    obtain ⟨body, ⟨read, member, found⟩, -⟩ := applied
    have within := confined.log read member
    rw [readOf_op found] at within
    obtain inner | ⟨name, cond, lock⟩ | ⟨name, among, transfers⟩ := within
    · exact inner
    · cases lock
    · cases transfers
      exact apart path among rfl
  | delete path etag =>
    obtain ⟨moment, member, ⟨cond, about⟩, -⟩ := applied
    have within := confined.log moment member
    rw [about] at within
    obtain inner | ⟨name, cond', lock⟩ | ⟨name, among, transfers⟩ := within
    · exact inner
    · exact fileKey_ne_lockKey path name (Request.delete.inj (Op.request.inj lock)).1
    · exact apart name among (transfers_delete transfers).symm

/-! ### The whole -/

omit [EtagScheme] [FsBackend F] in
/-- An operation behind passable ones is among those that were tried. -/
theorem tried {stops : SyncOperation → Prop} {front back rest : List SyncOperation} (split : done ++ rest = front ++ op :: back)
    (first : ∀ head, rest.head? = some head → stops head) (passable : ∀ other ∈ front, ¬ stops other) (passes : ¬ stops op) :
    op ∈ done := by
  rcases List.append_eq_append_iff.mp split with ⟨middle, rfl, rfl⟩ | ⟨middle, rfl, tail⟩
  · cases middle with
    | nil => exact absurd (first op rfl) passes
    | cons head others => exact absurd (first head rfl) (passable head (by simp))
  · cases middle with
    | nil =>
      have here : rest.head? = some op := by rw [show rest = op :: back from tail.symm]; rfl
      exact absurd (first op here) passes
    | cons head others =>
      rw [List.cons_append] at tail
      rw [(List.cons.inj tail).1]
      simp

omit [EtagScheme] [FsBackend F] in
/-- An operation behind one that stops the flush is behind everything that was tried. -/
theorem untried {stops : SyncOperation → Prop} {front back rest : List SyncOperation} {other : SyncOperation}
    (split : done ++ rest = front ++ op :: back) (passed : ∀ op ∈ done, ¬ stops op) (member : other ∈ front) (blocks : stops other) :
    ∃ head middle, front = done ++ head :: middle ∧ rest = head :: middle ++ op :: back := by
  rcases List.append_eq_append_iff.mp split with ⟨middle, rfl, rfl⟩ | ⟨middle, rfl, tail⟩
  · cases middle with
    | nil => exact absurd blocks (passed other (by simpa using member))
    | cons head others => exact ⟨head, others, rfl, rfl⟩
  · exact absurd blocks (passed other (List.mem_append_left _ member))

theorem finalFlush_halted (batch : manager.config.mode = .batch) (assigned : Assigned fine admits manager outcomes) (rounds : Nat)
    {post : Node F → Prop}
    (rest : ∀ t, Halted start outcomes t → (stopping fine admits).Safe (fun _ u => post u) manager.releaseAllLeases t)
    (stable : ∀ t u : Node F, t.log = u.log → post u → post t) :
    (stopping fine admits).Safe (fun _ t => post t) (finalFlush manager rounds) ⟨start, []⟩ := by
  have batch : manager.config.mode ≠ .realTime := by simp [batch]
  have beginning : Between start outcomes [] (⟨start, []⟩ : Node F) :=
    ⟨rfl, fun _ member => (by cases member), fun _ member => (by cases member), fun _ _ => rfl, fun _ => Iff.rfl,
      fun _ member => (by cases member)⟩
  refine (forceFlush_halted batch assigned rounds beginning).bind fun result t halted => ?_
  exact (rest t halted).bind fun _ u holds => stop_return fun v _ => stable ⟨v, u.log⟩ u rfl holds

/-- What is reached is applied: by the flush, or by the release of its lease. -/
theorem reached_applied (batch : manager.config.mode = .batch) (assigned : Assigned fine admits manager outcomes) (rounds : Nat)
    {front back : List SyncOperation} (split : start.manager.outboundQueue = front ++ op :: back) (goes : Succeeds outcomes op)
    (reached : Reached start outcomes front op) :
    (stopping fine admits).Safe (fun _ t => Applied op t.log) (finalFlush manager rounds) ⟨start, []⟩ := by
  refine finalFlush_halted batch assigned rounds (fun t halted => ?_) fun t u same applied => by rw [same]; exact applied
  obtain ⟨done, rest, queue, passed, stops, worked⟩ := halted
  have flushed (passable : ∀ other ∈ front, ¬ Blocks start outcomes other) (passes : ¬ Blocks start outcomes op)
      (free : ∀ path, op = .upload path → start.manager.leases.lookup path = none) :
      (stopping fine admits).Safe (fun _ t => Applied op t.log) manager.releaseAllLeases t := by
    have applied := worked.applied op (tried (queue.symm.trans split) stops passable passes) goes free
    exact (keeps_record _ t).weaken fun _ _ within => applied.mono within
  cases op with
  | delete path etag => exact flushed reached id fun _ same => (by cases same)
  | upload path =>
    simp only [Reached] at reached
    cases found : AList.lookup path start.manager.leases with
    | none =>
      rw [found] at reached
      refine flushed reached (fun blocks => assigned.apart path goes blocks.2) fun name same => ?_
      cases same
      exact found
    | some lease =>
      rw [found] at reached
      obtain ⟨dirty, kept, undeleted⟩ := reached
      refine releaseAllLeases_pushes assigned goes ⟨lease, ?_, dirty, kept⟩
      rw [worked.lease path fun etag member => undeleted etag (by rw [queue]; exact List.mem_append_left _ member)]
      exact found

/-- What is behind the operation that stops the flush is not applied. -/
theorem stopped_unapplied (batch : manager.config.mode = .batch) (assigned : Assigned fine admits manager outcomes) (rounds : Nat)
    (apart : Apart start) {front back : List SyncOperation} {other : SyncOperation}
    (split : start.manager.outboundQueue = front ++ op :: back) (member : other ∈ front) (blocks : Blocks start outcomes other) :
    (stopping fine admits).Safe (fun _ t => ¬ Applied op t.log) (finalFlush manager rounds) ⟨start, []⟩ := by
  refine finalFlush_halted batch assigned rounds (fun t halted => ?_) fun t u same untouched => by rw [same]; exact untouched
  obtain ⟨done, rest, queue, passed, -, worked⟩ := halted
  obtain ⟨head, middle, rfl, rfl⟩ := untried (queue.symm.trans split) passed member blocks
  have confined : Confined (fun path => (∃ op ∈ done ++ [head], op.path = path) ∨ start.manager.leases.lookup path ≠ none) t := by
    refine ⟨fun moment among => ?_, fun path leased => .inr fun free => leased ((worked.present path).mpr free)⟩
    rcases worked.log moment among with inner | ⟨op, touched, transfers⟩
    · exact .inl inner
    · exact .inr (.inr ⟨op.path, .inl ⟨op, by simpa using touched, rfl⟩, transfers⟩)
  refine (releaseAllLeases_confined confined).weaken fun _ u confined => confined.unapplied fun path among => ?_
  have distinct := apart.1
  rw [split, List.map_append, List.map_cons, List.nodup_append] at distinct
  rcases among with ⟨tried, among, rfl⟩ | leased
  · refine distinct.2.2 _ (List.mem_map_of_mem ?_) _ (List.mem_cons_self ..)
    rcases List.mem_append.mp among with earlier | last
    · exact List.mem_append_left _ earlier
    · rw [List.mem_singleton.mp last]
      simp
  · exact apart.2 op (by rw [split]; simp) path leased

/-- In batch mode, for every queue, every assignment of outcomes and every behaviour of the
store that agrees with it: the shutdown applies each operation that would succeed if no failing
upload is queued ahead of it and its lease, if it has one, does its work. Where no two
operations or leases share a key, it does so only then. -/
theorem shutdown_applies (manager : SyncManager) (start : Snapshot F) (outcomes : Outcomes) (rounds : Nat) (last : Node F)
    (batch : manager.config.mode = .batch) (assigned : Assigned fine admits manager outcomes)
    (ran : (stopping fine admits).Exec (finalFlush manager rounds) ⟨start, []⟩ () last) :
    (Unblocked start outcomes → ∀ op ∈ start.manager.outboundQueue, Succeeds outcomes op → Applied op last.log) ∧
      (Apart start → (∀ op ∈ start.manager.outboundQueue, Succeeds outcomes op → Applied op last.log) → Unblocked start outcomes) := by
  constructor
  · intro unblocked op member goes
    obtain ⟨front, back, split⟩ := List.append_of_mem member
    exact (reached_applied batch assigned rounds split goes (unblocked front op back split goes)).exec ran
  · intro apart all front op back split goes
    have member : op ∈ start.manager.outboundQueue := by
      rw [split]
      simp
    have ahead (other : SyncOperation) (among : other ∈ front) : ¬ Blocks start outcomes other := fun blocks =>
      (stopped_unapplied batch assigned rounds apart split among blocks).exec ran (all op member goes)
    cases op with
    | delete path etag => exact ahead
    | upload path =>
      have free : AList.lookup path start.manager.leases = none := by
        by_contra leased
        exact apart.2 _ member path leased rfl
      simp only [Reached, free]
      exact ahead

end

/-! ### A file that is gone -/

section
open scoped ContentEtags

variable {path : String} {s : Node MemFs}

def sampleOutcomes : Outcomes := ⟨(· ≠ "/gone"), (· = "/gone"), fun _ => True⟩

/-- Requests are answered, and every file but one is there. -/
def obliging : Entry MemFs → Bool
  | ⟨.request r, reply, _, _⟩ => (reply : r.Answer).isOk
  | ⟨.fs (.readFileContent path), reply, _, _⟩ => (reply : Except S3Error Bytes).isOk == (path != "/gone")
  | _ => true

abbrev obligingly : Contract (syncSignature MemFs) (Node MemFs) := stopping (fun moment => obliging moment = true) Faulty

theorem granted {r : Request} {reply : r.Answer} {t u : Snapshot MemFs} (obliges : obliging ⟨.request r, reply, t, u⟩ = true) :
    ∃ value, reply = .ok value := by
  cases reply with
  | error e => cases obliges
  | ok value => exact ⟨value, rfl⟩

/-- An upload is applied, unless its file is the one that is gone. -/
theorem uploadWithCond_obliging (cond : Precondition) :
    obligingly.Safe (fun result t => (path ≠ "/gone" → (∃ etag, result = .ok etag) ∧ Since s.log (Applied (.upload path)) t) ∧
      (path = "/gone" → ∃ e, result = .error e ∧ isRejection e = false)) (sampleManager.uploadWithCond path cond) s := by
  simp only [uploadWithCond, onFs_bind]
  refine during_next fun t reply u _ _ read => ?_
  rcases (reply : Except S3Error Bytes) with e | content
  · have gone : path = "/gone" := by simpa [obliging, Except.isOk, Except.toBool] using read
    exact stop_return fun _ _ => ⟨fun there => absurd gone there, fun _ => ⟨_, rfl, rfl⟩⟩
  have there : path ≠ "/gone" := by simpa [obliging, Except.isOk, Except.toBool] using read
  refine during_next fun v modified w _ _ _ => ?_
  simp only [passthroughChecks, show sampleManager.config.metadataMode ≠ .s3 by decide, if_false, Prog.pure_eq, Prog.done_bind,
    putUpload, putFile_bind, Prog.call_bind]
  refine during_next fun x answer y _ served put => ?_
  obtain ⟨turn, -, answered, rfl⟩ := served
  obtain ⟨etag, rfl⟩ := granted put
  have pushed : Pushes path content ⟨.request (.put (fileKey path) content cond), .ok etag, x, _⟩ :=
    ⟨⟨cond, rfl⟩, effective_of_ok answered rfl rfl⟩
  simp only [recordUpload, instant_bind, withCache_bind, withLeases_bind, Prog.call_bind, Prog.done_bind]
  refine during_next fun _ now _ _ _ _ => ?_
  refine during_next fun _ cache _ _ _ _ => ?_
  refine during_next fun _ leases _ _ _ _ => ?_
  refine stop_return fun _ _ => ⟨fun _ => ⟨⟨etag, rfl⟩, ⟨[_, _, _, _, _, _], rfl, ?_⟩⟩, fun gone => absurd gone there⟩
  exact ⟨content, ⟨_, by simp, Upload.readOf_read path content t u⟩, _, by simp, pushed⟩

theorem flushUpload_obliging (free : s.state.manager.leases.lookup path = none) :
    obligingly.Safe (fun result t => (path ≠ "/gone" → Since s.log (Applied (.upload path)) t) ∧ ((∃ e, result = .error e) ↔ path = "/gone"))
      (sampleManager.flushUpload path) s := by
  simp only [flushUpload, show sampleManager.config.mode ≠ .realTime by decide, if_false, isLocked_bind]
  refine during_next fun t reply u moves served _ => ?_
  obtain ⟨turn, -, answered, rfl⟩ := served
  have unlocked : (AList.lookup path (reply : LeaseTable)).isSome = false := by
    rw [answered, Snapshot.act, show t.manager = s.state.manager from moves.1, Option.isSome_eq_false_iff, Option.isNone_iff_eq_none]
    exact free
  rw [unlocked]
  simp only [Bool.false_eq_true, if_false]
  refine (moving_aside (condForUpload_moving path) _).bind ?_
  rintro cond v ⟨⟨-, -, extra, logged, -⟩, -⟩
  refine (uploadWithCond_obliging cond).bind ?_
  rintro result w ⟨applies, fails⟩
  by_cases gone : path = "/gone"
  · obtain ⟨e, rfl, plain⟩ := fails gone
    simp only [plain, Bool.false_eq_true, if_false, requeue]
    refine during_next fun x queue y _ _ _ => ?_
    exact stop_return fun _ _ => ⟨fun there => absurd gone there, fun _ => gone, fun _ => ⟨e, rfl⟩⟩
  · obtain ⟨⟨etag, rfl⟩, applied⟩ := applies gone
    have before : Since s.log (fun _ => True) v := ⟨extra ++ [_], by rw [logged, List.append_assoc]; rfl, trivial⟩
    have since := before.trans applied fun old new _ applied => applied.mono (List.subset_append_left new old)
    refine stop_return fun _ _ => ⟨fun _ => since, fun failed => ?_, fun there => absurd there gone⟩
    obtain ⟨e, same⟩ := failed
    cases same

theorem flushDelete_obliging (etag : Option String) :
    obligingly.Safe (fun _ t => Since s.log (Applied (.delete path etag)) t) (sampleManager.flushDelete path etag) s := by
  simp only [flushDelete, deleteFile_bind]
  refine during_next fun t reply u _ served deleted => ?_
  obtain ⟨turn, -, answered, rfl⟩ := served
  obtain ⟨value, rfl⟩ := granted deleted
  exact stop_return fun _ _ => ⟨[_], rfl, _, List.mem_cons_self .., ⟨_, rfl⟩, effective_of_ok answered rfl rfl⟩

theorem flushLease_obliging {lease : WriteLease} (dirty : lease.dirty = true) (kept : lease.pendingDelete = false) (there : path ≠ "/gone") :
    obligingly.Safe (fun _ t => Since s.log (Applied (.upload path)) t) (sampleManager.flushLease path lease) s := by
  simp only [flushLease, kept, dirty, Bool.false_eq_true, Bool.true_eq_false, if_false]
  refine (uploadWithCond_obliging _).bind ?_
  rintro result w ⟨applies, -⟩
  obtain ⟨⟨etag, rfl⟩, newer, logged, applied⟩ := applies there
  exact stop_return fun _ _ => ⟨newer, logged, applied⟩

theorem sample_assigned : Assigned (fun moment => obliging moment = true) Faulty sampleManager sampleOutcomes where
  upload ran free := (flushUpload_obliging free).exec ran
  delete ran _ := (flushDelete_obliging _).exec ran
  leased ran dirty kept there := (flushLease_obliging dirty kept there).exec ran
  apart _ there gone := there gone

theorem shutdown_run (queue : List SyncOperation)
    (checked : (solo Faulty (List.replicate 40 plainly) (finalFlush sampleManager 3) (sampleStart queue)).any
      (fun result => result.2.log.all obliging) = true) :
    ∃ last, obligingly.Exec (finalFlush sampleManager 3) ⟨sampleStart queue, []⟩ () last := by
  obtain ⟨value, last, ran, all⟩ := solo_returned (finalFlush sampleManager 3) (sampleStart queue)
    (fun _ last => last.log.all obliging) (plainly_faulty 40) checked
  exact ⟨last, exec_during ran (throughout_of_forall (List.all_eq_true.mp all))⟩

theorem sample_unblocked : Unblocked (sampleStart [.delete "/a" none, .upload "/b", .upload "/gone"]) sampleOutcomes := by
  intro front op back split goes
  have ahead : front <+: [.delete "/a" none, .upload "/b"] := by
    have whole : front <+: [.delete "/a" none, .upload "/b", .upload "/gone"] := ⟨op :: back, split.symm⟩
    refine List.prefix_of_prefix_length_le whole ⟨[.upload "/gone"], rfl⟩ ?_
    have length : 3 = (front ++ op :: back).length := congrArg List.length split
    rw [List.length_append, List.length_cons] at length
    show front.length ≤ 2
    omega
  have passable (other : SyncOperation) (member : other ∈ front) :
      ¬ Blocks (sampleStart [.delete "/a" none, .upload "/b", .upload "/gone"]) sampleOutcomes other := by
    obtain rfl | rfl : other = .delete "/a" none ∨ other = .upload "/b" := by simpa using ahead.subset member
    · exact id
    · exact fun blocks => absurd (show "/b" = "/gone" from blocks.2) (by decide)
  cases op <;> exact passable

/-- What fails is last in the queue. -/
theorem shutdown_applies_sample : ∃ last,
    obligingly.Exec (finalFlush sampleManager 3) ⟨sampleStart [.delete "/a" none, .upload "/b", .upload "/gone"], []⟩ () last ∧
    Applied (.upload "/b") last.log := by
  obtain ⟨last, ran⟩ := shutdown_run [.delete "/a" none, .upload "/b", .upload "/gone"] (by decide +kernel)
  refine ⟨last, ran, (shutdown_applies _ _ _ _ _ rfl sample_assigned ran).1 sample_unblocked (.upload "/b") (by decide) (show "/b" ≠ "/gone" by decide)⟩

/-- What fails is first, and the upload behind it would have succeeded. -/
theorem gone_blocks : ∃ last,
    obligingly.Exec (finalFlush sampleManager 3) ⟨sampleStart [.upload "/gone", .upload "/b"], []⟩ () last ∧
    ¬ ∀ op ∈ (sampleStart [.upload "/gone", .upload "/b"]).manager.outboundQueue, Succeeds sampleOutcomes op → Applied op last.log := by
  obtain ⟨last, ran⟩ := shutdown_run [.upload "/gone", .upload "/b"] (by decide +kernel)
  have apart : Apart (sampleStart [.upload "/gone", .upload "/b"]) := ⟨by decide, fun _ _ _ leased => absurd rfl leased⟩
  have blocks : Blocks (sampleStart [.upload "/gone", .upload "/b"]) sampleOutcomes (.upload "/gone") := ⟨rfl, rfl⟩
  have split : (sampleStart [.upload "/gone", .upload "/b"]).manager.outboundQueue = [.upload "/gone"] ++ .upload "/b" :: [] := rfl
  refine ⟨last, ran, fun all => ?_⟩
  exact (stopped_unapplied rfl sample_assigned 3 apart split (List.mem_singleton.mpr rfl) blocks).exec ran
    (all (.upload "/b") (by decide) (show "/b" ≠ "/gone" by decide))

end
end MonakaFs.Sync.Shutdown
