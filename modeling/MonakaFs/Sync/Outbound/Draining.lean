import MonakaFs.Async.Ending
import MonakaFs.Sync.Config
import MonakaFs.Sync.Outbound.Flush

/-! A forced flush comes to an end.

Each round takes at least one operation from the queue, and what it puts back it
reports, which ends the loop. A round of no operations does neither.
-/

set_option autoImplicit false

namespace MonakaFs.Sync.Outbound

open Async FsCore SyncManager

section
variable {F : Type} (manager : SyncManager) (path : String)

theorem unbroken_next {A : Type} (op : Op F) (k : op.Reply → Task F A) :
    (next op k).Unbroken ↔ ∀ reply : op.Reply, (k reply).Unbroken := Iff.rfl

theorem verifyUploadLanded_unbroken (cond : Precondition) : (verifyUploadLanded (F := F) path cond).Unbroken := by
  simp only [verifyUploadLanded, headFile_bind, unbroken_next]
  intro reply
  split <;> trivial

theorem putFile_unbroken (data : Bytes) (cond : Precondition) : (putFile (F := F) path data cond).Unbroken := fun _ => trivial

theorem passthroughChecks_unbroken : (manager.passthroughChecks (F := F) path).Unbroken := by
  unfold passthroughChecks
  split
  · exact fun _ _ _ => trivial
  · trivial

theorem putUpload_unbroken (data : Bytes) (cond : Precondition) : (putUpload (F := F) path data cond).Unbroken := by
  simp only [putUpload, putFile_bind, unbroken_next]
  intro reply
  split
  · trivial
  · split
    · exact putFile_unbroken path data _
    · split
      · simp only [headFile_bind, unbroken_next]
        intro found
        split
        · trivial
        · trivial
        · exact putFile_unbroken path data _
      · split
        · apply (verifyUploadLanded_unbroken path cond).bind
          intro landed
          cases landed <;> trivial
        · trivial

theorem uploadWithCond_unbroken (cond : Precondition) : (manager.uploadWithCond (F := F) path cond).Unbroken := by
  simp only [uploadWithCond, onFs_bind, unbroken_next]
  intro read
  rcases (read : Except S3Error Bytes) with e | content
  · trivial
  simp only [unbroken_next]
  intro modified
  apply (passthroughChecks_unbroken manager path).bind
  rintro (e | _)
  · trivial
  apply (putUpload_unbroken path content cond).bind
  rintro (e | etag)
  · trivial
  · exact fun _ _ _ => trivial

theorem condForUpload_unbroken : (condForUpload (F := F) path).Unbroken := by
  simp only [condForUpload, withLeases_bind, unbroken_next]
  intro leases
  split
  · trivial
  · exact fun _ => trivial

theorem refreshLocalFromRemote_unbroken : (refreshLocalFromRemote (F := F) path).Unbroken := by
  simp only [refreshLocalFromRemote, getFile_bind, unbroken_next]
  intro found
  split
  · simp only [storeDownload, onFs_bind, Prog.call_bind, unbroken_next]
    intro written
    rcases (written : Except S3Error Unit) with e | _
    · trivial
    · exact fun _ _ => trivial
  · exact fun _ _ => trivial
  · trivial

theorem conflict_unbroken : (conflict (F := F) path).Unbroken :=
  (refreshLocalFromRemote_unbroken path).bind fun _ => trivial

theorem handleUploadConflict_unbroken : (manager.handleUploadConflict (F := F) path).Unbroken := by
  unfold handleUploadConflict
  split
  · exact (uploadWithCond_unbroken manager path _).bind fun result => by cases result <;> trivial
  · exact (conflict_unbroken path).bind fun _ => trivial

theorem flushDelete_unbroken (etag : Option String) : (manager.flushDelete (F := F) path etag).Unbroken := by
  simp only [flushDelete, deleteFile_bind, unbroken_next]
  intro deleted
  split
  · trivial
  · split
    · split
      · exact (refreshLocalFromRemote_unbroken path).bind fun _ => trivial
      · exact fun _ => trivial
    · split
      · exact fun _ => trivial
      · trivial

end

/-! ### How a forced flush ends -/

section
variable [EtagScheme] {F : Type}

/-- Nothing is queued by others. They may take operations and change anything else. -/
def unqueueing : Surroundings F where
  moves s t := t.manager.outboundQueue.Sublist s.manager.outboundQueue
  refl _ := .refl _
  trans first second := second.trans first

variable [FsBackend F] {A : Type} {manager : SyncManager} {path : String} {n : Nat}

/-- Requests end with success or any error, with or without effect. -/
abbrev draining : Contract (syncSignature F) (Node F) := runs (fun _ => True) unqueueing

/-- What the flush does besides its operations. -/
def Op.Bookkeeping : Op F → Prop
  | .queue change => change = id ∨ change = List.tail
  | .now | .schedule _ => True
  | _ => False

/-- Operations were flushed, and none of them failed. -/
inductive Unfailing (manager : SyncManager) (s : Node F) : Node F → Prop where
  | start : Unfailing manager s s
  | waits {t u : Node F} : Unfailing manager s t → draining.rely t u → Unfailing manager s u
  | aside {op : Op F} {reply : op.Reply} {t u : Node F} : Op.Bookkeeping op → Unfailing manager s t →
      draining.effect op t reply u → Unfailing manager s u
  | uploaded {path : String} {counted : Bool} {t u : Node F} : Unfailing manager s t →
      draining.Exec (manager.flushUpload path) t (.ok counted) u → Unfailing manager s u
  | deleted {path : String} {etag : Option String} {t u : Node F} : Unfailing manager s t →
      draining.Exec (manager.flushDelete path etag) t () u → Unfailing manager s u

/-- The queue is empty, or the upload that failed first was the last one tried. -/
def Drained (manager : SyncManager) (s : Node F) (result : Except SyncError Nat) (t : Node F) : Prop :=
  match result with
  | .ok _ => t.state.manager.outboundQueue = []
  | .error e => ∃ path u, Unfailing manager s u ∧ draining.Exec (manager.flushUpload path) u (.error e) t

/-- At most so many operations are queued. -/
def Few (n : Nat) (s : Node F) : Prop := s.state.manager.outboundQueue.length ≤ n

omit [FsBackend F] in
theorem Few.moves {s t : Node F} (few : Few n s) (moves : t.log = s.log ∧ unqueueing.moves s.state t.state) : Few n t :=
  moves.2.length_le.trans few

omit [FsBackend F] in
theorem stays_empty {s t : Node F} (empty : s.state.manager.outboundQueue = [])
    (moves : t.log = s.log ∧ unqueueing.moves s.state t.state) : t.state.manager.outboundQueue = [] := by
  have left : t.state.manager.outboundQueue.Sublist s.state.manager.outboundQueue := moves.2
  rw [empty] at left
  exact List.sublist_nil.mp left

theorem moving_few {task : Task F A} {s : Node F} (moving : Moving True path task) (unbroken : task.Unbroken) (few : Few n s) :
    draining.Ends (fun _ t => Few n t) task s := by
  have keeps : (draining (F := F)).Keeps (Few n) (Op.Transfers True path) := by
    refine ⟨fun few moves => few.moves moves, fun _ => trivial, fun transfers few effect => ⟨trivial, ?_⟩⟩
    obtain ⟨⟨turn, -, -, served⟩, -⟩ := node_effect effect
    rw [Few, served]
    cases transfers <;> exact few
  exact (keeps.safe moving few).ends unbroken

/-- An upload that does not fail puts nothing back. -/
theorem flushUpload_few {s : Node F} (few : Few n s) :
    draining.Ends (fun result t => ∀ counted, result = .ok counted → Few n t) (manager.flushUpload path) s := by
  unfold flushUpload
  split
  · exact fun t moves _ _ => few.moves moves
  have reads : Moving (F := F) True path (isLocked path) := ⟨.readLeases, fun _ => trivial⟩
  refine (moving_few reads (fun _ => trivial) few).bind fun locked t few => ?_
  split
  · exact fun u moves _ _ => few.moves moves
  refine (moving_few (condForUpload_moving path) (condForUpload_unbroken path) few).bind fun cond u few => ?_
  refine (moving_few (uploadWithCond_moving manager path cond) (uploadWithCond_unbroken manager path cond) few).bind
    fun result v few => ?_
  -- After a failure nothing is said about the queue.
  have putBack (e : SyncError) (w : Node F) :
      draining.Ends (fun result t => ∀ counted, result = .ok counted → Few n t) (do
        requeue path
        return (.error e : Except SyncError Bool)) w := fun _ _ _ _ _ _ _ _ same => by cases same
  rcases result with e | etag
  · dsimp only
    split
    · refine (moving_few (handleUploadConflict_moving manager path) (handleUploadConflict_unbroken manager path) few).bind
        fun settled w few => ?_
      rcases settled with e | _
      · dsimp only
        split
        · exact fun x moves _ _ => few.moves moves
        · exact putBack e w
      · exact fun x moves _ _ => few.moves moves
    · exact putBack e v
  · exact fun w moves _ _ => few.moves moves

/-- What a flush that goes on has done, and what is left to do. -/
def Going (manager : SyncManager) (start : Node F) (n : Nat) (result : Except SyncError Nat) (t : Node F) : Prop :=
  match result with
  | .ok _ => Unfailing manager start t ∧ Few n t
  | .error e => ∃ path u, Unfailing manager start u ∧ draining.Exec (manager.flushUpload path) u (.error e) t

variable {start s : Node F}

theorem return_going {processed : Nat} (going : Unfailing manager start s) (few : Few n s) :
    draining.Ends (Going manager start n) (.done (.ok processed) : Task F (Except SyncError Nat)) s :=
  fun _ moves => ⟨going.waits moves, few.moves moves⟩

theorem book_next (op : Op F) {k : op.Reply → Task F A} {post : A → Node F → Prop} (books : Op.Bookkeeping op)
    (going : Unfailing manager start s) (few : Few n s)
    (rest : ∀ reply u, Unfailing manager start u → Few n u → draining.Ends post (k reply) u) :
    draining.Ends post (next op k) s := by
  intro t moves reply u effect
  refine rest reply u (.aside books (going.waits moves) effect) ?_
  obtain ⟨⟨turn, -, -, served⟩, -⟩ := node_effect effect
  have few := few.moves moves
  rw [Few, served]
  cases op with
  | queue change =>
    obtain rfl | rfl := books
    · exact few
    · exact (List.tail_sublist _).length_le.trans few
  | now | schedule => exact few
  | request | cache | leases | wake | jitter | fs | arrange | app => exact books.elim

/-- Taking an operation leaves fewer, or there was none. -/
theorem take_next {k : List SyncOperation → Task F A} {post : A → Node F → Prop} (going : Unfailing manager start s) (few : Few n s)
    (rest : ∀ queue u, Unfailing manager start u → Few (n - 1) u → draining.Ends post (k queue) u) :
    draining.Ends post (next (.queue List.tail) k) s := by
  intro t moves reply u effect
  have books : Op.Bookkeeping (F := F) (.queue List.tail) := .inr rfl
  refine rest reply u (.aside books (going.waits moves) effect) ?_
  obtain ⟨⟨turn, -, -, served⟩, -⟩ := node_effect effect
  have few := few.moves moves
  simp only [Few, served, Snapshot.act, List.length_tail] at few ⊢
  omega

/-- A look at the queue tells what is in it. -/
theorem look_next {k : List SyncOperation → Task F A} {post : A → Node F → Prop} (going : Unfailing manager start s) (few : Few n s)
    (rest : ∀ u, Unfailing manager start u → Few n u → draining.Ends post (k u.state.manager.outboundQueue) u) :
    draining.Ends post (next (.queue id) k) s := by
  intro t moves reply u effect
  have books : Op.Bookkeeping (F := F) (.queue id) := .inl rfl
  obtain ⟨⟨turn, -, answer, served⟩, -⟩ := node_effect effect
  obtain rfl : reply = u.state.manager.outboundQueue := by rw [served]; exact answer
  refine rest u (.aside books (going.waits moves) effect) ?_
  rw [Few, served]
  exact few.moves moves

/-- A flush that may take an operation, and is given one, leaves fewer. -/
theorem flushLoop_going (batch processed : Nat) (going : Unfailing manager start s) (few : Few n s) :
    draining.Ends (Going manager start (if batch = 0 then n else n - 1)) (manager.flushLoop batch processed) s := by
  have finish {s : Node F} {n : Nat} (processed : Nat) (going : Unfailing manager start s) (few : Few n s) :
      draining.Ends (Going manager start n) (do
        let now ← instant
        let _ ← withSchedule fun schedule => { schedule with lastFlush := now }
        return .ok processed) s := by
    refine book_next .now trivial going few fun now t going few => ?_
    exact book_next (.schedule _) trivial going few fun _ u going few => return_going going few
  have fewer (batch n : Nat) (result : Except SyncError Nat) (t : Node F)
      (going : Going manager start (if batch = 0 then n else n - 1) result t) : Going manager start n result t := by
    rcases result with e | count
    · exact going
    · refine ⟨going.1, going.2.trans ?_⟩
      split <;> omega
  -- The induction is on the batch. Each round takes an operation from the queue.
  induction batch generalizing processed s n with
  | zero => exact finish processed going few
  | succ batch ih =>
    simp only [flushLoop, withQueue_bind, Nat.add_eq_zero_iff, one_ne_zero, and_false, if_false]
    refine take_next going few fun queue t going few => ?_
    split
    · exact finish processed going few
    · next path _ =>
      refine (flushUpload_few few).reached.bind ?_
      rintro result u ⟨ran, few⟩
      rcases result with e | counted
      · exact fun v moves => ⟨path, t, going, ran.later moves⟩
      · exact (ih _ (going.uploaded ran) (few counted rfl)).weaken (fewer batch (n - 1))
    · next path etag _ =>
      refine (moving_few (flushDelete_moving manager path etag) (flushDelete_unbroken manager path etag) few).reached.bind ?_
      rintro _ u ⟨ran, few⟩
      exact (ih _ (going.deleted ran) few).weaken (fewer batch (n - 1))

/-- With room for an operation in each round there are as many rounds as operations. -/
theorem forceFlush_ends (room : manager.config.outboundBatchSize ≠ 0 ∨ n = 0) (rounds : Nat) (enough : n < rounds)
    (going : Unfailing manager start s) (few : Few n s) : draining.Ends (Drained manager start) (manager.forceFlush rounds) s := by
  induction rounds generalizing s n with
  | zero => omega
  | succ rounds ih =>
    simp only [forceFlush, withQueue_bind]
    refine look_next going few fun u going few => ?_
    split
    · next empty =>
      intro v moves
      exact stays_empty (List.isEmpty_iff.mp empty) moves
    · next some =>
      have positive : 0 < u.state.manager.outboundQueue.length := List.length_pos_iff.mpr fun none => some (by simp [none])
      have bound : u.state.manager.outboundQueue.length ≤ n := few
      have room : manager.config.outboundBatchSize ≠ 0 := room.resolve_right fun none => by omega
      refine (flushLoop_going _ 0 going few).bind fun result v outcome => ?_
      rw [if_neg room] at outcome
      rcases result with e | count
      · obtain ⟨path, w, going, ran⟩ := outcome
        exact fun x moves => ⟨path, w, going, ran.later moves⟩
      · refine (ih (n := n - 1) (.inl room) (by omega) outcome.1 outcome.2).bind fun rest w drained => ?_
        intro x moves
        rcases rest with e | more
        · obtain ⟨path, y, going, ran⟩ := drained
          exact ⟨path, y, going, ran.later moves⟩
        · exact stays_empty drained moves

/-- One answer, with nothing around the operation. -/
theorem ends_once {op : Op F} {k : op.Reply → Task F A} {post : A → Node F → Prop} (ends : draining.Ends post (next op k) s) :
    ∃ u : Node F, u.state = (s.state.act {} op).2 ∧ draining.Ends post (k (s.state.act {} op).1) u :=
  ⟨_, rfl, ends s (draining.rely_refl s) _ _ ⟨{}, trivial, rfl⟩⟩

/-- Rounds of no operations leave the queue as it is. -/
theorem forceFlush_goes_on (none : manager.config.outboundBatchSize = 0) (rounds : Nat) {post : Except SyncError Nat → Node F → Prop}
    (queued : s.state.manager.outboundQueue ≠ []) : ¬ draining.Ends post (manager.forceFlush rounds) s := by
  induction rounds generalizing s post with
  | zero => exact id
  | succ rounds ih =>
    intro ends
    simp only [forceFlush, withQueue_bind] at ends
    obtain ⟨t, looked, ends⟩ := ends_once ends
    simp only [Snapshot.act, List.isEmpty_iff, queued, if_false, flushOutbound, none, flushLoop, instant_bind,
      withSchedule_bind, Prog.call_bind] at ends
    obtain ⟨u, timed, ends⟩ := ends_once ends
    obtain ⟨v, flushed, ends⟩ := ends_once ends
    have same : v.state.manager.outboundQueue = s.state.manager.outboundQueue := by
      rw [flushed, Snapshot.act, timed, Snapshot.act, looked, Snapshot.act]
      rfl
    exact ih (same ▸ queued) (Contract.Ends.of_bind ends)

/-- For every environment and every queue: a forced flush ends, with an empty queue or the
first error, exactly if the configured batch size is not zero or the queue is empty. -/
theorem force_flush_ends [Target] (id : InstanceId) (lookup : String → Option String) (start : Snapshot F) :
    (∃ rounds, draining.Ends (Drained ⟨id, .fromLookup lookup⟩ ⟨start, []⟩)
        (SyncManager.forceFlush ⟨id, .fromLookup lookup⟩ rounds) ⟨start, []⟩) ↔
      parseUsize (lookup "VFS_OUTBOUND_BATCH_SIZE") 10 ≠ 0 ∨ start.manager.outboundQueue = [] := by
  constructor
  · rintro ⟨rounds, ends⟩
    by_contra neither
    simp only [not_or, not_not] at neither
    exact forceFlush_goes_on neither.1 rounds neither.2 ends
  · intro room
    refine ⟨start.manager.outboundQueue.length + 1, forceFlush_ends (room.imp_right fun empty => ?_) _ (Nat.lt_succ_self _) .start (Nat.le_refl _)⟩
    rw [empty, List.length_nil]

end

/-! ### A batch size of zero -/

open scoped ContentEtags

/-- Zero is a number, so it is taken as the batch size, and the flush goes round for ever. -/
theorem zero_batch_goes_on : let _ : Target := ⟨64⟩
    let manager : SyncManager := ⟨Sample.first, .fromLookup fun name => if name = "VFS_OUTBOUND_BATCH_SIZE" then some "0" else none⟩
    ¬ ∃ rounds, draining.Ends (Drained manager ⟨sampleStart [.upload "/a"], []⟩) (manager.forceFlush rounds)
      ⟨sampleStart [.upload "/a"], []⟩ := by
  intro target manager
  rintro ⟨rounds, ends⟩
  have none : manager.config.outboundBatchSize = 0 := by decide
  exact forceFlush_goes_on none rounds (by decide) ends

end MonakaFs.Sync.Outbound
