import MonakaFs.Data.WorkQueue
import MonakaFs.Sync.DataPath
import MonakaFs.Sync.Runs
import MonakaFs.Sync.Tasks

/-! Which change of a path a queued operation stands for.

Threads change local files and queue each change; other threads flush the queue. A
queued change replaces the older ones of its path. An upload that fails goes back
to the end of the queue as it is, whatever was queued for the path in the meantime.
-/

set_option autoImplicit false

namespace MonakaFs.Sync.Intents

open Async SyncManager

abbrev Changes (T : Type) := WorkQueue SyncOperation String T

/-- The state of the instance, and which change each queued operation stands for. -/
structure Journal [EtagScheme] (T F : Type) where
  state : Snapshot F
  work : Changes T

section
variable {T F : Type} [DecidableEq T]

/-- What a section under the queue's lock means: a flush takes the first operation or
puts the one back that it took, everybody else queues a change. -/
def meaning (flushes : T → Bool) (member : T) (before after : List SyncOperation) (work : Changes T) : Changes T :=
  if flushes member then
    if after.length = before.length + 1 then work.putBack member else work.take member
  else
    match after.getLast? with
    | some op => work.ask SyncOperation.path op
    | none => work

variable [EtagScheme]

/-- A flush puts an operation back only if its path was not queued again since it was taken. -/
def Timely (flushes : T → Bool) (member : T) (op : Op F) (s : Journal T F) : Prop :=
  match op with
  | .queue change => flushes member = true →
      (change s.state.manager.outboundQueue).length = s.state.manager.outboundQueue.length + 1 →
        WorkQueue.Timely SyncOperation.path member s.work
  | _ => True

/-- The queue holds one operation of a path at most, and that stands for the newest change. -/
structure NewestWins (s : Journal T F) : Prop where
  queued : s.work.queue.map Prod.fst = s.state.manager.outboundQueue
  unique : (s.state.manager.outboundQueue.map (·.path)).Nodup
  newest : ∀ entry ∈ s.work.queue, entry.2 = s.work.latest entry.1.path

variable [FsBackend F]

def journalMachine (flushes : T → Bool) (member : T) : Machine (syncSignature F) (Journal T F) Turn where
  act turn op s :=
    let answer := s.state.act turn op
    let work := match op with
      | .queue _ => meaning flushes member s.state.manager.outboundQueue answer.2.manager.outboundQueue s.work
      | _ => s.work
    (answer.1, ⟨answer.2, work⟩)
  admits := Faulty

/-- How the threads move. Calls that leave the queue alone may do anything else at any moment. -/
def journalRules (flushes : T → Bool) (manager : SyncManager) :
    Team.Rules T (Journal T F) (Journal T F) (syncSignature F) Unit where
  effect member := (journalMachine flushes member).effect
  starts member _ s p t := t = s ∧
    if flushes member then p = Call.flushOutbound.task manager
    else ∃ path change, p = (Call.write path change).task manager ∨ p = (Call.unlink path change).task manager
  ambient s t := t.work = s.work ∧ t.state.manager.outboundQueue = s.state.manager.outboundQueue

abbrev JournalConfig (T F : Type) := Config T (Journal T F) (syncSignature F) Unit

/-! ### What each thread keeps -/

structure Inv (s : Journal T F) : Prop where
  sound : s.work.Sound SyncOperation.path
  queued : s.work.queue.map Prod.fst = s.state.manager.outboundQueue

omit [DecidableEq T] [FsBackend F] in
theorem Inv.wins {s : Journal T F} (inv : Inv s) : NewestWins s where
  queued := inv.queued
  unique := by
    rw [← inv.queued, List.map_map]
    exact inv.sound.unique
  newest := inv.sound.newest

/-- A thread keeps what it took in its hand. -/
def contract (flushes : T → Bool) (member : T) : Contract (syncSignature F) (Journal T F) where
  effect op s reply t := (journalMachine flushes member).effect op s reply t ∧ Timely flushes member op s
  rely s t := (Inv s → Inv t) ∧ t.work.hand member = s.work.hand member
  rely_refl _ := ⟨fun inv => inv, rfl⟩
  rely_trans first second := ⟨fun inv => second.1 (first.1 inv), second.2.trans first.2⟩
  guarantee _ s _ t := (Inv s → Inv t) ∧ ∀ other, other ≠ member → t.work.hand other = s.work.hand other

/-- An operation outside the queue's lock. -/
def Op.Unqueued : Op F → Prop
  | .queue _ => False
  | _ => True

structure Holding (member : T) (held : Option (SyncOperation × Nat)) (s : Journal T F) : Prop where
  inv : Inv s
  hand : s.work.hand member = held

variable {flushes : T → Bool} {member : T} {held : Option (SyncOperation × Nat)} {s t : Journal T F} {A : Type}
  {manager : SyncManager} {path : String}

omit [DecidableEq T] [FsBackend F] in
theorem Holding.rely (holding : Holding member held s) (moves : (Inv s → Inv t) ∧ t.work.hand member = s.work.hand member) :
    Holding member held t := ⟨moves.1 holding.inv, moves.2.trans holding.hand⟩

theorem unqueued_effect {op : Op F} {reply : op.Reply} (unqueued : Op.Unqueued op)
    (effect : (journalMachine flushes member).effect op s reply t) :
    t.work = s.work ∧ t.state.manager.outboundQueue = s.state.manager.outboundQueue := by
  obtain ⟨turn, -, acted⟩ := effect
  cases acted
  cases op with
  | queue => exact unqueued.elim
  | request | cache | leases | schedule | now | wake | jitter | fs | arrange | app => exact ⟨rfl, rfl⟩

theorem queue_effect {change : List SyncOperation → List SyncOperation} {reply : List SyncOperation}
    (effect : (journalMachine flushes member).effect (.queue change) s reply t) :
    reply = s.state.manager.outboundQueue ∧ t.state.manager.outboundQueue = change reply ∧
      t.work = meaning flushes member reply (change reply) s.work := by
  obtain ⟨turn, -, acted⟩ := effect
  cases acted
  exact ⟨rfl, rfl, rfl⟩

theorem keeps_holding : (contract (F := F) flushes member).Keeps (Holding member held) Op.Unqueued where
  stable holding moves := holding.rely moves
  waits _ := trivial
  step unqueued holding effect := by
    obtain ⟨work, queue⟩ := unqueued_effect unqueued effect.1
    have inv : Inv _ → Inv _ := fun inv => ⟨by rw [work]; exact inv.sound, by rw [work, queue]; exact inv.queued⟩
    exact ⟨⟨inv, fun _ _ => by rw [work]⟩, inv holding.inv, by rw [work]; exact holding.hand⟩

theorem aside_next {op : Op F} (unqueued : Op.Unqueued op) (holding : Holding member held s) {k : op.Reply → Task F A}
    {post : A → Journal T F → Prop}
    (rest : ∀ reply t, Holding member held t → (contract flushes member).Safe post (k reply) t) :
    (contract flushes member).Safe post (next op k) s := by
  refine Contract.safe_call fun t moves => ⟨trivial, fun reply u effect => ?_⟩
  obtain ⟨guarantee, after⟩ := keeps_holding.step unqueued (holding.rely moves) effect
  exact ⟨guarantee, rest reply u after⟩

/-! ### The three sections under the queue's lock -/

theorem ask_next (op : SyncOperation) (writer : flushes member = false) (holding : Holding member held s) {k : List SyncOperation → Task F A}
    {post : A → Journal T F → Prop}
    (rest : ∀ queue t, Holding member held t → (contract flushes member).Safe post (k queue) t) :
    (contract flushes member).Safe post (next (.queue fun queue => queue.filter (·.path ≠ op.path) ++ [op]) k) s := by
  refine Contract.safe_call fun t moves => ⟨trivial, fun reply u effect => ?_⟩
  have holding := holding.rely moves
  obtain ⟨answer, queue, work⟩ := queue_effect effect.1
  have asked : u.work = t.work.ask SyncOperation.path op := by
    rw [work]
    simp [meaning, writer]
  have inv (inv : Inv t) : Inv u := by
    refine ⟨by rw [asked]; exact inv.sound.ask, ?_⟩
    rw [asked, queue, answer, ← inv.queued, WorkQueue.ask_queue, List.map_append, List.filter_map]
    rfl
  have hand : u.work.hand = t.work.hand := by rw [asked]; rfl
  exact ⟨⟨inv, fun _ _ => by rw [hand]⟩, rest reply u ⟨inv holding.inv, by rw [hand]; exact holding.hand⟩⟩

theorem take_next (flusher : flushes member = true) (inv : Inv s) {k : List SyncOperation → Task F A}
    {post : A → Journal T F → Prop}
    (rest : ∀ queue t, (∀ op, queue.head? = some op → ∃ number, Holding member (some (op, number)) t) → Inv t →
      (contract flushes member).Safe post (k queue) t) :
    (contract flushes member).Safe post (next (.queue List.tail) k) s := by
  refine Contract.safe_call fun t moves => ⟨trivial, fun reply u effect => ?_⟩
  have inv := moves.1 inv
  obtain ⟨answer, queue, work⟩ := queue_effect effect.1
  have shorter : reply.tail.length ≠ reply.length + 1 := by rw [List.length_tail]; omega
  have taken : u.work = t.work.take member := by rw [work, meaning, if_pos flusher, if_neg shorter]
  have kept (inv : Inv t) : Inv u := by
    refine ⟨by rw [taken]; exact inv.sound.take, ?_⟩
    rw [taken, queue, answer, ← inv.queued, ← List.map_tail]
    rfl
  refine ⟨⟨kept, fun other different => by rw [taken, WorkQueue.take_hand, if_neg different]⟩, rest reply u ?_ (kept inv)⟩
  intro op first
  rw [answer, ← inv.queued, List.head?_map] at first
  obtain ⟨entry, found, same⟩ := Option.map_eq_some_iff.mp first
  refine ⟨entry.2, kept inv, ?_⟩
  rw [taken, WorkQueue.take_hand, if_pos rfl, found, ← same]

theorem putBack_next {number : Nat} (flusher : flushes member = true)
    (holding : Holding member (some (.upload path, number)) s) {k : List SyncOperation → Task F A} {post : A → Journal T F → Prop}
    (rest : ∀ queue t, Inv t → (contract flushes member).Safe post (k queue) t) :
    (contract flushes member).Safe post (next (.queue fun queue => queue ++ [.upload path]) k) s := by
  refine Contract.safe_call fun t moves => ⟨trivial, fun reply u effect => ?_⟩
  have holding := holding.rely moves
  obtain ⟨answer, queue, work⟩ := queue_effect effect.1
  have longer (queue : List SyncOperation) : (queue ++ [SyncOperation.upload path]).length = queue.length + 1 := by simp
  have returned : u.work = t.work.putBack member := by rw [work, meaning, if_pos flusher, if_pos (longer reply)]
  have timely := effect.2 flusher (longer _)
  have kept (inv : Inv t) : Inv u := by
    refine ⟨by rw [returned]; exact inv.sound.putBack timely, ?_⟩
    rw [returned, queue, answer, ← inv.queued, WorkQueue.putBack, holding.hand]
    simp
  exact ⟨⟨kept, fun other different => by rw [returned, WorkQueue.putBack_hand, if_neg different]⟩, rest reply u (kept holding.inv)⟩

/-! ### The calls -/

theorem returned {value : A} (inv : Inv s) :
    (contract flushes member).Safe (fun _ t => Inv t) (Prog.done (I := syncSignature F) value) s :=
  Contract.safe_done fun _ moves => moves.1 inv

theorem enqueueUpload_safe (writer : flushes member = false) (inv : Inv s) :
    (contract flushes member).Safe (fun _ t => Inv t) (enqueueUpload (F := F) path) s := by
  simp only [enqueueUpload, withLeases_bind, withQueue_bind]
  refine aside_next (by trivial) ⟨inv, rfl⟩ fun leases t holding => ?_
  split
  · exact returned holding.inv
  · exact ask_next (.upload path) writer holding fun _ _ holding => returned holding.inv

theorem enqueueDelete_safe (writer : flushes member = false) (inv : Inv s) :
    (contract flushes member).Safe (fun _ t => Inv t) (enqueueDelete (F := F) path) s := by
  simp only [enqueueDelete, withLeases_bind, withCache_bind, withQueue_bind]
  refine aside_next (by trivial) ⟨inv, rfl⟩ fun leases t holding => ?_
  split
  · exact returned holding.inv
  · refine aside_next (by trivial) holding fun cache u holding => ?_
    exact ask_next (.delete path (cache.etag path)) writer holding fun _ _ holding => returned holding.inv

omit [EtagScheme] [FsBackend F] in
theorem moving_unqueued (deletes : Prop) {task : Task F A} (moving : Moving deletes path task) :
    task.Only (I := syncSignature F) Op.Unqueued :=
  moving.mono fun op transfers => by cases transfers <;> trivial

/-- While an upload is pushed, the flush has it in its hand, and puts that back. -/
theorem flushUpload_safe {number : Nat} (flusher : flushes member = true)
    (holding : Holding member (some (.upload path, number)) s) :
    (contract flushes member).Safe (fun _ t => Inv t) (manager.flushUpload (F := F) path) s := by
  -- A failed upload is put back with the number it was taken with.
  have requeued (e : SyncError) {t : Journal T F} (holding : Holding member (some (.upload path, number)) t) :
      (contract flushes member).Safe (fun _ t => Inv t)
        (requeue (F := F) path >>= fun _ => Prog.done (I := syncSignature F) (.error e : Except SyncError Bool)) t := by
    simp only [requeue, withQueue_bind, Prog.call_bind]
    exact putBack_next flusher holding fun queue u inv => returned inv
  unfold flushUpload
  split
  · exact returned holding.inv
  rw [isLocked_bind]
  refine aside_next (by trivial) holding fun leases t holding => ?_
  split
  · exact returned holding.inv
  refine (keeps_holding.safe (moving_unqueued True (condForUpload_moving path)) holding).bind
    fun cond u holding => ?_
  refine (keeps_holding.safe (moving_unqueued True (uploadWithCond_moving manager path cond)) holding).bind
    fun result v holding => ?_
  rcases result with e | etag
  · dsimp only
    split
    · refine (keeps_holding.safe (moving_unqueued True (handleUploadConflict_moving manager path)) holding).bind
        fun result w holding => ?_
      rcases result with e | _
      · dsimp only
        split
        · exact returned holding.inv
        · exact requeued e holding
      · exact returned holding.inv
    · exact requeued e holding
  · exact returned holding.inv

theorem flushLoop_safe (flusher : flushes member = true) (batch processed : Nat) (inv : Inv s) :
    (contract flushes member).Safe (fun _ t => Inv t) (manager.flushLoop (F := F) batch processed) s := by
  have finish (processed : Nat) {t : Journal T F} (inv : Inv t) :
      (contract flushes member).Safe (fun _ t => Inv t) (manager.flushLoop (F := F) 0 processed) t := by
    simp only [flushLoop, instant_bind, withSchedule_bind]
    exact aside_next (by trivial) ⟨inv, rfl⟩ fun now u holding => aside_next (by trivial) holding fun _ _ holding =>
      returned holding.inv
  induction batch generalizing s processed with
  | zero => exact finish processed inv
  | succ batch ih =>
    simp only [flushLoop, withQueue_bind]
    refine take_next flusher inv fun queue t taken inv => ?_
    split
    · exact finish processed inv
    · next path first =>
      obtain ⟨number, holding⟩ := taken _ first
      refine (flushUpload_safe flusher holding).bind fun result u inv => ?_
      cases result with
      | error e => exact returned inv
      | ok counted => exact ih _ inv
    · next path etag first =>
      refine (keeps_holding.safe (moving_unqueued True (flushDelete_moving manager path etag)) ⟨inv, rfl⟩).bind
        fun _ u holding => ?_
      exact ih _ holding.inv

theorem call_safe {p : Task F Unit} (inv : Inv s)
    (started : if flushes member then p = Call.flushOutbound.task manager
      else ∃ path change, p = (Call.write path change).task manager ∨ p = (Call.unlink path change).task manager) :
    (contract flushes member).Safe (fun _ t => Inv t) p s := by
  split at started
  · next flusher =>
    subst started
    exact (flushLoop_safe flusher _ _ inv).bind fun _ _ inv => returned inv
  · next writer =>
    have writer : flushes member = false := Bool.eq_false_iff.mpr writer
    obtain ⟨path, change, rfl | rfl⟩ := started
    · simp only [Call.task, app_bind]
      exact aside_next (by trivial) ⟨inv, rfl⟩ fun _ t holding => enqueueUpload_safe writer holding.inv
    · simp only [Call.task, app_bind]
      exact aside_next (by trivial) ⟨inv, rfl⟩ fun _ t holding => enqueueDelete_safe writer holding.inv

/-! ### Runs -/

omit [DecidableEq T] [FsBackend F] in
theorem ambient_inv {shared later : Journal T F} (inv : Inv shared)
    (moved : later.work = shared.work ∧ later.state.manager.outboundQueue = shared.state.manager.outboundQueue) : Inv later :=
  ⟨by rw [moved.1]; exact inv.sound, by rw [moved.1, moved.2]; exact inv.queued⟩

theorem fits : tasks.Fits ((journalRules flushes manager).restrict (Timely flushes)) Inv (contract (T := T) (F := F) flushes)
    fun _ _ s => Inv s where
  effect _ := rfl
  kept member op shared reply s inv _ guarantee := guarantee.1 inv
  others member op shared reply s inv effect guarantee other different :=
    ⟨guarantee.1, guarantee.2 other different⟩
  ambient_kept shared later inv moved := ambient_inv inv moved
  ambient shared later _ moved member := ⟨fun inv => ambient_inv inv moved, congrArg (·.hand member) moved.1⟩
  starts member value s p t inv started := by
    obtain ⟨rfl, started⟩ := started
    exact call_safe inv started
  starts_kept member value shared p s inv _ started := by
    obtain ⟨rfl, -⟩ := started
    exact inv
  starts_others member value shared p s _ started other _ := by
    obtain ⟨rfl, -⟩ := started
    exact (contract flushes other).rely_refl _

/-- A put back that comes too late leaves an old change in the queue. -/
theorem late_putBack {change : List SyncOperation → List SyncOperation} {reply : List SyncOperation} (flusher : flushes member = true)
    (longer : (change s.state.manager.outboundQueue).length = s.state.manager.outboundQueue.length + 1)
    (late : ¬ WorkQueue.Timely SyncOperation.path member s.work)
    (effect : (journalMachine flushes member).effect (.queue change) s reply t) : ¬ NewestWins t := by
  rintro ⟨queued, unique, newest⟩
  obtain ⟨rfl, -, work⟩ := queue_effect effect
  rw [meaning, if_pos flusher, if_pos longer] at work
  refine WorkQueue.putBack_stale late (work ▸ ⟨newest, ?_⟩)
  rw [← queued, List.map_map] at unique
  exact unique

/-- Nobody is in a call, and the queue has one operation of a path at most. -/
def Resting (config : JournalConfig T F) : Prop :=
  (∀ member, config.prog member = .done ()) ∧ config.shared.work = .holding config.shared.state.manager.outboundQueue ∧
    (config.shared.state.manager.outboundQueue.map (·.path)).Nodup

/-- If no flush puts an operation back whose path was queued again, the queue holds the
newest change of each path. -/
theorem newest_intent_wins {flushes : T → Bool} {manager : SyncManager} {first last : JournalConfig T F} (resting : Resting first)
    (reached : tasks.Reachable ((journalRules flushes manager).restrict (Timely flushes)) first last) : NewestWins last.shared := by
  obtain ⟨idle, filled, unique⟩ := resting
  have inv : Inv first.shared := by
    refine ⟨by rw [filled]; exact WorkQueue.sound_holding unique, ?_⟩
    rw [filled, WorkQueue.holding, List.map_map]
    exact List.map_id _
  have sound : tasks.Sound Inv (contract flushes) (fun _ _ s => Inv s) first := by
    refine ⟨inv, fun member => ?_⟩
    rw [idle member]
    exact returned inv
  exact (fits.reachable sound reached).1.wins

end

/-! ### A flush that fails -/

section
open scoped ContentEtags

abbrev JournalMove : Type := Team.Move Bool (Journal Bool MemFs) (Journal Bool MemFs) Turn (syncSignature MemFs) Unit

/-- The thread `true` flushes. -/
def flushing (member : Bool) : Bool := member

def sampleManager : SyncManager := Sample.manager .batch Sample.first

def empty : JournalConfig Bool MemFs := ⟨⟨⟨⟨∅, 0, false⟩, 0, .new .empty 0, .empty⟩, .holding []⟩, fun _ => .done ()⟩

def write (data : Bytes) : List JournalMove :=
  .start false (fun _ s => ((Call.write "/a" (MemFs.writeLocal "/a" data)).task sampleManager, s)) ::
    List.replicate 3 (.operate false {})

/-- A flush takes the upload and reads the file. -/
def flushBegins : List JournalMove :=
  .start true (fun _ s => (Call.flushOutbound.task sampleManager, s)) :: List.replicate 6 (.operate true {})

/-- Its PUT does not reach the store. -/
def flushFails : List JournalMove :=
  .operate true { fault := .unsent (.write "files/a" "timeout") } :: List.replicate 2 (.operate true {})

def after (moves : List JournalMove) : JournalConfig Bool MemFs := tasks.follow (journalMachine flushing) moves empty

theorem moves_allowed {moves : List JournalMove} (made : moves ⊆ write [1] ++ flushBegins ++ write [2] ++ flushFails) :
    ∀ move ∈ moves, Team.Allowed (journalRules flushing sampleManager) (journalMachine flushing) move := by
  have writes (data : Bytes) : ∀ move ∈ write data, Team.Allowed (journalRules flushing sampleManager) (journalMachine flushing) move := by
    intro move listed
    rcases List.mem_cons.mp listed with rfl | listed
    · exact fun _ _ => ⟨rfl, _, _, .inl rfl⟩
    · rw [List.eq_of_mem_replicate listed]
      exact fun _ _ => ⟨{}, rfl, rfl⟩
  intro move listed
  have listed := made listed
  simp only [List.mem_append, or_assoc] at listed
  rcases listed with listed | listed | listed | listed
  · exact writes _ move listed
  · rcases List.mem_cons.mp listed with rfl | listed
    · exact fun _ _ => ⟨rfl, rfl⟩
    · rw [List.eq_of_mem_replicate listed]
      exact fun _ _ => ⟨{}, rfl, rfl⟩
  · exact writes _ move listed
  · rcases List.mem_cons.mp listed with rfl | listed
    · exact fun _ _ => ⟨{ fault := .unsent (.write "files/a" "timeout") }, rfl, rfl⟩
    · rw [List.eq_of_mem_replicate listed]
      exact fun _ _ => ⟨{}, rfl, rfl⟩

def timely (member : Bool) (op : Op MemFs) (s : Journal Bool MemFs) : Bool :=
  match op with
  | .queue change => !flushing member ||
      decide ((change s.state.manager.outboundQueue).length ≠ s.state.manager.outboundQueue.length + 1) ||
      (s.work.hand member).all fun entry => decide (entry.2 = s.work.latest entry.1.path)
  | _ => true

theorem timely_spec (member : Bool) (op : Op MemFs) (s : Journal Bool MemFs) (met : timely member op s = true) :
    Timely flushing member op s := by
  cases op with
  | queue change =>
    intro flusher longer entry held
    simp [timely, flusher, longer, held] at met
    exact met
  | request | cache | leases | schedule | now | wake | jitter | fs | arrange | app => trivial

theorem empty_resting : Resting empty := ⟨fun _ => rfl, rfl, List.nodup_nil⟩

/-- The failed upload goes back, and nothing was queued in the meantime. -/
theorem newest_intent_wins_sample : NewestWins (after (write [1] ++ flushBegins ++ flushFails)).shared := by
  refine newest_intent_wins empty_resting (Team.follow_restricted timely_spec _ _ (moves_allowed fun move listed => ?_) (by decide +kernel))
  simp only [List.mem_append] at listed ⊢
  tauto

/-- The file is written again while the upload is on its way. -/
theorem old_intent_returns : Resting empty ∧
    tasks.Reachable (journalRules flushing sampleManager) empty (after (write [1] ++ flushBegins ++ write [2] ++ flushFails)) ∧
    ¬ NewestWins (after (write [1] ++ flushBegins ++ write [2] ++ flushFails)).shared := by
  refine ⟨empty_resting, Team.follow_reachable _ _ (moves_allowed fun move listed => listed), ?_⟩
  rintro ⟨-, unique, -⟩
  have doubled : (after (write [1] ++ flushBegins ++ write [2] ++ flushFails)).shared.state.manager.outboundQueue =
      [.upload "/a", .upload "/a"] := by decide +kernel
  rw [doubled] at unique
  revert unique
  decide

end
end MonakaFs.Sync.Intents
