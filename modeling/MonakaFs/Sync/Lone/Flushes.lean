import MonakaFs.Sync.Lone.Calls

/-! The flush, seen from one file.

A flush takes operations from the front of the queue, and each concerns one path. What
holds of a file as long as each operation on it keeps it holds after any flush.
-/

set_option autoImplicit false

namespace MonakaFs.Sync.Lone

open Async SyncManager LawfulBackend

section
variable {F : Type} {path other : String} (manager : SyncManager)

theorem flushUpload_resting (apart : Apart path other) : Resting (F := F) path (manager.flushUpload other) := by
  have moves {A : Type} {task : Task F A} (moving : Moving True other task) : Resting path task :=
    moving.mono (transfers_rests apart)
  have requeues : Resting (F := F) path (requeue other) :=
    ⟨fun queue => ⟨ops_other (.upload other) queue apart.name, fun tidy => tidy.append fun _ => apart.key⟩, fun _ => trivial⟩
  have locked : Resting (F := F) path (isLocked other) := ⟨fun _ => rfl, fun _ => trivial⟩
  unfold flushUpload
  split
  · trivial
  refine locked.bind fun locked => ?_
  split
  · trivial
  refine (moves (condForUpload_moving other)).bind fun cond => ?_
  refine (moves (uploadWithCond_moving manager other cond)).bind fun result => ?_
  rcases result with e | etag
  · dsimp only
    split
    · refine (moves (handleUploadConflict_moving manager other)).bind fun outcome => ?_
      rcases outcome with e | _
      · dsimp only
        split
        · trivial
        · exact requeues.bind fun _ => trivial
      · trivial
    · exact requeues.bind fun _ => trivial
  · trivial

theorem flushDelete_resting (apart : Apart path other) (etag : Option String) :
    Resting (F := F) path (manager.flushDelete other etag) :=
  (flushDelete_moving manager other etag).mono (transfers_rests apart)

end

section
variable [EtagScheme] {F A : Type} [LawfulBackend F] {path : String} {v : View} {s : Node F} {post : A → Node F → Prop}

/-- Something holds of what belongs to the file. -/
def Holding {A : Type} (path : String) (inv : View → Prop) : A → Node F → Prop := fun _ t => ∃ w, inv w ∧ Seen path w t.state

/-- The front of the queue is an operation on the file, or leaves it alone. -/
theorem pop_next {k : List SyncOperation → Task F A} (seen : Seen path v s.state)
    (nothing : ∀ u : Node F, Seen path v u.state → (alone path).Safe post (k []) u)
    (own : ∀ op rest queue (u : Node F), op.path = path → v.queued = op :: rest → Seen path { v with queued := rest } u.state →
      (alone path).Safe post (k (op :: queue)) u)
    (others : ∀ op queue (u : Node F), Apart path op.path → Seen path v u.state → (alone path).Safe post (k (op :: queue)) u) :
    (alone path).Safe post (next (.queue List.tail) k) s := by
  refine safe_next ?_
  rintro t reply u moves ⟨turn, truthful, answer, later⟩
  have seen := seen.moves moves
  have queued : ops path t.manager.outboundQueue = v.queued := by rw [← seen.view]; rfl
  have popped (queued : List SyncOperation) (same : ops path t.manager.outboundQueue.tail = queued) :
      Seen path { v with queued := queued } u := by
    subst later
    refine ⟨?_, seen.conditional, seen.tidy.tail⟩
    rw [← seen.view, ← same]
    rfl
  have tidy := seen.tidy
  replace answer : reply = t.manager.outboundQueue := answer
  subst answer
  cases front : t.manager.outboundQueue with
  | nil =>
    rw [front] at queued popped
    exact nothing ⟨u, _⟩ (popped v.queued queued)
  | cons op rest =>
    rw [front] at queued popped tidy
    -- The queue of the view has the operations for this file only.
    by_cases mine : op.path = path
    · refine own op (ops path rest) rest ⟨u, _⟩ mine ?_ (popped _ rfl)
      rw [← queued]
      exact List.filter_cons_of_pos (decide_eq_true mine)
    · refine others op rest ⟨u, _⟩ ⟨mine, tidy op (List.mem_cons_self ..) mine⟩ (popped v.queued ?_)
      rw [← queued]
      exact (List.filter_cons_of_neg (by simpa using mine)).symm

def deleteCond : Option String → Precondition
  | some etag => .ifMatch etag
  | none => .none

/-- What a queued delete does to a file. -/
inductive Deleted (manager : SyncManager) (etag : Option String) (v : View) : View → Prop where
  | gone : Lands v.object (deleteCond etag) → Deleted manager etag v { v with object := none }
  | kept {w : View} : ¬ Lands v.object (deleteCond etag) → manager.config.fileLock = true → (w = v ∨ w = v.rebased) →
      Deleted manager etag v w
  | forced : ¬ Lands v.object (deleteCond etag) → manager.config.fileLock = false → Deleted manager etag v { v with object := none }

theorem flushDelete_spec (manager : SyncManager) (etag : Option String) (seen : Seen path v s.state) :
    (alone path).Safe (fun _ t => ∃ w, Deleted manager etag v w ∧ Seen path w t.state) (manager.flushDelete path etag) s := by
  have conditional : deleteCond etag ≠ .ifNoneMatchAny := by cases etag <;> simp [deleteCond]
  simp only [flushDelete, deleteFile_bind]
  refine delete_next conditional seen (fun lands u seen => ?_) fun version found blocked e u refused seen => ?_
  · exact return_seen seen fun t seen => ⟨_, .gone lands, seen⟩
  have blocked : ¬ Lands v.object (deleteCond etag) := fun lands => blocked (lands version found)
  simp only [refused, if_true]
  split
  · next locks =>
    refine (refreshLocalFromRemote_spec seen).bind fun _ w outcome => ?_
    rcases outcome with seen | seen
    · exact return_seen seen fun t seen => ⟨_, .kept blocked locks (.inl rfl), seen⟩
    · exact return_seen seen fun t seen => ⟨_, .kept blocked locks (.inr rfl), seen⟩
  · next unlocked =>
    refine delete_next (by simp) seen (fun _ w seen => ?_) fun _ _ denied => (denied trivial).elim
    exact return_seen seen fun t seen => ⟨_, .forced blocked (by simpa using unlocked), seen⟩

/-- What each operation on the file keeps, a flush keeps. -/
structure Handled (F : Type) [LawfulBackend F] (manager : SyncManager) (path : String) (inv : View → Prop) : Prop where
  upload : ∀ (v : View) rest (s : Node F), inv v → v.queued = .upload path :: rest → Seen path { v with queued := rest } s.state →
    (alone path).Safe (Holding path inv) (manager.flushUpload path) s
  delete : ∀ (v : View) etag rest (s : Node F), inv v → v.queued = .delete path etag :: rest →
    Seen path { v with queued := rest } s.state → (alone path).Safe (Holding path inv) (manager.flushDelete path etag) s

variable {manager : SyncManager} {inv : View → Prop}

theorem return_holding {value : A} (holds : inv v) (seen : Seen path v s.state) :
    (alone path).Safe (Holding path inv) (.done value : Task F A) s := return_seen seen fun _ seen => ⟨v, holds, seen⟩

theorem flushLoop_keeps (handled : Handled F manager path inv) (batch processed : Nat) (holds : inv v) (seen : Seen path v s.state) :
    (alone path).Safe (Holding path inv) (manager.flushLoop batch processed) s := by
  have finish {v : View} {s : Node F} (processed : Nat) (holds : inv v) (seen : Seen path v s.state) :
      (alone path).Safe (Holding (A := Except SyncError Nat) path inv) (do
        let now ← instant
        let _ ← withSchedule fun schedule => { schedule with lastFlush := now }
        return .ok processed) s := by
    refine rests_next .now trivial seen fun _ _ u _ _ seen => ?_
    exact rests_next (.schedule _) trivial seen fun _ _ w _ _ seen => return_holding holds seen
  induction batch generalizing v s processed with
  | zero => exact finish processed holds seen
  | succ batch ih =>
    simp only [flushLoop, withQueue_bind]
    refine pop_next seen (fun u seen => finish processed holds seen) (fun op rest queue u mine queued seen => ?_)
      fun op queue u apart seen => ?_
    -- The operation is for this file.
    · cases op with
      | upload name =>
        obtain rfl : name = path := mine
        refine (handled.upload v rest u holds queued seen).bind ?_
        rintro result w ⟨x, holds, seen⟩
        rcases result with e | counted
        · exact return_holding holds seen
        · exact ih _ holds seen
      | delete name etag =>
        obtain rfl : name = path := mine
        refine (handled.delete v etag rest u holds queued seen).bind ?_
        rintro _ w ⟨x, holds, seen⟩
        exact ih _ holds seen
    -- The operation is for another file, and the view of this one rests.
    · cases op with
      | upload name =>
        refine (resting_safe (flushUpload_resting manager apart) seen).bind fun result w seen => ?_
        rcases result with e | counted
        · exact return_holding holds seen
        · exact ih _ holds seen
      | delete name etag =>
        exact (resting_safe (flushDelete_resting manager apart etag) seen).bind fun _ w seen => ih _ holds seen

theorem flushOutbound_keeps (handled : Handled F manager path inv) (holds : inv v) (seen : Seen path v s.state) :
    (alone path).Safe (Holding path inv) manager.flushOutbound s := flushLoop_keeps handled _ _ holds seen

/-- A forced flush that succeeds leaves nothing queued. -/
theorem forceFlush_keeps (handled : Handled F manager path inv) (rounds : Nat) (holds : inv v) (seen : Seen path v s.state) :
    (alone path).Safe (fun result t => ∃ w, inv w ∧ Seen path w t.state ∧ ∀ count, result = .ok count → w.queued = [])
      (manager.forceFlush rounds) s := by
  induction rounds generalizing v s with
  | zero => exact fun _ _ => trivial
  | succ rounds ih =>
    simp only [forceFlush, withQueue_bind]
    refine queue_look seen fun queue u known seen => ?_
    split
    · next empty =>
      refine return_seen seen fun t seen => ⟨v, holds, seen, fun _ _ => ?_⟩
      rw [← known, List.isEmpty_iff.mp empty]
      rfl
    refine (flushOutbound_keeps handled holds seen).bind ?_
    rintro result w ⟨x, holds, seen⟩
    rcases result with e | count
    · exact return_seen seen fun t seen => ⟨x, holds, seen, fun _ same => by cases same⟩
    · refine (ih holds seen).bind ?_
      rintro rest y ⟨z, holds, seen, settled⟩
      refine return_seen seen fun t seen => ⟨z, holds, seen, fun total same => ?_⟩
      rcases rest with e | rest
      · cases same
      · exact settled rest rfl

end
end MonakaFs.Sync.Lone
