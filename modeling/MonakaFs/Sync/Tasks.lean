import MonakaFs.Async.Watch
import MonakaFs.Sync.Cluster

/-! Tasks of one instance that run side by side.

One task polls, and the other tasks of the same instance run any calls; they may
switch at every operation.
-/

set_option autoImplicit false

namespace MonakaFs.Sync

open Async

/-- Tasks over one instance: every task sees all of it. -/
def tasks {T S : Type} : Team T S S where
  view _ s := s
  put _ _ s := s
  view_put _ _ _ := rfl
  put_view _ _ := rfl

abbrev TaskConfig [EtagScheme] (T F : Type) := Config T (Snapshot F) (syncSignature F) Unit

section
variable [EtagScheme] {T F : Type} [FsBackend F] [DecidableEq T]

/-- How the tasks move. Other instances and other tools may change the store at any moment. -/
def taskRules (manager : SyncManager) (poller : T) (admits : Turn → Prop) :
    Team.Rules T (Snapshot F) (Snapshot F) (syncSignature F) Unit where
  effect _ := (instanceMachine F admits).effect
  starts member _ s p t := t = s ∧ ∃ call : Call F, (member = poller → call = .pollInbound) ∧ p = call.task manager
  ambient s t := s.now ≤ t.now ∧ t.manager = s.manager ∧ t.fs = s.fs

end

/-! ### Concrete runs -/

namespace Side

open scoped ContentEtags

def sampleManager : SyncManager := Sample.manager .batch Sample.first

abbrev SampleMove : Type := Team.Move Bool (Snapshot MemFs) (Snapshot MemFs) Turn (syncSignature MemFs) Unit

def sampleMachine (_ : Bool) : Machine (syncSignature MemFs) (Snapshot MemFs) Turn := instanceMachine MemFs Truthful

/-- One after the other, a task takes some steps, and calls first if it was idle. -/
def schedule (lines : List (Bool × Call MemFs × Nat)) : List SampleMove :=
  lines.flatMap fun line =>
    .start line.1 (fun _ s => (line.2.1.task sampleManager, s)) :: List.replicate line.2.2 (.operate line.1 {})

/-- The poller is the task `false`. -/
def Proper (lines : List (Bool × Call MemFs × Nat)) : Prop :=
  ∀ line ∈ lines, line.1 = false → line.2.1 = .pollInbound

theorem schedule_allowed {lines : List (Bool × Call MemFs × Nat)} (proper : Proper lines) :
    ∀ move ∈ schedule lines, Team.Allowed (taskRules sampleManager false Truthful) sampleMachine move := by
  intro move member
  obtain ⟨line, listed, found⟩ := List.mem_flatMap.mp member
  rcases List.mem_cons.mp found with rfl | found
  · exact fun _ _ => ⟨rfl, line.2.1, proper line listed, rfl⟩
  · rw [List.eq_of_mem_replicate found]
    exact fun _ _ => ⟨{}, rfl, rfl⟩

/-- The tasks of an instance with an empty local filesystem. -/
def resting (bodies : List (String × Bytes)) (cache : MetadataCache) : TaskConfig Bool MemFs :=
  ⟨⟨Sample.store bodies, 0, .new cache 0, .empty⟩, fun _ => .done ()⟩

def after (first : TaskConfig Bool MemFs) (lines : List (Bool × Call MemFs × Nat)) : TaskConfig Bool MemFs :=
  tasks.follow sampleMachine (schedule lines) first

def isIdle : Task MemFs Unit → Bool
  | .done _ => true
  | _ => false

theorem isIdle_done {task : Task MemFs Unit} (idle : isIdle task = true) : ∃ value, task = .done value := by
  unfold isIdle at idle
  split at idle
  · next value => exact ⟨value, rfl⟩
  · cases idle

end Side

end MonakaFs.Sync
