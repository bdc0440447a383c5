import MonakaFs.Sync.DataPath

/-! Threads of one instance.

The threads of a host share one sync manager and one local filesystem. Each of
them opens and closes one path for write, again and again, and closes only what
it opened. A seat remembers what a thread has done so far: how many opens it held
when its call began, how many references it has put into the lease entry, and
whether it is acquiring or giving back the lease.
-/

set_option autoImplicit false

namespace MonakaFs.Sync.Sharing

open Async
open scoped BigOperators

inductive Stage where
  | out
  /-- Found the path unleased, and has neither entered the lease nor given it up. -/
  | missed
  | releasing
  deriving DecidableEq, Repr

structure Seat where
  held : Nat
  credit : Int
  stage : Stage
  deriving DecidableEq, Repr

structure Host [EtagScheme] (T F : Type) where
  state : Snapshot F
  seats : T → Seat

section
variable {F : Type}

/-- The stage after an operation, from the entry of the path before and after it. -/
def Stage.next (path : String) (before after : Option WriteLease) (stage : Stage) : Op F → Stage
  | .leases _ =>
      match before, after with
      | none, none => if stage = .out then .missed else stage
      | some old, some new => if old.releasing = false ∧ new.releasing = true then .releasing else stage
      | _, _ => .out
  | .request (.delete key _) => if key = lockKey path ∧ stage = .missed then .out else stage
  | _ => stage

def references (entry : Option WriteLease) : Nat := (entry.map (·.refcount)).getD 0

def Seat.advance (path : String) (before after : Option WriteLease) (op : Op F) (seat : Seat) : Seat :=
  { seat with
    credit := seat.credit + references after - references before
    stage := seat.stage.next path before after op }

end

section
variable [EtagScheme] {T F : Type} (path : String)

/-- The lease entry of the path. -/
def Host.entry (s : Host T F) : Option WriteLease := s.state.manager.leases.lookup path

/-- The lock object of the path. -/
def Host.lock (s : Host T F) : Option MemObject := s.state.store.objects.lookup (lockKey path)

/-- The part of a lease that accounts for the lock and its users. -/
def lockPart (lease : WriteLease) : WriteLease := { lease with baseEtag := none, dirty := false, pendingDelete := false }

/-- Lock object and lease accounting of the path are the same. -/
structure Same (s t : Host T F) : Prop where
  conditional : t.state.store.rejectConditionalDelete = s.state.store.rejectConditionalDelete
  lock : t.lock path = s.lock path
  entry : (t.entry path).map lockPart = (s.entry path).map lockPart

variable [DecidableEq T]

def Host.settle (s : Host T F) (member : T) (count : Nat) : Host T F :=
  { s with seats := Function.update s.seats member { s.seats member with held := count } }

variable [FsBackend F]

def hostMachine (member : T) : Machine (syncSignature F) (Host T F) Turn where
  act turn op s :=
    let answer := s.state.act turn op
    let seat := (s.seats member).advance path (s.entry path) (answer.2.manager.leases.lookup path) op
    (answer.1, ⟨answer.2, Function.update s.seats member seat⟩)
  admits := Truthful

def threads : Team T (Host T F) (Host T F) where
  view _ s := s
  put _ _ s := s
  view_put _ _ _ := rfl
  put_view _ _ := rfl

/-- One open. Its value is the number of opens the thread holds afterwards. -/
def openTask (manager : SyncManager) (rounds count : Nat) : Task F Nat :=
  manager.onOpenWrite rounds path >>= fun result =>
    .done (match result with
      | .ok _ => count + 1
      | .error _ => count)

def closeTask (manager : SyncManager) (count : Nat) : Task F Nat :=
  manager.onClose path >>= fun _ => .done (count - 1)

/-- How the threads move, in steps that a condition allows. Everybody else leaves the
lock object and the accounting of the path alone. -/
def hostRules (manager : SyncManager) (allows : T → Host T F → Prop) :
    Team.Rules T (Host T F) (Host T F) (syncSignature F) Nat where
  effect member op s reply u := (hostMachine path member).effect op s reply u ∧ allows member u
  starts member count s p u := u = s.settle member count ∧
    ((∃ rounds, p = openTask path manager rounds count) ∨ (0 < count ∧ p = closeTask path manager count))
  ambient s u := u.seats = s.seats ∧ Same path s u

abbrev HostConfig (T F : Type) := Config T (Host T F) (syncSignature F) Nat

/-- The opens a thread has and has not yet closed. -/
def opens (config : HostConfig T F) (member : T) : Nat :=
  match config.prog member with
  | .done count => count
  | _ => (config.shared.seats member).held

/-- A thread that found the path unleased is the only one. -/
def Alone (member : T) (s : Host T F) : Prop :=
  (s.seats member).stage = .missed → ∀ other, (s.seats other).stage = .missed → other = member

/-- The accounting is right: the entry counts the opens, and while the lease is
held, the lock object is this instance's record with the ETag in the entry. -/
def Accounted [Fintype T] (id : InstanceId) (config : HostConfig T F) : Prop :=
  references (config.shared.entry path) = ∑ member, opens config member ∧
    ∀ lease, config.shared.entry path = some lease → 0 < lease.refcount → lease.releasing = false →
      ∃ object epoch expires, config.shared.lock path = some object ∧ object.etag = lease.lockEtag ∧
        object.data = LockRecord.encode ⟨id.text, epoch, expires, path⟩

/-- No thread has opened the path yet, there is no lock object, and the store
supports conditional deletes. -/
def Untouched (config : HostConfig T F) : Prop :=
  (∀ member, config.prog member = .done 0 ∧ config.shared.seats member = ⟨0, 0, .out⟩) ∧
    config.shared.entry path = none ∧ config.shared.lock path = none ∧
      config.shared.state.store.rejectConditionalDelete = false

end

end MonakaFs.Sync.Sharing
