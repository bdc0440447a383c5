import MonakaFs.Async.History
import MonakaFs.Sync.FsBackend

/-! What a sync manager asks of its surroundings, one operation at a time.

A store request, one section under one of the manager's locks, a look at the
clock, the end of a sleep or one call into the local filesystem is a single
step. Every `await` of the source lies between two operations. The order in
which a hash map is walked and the jitter of a backoff come from the surroundings.
-/

set_option autoImplicit false

namespace MonakaFs.Sync

open Async

/-- A call into the local filesystem. -/
inductive LocalCall where
  | readFileContent (path : String)
  | writeFileContent (path : String) (content : Bytes)
  | loadFile (path : String) (content : Bytes)
  | statModified (path : String)
  | unlink (path : String)
  | mkdirP (path : String)
  | rmdir (path : String)

def LocalCall.Reply : LocalCall → Type
  | .readFileContent _ => Except S3Error Bytes
  | .writeFileContent .. => Except S3Error Unit
  | .loadFile .. => Except S3Error Unit
  | .statModified _ => Nat
  | .unlink _ => Except S3Error Unit
  | .mkdirP _ => Unit
  | .rmdir _ => Except S3Error Unit

def LocalCall.run {F : Type} [FsBackend F] : (call : LocalCall) → F → call.Reply × F
  | .readFileContent path, fs => Sync.readFileContent path fs
  | .writeFileContent path content, fs => Sync.writeFileContent path content fs
  | .loadFile path content, fs => Sync.loadFile path content fs
  | .statModified path, fs => (FsBackend.statModified path fs, fs)
  | .unlink path, fs => FsBackend.unlink path fs
  | .mkdirP path, fs => ((), FsBackend.mkdirP path fs)
  | .rmdir path, fs => FsBackend.rmdir path fs

/-- A call that cannot change the copy of a path. -/
def LocalCall.Leaves (path : String) : LocalCall → Prop
  | .writeFileContent other _ | .unlink other => other ≠ path
  | .loadFile .. => False
  | _ => True

open LawfulBackend in
theorem LocalCall.Leaves.content {F : Type} [LawfulBackend F] {path : String} {call : LocalCall} (leaves : call.Leaves path) (fs : F) :
    content (call.run fs).2 path = content fs path := by
  cases call with
  | readFileContent name => exact congrFun (read_keeps name fs) path
  | statModified name => rfl
  | mkdirP name => exact congrFun (mkdirP_keeps name fs) path
  | rmdir name => exact congrFun (rmdir_keeps name fs) path
  | loadFile => exact leaves.elim
  | writeFileContent name data =>
    rw [LocalCall.run]
    cases outcome : (Sync.writeFileContent name data fs).1 with
    | error e => rw [write_error outcome]
    | ok _ => rw [write_ok outcome, Function.update_of_ne (Ne.symm leaves)]
  | unlink name =>
    rw [LocalCall.run]
    cases outcome : (FsBackend.unlink name fs).1 with
    | error e => rw [unlink_error outcome]
    | ok _ => rw [unlink_ok outcome, Function.update_of_ne (Ne.symm leaves)]

inductive Op (F : Type) where
  | request (r : Request)
  /-- A section under the queue's lock; the reply is the queue before it. -/
  | queue (change : List SyncOperation → List SyncOperation)
  | cache (change : MetadataCache → MetadataCache)
  | leases (change : LeaseTable → LeaseTable)
  | schedule (change : Schedule → Schedule)
  | now
  /-- The end of a sleep: the clock has reached this instant. -/
  | wake (instant : Nat)
  | jitter
  | fs (call : LocalCall)
  /-- The keys of a hash map in the order of one walk over it. -/
  | arrange (keys : List String)
  /-- The application's own change of the local filesystem; the reply is the filesystem before it. -/
  | app (change : F → F)

abbrev Op.Reply {F : Type} : Op F → Type
  | .request r => r.Answer
  | .queue _ => List SyncOperation
  | .cache _ => MetadataCache
  | .leases _ => LeaseTable
  | .schedule _ => Schedule
  | .now => Nat
  | .wake _ => Unit
  | .jitter => Nat
  | .fs call => call.Reply
  | .arrange _ => List String
  | .app _ => F

abbrev syncSignature (F : Type) : Signature := ⟨Op F, Op.Reply⟩

/-- A program of a sync manager or of its caller. -/
abbrev Task (F A : Type) := Prog (syncSignature F) A

/-- What one instance sees: the common store and clock, and its own two states. -/
structure Snapshot [EtagScheme] (F : Type) where
  store : ObjectStore
  now : Nat
  manager : ManagerState
  fs : F

theorem walk_id (keys : List String) : (id keys).Perm keys := .refl keys

/-- The part of an answer that the surroundings decide. -/
structure Turn where
  fault : Fault := .answered
  jitter : Nat := 0
  order : List String → List String := id
  walk : ∀ keys, (order keys).Perm keys := by exact walk_id

namespace Snapshot

variable [EtagScheme] {F : Type} [FsBackend F]

def act (turn : Turn) : (op : Op F) → Snapshot F → op.Reply × Snapshot F
  | .request r, s =>
      let served := s.store.serveWith turn.fault r
      (served.1, { s with store := served.2 })
  | .queue change, s =>
      (s.manager.outboundQueue, { s with manager := { s.manager with outboundQueue := change s.manager.outboundQueue } })
  | .cache change, s =>
      (s.manager.metadataCache, { s with manager := { s.manager with metadataCache := change s.manager.metadataCache } })
  | .leases change, s =>
      (s.manager.leases, { s with manager := { s.manager with leases := change s.manager.leases } })
  | .schedule change, s =>
      (s.manager.schedule, { s with manager := { s.manager with schedule := change s.manager.schedule } })
  | .now, s => (s.now, s)
  | .wake instant, s => ((), { s with now := max s.now instant })
  | .jitter, s => (turn.jitter % 20, s)
  | .fs call, s =>
      let called := call.run s.fs
      (called.1, { s with fs := called.2 })
  | .arrange keys, s => (turn.order keys, s)
  | .app change, s => (s.fs, { s with fs := change s.fs })

end Snapshot

/-- One instance whose surroundings only take the admitted turns. -/
def instanceMachine [EtagScheme] (F : Type) [FsBackend F] (admits : Turn → Prop) :
    Machine (syncSignature F) (Snapshot F) Turn where
  act := Snapshot.act
  admits := admits

/-- Every request is answered with its true effect. -/
def Truthful (turn : Turn) : Prop := turn.fault = .answered

/-- One operation of one instance and the states around it. -/
abbrev Entry [EtagScheme] (F : Type) := Moment (syncSignature F) (Snapshot F)

theorem act_request [EtagScheme] {F : Type} [FsBackend F] {turn : Turn} (truthful : Truthful turn) (r : Request)
    (s : Snapshot F) :
    Snapshot.act turn (.request r) s = ((s.store.serve r).1, { s with store := (s.store.serve r).2 }) := by
  simp only [Snapshot.act, show turn.fault = .answered from truthful, ObjectStore.serveWith]

/-- The operations of one instance so far, newest first. -/
abbrev Log [EtagScheme] (F : Type) := List (Entry F)

abbrev Node [EtagScheme] (F : Type) := Traced (syncSignature F) (Snapshot F)

/-! Others leave the two states and the history of an instance alone. -/

theorem aside_refl [EtagScheme] {F : Type} (s : Node F) :
    s.state.manager = s.state.manager ∧ s.state.fs = s.state.fs ∧ s.log = s.log := ⟨rfl, rfl, rfl⟩

theorem aside_trans [EtagScheme] {F : Type} {s t u : Node F}
    (first : t.state.manager = s.state.manager ∧ t.state.fs = s.state.fs ∧ t.log = s.log)
    (second : u.state.manager = t.state.manager ∧ u.state.fs = t.state.fs ∧ u.log = t.log) :
    u.state.manager = s.state.manager ∧ u.state.fs = s.state.fs ∧ u.log = s.log :=
  ⟨second.1.trans first.1, second.2.1.trans first.2.1, second.2.2.trans first.2.2⟩

theorem node_effect [EtagScheme] {F : Type} [FsBackend F] {admits : Turn → Prop} {op : Op F} {s u : Node F}
    {reply : op.Reply} (effect : (instanceMachine F admits).traced.effect op s reply u) :
    (∃ turn, admits turn ∧ reply = (Snapshot.act turn op s.state).1 ∧
      u.state = (Snapshot.act turn op s.state).2) ∧
      u.log = ⟨op, reply, s.state, u.state⟩ :: s.log := by
  obtain ⟨⟨turn, admitted, acted⟩, logged⟩ := Machine.traced_effect.mp effect
  exact ⟨⟨turn, admitted, (congrArg Prod.fst acted).symm, (congrArg Prod.snd acted).symm⟩, logged⟩

section
variable {F B : Type}

def ask (op : Op F) : Task F op.Reply := .call (I := syncSignature F) op .done

def listObjects (pre : String) (maxKeys : Option Nat) : Task F (Except S3Error (List ObjectMeta)) :=
  ask (.request (.list pre maxKeys))

def headObject (key : String) : Task F (Except S3Error (Option ObjectMeta)) := ask (.request (.head key))

def getObject (key : String) : Task F (Except S3Error (Option (Bytes × ObjectMeta))) := ask (.request (.get key))

def putObject (key : String) (body : Bytes) (cond : Precondition) : Task F (Except S3Error String) :=
  ask (.request (.put key body cond))

def deleteObject (key : String) (cond : Precondition) : Task F (Except S3Error Unit) :=
  ask (.request (.delete key cond))

def withQueue (change : List SyncOperation → List SyncOperation) : Task F (List SyncOperation) :=
  ask (.queue change)

def withCache (change : MetadataCache → MetadataCache) : Task F MetadataCache := ask (.cache change)

def withLeases (change : LeaseTable → LeaseTable) : Task F LeaseTable := ask (.leases change)

def withSchedule (change : Schedule → Schedule) : Task F Schedule := ask (.schedule change)

def instant : Task F Nat := ask .now

def jitter : Task F Nat := ask .jitter

def wake (time : Nat) : Task F Unit := ask (.wake time)

def onFs (call : LocalCall) : Task F call.Reply := ask (.fs call)

def arrange (keys : List String) : Task F (List String) := ask (.arrange keys)

def app (change : F → F) : Task F F := ask (.app change)

/-- A task that performs one operation first. -/
abbrev next (op : Op F) (k : op.Reply → Task F B) : Task F B := .call (I := syncSignature F) op k

@[simp] theorem listObjects_bind (pre : String) (maxKeys : Option Nat)
    (k : Except S3Error (List ObjectMeta) → Task F B) :
    (listObjects pre maxKeys >>= k) = next (.request (.list pre maxKeys)) k := rfl

@[simp] theorem headObject_bind (key : String) (k : Except S3Error (Option ObjectMeta) → Task F B) :
    (headObject key >>= k) = next (.request (.head key)) k := rfl

@[simp] theorem getObject_bind (key : String) (k : Except S3Error (Option (Bytes × ObjectMeta)) → Task F B) :
    (getObject key >>= k) = next (.request (.get key)) k := rfl

@[simp] theorem putObject_bind (key : String) (body : Bytes) (cond : Precondition)
    (k : Except S3Error String → Task F B) :
    (putObject key body cond >>= k) = next (.request (.put key body cond)) k := rfl

@[simp] theorem deleteObject_bind (key : String) (cond : Precondition) (k : Except S3Error Unit → Task F B) :
    (deleteObject key cond >>= k) = next (.request (.delete key cond)) k := rfl

@[simp] theorem withQueue_bind (change : List SyncOperation → List SyncOperation)
    (k : List SyncOperation → Task F B) : (withQueue change >>= k) = next (.queue change) k := rfl

@[simp] theorem withCache_bind (change : MetadataCache → MetadataCache) (k : MetadataCache → Task F B) :
    (withCache change >>= k) = next (.cache change) k := rfl

@[simp] theorem withLeases_bind (change : LeaseTable → LeaseTable) (k : LeaseTable → Task F B) :
    (withLeases change >>= k) = next (.leases change) k := rfl

@[simp] theorem withSchedule_bind (change : Schedule → Schedule) (k : Schedule → Task F B) :
    (withSchedule change >>= k) = next (.schedule change) k := rfl

@[simp] theorem instant_bind (k : Nat → Task F B) : (instant >>= k) = next .now k := rfl

@[simp] theorem jitter_bind (k : Nat → Task F B) : (jitter >>= k) = next .jitter k := rfl

@[simp] theorem wake_bind (time : Nat) (k : Unit → Task F B) : (wake time >>= k) = next (.wake time) k := rfl

@[simp] theorem onFs_bind (call : LocalCall) (k : call.Reply → Task F B) :
    (onFs call >>= k) = next (.fs call) k := rfl

@[simp] theorem arrange_bind (keys : List String) (k : List String → Task F B) :
    (arrange keys >>= k) = next (.arrange keys) k := rfl

@[simp] theorem app_bind (change : F → F) (k : F → Task F B) : (app change >>= k) = next (.app change) k := rfl

@[simp] theorem only_next (allowed : Op F → Prop) (op : Op F) (k : op.Reply → Task F B) :
    (next op k).Only (I := syncSignature F) allowed ↔
      allowed op ∧ ∀ reply : op.Reply, (k reply).Only (I := syncSignature F) allowed := Iff.rfl

/-- `tokio::time::sleep`. -/
def sleep (duration : Nat) : Task F Unit := do
  let start ← instant
  wake (start + duration)

end

/-! Path-level requests. -/

section
variable {F : Type}

def fileInfo (info : ObjectMeta) : Option S3ObjectInfo :=
  (pathFromFileKey info.key).map fun named => ⟨named.1, info.etag, info.lastModified, info.size, named.2⟩

/-- Every object under `files/`, as VFS paths. -/
def listFiles : Task F (Except S3Error (List S3ObjectInfo)) := do
  let listed ← listObjects filesPrefix none
  return listed.map fun metas => metas.filterMap fileInfo

def headFile (path : String) : Task F (Except S3Error (Option ObjectMeta)) := headObject (fileKey path)

def getFile (path : String) : Task F (Except S3Error (Option (Bytes × ObjectMeta))) := getObject (fileKey path)

def putFile (path : String) (data : Bytes) (cond : Precondition) : Task F (Except S3Error String) :=
  putObject (fileKey path) data cond

def deleteFile (path : String) (cond : Precondition) : Task F (Except S3Error Unit) :=
  deleteObject (fileKey path) cond

def headDirMarker (path : String) : Task F (Except S3Error (Option String)) := do
  let found ← headObject (dirMarkerKey path)
  return found.map fun info => info.map (·.etag)

/-- Create a directory marker; `none` when it already existed. -/
def putDirMarker (path : String) : Task F (Except S3Error (Option String)) := do
  match ← putObject (dirMarkerKey path) [] .ifNoneMatchAny with
  | .ok etag => return .ok (some etag)
  | .error e => if e.isPreconditionFailed then return .ok none else return .error e

def deleteDirMarker (path : String) (cond : Precondition) : Task F (Except S3Error Unit) :=
  deleteObject (dirMarkerKey path) cond

def hasChildren (path : String) : Task F (Except S3Error Bool) := do
  let under ← listObjects (dirMarkerKey path) (some 2)
  return under.map fun metas => metas.any fun info => decide (info.key ≠ dirMarkerKey path)

variable {B : Type} (path : String) (data : Bytes) (cond : Precondition)

@[simp] theorem listFiles_bind (k : Except S3Error (List S3ObjectInfo) → Task F B) :
    (listFiles >>= k) = next (.request (.list filesPrefix none)) fun listed =>
      k (listed.map fun metas => metas.filterMap fileInfo) := rfl

@[simp] theorem headFile_bind (k : Except S3Error (Option ObjectMeta) → Task F B) :
    (headFile path >>= k) = next (.request (.head (fileKey path))) k := rfl

@[simp] theorem getFile_bind (k : Except S3Error (Option (Bytes × ObjectMeta)) → Task F B) :
    (getFile path >>= k) = next (.request (.get (fileKey path))) k := rfl

@[simp] theorem putFile_bind (k : Except S3Error String → Task F B) :
    (putFile path data cond >>= k) = next (.request (.put (fileKey path) data cond)) k := rfl

@[simp] theorem deleteFile_bind (k : Except S3Error Unit → Task F B) :
    (deleteFile path cond >>= k) = next (.request (.delete (fileKey path) cond)) k := rfl

@[simp] theorem headDirMarker_bind (k : Except S3Error (Option String) → Task F B) :
    (headDirMarker path >>= k) = next (.request (.head (dirMarkerKey path))) fun found =>
      k (found.map fun info => info.map (·.etag)) := rfl

@[simp] theorem deleteDirMarker_bind (k : Except S3Error Unit → Task F B) :
    (deleteDirMarker path cond >>= k) = next (.request (.delete (dirMarkerKey path) cond)) k := rfl

@[simp] theorem hasChildren_bind (k : Except S3Error Bool → Task F B) :
    (hasChildren path >>= k) = next (.request (.list (dirMarkerKey path) (some 2))) fun under =>
      k (under.map fun metas => metas.any fun info => decide (info.key ≠ dirMarkerKey path)) := rfl

end

end MonakaFs.Sync
