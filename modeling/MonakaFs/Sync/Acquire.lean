import MonakaFs.Sync.Effects

/-! Taking, renewing and giving back a lease.

Every write of a record is conditional on what was read before it, so the store
decides between instances. A failed write is looked at once more, because a lost
answer does not mean that the write was lost.
-/

set_option autoImplicit false

namespace MonakaFs.Sync

open Async

/-- What a successful acquisition knows about its record. -/
structure Acquired where
  lockEtag : String
  epoch : Nat
  expiresAt : Nat
  deriving DecidableEq, Repr

/-- Outcome of one look at the lock object. -/
inductive Attempt where
  | acquired (lease : Acquired)
  | failed (error : SyncError)
  | held (holder : Option String)
  deriving DecidableEq, Repr

variable {F : Type}

/-- The lock ETag, if the stored record carries this instance and epoch. -/
def verifyLeaseLanded (key : String) (id : InstanceId) (epoch : Nat) : Task F (Option String) := do
  match ← getObject key with
  | .ok (some (body, info)) =>
      match LockRecord.parse body with
      | some record => return if record.instanceId = id.text ∧ record.epoch = epoch then some info.etag else none
      | none => return none
  | _ => return none

/-- The record for a lease taken or extended at this instant. -/
def freshRecord (id : InstanceId) (epoch now lease : Nat) (path : String) : LockRecord :=
  ⟨id.text, epoch, (now + lease) % 2 ^ 64, path⟩

/-- Write a record under a condition and, if that fails, check whether it landed. -/
def writeRecord (id : InstanceId) (path : String) (epoch lease : Nat) (cond : Precondition) :
    Task F (Except S3Error Acquired) := do
  let now ← instant
  let start ← instant
  match ← putObject (lockKey path) (freshRecord id epoch now lease path).encode cond with
  | .ok lockEtag => return .ok ⟨lockEtag, epoch, start + lease⟩
  | .error putError =>
      match ← verifyLeaseLanded (lockKey path) id epoch with
      | some lockEtag => return .ok ⟨lockEtag, epoch, start + lease⟩
      | none => return .error putError

/-- The epoch under which a record is taken over. -/
def takeoverEpoch : Option LockRecord → Nat
  | some record => (record.epoch + 1) % 2 ^ 64
  | none => 1

/-- One attempt: create the record, take over an expired one, or report its holder. -/
def attempt (id : InstanceId) (path : String) (lease : Nat) (holder : Option String) : Task F Attempt := do
  match ← getObject (lockKey path) with
  | .error e => return .failed (.s3 e)
  | .ok none =>
      match ← writeRecord id path 1 lease .ifNoneMatchAny with
      | .ok acquired => return .acquired acquired
      | .error e => return if e.isPreconditionFailed then .held holder else .failed (.s3 e)
  | .ok (some (body, info)) =>
      let record := LockRecord.parse body
      let now ← instant
      if record.all (·.isExpired now) then
        match ← writeRecord id path (takeoverEpoch record) lease (.ifMatch info.etag) with
        | .ok acquired => return .acquired acquired
        | .error e => return if e.isPreconditionFailed || e.isNotFound then .held holder else .failed (.s3 e)
      else return .held (record.map (·.instanceId))

def acquireLoop (id : InstanceId) (path : String) (lease deadline : Nat) :
    Nat → Nat → Option String → Task F (Except SyncError Acquired)
  | 0, _, _ => .halt
  | attempts + 1, backoff, holder => do
      match ← attempt id path lease holder with
      | .acquired acquired => return .ok acquired
      | .failed e => return .error e
      | .held holder =>
          let now ← instant
          if deadline ≤ now then return .error (.busy path holder)
          else
            let extra ← jitter
            wake (now + min (backoff + extra) (deadline - now))
            acquireLoop id path lease deadline attempts (min (backoff * 2) 1000) holder

/-- Acquire the lease of a path, waiting up to the timeout for a live holder.
Every wait but the last takes fifty milliseconds or more, which bounds the attempts. -/
def acquire (id : InstanceId) (path : String) (lease timeout : Nat) : Task F (Except SyncError Acquired) := do
  let start ← instant
  acquireLoop id path lease (start + timeout) (timeout / 50 + 2) 50 none

/-- Extend a lease; the new lock ETag and the new local expiry. -/
def renew (id : InstanceId) (path : String) (epoch : Nat) (lockEtag : String) (lease : Nat) :
    Task F (Except S3Error (String × Nat)) := do
  let now ← instant
  let start ← instant
  match ← putObject (lockKey path) (freshRecord id epoch now lease path).encode (.ifMatch lockEtag) with
  | .ok etag => return .ok (etag, start + lease)
  | .error e => return .error e

/-- Delete a lease record if it is still the one with this ETag. -/
def release (path lockEtag : String) : Task F Unit := do
  let _ ← deleteObject (lockKey path) (.ifMatch lockEtag)

end MonakaFs.Sync
