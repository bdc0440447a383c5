import MonakaFs.Sync.Manager

/-! Which operations a function can perform at all.

Most functions of the manager touch a small part of the state. Their programs
are bounded here once, by the operations they may contain, and every later
argument reuses the bound instead of the function.
-/

set_option autoImplicit false

namespace MonakaFs.Sync

open Async

variable {F : Type}

/-- A request that reads, or that writes below `locks/`. -/
def Request.Locking : Request → Prop
  | .list .. | .head _ | .get _ => True
  | .put key _ _ | .delete key _ => ∃ path, key = lockKey path

/-- An operation that leaves the manager's state and the local filesystem alone
and writes lock objects only. -/
def Op.Quiet : Op F → Prop
  | .request r => r.Locking
  | .now | .wake _ | .jitter | .arrange _ => True
  | _ => False

/-- An operation that leaves the cache, the leases and every local file alone. -/
def Op.Steady : Op F → Prop
  | .cache _ | .leases _ | .app _ => False
  | .fs (.writeFileContent ..) | .fs (.loadFile ..) | .fs (.unlink _) => False
  | _ => True

abbrev Silent {A : Type} (task : Task F A) : Prop := task.Only (I := syncSignature F) Op.Quiet

section
variable (id : InstanceId) (path : String) (epoch lease : Nat)

theorem verifyLeaseLanded_silent (key : String) : Silent (verifyLeaseLanded (F := F) key id epoch) := by
  simp only [verifyLeaseLanded, getObject_bind, only_next]
  refine ⟨trivial, fun reply => ?_⟩
  split
  · split <;> trivial
  · trivial

theorem writeRecord_silent (cond : Precondition) : Silent (writeRecord (F := F) id path epoch lease cond) := by
  simp only [writeRecord, putObject_bind, instant_bind, only_next]
  refine ⟨trivial, fun now => ⟨trivial, fun start => ⟨⟨path, rfl⟩, fun reply => ?_⟩⟩⟩
  split
  · trivial
  · refine (verifyLeaseLanded_silent id epoch _).bind fun landed => ?_
    cases landed <;> trivial

theorem attempt_silent (holder : Option String) : Silent (attempt (F := F) id path lease holder) := by
  simp only [attempt, getObject_bind, instant_bind, only_next]
  refine ⟨trivial, fun reply => ?_⟩
  split
  · trivial
  · exact (writeRecord_silent id path 1 lease _).bind fun written => by cases written <;> trivial
  · simp only [only_next]
    refine ⟨trivial, fun now => ?_⟩
    split
    · exact (writeRecord_silent id path _ lease _).bind fun written => by cases written <;> trivial
    · trivial

theorem acquireLoop_silent (deadline attempts backoff : Nat) (holder : Option String) :
    Silent (acquireLoop (F := F) id path lease deadline attempts backoff holder) := by
  induction attempts generalizing backoff holder with
  | zero => trivial
  | succ attempts ih =>
    refine (attempt_silent id path lease holder).bind fun outcome => ?_
    cases outcome with
    | acquired acquired => trivial
    | failed e => trivial
    | held holder =>
      simp only [instant_bind, only_next]
      refine ⟨trivial, fun now => ?_⟩
      split
      · trivial
      · simp only [jitter_bind, wake_bind, only_next]
        exact ⟨trivial, fun _ => ⟨trivial, fun _ => ih _ _⟩⟩

theorem acquire_silent (timeout : Nat) : Silent (acquire (F := F) id path lease timeout) := by
  simp only [acquire, instant_bind, only_next]
  exact ⟨trivial, fun start => acquireLoop_silent id path lease _ _ _ _⟩

theorem renew_silent (lockEtag : String) : Silent (renew (F := F) id path epoch lockEtag lease) := by
  simp only [renew, putObject_bind, instant_bind, only_next]
  refine ⟨trivial, fun now => ⟨trivial, fun start => ⟨⟨path, rfl⟩, fun reply => ?_⟩⟩⟩
  split <;> trivial

theorem release_silent (lockEtag : String) : Silent (release (F := F) path lockEtag) := by
  simp only [release, deleteObject_bind, only_next]
  exact ⟨⟨path, rfl⟩, fun _ => trivial⟩

end

theorem verifyUploadLanded_silent (path : String) (cond : Precondition) :
    Silent (SyncManager.verifyUploadLanded (F := F) path cond) := by
  simp only [SyncManager.verifyUploadLanded, headFile_bind, only_next]
  refine ⟨trivial, fun reply => ?_⟩
  rcases (reply : Except S3Error (Option ObjectMeta)) with e | _ | info <;> trivial

theorem passthroughChecks_silent (manager : SyncManager) (path : String) :
    Silent (manager.passthroughChecks (F := F) path) := by
  unfold SyncManager.passthroughChecks
  split
  · simp only [headFile_bind, headDirMarker_bind, hasChildren_bind, only_next]
    exact ⟨trivial, fun _ => ⟨trivial, fun _ => ⟨trivial, fun _ => trivial⟩⟩⟩
  · trivial

/-! ### Functions that pin no ETag -/

/-- An operation that cannot replace a version under `files/`. -/
def Op.Calm : Op F → Prop
  | .request (.put key _ cond) => cond = .ifNoneMatchAny ∨ ∀ path, key ≠ fileKey path
  | _ => True

/-- An operation that pins no ETag and writes no local file. -/
def Op.Tame : Op F → Prop
  | .leases change => ∀ table path etag, LeaseTable.base (change table) path = some etag → table.base path = some etag
  | .cache change => ∀ cache path etag, (change cache).etag path = some etag → cache.etag path = some etag
  | .app _ => True
  | op => op.Steady ∧ op.Calm

theorem quiet_allowed (op : Op F) (quiet : op.Quiet) : op.Steady ∧ op.Calm := by
  cases op with
  | request r =>
    refine ⟨trivial, ?_⟩
    cases r with
    | put key body cond =>
      obtain ⟨path, rfl⟩ := quiet
      exact .inr fun other same => fileKey_ne_lockKey other path same.symm
    | list | head | get | delete => trivial
  | now | wake | jitter | arrange => exact ⟨trivial, trivial⟩
  | queue | cache | leases | schedule | fs | app => exact quiet.elim

theorem quiet_tame (op : Op F) (quiet : op.Quiet) : op.Tame := by
  have allowed := quiet_allowed op quiet
  cases op with
  | queue | cache | leases | schedule | fs | app => exact quiet.elim
  | request | now | wake | jitter | arrange => exact allowed

theorem tame_alter {path : String} {change : WriteLease → WriteLease}
    (same : ∀ lease, (change lease).baseEtag = lease.baseEtag) :
    Op.Tame (F := F) (.leases fun table => table.alter path change) := fun table name etag pinned => by
  rwa [table.base_alter path name same] at pinned

theorem tame_remove (path : String) : Op.Tame (F := F) (.cache (·.remove path)) := fun cache name etag pinned => by
  simp only [MetadataCache.etag_remove] at pinned
  split at pinned
  · cases pinned
  · exact pinned

theorem tame_erase (path : String) : Op.Tame (F := F) (.leases (·.erase path)) := fun table name etag pinned => by
  simp only [LeaseTable.base, Map.lookup_erase_eq] at pinned
  split at pinned
  · cases pinned
  · exact pinned

section
variable (manager : SyncManager) (path : String)

theorem enqueueUpload_tame : (SyncManager.enqueueUpload (F := F) path).Only (I := syncSignature F) Op.Tame := by
  simp only [SyncManager.enqueueUpload, withLeases_bind, withQueue_bind, only_next]
  refine ⟨tame_alter fun _ => rfl, fun leases => ?_⟩
  split
  · trivial
  · exact ⟨⟨trivial, trivial⟩, fun _ => trivial⟩

theorem enqueueDelete_tame : (SyncManager.enqueueDelete (F := F) path).Only (I := syncSignature F) Op.Tame := by
  simp only [SyncManager.enqueueDelete, withLeases_bind, withQueue_bind, withCache_bind, only_next]
  refine ⟨tame_alter fun _ => rfl, fun leases => ?_⟩
  split
  · trivial
  · simp only [only_next]
    exact ⟨tame_remove path, fun _ => ⟨⟨trivial, trivial⟩, fun _ => trivial⟩⟩

theorem onMkdir_tame : (SyncManager.onMkdir (F := F) path).Only (I := syncSignature F) Op.Tame := by
  refine Prog.Only.bind (I := syncSignature F) ?_ fun made => ?_
  · simp only [putDirMarker, putObject_bind, only_next]
    refine ⟨⟨trivial, .inl rfl⟩, fun reply => ?_⟩
    split
    · trivial
    · split <;> trivial
  · split
    · trivial
    · simp only [withCache_bind, only_next]
      exact ⟨fun cache name etag pinned => pinned, fun _ => trivial⟩
    · simp only [headDirMarker_bind, only_next]
      refine ⟨⟨trivial, trivial⟩, fun found => ?_⟩
      split
      · trivial
      · trivial
      · simp only [withCache_bind, only_next]
        exact ⟨fun cache name etag pinned => pinned, fun _ => trivial⟩

theorem onRmdir_tame : (SyncManager.onRmdir (F := F) path).Only (I := syncSignature F) Op.Tame := by
  simp only [SyncManager.onRmdir, deleteDirMarker_bind, withCache_bind, only_next]
  refine ⟨fun cache name etag pinned => pinned, fun cache => ⟨⟨trivial, trivial⟩, fun reply => ?_⟩⟩
  split
  · split
    · simp only [only_next]
      exact ⟨fun cache name etag pinned => pinned, fun _ => trivial⟩
    · trivial
  · simp only [only_next]
    exact ⟨fun cache name etag pinned => pinned, fun _ => trivial⟩

theorem renewPaths_tame (paths : List String) :
    (manager.renewPaths (F := F) paths).Only (I := syncSignature F) Op.Tame := by
  induction paths with
  | nil => trivial
  | cons path paths ih =>
    simp only [SyncManager.renewPaths, withLeases_bind, only_next]
    refine ⟨fun table name etag pinned => pinned, fun leases => ?_⟩
    split
    · exact ih
    · refine ((renew_silent _ _ _ _ _).mono quiet_tame).bind fun renewed => ?_
      split
      · simp only [only_next]
        exact ⟨tame_alter fun _ => rfl, fun _ => ih⟩
      · split
        · simp only [only_next]
          exact ⟨tame_alter fun _ => rfl, fun _ => ih⟩
        · exact ih

theorem renewLeases_tame : (manager.renewLeases (F := F)).Only (I := syncSignature F) Op.Tame := by
  simp only [SyncManager.renewLeases, instant_bind, withLeases_bind, arrange_bind, only_next]
  exact ⟨⟨trivial, trivial⟩, fun now => ⟨fun table name etag pinned => pinned, fun leases =>
    ⟨⟨trivial, trivial⟩, fun due => renewPaths_tame manager due⟩⟩⟩

theorem pollDirs_tame (listed dirs : List String) :
    (SyncManager.pollDirs (F := F) listed dirs).Only (I := syncSignature F) Op.Tame := by
  induction dirs with
  | nil => trivial
  | cons dir rest ih =>
    unfold SyncManager.pollDirs
    split
    · exact ih
    · simp only [onFs_bind, withCache_bind, only_next]
      exact ⟨⟨trivial, trivial⟩, fun _ => ⟨fun cache name etag pinned => pinned, fun _ => ih⟩⟩

end

/-! ### Requests of an upload -/

/-- A request of any kind. -/
def Op.Remote : Op F → Prop
  | .request _ => True
  | _ => False

/-- A request that changes nothing. -/
def Op.Looks : Op F → Prop
  | .request r => r.writes = none
  | _ => False

section
open SyncManager

theorem passthroughChecks_looks (manager : SyncManager) (path : String) :
    (manager.passthroughChecks (F := F) path).Only (I := syncSignature F) Op.Looks := by
  unfold SyncManager.passthroughChecks
  split
  · simp only [headFile_bind, headDirMarker_bind, hasChildren_bind, only_next]
    exact ⟨rfl, fun _ => ⟨rfl, fun _ => ⟨rfl, fun _ => trivial⟩⟩⟩
  · trivial

theorem putUpload_remote (path : String) (content : Bytes) (cond : Precondition) :
    (putUpload (F := F) path content cond).Only (I := syncSignature F) Op.Remote := by
  have once : (putFile (F := F) path content .ifNoneMatchAny).Only (I := syncSignature F) Op.Remote :=
    ⟨trivial, fun _ => trivial⟩
  simp only [putUpload, putFile_bind, headFile_bind, verifyUploadLanded, Prog.call_bind, only_next]
  refine ⟨trivial, fun reply => ?_⟩
  split
  · trivial
  · split
    · exact once
    split
    · refine ⟨trivial, fun found => ?_⟩
      rcases (found : Except S3Error (Option ObjectMeta)) with failed | _ | info
      · trivial
      · exact once
      · trivial
    split
    · refine ⟨trivial, fun found => ?_⟩
      rcases (found : Except S3Error (Option ObjectMeta)) with e | _ | info
      · trivial
      · trivial
      · simp only [Prog.pure_eq, Prog.done_bind]
        split <;> trivial
    · trivial

end

end MonakaFs.Sync
