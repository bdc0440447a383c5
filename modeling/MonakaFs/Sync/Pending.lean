import MonakaFs.Sync.Runs

/-! Inbound calls and the local changes that wait in the queue.

The poll asks the queue before it downloads a file or removes one. A read-through
and a metadata check ask the lease table only: they put what they fetch over a local
copy whose upload, or whose deletion, is still queued.
-/

set_option autoImplicit false

namespace MonakaFs.Sync.Pending

open Async SyncManager LawfulBackend

/-- The calls that bring remote versions in. -/
inductive Inbound {F : Type} : Call F → Prop where
  | pollInbound : Inbound .pollInbound
  | read (path : String) : Inbound (.read path)
  | stat (path : String) : Inbound (.stat path)

/-- A change of the path waits to be pushed. -/
def Queued [EtagScheme] {F : Type} (path : String) (s : Snapshot F) : Prop :=
  ∃ op ∈ s.manager.outboundQueue, op.path = path

/-- An operation that leaves the local copy of a path and the queue as they are. -/
def Op.Leaves {F : Type} (path : String) : Op F → Prop
  | .queue change => ∀ queue, change queue = queue
  | .fs (.writeFileContent other _) | .fs (.unlink other) => other ≠ path
  | .fs (.loadFile ..) | .app _ => False
  | _ => True

abbrev Leaving {F A : Type} (path : String) (task : Task F A) : Prop := task.Only (I := syncSignature F) (Op.Leaves path)

section
variable {F : Type} {path other : String}

theorem transfers_leaves (different : other ≠ path) (op : Op F) (transfers : op.Transfers True other) : Op.Leaves path op := by
  cases transfers with
  | write => exact different
  | look | put | delete | readCache | forget | uploaded | downloaded | readLeases | pin | unpin | now | read | stat => trivial

theorem deleteLocalFile_leaves (different : other ≠ path) : Leaving (F := F) path (deleteLocalFile other) := by
  simp only [deleteLocalFile, onFs_bind, only_next]
  refine ⟨different, fun removed => ?_⟩
  rcases (removed : Except S3Error Unit) with e | _
  · trivial
  · exact ⟨trivial, fun _ => trivial⟩

theorem refreshFileFromS3_leaves (different : other ≠ path) : Leaving (F := F) path (refreshFileFromS3 other) := by
  simp only [refreshFileFromS3, isLocked_bind, only_next]
  refine ⟨trivial, fun leases => ?_⟩
  split
  · trivial
  simp only [getFile_bind, only_next]
  refine ⟨trivial, fun found => ?_⟩
  split
  · trivial
  · trivial
  · refine ((storeDownload_moving other _ _).mono (transfers_leaves different)).bind fun stored => ?_
    cases stored <;> trivial

theorem checkAndRefreshFromS3_leaves (different : other ≠ path) : Leaving (F := F) path (checkAndRefreshFromS3 other) := by
  simp only [checkAndRefreshFromS3, isLocked_bind, only_next]
  refine ⟨trivial, fun leases => ?_⟩
  split
  · trivial
  · exact ((headAndRefresh_moving other).mono (transfers_leaves different)).bind fun _ => trivial

theorem pollMarker_leaves (info : S3ObjectInfo) : Leaving (F := F) path (pollMarker info) := by
  simp only [pollMarker, withCache_bind, only_next]
  refine ⟨trivial, fun cache => ?_⟩
  split
  · trivial
  · exact ⟨trivial, fun _ => ⟨trivial, fun _ => trivial⟩⟩

theorem pollDirs_leaves (listed dirs : List String) : Leaving (F := F) path (pollDirs listed dirs) := by
  induction dirs with
  | nil => trivial
  | cons dir rest ih =>
    unfold pollDirs
    split
    · exact ih
    · exact ⟨trivial, fun _ => ⟨trivial, fun _ => ih⟩⟩

end

/-! ### The poll -/

section
variable [EtagScheme] {F A : Type} [LawfulBackend F] {path : String} {bytes : Option Bytes} {s : Node F}

/-- The calls of one instance, one at a time. -/
abbrev calls : Contract (syncSignature F) (Node F) := runs Faulty bystanders

/-- The local copy is this, and its change is queued. -/
structure Kept (path : String) (bytes : Option Bytes) (s : Snapshot F) : Prop where
  bytes : content s.fs path = bytes
  queued : Queued path s

theorem Kept.moves {s t : Snapshot F} (kept : Kept path bytes s) (moved : bystanders.moves s t) : Kept path bytes t where
  bytes := by rw [moved.2]; exact kept.bytes
  queued := by
    obtain ⟨op, member, same⟩ := kept.queued
    exact ⟨op, by rw [moved.1]; exact member, same⟩

/-- What leaves the copy alone leaves it alone. -/
theorem content_act {op : Op F} (leaves : Op.Leaves path op) (turn : Turn) (s : Snapshot F) :
    content (s.act turn op).2.fs path = content s.fs path := by
  cases op with
  | app => exact leaves.elim
  | request | queue | cache | leases | schedule | now | wake | jitter | arrange => rfl
  | fs call =>
    have same : call.Leaves path := by cases call <;> exact leaves
    exact same.content s.fs

theorem Kept.act {s : Snapshot F} (kept : Kept path bytes s) {op : Op F} (leaves : Op.Leaves path op) (turn : Turn) :
    Kept path bytes (s.act turn op).2 where
  bytes := (content_act leaves turn s).trans kept.bytes
  queued := by
    obtain ⟨waiting, member, same⟩ := kept.queued
    refine ⟨waiting, ?_, same⟩
    cases op with
    | queue change =>
      show waiting ∈ change s.manager.outboundQueue
      rw [leaves]
      exact member
    | app => exact leaves.elim
    | request | cache | leases | schedule | now | wake | jitter | arrange | fs => exact member

abbrev Keeping (path : String) (bytes : Option Bytes) : A → Node F → Prop := fun _ t => Kept path bytes t.state

theorem keeps_kept : (calls (F := F)).Keeps (fun t => Kept path bytes t.state) (Op.Leaves path) where
  stable kept moves := kept.moves moves.2
  waits _ := trivial
  step leaves kept effect := by
    obtain ⟨⟨turn, -, -, later⟩, -⟩ := node_effect effect
    exact ⟨trivial, later ▸ kept.act leaves turn⟩

theorem leave {task : Task F A} (only : Leaving path task) (kept : Kept path bytes s.state) :
    calls.Safe (Keeping path bytes) task s := keeps_kept.safe only kept

theorem leave_next {op : Op F} {k : op.Reply → Task F A} (leaves : Op.Leaves path op) (kept : Kept path bytes s.state)
    (rest : ∀ reply u, Kept path bytes u.state → calls.Safe (Keeping path bytes) (k reply) u) :
    calls.Safe (Keeping path bytes) (next op k) s :=
  safe_next fun _ reply _ moved ⟨turn, _, _, later⟩ => rest reply _ (by rw [later]; exact (kept.moves moved).act leaves turn)

theorem return_kept (value : A) (kept : Kept path bytes s.state) :
    calls.Safe (Keeping path bytes) (.done value : Task F A) s := safe_return fun _ moved => kept.moves moved

/-- The poll works on a path only if no change of it is queued. -/
theorem checked_safe {other : String} {task : Task F A} {value : A}
    (safe : other ≠ path → ∀ u : Node F, Kept path bytes u.state → calls.Safe (Keeping path bytes) task u)
    (kept : Kept path bytes s.state) : calls.Safe (Keeping path bytes) (do
      if ← isLocked other then return value
      if ← hasPendingOp other then return value
      task) s := by
  rw [isLocked_bind]
  refine leave_next trivial kept fun leases u kept => ?_
  split
  · exact return_kept value kept
  rw [hasPendingOp_bind]
  refine safe_next ?_
  rintro t queue v moved ⟨turn, -, answer, later⟩
  have kept := kept.moves moved
  have looked : Kept path bytes v := by
    rw [later]
    exact kept.act (show Op.Leaves path (.queue id) from fun _ => rfl) turn
  split
  · exact return_kept value looked
  · next unqueued =>
    refine safe ?_ _ looked
    rintro rfl
    obtain ⟨op, member, same⟩ := kept.queued
    refine unqueued (List.any_eq_true.mpr ⟨op, ?_, decide_eq_true same⟩)
    rw [answer]
    exact member

theorem pollFile_safe (info : S3ObjectInfo) (kept : Kept path bytes s.state) :
    calls.Safe (Keeping path bytes) (pollFile (F := F) info) s := by
  simp only [pollFile, withCache_bind]
  refine leave_next trivial kept fun cache u kept => ?_
  split
  · exact return_kept _ kept
  refine checked_safe (fun different v kept => ?_) kept
  refine (leave ((downloadFile_moving info).mono (transfers_leaves different)) kept).bind fun result w kept => ?_
  cases result with
  | error e => exact return_kept _ kept
  | ok _ => exact return_kept _ kept

theorem pollObjects_safe (objects : List S3ObjectInfo) (stats : SyncStats) (kept : Kept path bytes s.state) :
    calls.Safe (Keeping path bytes) (pollObjects (F := F) objects stats) s := by
  induction objects generalizing stats s with
  | nil => exact return_kept _ kept
  | cons info rest ih =>
    unfold pollObjects
    split
    · exact (leave (pollMarker_leaves info) kept).bind fun _ _ kept => ih _ kept
    · exact (pollFile_safe info kept).bind fun _ _ kept => ih _ kept

theorem pollGone_safe (listed : List String) (other : String) (kept : Kept path bytes s.state) :
    calls.Safe (Keeping path bytes) (pollGone (F := F) listed other) s := by
  unfold pollGone
  split
  · exact return_kept _ kept
  refine checked_safe (fun different v kept => ?_) kept
  refine (leave (deleteLocalFile_leaves different) kept).bind fun result w kept => ?_
  cases result with
  | error e => exact return_kept _ kept
  | ok _ => exact return_kept _ kept

theorem pollDeleted_safe (listed paths : List String) (stats : SyncStats) (kept : Kept path bytes s.state) :
    calls.Safe (Keeping path bytes) (pollDeleted (F := F) listed paths stats) s := by
  induction paths generalizing stats s with
  | nil => exact return_kept _ kept
  | cons other rest ih => exact (pollGone_safe listed other kept).bind fun _ _ kept => ih _ kept

theorem pollInbound_safe (kept : Kept path bytes s.state) : calls.Safe (Keeping path bytes) (pollInbound (F := F)) s := by
  simp only [pollInbound, listFiles_bind]
  refine leave_next trivial kept fun listed u kept => ?_
  rcases (listed : Except S3Error (List ObjectMeta)) with e | metas
  · exact return_kept _ kept
  refine (pollObjects_safe _ _ kept).bind fun stats v kept => ?_
  refine leave_next trivial kept fun cache w kept => leave_next trivial kept fun paths x kept => ?_
  refine (pollDeleted_safe _ _ _ kept).bind fun stats y kept => ?_
  refine leave_next trivial kept fun cache z kept => leave_next trivial kept fun dirs a kept => ?_
  exact (leave (pollDirs_leaves _ _) kept).bind fun _ _ kept => return_kept _ kept

end

/-! ### One file -/

section
variable [EtagScheme] {F A : Type} [LawfulBackend F] {path : String} {bytes : Option Bytes} {s : Node F}

/-- The store answers a GET with other bytes than the local copy, and the local filesystem takes them. -/
def Overtakes (path : String) : Entry F → Prop
  | ⟨.request (.get key), reply, before, _⟩ => key = fileKey path ∧ ∃ (data : Bytes) (info : ObjectMeta),
      reply = .ok (some (data, info)) ∧ content before.fs path ≠ some data ∧ (writeFileContent path data before.fs).1 = .ok ()
  | _ => False

/-- The local copy is as it was, if nothing that was fetched differs. -/
def Judged (path : String) (bytes : Option Bytes) (s : Node F) : Prop :=
  content s.state.fs path = bytes ↔ ∀ moment ∈ s.log, ¬ Overtakes path moment

/-- Nothing was fetched so far. -/
structure Fresh (path : String) (bytes : Option Bytes) (s : Node F) : Prop where
  bytes : content s.state.fs path = bytes
  unfetched : ∀ moment ∈ s.log, ¬ Overtakes path moment

theorem return_fresh (value : A) (fresh : Fresh path bytes s) :
    calls.Safe (fun _ t => Judged path bytes t) (.done value : Task F A) s :=
  safe_return fun _ moved => by
    refine iff_of_true ?_ fresh.unfetched
    rw [moved.2]
    exact fresh.bytes

/-- An operation that fetches nothing. -/
theorem fresh_next {op : Op F} {k : op.Reply → Task F A} {post : A → Node F → Prop} (leaves : Op.Leaves path op)
    (unfetched : ∀ key, op ≠ .request (.get key)) (fresh : Fresh path bytes s)
    (rest : ∀ t reply u, bystanders.moves s.state t → (∃ turn, reply = (Snapshot.act turn op t).1 ∧ u.state = (Snapshot.act turn op t).2) →
      Fresh path bytes u → calls.Safe post (k reply) u) : calls.Safe post (next op k) s := by
  refine safe_next ?_
  rintro t reply u moved ⟨turn, -, answer, later⟩
  refine rest t reply _ moved ⟨turn, answer, later⟩ ⟨?_, List.forall_mem_cons.mpr ⟨?_, fresh.unfetched⟩⟩
  · show content u.fs path = bytes
    rw [later, content_act leaves, moved.2]
    exact fresh.bytes
  · intro overtakes
    cases op with
    | request r =>
      cases r with
      | get key => exact unfetched key rfl
      | list | head | put | delete => exact overtakes
    | queue | cache | leases | schedule | now | wake | jitter | arrange | fs | app => exact overtakes

/-- What a GET brought is written over the local copy, unless the filesystem refuses it. -/
theorem judged_store (newer : Log F) {data : Bytes} {info : ObjectMeta} {older : Log F} {before after : Snapshot F}
    {reply : Except S3Error (Option (Bytes × ObjectMeta))} (answer : reply = .ok (some (data, info)))
    (fresh : Fresh path bytes ⟨before, older⟩) (unfetched : ∀ moment ∈ newer, ¬ Overtakes path moment)
    (logged : s.log = newer ++ ⟨.request (.get (fileKey path)), reply, before, after⟩ :: older)
    (stored : content s.state.fs path = content (writeFileContent path data before.fs).2 path) : Judged path bytes s := by
  unfold Judged
  rw [stored, logged]
  -- The download could not be stored.
  cases outcome : (writeFileContent path data before.fs).1 with
  | error e =>
    rw [write_error outcome]
    refine iff_of_true fresh.bytes (List.forall_mem_append.mpr ⟨unfetched, List.forall_mem_cons.mpr ⟨?_, fresh.unfetched⟩⟩)
    rintro ⟨-, data', info', same, -, taken⟩
    rw [answer] at same
    cases same
    rw [outcome] at taken
    cases taken
  -- The download is stored. It overtakes the local change if its bytes differ.
  | ok _ =>
    rw [write_ok outcome, Function.update_self, ← fresh.bytes]
    constructor
    · intro kept
      refine List.forall_mem_append.mpr ⟨unfetched, List.forall_mem_cons.mpr ⟨?_, fresh.unfetched⟩⟩
      rintro ⟨-, data', info', same, differs, -⟩
      rw [answer] at same
      cases same
      exact differs kept.symm
    · intro none
      by_contra differs
      exact none ⟨.request (.get (fileKey path)), reply, before, after⟩ (by simp)
        ⟨rfl, data, info, answer, Ne.symm differs, outcome⟩

/-- The end of a refresh, once the GET is answered. -/
theorem storeDownload_safe {B : Type} {data : Bytes} {info : ObjectMeta} {k : Except S3Error Unit → Task F B} {older : Log F}
    {before after : Snapshot F} {reply : Except S3Error (Option (Bytes × ObjectMeta))}
    (ends : ∀ result, ∃ value, k result = .done value) (answer : reply = .ok (some (data, info)))
    (fresh : Fresh path bytes ⟨before, older⟩) (same : after.fs = before.fs) :
    calls.Safe (fun _ t => Judged path bytes t) (storeDownload path data info >>= k)
      ⟨after, ⟨.request (.get (fileKey path)), reply, before, after⟩ :: older⟩ := by
  simp only [storeDownload, onFs_bind, Prog.call_bind]
  refine safe_next ?_
  rintro t written u moved ⟨turn, -, answered, later⟩
  have stored : content u.fs path = content (writeFileContent path data before.fs).2 path := by
    rw [later, ← same, ← moved.2]
    rfl
  rcases (written : Except S3Error Unit) with e | _
  · obtain ⟨value, done⟩ := ends (.error e)
    simp only [Prog.pure_eq, Prog.done_bind, done]
    refine safe_return fun v waited => judged_store [_] answer fresh ?_ rfl ?_
    · simp [Overtakes]
    · rw [waited.2]
      exact stored
  · simp only [withCache_bind, Prog.call_bind]
    refine safe_next ?_
    rintro v reply' w moved' ⟨turn', -, -, later'⟩
    obtain ⟨value, done⟩ := ends (.ok ())
    simp only [Prog.pure_eq, Prog.done_bind, done]
    refine safe_return fun x waited => judged_store [_, _] answer fresh ?_ rfl ?_
    · simp [Overtakes]
    · rw [waited.2, later', ← stored, ← moved'.2]
      rfl

/-- A GET of the file and what is done with its answer. -/
theorem fetch_safe {B : Type} {k : Except S3Error (Option (Bytes × ObjectMeta)) → Task F B}
    (failed : ∀ e, ∃ value, k (.error e) = .done value) (missing : ∃ value, k (.ok none) = .done value)
    (found : ∀ data info, ∃ rest : Except S3Error Unit → Task F B, k (.ok (some (data, info))) = (storeDownload path data info >>= rest) ∧
      ∀ result, ∃ value, rest result = .done value) (fresh : Fresh path bytes s) :
    calls.Safe (fun _ t => Judged path bytes t) (next (.request (.get (fileKey path))) k) s := by
  refine safe_next ?_
  rintro t reply u moved ⟨turn, -, -, later⟩
  have here : Fresh path bytes ⟨t, s.log⟩ := ⟨by rw [← fresh.bytes, ← moved.2], fresh.unfetched⟩
  have files : u.fs = t.fs := by rw [later]; rfl
  rcases (reply : Except S3Error (Option (Bytes × ObjectMeta))) with e | _ | ⟨data, info⟩
  · obtain ⟨value, done⟩ := failed e
    rw [done]
    exact return_fresh value ⟨by rw [← here.bytes, ← files], List.forall_mem_cons.mpr ⟨by simp [Overtakes], fresh.unfetched⟩⟩
  · obtain ⟨value, done⟩ := missing
    rw [done]
    exact return_fresh value ⟨by rw [← here.bytes, ← files], List.forall_mem_cons.mpr ⟨by simp [Overtakes], fresh.unfetched⟩⟩
  · obtain ⟨rest, same, ends⟩ := found data info
    rw [same]
    exact storeDownload_safe ends rfl here files

theorem isLocked_next {B : Type} {k : Bool → Task F B} (unleased : s.state.manager.leases.lookup path = none)
    (fresh : Fresh path bytes s) (rest : ∀ u, Fresh path bytes u → calls.Safe (fun _ t => Judged path bytes t) (k false) u) :
    calls.Safe (fun _ t => Judged path bytes t) (isLocked path >>= k) s := by
  rw [isLocked_bind]
  refine fresh_next trivial (fun _ same => (by cases same)) fresh ?_
  rintro t leases u moved ⟨turn, answer, -⟩ fresh
  obtain rfl : leases = t.manager.leases := answer
  rw [moved.1, unleased]
  exact rest u fresh

theorem refreshFileFromS3_safe (unleased : s.state.manager.leases.lookup path = none) (fresh : Fresh path bytes s) :
    calls.Safe (fun _ t => Judged path bytes t) (refreshFileFromS3 (F := F) path) s := by
  unfold refreshFileFromS3
  refine isLocked_next unleased fresh fun u fresh => ?_
  simp only [Bool.false_eq_true, if_false, getFile_bind]
  refine fetch_safe (fun e => ⟨_, rfl⟩) ⟨_, rfl⟩ (fun data info => ⟨_, rfl, fun result => ?_⟩) fresh
  cases result with
  | error e => exact ⟨_, rfl⟩
  | ok _ => exact ⟨_, rfl⟩

theorem headAndRefresh_safe (fresh : Fresh path bytes s) :
    calls.Safe (fun _ t => Judged path bytes t) (headAndRefresh (F := F) path) s := by
  simp only [headAndRefresh, headFile_bind]
  refine fresh_next trivial (fun _ same => (by cases same)) fresh fun _ head u _ _ fresh => ?_
  rcases (head : Except S3Error (Option ObjectMeta)) with e | _ | seen
  · exact return_fresh _ fresh
  · exact return_fresh _ fresh
  simp only [withCache_bind]
  refine fresh_next trivial (fun _ same => (by cases same)) fresh fun _ cache v _ _ fresh => ?_
  split
  · exact return_fresh _ fresh
  simp only [getFile_bind]
  refine fetch_safe (fun e => ⟨_, rfl⟩) ⟨_, rfl⟩ (fun data info => ⟨_, rfl, fun result => ?_⟩) fresh
  cases result with
  | error e => exact ⟨_, rfl⟩
  | ok _ => exact ⟨_, rfl⟩

theorem checkAndRefreshFromS3_safe (unleased : s.state.manager.leases.lookup path = none) (fresh : Fresh path bytes s) :
    calls.Safe (fun _ t => Judged path bytes t) (checkAndRefreshFromS3 (F := F) path) s := by
  unfold checkAndRefreshFromS3
  refine isLocked_next unleased fresh fun u fresh => ?_
  refine (headAndRefresh_safe fresh).bind fun result v judged => safe_return fun t moved => ?_
  unfold Judged
  rw [moved.2]
  exact judged

/-! ### Any inbound call -/

/-- A read-through or a metadata check of the path fetches a version that differs from its local copy. -/
def Overtaken (path : String) (call : Call F) (log : Log F) : Prop :=
  (call = .read path ∨ call = .stat path) ∧ ∃ moment ∈ log, Overtakes path moment

theorem elsewhere {call : Call F} (inbound : Inbound call) (apart : ∀ other, call = .read other ∨ call = .stat other → other ≠ path)
    {manager : SyncManager} (kept : Kept path bytes s.state) : calls.Safe (Keeping path bytes) (call.task manager) s := by
  have ending {B : Type} {task : Task F B} (only : Leaving path task) : calls.Safe (Keeping path bytes) (do let _ ← task) s :=
    (leave only kept).bind fun _ _ kept => return_kept _ kept
  cases inbound with
  | pollInbound => exact (pollInbound_safe kept).bind fun _ _ kept => return_kept _ kept
  | read other => exact ending (refreshFileFromS3_leaves (apart other (.inl rfl)))
  | stat other => exact ending (checkAndRefreshFromS3_leaves (apart other (.inr rfl)))

end

/-! ### Concrete runs -/

section
open scoped ContentEtags

def sampleManager : SyncManager := Sample.manager .batch Sample.first

/-- The file was loaded, and then written locally. -/
def edited : ClusterConfig Unit MemFs :=
  Sample.after (fun _ => sampleManager) [("files/a", [1])] [((), .pollInbound), ((), .write "/a" (MemFs.writeLocal "/a" [2]))]

def sampleStart : Snapshot MemFs := (edited.shared.view ()).state

theorem sampleStart_queued : Queued "/a" sampleStart := ⟨.upload "/a", by decide +kernel, rfl⟩

end
end MonakaFs.Sync.Pending
