import MonakaFs.Sync.DataPath
import MonakaFs.Sync.Outbound.Evidence

/-! What the configured inbound mode decides.

The mode is parsed and kept, and nothing asks for it: a tick polls in every mode. A
file that changes locally without a poll is being opened or read, or the store has
just rejected a write of it.
-/

set_option autoImplicit false

namespace MonakaFs.Sync

open Async

/-- A call that can change the local filesystem. -/
def LocalCall.Changes : LocalCall → Prop
  | .readFileContent _ | .statModified _ => False
  | _ => True

namespace Ticking

open SyncManager Outbound

/-! ### The calls of one instance -/

section
variable [EtagScheme] {F A : Type} [FsBackend F]

/-- The sync layer reaches for a local file or directory to change it. -/
def Changes (moment : Entry F) : Prop := ∃ call, moment.op = .fs call ∧ call.Changes

/-- The listing of everything under `files/`. -/
def Lists (moment : Entry F) : Prop := moment.op = .request (.list filesPrefix none)

/-- The call opens or reads the path. -/
def Asks : Call F → String → Prop
  | .openWrite _ path, other => other = path
  | .read path, other => other = path
  | .stat path, other => other = path
  | _, _ => False

/-- The store rejected a write of the path, and nothing was listed since. -/
def Rejected (path : String) (log : Log F) : Prop :=
  ∃ newer moment older, log = newer ++ moment :: older ∧ Rejects path moment ∧ ∀ later ∈ newer, ¬ Lists later

/-- A local change is a refresh of the path concerned. -/
def Refreshes (call : Call F) (older : Log F) (moment : Entry F) : Prop :=
  Changes moment → ∃ path content, moment.op = .fs (.writeFileContent path content) ∧ (Asks call path ∨ Rejected path older)

/-- Calls one at a time, each with what it performed. Meanwhile the store and the clock move. -/
inductive History (manager : SyncManager) (start : Snapshot F) : List (Call F × Log F) → Snapshot F → Prop where
  | start : History manager start [] start
  | call {past : List (Call F × Log F)} {s : Snapshot F} {call : Call F} {t : Node F} :
      History manager start past s → Ran Faulty bystanders (call.task manager) s () t → History manager start ((call, t.log) :: past) t.state

/-- In a mode other than polling, local files change by refreshes only. -/
def Honoured (manager : SyncManager) (past : List (Call F × Log F)) : Prop :=
  manager.config.inboundMode ≠ .polling → ∀ entry ∈ past, Throughout (Refreshes entry.1) entry.2

/-! ### When a poll has nothing to do -/

/-- The path is leased, or a change of it is queued. -/
def Busy (state : ManagerState) (path : String) : Prop :=
  (state.leases.lookup path).isSome = true ∨ (state.outboundQueue.any fun op => op.path = path) = true

/-- The listed version is the one last seen here, or a change of the path is under way. -/
def Known (state : ManagerState) (info : S3ObjectInfo) : Prop :=
  if info.isDir = true then state.metadataCache.hasDir info.path = true
  else state.metadataCache.etag info.path = some info.etag ∨ Busy state info.path

/-- The listing tells nothing new. -/
structure Settled (objects : List S3ObjectInfo) (state : ManagerState) : Prop where
  known : ∀ info ∈ objects, Known state info
  files : ∀ path ∈ state.metadataCache.paths, path ∈ (objects.filter fun info => !info.isDir).map (·.path) ∨ Busy state path
  dirs : ∀ dir ∈ state.metadataCache.dirs, dir ∈ (objects.filter (·.isDir)).map (·.path)

/-- What is listed agrees with the state in which it is listed. -/
def Agrees : Entry F → Prop
  | ⟨.request (.list pre none), reply, before, _⟩ =>
      ∀ metas : List ObjectMeta, pre = filesPrefix → reply = .ok metas → Settled (metas.filterMap fileInfo) before.manager
  | _ => True

/-- What is fetched is there. -/
def Fetches : Entry F → Prop
  | ⟨.request (.get _), reply, _, _⟩ => ∃ found : Bytes × ObjectMeta, reply = .ok (some found)
  | _ => True

def Polls : Call F → Prop
  | .maybeSync | .pollInbound => True
  | _ => False

/-! ### What one operation may be -/

/-- No listing, and no change of the local filesystem. -/
def Op.Aloof : Op F → Prop
  | .request (.list _ none) => False
  | .fs (.readFileContent _) | .fs (.statModified _) => True
  | .fs _ => False
  | _ => True

omit [FsBackend F] in
theorem aloof_spec {moment : Entry F} (aloof : Op.Aloof moment.op) : ¬ Changes moment ∧ ¬ Lists moment := by
  constructor
  · rintro ⟨call, same, changes⟩
    rw [same] at aloof
    cases call <;> first | exact changes | exact aloof
  · intro lists
    rw [lists] at aloof
    exact aloof

/-- Nothing was listed since, and the changes are refreshes if they were so far. -/
structure Orderly (call : Call F) (s t : Node F) : Prop where
  unlisted : ∃ extra, t.log = extra ++ s.log ∧ ∀ moment ∈ extra, ¬ Lists moment
  refreshes : Throughout (Refreshes call) s.log → Throughout (Refreshes call) t.log

variable {call : Call F} {manager : SyncManager} {around : Surroundings F} {path : String} {s t u : Node F} {post : A → Node F → Prop}

omit [FsBackend F] in
theorem Orderly.same (same : t.log = s.log) : Orderly call s t :=
  ⟨⟨[], same, fun _ member => (by cases member)⟩, fun all => by rw [same]; exact all⟩

omit [FsBackend F] in
theorem Orderly.trans (first : Orderly call s t) (second : Orderly call t u) : Orderly call s u := by
  obtain ⟨older, logged, each⟩ := first.unlisted
  obtain ⟨newer, logged', each'⟩ := second.unlisted
  refine ⟨⟨newer ++ older, by rw [logged', logged, List.append_assoc], fun moment member => ?_⟩, fun all => second.refreshes (first.refreshes all)⟩
  exact (List.mem_append.mp member).elim (each' moment) (each moment)

omit [FsBackend F] in
theorem Orderly.rejected (orderly : Orderly call s t) (rejected : Rejected path s.log) : Rejected path t.log := by
  obtain ⟨extra, logged, each⟩ := orderly.unlisted
  obtain ⟨newer, moment, older, split, rejects, since⟩ := rejected
  refine ⟨extra ++ newer, moment, older, by rw [logged, split, List.append_assoc], rejects, fun later member => ?_⟩
  exact (List.mem_append.mp member).elim (each later) (since later)

omit [FsBackend F] in
theorem Orderly.step {moment : Entry F} {v : Snapshot F} (refreshes : Refreshes call s.log moment) (unlisted : ¬ Lists moment) :
    Orderly call s ⟨v, moment :: s.log⟩ :=
  ⟨⟨[moment], rfl, fun later member => by rw [List.mem_singleton.mp member]; exact unlisted⟩, fun all => ⟨refreshes, all⟩⟩

theorem aloof_next (call : Call F) {op : Op F} {k : op.Reply → Task F A} (aloof : Op.Aloof op)
    (rest : ∀ t reply u, (∃ turn, Faulty turn ∧ reply = (t.act turn op).1 ∧ u = (t.act turn op).2) →
      Orderly call s ⟨u, ⟨op, reply, t, u⟩ :: s.log⟩ → (runs Faulty around).Safe post (k reply) ⟨u, ⟨op, reply, t, u⟩ :: s.log⟩) :
    (runs Faulty around).Safe post (next op k) s := by
  refine safe_next fun t reply u _ served => rest t reply u served ?_
  have spec : ¬ Changes (⟨op, reply, t, u⟩ : Entry F) ∧ ¬ Lists (⟨op, reply, t, u⟩ : Entry F) := aloof_spec aloof
  exact .step (fun changes => absurd changes spec.1) spec.2

theorem orderly_return {value : A} (orderly : Orderly call s t) :
    (runs Faulty around).Safe (fun _ u => Orderly call s u) (.done value) t :=
  safe_return fun _ _ => orderly.trans (.same rfl)

/-- Operations that are all aloof. -/
theorem aloof_safe (call : Call F) {task : Task F A} (only : task.Only (I := syncSignature F) Op.Aloof) :
    (runs Faulty around).Safe (fun _ t => Orderly call s t) task s := by
  suffices onward : ∀ t, Orderly call s t → (runs Faulty around).Safe (fun _ t => Orderly call s t) task t from onward s (.same rfl)
  induction task with
  | done value => exact fun t orderly => orderly_return orderly
  | halt => exact fun _ _ _ _ => trivial
  | call op next ih =>
    intro t orderly
    exact aloof_next call only.1 fun v reply w _ step => ih reply (only.2 reply) _ (orderly.trans step)

/-! ### A rejected write and its refresh -/

omit [FsBackend F] in
theorem Rejected.now {moment : Entry F} (rejects : Rejects path moment) (log : Log F) : Rejected path (moment :: log) :=
  ⟨[], moment, log, rfl, rejects, fun _ member => (by cases member)⟩

omit [FsBackend F] in
theorem rejected_put {content : Bytes} {cond : Precondition} {e : S3Error} (precondition : e.isPreconditionFailed = true)
    (v w : Snapshot F) (log : Log F) : Rejected path (⟨.request (.put (fileKey path) content cond), .error e, v, w⟩ :: log) :=
  .now (show Rejects path ⟨.request (.put (fileKey path) content cond), .error e, v, w⟩ from ⟨rfl, e, rfl, precondition⟩) log

/-- A PUT that failed for its condition was rejected. -/
def Tried (call : Call F) (path : String) (s : Node F) (result : Except S3Error String) (t : Node F) : Prop :=
  Orderly call s t ∧ ∀ e, result = .error e → e.isPreconditionFailed = true → Rejected path t.log

/-- The last PUT of an upload. -/
theorem lastPut_orderly {content : Bytes} {cond : Precondition} (orderly : Orderly call s t) :
    (runs Faulty around).Safe (Tried call path s) (putFile path content cond) t := by
  refine aloof_next call trivial fun v reply w _ step => safe_return fun x _ => ⟨(orderly.trans step).trans (.same rfl), fun e failed precondition => ?_⟩
  cases failed
  exact rejected_put precondition v w t.log

variable (call) in
theorem putUpload_orderly {content : Bytes} {cond : Precondition} :
    (runs Faulty around).Safe (Tried call path s) (putUpload path content cond) s := by
  simp only [putUpload, putFile_bind]
  refine aloof_next call trivial fun t reply u _ put => ?_
  rcases (reply : Except S3Error String) with e | etag
  · simp only
    split
    · exact lastPut_orderly put
    split
    · simp only [headFile_bind]
      refine aloof_next call trivial fun v found w served head => ?_
      obtain ⟨turn, faulty, answer, -⟩ := served
      have orderly := put.trans head
      rcases (found : Except S3Error (Option ObjectMeta)) with failed | _ | info
      · refine safe_return fun x _ => ⟨orderly.trans (.same rfl), fun e' same precondition => ?_⟩
        cases same
        exact absurd precondition (not_precondition_of_transport (look_failed rfl faulty answer.symm))
      · exact lastPut_orderly orderly
      · refine safe_return fun x _ => ⟨orderly.trans (.same rfl), fun e' same precondition => ?_⟩
        cases same
        exact head.rejected (rejected_put precondition t u s.log)
    split
    -- No answer about the condition: a HEAD decides.
    · next other =>
      have accepted : e.isPreconditionFailed ≠ true := by simpa using other
      simp only [verifyUploadLanded, headFile_bind, Prog.call_bind]
      refine aloof_next call trivial fun v found w _ head => ?_
      have orderly := put.trans head
      have given {x : Node F} (orderly : Orderly call s x) : (runs Faulty around).Safe (Tried call path s) (.done (.error e)) x := by
        refine safe_return fun y _ => ⟨orderly.trans (.same rfl), fun e' same precondition => ?_⟩
        cases same
        exact absurd precondition accepted
      rcases (found : Except S3Error (Option ObjectMeta)) with failed | _ | info
      · exact given orderly
      · exact given orderly
      · simp only [Prog.pure_eq, Prog.done_bind]
        split
        · exact safe_return fun x _ => ⟨orderly.trans (.same rfl), fun e' same => (by cases same)⟩
        · exact given orderly
    · refine safe_return fun x _ => ⟨put.trans (.same rfl), fun e' same precondition => ?_⟩
      cases same
      exact rejected_put precondition t u s.log
  · exact safe_return fun x _ => ⟨put.trans (.same rfl), fun e' same => (by cases same)⟩

variable (call) in
/-- The checks of the passthrough mode fail in transit only. -/
theorem passthroughChecks_orderly :
    (runs Faulty around).Safe (fun result t => Orderly call s t ∧ ∀ e, result = .error e → e.isPreconditionFailed ≠ true)
      (manager.passthroughChecks (F := F) path) s := by
  unfold passthroughChecks
  split
  · simp only [headFile_bind, headDirMarker_bind, hasChildren_bind]
    refine aloof_next call trivial fun t file u served first => ?_
    refine aloof_next call trivial fun v dir w served' second => ?_
    refine aloof_next call trivial fun x children y served'' third => ?_
    refine safe_return fun z _ => ⟨((first.trans second).trans third).trans (.same rfl), fun e failed => not_precondition_of_transport ?_⟩
    obtain ⟨turn, faulty, answer, -⟩ := served
    obtain ⟨turn', faulty', answer', -⟩ := served'
    obtain ⟨turn'', faulty'', answer'', -⟩ := served''
    rcases (file : Except S3Error (Option ObjectMeta)) with e' | file
    · cases failed
      exact look_failed rfl faulty answer.symm
    rcases (dir : Except S3Error (Option ObjectMeta)) with e' | dir
    · cases failed
      exact look_failed rfl faulty' answer'.symm
    rcases (children : Except S3Error (List ObjectMeta)) with e' | children
    · cases failed
      exact look_failed rfl faulty'' answer''.symm
    · cases failed
  · exact safe_return fun t _ => ⟨.same rfl, fun e failed => (by cases failed)⟩

variable (call) in
/-- An upload that failed for its condition was rejected. -/
theorem uploadWithCond_orderly {cond : Precondition} :
    (runs Faulty around).Safe (fun result t => Orderly call s t ∧ ∀ e, result = .error e → isRejection e = true → Rejected path t.log)
      (manager.uploadWithCond path cond) s := by
  have failed {t : Node F} {e : SyncError} (orderly : Orderly call s t) (rejected : isRejection e = true → Rejected path t.log) :
      (runs Faulty around).Safe (fun result t => Orderly call s t ∧
        ∀ e, result = .error e → isRejection e = true → Rejected path t.log) (.done (.error e : Except SyncError String)) t := by
    refine safe_return fun u _ => ⟨orderly.trans (.same rfl), fun e' same => ?_⟩
    cases same
    exact rejected
  simp only [uploadWithCond, onFs_bind]
  refine aloof_next call trivial fun t reply u _ read => ?_
  rcases (reply : Except S3Error Bytes) with e | content
  · exact failed read fun rejects => by cases rejects
  refine aloof_next call trivial fun v modified w _ stat => ?_
  refine (passthroughChecks_orderly call).bind ?_
  rintro checked x ⟨checks, passed⟩
  have orderly := (read.trans stat).trans checks
  rcases checked with e | _
  · exact failed orderly fun rejects => absurd rejects (passed e rfl)
  refine (putUpload_orderly call).bind ?_
  rintro result y ⟨put, rejected⟩
  have orderly := orderly.trans put
  rcases result with e | etag
  · exact failed orderly fun rejects => rejected e rfl rejects
  · simp only [recordUpload, instant_bind, withCache_bind, withLeases_bind, Prog.call_bind]
    refine aloof_next call trivial fun _ _ _ _ first => ?_
    refine aloof_next call trivial fun _ _ _ _ second => ?_
    refine aloof_next call trivial fun _ _ _ _ third => ?_
    have orderly := ((orderly.trans first).trans second).trans third
    exact safe_return fun _ _ => ⟨orderly.trans (.same rfl), fun e same => (by cases same)⟩

/-- The path may be refreshed. -/
def Due (call : Call F) (path : String) (log : Log F) : Prop := Asks call path ∨ Rejected path log

omit [FsBackend F] in
theorem Orderly.due (orderly : Orderly call s t) (due : Due call path s.log) : Due call path t.log :=
  due.imp_right orderly.rejected

theorem storeDownload_orderly {content : Bytes} {info : ObjectMeta} (due : Due call path s.log) :
    (runs Faulty around).Safe (fun _ t => Orderly call s t) (storeDownload path content info) s := by
  simp only [storeDownload, onFs_bind]
  refine safe_next fun t reply u _ _ => ?_
  have stored : Orderly call s ⟨u, ⟨.fs (.writeFileContent path content), reply, t, u⟩ :: s.log⟩ :=
    .step (fun _ => ⟨path, content, rfl, due⟩) fun lists => by cases lists
  rcases (reply : Except S3Error Unit) with e | _
  · exact orderly_return stored
  · exact aloof_next call trivial fun _ _ _ _ step => orderly_return (stored.trans step)

variable (call) in
theorem refreshLocalFromRemote_orderly (due : Due call path s.log) :
    (runs Faulty around).Safe (fun _ t => Orderly call s t) (refreshLocalFromRemote (F := F) path) s := by
  simp only [refreshLocalFromRemote, getFile_bind]
  refine aloof_next call trivial fun t reply u _ get => ?_
  rcases (reply : Except S3Error (Option (Bytes × ObjectMeta))) with e | _ | ⟨content, info⟩
  · exact orderly_return get
  · exact aloof_next call trivial fun _ _ _ _ second => aloof_next call trivial fun _ _ _ _ third =>
      orderly_return ((get.trans second).trans third)
  · refine (storeDownload_orderly (get.due due)).bind fun stored v store => ?_
    rcases stored with e | _
    · exact orderly_return (get.trans store)
    · exact aloof_next call trivial fun _ _ _ _ pin => orderly_return ((get.trans store).trans pin)

variable (call) in
theorem conflict_orderly (due : Due call path s.log) :
    (runs Faulty around).Safe (fun _ t => Orderly call s t) (conflict (F := F) path) s :=
  (refreshLocalFromRemote_orderly call due).bind fun _ _ orderly => orderly_return orderly

variable (call) in
theorem handleUploadConflict_orderly (rejected : Rejected path s.log) :
    (runs Faulty around).Safe (fun _ t => Orderly call s t) (manager.handleUploadConflict (F := F) path) s := by
  unfold handleUploadConflict
  split
  · refine (uploadWithCond_orderly call).bind ?_
    rintro result t ⟨orderly, -⟩
    cases result <;> exact orderly_return orderly
  · exact (conflict_orderly call (.inr rejected)).bind fun _ _ orderly => orderly_return orderly

omit [EtagScheme] [FsBackend F] in
theorem condForUpload_aloof (path : String) : (condForUpload (F := F) path).Only (I := syncSignature F) Op.Aloof := by
  simp only [condForUpload, withLeases_bind, only_next]
  refine ⟨trivial, fun leases => ?_⟩
  split
  · trivial
  · exact ⟨trivial, fun _ => trivial⟩

variable (call) in
theorem syncFileNow_orderly :
    (runs Faulty around).Safe (fun _ t => Orderly call s t) (manager.syncFileNow (F := F) path) s := by
  unfold syncFileNow
  refine (aloof_safe call (condForUpload_aloof path)).bind fun cond t first => ?_
  refine (uploadWithCond_orderly call).bind ?_
  rintro result u ⟨second, rejected⟩
  have orderly := first.trans second
  rcases result with e | etag
  · simp only
    split
    · next rejects => exact (handleUploadConflict_orderly call (rejected e rfl rejects)).weaken fun _ _ third => orderly.trans third
    · exact orderly_return orderly
  · exact orderly_return orderly

/-! ### Flushes and releases -/

variable (call) in
theorem flushUpload_orderly :
    (runs Faulty around).Safe (fun _ t => Orderly call s t) (manager.flushUpload (F := F) path) s := by
  have requeued {t : Node F} {e : SyncError} (orderly : Orderly call s t) :
      (runs Faulty around).Safe (fun _ t => Orderly call s t) (do
        requeue path
        return (.error e : Except SyncError Bool)) t :=
    aloof_next call trivial fun _ _ _ _ step => orderly_return (orderly.trans step)
  unfold flushUpload
  split
  · exact orderly_return (.same rfl)
  simp only [isLocked_bind]
  refine aloof_next call trivial fun t leases u _ looked => ?_
  split
  · exact orderly_return looked
  refine (aloof_safe call (condForUpload_aloof path)).bind fun cond v conditions => ?_
  refine (uploadWithCond_orderly call).bind ?_
  rintro result w ⟨uploads, rejected⟩
  have orderly := (looked.trans conditions).trans uploads
  rcases result with e | etag
  · simp only
    split
    -- A rejected upload is a reason to look at the remote file.
    · next rejects =>
      refine (handleUploadConflict_orderly call (rejected e rfl rejects)).bind fun settled x handled => ?_
      rcases settled with e' | _
      · simp only
        split
        · exact orderly_return (orderly.trans handled)
        · exact requeued (orderly.trans handled)
      · exact orderly_return (orderly.trans handled)
    · exact requeued orderly
  · exact orderly_return orderly

omit [FsBackend F] in
theorem rejected_delete {cond : Precondition} {e : S3Error} (precondition : e.isPreconditionFailed = true) (v w : Snapshot F) (log : Log F) :
    Rejected path (⟨.request (.delete (fileKey path) cond), .error e, v, w⟩ :: log) :=
  .now (show Rejects path ⟨.request (.delete (fileKey path) cond), .error e, v, w⟩ from ⟨rfl, e, rfl, precondition⟩) log

variable (call) in
theorem flushDelete_orderly (etag : Option String) :
    (runs Faulty around).Safe (fun _ t => Orderly call s t) (manager.flushDelete (F := F) path etag) s := by
  have plainly {t : Node F} (orderly : Orderly call s t) : (runs Faulty around).Safe (fun _ t => Orderly call s t) (do
      let _ ← deleteFile path .none) t :=
    aloof_next call trivial fun _ _ _ _ step => orderly_return (orderly.trans step)
  simp only [flushDelete, deleteFile_bind]
  refine aloof_next call trivial fun t reply u _ deleted => ?_
  rcases (reply : Except S3Error Unit) with e | _
  · simp only
    split
    · next precondition =>
      split
      · exact (refreshLocalFromRemote_orderly call (.inr (rejected_delete precondition t u s.log))).bind fun _ _ refreshed =>
          orderly_return (deleted.trans refreshed)
      · exact plainly deleted
    · split
      · exact plainly deleted
      · exact orderly_return deleted
  · exact orderly_return deleted

variable (call) in
theorem flushLoop_orderly (rounds processed : Nat) (orderly : Orderly call s t) :
    (runs Faulty around).Safe (fun _ u => Orderly call s u) (manager.flushLoop (F := F) rounds processed) t := by
  have finish {t : Node F} (processed : Nat) (orderly : Orderly call s t) : (runs Faulty around).Safe (fun _ u => Orderly call s u) (do
      let now ← instant
      let _ ← withSchedule fun schedule => { schedule with lastFlush := now }
      return (.ok processed : Except SyncError Nat)) t :=
    aloof_next call trivial fun _ _ _ _ first => aloof_next call trivial fun _ _ _ _ second =>
      orderly_return ((orderly.trans first).trans second)
  induction rounds generalizing processed t with
  | zero => exact finish processed orderly
  | succ rounds ih =>
    simp only [flushLoop, withQueue_bind]
    refine aloof_next call trivial fun u queue v _ popped => ?_
    have orderly := orderly.trans popped
    split
    · exact finish processed orderly
    · refine (flushUpload_orderly call).bind fun result w flushed => ?_
      rcases result with e | counted
      · exact orderly_return (orderly.trans flushed)
      · exact ih _ (orderly.trans flushed)
    · exact (flushDelete_orderly call _).bind fun _ w flushed => ih _ (orderly.trans flushed)

variable (call) in
theorem forceFlush_orderly (rounds : Nat) (orderly : Orderly call s t) :
    (runs Faulty around).Safe (fun _ u => Orderly call s u) (manager.forceFlush (F := F) rounds) t := by
  induction rounds generalizing t with
  | zero => exact fun _ _ => trivial
  | succ rounds ih =>
    simp only [forceFlush, withQueue_bind]
    refine aloof_next call trivial fun u queue v _ looked => ?_
    split
    · exact orderly_return (orderly.trans looked)
    · refine (flushLoop_orderly call _ 0 (orderly.trans looked)).bind fun result w orderly => ?_
      rcases result with e | count
      · exact orderly_return orderly
      · exact (ih orderly).bind fun _ _ orderly => orderly_return orderly

variable (call) in
theorem flushLease_orderly (snapshot : WriteLease) :
    (runs Faulty around).Safe (fun _ t => Orderly call s t) (manager.flushLease (F := F) path snapshot) s := by
  unfold flushLease
  split
  · split
    · exact aloof_next call trivial fun _ _ _ _ step => orderly_return step
    · simp only [deleteFile_bind]
      refine aloof_next call trivial fun t reply u _ deleted => ?_
      rcases (reply : Except S3Error Unit) with e | _
      · simp only
        split
        · next precondition =>
          exact (conflict_orderly call (.inr (rejected_delete precondition t u s.log))).bind fun _ _ refreshed =>
            orderly_return (deleted.trans refreshed)
        · exact orderly_return deleted
      · exact aloof_next call trivial fun _ _ _ _ step => orderly_return (deleted.trans step)
  · split
    · exact orderly_return (.same rfl)
    · refine (uploadWithCond_orderly call).bind ?_
      rintro result t ⟨orderly, rejected⟩
      rcases result with e | etag
      · simp only
        split
        · next rejects =>
          exact (conflict_orderly call (.inr (rejected e rfl rejects))).bind fun _ _ refreshed => orderly_return (orderly.trans refreshed)
        · exact orderly_return orderly
      · exact orderly_return orderly

variable (call) in
theorem finishRelease_orderly (snapshot : WriteLease) :
    (runs Faulty around).Safe (fun _ t => Orderly call s t) (manager.finishRelease (F := F) path snapshot) s := by
  unfold finishRelease
  refine (flushLease_orderly call snapshot).bind fun result t flushed => ?_
  simp only [release, deleteObject_bind, withLeases_bind, Prog.call_bind]
  exact aloof_next call trivial fun _ _ _ _ first => aloof_next call trivial fun _ _ _ _ second =>
    orderly_return ((flushed.trans first).trans second)

variable (call) in
theorem releaseLeases_orderly (paths : List String) (firstError : Option SyncError) (orderly : Orderly call s t) :
    (runs Faulty around).Safe (fun _ u => Orderly call s u) (manager.releaseLeases (F := F) paths firstError) t := by
  induction paths generalizing t firstError with
  | nil => cases firstError <;> exact orderly_return orderly
  | cons path rest ih =>
    simp only [releaseLeases, beginRelease, withLeases_bind, Prog.call_bind, Prog.pure_eq, Prog.done_bind]
    refine aloof_next call trivial fun u leases v _ marked => ?_
    split
    · exact ih firstError (orderly.trans marked)
    · refine (finishRelease_orderly call _).bind fun result w released => ?_
      cases result <;> exact ih _ ((orderly.trans marked).trans released)

/-! ### Ticks before the poll -/

omit [EtagScheme] [FsBackend F] in
theorem renew_aloof (id : InstanceId) (path : String) (epoch : Nat) (lockEtag : String) (lease : Nat) :
    (renew (F := F) id path epoch lockEtag lease).Only (I := syncSignature F) Op.Aloof := by
  simp only [renew, putObject_bind, instant_bind, only_next]
  refine ⟨trivial, fun now => ⟨trivial, fun start => ⟨trivial, fun reply => ?_⟩⟩⟩
  split <;> trivial

omit [EtagScheme] [FsBackend F] in
theorem renewPaths_aloof (paths : List String) : (manager.renewPaths (F := F) paths).Only (I := syncSignature F) Op.Aloof := by
  induction paths with
  | nil => trivial
  | cons path paths ih =>
    simp only [renewPaths, withLeases_bind, only_next]
    refine ⟨trivial, fun leases => ?_⟩
    split
    · exact ih
    · refine (renew_aloof _ _ _ _ _).bind fun renewed => ?_
      split
      · exact ⟨trivial, fun _ => ih⟩
      · split
        · exact ⟨trivial, fun _ => ih⟩
        · exact ih

omit [EtagScheme] [FsBackend F] in
theorem renewLeases_aloof : (manager.renewLeases (F := F)).Only (I := syncSignature F) Op.Aloof :=
  ⟨trivial, fun _ => ⟨trivial, fun _ => ⟨trivial, fun due => renewPaths_aloof due⟩⟩⟩

variable (call) in
theorem flushIfDue_orderly : (runs Faulty around).Safe (fun _ t => Orderly call s t) (manager.flushIfDue (F := F)) s := by
  simp only [flushIfDue, withQueue_bind, withSchedule_bind, instant_bind]
  refine aloof_next call trivial fun _ queue _ _ first => ?_
  refine aloof_next call trivial fun _ schedule _ _ second => ?_
  refine aloof_next call trivial fun _ now _ _ third => ?_
  have orderly := (first.trans second).trans third
  split
  · refine (flushLoop_orderly call _ 0 orderly).bind fun result t orderly => ?_
    cases result <;> exact orderly_return orderly
  · exact orderly_return orderly

/-! ### Calls that do not poll -/

omit [EtagScheme] [FsBackend F] in
theorem enqueueUpload_aloof (path : String) : (enqueueUpload (F := F) path).Only (I := syncSignature F) Op.Aloof := by
  simp only [enqueueUpload, withLeases_bind, withQueue_bind, only_next]
  refine ⟨trivial, fun leases => ?_⟩
  split
  · trivial
  · exact ⟨trivial, fun _ => trivial⟩

omit [EtagScheme] [FsBackend F] in
theorem enqueueDelete_aloof (path : String) : (enqueueDelete (F := F) path).Only (I := syncSignature F) Op.Aloof := by
  simp only [enqueueDelete, withLeases_bind, withQueue_bind, withCache_bind, only_next]
  refine ⟨trivial, fun leases => ?_⟩
  split
  · trivial
  · exact ⟨trivial, fun _ => ⟨trivial, fun _ => trivial⟩⟩

omit [EtagScheme] [FsBackend F] in
theorem onMkdir_aloof (path : String) : (onMkdir (F := F) path).Only (I := syncSignature F) Op.Aloof := by
  refine Prog.Only.bind (I := syncSignature F) ?_ fun made => ?_
  · simp only [putDirMarker, putObject_bind, only_next]
    refine ⟨trivial, fun reply => ?_⟩
    split
    · trivial
    · split <;> trivial
  · split
    · trivial
    · exact ⟨trivial, fun _ => trivial⟩
    · simp only [headDirMarker_bind, only_next]
      refine ⟨trivial, fun found => ?_⟩
      split
      · trivial
      · trivial
      · exact ⟨trivial, fun _ => trivial⟩

omit [EtagScheme] [FsBackend F] in
theorem onRmdir_aloof (path : String) : (onRmdir (F := F) path).Only (I := syncSignature F) Op.Aloof := by
  simp only [onRmdir, deleteDirMarker_bind, withCache_bind, only_next]
  refine ⟨trivial, fun cache => ⟨trivial, fun reply => ?_⟩⟩
  split
  · split
    · exact ⟨trivial, fun _ => trivial⟩
    · trivial
  · exact ⟨trivial, fun _ => trivial⟩

omit [EtagScheme] [FsBackend F] in
theorem joinHeld_aloof (path : String) (rounds : Nat) : (joinHeld (F := F) path rounds).Only (I := syncSignature F) Op.Aloof := by
  induction rounds with
  | zero => trivial
  | succ rounds ih =>
    simp only [joinHeld, withLeases_bind, only_next]
    refine ⟨trivial, fun leases => ?_⟩
    split
    · trivial
    · split
      · exact ⟨trivial, fun _ => ⟨trivial, fun _ => ih⟩⟩
      · trivial

/-- Operations that change no local file, listings or not. -/
theorem silent_safe {task : Task F A} (silent : Silent task) (all : Throughout (Refreshes call) s.log) :
    (runs Faulty around).Safe (fun _ t => Throughout (Refreshes call) t.log) task s := by
  induction task generalizing s with
  | done value => exact safe_return fun _ _ => all
  | halt => exact fun _ _ => trivial
  | call op next ih =>
    refine safe_next fun t reply u _ _ => ih reply (silent.2 reply) ⟨fun changes => ?_, all⟩
    obtain ⟨inner, same, -⟩ := changes
    cases same
    exact silent.1.elim

theorem refreshFileFromS3_orderly (asks : Asks call path) :
    (runs Faulty around).Safe (fun _ t => Orderly call s t) (refreshFileFromS3 (F := F) path) s := by
  simp only [refreshFileFromS3, isLocked_bind]
  refine aloof_next call trivial fun t leases u _ looked => ?_
  split
  · exact orderly_return looked
  simp only [getFile_bind]
  refine aloof_next call trivial fun v reply w _ get => ?_
  rcases (reply : Except S3Error (Option (Bytes × ObjectMeta))) with e | _ | ⟨content, info⟩
  · exact orderly_return (looked.trans get)
  · exact orderly_return (looked.trans get)
  · refine (storeDownload_orderly (.inl asks)).bind fun stored x store => ?_
    cases stored <;> exact orderly_return ((looked.trans get).trans store)

theorem headAndRefresh_orderly (asks : Asks call path) :
    (runs Faulty around).Safe (fun _ t => Orderly call s t) (headAndRefresh (F := F) path) s := by
  simp only [headAndRefresh, headFile_bind]
  refine aloof_next call trivial fun t found u _ head => ?_
  rcases (found : Except S3Error (Option ObjectMeta)) with e | _ | info
  · exact orderly_return head
  · exact orderly_return head
  simp only [withCache_bind]
  refine aloof_next call trivial fun v cache w _ cached => ?_
  have looked := head.trans cached
  split
  · exact orderly_return looked
  simp only [getFile_bind]
  refine aloof_next call trivial fun x reply y _ get => ?_
  rcases (reply : Except S3Error (Option (Bytes × ObjectMeta))) with e | _ | ⟨content, info⟩
  · exact orderly_return (looked.trans get)
  · exact orderly_return (looked.trans get)
  · refine (storeDownload_orderly (.inl asks)).bind fun stored z store => ?_
    cases stored <;> exact orderly_return ((looked.trans get).trans store)

theorem checkAndRefreshFromS3_orderly (asks : Asks call path) :
    (runs Faulty around).Safe (fun _ t => Orderly call s t) (checkAndRefreshFromS3 (F := F) path) s := by
  simp only [checkAndRefreshFromS3, isLocked_bind]
  refine aloof_next call trivial fun t leases u _ looked => ?_
  split
  · exact orderly_return looked
  · exact (headAndRefresh_orderly asks).bind fun _ v refreshed => orderly_return (looked.trans refreshed)

theorem leaseBase_orderly (asks : Asks call path) :
    (runs Faulty around).Safe (fun _ t => Orderly call s t) (manager.leaseBase (F := F) path) s := by
  simp only [leaseBase, takePending, withQueue_bind, Prog.call_bind]
  refine aloof_next call trivial fun t queue u _ taken => ?_
  simp only [Prog.pure_eq, Prog.done_bind]
  split
  · refine (aloof_safe call (condForUpload_aloof path)).bind fun cond v conditions => ?_
    refine (uploadWithCond_orderly call).bind ?_
    rintro result w ⟨uploads, -⟩
    have orderly := (taken.trans conditions).trans uploads
    rcases result with e | etag
    · simp only
      split
      · exact (conflict_orderly call (.inl asks)).bind fun _ _ refreshed => orderly_return (orderly.trans refreshed)
      · exact orderly_return orderly
    · exact orderly_return orderly
  · exact (headAndRefresh_orderly asks).bind fun _ v refreshed => orderly_return (taken.trans refreshed)

omit [EtagScheme] [FsBackend F] in
theorem release_aloof (path lockEtag : String) : (release (F := F) path lockEtag).Only (I := syncSignature F) Op.Aloof :=
  ⟨trivial, fun _ => trivial⟩

theorem pinLease_orderly (acquired : Acquired) (asks : Asks call path) :
    (runs Faulty around).Safe (fun _ t => Orderly call s t) (manager.pinLease (F := F) path acquired) s := by
  simp only [pinLease, withLeases_bind]
  refine aloof_next call trivial fun t leases u _ counted => ?_
  split
  · exact (aloof_safe call (release_aloof path _)).bind fun _ _ released => orderly_return (counted.trans released)
  refine (leaseBase_orderly asks).bind fun base v based => ?_
  rcases base with e | etag
  · exact (aloof_safe call (release_aloof path _)).bind fun _ _ released => orderly_return ((counted.trans based).trans released)
  · exact aloof_next call trivial fun _ _ _ _ pinned => orderly_return ((counted.trans based).trans pinned)

theorem onOpenWrite_refreshes (rounds : Nat) (asks : Asks call path) (all : Throughout (Refreshes call) s.log) :
    (runs Faulty around).Safe (fun _ t => Throughout (Refreshes call) t.log) (manager.onOpenWrite (F := F) rounds path) s := by
  have finish {B : Type} {value : B} {t : Node F} (all : Throughout (Refreshes call) t.log) :
      (runs Faulty around).Safe (fun _ t => Throughout (Refreshes call) t.log) (.done value) t := safe_return fun _ _ => all
  unfold onOpenWrite
  split
  · exact finish all
  refine (aloof_safe call (joinHeld_aloof path rounds)).bind fun joined t waited => ?_
  split
  · exact finish (waited.refreshes all)
  refine (silent_safe (acquire_silent ..) (waited.refreshes all)).bind fun outcome u all => ?_
  rcases outcome with e | acquired
  · exact finish all
  · exact (pinLease_orderly acquired asks).weaken fun _ _ orderly => orderly.refreshes all

/-- A call that does not poll changes local files by refreshes only. -/
theorem call_refreshes (quiet : ¬ Polls call) : (runs Faulty around).Safe (fun _ t => Throughout (Refreshes call) t.log)
    (call.task manager) ⟨s.state, []⟩ := by
  have only {B : Type} {task : Task F B} (aloof : task.Only (I := syncSignature F) Op.Aloof) :
      (runs Faulty around).Safe (fun _ t => Throughout (Refreshes call) t.log) task ⟨s.state, []⟩ :=
    (aloof_safe call aloof).weaken fun _ _ orderly => orderly.refreshes trivial
  have ended {B : Type} {task : Task F B} (safe : (runs Faulty around).Safe (fun _ t => Orderly call ⟨s.state, []⟩ t) task ⟨s.state, []⟩) :
      (runs Faulty around).Safe (fun _ t => Throughout (Refreshes call) t.log) (do let _ ← task) ⟨s.state, []⟩ :=
    safe.bind fun _ _ orderly => safe_return fun _ _ => orderly.refreshes trivial
  -- Most calls leave the cache alone. Only an open, a read and a stat ask for their path.
  cases call with
  | openWrite rounds path =>
    have asks : Asks (.openWrite rounds path : Call F) path := rfl
    have all : Throughout (Refreshes (.openWrite rounds path : Call F)) (⟨s.state, []⟩ : Node F).log := trivial
    exact (onOpenWrite_refreshes rounds asks all).bind fun _ _ all => safe_return fun _ _ => all
  | close path =>
    refine ended ?_
    simp only [onClose, withLeases_bind]
    refine aloof_next (.close path) trivial fun _ leases _ _ counted => ?_
    split
    · exact orderly_return counted
    -- Only the last close of a leased file has something to release.
    · split
      · exact orderly_return counted
      · exact (finishRelease_orderly _ _).weaken fun _ _ released => counted.trans released
  | fsync path =>
    refine ended ?_
    simp only [onFsync, withLeases_bind]
    refine aloof_next (.fsync path) trivial fun _ leases _ _ looked => ?_
    split
    · split
      · exact (flushLease_orderly _ _).weaken fun _ _ flushed => looked.trans flushed
      · exact orderly_return looked
    · exact (syncFileNow_orderly _).weaken fun _ _ synced => looked.trans synced
  | write path change => exact only ⟨trivial, fun _ => enqueueUpload_aloof path⟩
  | writeNow path change =>
    simp only [Call.task, app_bind]
    refine aloof_next (.writeNow path change) trivial fun _ _ _ _ changed => (syncFileNow_orderly _).bind fun _ _ synced =>
      safe_return fun _ _ => (changed.trans synced).refreshes trivial
  | unlink path change => exact only ⟨trivial, fun _ => enqueueDelete_aloof path⟩
  | read path => exact ended (refreshFileFromS3_orderly rfl)
  | stat path => exact ended (checkAndRefreshFromS3_orderly rfl)
  | mkdir path => exact only ((onMkdir_aloof path).bind fun _ => trivial)
  | rmdir path => exact only ((onRmdir_aloof path).bind fun _ => trivial)
  | flushOutbound => exact ended (flushLoop_orderly _ _ 0 (.same rfl))
  | forceFlush rounds => exact ended (forceFlush_orderly _ rounds (.same rfl))
  | pollInbound | maybeSync => exact absurd trivial quiet
  | renewLeases => exact only renewLeases_aloof
  | releaseAllLeases =>
    refine ended ?_
    simp only [releaseAllLeases, withLeases_bind, arrange_bind]
    exact aloof_next .releaseAllLeases trivial fun _ _ _ _ first => aloof_next .releaseAllLeases trivial fun _ _ _ _ second =>
      releaseLeases_orderly _ _ none (first.trans second)

/-! ### The poll -/

/-- A record in which the listings agree exactly if the changes are refreshes, as long as every fetch succeeds. -/
def Exact (call : Call F) (log : Log F) : Prop :=
  ((∀ moment ∈ log, Agrees moment) → Throughout (Refreshes call) log) ∧
    (Throughout (Refreshes call) log → (∀ moment ∈ log, Fetches moment) → ∀ moment ∈ log, Agrees moment)

omit [FsBackend F] in
theorem agrees_of_unlisted {moment : Entry F} (unlisted : ¬ Lists moment) : Agrees moment := by
  obtain ⟨op, reply, before, after⟩ := moment
  unfold Agrees
  split
  · next same =>
    intro metas equal
    subst equal
    cases same
    exact absurd rfl unlisted
  · trivial

omit [FsBackend F] in
theorem exact_of_unlisted {log : Log F} (unlisted : ∀ moment ∈ log, ¬ Lists moment) (all : Throughout (Refreshes call) log) :
    Exact call log :=
  ⟨fun _ => all, fun _ _ moment member => agrees_of_unlisted (unlisted moment member)⟩

omit [FsBackend F] in
theorem Exact.step {log : Log F} {moment : Entry F} (exact : Exact call log) (aloof : Op.Aloof moment.op) :
    Exact call (moment :: log) := by
  obtain ⟨unchanged, unlisted⟩ := aloof_spec aloof
  refine ⟨fun agree => ⟨fun changes => absurd changes unchanged, exact.1 fun later member => agree later (List.mem_cons_of_mem _ member)⟩,
    fun all fetch later member => ?_⟩
  rcases List.mem_cons.mp member with rfl | older
  · exact agrees_of_unlisted unlisted
  · exact exact.2 all.2 (fun later member => fetch later (List.mem_cons_of_mem _ member)) later older

end

end Ticking
end MonakaFs.Sync
