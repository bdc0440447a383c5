import MonakaFs.Sync.Upload.Acknowledged

/-! What an upload does to a file that was deleted.

An upload that is based on a version names its ETag. When the file is gone by then,
the local write counts as the newer intent: it is sent once more, as a create. So
the file can come back, but never over a version the upload was not based on.
-/

set_option autoImplicit false

namespace MonakaFs.Sync.Upload

open Async SyncManager

section
variable [EtagScheme] {F : Type} (path : String) (content : Bytes) (e : String)

/-- The conditional PUT found no object. -/
def Missed (moment : Entry F) : Prop :=
  moment.op = .request (.put (fileKey path) content (.ifMatch e)) ∧ object path moment.before = none

/-- An operation that leaves the file alone, replaces the version the upload is based
on, or creates the file after the conditional PUT found none. -/
def Careful (older : Log F) (moment : Entry F) : Prop :=
  object path moment.after = object path moment.before ∨
    (∃ old, object path moment.before = some old ∧ old.etag = e) ∨
    (object path moment.before = none ∧ moment.op = .request (.put (fileKey path) content .ifNoneMatchAny) ∧
      ∃ missed ∈ older, Missed path content e missed)

def AllCareful : Log F → Prop
  | [] => True
  | moment :: older => Careful path content e older moment ∧ AllCareful older

variable {path content e}

theorem AllCareful.at {log newer older : Log F} {moment : Entry F} (all : AllCareful path content e log)
    (split : log = newer ++ moment :: older) : Careful path content e older moment := by
  subst split
  induction newer with
  | nil => exact all.1
  | cons first rest ih => exact ih all.2

/-- Operations that leave the store alone, on top of careful ones. -/
theorem AllCareful.idle (newer : Log F) {older : Log F} (all : AllCareful path content e older)
    (idle : ∀ moment ∈ newer, moment.after.store = moment.before.store) : AllCareful path content e (newer ++ older) := by
  induction newer with
  | nil => exact all
  | cons first rest ih =>
    refine ⟨.inl ?_, ih fun moment member => idle moment (List.mem_cons_of_mem _ member)⟩
    rw [object, object, idle first (List.mem_cons_self ..)]

variable [FsBackend F] {s : Node F}

abbrev among : Contract (syncSignature F) (Node F) := runs Truthful anything

/-- What a truthful store does with a conditional write of the file. -/
theorem put_truthful {cond : Precondition} {turn : Turn} {t u : Snapshot F} {reply : Except S3Error String}
    (truthful : Truthful turn) (answer : reply = (t.act turn (.request (.put (fileKey path) content cond))).1)
    (served : u = (t.act turn (.request (.put (fileKey path) content cond))).2) :
    (reply = .ok (etagFor content) ∧ t.store.Passes (fileKey path) cond ∧
      object path u = some ⟨content, t.store.clock + 1⟩) ∨
    (∃ err, reply = .error err ∧ u.store = t.store ∧ (err.isPreconditionFailed = true ∨
      (err.isNotFound = true ∧ object path t = none ∧ ∃ expected, cond = .ifMatch expected))) := by
  rw [act_request truthful] at answer served
  rcases t.store.put_cases (fileKey path) content cond with ⟨passes, stored⟩ | ⟨-, err, failed⟩
  · rw [show t.store.serve (.put (fileKey path) content cond) = _ from stored] at answer served
    exact .inl ⟨answer, passes, by rw [object, served]; exact (Map.lookup_insert_eq ..).trans (if_pos rfl)⟩
  · have why := ObjectStore.put_error (congrArg Prod.fst failed)
    rw [show t.store.serve (.put (fileKey path) content cond) = _ from failed] at answer served
    exact .inr ⟨err, answer, by rw [served], why⟩

/-- What an upload based on a version leaves behind. -/
structure Settled (path : String) (content : Bytes) (e : String) (result : Except S3Error String) (before log : Log F) :
    Prop where
  careful : AllCareful path content e before → AllCareful path content e log
  stored : ∀ etag, result = .ok etag → etag = etagFor content ∧ ∃ put ∈ log, ∃ cond,
    put.op = .request (.put (fileKey path) content cond) ∧ (object path put.after).map (·.data) = some content
  rejected : ∀ err, result = .error err → err.isPreconditionFailed = true ∧
    ∃ newer, log = newer ++ before ∧ ∀ moment ∈ newer, moment.after.store = moment.before.store

theorem putUpload_based (start : Log F) (started : s.log = start) :
    (among (F := F)).Safe (fun result t => Settled path content e result start t.log)
      (putUpload path content (.ifMatch e)) s := by
  simp only [putUpload, putFile_bind]
  refine safe_next ?_
  rintro t reply u _ ⟨turn, truthful, answer, served⟩
  rcases put_truthful truthful answer served with ⟨rfl, ⟨old, found, tag⟩, stored⟩ | ⟨err, rfl, kept, why⟩
  · refine safe_return fun _ _ => ⟨fun all => ?_, fun etag same => ?_, fun err same => (by cases same)⟩
    · exact ⟨.inr (.inl ⟨old, found, tag⟩), started ▸ all⟩
    · cases same
      exact ⟨rfl, _, List.mem_cons_self .., _, rfl, by rw [stored]; rfl⟩
  rcases why with refused | ⟨gone, absent, -⟩
  · -- the file has another version by now
    have present : err.isNotFound = false := by cases err <;> first | rfl | cases refused
    simp only [present, refused, Precondition.isIfMatch, Precondition.isIfNoneMatchAny, Bool.false_and, Bool.and_false,
      Bool.not_true, Bool.false_eq_true, if_false]
    refine safe_return fun _ _ => ⟨fun all => ?_, fun etag same => (by cases same), fun err' same => ?_⟩
    · exact AllCareful.idle [_] (started ▸ all) (List.forall_mem_singleton.mpr kept)
    · cases same
      exact ⟨refused, [_], by rw [← started]; rfl, List.forall_mem_singleton.mpr kept⟩
  · -- the file is gone: the write is sent again as a create
    simp only [gone, Precondition.isIfMatch, Bool.and_self, if_true]
    refine safe_next ?_
    rintro v reply w _ ⟨turn, truthful, answer, served⟩
    rcases put_truthful truthful answer served with ⟨rfl, free, stored⟩ | ⟨err', rfl, kept', why⟩
    · refine safe_return fun _ _ => ⟨fun all => ⟨.inr (.inr ⟨free, rfl, ?_⟩), .inl ?_, started ▸ all⟩, fun etag same => ?_,
        fun err same => by cases same⟩
      · exact ⟨_, List.mem_cons_self .., rfl, absent⟩
      · rw [object, object, kept]
      · cases same
        exact ⟨rfl, _, List.mem_cons_self .., _, rfl, by rw [stored]; rfl⟩
    · have refused : err'.isPreconditionFailed = true := by
        rcases why with refused | ⟨-, -, expected, same⟩
        · exact refused
        · cases same
      refine safe_return fun _ _ => ⟨fun all => ?_, fun etag same => (by cases same), fun err' same => ?_⟩
      · exact AllCareful.idle [_, _] (started ▸ all)
          (List.forall_mem_cons.mpr ⟨kept', List.forall_mem_singleton.mpr kept⟩)
      · cases same
        exact ⟨refused, [_, _], by rw [← started]; rfl,
          List.forall_mem_cons.mpr ⟨kept', List.forall_mem_singleton.mpr kept⟩⟩

/-- Looking leaves the store alone. -/
theorem looks_idle {moment : Entry F} (looks : moment.op.Looks) (answered : Answered Truthful moment) :
    moment.after.store = moment.before.store := by
  obtain ⟨op, reply, before, after⟩ := moment
  obtain ⟨turn, truthful, -, served⟩ := answered
  cases op with
  | request r =>
    rw [act_request truthful] at served
    rw [served]
    cases r with
    | list | head | get => rfl
    | put | delete => cases looks
  | queue | cache | leases | schedule | now | wake | jitter | fs | arrange | app => exact looks.elim

/-! ### The whole call -/

/-- An upload based on a version: how it ended, and what it did to the file. -/
structure BasedOn (path e : String) (value : Except SyncError String) (log : Log F) : Prop where
  careful : ∀ newer moment older, log = newer ++ moment :: older →
    object path moment.after = object path moment.before ∨
      ∃ content, localContent path log = some content ∧ Careful path content e older moment
  accepted : ∀ etag, value = .ok etag → ∃ content, localContent path log = some content ∧ etag = etagFor content ∧
    ∃ put ∈ log, ∃ cond, put.op = .request (.put (fileKey path) content cond) ∧
      (object path put.after).map (·.data) = some content
  rejected : ∀ err, value = .error err → (isRejection err = true ∨ ∃ text, err = .fs path text) ∧
    ∀ moment ∈ log, moment.after.store = moment.before.store

omit [FsBackend F] in
theorem BasedOn.of_idle {err : SyncError} {log : Log F} (why : isRejection err = true ∨ ∃ text, err = .fs path text)
    (idle : ∀ moment ∈ log, moment.after.store = moment.before.store) : BasedOn path e (.error err) log where
  careful newer moment older split := .inl (by rw [object, object, idle moment (by rw [split]; simp)])
  accepted etag same := by cases same
  rejected err' same := by cases same; exact ⟨why, idle⟩

/-- A truthful store answers the checks of the passthrough mode. -/
theorem passthroughChecks_passes (manager : SyncManager) :
    (among (F := F)).Safe (fun checked _ => checked = .ok ()) (manager.passthroughChecks path) s := by
  unfold passthroughChecks
  split
  · simp only [headFile_bind, headDirMarker_bind, hasChildren_bind]
    refine safe_next fun t file u _ ⟨_, truthful, answer, _⟩ => safe_next fun v dir w _ ⟨_, truthful', answer', _⟩ =>
      safe_next fun x children y _ ⟨_, truthful'', answer'', _⟩ => safe_return fun _ _ => ?_
    rw [act_request truthful] at answer
    rw [act_request truthful'] at answer'
    rw [act_request truthful''] at answer''
    rw [answer, answer', answer'']
    rfl
  · exact safe_return fun _ _ => rfl

theorem uploadWithCond_based (manager : SyncManager) (fresh : s.log = []) :
    (among (F := F)).Safe (fun value t => BasedOn path e value t.log) (manager.uploadWithCond path (.ifMatch e)) s := by
  simp only [uploadWithCond, onFs_bind]
  refine safe_next ?_
  rintro t reply u _ ⟨_, _, _, read⟩
  have kept : u.store = t.store := by rw [read]; rfl
  rcases (reply : Except S3Error Bytes) with err | content
  · refine safe_return fun _ _ => .of_idle (.inr ⟨_, rfl⟩) ?_
    rw [fresh]
    exact List.forall_mem_singleton.mpr kept
  refine safe_next ?_
  rintro v modified w _ ⟨_, _, _, stat⟩
  have kept' : w.store = v.store := by rw [stat]; rfl
  refine ((passthroughChecks_passes manager).and
    (performed_safe (passthroughChecks_looks manager path) (performed_nothing _))).bind ?_
  rintro checked x ⟨passed, looks, log, each⟩
  subst passed
  simp only [fresh] at log
  -- Behind the read of the local file only the checks follow, which read and write nothing of it.
  have found : localContent path x.log = some content := by
    rw [log]
    exact localContent_read fun moment member => (each moment member).1
  have idle : ∀ moment ∈ x.log, moment.after.store = moment.before.store := by
    rw [log]
    refine List.forall_mem_append.mpr ⟨fun moment member => looks_idle (each moment member).1 (each moment member).2, ?_⟩
    exact List.forall_mem_cons.mpr ⟨kept', List.forall_mem_singleton.mpr kept⟩
  have before : AllCareful path content e x.log := by
    rw [← List.append_nil x.log]
    exact AllCareful.idle _ trivial idle
  refine ((putUpload_based x.log rfl).and (performed_safe (putUpload_remote path content (.ifMatch e))
    (performed_nothing _))).bind ?_
  rintro result y ⟨settled, newer, logged, requested⟩
  have read : localContent path y.log = some content := by
    rw [logged, localContent_append fun moment member => (requested moment member).1, found]
  rcases result with err | etag
  · obtain ⟨refused, pushed, split, kept⟩ := settled.rejected err rfl
    refine safe_return fun _ _ => .of_idle (.inl refused) ?_
    rw [split, List.forall_mem_append]
    exact ⟨kept, idle⟩
  · obtain ⟨rfl, put, listed, cond, op, stored⟩ := settled.stored etag rfl
    -- The upload succeeded, and is recorded in three places. None is in the store.
    simp only [recordUpload, instant_bind, withCache_bind, withLeases_bind, Prog.call_bind]
    refine safe_next ?_
    rintro t' now u' _ ⟨_, _, _, first⟩
    have kept₁ : u'.store = t'.store := by rw [first]; rfl
    refine safe_next ?_
    rintro v' cache w' _ ⟨_, _, _, second⟩
    have kept₂ : w'.store = v'.store := by rw [second]; rfl
    refine safe_next ?_
    rintro x' leases y' _ ⟨_, _, _, third⟩
    have kept₃ : y'.store = x'.store := by rw [third]; rfl
    refine safe_return fun _ _ => ?_
    refine ⟨fun newer moment older split => .inr ⟨content, read, AllCareful.at ?_ split⟩, fun etag same => ?_,
      fun err same => by cases same⟩
    · exact ⟨.inl (by rw [object, object, kept₃]), .inl (by rw [object, object, kept₂]),
        .inl (by rw [object, object, kept₁]), settled.careful before⟩
    cases same
    exact ⟨content, read, rfl, put, by simp [listed], cond, op, stored⟩

/-- An upload based on a version replaces that version only. It brings a deleted file
back only as a create, after it found the file gone, with the bytes it read and over
nothing; in every other case it is rejected and has changed nothing, and with
leases enabled the rejection is reported as a conflict. -/
theorem upload_recreates {manager : SyncManager} {start : Snapshot F} {value : Except SyncError String} {last : Node F}
    (ran : Ran Truthful anything (manager.uploadWithCond path (.ifMatch e)) start value last) :
    BasedOn path e value last.log ∧ (manager.config.fileLock = true →
      ∀ start outcome last, Ran (F := F) Truthful anything (manager.handleUploadConflict path) start outcome last →
        ∃ refreshed, outcome = .error (.conflict path refreshed)) := by
  refine ⟨(uploadWithCond_based manager rfl).exec ran, fun locking start outcome last ran => ?_⟩
  have safe : (among (F := F)).Safe (fun outcome _ => ∃ refreshed, outcome = .error (.conflict path refreshed))
      (manager.handleUploadConflict path) ⟨start, []⟩ := by
    simp only [handleUploadConflict, locking, Bool.true_eq_false, if_false, conflict, Prog.bind_assoc]
    exact (performed_safe (refreshLocalFromRemote_data path : OnData True _) (performed_nothing _)).bind
      fun refreshed _ _ => safe_return fun _ _ => ⟨refreshed, rfl⟩
  exact safe.exec ran

end

/-! ### Concrete runs -/

section
open scoped ContentEtags

/-- The parts of a PUT. -/
def asPut {F : Type} : Op F → Option (String × Bytes × Precondition)
  | .request (.put key body cond) => some (key, body, cond)
  | _ => none

theorem asPut_eq {F : Type} {op : Op F} {key : String} {body : Bytes} {cond : Precondition}
    (same : asPut op = some (key, body, cond)) : op = .request (.put key body cond) := by
  cases op with
  | request r =>
    cases r with
    | put => cases same; rfl
    | list | head | get | delete => cases same
  | queue | cache | leases | schedule | now | wake | jitter | fs | arrange | app => cases same

/-- An instance that has seen version one of a file, and queued a change of it. -/
def staleStart : Snapshot MemFs :=
  ⟨Sample.store [("files/a", [1])], 0,
    { ManagerState.new (MetadataCache.empty.updateAfterDownload "/a" "\x01" 1 1) 0 with outboundQueue := [.upload "/a"] },
    (writeFileContent "/a" [2] MemFs.empty).2⟩

def deleted (s : Snapshot MemFs) : Snapshot MemFs := { s with store := (s.store.delete "files/a" .none).2 }

/-- Somebody else deletes the file before the operation after so many. -/
def deletingAfter (count : Nat) : List ((Snapshot MemFs → Snapshot MemFs) × Turn) :=
  List.replicate count plainly ++ (deleted, {}) :: List.replicate 8 plainly

theorem deletingAfter_truthful (count : Nat) :
    ∀ turn ∈ deletingAfter count, (∀ s : Snapshot MemFs, anything.moves s (turn.1 s)) ∧ Truthful turn.2 := by
  intro turn listed
  refine ⟨fun _ => trivial, ?_⟩
  rw [deletingAfter, List.mem_append, List.mem_cons] at listed
  rcases listed with quiet | rfl | quiet
  · rw [List.eq_of_mem_replicate quiet]; rfl
  · rfl
  · rw [List.eq_of_mem_replicate quiet]; rfl

theorem upload_recreates_sample : ∃ last,
    Ran Truthful anything (sampleManager.uploadWithCond "/a" (.ifMatch "\x01")) staleStart (.ok "\x02") last ∧
      BasedOn "/a" "\x01" (.ok "\x02") last.log := by
  obtain ⟨value, last, ran, checked⟩ := solo_returned (sampleManager.uploadWithCond "/a" (.ifMatch "\x01")) staleStart
    (fun value _ => decide (value = .ok "\x02"))
    (deletingAfter_truthful 2)
    (by decide +kernel)
  obtain rfl := of_decide_eq_true checked
  exact ⟨last, ran, (upload_recreates ran).1⟩

/-- The file was deleted after it was observed, and the flush of the queue brings it back. -/
theorem upload_recreates_deleted : staleStart.manager.metadataCache.etag "/a" = (object "/a" staleStart).map (·.etag) ∧
    ∃ value last, Ran Truthful anything sampleManager.flushOutbound staleStart value last ∧
      (∃ missed ∈ last.log, Missed "/a" [2] "\x01" missed) ∧
      ∃ put ∈ last.log, object "/a" put.before = none ∧ (object "/a" put.after).map (·.data) = some [2] := by
  refine ⟨by decide +kernel, ?_⟩
  obtain ⟨value, last, ran, checked⟩ := solo_returned sampleManager.flushOutbound staleStart (fun _ last =>
      (last.log.any fun missed => decide (asPut missed.op = some (fileKey "/a", [2], .ifMatch "\x01") ∧
        object "/a" missed.before = none)) &&
      last.log.any fun put => decide (object "/a" put.before = none ∧ (object "/a" put.after).map (·.data) = some [2]))
    (deletingAfter_truthful 6) (by decide +kernel)
  simp only [Bool.and_eq_true, List.any_eq_true, decide_eq_true_eq] at checked
  obtain ⟨⟨missed, listed, op, absent⟩, put, listed', created⟩ := checked
  exact ⟨value, last, ran, ⟨missed, listed, asPut_eq op, absent⟩, put, listed', created⟩

end

end MonakaFs.Sync.Upload
