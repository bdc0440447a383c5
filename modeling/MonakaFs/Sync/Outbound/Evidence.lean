import MonakaFs.Sync.Outbound.Rules

/-! What the record of an upload or a delete proves about it. -/

set_option autoImplicit false

namespace MonakaFs.Sync.Outbound

open Async SyncManager

section
variable [EtagScheme] {store : ObjectStore} {fault : Fault} {key : String} {cond : Precondition}

/-- A failed delete was rejected for its condition, or not supported with one, or says nothing. -/
theorem delete_failed {e : S3Error} (faulty : fault.isTransport = true)
    (answered : (store.serveWith fault (.delete key cond)).1 = .error e) :
    e.isTransport = true ∨ (cond ≠ .none ∧ (e.isPreconditionFailed = true ∨ e.isNotImplemented = true)) := by
  cases fault with
  | unsent e' | unanswered e' =>
    cases answered
    exact .inl faulty
  | answered =>
    refine .inr ?_
    simp only [ObjectStore.serveWith, ObjectStore.serve, ObjectStore.delete] at answered
    split at answered
    -- The store supports no conditional deletes.
    · next rejects =>
      cases answered
      exact ⟨rejects.2, .inr rfl⟩
    · cases cond with
      | none => simp [ObjectStore.checkCond] at answered
      | ifNoneMatchAny =>
        refine ⟨fun same => (by cases same), .inl ?_⟩
        cases found : store.objects.lookup key with
        | none => simp [ObjectStore.checkCond, found] at answered
        | some version =>
          simp only [ObjectStore.checkCond, found] at answered
          cases answered
          rfl
      | ifMatch expected =>
        refine ⟨fun same => (by cases same), .inl ?_⟩
        cases found : store.objects.lookup key with
        | none => simp [found] at answered
        | some version =>
          by_cases same : version.etag = expected
          · simp [ObjectStore.checkCond, found, same] at answered
          · simp only [ObjectStore.checkCond, found, same, if_false] at answered
            cases answered
            rfl

end

section
variable [EtagScheme] {F : Type} {path : String} {content : Bytes} {log : Log F} {s : Node F}

/-- The moments since then are evidence of something. -/
def Since (log : Log F) (evidence : Log F → Prop) (s : Node F) : Prop := ∃ extra, s.log = extra ++ log ∧ evidence extra

/-- A successful PUT took effect; a rejected one was rejected by the store. -/
def PutEvidence (path : String) (content : Bytes) (result : Except S3Error String) (extra : Log F) : Prop :=
  (∀ etag, result = .ok etag → ∃ put ∈ extra, Pushes path content put) ∧
    ∀ e, result = .error e → e.isPreconditionFailed = true → ∃ moment ∈ extra, Rejects path moment

variable [FsBackend F] {t u : Snapshot F}

/-- What a run of a flush may meet. -/
abbrev flushes : Contract (syncSignature F) (Node F) := givingWay Fair Faulty marking

theorem effective_of_ok {r : Request} {value : r.Payload} {reply : r.Answer} {turn : Turn}
    (answer : reply = (t.act turn (.request r)).1) (served : u = (t.act turn (.request r)).2) (ok : reply = .ok value) :
    Effective ⟨.request r, reply, t, u⟩ := by
  have same := serveWith_ok (answer.symm.trans ok)
  refine ⟨⟨value, ?_⟩, ?_⟩
  · rw [← same]
    exact answer.symm.trans ok
  · rw [served, ← same]
    rfl

omit [EtagScheme] [FsBackend F] in
theorem not_precondition_of_transport {e : S3Error} (transport : e.isTransport = true) : e.isPreconditionFailed ≠ true := by
  rw [(S3Error.transport_kind transport).1]
  exact fun same => by cases same

/-- A last PUT tells by its answer. -/
theorem lastPut_safe {cond : Precondition} (earlier : Log F) {before : Log F} (logged : s.log = earlier ++ before) :
    flushes.Safe (fun result t => Since before (PutEvidence path content result) t) (putFile path content cond) s := by
  refine way_next ?_
  rintro t reply u - - ⟨turn, faulty, answer, served⟩ fair
  refine way_return ⟨_ :: earlier, congrArg (List.cons _) logged, ?_⟩
  constructor
  · intro etag ok
    exact ⟨_, List.mem_cons_self .., ⟨cond, rfl⟩, effective_of_ok answer served ok⟩
  · intro e failed rejected
    exact ⟨_, List.mem_cons_self .., rfl, e, failed, rejected⟩

theorem putUpload_safe {cond : Precondition} :
    flushes.Safe (fun result t => Since s.log (PutEvidence path content result) t) (putUpload path content cond) s := by
  simp only [putUpload, putFile_bind]
  refine way_next ?_
  rintro t reply u - - ⟨turn, faulty, answer, served⟩ fair
  rcases (reply : Except S3Error String) with e | etag
  · simp only
    split
    · exact lastPut_safe [_] rfl
    split
    -- The condition was rejected: a HEAD decides whether the file exists.
    · next exists' =>
      rw [Bool.and_eq_true] at exists'
      simp only [headFile_bind]
      refine way_next ?_
      rintro v found w - - ⟨turn', faulty', answer', -⟩ -
      rcases (found : Except S3Error (Option ObjectMeta)) with failed | _ | info
      · refine way_return ⟨[_, _], rfl, fun etag same => (by cases same), fun e' same rejected => ?_⟩
        cases same
        exact absurd rejected (not_precondition_of_transport (look_failed rfl faulty' answer'.symm))
      · exact lastPut_safe [_, _] rfl
      · refine way_return ⟨[_, _], rfl, fun etag same => (by cases same), fun e' same rejected => ?_⟩
        cases same
        exact ⟨_, List.mem_cons_of_mem _ (List.mem_cons_self ..), rfl, e, rfl, rejected⟩
    split
    · -- no answer about the condition: a HEAD decides whether the write took effect
      next gone _ unknown =>
      have lost : e.isTransport = true := by
        rcases put_failed faulty answer.symm with transport | rejected | missing
        · exact transport
        · rw [rejected] at unknown; cases unknown
        · rw [missing.1, missing.2] at gone; exact (gone rfl).elim
      have given (looked : Log F) : PutEvidence path content (.error e) looked :=
        ⟨fun etag same => (by cases same), fun e' same rejected => by
          cases same
          exact absurd rejected (not_precondition_of_transport lost)⟩
      simp only [verifyUploadLanded, headFile_bind, Prog.call_bind]
      refine way_next ?_
      rintro v found w - - ⟨turn', -, answer', -⟩ fair'
      rcases (found : Except S3Error (Option ObjectMeta)) with failed | _ | info
      · exact way_return ⟨[_, _], rfl, given _⟩
      · exact way_return ⟨[_, _], rfl, given _⟩
      · by_cases counts : landed cond info.etag = true
        · simp only [Prog.pure_eq, Prog.done_bind, counts, if_true]
          refine way_return ⟨[_, _], rfl, fun etag _ => ?_, fun e' same => (by cases same)⟩
          -- A write that counts as landed without an effect is excluded by fairness.
          refine ⟨_, List.mem_cons_of_mem _ (List.mem_cons_self ..), ⟨cond, rfl⟩, ?_⟩
          by_contra ineffective
          exact fair'.head ⟨rfl, ⟨e, rfl, lost⟩, ineffective, info, rfl, counts⟩
        · simp only [Prog.pure_eq, Prog.done_bind, counts]
          exact way_return ⟨[_, _], rfl, given _⟩
    · refine way_return ⟨[_], rfl, fun etag same => (by cases same), fun e' same rejected => ?_⟩
      cases same
      exact ⟨_, List.mem_cons_self .., rfl, e, rfl, rejected⟩
  · refine way_return ⟨[_], rfl, fun etag' _ => ?_, fun e' same => (by cases same)⟩
    exact ⟨_, List.mem_cons_self .., ⟨cond, rfl⟩, effective_of_ok answer served rfl⟩

/-! ### The whole upload -/

/-- An upload that succeeded was applied; one that was rejected was rejected by the store. -/
def UploadEvidence (path : String) (result : Except SyncError String) (extra : Log F) : Prop :=
  (∀ etag, result = .ok etag → Applied (.upload path) extra) ∧
    ∀ e, result = .error e → e.isConflict = false ∧ (isRejection e = true → ∃ moment ∈ extra, Rejects path moment)

omit [FsBackend F] in
theorem Since.mono {first second : Log F → Prop} (since : Since log first s) (implies : ∀ extra, first extra → second extra) :
    Since log second s := by
  obtain ⟨extra, logged, evidence⟩ := since
  exact ⟨extra, logged, implies extra evidence⟩

omit [FsBackend F] in
/-- What was proved since a later moment, with what happened before. -/
theorem Since.trans {first second third : Log F → Prop} {middle : Node F} (since : Since log first middle)
    (later : Since middle.log second s) (both : ∀ old new, first old → second new → third (new ++ old)) : Since log third s := by
  obtain ⟨old, logged, evidence⟩ := since
  obtain ⟨new, logged', evidence'⟩ := later
  exact ⟨new ++ old, by rw [logged', logged, List.append_assoc], both old new evidence evidence'⟩

/-- Any operations, which are evidence of nothing. -/
theorem anyhow_safe {A : Type} (task : Task F A) (s : Node F) :
    flushes.Safe (fun _ t => Since s.log (fun _ => True) t) task s := by
  induction task generalizing s with
  | done value => exact way_return ⟨[], rfl, trivial⟩
  | halt => exact fun _ _ => trivial
  | call op next ih =>
    refine way_next fun t reply u _ _ _ _ => (ih reply _).weaken fun value v since => ?_
    obtain ⟨extra, logged, -⟩ := since
    exact ⟨extra ++ [_], by rw [logged, List.append_assoc]; rfl, trivial⟩

/-- The checks of the passthrough mode fail in transit only. -/
theorem passthroughChecks_safe (manager : SyncManager) :
    flushes.Safe (fun result t => Since s.log (fun _ => ∀ e, result = .error e → e.isPreconditionFailed ≠ true) t)
      (manager.passthroughChecks (F := F) path) s := by
  unfold passthroughChecks
  split
  · simp only [headFile_bind, headDirMarker_bind, hasChildren_bind]
    refine way_next ?_
    rintro t file u - - ⟨turn, faulty, answer, -⟩ -
    refine way_next ?_
    rintro v dir w - - ⟨turn', faulty', answer', -⟩ -
    refine way_next ?_
    rintro x children y - - ⟨turn'', faulty'', answer'', -⟩ -
    refine way_return ⟨[_, _, _], rfl, fun e failed => ?_⟩
    refine not_precondition_of_transport ?_
    rcases (file : Except S3Error (Option ObjectMeta)) with e' | file
    · cases failed
      exact look_failed rfl faulty answer.symm
    rcases (dir : Except S3Error (Option ObjectMeta)) with e' | dir
    · cases failed
      exact look_failed rfl faulty' answer'.symm
    rcases (children : Except S3Error (List ObjectMeta)) with e' | children
    · cases failed
      exact look_failed rfl faulty'' answer''.symm
    · cases failed
  · exact way_return ⟨[], rfl, fun e failed => (by cases failed)⟩

theorem uploadWithCond_safe (manager : SyncManager) {cond : Precondition} :
    flushes.Safe (fun result t => Since s.log (UploadEvidence path result) t) (manager.uploadWithCond path cond) s := by
  simp only [uploadWithCond, onFs_bind]
  refine way_next fun t reply u _ _ _ _ => ?_
  rcases (reply : Except S3Error Bytes) with e | content
  -- The local file could not be read, and nothing was sent.
  · refine way_return ⟨[_], rfl, fun etag same => (by cases same), fun e' same => ?_⟩
    cases same
    exact ⟨rfl, fun rejected => by cases rejected⟩
  refine way_next fun v modified w _ _ _ _ => ?_
  refine (passthroughChecks_safe manager).bind fun checked x passed => ?_
  rcases checked with e | _
  · obtain ⟨extra, logged, transit⟩ := passed
    refine way_return ⟨extra ++ [_, _], by rw [logged, List.append_assoc]; rfl, fun etag same => (by cases same), fun e' same => ?_⟩
    cases same
    exact ⟨rfl, fun rejected => absurd rejected (transit e rfl)⟩
  refine putUpload_safe.bind fun result y put => ?_
  -- The evidence of the PUT is also evidence for the whole upload, with the read before it.
  have since : Since s.log (fun extra => (∃ read ∈ extra, Upload.readOf path read = some content) ∧
      PutEvidence path content result extra) y := by
    obtain ⟨extra, logged, -⟩ := passed
    obtain ⟨extra', logged', ok, rejected⟩ := put
    refine ⟨extra' ++ (extra ++ [_, _]), by rw [logged', logged, List.append_assoc, List.append_assoc]; rfl, ?_, ?_, ?_⟩
    · exact ⟨_, List.mem_append_right _ (List.mem_append_right _ (List.mem_cons_of_mem _ (List.mem_cons_self ..))),
        Upload.readOf_read path content t u⟩
    · intro etag same
      obtain ⟨moment, member, pushes⟩ := ok etag same
      exact ⟨moment, List.mem_append_left _ member, pushes⟩
    · intro e same precondition
      obtain ⟨moment, member, rejects⟩ := rejected e same precondition
      exact ⟨moment, List.mem_append_left _ member, rejects⟩
  rcases result with e | etag
  · refine way_return (since.mono ?_)
    rintro extra ⟨-, -, rejected⟩
    refine ⟨fun etag same => (by cases same), fun e' same => ?_⟩
    cases same
    exact ⟨rfl, fun rejects => rejected e rfl rejects⟩
  · refine (anyhow_safe (recordUpload path etag content.length modified) y).bind fun _ z recorded => way_return ?_
    refine since.trans recorded ?_
    rintro old new ⟨⟨moment, member, same⟩, ok, -⟩ -
    refine ⟨fun etag' _ => ?_, fun e same => (by cases same)⟩
    obtain ⟨put, member', pushes⟩ := ok etag rfl
    exact ⟨content, ⟨moment, List.mem_append_right _ member, same⟩, put, List.mem_append_right _ member', pushes⟩

end

end MonakaFs.Sync.Outbound
