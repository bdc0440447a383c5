import MonakaFs.Sync.S3.Memory
import MonakaFs.Sync.S3.Uploads

/-! Every request of the sync layer, on a backend that implements conditional deletes.

Together with the uploads this makes the client a refinement of the object store: what the
protocols above it were proved against is what the service is left with.
-/

set_option autoImplicit false

namespace MonakaFs.Sync.S3

open Async Contract

section
variable [EtagScheme] {S : Type} [S3Backend S] {storage : S3Storage} {s t u : S3Node S} {m : Call S}

/-! ### Reading -/

omit [EtagScheme] in
theorem orMissing_plain {A : Type} {full : String} {e : SdkError} (plain : e.Plain) :
    S3Storage.orMissing full e = (.error (classify full e .read) : Except S3Error (Option A)) := by
  have transport := plain full .read
  unfold S3Storage.orMissing
  split
  · next kind => rw [kind] at transport; cases transport
  · rfl

omit [EtagScheme] in
theorem orMissing_missing {A : Type} {full : String} {e : SdkError} (missing : e.Missing) :
    S3Storage.orMissing full e = (.ok none : Except S3Error (Option A)) := by
  have gone := missing full .read
  unfold S3Storage.orMissing
  split
  · rfl
  · next different =>
    cases kind : classify full e .read with
    | notFound key => exact (different key kind).elim
    | read | write | delete | preconditionFailed | notImplemented => rw [kind] at gone; cases gone

theorem head_serves {key : String} (relative : Relative key) {reply : Except SdkError HeadOutput}
    {result : Except S3Error (Option ObjectMeta)} (answered : S3Backend.answer (.headObject (storage.key key)) m.before.service reply m.after.service)
    (returned : ∀ output, reply = .ok output → result = .ok (some ⟨key, unquote output.eTag, output.lastModified.getD 0,
      output.contentLength.getD 0⟩))
    (failed : ∀ e, reply = .error e → result = S3Storage.orMissing (storage.key key) e) : Serves storage (.head key) result m := by
  obtain ⟨same, -, found, refused⟩ := S3Backend.head_answer answered
  intro store stands
  cases reply with
  | ok output =>
    obtain rfl := returned _ rfl
    obtain ⟨there, present, rfl⟩ := found _ rfl
    obtain ⟨stored, looked, data, tag⟩ := stands.found relative present
    refine ⟨.answered, .answered, stands.same same, ?_⟩
    simp only [ObjectStore.serveWith, ObjectStore.serve, ObjectStore.head, looked, Option.map_some]
    exact .some ⟨rfl, tag, congrArg List.length data⟩
  | error e =>
    rcases refused e rfl with plain | ⟨absent, gone⟩
    · obtain rfl := (failed e rfl).trans (orMissing_plain plain)
      exact serves_unsent (.lost (plain _ _)) same store stands
    · obtain rfl := (failed e rfl).trans (orMissing_missing gone)
      refine ⟨.answered, .answered, stands.same same, ?_⟩
      simp only [ObjectStore.serveWith, ObjectStore.serve, ObjectStore.head, (stands.none_iff relative).mp absent, Option.map_none]
      exact .none

theorem get_serves {key : String} (relative : Relative key) {reply : Except SdkError GetOutput}
    {result : Except S3Error (Option (Bytes × ObjectMeta))}
    (answered : S3Backend.answer (.getObject (storage.key key)) m.before.service reply m.after.service)
    (returned : ∀ output, reply = .ok output → result = storage.received key output)
    (failed : ∀ e, reply = .error e → result = S3Storage.orMissing (storage.key key) e) : Serves storage (.get key) result m := by
  obtain ⟨same, -, found, refused⟩ := S3Backend.get_answer answered
  intro store stands
  cases reply with
  | ok output =>
    obtain ⟨there, present, tagged, -, whole⟩ := found _ rfl
    obtain ⟨stored, looked, data, tag⟩ := stands.found relative present
    have got := returned _ rfl
    unfold S3Storage.received at got
    cases body : output.body with
    | error text =>
      rw [body] at got
      subst got
      exact serves_unsent (.lost rfl) same store stands
    | ok bytes =>
      rw [body] at got
      subst got
      obtain rfl := whole _ body
      refine ⟨.answered, .answered, stands.same same, ?_⟩
      simp only [ObjectStore.serveWith, ObjectStore.serve, ObjectStore.get, looked, Option.map_some]
      exact .some ⟨data, rfl, by rw [tagged]; exact tag, congrArg List.length data⟩
  | error e =>
    rcases refused e rfl with plain | ⟨absent, gone⟩
    · obtain rfl := (failed e rfl).trans (orMissing_plain plain)
      exact serves_unsent (.lost (plain _ _)) same store stands
    · obtain rfl := (failed e rfl).trans (orMissing_missing gone)
      refine ⟨.answered, .answered, stands.same same, ?_⟩
      simp only [ObjectStore.serveWith, ObjectStore.serve, ObjectStore.get, (stands.none_iff relative).mp absent, Option.map_none]
      exact .none

/-- A request that is one call and returns. -/
theorem once_alone {request : Request} {result : request.Answer} {call : S3Call} {reply : call.Answer} (fresh : t.log = [])
    (logged : u.log = ⟨.send call, reply, t.state, u.state⟩ :: t.log)
    (serves : Serves storage request result ⟨.send call, reply, t.state, u.state⟩) :
    (client S).Safe (fun result t => Once Still (Serves storage request result) t.log) (.done result) u := by
  refine safe_done fun v later => ?_
  rw [later.log, logged, fresh]
  exact .last serves fun _ member => (by cases member)

theorem head_safe {key : String} (relative : Relative key) (fresh : s.log = []) :
    (client S).Safe (fun result t => Once Still (Serves storage (.head key) result) t.log) (storage.head key) s := by
  unfold S3Storage.head
  refine safe_call fun t moves => ⟨trivial, fun reply u effect => ?_⟩
  obtain ⟨answered, supported, logged⟩ := sent effect
  refine ⟨guarantee_same supported (S3Backend.head_answer answered).2.1, ?_⟩
  have empty := moves.log.trans fresh
  cases reply with
  | ok output =>
    exact once_alone empty logged (head_serves relative answered (fun _ same => by cases same; rfl) fun _ same => by cases same)
  | error e =>
    exact once_alone empty logged (head_serves relative answered (fun _ same => by cases same) fun _ same => by cases same; rfl)

theorem get_safe {key : String} (relative : Relative key) (fresh : s.log = []) :
    (client S).Safe (fun result t => Once Still (Serves storage (.get key) result) t.log) (storage.get key) s := by
  unfold S3Storage.get
  refine safe_call fun t moves => ⟨trivial, fun reply u effect => ?_⟩
  obtain ⟨answered, supported, logged⟩ := sent effect
  refine ⟨guarantee_same supported (S3Backend.get_answer answered).2.1, ?_⟩
  have empty := moves.log.trans fresh
  cases reply with
  | ok output =>
    exact once_alone empty logged (get_serves relative answered (fun _ same => by cases same; rfl) fun _ same => by cases same)
  | error e =>
    exact once_alone empty logged (get_serves relative answered (fun _ same => by cases same) fun _ same => by cases same; rfl)

/-! ### Deletes -/

/-- The store turns a delete down whose tag is not that of the object. -/
theorem Stands.refuses {w : S} {store : ObjectStore} (stands : Stands storage w store) {key expected : String} (relative : Relative key)
    (plain : Text.trimMatches '"' expected = expected) {there : S3Object} (present : object w (storage.key key) = some there)
    (different : there.eTag ≠ header expected) :
    store.delete key (.ifMatch expected) = (.error (.preconditionFailed key 412 "PreconditionFailed"), store) := by
  obtain ⟨stored, looked, -, -⟩ := stands.found relative present
  have other : stored.etag ≠ expected := fun equal => by
    have unquoted : Unquoted (.ifMatch expected) := plain
    have holds := (hold_iff stands relative unquoted).mpr ⟨stored, looked, equal⟩
    obtain ⟨_, there', tagged⟩ := holds.met _ rfl
    rw [present] at there'
    cases there'
    exact different (tagged.trans (quoteEtag_plain plain))
  simp [ObjectStore.delete, ObjectStore.checkCond, stands.supported, looked, other]

/-- A delete of the service is a delete of the store, where the condition is not turned down as such. -/
theorem removed_serves {key : String} (relative : Relative key) {cond : Precondition} (unquoted : Unquoted cond)
    (asked : cond ≠ .ifNoneMatchAny) {reply : Except SdkError Unit} {result : Except S3Error Unit}
    (returned : reply = .ok () → result = .ok ())
    (missing : ∀ e, reply = .error e → (classify (storage.key key) e .delete).isNotFound = true → result = .ok ())
    (failed : ∀ e, reply = .error e → (classify (storage.key key) e .delete).isNotFound = false →
      (classify (storage.key key) e .delete).isNotImplemented = false → result = .error (classify (storage.key key) e .delete))
    (supported : ∀ e, reply = .error e → deleteHeader cond ≠ none → ¬ e.Unsupported)
    (removed : Removed (deleteHeader cond) (storage.key key) (object m.before.service) (object m.after.service) reply) :
    Serves storage (.delete key cond) result m := by
  intro store stands
  cases removed with
  | refused same plain =>
    have kinds := S3Error.transport_kind (plain (storage.key key) .delete)
    obtain rfl := failed _ rfl kinds.2.1 kinds.2.2
    exact serves_unsent (.lost (plain _ _)) same store stands
  | conflict same conditional conflicting =>
    obtain ⟨status, code, kind, which⟩ := classify_conflict conflicting (storage.key key) .delete
    obtain rfl := failed _ rfl (by rw [kind]; rfl) (by rw [kind]; rfl)
    rw [kind]
    exact serves_unsent (.conflict which) same store stands
  | unsupported same conditional unsupported => exact (supported _ rfl conditional unsupported).elim
  | @unmet e tag there same header_ present different unmet =>
    obtain ⟨etag, rfl⟩ : ∃ etag, cond = .ifMatch etag := by
      cases cond with
      | ifMatch etag => exact ⟨etag, rfl⟩
      | none | ifNoneMatchAny => cases header_
    have precondition := unmet (storage.key key) .delete
    have kinds : (classify (storage.key key) e .delete).isNotFound = false ∧
        (classify (storage.key key) e .delete).isNotImplemented = false := by
      cases kind : classify (storage.key key) e .delete <;> rw [kind] at precondition <;> cases precondition
      exact ⟨rfl, rfl⟩
    obtain rfl := failed _ rfl kinds.1 kinds.2
    have kept := stands.refuses relative unquoted present
      (by rw [← quoteEtag_plain unquoted, Option.some.inj header_]; exact different)
    refine ⟨.answered, .answered, ?_, ?_⟩ <;> simp only [ObjectStore.serveWith, ObjectStore.serve, kept]
    · exact stands.same same
    · exact .of_precondition precondition rfl
  | missing same absent how =>
    have nothing := (stands.none_iff relative).mp absent
    have done : result = .ok () := by
      rcases how with rfl | ⟨e, rfl, gone⟩
      · exact returned rfl
      · exact missing e rfl (gone _ _)
    obtain rfl := done
    have erased : Function.update (object m.before.service) (storage.key key) none = object m.before.service := by
      rw [← absent, Function.update_eq_self]
    cases cond with
    | none =>
      have whole : store.delete key .none = (.ok (), { store with objects := store.objects.erase key }) :=
        ObjectStore.delete_passes stands.supported trivial
      refine ⟨.answered, .answered, ?_, ?_⟩ <;> simp only [ObjectStore.serveWith, ObjectStore.serve, whole]
      · exact stands.erase relative (same.trans erased.symm)
      · trivial
    | ifNoneMatchAny => exact (asked rfl).elim
    | ifMatch etag =>
      have kept : store.delete key (.ifMatch etag) = (.ok (), store) := by
        simp [ObjectStore.delete, stands.supported, nothing]
      refine ⟨.answered, .answered, ?_, ?_⟩ <;> simp only [ObjectStore.serveWith, ObjectStore.serve, kept]
      · exact stands.same same
      · trivial
  | removed present holds changed how =>
    have passes : store.Passes key cond := by
      cases cond with
      | none => trivial
      | ifNoneMatchAny => exact (asked rfl).elim
      | ifMatch etag =>
        exact (hold_iff stands relative unquoted).mp ⟨fun tag same => ⟨_, present, holds tag same⟩, fun same => (by cases same)⟩
    have whole := ObjectStore.delete_passes stands.supported passes
    rcases how with rfl | ⟨e, rfl, plain⟩
    · obtain rfl := returned rfl
      refine ⟨.answered, .answered, ?_, ?_⟩ <;> simp only [ObjectStore.serveWith, ObjectStore.serve, whole]
      · exact stands.erase relative changed
      · trivial
    · have kinds := S3Error.transport_kind (plain (storage.key key) .delete)
      obtain rfl := failed _ rfl kinds.2.1 kinds.2.2
      refine ⟨.unanswered _, .lost (plain _ _), ?_, .refl _⟩
      simp only [ObjectStore.serveWith, ObjectStore.serve, whole]
      exact stands.erase relative changed

/-- A delete that carries its condition is done with one call, or with what comes after a refusal of conditions as such. -/
theorem deleteConditionally_safe {key : String} (relative : Relative key) {cond : Precondition} (unquoted : Unquoted cond)
    (asked : cond ≠ .ifNoneMatchAny) (still : AllStill s.log) {post : Except S3Error Unit → S3Node S → Prop}
    (once : ∀ result t, Once Still (Serves storage (.delete key cond) result) t.log → post result t)
    (fallback : ∀ expected u, cond = .ifMatch expected → ¬ ConditionalDeletes S → AllStill u.log →
      (client S).Safe post (storage.deleteWithHeadCheck (storage.key key) expected) u) :
    (client S).Safe post (storage.deleteConditionally (storage.key key) cond) s := by
  unfold S3Storage.deleteConditionally
  refine safe_call fun t moves => ⟨trivial, fun reply u effect => ?_⟩
  obtain ⟨answered, unchanged, logged⟩ := sent effect
  obtain ⟨kept, removed⟩ := S3Backend.delete_answer answered
  refine ⟨guarantee_same unchanged kept, ?_⟩
  rw [moves.log] at logged
  have alone : ∀ result : Except S3Error Unit, (reply = .ok () → result = .ok ()) →
      (∀ e, reply = .error e → (classify (storage.key key) e .delete).isNotFound = true → result = .ok ()) →
      (∀ e, reply = .error e → (classify (storage.key key) e .delete).isNotFound = false →
        (classify (storage.key key) e .delete).isNotImplemented = false → result = .error (classify (storage.key key) e .delete)) →
      (∀ e, reply = .error e → deleteHeader cond ≠ none → ¬ e.Unsupported) → (client S).Safe post (.done result) u :=
    fun result returned missing failed supported => safe_done fun v later => once result v (by
      rw [later.log, logged]
      exact .last (removed_serves relative unquoted asked returned missing failed supported removed) still)
  cases reply with
  | ok _ => exact alone _ (fun _ => rfl) (fun _ same => by cases same) (fun _ same => by cases same) fun _ same => by cases same
  | error e =>
    have gone : ∀ name, classify (storage.key key) e .delete = .notFound name → (client S).Safe post (.done (.ok ())) u := fun name kind => by
      refine alone _ (fun same => by cases same) (fun _ _ _ => rfl) (fun _ same other => ?_) fun _ same _ unsupported => ?_
      · cases same
        rw [kind] at other
        cases other
      · cases same
        have other := unsupported (storage.key key) .delete
        rw [kind] at other
        cases other
    have refused : (∀ name, classify (storage.key key) e .delete ≠ .notFound name) →
        (deleteHeader cond ≠ none → ∀ name text, classify (storage.key key) e .delete ≠ .notImplemented name text) →
        (client S).Safe post (.done (.error (classify (storage.key key) e .delete))) u := fun missing unimplemented => by
      refine alone _ (fun same => by cases same) (fun _ same found => ?_) (fun _ same _ _ => by cases same; rfl) fun _ same conditional unsupported => ?_
      · cases same
        cases kind : classify (storage.key key) e .delete <;> rw [kind] at found <;> first | exact (missing _ kind).elim | cases found
      · cases same
        have other := unsupported (storage.key key) .delete
        cases kind : classify (storage.key key) e .delete <;> rw [kind] at other <;>
          first | exact unimplemented conditional _ _ kind | cases other
    cases cond with
    | ifNoneMatchAny => exact (asked rfl).elim
    | none =>
      simp only [Prog.bind]
      split
      · next name kind => exact gone name kind
      · next same => cases same
      · next missing _ => exact refused missing fun conditional => (conditional rfl).elim
    | ifMatch expected =>
      simp only [Prog.bind]
      split
      · next name kind => exact gone name kind
      · next name text _ kind same =>
        cases same
        -- The backend has no such condition. It has done nothing, and the flag may go.
        have unsupported : e.Unsupported := fun other which => by
          rw [classify_unimplemented e other (storage.key key) which .delete, kind]
          rfl
        have rejects : ¬ ConditionalDeletes S := fun conditional => conditional _ _ _ e _ answered unsupported
        have quiet : object u.state.service = object t.state.service := removed.unsupported_same unsupported
        refine safe_call fun v moves' => ⟨trivial, fun _ w effect' => ?_⟩
        obtain ⟨cleared, logged'⟩ := effect'
        have cleared : w.state = { v.state with supported := false } := cleared
        refine ⟨⟨.inr ⟨by rw [cleared], rejects⟩, fun other _ _ => by rw [cleared]⟩, fallback expected w rfl rejects ?_⟩
        rw [logged', moves'.log, logged]
        exact AllStill.cons (AllStill.cons still quiet) (by rw [Still, cleared])
      · next missing unimplemented => exact refused missing fun _ name text kind => unimplemented name text expected kind rfl

/-- Reading the flag of the client. -/
theorem loadSupported_safe {A : Type} {post : A → S3Node S → Prop} {k : Bool → S3Task A} (conditional : ConditionalDeletes S)
    (supported : s.state.supported = true) (fresh : s.log = [])
    (later : ∀ u : S3Node S, AllStill u.log → uploads u.log = [] → u.state.supported = true → (client S).Safe post (k true) u) :
    (client S).Safe post (loadSupported >>= k) s := by
  refine safe_call fun t moves => ⟨trivial, fun reply u effect => ?_⟩
  obtain ⟨⟨read, same⟩, logged⟩ := effect
  have kept : t.state.supported = true := by
    rcases moves.latch with unchanged | ⟨-, rejects⟩
    · rw [unchanged, supported]
    · exact (rejects conditional).elim
  obtain rfl : reply = true := read.trans kept
  refine ⟨guarantee_same (by rw [same]) (by rw [same]), later u ?_ ?_ (by rw [same, kept])⟩
  · rw [logged, moves.log, fresh]
    exact AllStill.cons (fun _ member => by cases member) (by rw [Still, same])
  · rw [logged, uploads_other rfl, moves.log, fresh]
    rfl

theorem delete_safe {key : String} (relative : Relative key) {cond : Precondition} (unquoted : Unquoted cond)
    (asked : cond ≠ .ifNoneMatchAny) (supported : deleteHeader cond ≠ none → ConditionalDeletes S ∧ s.state.supported = true)
    (fresh : s.log = []) :
    (client S).Safe (fun result t => Once Still (Serves storage (.delete key cond) result) t.log) (storage.delete key cond) s := by
  cases cond with
  | ifNoneMatchAny => exact (asked rfl).elim
  | none =>
    refine deleteConditionally_safe relative unquoted asked ?_ (fun _ _ once => once) fun _ _ same => (by cases same)
    rw [fresh]
    exact fun _ member => by cases member
  | ifMatch etag =>
    obtain ⟨conditional, flag⟩ := supported (by simp [deleteHeader])
    exact loadSupported_safe conditional flag fresh fun u still _ _ =>
      deleteConditionally_safe relative unquoted asked still (fun _ _ once => once) fun _ _ _ rejects => (rejects conditional).elim

/-! ### All requests -/

/-- What the sync layer asks for: keys without a leading slash, tags as the client gives them out, and deletes
under `If-Match` only where the backend takes them. -/
def Request.Proper (S : Type) [S3Backend S] (supported : Bool) : Request → Prop
  | .list .. => False
  | .head key | .get key => Relative key
  | .put key _ cond => Relative key ∧ Unquoted cond
  | .delete key cond => Relative key ∧ Unquoted cond ∧ cond ≠ .ifNoneMatchAny ∧
      (deleteHeader cond ≠ none → ConditionalDeletes S ∧ supported = true)

theorem simpleUpload_safe {key : String} (relative : Relative key) {data : Bytes} (small : data.length < multipartThreshold)
    {cond : Precondition} (unquoted : Unquoted cond) (fresh : s.log = []) :
    (client S).Safe (fun result t => Once Still (Serves storage (.put key data cond) result) t.log)
      (S3Storage.simpleUpload (storage.key key) data cond) s := by
  unfold S3Storage.simpleUpload
  refine safe_call fun t moves => ⟨trivial, fun reply u effect => ?_⟩
  obtain ⟨answered, supported, logged⟩ := sent effect
  obtain ⟨same, written⟩ := S3Backend.put_answer answered
  rw [S3Backend.tag_small data small] at written
  refine ⟨guarantee_same supported same, ?_⟩
  have empty := moves.log.trans fresh
  cases reply with
  | error e =>
    exact once_alone empty logged (written_serves relative unquoted (fun _ same => by cases same; rfl) (fun _ same => by cases same) written)
  | ok tag =>
    exact once_alone empty logged (written_serves relative unquoted (fun _ same => by cases same) (fun _ same => by cases same; rfl) written)

/-- Whatever others do to the bucket meanwhile, a request of the client is one request of the object store, at one of its calls. -/
theorem perform_atomic (storage : S3Storage) (fuel : Nat) (request : Request) (world : World S)
    (proper : Request.Proper S world.supported request) :
    (client S).Safe (fun result t => Once Still (Serves storage request result) t.log) (storage.perform fuel request) ⟨world, []⟩ := by
  cases request with
  | list => exact proper.elim
  | head key => exact head_safe proper rfl
  | get key => exact get_safe proper rfl
  | delete key cond => exact delete_safe proper.1 proper.2.1 proper.2.2.1 proper.2.2.2 rfl
  | put key body cond =>
    simp only [S3Storage.perform, S3Storage.put]
    split
    · next large => exact (multipartUpload_safe proper.1 large proper.2 rfl).weaken fun _ _ both => both.1
    · next small => exact simpleUpload_safe proper.1 (by omega) proper.2 rfl

/-- When a write returns, nothing of it stays staged, unless the abort of its upload was lost. -/
theorem put_released (storage : S3Storage) (world : World S) {key : String} (relative : Relative key) (body : Bytes)
    {cond : Precondition} (unquoted : Unquoted cond) :
    (client S).Safe (fun _ t => Released t) (storage.put key body cond) ⟨world, []⟩ := by
  unfold S3Storage.put
  split
  · next large => exact (multipartUpload_safe relative large unquoted rfl).weaken fun _ _ both => both.2
  · unfold S3Storage.simpleUpload
    refine safe_call fun t moves => ⟨trivial, fun reply u effect => ?_⟩
    obtain ⟨answered, supported, logged⟩ := sent effect
    have none_ : Released u := by
      rw [Released, logged, uploads_other rfl, moves.log]
      exact fun _ member => by cases member
    refine ⟨guarantee_same supported (S3Backend.put_answer answered).1, ?_⟩
    cases reply with
    | error e => exact safe_done fun v later => none_.rely later
    | ok tag => exact safe_done fun v later => none_.rely later

end

/-! ### A first write, and a large one -/

section
open scoped PlainEtags

/-- What a call does to an empty bucket. -/
def first (call : S3Call) : Call MemoryS3 :=
  ⟨.send call, ((MemoryS3.empty false).serve call).1, ⟨.empty false, true⟩, ⟨((MemoryS3.empty false).serve call).2, true⟩⟩

theorem first_effect (call : S3Call) : (client MemoryS3).effect (.send call) ⟨⟨.empty false, true⟩, []⟩
    ((MemoryS3.empty false).serve call).1 ⟨(first call).after, [first call]⟩ := ⟨⟨rfl, rfl⟩, rfl⟩

theorem perform_atomic_create :
    ∃ t, (client MemoryS3).Exec (S3Storage.perform ⟨"vfs/"⟩ 1 (.put "files/a" [7] .ifNoneMatchAny)) ⟨⟨.empty false, true⟩, []⟩
        (.ok (unquote (some (header (PlainEtags.tag [7]))))) t ∧
      Once Still (Serves ⟨"vfs/"⟩ (.put "files/a" [7] .ifNoneMatchAny) (.ok (unquote (some (header (PlainEtags.tag [7])))))) t.log := by
  have run : (client MemoryS3).Exec (S3Storage.perform ⟨"vfs/"⟩ 1 (.put "files/a" [7] .ifNoneMatchAny)) ⟨⟨.empty false, true⟩, []⟩
      (.ok (unquote (some (header (PlainEtags.tag [7])))))
      ⟨(first (.putObject "vfs/files/a" [7] (conditions .ifNoneMatchAny))).after,
        [first (.putObject "vfs/files/a" [7] (conditions .ifNoneMatchAny))]⟩ :=
    .call ((client MemoryS3).rely_refl _) (first_effect _) (.done ((client MemoryS3).rely_refl _))
  have proper : Request.Proper MemoryS3 true (.put "files/a" [7] .ifNoneMatchAny) := ⟨relative_of_front (by decide), trivial⟩
  exact ⟨_, run, (perform_atomic ⟨"vfs/"⟩ 1 (.put "files/a" [7] .ifNoneMatchAny) ⟨.empty false, true⟩ proper).exec run⟩

/-- A body of one part. Nothing needs to compute it. -/
@[irreducible] def onePart : Bytes := List.replicate partSize 7

theorem put_released_large :
    (client MemoryS3).Safe (fun _ t => Released t) (S3Storage.put ⟨"vfs/"⟩ "files/a" onePart .none) ⟨⟨.empty false, true⟩, []⟩ :=
  have unquoted : Unquoted .none := trivial
  put_released ⟨"vfs/"⟩ ⟨MemoryS3.empty false, true⟩ (relative_of_front (by decide)) onePart unquoted

end
end MonakaFs.Sync.S3
