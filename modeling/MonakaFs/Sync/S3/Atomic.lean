import MonakaFs.Sync.S3.Backend

/-! One request of the object store is one moment of its calls.

However many calls a request is made of, one of them does what the object store does for it,
and the others change no object. The result is the store's own, up to times and the
texts of errors, or the error of a transport that failed.
-/

set_option autoImplicit false

namespace MonakaFs.Sync

/-- Errors of one kind, whatever they name. -/
structure S3Error.Alike (e f : S3Error) : Prop where
  precondition : e.isPreconditionFailed = f.isPreconditionFailed
  missing : e.isNotFound = f.isNotFound
  unimplemented : e.isNotImplemented = f.isNotImplemented

structure ObjectMeta.Alike (info other : ObjectMeta) : Prop where
  key : info.key = other.key
  etag : info.etag = other.etag
  size : info.size = other.size

def Request.PayloadAlike : (request : Request) → request.Payload → request.Payload → Prop
  | .list .. => List.Forall₂ ObjectMeta.Alike
  | .head _ => Option.Rel ObjectMeta.Alike
  | .get _ => Option.Rel fun found other => found.1 = other.1 ∧ found.2.Alike other.2
  | .put .. => fun etag other => etag = other
  | .delete .. => fun _ _ => True

/-- Two answers that differ in times and texts only. -/
def Request.Alike (request : Request) : request.Answer → request.Answer → Prop
  | .ok value, .ok other => request.PayloadAlike value other
  | .error e, .error f => e.Alike f
  | _, _ => False

theorem S3Error.Alike.refl (e : S3Error) : e.Alike e := ⟨rfl, rfl, rfl⟩

theorem S3Error.Alike.of_precondition {e f : S3Error} (first : e.isPreconditionFailed = true)
    (second : f.isPreconditionFailed = true) : e.Alike f := by
  cases e <;> cases first
  cases f <;> cases second
  exact ⟨rfl, rfl, rfl⟩

theorem S3Error.Alike.of_missing {e f : S3Error} (first : e.isNotFound = true) (second : f.isNotFound = true) : e.Alike f := by
  cases e <;> cases first
  cases f <;> cases second
  exact ⟨rfl, rfl, rfl⟩

end MonakaFs.Sync

namespace MonakaFs.Sync.S3

open Async

section
variable {I : Signature} {S : Type}

/-- One moment of a log does it, and the others leave things as they are. -/
def Once (still point : Moment I S → Prop) (log : List (Moment I S)) : Prop :=
  ∃ later moment earlier, log = later ++ moment :: earlier ∧ point moment ∧ ∀ other ∈ later ++ earlier, still other

theorem Once.later {still point : Moment I S → Prop} {log : List (Moment I S)} (once : Once still point log)
    {moment : Moment I S} (quiet : still moment) : Once still point (moment :: log) := by
  obtain ⟨later, at_, earlier, rfl, holds, rest⟩ := once
  refine ⟨moment :: later, at_, earlier, rfl, holds, fun other member => ?_⟩
  rcases List.mem_cons.mp member with rfl | member
  · exact quiet
  · exact rest other member

theorem Once.last {still point : Moment I S → Prop} {log : List (Moment I S)} {moment : Moment I S} (holds : point moment)
    (rest : ∀ other ∈ log, still other) : Once still point (moment :: log) :=
  ⟨[], moment, log, rfl, holds, rest⟩

end

section
variable [EtagScheme] {S : Type} [S3Backend S] (storage : S3Storage)

/-- The service holds what the store holds, under the client's prefix. -/
structure Stands (s : S) (store : ObjectStore) : Prop where
  supported : store.rejectConditionalDelete = false
  absent : ∀ key, Relative key → store.objects.lookup key = none → object s (storage.key key) = none
  present : ∀ key found, Relative key → store.objects.lookup key = some found →
    ∃ time, object s (storage.key key) = some ⟨found.data, header (etagFor found.data), time⟩

def Still (m : Call S) : Prop := object m.after.service = object m.before.service

/-- A request as sent, as lost with or without its effect, or as turned down for a conflict. -/
inductive Admissible : Fault → Prop where
  | answered : Admissible .answered
  | lost {fault : Fault} : fault.isTransport = true → Admissible fault
  | conflict {key code : String} {status : Nat} : status = 409 ∨ code = "ConditionalRequestConflict" →
      Admissible (.unsent (.preconditionFailed key status code))

/-- This moment does what the store does for the request. -/
def Serves (request : Request) (result : request.Answer) (m : Call S) : Prop :=
  ∀ store, Stands storage m.before.service store → ∃ fault, Admissible fault ∧
    Stands storage m.after.service (store.serveWith fault request).2 ∧
    request.Alike result (store.serveWith fault request).1

variable {storage} {request : Request} {result : request.Answer} {m : Call S}

/-! ### Conditions -/

theorem hold_iff {s : S} {store : ObjectStore} (stands : Stands storage s store) {key : String} (relative : Relative key)
    {cond : Precondition} (unquoted : Unquoted cond) :
    (conditions cond).Hold (object s (storage.key key)) ↔ store.Passes key cond := by
  cases found : store.objects.lookup key with
  | none =>
    have absent := stands.absent key relative found
    rw [absent]
    cases cond with
    | none => exact ⟨fun _ => trivial, fun _ => ⟨fun _ asked => (by cases asked), fun asked => (by cases asked)⟩⟩
    | ifNoneMatchAny => exact ⟨fun _ => found, fun _ => ⟨fun _ asked => (by cases asked), fun _ => rfl⟩⟩
    | ifMatch etag =>
      refine ⟨fun holds => ?_, fun passes => ?_⟩
      · obtain ⟨_, there, -⟩ := holds.met _ rfl
        cases there
      · obtain ⟨_, there, -⟩ := passes
        rw [found] at there
        cases there
  | some stored =>
    obtain ⟨time, present⟩ := stands.present key stored relative found
    rw [present]
    cases cond with
    | none => exact ⟨fun _ => trivial, fun _ => ⟨fun _ asked => (by cases asked), fun asked => (by cases asked)⟩⟩
    | ifNoneMatchAny =>
      refine ⟨fun holds => ?_, fun passes => ?_⟩
      · cases holds.absent rfl
      · rw [show store.objects.lookup key = none from passes] at found
        cases found
    | ifMatch etag =>
      refine ⟨fun holds => ?_, fun passes => ?_⟩
      · obtain ⟨_, there, same⟩ := holds.met _ rfl
        rw [← Option.some.inj there, quoteEtag_plain unquoted] at same
        exact ⟨stored, found, header_inj same⟩
      · obtain ⟨other, there, same⟩ := passes
        obtain rfl := Option.some.inj (found.symm.trans there)
        refine ⟨fun tag asked => ⟨_, rfl, ?_⟩, fun asked => (by cases asked)⟩
        rw [← Option.some.inj asked, quoteEtag_plain unquoted, ← same]
        rfl

/-! ### Changes of one object -/

theorem Stands.same {s t : S} {store : ObjectStore} (stands : Stands storage s store) (same : object t = object s) :
    Stands storage t store :=
  ⟨stands.supported, by rw [same]; exact stands.absent, by rw [same]; exact stands.present⟩

theorem Stands.insert {s t : S} {store : ObjectStore} (stands : Stands storage s store) {key : String} (relative : Relative key)
    {body : Bytes} {time clock : Nat} (after : object t = Function.update (object s) (storage.key key)
      (some ⟨body, header (etagFor body), time⟩)) :
    Stands storage t { store with clock := clock, objects := store.objects.insert key ⟨body, clock⟩ } := by
  have elsewhere : ∀ other, Relative other → other ≠ key → object t (storage.key other) = object s (storage.key other) :=
    fun other plain different => by
      rw [after, Function.update_of_ne fun same => different (key_inj plain relative same)]
  refine ⟨stands.supported, fun other plain absent => ?_, fun other found plain present => ?_⟩
  · rw [Map.lookup_insert_eq] at absent
    split at absent
    · cases absent
    · next different =>
      rw [elsewhere other plain different]
      exact stands.absent other plain absent
  · rw [Map.lookup_insert_eq] at present
    split at present
    · next same =>
      obtain rfl := Option.some.inj present
      exact ⟨time, by rw [same, after, Function.update_self]⟩
    · next different =>
      rw [elsewhere other plain different]
      exact stands.present other found plain present

theorem Stands.erase {s t : S} {store : ObjectStore} (stands : Stands storage s store) {key : String} (relative : Relative key)
    (after : object t = Function.update (object s) (storage.key key) none) :
    Stands storage t { store with objects := store.objects.erase key } := by
  have elsewhere : ∀ other, Relative other → other ≠ key → object t (storage.key other) = object s (storage.key other) :=
    fun other plain different => by
      rw [after, Function.update_of_ne fun same => different (key_inj plain relative same)]
  refine ⟨stands.supported, fun other plain absent => ?_, fun other found plain present => ?_⟩
  · rw [Map.lookup_erase_eq] at absent
    split at absent
    · next same => rw [same, after, Function.update_self]
    · next different =>
      rw [elsewhere other plain different]
      exact stands.absent other plain absent
  · rw [Map.lookup_erase_eq] at present
    split at present
    · cases present
    · next different =>
      rw [elsewhere other plain different]
      exact stands.present other found plain present

/-- The object under a key, and under the key of the store. -/
theorem Stands.none_iff {s : S} {store : ObjectStore} (stands : Stands storage s store) {key : String} (relative : Relative key) :
    object s (storage.key key) = none ↔ store.objects.lookup key = none := by
  refine ⟨fun absent => ?_, stands.absent key relative⟩
  cases found : store.objects.lookup key with
  | none => rfl
  | some stored =>
    obtain ⟨time, present⟩ := stands.present key stored relative found
    rw [present] at absent
    cases absent

/-- An object of the service is one of the store, with the tag of its content. -/
theorem Stands.found {s : S} {store : ObjectStore} (stands : Stands storage s store) {key : String} (relative : Relative key)
    {there : S3Object} (present : object s (storage.key key) = some there) :
    ∃ stored, store.objects.lookup key = some stored ∧ there.data = stored.data ∧ unquote (some there.eTag) = stored.etag := by
  cases looked : store.objects.lookup key with
  | none =>
    rw [(stands.none_iff relative).mpr looked] at present
    cases present
  | some stored =>
    obtain ⟨time, held⟩ := stands.present key stored relative looked
    obtain rfl := Option.some.inj (held.symm.trans present)
    exact ⟨stored, rfl, rfl, unquote_header (S3Backend.tag_plain S _)⟩

/-! ### One call that does it -/

/-- A call that failed before it did anything. -/
theorem serves_unsent {e : S3Error} (admissible : Admissible (.unsent e)) (still : Still m) : Serves storage request (.error e) m :=
  fun _ stands => ⟨.unsent e, admissible, stands.same still, .refl e⟩

/-- A write of the service is a write of the store, under the same condition. -/
theorem written_serves {key : String} (relative : Relative key) {body : Bytes} {cond : Precondition} (unquoted : Unquoted cond)
    {reply : Except SdkError (Option String)} {result : Except S3Error String}
    (failed : ∀ e, reply = .error e → result = .error (classify (storage.key key) e .write))
    (returned : ∀ tag, reply = .ok tag → result = .ok (unquote tag))
    (written : Written (conditions cond) (storage.key key) body (etagFor body) (object m.before.service)
      (object m.after.service) reply) :
    Serves storage (.put key body cond) result m := by
  intro store stands
  cases written with
  | refused same plain =>
    obtain rfl := failed _ rfl
    exact serves_unsent (.lost (plain _ _)) same store stands
  | conflict same conflicting =>
    obtain ⟨status, code, kind, which⟩ := classify_conflict conflicting (storage.key key) .write
    obtain rfl := failed _ rfl
    rw [kind]
    exact serves_unsent (.conflict which) same store stands
  | unmet same fails there unmet =>
    obtain rfl := failed _ rfl
    obtain ⟨passes, -⟩ | ⟨-, e, kept⟩ := store.put_cases key body cond
    · exact (fails ((hold_iff stands relative unquoted).mpr passes)).elim
    · have refused : (store.put key body cond).1 = .error e := by rw [kept]
      obtain precondition | ⟨-, absent, -⟩ := ObjectStore.put_error refused
      · refine ⟨.answered, .answered, ?_, ?_⟩ <;> simp only [ObjectStore.serveWith, ObjectStore.serve, kept]
        · exact stands.same same
        · exact .of_precondition (unmet _ _) precondition
      · exact (there ((stands.none_iff relative).mpr absent)).elim
  | gone same absent conditional missing =>
    obtain rfl := failed _ rfl
    have nothing := (stands.none_iff relative).mp absent
    obtain ⟨etag, rfl⟩ : ∃ etag, cond = .ifMatch etag := by
      cases cond with
      | ifMatch etag => exact ⟨etag, rfl⟩
      | none | ifNoneMatchAny => exact (conditional rfl).elim
    have kept : store.put key body (.ifMatch etag) = (.error (.notFound key), store) := by
      simp only [ObjectStore.put, ObjectStore.checkCond, nothing]
    refine ⟨.answered, .answered, ?_, ?_⟩ <;> simp only [ObjectStore.serveWith, ObjectStore.serve, kept]
    · exact stands.same same
    · exact .of_missing (missing _ _) rfl
  | stored holds changed reply =>
    obtain ⟨-, taken⟩ | ⟨fails, -⟩ := store.put_cases key body cond
    · rcases reply with rfl | ⟨e, rfl, plain⟩
      · obtain rfl := returned _ rfl
        refine ⟨.answered, .answered, ?_, ?_⟩ <;> simp only [ObjectStore.serveWith, ObjectStore.serve, taken]
        · exact stands.insert relative changed
        · exact unquote_header (S3Backend.tag_plain S body)
      · obtain rfl := failed _ rfl
        refine ⟨.unanswered _, .lost (plain _ _), ?_, .refl _⟩
        simp only [ObjectStore.serveWith, ObjectStore.serve, taken]
        exact stands.insert relative changed
    · exact (fails ((hold_iff stands relative unquoted).mp holds)).elim

end
end MonakaFs.Sync.S3
