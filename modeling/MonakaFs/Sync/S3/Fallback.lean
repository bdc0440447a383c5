import MonakaFs.Sync.S3.Requests

/-! Conditional deletes on a backend that does not have them.

The client compares first and deletes then. Between the two calls the object may change, and
that is all that can go wrong: otherwise the delete is as atomic as one that the backend
checks. Once a backend has turned down a condition, the client does not ask again.
-/

set_option autoImplicit false

namespace MonakaFs.Sync.S3

open Async Contract

section
variable [EtagScheme] {S : Type} [S3Backend S] {storage : S3Storage} {s t u : S3Node S}

/-- The object changed after the comparison and before the plain delete. -/
def Slipped (full : String) (log : List (Call S)) : Prop :=
  ∃ deleted compared earlier, log = deleted :: compared :: earlier ∧ deleted.op = .send (.deleteObject full none) ∧
    compared.op = .send (.headObject full) ∧ AllStill (compared :: earlier) ∧
    object deleted.before.service full ≠ object compared.after.service full

/-- A comparison that found another version, or none, settles a conditional delete. -/
theorem delete_settled {m : Call S} {key expected : String} (relative : Relative key)
    (plain : Text.trimMatches '"' expected = expected) (still : Still m) {result : Except S3Error Unit}
    (missing : object m.before.service (storage.key key) = none → result = .ok ())
    (other : ∀ there, object m.before.service (storage.key key) = some there →
      there.eTag ≠ header expected ∧ ∃ e, result = .error e ∧ e.isPreconditionFailed = true) :
    Serves storage (.delete key (.ifMatch expected)) result m := by
  intro store stands
  cases present : object m.before.service (storage.key key) with
  | none =>
    obtain rfl := missing present
    have nothing := (stands.none_iff relative).mp present
    have kept : store.delete key (.ifMatch expected) = (.ok (), store) := by
      simp [ObjectStore.delete, stands.supported, nothing]
    refine ⟨.answered, .answered, ?_, ?_⟩ <;> simp only [ObjectStore.serveWith, ObjectStore.serve, kept]
    · exact stands.same still
    · trivial
  | some there =>
    obtain ⟨different, e, rfl, precondition⟩ := other there present
    have kept := stands.refuses relative plain present different
    refine ⟨.answered, .answered, ?_, ?_⟩ <;> simp only [ObjectStore.serveWith, ObjectStore.serve, kept]
    · exact stands.same still
    · exact .of_precondition precondition rfl

/-- The plain delete of a version that is still the compared one is a conditional delete. -/
theorem delete_compared {m : Call S} {key expected : String} (relative : Relative key)
    {there : S3Object} (present : object m.before.service (storage.key key) = some there)
    (tagged : unquote (some there.eTag) = expected) {reply : Except SdkError Unit} {result : Except S3Error Unit}
    (returned : reply = .ok () → result = .ok ())
    (failed : ∀ e, reply = .error e → result = .error (classify (storage.key key) e .delete))
    (removed : Removed none (storage.key key) (object m.before.service) (object m.after.service) reply) :
    Serves storage (.delete key (.ifMatch expected)) result m := by
  intro store stands
  cases removed with
  | refused same plain =>
    obtain rfl := failed _ rfl
    exact serves_unsent (.lost (plain _ _)) same store stands
  | conflict _ conditional => exact (conditional rfl).elim
  | unsupported _ conditional => exact (conditional rfl).elim
  | unmet _ conditional => cases conditional
  | missing _ absent =>
    rw [present] at absent
    cases absent
  | removed _ _ changed how =>
    obtain ⟨stored, looked, -, tag⟩ := stands.found relative present
    have passes : store.Passes key (.ifMatch expected) := ⟨stored, looked, tag.symm.trans tagged⟩
    have whole := ObjectStore.delete_passes stands.supported passes
    rcases how with rfl | ⟨e, rfl, plain⟩
    · obtain rfl := returned rfl
      refine ⟨.answered, .answered, ?_, ?_⟩ <;> simp only [ObjectStore.serveWith, ObjectStore.serve, whole]
      · exact stands.erase relative changed
      · trivial
    · obtain rfl := failed _ rfl
      refine ⟨.unanswered _, .lost (plain _ _), ?_, .refl _⟩
      simp only [ObjectStore.serveWith, ObjectStore.serve, whole]
      exact stands.erase relative changed

/-- The comparison, the latest call, and what it found. -/
structure Compared (full : String) (earlier : List (Call S)) (result : Except S3Error (Option ObjectMeta)) (m : Call S) : Prop where
  op : m.op = .send (.headObject full)
  still : Still m
  failed : ∀ e, result = .error e → e.isTransport = true
  missing : result = .ok none → object m.before.service full = none
  found : ∀ info, result = .ok (some info) → ∃ there, object m.before.service full = some there ∧ info.etag = unquote (some there.eTag)

theorem head_compares {key : String} :
    (client S).Safe (fun result t => ∃ m, t.log = m :: s.log ∧ Compared (storage.key key) s.log result m) (storage.head key) s := by
  unfold S3Storage.head
  refine safe_call fun t moves => ⟨trivial, fun reply u effect => ?_⟩
  obtain ⟨answered, supported, logged⟩ := sent effect
  obtain ⟨same, kept, found, refused⟩ := S3Backend.head_answer answered
  refine ⟨guarantee_same supported kept, ?_⟩
  rw [moves.log] at logged
  cases reply with
  | error e =>
    refine safe_done fun v later => ⟨_, later.log.trans logged, ?_⟩
    rcases refused e rfl with plain | ⟨absent, missing⟩
    · rw [orMissing_plain plain]
      exact ⟨rfl, same, fun _ there => (by cases there; exact plain _ _), fun there => (by cases there), fun _ there => (by cases there)⟩
    · rw [orMissing_missing missing]
      exact ⟨rfl, same, fun _ there => (by cases there), fun _ => absent, fun _ there => (by cases there)⟩
  | ok output =>
    refine safe_done fun v later => ⟨_, later.log.trans logged, rfl, same, fun _ there => (by cases there), fun there => (by cases there),
      fun info there => ?_⟩
    obtain ⟨stored, present, rfl⟩ := found output rfl
    cases there
    exact ⟨stored, present, rfl⟩

theorem deleteWithHeadCheck_safe {key expected : String} (relative : Relative key) (plain : Text.trimMatches '"' expected = expected)
    (still : AllStill s.log) :
    (client S).Safe (fun result t => Once Still (Serves storage (.delete key (.ifMatch expected)) result) t.log ∨
      Slipped (storage.key key) t.log) (storage.deleteWithHeadCheck (storage.key key) expected) s := by
  unfold S3Storage.deleteWithHeadCheck
  rw [rel_key relative]
  refine head_compares.bind fun result t compared => ?_
  obtain ⟨m, logged, op, quiet, failed, missing, found⟩ := compared
  -- Where the comparison ends it, it is the one call that counts.
  have settled : ∀ outcome, Serves storage (.delete key (.ifMatch expected)) outcome m →
      (client S).Safe (fun result t => Once Still (Serves storage (.delete key (.ifMatch expected)) result) t.log ∨
        Slipped (storage.key key) t.log) (.done outcome) t := fun outcome serves => safe_done fun v later => by
    rw [later.log, logged]
    exact .inl (.last serves still)
  rcases result with e | _ | info
  · exact settled _ (serves_unsent (.lost (failed e rfl)) quiet)
  · exact settled _ (delete_settled relative plain quiet (fun _ => rfl) fun there present => by
      rw [missing rfl] at present
      cases present)
  · obtain ⟨there, present, tag⟩ := found info rfl
    by_cases same : info.etag = expected
    · simp only [same, if_true]
      refine safe_call fun u moves => ⟨trivial, fun reply v effect => ?_⟩
      obtain ⟨answered, supported, logged'⟩ := sent effect
      obtain ⟨kept, removed⟩ := S3Backend.delete_answer answered
      refine ⟨guarantee_same supported kept, ?_⟩
      rw [moves.log, logged] at logged'
      have all : AllStill (m :: s.log) := still.cons quiet
      by_cases unchanged : object u.state.service (storage.key key) = object m.after.service (storage.key key)
      · rw [quiet, present] at unchanged
        have once : ∀ outcome, Serves storage (.delete key (.ifMatch expected)) outcome
            ⟨.send (.deleteObject (storage.key key) none), reply, u.state, v.state⟩ →
            (client S).Safe (fun result t => Once Still (Serves storage (.delete key (.ifMatch expected)) result) t.log ∨
              Slipped (storage.key key) t.log) (.done outcome) v := fun outcome serves => safe_done fun w later => by
          rw [later.log, logged']
          exact .inl (.last serves all)
        cases reply with
        | ok _ => exact once _ (delete_compared relative unchanged (tag.symm.trans same) (fun _ => rfl) (fun _ there => by cases there) removed)
        | error e =>
          exact once _ (delete_compared relative unchanged (tag.symm.trans same) (fun there => by cases there)
            (fun _ there => by cases there; rfl) removed)
      · -- Another version, or none, is there by now.
        have slipped : ∀ outcome : Except S3Error Unit, (client S).Safe (fun result t =>
            Once Still (Serves storage (.delete key (.ifMatch expected)) result) t.log ∨ Slipped (storage.key key) t.log)
            (.done outcome) v := fun outcome => safe_done fun w later => by
          rw [later.log, logged']
          exact .inr ⟨_, m, s.log, rfl, rfl, op, all, unchanged⟩
        cases reply with
        | ok _ => exact slipped _
        | error e => exact slipped _
    · simp only [same, if_false]
      refine settled _ (delete_settled relative plain quiet (fun absent => ?_) fun other present' => ?_)
      · rw [present] at absent
        cases absent
      · obtain rfl := Option.some.inj (present.symm.trans present')
        refine ⟨fun tagged => same ?_, _, rfl, rfl⟩
        rw [tag, tagged, unquote_header plain]

/-- On any backend, with or without conditional deletes: the delete is atomic, or the object changed between the comparison
and the plain delete. -/
theorem delete_unless_slipped (storage : S3Storage) (world : World S) {key expected : String} (relative : Relative key)
    (plain : Text.trimMatches '"' expected = expected) :
    (client S).Safe (fun result t => Once Still (Serves storage (.delete key (.ifMatch expected)) result) t.log ∨
      Slipped (storage.key key) t.log) (storage.delete key (.ifMatch expected)) ⟨world, []⟩ := by
  have unquoted : Unquoted (.ifMatch expected) := plain
  refine safe_call fun t moves => ⟨trivial, fun supported u effect => ?_⟩
  obtain ⟨⟨-, same⟩, logged⟩ := effect
  refine ⟨guarantee_same (by rw [same]) (by rw [same]), ?_⟩
  have still : AllStill u.log := by
    rw [logged, moves.log]
    exact AllStill.cons (fun _ member => by cases member) (by rw [Still, same])
  cases supported with
  | true =>
    refine deleteConditionally_safe relative unquoted (by simp) still (fun _ _ once => .inl once) fun other v which _ quiet => ?_
    cases which
    exact deleteWithHeadCheck_safe relative plain quiet
  | false => exact deleteWithHeadCheck_safe relative plain still

end

open scoped PlainEtags in
theorem delete_unless_slipped_rejected :
    (client MemoryS3).Safe (fun result t => Once Still (Serves ⟨"vfs/"⟩ (.delete "files/a" (.ifMatch "x")) result) t.log ∨
      Slipped "vfs/files/a" t.log) (S3Storage.delete ⟨"vfs/"⟩ "files/a" (.ifMatch "x")) ⟨⟨MemoryS3.empty true, true⟩, []⟩ :=
  delete_unless_slipped ⟨"vfs/"⟩ ⟨MemoryS3.empty true, true⟩ (relative_of_front (by decide)) (by decide)

end MonakaFs.Sync.S3
