import MonakaFs.Sync.Runs

/-! What an acknowledged upload says.

An upload reads a file, PUTs it under a condition and returns the ETag of what is
now stored. After a PUT that was lost in transit it takes the ETag that a HEAD
finds. That is the ETag of somebody else's version exactly when somebody else's
version is what the HEAD finds.
-/

set_option autoImplicit false

namespace MonakaFs.Sync.Upload

open Async SyncManager

section
variable [EtagScheme] {F : Type}

def readOf (path : String) : Entry F → Option Bytes
  | ⟨.fs (.readFileContent name), reply, _, _⟩ =>
      if name = path then Except.toOption (reply : Except S3Error Bytes) else none
  | _ => none

theorem readOf_read (path : String) (content : Bytes) (before after : Snapshot F) :
    readOf path ⟨.fs (.readFileContent path), Except.ok content, before, after⟩ = some content := if_pos rfl

/-- The bytes a call read from the local filesystem. -/
def localContent (path : String) (log : Log F) : Option Bytes := log.findSome? (readOf path)

def looksAt (key : String) : Entry F → Bool
  | ⟨.request (.head name), _, _, _⟩ => decide (name = key)
  | _ => false

/-- A conditional PUT that reported a transport error. -/
def Lost (path : String) (cond : Precondition) : Entry F → Prop
  | ⟨.request (.put key _ cond'), reply, _, _⟩ =>
      key = fileKey path ∧ cond' = cond ∧ ∃ e, reply = .error e ∧ e.isTransport = true
  | _ => False

/-- An answered HEAD at a moment when the object has other bytes, and not the ETag of the condition. -/
def Foreign (content : Bytes) (cond : Precondition) : Entry F → Prop
  | ⟨.request (.head key), reply, before, _⟩ => (∃ found, reply = .ok found) ∧
      ∃ version, before.store.objects.lookup key = some version ∧ version.data ≠ content ∧
        cond ≠ .ifMatch version.etag
  | _ => False

/-- A PUT of the call was lost, and the HEAD that followed found a version of somebody else. -/
def ForeignAfterLoss (path : String) (cond : Precondition) (log : Log F) : Prop :=
  ∃ content head, localContent path log = some content ∧ (∃ put ∈ log, Lost path cond put) ∧
    log.find? (looksAt (fileKey path)) = some head ∧ Foreign content cond head

/-- The file's object was this version before or after an operation. -/
def Shows (path : String) (version : MemObject) (moment : Entry F) : Prop :=
  moment.before.store.objects.lookup (fileKey path) = some version ∨
    moment.after.store.objects.lookup (fileKey path) = some version

/-- The version of the file with this ETag has the bytes the call read. -/
def Acknowledged (path etag : String) (log : Log F) : Prop :=
  ∃ content version, localContent path log = some content ∧ (∃ moment ∈ log, Shows path version moment) ∧
    version.etag = etag ∧ version.data = content

/-- How the PUT of an upload comes by its ETag. -/
inductive Outcome (path : String) (content : Bytes) (cond : Precondition) (etag : String) (before : Log F) :
    Log F → Prop where
  | written (newer : Log F) {put : Entry F} {version : MemObject} : put ∈ newer → Shows path version put →
      version.etag = etag → version.data = content → (∀ moment ∈ newer, ¬ Lost path cond moment) →
      Outcome path content cond etag before (newer ++ before)
  | verified {put head : Entry F} {version : MemObject} : Lost path cond put → looksAt (fileKey path) head = true →
      Shows path version head → version.etag = etag → (Foreign content cond head ↔ version.data ≠ content) →
      Outcome path content cond etag before (head :: put :: before)

theorem not_lost_of_ok {key : String} {body : Bytes} {cond cond' : Precondition} {etag : String} {before after : Snapshot F}
    {path : String} : ¬ Lost (F := F) path cond ⟨.request (.put key body cond'), Except.ok etag, before, after⟩ := by
  rintro ⟨-, -, e, same, -⟩
  cases same

theorem not_lost_of_rejected {key : String} {body : Bytes} {cond cond' : Precondition} {e : S3Error}
    {before after : Snapshot F} {path : String} (rejected : e.isTransport = false) :
    ¬ Lost (F := F) path cond ⟨.request (.put key body cond'), Except.error e, before, after⟩ := by
  rintro ⟨-, -, e', same, transport⟩
  cases same
  rw [rejected] at transport
  cases transport

theorem Lost.writes {path : String} {cond : Precondition} {moment : Entry F} (lost : Lost path cond moment) :
    ∃ body cond', moment.op = .request (.put (fileKey path) body cond') := by
  obtain ⟨op, reply, before, after⟩ := moment
  cases op with
  | request r =>
    cases r with
    | put key body cond' =>
      obtain ⟨rfl, -⟩ := lost
      exact ⟨body, cond', rfl⟩
    | list | head | get | delete => exact lost.elim
  | queue | cache | leases | schedule | now | wake | jitter | fs | arrange | app => exact lost.elim

variable [FsBackend F] {path etag : String} {content : Bytes} {cond : Precondition} {s : Node F}

abbrev call : Contract (syncSignature F) (Node F) := runs Faulty anything

/-- The answer of a retry counts as it is. -/
theorem retry_safe (earlier : Log F) {before : Log F} (logged : s.log = earlier ++ before)
    (received : ∀ moment ∈ earlier, ¬ Lost path cond moment) :
    (call (F := F)).Safe (fun result t => ∀ etag, result = .ok etag → Outcome path content cond etag before t.log)
      (putFile path content .ifNoneMatchAny) s := by
  refine safe_next fun t reply u _ ⟨turn, faulty, answer, served⟩ => safe_return fun v _ etag answered => ?_
  have stored := put_stored (answer.symm.trans answered)
  obtain ⟨version, found, tag, bytes⟩ := stored
  simp only [logged]
  refine .written (_ :: earlier) (List.mem_cons_self ..) (.inr (by rw [served]; exact found)) tag bytes
    fun moment member => ?_
  rcases List.mem_cons.mp member with rfl | old
  · subst answered
    exact not_lost_of_ok
  · exact received moment old

theorem putUpload_safe :
    (call (F := F)).Safe (fun result t => ∀ etag, result = .ok etag → Outcome path content cond etag s.log t.log)
      (putUpload path content cond) s := by
  simp only [putUpload, putFile_bind]
  refine safe_next ?_
  rintro t reply u _ ⟨turn, faulty, answer, served⟩
  rcases (reply : Except S3Error String) with e | etag
  · have failed := put_failed faulty answer.symm
    simp only
    split
    · -- deleted in the meantime: recreated
      next gone =>
      rw [Bool.and_eq_true] at gone
      have rejected : e.isTransport = false := by
        cases e <;> first | rfl | cases gone.1
      refine retry_safe [_] rfl fun moment member => ?_
      rw [List.mem_singleton.mp member]
      exact not_lost_of_rejected rejected
    split
    · -- rejected as existing: a HEAD decides whether it was
      next exists' =>
      rw [Bool.and_eq_true] at exists'
      have rejected : e.isTransport = false := by
        cases e <;> first | rfl | cases exists'.1
      simp only [headFile_bind]
      refine safe_next fun v found w _ _ => ?_
      rcases (found : Except S3Error (Option ObjectMeta)) with failed | _ | info
      · exact safe_return fun _ _ etag answered => by cases answered
      · refine retry_safe [_, _] rfl fun moment member => ?_
        rcases List.mem_cons.mp member with rfl | old
        · exact id
        · rw [List.mem_singleton.mp old]
          exact not_lost_of_rejected rejected
      · exact safe_return fun _ _ etag answered => by cases answered
    split
    · -- no answer about the condition: a HEAD decides whether the write took effect
      next gone _ unknown =>
      have lost : e.isTransport = true := by
        rcases failed with transport | rejected | missing
        · exact transport
        · rw [rejected] at unknown; cases unknown
        · rw [missing.1, missing.2] at gone; exact (gone rfl).elim
      simp only [verifyUploadLanded, headFile_bind, Prog.call_bind]
      refine safe_next ?_
      rintro v found w _ ⟨turn', _, answer', _⟩
      rcases (found : Except S3Error (Option ObjectMeta)) with failed | _ | info
      · exact safe_return fun _ _ etag answered => by cases answered
      · exact safe_return fun _ _ etag answered => by cases answered
      · by_cases counts : landed cond info.etag = true
        · simp only [Prog.pure_eq, Prog.done_bind, counts, if_true]
          refine safe_return fun _ _ etag answered => ?_
          cases answered
          obtain ⟨version, present, tag⟩ := head_found answer'.symm
          have other : cond ≠ .ifMatch version.etag := by
            rintro rfl
            rw [tag] at counts
            simp [landed] at counts
          refine .verified ⟨rfl, rfl, e, rfl, lost⟩ (decide_eq_true rfl) (.inl present) tag ⟨?_, fun differs => ?_⟩
          · rintro ⟨-, version', present', differs, -⟩
            rw [present] at present'
            cases present'
            exact differs
          · exact ⟨⟨_, rfl⟩, version, present, differs, other⟩
        · simp only [Prog.pure_eq, Prog.done_bind, counts]
          exact safe_return fun _ _ etag answered => by cases answered
    · exact safe_return fun v _ etag answered => by cases answered
  · obtain ⟨version, found, tag, bytes⟩ := put_stored answer.symm
    refine safe_return fun v _ etag' answered => ?_
    cases answered
    refine .written [_] (List.mem_singleton_self _) (.inr (by rw [served]; exact found)) tag bytes
      fun moment member => ?_
    rw [List.mem_singleton.mp member]
    exact not_lost_of_ok

/-! ### The whole call -/

omit [FsBackend F] in
theorem localContent_append {newer before : Log F} (requests : ∀ moment ∈ newer, moment.op.Remote) :
    localContent path (newer ++ before) = localContent path before := by
  have none (moment : Entry F) (member : moment ∈ newer) : readOf path moment = none := by
    have remote := requests moment member
    obtain ⟨op, reply, before, after⟩ := moment
    cases op with
    | fs call => exact remote.elim
    | request | queue | cache | leases | schedule | now | wake | jitter | arrange | app => rfl
  rw [localContent, List.findSome?_append, List.findSome?_eq_none_iff.mpr none]
  rfl

omit [FsBackend F] in
/-- Looks at the store after the read do not hide what was read. -/
theorem localContent_read {looks : Log F} {t u v w : Snapshot F} {modified : Nat}
    (each : ∀ moment ∈ looks, moment.op.Looks) :
    localContent path (looks ++ [⟨.fs (.statModified path), modified, v, w⟩,
      ⟨.fs (.readFileContent path), Except.ok content, t, u⟩]) = some content := by
  rw [localContent_append fun moment member => ?_]
  · rw [localContent, List.findSome?_cons, List.findSome?_cons, readOf_read]
    rfl
  · have looks := each moment member
    cases op : moment.op with
    | request r => trivial
    | queue | cache | leases | schedule | now | wake | jitter | fs | arrange | app => rw [op] at looks; exact looks.elim

/-- The log of an upload that returned an ETag: what it read, how it came by the
ETag, and the three operations that record it. -/
def Uploaded (path : String) (cond : Precondition) (etag : String) (log : Log F) : Prop :=
  ∃ content before reached recent, Outcome path content cond etag before reached ∧ log = recent ++ reached ∧
    localContent path log = some content ∧ (∀ moment ∈ recent ++ before, ¬ Lost path cond moment) ∧
    ∀ moment ∈ recent, looksAt (fileKey path) moment = false

theorem uploadWithCond_safe (manager : SyncManager) (fresh : s.log = []) :
    (call (F := F)).Safe (fun result t => ∀ etag, result = .ok etag → Uploaded path cond etag t.log)
      (manager.uploadWithCond path cond) s := by
  simp only [uploadWithCond, onFs_bind]
  refine safe_next fun t reply u _ _ => ?_
  rcases (reply : Except S3Error Bytes) with e | content
  · exact safe_return fun _ _ etag answered => by cases answered
  refine safe_next fun v modified w _ _ => ?_
  refine (performed_safe (passthroughChecks_looks manager path) (performed_nothing _)).bind
    fun checked x looked => ?_
  rcases checked with e | _
  · exact safe_return fun _ _ etag answered => by cases answered
  obtain ⟨looks, log, each⟩ := looked
  simp only [fresh] at log
  refine (putUpload_safe.and (performed_safe (putUpload_remote path content cond)
    (performed_nothing _))).bind ?_
  rintro result y ⟨outcome, newer, logged, requested⟩
  rcases result with e | etag
  · exact safe_return fun _ _ etag answered => by cases answered
  -- the three operations that record the ETag
  simp only [recordUpload, instant_bind, withCache_bind, withLeases_bind, Prog.call_bind]
  refine safe_next fun _ now _ _ _ => safe_next fun _ cache _ _ _ => safe_next fun _ leases _ _ _ =>
    safe_return fun _ _ etag' answered => ?_
  cases answered
  have read : localContent path x.log = some content := by
    rw [log]
    exact localContent_read fun moment member => (each moment member).1
  refine ⟨content, x.log, y.log, [_, _, _], outcome etag rfl, rfl, ?_, fun moment member => ?_, fun moment member => ?_⟩
  · show localContent path y.log = some content
    rw [logged, localContent_append fun moment member => (requested moment member).1, read]
  · intro lost
    obtain ⟨body, cond', put⟩ := lost.writes
    simp only [log, List.cons_append, List.nil_append, List.mem_cons, List.mem_append, List.not_mem_nil, or_false] at member
    rcases member with rfl | rfl | rfl | looked | rfl | rfl
    · cases put
    · cases put
    · cases put
    · have looks := (each moment looked).1
      rw [put] at looks
      cases looks
    · cases put
    · cases put
  · simp only [List.mem_cons, List.not_mem_nil, or_false] at member
    rcases member with rfl | rfl | rfl <;> rfl

/-- An acknowledged upload is sound, unless its PUT was lost in transit and the HEAD
that followed found a version of somebody else. -/
theorem upload_acknowledged {manager : SyncManager} {start : Snapshot F} {last : Node F}
    (ran : Ran Faulty anything (manager.uploadWithCond path cond) start (.ok etag) last) :
    Acknowledged path etag last.log ↔ ¬ ForeignAfterLoss path cond last.log := by
  obtain ⟨content, before, reached, recent, outcome, log, read, received, elsewhere⟩ :=
    (uploadWithCond_safe manager rfl).exec ran etag rfl
  cases outcome with
  -- The PUT was answered, so that none before it was lost.
  | @written newer put version listed shows tag bytes kept =>
    constructor
    · rintro - ⟨-, -, -, ⟨put', member, lost⟩, -⟩
      rw [log] at member
      simp only [List.mem_append] at member received
      rcases member with old | member | old
      · exact received put' (.inl old) lost
      · exact kept put' member lost
      · exact received put' (.inr old) lost
    · intro
      exact ⟨content, version, read, ⟨put, by rw [log]; simp [listed], shows⟩, tag, bytes⟩
  -- A HEAD has found the tag, and the version may be one that another instance wrote.
  | @verified put head version lost looks shows tag found =>
    have last : last.log.find? (looksAt (fileKey path)) = some head := by
      rw [log, List.find?_append, List.find?_eq_none.mpr fun moment member => by simp [elsewhere moment member]]
      simp [looks]
    constructor
    · rintro ⟨content', version', read', -, tag', bytes⟩ ⟨content'', head', read'', -, last', foreign⟩
      rw [last] at last'
      cases last'
      rw [read] at read' read''
      cases read'
      cases read''
      have same : version.data = version'.data := EtagScheme.injective (tag.trans tag'.symm)
      exact found.mp foreign (same.trans bytes)
    · intro none
      by_contra unsound
      refine none ⟨content, head, read, ⟨put, by rw [log]; simp, lost⟩, last, found.mpr fun bytes => unsound ?_⟩
      exact ⟨content, version, read, ⟨head, by rw [log]; simp, shows⟩, tag, bytes⟩

end

/-! ### Concrete runs -/

section
open scoped ContentEtags

/-- An instance over an empty store, with one local file. -/
def sampleStart (content : Bytes) : Snapshot MemFs :=
  ⟨Sample.store [], 0, .new .empty 0, (writeFileContent "/a" content MemFs.empty).2⟩

def sampleManager : SyncManager := Sample.manager .batch Sample.first

def upload : Task MemFs (Except SyncError String) := sampleManager.uploadWithCond "/a" .ifNoneMatchAny

def sampleTurns (moves : ObjectStore → ObjectStore) (fault : Fault) : List ((Snapshot MemFs → Snapshot MemFs) × Turn) :=
  [plainly, plainly, (id, { fault := fault }), (fun s => { s with store := moves s.store }, {}), plainly, plainly, plainly]

theorem sampleTurns_faulty (moves : ObjectStore → ObjectStore) {fault : Fault} (transport : fault.isTransport = true) :
    ∀ turn ∈ sampleTurns moves fault, (∀ s : Snapshot MemFs, anything.moves s (turn.1 s)) ∧ Faulty turn.2 := by
  intro turn listed
  refine ⟨fun _ => trivial, ?_⟩
  simp only [sampleTurns, List.mem_cons, List.not_mem_nil, or_false] at listed
  rcases listed with rfl | rfl | rfl | rfl | rfl | rfl | rfl <;> first | rfl | exact transport

theorem upload_acknowledged_sample : ∃ last, Ran Faulty anything upload (sampleStart [1]) (.ok "\x01") last ∧
    Acknowledged "/a" "\x01" last.log := by
  obtain ⟨value, last, ran, checked⟩ := solo_returned upload (sampleStart [1])
    (fun value last => decide (value = .ok "\x01") && (last.log.find? (looksAt (fileKey "/a"))).isNone)
    (sampleTurns_faulty id (show Fault.answered.isTransport = true from rfl)) (by decide +kernel)
  rw [Bool.and_eq_true, decide_eq_true_eq, Option.isNone_iff_eq_none] at checked
  obtain ⟨rfl, unlooked⟩ := checked
  refine ⟨last, ran, (upload_acknowledged ran).mpr ?_⟩
  rintro ⟨-, head, -, -, looked, -⟩
  rw [unlooked] at looked
  cases looked

theorem Acknowledged.etag {F : Type} [EtagScheme] {path etag : String} {content : Bytes} {log : Log F}
    (sound : Acknowledged path etag log) (read : localContent path log = some content) : etag = etagFor content := by
  obtain ⟨content', version, read', -, tag, bytes⟩ := sound
  rw [read] at read'
  cases read'
  rw [← tag, ← bytes]
  rfl

/-- The PUT never arrives, another client creates the file, and the HEAD takes that
version for the upload. -/
theorem upload_acknowledged_foreign : ∃ last, Ran Faulty anything upload (sampleStart [1]) (.ok "\x02") last ∧
    ¬ Acknowledged "/a" "\x02" last.log := by
  obtain ⟨value, last, ran, checked⟩ := solo_returned upload (sampleStart [1])
    (fun value last => decide (value = .ok "\x02") && decide (localContent "/a" last.log = some [1]))
    (sampleTurns_faulty (fun store => (store.put "files/a" [2] .none).2)
      (show (Fault.unsent (.write "files/a" "connection reset")).isTransport = true from rfl)) (by decide +kernel)
  rw [Bool.and_eq_true, decide_eq_true_eq, decide_eq_true_eq] at checked
  obtain ⟨rfl, read⟩ := checked
  exact ⟨last, ran, fun sound => absurd (sound.etag read) (by decide +kernel)⟩

end

end MonakaFs.Sync.Upload
