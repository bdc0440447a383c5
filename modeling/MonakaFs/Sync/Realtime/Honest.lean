import MonakaFs.Sync.Realtime.Keeping

/-! The push that follows a write.

If every request of the push is answered and every local call succeeds, the object has
the local bytes afterwards: the push stored them, or the version that won was pulled.
After any other push a later close or fsync may succeed while the two differ.
-/

set_option autoImplicit false

namespace MonakaFs.Sync.Realtime

open Async SyncManager LawfulBackend

section
variable [EtagScheme] {F : Type}

/-- A request that was answered, or a local call that succeeded. -/
def Smooth : Entry F → Prop
  | ⟨.request _, reply, _, _⟩ => ∀ e, reply = .error e → e.isTransport = false
  | ⟨.fs (.readFileContent _), reply, _, _⟩ => ∃ data, (reply : Except S3Error Bytes) = .ok data
  | ⟨.fs (.writeFileContent ..), reply, _, _⟩ => (reply : Except S3Error Unit) = .ok ()
  | _ => True

variable [LawfulBackend F] {A : Type} {path : String} {s : Node F} {post : A → Node F → Prop}

abbrev pushing (path : String) : Contract (syncSignature F) (Node F) := during (fun _ => Smooth) Faulty (unwritten path)

/-- The local file and the object, in a stretch that changes neither. -/
structure Holds (path : String) (here : Option Bytes) (there : Option MemObject) (s : Snapshot F) : Prop where
  bytes : content s.fs path = here
  stored : object path s = there

variable {here : Option Bytes} {there : Option MemObject}

theorem Holds.moves {s t : Snapshot F} (holds : Holds path here there s) (moves : Unwritten path s t) :
    Holds path here there t :=
  ⟨by rw [moves.fs]; exact holds.bytes, moves.object.trans holds.stored⟩

theorem Holds.agree {body : Bytes} {version : MemObject} {s : Snapshot F} (holds : Holds path (some body) (some version) s)
    (same : version.data = body) : Agree path s := by
  rw [Agree, holds.stored, holds.bytes, ← same]
  rfl

/-- One operation that touches neither. -/
theorem holds_next {op : Op F} {k : op.Reply → Task F A} (aside : op.Aside ∨ ∃ change, op = .leases change)
    (holds : Holds path here there s.state)
    (rest : ∀ t reply (u : Node F), (∃ turn, Faulty turn ∧ reply = (Snapshot.act turn op t).1) → Smooth ⟨op, reply, t, u.state⟩ →
      Holds path here there t → Holds path here there u.state → (pushing path).Safe post (k reply) u) :
    (pushing path).Safe post (next op k) s := by
  refine during_next ?_
  rintro t reply u moves ⟨turn, faulty, answer, later⟩ smooth
  have holds := holds.moves moves
  have after : Holds path here there u := by
    rw [later]
    rcases aside with aside | ⟨change, rfl⟩
    · exact ⟨(aside_still aside turn t).bytes.trans holds.bytes, (aside_still aside turn t).object.trans holds.stored⟩
    · exact ⟨holds.bytes, holds.stored⟩
  exact rest t reply ⟨u, _⟩ ⟨turn, faulty, answer⟩ smooth holds after

/-- A request that only looks is answered. -/
theorem look_next {r : Request} {k : r.Answer → Task F A} (looks : r.writes = none) (holds : Holds path here there s.state)
    (rest : ∀ (t : Snapshot F) value (u : Node F), (∃ turn : Turn, (t.store.serveWith turn.fault r).1 = .ok value) → Holds path here there t →
      Holds path here there u.state → (pushing path).Safe post (k (.ok value)) u) :
    (pushing path).Safe post (next (.request r) k) s := by
  refine holds_next (.inl (looks_aside (.request r) looks)) holds ?_
  rintro t reply u ⟨turn, faulty, answer⟩ smooth here after
  rcases (reply : r.Answer) with e | value
  · have lost := look_failed looks faulty answer.symm
    rw [smooth e rfl] at lost
    cases lost
  · exact rest t value u ⟨turn, answer.symm⟩ here after

omit [LawfulBackend F] in
/-- A rejected PUT changed nothing, and what rejected it is there. -/
theorem put_rejected {store : ObjectStore} {fault : Fault} {key : String} {body : Bytes} {cond : Precondition} {e : S3Error}
    (faulty : fault.isTransport = true) (answered : (store.serveWith fault (.put key body cond)).1 = .error e)
    (real : e.isTransport = false) : (store.serveWith fault (.put key body cond)).2 = store ∧
      ((e.isPreconditionFailed = true ∧ (store.objects.lookup key).isSome = true) ∨
        (e.isNotFound = true ∧ cond.isIfMatch = true)) := by
  have kept := (put_lost faulty answered).resolve_right fun lost => by rw [real] at lost; cases lost.1
  refine ⟨kept, ?_⟩
  rcases put_failed faulty answered with lost | refused | missing
  · rw [real] at lost
    cases lost
  · refine .inl ⟨refused, ?_⟩
    cases fault with
    | answered => exact ObjectStore.refused_there answered refused
    | unsent e' | unanswered e' =>
      cases answered
      cases real.symm.trans faulty
  · exact .inr missing

/-- A PUT of the local bytes is accepted, or rejected because of what is there. -/
theorem put_next {body : Bytes} {cond : Precondition} {k : Except S3Error String → Task F A}
    (holds : Holds path (some body) there s.state)
    (stored : ∀ etag version (u : Node F), version.data = body → Holds path (some body) (some version) u.state →
      (pushing path).Safe post (k (.ok etag)) u)
    (rejected : ∀ e (u : Node F), Holds path (some body) there u.state →
      (e.isPreconditionFailed = true ∧ there.isSome = true) ∨ (e.isNotFound = true ∧ cond.isIfMatch = true) →
      (pushing path).Safe post (k (.error e)) u) :
    (pushing path).Safe post (next (.request (.put (fileKey path) body cond)) k) s := by
  refine during_next ?_
  rintro t reply u moves ⟨turn, faulty, answer, later⟩ smooth
  have holds := holds.moves moves
  rcases (reply : Except S3Error String) with e | etag
  · obtain ⟨kept, why⟩ := put_rejected faulty answer.symm (smooth e rfl)
    refine rejected e ⟨u, _⟩ ⟨by rw [later]; exact holds.bytes, ?_⟩ ?_
    · rw [later]
      exact (congrArg (fun store : ObjectStore => store.objects.lookup (fileKey path)) kept).trans holds.stored
    · rwa [← holds.stored]
  · obtain ⟨version, found, -, same⟩ := put_stored answer.symm
    refine stored etag version ⟨u, _⟩ same ⟨?_, ?_⟩
    · rw [later]
      exact holds.bytes
    · rw [later]
      exact found

/-- The PUT went through, or a version is there that it was rejected for. -/
def Put (path : String) (body : Bytes) : Except S3Error String → Node F → Prop
  | .ok _, t => Agree path t.state
  | .error e, t => e.isPreconditionFailed = true ∧ ∃ version, Holds path (some body) (some version) t.state

/-- The upload went through, or a version is there that it was rejected for. -/
def Pushed (path : String) (body : Bytes) : Except SyncError String → Node F → Prop
  | .ok _, t => Agree path t.state
  | .error e, t => isRejection e = true ∧ ∃ version, Holds path (some body) (some version) t.state

theorem put_done {body : Bytes} {version : MemObject} {etag : String} (same : version.data = body)
    (holds : Holds path (some body) (some version) s.state) : (pushing path).Safe (Put path body) (.done (.ok etag)) s :=
  during_return fun _ moves => (holds.moves moves).agree same

theorem put_refused {body : Bytes} {e : S3Error} (refused : e.isPreconditionFailed = true) (occupied : there.isSome = true)
    (holds : Holds path (some body) there s.state) : (pushing path).Safe (Put path body) (.done (.error e)) s := by
  obtain ⟨version, rfl⟩ := Option.isSome_iff_exists.mp occupied
  exact during_return fun _ moves => ⟨refused, version, holds.moves moves⟩

theorem create_put {body : Bytes} (holds : Holds path (some body) there s.state) :
    (pushing path).Safe (Put path body) (putFile path body .ifNoneMatchAny) s := by
  rw [show putFile (F := F) path body .ifNoneMatchAny = next (.request (.put (fileKey path) body .ifNoneMatchAny)) .done from rfl]
  refine put_next holds (fun etag version u same holds => put_done same holds) fun e u holds why => ?_
  rcases why with ⟨refused, occupied⟩ | ⟨-, matching⟩
  · exact put_refused refused occupied holds
  · cases matching

theorem putUpload_pushed {body : Bytes} {cond : Precondition} (holds : Holds path (some body) there s.state) :
    (pushing path).Safe (Put path body) (putUpload path body cond) s := by
  simp only [putUpload, putFile_bind]
  refine put_next holds (fun etag version u same holds => put_done same holds) fun e u holds why => ?_
  dsimp only
  split
  · exact create_put holds
  next other =>
  obtain ⟨refused, occupied⟩ : e.isPreconditionFailed = true ∧ there.isSome = true := by
    rcases why with why | ⟨missing, matching⟩
    · exact why
    · simp [missing, matching] at other
  split
  · simp only [headFile_bind]
    refine look_next rfl holds fun t found v _ _ holds => ?_
    cases found with
    | none => exact create_put holds
    | some info => exact put_refused refused occupied holds
  · rw [if_neg (by simp [refused])]
    exact put_refused refused occupied holds

/-- The checks of the passthrough mode only look. -/
theorem passthrough_holds (manager : SyncManager) (holds : Holds path here there s.state) :
    (pushing path).Safe (fun passed t => passed = .ok () ∧ Holds path here there t.state) (manager.passthroughChecks path) s := by
  have done {t : Node F} (holds : Holds path here there t.state) : (pushing path).Safe
      (fun (passed : Except S3Error Unit) t => passed = .ok () ∧ Holds path here there t.state) (.done (.ok ())) t :=
    during_return fun u moves => ⟨rfl, holds.moves moves⟩
  unfold passthroughChecks
  split
  · simp only [headFile_bind]
    refine look_next rfl holds fun t file u _ _ holds => ?_
    refine look_next rfl holds fun t dir v _ _ holds => ?_
    exact look_next rfl holds fun t children w _ _ holds => done holds
  · exact done holds

/-- The local file is there when its push reads it. -/
theorem read_smooth {k : Except S3Error Bytes → Task F A} (holds : Holds path here there s.state)
    (read : ∀ body (u : Node F), Holds path (some body) there u.state → (pushing path).Safe post (k (.ok body)) u) :
    (pushing path).Safe post (next (.fs (.readFileContent path)) k) s := by
  refine during_next ?_
  rintro t reply u moves ⟨turn, faulty, answer, later⟩ ⟨body, returned⟩
  have holds := holds.moves moves
  have returned : reply = Except.ok body := returned
  subst returned
  have found : here = some body := holds.bytes.symm.trans (read_ok answer.symm)
  subst found
  refine read body ⟨u, _⟩ ⟨?_, ?_⟩
  · rw [later]
    exact (read_still turn t).bytes.trans holds.bytes
  · rw [later]
    exact holds.stored

/-- An operation that leaves file and object alone. -/
def Bookkeeping (op : Op F) : Prop := op.Aside ∨ ∃ change, op = .leases change

theorem keeps_agree : (pushing (F := F) path).Keeps (fun t => Agree path t.state) Bookkeeping where
  stable agree moves := by
    unfold Agree
    rw [moves.2.object, moves.2.fs]
    exact agree
  waits _ := trivial
  step {op s reply t} books agree effect := by
    obtain ⟨⟨turn, -, -, later⟩, -⟩ := node_effect effect.1
    refine ⟨trivial, ?_⟩
    rw [later]
    rcases books with aside | ⟨change, rfl⟩
    · exact (aside_still aside turn s.state).agree.mpr agree
    · exact agree

omit [EtagScheme] [LawfulBackend F] in
theorem recordUpload_books (etag : String) (size modified : Nat) :
    (recordUpload (F := F) path etag size modified).Only (I := syncSignature F) Bookkeeping :=
  ⟨.inl trivial, fun _ => ⟨.inl trivial, fun _ => ⟨.inr ⟨_, rfl⟩, fun _ => trivial⟩⟩⟩

theorem uploadWithCond_pushed (manager : SyncManager) {cond : Precondition} (holds : Holds path here there s.state) :
    (pushing path).Safe (fun result t => ∃ body, Pushed path body result t) (manager.uploadWithCond path cond) s := by
  simp only [uploadWithCond, onFs_bind]
  refine read_smooth holds fun body u holds => ?_
  refine holds_next (.inl trivial) holds fun t modified v _ _ _ holds => ?_
  refine (passthrough_holds manager holds).bind ?_
  rintro passed w ⟨ok, holds⟩
  subst ok
  refine (putUpload_pushed holds).bind fun result x put => ?_
  rcases result with e | etag
  · obtain ⟨refused, version, holds⟩ := put
    exact during_return fun y moves => ⟨body, refused, version, holds.moves moves⟩
  · refine (keeps_agree.safe (recordUpload_books etag _ _) put).bind fun _ y agree => ?_
    exact during_return fun z moves => ⟨body, keeps_agree.stable agree ⟨rfl, moves⟩⟩

theorem agree_return {value : A} (agree : Agree path s.state) : (pushing path).Safe (fun _ t => Agree path t.state) (.done value) s :=
  during_return fun _ moves => keeps_agree.stable (s := s) (t := ⟨_, s.log⟩) agree ⟨rfl, moves⟩

theorem books_next {op : Op F} {k : op.Reply → Task F A} (books : Bookkeeping op) (agree : Agree path s.state)
    (rest : ∀ reply (u : Node F), Agree path u.state → (pushing path).Safe post (k reply) u) :
    (pushing path).Safe post (next op k) s :=
  Contract.safe_call fun _ moves => ⟨trivial, fun reply u effect =>
    ⟨trivial, rest reply u (keeps_agree.step books (keeps_agree.stable agree moves) effect).2⟩⟩

/-- The version that is there becomes the local file. -/
theorem storeDownload_agrees {version : MemObject} {info : ObjectMeta} (holds : Holds path here (some version) s.state) :
    (pushing path).Safe (fun stored t => stored = .ok () ∧ Agree path t.state) (storeDownload path version.data info) s := by
  simp only [storeDownload, onFs_bind, withCache_bind]
  refine during_next ?_
  rintro t reply u moves ⟨turn, faulty, answer, later⟩ smooth
  have holds := holds.moves moves
  have returned : reply = Except.ok () := smooth
  subst returned
  have agree : Agree path u := by
    have bytes : content u.fs path = some version.data := by
      rw [later]
      have wrote : (writeFileContent path version.data t.fs).1 = .ok () := answer.symm
      exact (congrFun (write_ok wrote) path).trans (Function.update_self ..)
    have stored : object path u = some version := by
      rw [later]
      exact holds.stored
    rw [Agree, bytes, stored]
    rfl
  exact books_next (s := ⟨u, _⟩) (.inl trivial) agree fun _ v agree =>
    during_return fun _ moves => ⟨rfl, keeps_agree.stable (s := v) (t := ⟨_, v.log⟩) agree ⟨rfl, moves⟩⟩

/-- The version that won is pulled. -/
theorem conflict_agrees {version : MemObject} (holds : Holds path here (some version) s.state) :
    (pushing path).Safe (fun _ t => Agree path t.state) (conflict path) s := by
  have refreshed : (pushing path).Safe (fun _ t => Agree path t.state) (refreshLocalFromRemote path) s := ?_
  · exact refreshed.bind fun _ t agree => agree_return agree
  simp only [refreshLocalFromRemote, getFile_bind, withLeases_bind]
  refine look_next rfl holds ?_
  rintro t found u ⟨turn, answer⟩ before holds
  rcases found with _ | ⟨body, info⟩
  · have gone := get_missing answer
    rw [show t.store.objects.lookup (fileKey path) = _ from before.stored] at gone
    cases gone
  obtain ⟨stored, present, rfl, -⟩ := get_found answer
  obtain rfl : version = stored := Option.some.inj (before.stored.symm.trans present)
  refine (storeDownload_agrees holds).bind ?_
  rintro stored v ⟨ok, agree⟩
  subst ok
  exact books_next (.inr ⟨_, rfl⟩) agree fun _ w agree => agree_return agree

theorem condForUpload_holds (holds : Holds path here there s.state) :
    (pushing path).Safe (fun _ t => Holds path here there t.state) (condForUpload path) s := by
  have done {t : Node F} (holds : Holds path here there t.state) (cond : Precondition) :
      (pushing path).Safe (fun _ t => Holds path here there t.state) (.done cond) t :=
    during_return fun _ moves => holds.moves moves
  simp only [condForUpload, withLeases_bind]
  refine holds_next (.inr ⟨_, rfl⟩) holds fun t leases u _ _ _ holds => ?_
  split
  · exact done holds _
  · simp only [withCache_bind]
    exact holds_next (.inl trivial) holds fun t cache v _ _ _ holds => done holds _

theorem syncFileNow_agrees (manager : SyncManager) (locks : manager.config.fileLock = true) (holds : Holds path here there s.state) :
    (pushing path).Safe (fun _ t => Agree path t.state) (manager.syncFileNow path) s := by
  refine (condForUpload_holds holds).bind fun cond t holds => ?_
  refine (uploadWithCond_pushed manager holds).bind ?_
  rintro result u ⟨body, pushed⟩
  rcases result with e | etag
  · obtain ⟨refused, version, holds⟩ := pushed
    simp only [refused, handleUploadConflict, locks]
    exact (conflict_agrees holds).bind fun e v agree => agree_return agree
  · exact agree_return pushed

theorem writeNow_agrees (manager : SyncManager) (locks : manager.config.fileLock = true) (change : F → F) :
    (pushing path).Safe (fun _ t => Agree path t.state) ((Call.writeNow path change).task manager) s :=
  during_next fun _ _ u _ _ _ => (syncFileNow_agrees manager locks (s := ⟨u, _⟩) ⟨rfl, rfl⟩).bind fun _ _ agree => agree_return agree

/-! ### Runs of an instance -/

/-- Opens, writes, fsyncs and closes of one path in any order, one after the other. The
proposition is what they leave to be checked: that every step of the push after the
last write went well, and without any write that the two agreed at the start. -/
inductive Reached (manager : SyncManager) (path : String) (first : Snapshot F) : Prop → Snapshot F → Prop where
  | start : Reached manager path first (Agree path first) first
  | write {settled : Prop} {s : Snapshot F} {change : F → F} {last : Node F} : Reached manager path first settled s →
      Ran Faulty (unwritten path) ((Call.writeNow path change).task manager) s () last →
      Reached manager path first (∀ moment ∈ last.log, Smooth moment) last.state
  | openWrite {settled : Prop} {s : Snapshot F} {rounds : Nat} {result : Except SyncError Unit} {last : Node F} :
      Reached manager path first settled s → Ran Faulty (unwritten path) (manager.onOpenWrite rounds path) s result last →
      Reached manager path first settled last.state
  | fsync {settled : Prop} {s : Snapshot F} {result : Except SyncError Unit} {last : Node F} :
      Reached manager path first settled s → Ran Faulty (unwritten path) (manager.onFsync path) s result last →
      Reached manager path first settled last.state
  | close {settled : Prop} {s : Snapshot F} {result : Except SyncError Unit} {last : Node F} :
      Reached manager path first settled s → Ran Faulty (unwritten path) (manager.onClose path) s result last →
      Reached manager path first settled last.state

/-- What every call hands to the next. -/
def Good (path : String) (settled : Prop) (s : Snapshot F) : Prop := Intact path s.manager.leases ∧ (settled → Agree path s)

variable {settled : Prop}

theorem Keeps.good {task : Task F A} {start : Snapshot F} {value : A} {last : Node F}
    (keeps : ∀ data, Keeps settled path data task) (good : Good path settled start)
    (ran : Ran Faulty (unwritten path) task start value last) : Good path settled last.state := by
  have both := (keeps (content start.fs path) ⟨start, []⟩ ⟨fun _ => rfl, good.2, good.1⟩).exec ran
  exact ⟨both.intact, fun sure => (both.stored sure).trans (both.bytes sure).symm⟩

theorem Reached.good {manager : SyncManager} (locks : manager.config.fileLock = true) {first s : Snapshot F}
    (whole : Intact path first.manager.leases) (reached : Reached manager path first settled s) : Good path settled s := by
  induction reached with
  | start => exact ⟨whole, id⟩
  | write _ ran ih =>
    have unknown : Good path False _ := ⟨ih.1, False.elim⟩
    refine ⟨(Keeps.good (fun _ => writeNow_keeps manager path _) unknown ran).1, fun smooth => ?_⟩
    exact (writeNow_agrees manager locks _).exec (ran.during (throughout_of_forall smooth))
  | openWrite _ ran ih => exact Keeps.good (fun _ => onOpenWrite_keeps manager path _) ih ran
  | fsync _ ran ih => exact Keeps.good (fun _ => onFsync_keeps manager path) ih ran
  | close _ ran ih => exact Keeps.good (fun _ => onClose_keeps manager path) ih ran

/-- A close or an fsync is honest as long as the push after the last write went well. -/
theorem close_honest {manager : SyncManager} (locks : manager.config.fileLock = true) {first s : Snapshot F}
    (whole : Intact path first.manager.leases) (reached : Reached manager path first settled s) (smooth : settled)
    {last : Node F} (returned : Ran Faulty (unwritten path) (manager.onClose path) s (.ok ()) last ∨
      Ran Faulty (unwritten path) (manager.onFsync path) s (.ok ()) last) : Agree path last.state := by
  rcases returned with ran | ran
  · exact ((reached.close ran).good locks whole).2 smooth
  · exact ((reached.fsync ran).good locks whole).2 smooth

end

/-! ### Concrete runs -/

section
open scoped ContentEtags

def sampleManager : SyncManager := Sample.manager .realTime Sample.first

/-- Nothing is stored anywhere. -/
def blank : Snapshot MemFs := ⟨Sample.store [], 0, .new .empty 0, .empty⟩

/-- Every request gets the same fault. -/
def under (fault : Fault) : List ((Snapshot MemFs → Snapshot MemFs) × Turn) := List.replicate 24 (id, { fault := fault })

theorem under_faulty (fault : Fault) (transport : fault.isTransport = true) : ∀ turn ∈ under fault,
    (∀ s : Snapshot MemFs, (unwritten "/a").moves s (turn.1 s)) ∧ Faulty turn.2 := quiet_turns transport

def opened : Snapshot MemFs := arrive Faulty (under .answered) (sampleManager.onOpenWrite 1 "/a") blank

def writing : Task MemFs Unit := (Call.writeNow "/a" (MemFs.writeLocal "/a" [2])).task sampleManager

def written (fault : Fault) : Snapshot MemFs := arrive Faulty (under fault) writing opened

def isSmooth : Entry MemFs → Bool
  | ⟨.request r, reply, _, _⟩ => match (reply : r.Answer) with
    | .ok _ => true
    | .error e => !e.isTransport
  | ⟨.fs (.readFileContent _), reply, _, _⟩ => (reply : Except S3Error Bytes).isOk
  | ⟨.fs (.writeFileContent ..), reply, _, _⟩ => (reply : Except S3Error Unit).isOk
  | _ => true

theorem isSmooth_spec {moment : Entry MemFs} (smooth : isSmooth moment = true) : Smooth moment := by
  obtain ⟨op, reply, before, after⟩ := moment
  cases op with
  | request r =>
    rcases (reply : r.Answer) with e | value
    · rintro e' ⟨⟩
      simpa [isSmooth] using smooth
    · rintro e' ⟨⟩
  | fs call =>
    cases call with
    | readFileContent path =>
      rcases (reply : Except S3Error Bytes) with e | data
      · cases smooth
      · exact ⟨data, rfl⟩
    | writeFileContent path data =>
      rcases (reply : Except S3Error Unit) with e | _
      · cases smooth
      · rfl
    | statModified | loadFile | unlink | mkdirP | rmdir => trivial
  | queue | cache | leases | schedule | now | wake | jitter | arrange | app => trivial

theorem opened_reached : Reached sampleManager "/a" blank (Agree "/a" blank) opened := by
  obtain ⟨value, last, ran, same, -⟩ := arrive_ran (sampleManager.onOpenWrite 1 "/a") blank (fun _ _ => true)
    (under_faulty .answered rfl) (by decide +kernel)
  exact (show last.state = opened from same) ▸ .openWrite .start ran

theorem blank_intact : Intact "/a" blank.manager.leases := fun _ found => by cases found

theorem written_reached {fault : Fault} {pushed : Node MemFs} (ran : Ran Faulty (unwritten "/a") writing opened () pushed)
    (same : pushed.state = written fault) :
    Reached sampleManager "/a" blank (∀ moment ∈ pushed.log, Smooth moment) (written fault) := by
  rw [← same]
  exact .write opened_reached ran

theorem close_honest_sample : ∃ last,
    Ran Faulty (unwritten "/a") (sampleManager.onClose "/a") (written .answered) (.ok ()) last ∧ Agree "/a" last.state := by
  obtain ⟨value, pushed, ran, same, smooth⟩ := arrive_ran writing opened
    (fun _ last => last.log.all isSmooth) (under_faulty .answered rfl) (by decide +kernel)
  obtain ⟨value', last, closed, checked⟩ := solo_returned (sampleManager.onClose "/a") (written .answered)
    (fun value _ => decide (value = .ok ())) (under_faulty .answered rfl) (by decide +kernel)
  cases of_decide_eq_true checked
  have every : ∀ moment ∈ pushed.log, Smooth moment := fun moment member => isSmooth_spec (List.all_eq_true.mp smooth moment member)
  exact ⟨last, closed, close_honest rfl blank_intact (written_reached ran same) every (.inl closed)⟩

/-- The push after the write times out, nothing remembers it, and the close succeeds. -/
theorem close_forgets_write : Intact "/a" blank.manager.leases ∧
    (∃ settled, Reached sampleManager "/a" blank settled (written (.unsent (.write "files/a" "timeout")))) ∧
    ∃ last, Ran Faulty (unwritten "/a") (sampleManager.onClose "/a") (written (.unsent (.write "files/a" "timeout"))) (.ok ()) last ∧
      ¬ Agree "/a" last.state := by
  have fault : (Fault.unsent (.write "files/a" "timeout")).isTransport = true := rfl
  refine ⟨blank_intact, ?_, ?_⟩
  · obtain ⟨value, pushed, ran, same, -⟩ := arrive_ran writing opened (fun _ _ => true)
      (under_faulty _ fault) (by decide +kernel)
    exact ⟨_, written_reached ran same⟩
  · obtain ⟨value, last, ran, checked⟩ := solo_returned (sampleManager.onClose "/a") (written (.unsent (.write "files/a" "timeout")))
      (fun value last => decide (value = .ok ()) &&
        !decide ((object "/a" last.state).map (·.data) = last.state.fs.files.lookup "/a"))
      (under_faulty .answered rfl) (by decide +kernel)
    rw [Bool.and_eq_true, decide_eq_true_eq, Bool.not_eq_true', decide_eq_false_iff_not] at checked
    obtain ⟨rfl, differ⟩ := checked
    exact ⟨last, ran, differ⟩

end
end MonakaFs.Sync.Realtime
