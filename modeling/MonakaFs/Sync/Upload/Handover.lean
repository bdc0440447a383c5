import MonakaFs.Sync.Agreement
import MonakaFs.Sync.Upload.Acknowledged

/-! What a reported conflict leaves behind.

Four calls report conflicts, and each of them pulls the version that won first. The
pull is a GET and a local write, both of which may fail, and the object may be gone
when the GET arrives. The conflict is reported in every case.
-/

set_option autoImplicit false

namespace MonakaFs.Sync.Upload

open Async SyncManager LawfulBackend

/-- The calls that report a conflict. -/
inductive Reporter where
  | openWrite (rounds : Nat)
  | syncNow
  | fsync
  | close

def Reporter.task {F : Type} (manager : SyncManager) (path : String) : Reporter → Task F (Except SyncError Unit)
  | .openWrite rounds => manager.onOpenWrite rounds path
  | .syncNow => manager.syncFileNow path
  | .fsync => manager.onFsync path
  | .close => manager.onClose path

section
variable [EtagScheme] {F : Type} {path : String}

def answerOf (path : String) : Entry F → Option (Except S3Error (Option (Bytes × ObjectMeta)))
  | ⟨.request (.get key), reply, _, _⟩ => if key = fileKey path then some reply else none
  | _ => none

/-- What the latest GET of the file was answered. -/
def pulled (path : String) (log : Log F) : Option (Except S3Error (Option (Bytes × ObjectMeta))) := log.findSome? (answerOf path)

/-- A local write of the file that succeeded. -/
def Wrote (path : String) : Entry F → Prop
  | ⟨.fs (.writeFileContent name _), reply, _, _⟩ => name = path ∧ reply = Except.ok ()
  | _ => False

/-- The GET found the object, and its bytes were written. -/
def Delivered (path : String) (log : Log F) : Prop :=
  (∃ found, pulled path log = some (.ok (some found))) ∧ ∃ moment ∈ log, Wrote path moment

/-- The GET found no object. -/
def Vanished (path : String) (log : Log F) : Prop := pulled path log = some (.ok none)

variable [LawfulBackend F]

/-- The local copy and the cached ETag are those of a version that was there during the call. -/
def Current (path : String) (s : Snapshot F) (log : Log F) : Prop :=
  ∃ version, (∃ moment ∈ log, Shows path version moment) ∧ content s.fs path = some version.data ∧
    s.manager.metadataCache.etag path = some version.etag

/-- The copy and the cached ETag are as they were, and nothing was written. -/
structure Before (path : String) (start : Snapshot F) (s : Node F) : Prop where
  bytes : content s.state.fs path = content start.fs path
  etag : s.state.manager.metadataCache.etag path = start.manager.metadataCache.etag path
  unwritten : ∀ moment ∈ s.log, ¬ Wrote path moment

/-- What can have become of the copy when a conflict is reported. -/
inductive Told (path : String) (start : Snapshot F) (s : Node F) : Prop where
  | delivered : Delivered path s.log → Current path s.state s.log → Told path start s
  | vanished : Vanished path s.log → s.state.manager.metadataCache.etag path = none → Told path start s
  | kept : ¬ Vanished path s.log → ¬ Delivered path s.log → Before path start s → Told path start s

theorem Told.iff {start : Snapshot F} {s : Node F} (told : Told path start s) :
    Current path s.state s.log ↔ Delivered path s.log ∨ (¬ Vanished path s.log ∧ Current path start s.log) := by
  cases told with
  | delivered delivered current => exact ⟨fun _ => .inl delivered, fun _ => current⟩
  | vanished vanished forgotten =>
    constructor
    · rintro ⟨version, -, -, etag⟩
      cases forgotten.symm.trans etag
    · rintro (⟨⟨found, answer⟩, -⟩ | ⟨present, -⟩)
      · cases vanished.symm.trans answer
      · exact absurd vanished present
  | kept present undelivered before =>
    unfold Current
    rw [before.bytes, before.etag]
    exact ⟨fun current => .inr ⟨present, current⟩, fun either => (either.resolve_left undelivered).2⟩

/-! ### Up to the pull, and after it -/

/-- An operation that leaves every local file and the cached ETags alone. -/
def Spares : Op F → Prop
  | .cache change => ∀ cache path, (change cache).etag path = cache.etag path
  | .fs (.readFileContent _) | .fs (.statModified _) => True
  | .fs _ | .app _ => False
  | _ => True

/-- An operation that neither asks for an object nor touches a file or the cache. -/
def Settles : Op F → Prop
  | .request r => ∀ key, r ≠ .get key
  | .cache _ | .fs _ | .app _ => False
  | _ => True

omit [EtagScheme] [LawfulBackend F] in
theorem quiet_spares (op : Op F) (quiet : op.Quiet) : Spares op := by
  cases op with
  | request | now | wake | jitter | arrange => trivial
  | queue | cache | leases | schedule | fs | app => exact quiet.elim

omit [EtagScheme] [LawfulBackend F] in
theorem remote_spares (op : Op F) (remote : op.Remote) : Spares op := by
  cases op with
  | request => trivial
  | queue | cache | leases | schedule | now | wake | jitter | arrange | fs | app => exact remote.elim

theorem Spares.bytes {op : Op F} (spares : Spares op) (turn : Turn) (s : Snapshot F) :
    content (s.act turn op).2.fs path = content s.fs path := by
  cases op with
  | fs call =>
    cases call with
    | readFileContent name => exact congrFun (read_keeps name s.fs) path
    | statModified => rfl
    | writeFileContent | loadFile | unlink | mkdirP | rmdir => exact spares.elim
  | app => exact spares.elim
  | request | queue | cache | leases | schedule | now | wake | jitter | arrange => rfl

theorem Spares.etag {op : Op F} (spares : Spares op) (turn : Turn) (s : Snapshot F) :
    (s.act turn op).2.manager.metadataCache.etag path = s.manager.metadataCache.etag path := by
  cases op with
  | cache change => exact spares s.manager.metadataCache path
  | app => exact spares.elim
  | request | queue | fs | leases | schedule | now | wake | jitter | arrange => rfl

omit [LawfulBackend F] in
theorem Spares.unwritten {op : Op F} (spares : Spares op) {reply : op.Reply} {before after : Snapshot F} :
    ¬ Wrote path ⟨op, reply, before, after⟩ := by
  cases op with
  | fs call =>
    cases call with
    | readFileContent | statModified => exact id
    | writeFileContent | loadFile | unlink | mkdirP | rmdir => exact spares.elim
  | app => exact spares.elim
  | request | queue | cache | leases | schedule | now | wake | jitter | arrange => exact id

omit [EtagScheme] [LawfulBackend F] in
theorem Settles.spares {op : Op F} (settles : Settles op) : Spares op := by
  cases op with
  | cache | fs | app => exact settles.elim
  | request | queue | leases | schedule | now | wake | jitter | arrange => trivial

omit [LawfulBackend F] in
theorem Settles.unasked {op : Op F} (settles : Settles op) {reply : op.Reply} {before after : Snapshot F} :
    answerOf path ⟨op, reply, before, after⟩ = none := by
  cases op with
  | request r =>
    cases r with
    | get key => exact absurd rfl (settles key)
    | list | head | put | delete => rfl
  | cache | fs | app => exact settles.elim
  | queue | leases | schedule | now | wake | jitter | arrange => rfl

variable {start : Snapshot F} {s t : Node F}

theorem Before.step (before : Before path start s) {op : Op F} (spares : Spares op) {reply : op.Reply} {turn : Turn} {u : Snapshot F}
    (logged : t.log = ⟨op, reply, s.state, u⟩ :: s.log) (later : t.state = (s.state.act turn op).2) : Before path start t where
  bytes := by rw [later, spares.bytes, before.bytes]
  etag := by rw [later, spares.etag, before.etag]
  unwritten := by
    rw [logged]
    rintro moment (_ | ⟨_, old⟩)
    · exact spares.unwritten
    · exact before.unwritten moment old

theorem Before.moves (before : Before path start s) {u : Snapshot F} (moves : bystanders.moves s.state u) :
    Before path start ⟨u, s.log⟩ where
  bytes := by rw [moves.2]; exact before.bytes
  etag := by rw [moves.1]; exact before.etag
  unwritten := before.unwritten

theorem Current.step {state state' : Snapshot F} {log log' : Log F} (current : Current path state log)
    (bytes : content state'.fs path = content state.fs path)
    (etag : state'.manager.metadataCache.etag path = state.manager.metadataCache.etag path)
    (longer : ∀ moment ∈ log, moment ∈ log') : Current path state' log' := by
  obtain ⟨version, ⟨moment, listed, shows⟩, same, known⟩ := current
  exact ⟨version, ⟨moment, longer moment listed, shows⟩, bytes.trans same, etag.trans known⟩

theorem Told.step (told : Told path start s) {op : Op F} (settles : Settles op) {reply : op.Reply} {turn : Turn} {u : Snapshot F}
    (logged : t.log = ⟨op, reply, s.state, u⟩ :: s.log) (later : t.state = (s.state.act turn op).2) : Told path start t := by
  have bytes : content t.state.fs path = content s.state.fs path := by rw [later]; exact settles.spares.bytes turn _
  have etag : t.state.manager.metadataCache.etag path = s.state.manager.metadataCache.etag path := by
    rw [later]
    exact settles.spares.etag turn _
  have answer : pulled path t.log = pulled path s.log := by rw [logged, pulled, List.findSome?_cons, settles.unasked]; rfl
  have listed (moment : Entry F) (member : moment ∈ s.log) : moment ∈ t.log := by
    rw [logged]
    exact List.mem_cons_of_mem _ member
  have wrote (moment : Entry F) (member : moment ∈ t.log) (writes : Wrote path moment) : moment ∈ s.log := by
    rw [logged] at member
    rcases member with _ | ⟨_, old⟩
    · exact absurd writes settles.spares.unwritten
    · exact old
  cases told with
  | delivered delivered current =>
    obtain ⟨⟨found, answered⟩, moment, member, writes⟩ := delivered
    exact .delivered ⟨⟨found, answer.trans answered⟩, moment, listed moment member, writes⟩ (current.step bytes etag listed)
  | vanished vanished forgotten => exact .vanished (answer.trans vanished) (etag.trans forgotten)
  | kept present undelivered before =>
    refine .kept (fun gone => present (answer.symm.trans gone)) ?_ (before.step settles.spares logged later)
    rintro ⟨⟨found, answered⟩, moment, member, writes⟩
    exact undelivered ⟨⟨found, answer.symm.trans answered⟩, moment, wrote moment member writes, writes⟩

theorem Told.moves (told : Told path start s) {u : Snapshot F} (moves : bystanders.moves s.state u) : Told path start ⟨u, s.log⟩ := by
  cases told with
  | delivered delivered current =>
    exact .delivered delivered (current.step (by rw [moves.2]) (by rw [moves.1]) fun _ member => member)
  | vanished vanished forgotten => exact .vanished vanished (by rw [moves.1]; exact forgotten)
  | kept present undelivered before => exact .kept present undelivered (before.moves moves)

/-- The instance waits while others change the store, and any request may fail in transit. -/
abbrev waiting : Contract (syncSignature F) (Node F) := runs Faulty bystanders

theorem keeps_before : (waiting (F := F)).Keeps (Before path start) Spares where
  stable before moves := by
    obtain ⟨logged, moves⟩ := moves
    have same := before.moves moves
    rwa [← logged] at same
  waits _ := trivial
  step spares before effect := by
    obtain ⟨⟨turn, -, -, later⟩, logged⟩ := node_effect effect
    exact ⟨trivial, before.step spares logged later⟩

theorem keeps_told : (waiting (F := F)).Keeps (Told path start) Settles where
  stable told moves := by
    obtain ⟨logged, moves⟩ := moves
    have same := told.moves moves
    rwa [← logged] at same
  waits _ := trivial
  step settles told effect := by
    obtain ⟨⟨turn, -, -, later⟩, logged⟩ := node_effect effect
    exact ⟨trivial, told.step settles logged later⟩

/-! ### The pull -/

section
variable {A : Type} {post : A → Node F → Prop}

theorem before_next {op : Op F} {k : op.Reply → Task F A} (spares : Spares op) (before : Before path start s)
    (rest : ∀ reply (u : Node F), Before path start u → waiting.Safe post (k reply) u) : waiting.Safe post (next op k) s :=
  Contract.safe_call fun _ moves => ⟨trivial, fun reply u effect =>
    ⟨trivial, rest reply u (keeps_before.step spares (keeps_before.stable before moves) effect).2⟩⟩

theorem told_only {task : Task F A} (only : task.Only (I := syncSignature F) Settles) (told : Told path start s) :
    waiting.Safe (fun _ t => Told path start t) task s := keeps_told.safe only told

end

/-- The copy is as it was, and the GET found this version. -/
structure Fetched (path : String) (start : Snapshot F) (version : MemObject) (s : Node F) : Prop where
  before : Before path start s
  answer : ∃ info, pulled path s.log = some (.ok (some (version.data, info)))
  shown : ∃ moment ∈ s.log, Shows path version moment

theorem storeDownload_told {version : MemObject} {info : ObjectMeta} (named : info.etag = version.etag)
    (fetched : Fetched path start version s) :
    waiting.Safe (fun _ t => Told path start t) (storeDownload path version.data info) s := by
  obtain ⟨before, ⟨info', answer⟩, moment, listed, shows⟩ := fetched
  simp only [storeDownload, onFs_bind, withCache_bind]
  refine safe_next ?_
  rintro t reply u moves ⟨turn, -, returned, later⟩
  have before := before.moves moves
  have unchanged : u.manager = t.manager := by rw [later]; rfl
  rcases (reply : Except S3Error Unit) with e | _
  -- The download could not be stored: the local file and its tag stay.
  · have failed : (writeFileContent path version.data t.fs).1 = .error e := returned.symm
    have bytes : content u.fs path = content t.fs path := by
      rw [later]
      exact congrFun (write_error failed) path
    refine told_only trivial (.kept ?_ ?_ ⟨bytes.trans before.bytes, ?_, ?_⟩)
    · intro gone
      cases answer.symm.trans gone
    · rintro ⟨-, moment, member, writes⟩
      rcases member with _ | ⟨_, old⟩
      · cases writes.2
      · exact before.unwritten moment old writes
    · rw [unchanged]
      exact before.etag
    · rintro moment (_ | ⟨_, old⟩) writes
      · cases writes.2
      · exact before.unwritten moment old writes
  -- The version is stored, and the cache gets its tag.
  · have wrote : (writeFileContent path version.data t.fs).1 = .ok () := returned.symm
    have bytes : content u.fs path = some version.data := by
      rw [later]
      exact (congrFun (write_ok wrote) path).trans (Function.update_self ..)
    refine safe_next ?_
    rintro v cache w moves' ⟨turn', -, -, later'⟩
    refine told_only trivial (.delivered ⟨⟨_, answer⟩, _, List.mem_cons_of_mem _ List.mem_cons_self, rfl, rfl⟩ ⟨version, ?_, ?_, ?_⟩)
    · exact ⟨moment, List.mem_cons_of_mem _ (List.mem_cons_of_mem _ listed), shows⟩
    · rw [later']
      show content v.fs path = _
      rw [moves'.2]
      exact bytes
    · rw [later', ← named]
      exact (MetadataCache.etag_updateAfterDownload ..).trans (if_pos rfl)

theorem refreshLocalFromRemote_told (before : Before path start s) :
    waiting.Safe (fun _ t => Told path start t) (refreshLocalFromRemote path) s := by
  simp only [refreshLocalFromRemote, getFile_bind, withCache_bind, withLeases_bind]
  refine safe_next ?_
  rintro t reply u moves ⟨turn, -, answer, later⟩
  have asked : pulled path (⟨.request (.get (fileKey path)), reply, t, u⟩ :: s.log) = some reply := by
    rw [pulled, List.findSome?_cons, answerOf, if_pos rfl]
  have before : Before path start ⟨u, ⟨.request (.get (fileKey path)), reply, t, u⟩ :: s.log⟩ :=
    (before.moves moves).step (remote_spares (.request (.get (fileKey path))) trivial) rfl later
  rcases (reply : Except S3Error (Option (Bytes × ObjectMeta))) with e | _ | ⟨body, info⟩
  · refine told_only trivial (.kept (fun gone => ?_) ?_ before)
    · cases asked.symm.trans gone
    · rintro ⟨⟨found, answered⟩, -⟩
      cases asked.symm.trans answered
  · refine safe_next ?_
    rintro v cache w moves' ⟨turn', -, -, later'⟩
    refine told_only ⟨trivial, fun _ => trivial⟩ (.vanished asked ?_)
    rw [later']
    exact (MetadataCache.etag_remove ..).trans (if_pos rfl)
  · obtain ⟨version, present, rfl, named⟩ := get_found answer.symm
    refine (storeDownload_told named ⟨before, ⟨info, asked⟩, _, List.mem_cons_self, .inl present⟩).bind ?_
    rintro (e | _) v told
    · exact told_only trivial told
    · exact told_only ⟨trivial, fun _ => trivial⟩ told

/-! ### The calls -/

section
variable {A B : Type}

/-- A conflict says what became of the copy. -/
def Reported (path : String) (start : Snapshot F) (result : Except SyncError A) (s : Node F) : Prop :=
  ∀ e, result = .error e → e.isConflict = true → Told path start s

/-- No error is a conflict, and one leaves the copy as it was. -/
def Failed (path : String) (start : Snapshot F) (result : Except SyncError A) (s : Node F) : Prop :=
  ∀ e, result = .error e → e.isConflict = false ∧ Before path start s

/-- No conflict, whatever else it is. -/
def Other (result : Except SyncError A) : Prop := ∀ e, result = .error e → e.isConflict = false

omit [EtagScheme] [LawfulBackend F] in
theorem other_ok (value : A) : Other (.ok value) := fun _ same => by cases same

omit [EtagScheme] [LawfulBackend F] in
theorem other_error {e : SyncError} (other : e.isConflict = false) : Other (A := A) (.error e) := fun _ same => by
  cases same
  exact other

theorem reported_return {result : Except SyncError A} (other : Other result) : waiting.Safe (Reported path start) (.done result) s :=
  safe_return fun t _ e same conflict => by
    rw [other e same] at conflict
    cases conflict

theorem ok_reported (value : A) : waiting.Safe (Reported path start) (.done (.ok value)) s := reported_return (other_ok value)

theorem other_return {result : Except SyncError A} (other : Other result) :
    waiting.Safe (fun result (_ : Node F) => Other result) (.done result) s := safe_return fun _ _ => other

theorem told_return {result : Except SyncError A} (told : Told path start s) : waiting.Safe (Reported path start) (.done result) s :=
  safe_return fun _ moves _ _ _ => told.moves moves

theorem failed_return {e : SyncError} (other : e.isConflict = false) (before : Before path start s) :
    waiting.Safe (Failed (A := A) path start) (.done (.error e)) s :=
  safe_return fun _ moves _ same => by
    cases same
    exact ⟨other, before.moves moves⟩

theorem ok_failed (value : A) : waiting.Safe (Failed path start) (.done (.ok value)) s :=
  safe_return fun _ _ e same => by cases same

/-- What is left to do after the pull. -/
theorem settle_reported {task : Task F B} {result : Except SyncError A} (only : task.Only (I := syncSignature F) Settles)
    (reported : Reported path start result s) : waiting.Safe (Reported path start) (task >>= fun _ => .done result) s := by
  by_cases conflict : ∃ e, result = .error e ∧ e.isConflict = true
  · obtain ⟨e, rfl, conflict⟩ := conflict
    exact (told_only only (reported e rfl conflict)).bind fun _ _ told => told_return told
  · refine (runs_anyhow task s).bind fun _ _ _ => reported_return fun e same => ?_
    rw [Bool.eq_false_iff]
    exact fun is => conflict ⟨e, same, is⟩

end

theorem conflict_reported {A : Type} (before : Before path start s) :
    waiting.Safe (Reported (A := A) path start) (conflict path >>= fun e => .done (.error e)) s := by
  have told : waiting.Safe (fun _ t => Told path start t) (conflict path) s :=
    (refreshLocalFromRemote_told before).bind fun _ _ told => told_only trivial told
  exact told.bind fun _ _ told => told_return told

variable (manager : SyncManager)

theorem uploadWithCond_failed {cond : Precondition} (before : Before path start s) :
    waiting.Safe (Failed path start) (manager.uploadWithCond path cond) s := by
  simp only [uploadWithCond, onFs_bind]
  refine before_next trivial before fun read u before => ?_
  rcases (read : Except S3Error Bytes) with e | content
  · exact failed_return rfl before
  refine before_next trivial before fun modified u before => ?_
  refine (keeps_before.safe ((passthroughChecks_silent manager path).mono quiet_spares) before).bind ?_
  rintro (e | _) u before
  · exact failed_return rfl before
  refine (keeps_before.safe ((putUpload_remote path content cond).mono remote_spares) before).bind ?_
  rintro (e | etag) u before
  · exact failed_return rfl before
  · exact (runs_anyhow _ u).bind fun _ _ _ => ok_failed etag

/-- A rejected upload is followed by the pull, any other error is passed on. -/
theorem rejected_reported {A : Type} {e : SyncError} (failed : e.isConflict = false ∧ Before path start s) :
    waiting.Safe (Reported (A := A) path start)
      (if isRejection e = true then conflict path >>= fun e => .done (.error e) else .done (.error e)) s := by
  split
  · exact conflict_reported failed.2
  · exact reported_return (other_error failed.1)

omit [EtagScheme] [LawfulBackend F] in
theorem condForUpload_spares (path : String) : (condForUpload (F := F) path).Only (I := syncSignature F) Spares := by
  simp only [condForUpload, withLeases_bind, only_next]
  refine ⟨trivial, fun leases => ?_⟩
  split
  · trivial
  · exact ⟨fun _ _ => rfl, fun _ => trivial⟩

theorem syncFileNow_reported (before : Before path start s) :
    waiting.Safe (Reported path start) (manager.syncFileNow path) s := by
  refine (keeps_before.safe (condForUpload_spares path) before).bind fun cond u before => ?_
  refine (uploadWithCond_failed manager before).bind ?_
  rintro (e | etag) v failed
  · have failed := failed e rfl
    dsimp only
    split
    · unfold handleUploadConflict
      split
      · refine (uploadWithCond_failed manager failed.2).bind ?_
        rintro (e' | etag) w failed
        · exact reported_return (other_error (failed e' rfl).1)
        · exact ok_reported ()
      · exact conflict_reported failed.2
    · exact reported_return (other_error failed.1)
  · exact ok_reported ()

theorem flushLease_reported (snapshot : WriteLease) (before : Before path start s) :
    waiting.Safe (Reported path start) (manager.flushLease path snapshot) s := by
  unfold flushLease
  split
  · split
    · exact (runs_anyhow _ s).bind fun _ _ _ => ok_reported ()
    · simp only [deleteFile_bind]
      refine before_next trivial before fun reply u before => ?_
      rcases (reply : Except S3Error Unit) with e | _
      · dsimp only
        split
        · exact conflict_reported before
        · exact reported_return (other_error rfl)
      · exact (runs_anyhow _ u).bind fun _ _ _ => ok_reported ()
  split
  · exact ok_reported ()
  · refine (uploadWithCond_failed manager before).bind ?_
    rintro (e | etag) u failed
    · exact rejected_reported (failed e rfl)
    · exact ok_reported ()

omit [EtagScheme] [LawfulBackend F] in
theorem release_settles {lockEtag : String} : (release (F := F) path lockEtag).Only (I := syncSignature F) Settles := by
  simp only [release, deleteObject_bind, only_next]
  exact ⟨fun key same => (by cases same), fun _ => trivial⟩

theorem onFsync_reported (before : Before path start s) : waiting.Safe (Reported path start) (manager.onFsync path) s := by
  simp only [onFsync, withLeases_bind]
  refine before_next trivial before fun leases u before => ?_
  split
  · split
    · exact flushLease_reported manager _ before
    · exact ok_reported ()
  · exact syncFileNow_reported manager before

theorem onClose_reported (before : Before path start s) : waiting.Safe (Reported path start) (manager.onClose path) s := by
  simp only [onClose, withLeases_bind]
  refine before_next trivial before fun leases u before => ?_
  split
  · exact ok_reported ()
  next lease found =>
  split
  · exact ok_reported ()
  · refine (flushLease_reported manager _ before).bind fun result v reported => ?_
    have only : (release (F := F) path lease.lockEtag >>= fun _ => withLeases (·.erase path)).Only (I := syncSignature F) Settles :=
      release_settles.bind fun _ => ⟨trivial, fun _ => trivial⟩
    have settled := settle_reported only reported
    rwa [Prog.bind_assoc] at settled

/-- A refresh outside a conflict reports none. -/
theorem headAndRefresh_other : waiting.Safe (fun result (_ : Node F) => Other result) (headAndRefresh path) s := by
  simp only [headAndRefresh, headFile_bind, withCache_bind, getFile_bind]
  refine safe_next fun t head u _ _ => ?_
  split
  · exact other_return (other_error rfl)
  · exact other_return (other_ok _)
  refine safe_next fun t cache u _ _ => ?_
  split
  · exact other_return (other_ok _)
  refine safe_next fun t found u _ _ => ?_
  split
  · exact other_return (other_error rfl)
  · exact other_return (other_ok _)
  refine (runs_anyhow _ _).bind ?_
  rintro (e | _) u -
  · exact other_return (other_error rfl)
  · exact other_return (other_ok _)

/-- An attempt that reports no conflict. -/
def OtherAttempt (result : Attempt) : Prop := ∀ e, result = .failed e → e.isConflict = false

theorem attempt_other (id : InstanceId) (lease : Nat) (holder : Option String) :
    waiting.Safe (fun result (_ : Node F) => OtherAttempt result) (attempt id path lease holder) s := by
  have attempted {result : Attempt} {t : Node F} (other : OtherAttempt result) :
      waiting.Safe (fun result (_ : Node F) => OtherAttempt result) (.done result) t := safe_return fun _ _ => other
  have refused (held : Bool) (e : S3Error) (t : Node F) :
      waiting.Safe (fun result (_ : Node F) => OtherAttempt result) (.done (if held then .held holder else .failed (.s3 e))) t := by
    refine attempted fun e' same => ?_
    split at same
    · cases same
    · cases same
      rfl
  simp only [attempt, getObject_bind, instant_bind]
  refine safe_next fun t found u _ _ => ?_
  split
  · exact attempted fun e same => by cases same; rfl
  · refine (runs_anyhow _ _).bind ?_
    rintro (e | acquired) v -
    · exact refused _ e v
    · exact attempted fun e same => by cases same
  · refine safe_next fun t now u _ _ => ?_
    split
    · refine (runs_anyhow _ _).bind ?_
      rintro (e | acquired) v -
      · exact refused _ e v
      · exact attempted fun e same => by cases same
    · exact attempted fun e same => by cases same

/-- Nor does an acquisition. -/
theorem acquireLoop_other (id : InstanceId) (lease deadline attempts backoff : Nat) (holder : Option String) :
    waiting.Safe (fun result (_ : Node F) => Other result) (acquireLoop id path lease deadline attempts backoff holder) s := by
  induction attempts generalizing backoff holder s with
  | zero => exact fun _ _ => trivial
  | succ attempts ih =>
    refine (attempt_other id lease holder).bind ?_
    rintro (acquired | e | held) t other
    · exact other_return (other_ok _)
    · exact other_return (other_error (other e rfl))
    · simp only [instant_bind]
      refine safe_next fun v now u _ _ => ?_
      split
      · exact other_return (other_error rfl)
      · simp only [jitter_bind, wake_bind]
        exact safe_next fun v extra u _ _ => safe_next fun w _ u _ _ => ih _ held

theorem acquire_other (id : InstanceId) (lease timeout : Nat) :
    waiting.Safe (fun result (_ : Node F) => Other result) (acquire id path lease timeout) s :=
  safe_next fun _ _ _ _ _ => acquireLoop_other id lease _ _ _ none

theorem leaseBase_reported (before : Before path start s) : waiting.Safe (Reported path start) (manager.leaseBase path) s := by
  have taken : (takePending (F := F) path).Only (I := syncSignature F) Spares := ⟨trivial, fun _ => trivial⟩
  refine (keeps_before.safe taken before).bind fun pending u before => ?_
  split
  · refine (keeps_before.safe (condForUpload_spares path) before).bind fun cond v before => ?_
    refine (uploadWithCond_failed manager before).bind ?_
    rintro (e | etag) w failed
    · exact rejected_reported (failed e rfl)
    · exact ok_reported _
  · refine headAndRefresh_other.bind fun result v other => ?_
    refine reported_return fun e same => other e ?_
    cases result with
    | error e' => cases same; rfl
    | ok value => cases same

theorem pinLease_reported {acquired : Acquired} (before : Before path start s) :
    waiting.Safe (Reported path start) (manager.pinLease path acquired) s := by
  simp only [pinLease, withLeases_bind]
  refine before_next trivial before fun leases u before => ?_
  split
  · exact (runs_anyhow _ u).bind fun _ _ _ => ok_reported ()
  · refine (leaseBase_reported manager before).bind ?_
    rintro (e | base) v reported
    · have same : Reported (A := Unit) path start (.error e) v := fun e' equal => by cases equal; exact reported e rfl
      exact settle_reported release_settles same
    · exact safe_next fun _ _ _ _ _ => ok_reported ()

theorem onOpenWrite_reported (rounds : Nat) (before : Before path start s) :
    waiting.Safe (Reported path start) (manager.onOpenWrite rounds path) s := by
  have joins : (joinHeld (F := F) path rounds).Only (I := syncSignature F) Spares := by
    induction rounds with
    | zero => trivial
    | succ rounds ih =>
      simp only [joinHeld, withLeases_bind, only_next]
      refine ⟨trivial, fun leases => ?_⟩
      split
      · trivial
      · split
        · exact ⟨trivial, fun _ => ⟨trivial, fun _ => ih⟩⟩
        · trivial
  unfold onOpenWrite
  split
  · exact ok_reported ()
  refine (keeps_before.safe joins before).bind fun joined u before => ?_
  split
  · exact ok_reported ()
  refine ((acquire_other manager.instanceId _ _).and (keeps_before.safe ((acquire_silent _ _ _ _).mono quiet_spares) before)).bind ?_
  rintro (e | acquired) v ⟨other, before⟩
  · exact reported_return (other_error (other e rfl))
  · exact pinLease_reported manager before

theorem reporter_reported (call : Reporter) (before : Before path start s) :
    waiting.Safe (Reported path start) (call.task manager path) s := by
  cases call with
  | openWrite rounds => exact onOpenWrite_reported manager rounds before
  | syncNow => exact syncFileNow_reported manager before
  | fsync => exact onFsync_reported manager before
  | close => exact onClose_reported manager before

/-- A conflict hands over a version of the object exactly if the GET found the object and
its bytes could be written, or the copy was current before and the GET did not find the
object gone. -/
theorem conflict_hands_over (call : Reporter) {name : String} {refreshed : Bool} {last : Node F}
    (ran : Ran Faulty bystanders (call.task manager path) start (.error (.conflict name refreshed)) last) :
    Current path last.state last.log ↔ Delivered path last.log ∨ (¬ Vanished path last.log ∧ Current path start last.log) := by
  have before : Before path start ⟨start, []⟩ := ⟨rfl, rfl, fun _ member => by cases member⟩
  exact ((reporter_reported manager call before).exec ran _ rfl rfl).iff

end

/-! ### Concrete runs -/

section
open scoped ContentEtags

def leasing : SyncManager := Sample.manager .realTime Sample.first

/-- A local change of version one, when somebody else has stored version three. -/
def changedStart : Snapshot MemFs :=
  ⟨Sample.store [("files/a", [3])], 0, ManagerState.new (MetadataCache.empty.updateAfterDownload "/a" "\x01" 1 1) 0,
    (writeFileContent "/a" [2] MemFs.empty).2⟩

/-- The PUT is answered, and the GET after it as the fault says. -/
def pullTurns (fault : Fault) : List ((Snapshot MemFs → Snapshot MemFs) × Turn) :=
  List.replicate 5 plainly ++ (id, { fault := fault }) :: List.replicate 8 plainly

theorem pullTurns_faulty {fault : Fault} (transport : fault.isTransport = true) :
    ∀ turn ∈ pullTurns fault, (∀ s : Snapshot MemFs, bystanders.moves s (turn.1 s)) ∧ Faulty turn.2 := by
  intro turn listed
  rw [pullTurns, List.mem_append, List.mem_cons] at listed
  rcases listed with quiet | rfl | quiet
  · exact plainly_faulty _ turn quiet
  · exact ⟨bystanders.refl, transport⟩
  · exact plainly_faulty _ turn quiet

theorem conflict_hands_over_sample : ∃ last,
    Ran Faulty bystanders (Reporter.syncNow.task leasing "/a") changedStart (.error (.conflict "/a" true)) last ∧
      (Current "/a" last.state last.log ↔
        Delivered "/a" last.log ∨ (¬ Vanished "/a" last.log ∧ Current "/a" changedStart last.log)) := by
  obtain ⟨value, last, ran, checked⟩ := solo_returned (Reporter.syncNow.task leasing "/a") changedStart
    (fun value _ => decide (value = .error (.conflict "/a" true)))
    (pullTurns_faulty (show Fault.answered.isTransport = true from rfl)) (by decide +kernel)
  obtain rfl := of_decide_eq_true checked
  exact ⟨last, ran, conflict_hands_over leasing .syncNow ran⟩

/-- The GET times out: the conflict is reported over the changed copy and the old ETag. -/
theorem conflict_keeps_copy : leasing.config.fileLock = true ∧ ∃ last,
    Ran Faulty bystanders (Reporter.syncNow.task leasing "/a") changedStart (.error (.conflict "/a" false)) last ∧
      (object "/a" last.state).isSome = true ∧ ¬ Current "/a" last.state last.log := by
  refine ⟨rfl, ?_⟩
  obtain ⟨value, last, ran, checked⟩ := solo_returned (Reporter.syncNow.task leasing "/a") changedStart
    (fun value last => decide (value = .error (.conflict "/a" false)) && (object "/a" last.state).isSome &&
      decide (last.state.fs.files.lookup "/a" = some [2]) && last.log.all fun moment =>
        decide ((object "/a" moment.before).map (·.data) = some [3] ∧ (object "/a" moment.after).map (·.data) = some [3]))
    (pullTurns_faulty (show (Fault.unsent (.read "files/a" "timeout")).isTransport = true from rfl)) (by decide +kernel)
  simp only [Bool.and_eq_true, decide_eq_true_eq, List.all_eq_true] at checked
  obtain ⟨⟨⟨rfl, stored⟩, copy⟩, unchanged⟩ := checked
  refine ⟨last, ran, stored, ?_⟩
  rintro ⟨version, ⟨moment, listed, shows⟩, bytes, -⟩
  obtain ⟨before, after⟩ := unchanged moment listed
  have data : version.data = [3] := by
    rcases shows with here | here
    · rw [object, here] at before
      exact Option.some.inj before
    · rw [object, here] at after
      exact Option.some.inj after
  have same : some [2] = some version.data := copy.symm.trans bytes
  rw [data] at same
  exact absurd same (by decide)

end

end MonakaFs.Sync.Upload
