import MonakaFs.Sync.Cluster
import MonakaFs.Sync.Footprint

/-! Where the version that an upload replaces comes from.

An instance pins ETags in its cache and in its leases. The invariant ties every
pinned ETag to the instance's own history: the local copy was brought in line
with exactly those bytes, and only the application has changed it since.
-/

set_option autoImplicit false

namespace MonakaFs.Sync.Provenance

open Async LawfulBackend

section
variable [EtagScheme] {F : Type} [LawfulBackend F]

/-- A moment that brings the local copy of a path in line with stored bytes: a
finished download, or an acknowledged upload of the copy as it was. -/
def Syncs (path : String) (data : Bytes) : Entry F → Prop
  | ⟨.fs (.writeFileContent name content), reply, _, _⟩ =>
      name = path ∧ content = data ∧ (reply : Except S3Error Unit) = .ok ()
  | ⟨.fs (.loadFile name content), reply, _, _⟩ =>
      name = path ∧ content = data ∧ (reply : Except S3Error Unit) = .ok ()
  | ⟨.request (.put key body _), reply, before, _⟩ =>
      key = fileKey path ∧ body = data ∧ content before.fs path = some data ∧
        ∃ etag, (reply : Except S3Error String) = .ok etag
  | _ => False

/-- A moment that leaves the local copy alone, or is the application's own change. -/
def Spares (path : String) (moment : Entry F) : Prop :=
  content moment.after.fs path = content moment.before.fs path ∨ ∃ change, moment.op = .app change

/-- At some moment the local copy was synchronised with these bytes, and since
the last such moment only local operations have changed it. -/
def SyncedWith (path : String) (data : Bytes) : Log F → Prop
  | [] => False
  | moment :: older => Syncs path data moment ∨ (Spares path moment ∧ SyncedWith path data older)

/-- A PUT after which a stored version is no longer the current one. -/
def Replaces (key : String) (version : MemObject) : Entry F → Prop
  | ⟨.request (.put name _ _), _, before, after⟩ =>
      name = key ∧ before.store.objects.lookup key = some version ∧
        after.store.objects.lookup key ≠ some version
  | _ => False

instance (key : String) (version : MemObject) : DecidablePred (Replaces (F := F) key version)
  | ⟨.request (.put ..), _, _, _⟩ => inferInstanceAs (Decidable (_ ∧ _ ∧ _))
  | ⟨.request (.list ..), _, _, _⟩ | ⟨.request (.head _), _, _, _⟩ | ⟨.request (.get _), _, _, _⟩
  | ⟨.request (.delete ..), _, _, _⟩ | ⟨.queue _, _, _, _⟩ | ⟨.cache _, _, _, _⟩ | ⟨.leases _, _, _, _⟩
  | ⟨.schedule _, _, _, _⟩ | ⟨.now, _, _, _⟩ | ⟨.wake _, _, _, _⟩ | ⟨.jitter, _, _, _⟩ | ⟨.fs _, _, _, _⟩
  | ⟨.arrange _, _, _, _⟩ | ⟨.app _, _, _, _⟩ => inferInstanceAs (Decidable False)

/-- Every version a log replaces under `files/` was the one the local copy descends from. -/
def Justified (path : String) (version : MemObject) (moment : Entry F) (older : Log F) : Prop :=
  Replaces (fileKey path) version moment →
    ∃ name, fileKey name = fileKey path ∧ SyncedWith name version.data older

/-- Others may do anything to the store; what one instance knows is its own. -/
def contract : Contract (syncSignature F) (Node F) where
  effect := (instanceMachine F Truthful).traced.effect
  rely s t := t.state.manager = s.state.manager ∧ t.state.fs = s.state.fs ∧ t.log = s.log
  rely_refl := @aside_refl _ F
  rely_trans := @aside_trans _ F
  guarantee op s reply t := ∀ path version, Justified path version ⟨op, reply, s.state, t.state⟩ s.log

def Known (path etag : String) (log : Log F) : Prop := ∃ data, etagFor data = etag ∧ SyncedWith path data log

/-- An ETag that the next conditional write of a path could use. -/
def Basis (state : ManagerState) (path etag : String) : Prop :=
  state.metadataCache.etag path = some etag ∨ state.baseEtag path = some etag

/-- Every pinned ETag is known, except perhaps those of one path. -/
def Grounded (hole : Option String) (s : Node F) : Prop :=
  ∀ path etag, some path ≠ hole → Basis s.state.manager path etag → Known path etag s.log

/-- Nothing that the invariant looks at has changed. -/
structure Frame (s t : Node F) : Prop where
  cache : t.state.manager.metadataCache = s.state.manager.metadataCache
  leases : t.state.manager.leases = s.state.manager.leases
  content : content t.state.fs = content s.state.fs
  known : ∀ {path etag}, Known path etag s.log → Known path etag t.log

theorem Frame.refl (s : Node F) : Frame s s := ⟨rfl, rfl, rfl, id⟩

theorem Frame.trans {s t u : Node F} (first : Frame s t) (second : Frame t u) : Frame s u :=
  ⟨second.cache.trans first.cache, second.leases.trans first.leases, second.content.trans first.content,
    second.known ∘ first.known⟩

theorem Frame.of_rely {s t : Node F} (moves : contract.rely s t) : Frame s t := by
  obtain ⟨manager, fs, log⟩ := moves
  exact ⟨by rw [manager], by rw [manager], by rw [fs], by rw [log]; exact id⟩

theorem Basis.frame {s t : Node F} (frame : Frame s t) {path etag : String}
    (basis : Basis t.state.manager path etag) : Basis s.state.manager path etag := by
  unfold Basis ManagerState.baseEtag at *
  rwa [frame.cache, frame.leases] at basis

theorem Grounded.frame {hole : Option String} {s t : Node F} (grounded : Grounded hole s) (frame : Frame s t) :
    Grounded hole t :=
  fun path etag outside basis => frame.known (grounded path etag outside (basis.frame frame))

theorem Known.grow {op : Op F} {s u : Node F} {reply : op.Reply} {path etag : String}
    (logged : u.log = ⟨op, reply, s.state, u.state⟩ :: s.log)
    (spares : content u.state.fs path = content s.state.fs path ∨ ∃ change, op = .app change)
    (known : Known path etag s.log) : Known path etag u.log := by
  obtain ⟨data, same, synced⟩ := known
  exact ⟨data, same, by rw [logged]; exact .inr ⟨spares, synced⟩⟩

theorem frame_step {op : Op F} {s u : Node F} {reply : op.Reply} (steady : op.Steady)
    (effect : contract.effect op s reply u) : Frame s u := by
  obtain ⟨⟨turn, _, _, later⟩, logged⟩ := node_effect effect
  have kept : u.state.manager.metadataCache = s.state.manager.metadataCache ∧
      u.state.manager.leases = s.state.manager.leases ∧ content u.state.fs = content s.state.fs := by
    cases op with
    | cache | leases | app => exact steady.elim
    | fs call =>
      cases call with
      | writeFileContent | loadFile | unlink => exact steady.elim
      | readFileContent path => exact ⟨by rw [later]; rfl, by rw [later]; rfl, by rw [later]; exact read_keeps path _⟩
      | statModified path => exact ⟨by rw [later]; rfl, by rw [later]; rfl, by rw [later]; rfl⟩
      | mkdirP path => exact ⟨by rw [later]; rfl, by rw [later]; rfl, by rw [later]; exact mkdirP_keeps path _⟩
      | rmdir path => exact ⟨by rw [later]; rfl, by rw [later]; rfl, by rw [later]; exact rmdir_keeps path _⟩
    | request | queue | schedule | now | wake | jitter | arrange =>
      exact ⟨by rw [later]; rfl, by rw [later]; rfl, by rw [later]; rfl⟩
  exact ⟨kept.1, kept.2.1, kept.2.2, fun known => known.grow logged (.inl (congrFun kept.2.2 _))⟩

theorem justified_calm {op : Op F} {s u : Node F} {reply : op.Reply} (calm : op.Calm)
    (effect : contract.effect op s reply u) : contract.guarantee op s reply u := by
  intro path version replaced
  obtain ⟨⟨turn, truthful, -, later⟩, -⟩ := node_effect effect
  cases op with
  | request r =>
    cases r with
    | put key body cond =>
      obtain ⟨rfl, found, changed⟩ := replaced
      rcases calm with rfl | other
      · rw [later, act_request truthful] at changed
        rcases ObjectStore.put_replaces found changed with same | same <;> cases same
      · exact (other path rfl).elim
    | list | head | get | delete => exact replaced.elim
  | queue | cache | leases | schedule | now | wake | jitter | fs | arrange | app => exact replaced.elim

theorem keeps_frame (s : Node F) :
    contract.Keeps (Frame s) (fun op : Op F => op.Steady ∧ op.Calm) where
  stable frame moves := frame.trans (.of_rely moves)
  waits _ := trivial
  step allowed frame effect := ⟨justified_calm allowed.2 effect, frame.trans (frame_step allowed.1 effect)⟩

theorem silent_frame {A : Type} {task : Task F A} (silent : Silent task) (s : Node F) :
    contract.Safe (fun _ t => Frame s t) task s :=
  (keeps_frame s).safe (silent.mono quiet_allowed) (.refl s)

/-! ### One operation -/

variable {A : Type} {post : A → Node F → Prop} {s : Node F}

theorem safe_steady {op : Op F} {k : op.Reply → Task F A} (steady : op.Steady) (calm : op.Calm)
    (rest : ∀ reply u, Frame s u → contract.Safe post (k reply) u) : contract.Safe post (next op k) s :=
  Contract.safe_call fun _ moves => ⟨trivial, fun reply u effect =>
    ⟨justified_calm calm effect, rest reply u ((Frame.of_rely moves).trans (frame_step steady effect))⟩⟩

theorem safe_cache {change : MetadataCache → MetadataCache} {k : MetadataCache → Task F A}
    (rest : ∀ u, u.state.manager.metadataCache = change s.state.manager.metadataCache →
      u.state.manager.leases = s.state.manager.leases → content u.state.fs = content s.state.fs →
      (∀ {path etag}, Known path etag s.log → Known path etag u.log) →
      contract.Safe post (k s.state.manager.metadataCache) u) :
    contract.Safe post (next (.cache change) k) s := by
  refine Contract.safe_call fun t moves => ⟨trivial, fun reply u effect => ⟨justified_calm trivial effect, ?_⟩⟩
  have frame := Frame.of_rely moves
  obtain ⟨⟨turn, _, answer, later⟩, logged⟩ := node_effect effect
  subst answer
  have same : (Snapshot.act turn (.cache change) t.state).1 = s.state.manager.metadataCache := frame.cache
  rw [same]
  refine rest u ?_ ?_ ?_ fun known => (frame.known known).grow logged (.inl ?_)
  · rw [later, ← frame.cache]; rfl
  · rw [later, ← frame.leases]; rfl
  · rw [later, ← frame.content]; rfl
  · rw [later]; rfl

theorem safe_leases {change : LeaseTable → LeaseTable} {k : LeaseTable → Task F A}
    (rest : ∀ u, u.state.manager.leases = change s.state.manager.leases →
      u.state.manager.metadataCache = s.state.manager.metadataCache → content u.state.fs = content s.state.fs →
      (∀ {path etag}, Known path etag s.log → Known path etag u.log) →
      contract.Safe post (k s.state.manager.leases) u) :
    contract.Safe post (next (.leases change) k) s := by
  refine Contract.safe_call fun t moves => ⟨trivial, fun reply u effect => ⟨justified_calm trivial effect, ?_⟩⟩
  have frame := Frame.of_rely moves
  obtain ⟨⟨turn, _, answer, later⟩, logged⟩ := node_effect effect
  subst answer
  have same : (Snapshot.act turn (.leases change) t.state).1 = s.state.manager.leases := frame.leases
  rw [same]
  refine rest u ?_ ?_ ?_ fun known => (frame.known known).grow logged (.inl ?_)
  · rw [later, ← frame.leases]; rfl
  · rw [later, ← frame.cache]; rfl
  · rw [later, ← frame.content]; rfl
  · rw [later]; rfl

/-- The application's own change keeps every pinned ETag known. -/
theorem safe_app {change : F → F} {k : F → Task F A}
    (rest : ∀ fs u, u.state.manager = s.state.manager →
      (∀ {path etag}, Known path etag s.log → Known path etag u.log) → contract.Safe post (k fs) u) :
    contract.Safe post (next (.app change) k) s := by
  refine Contract.safe_call fun t moves => ⟨trivial, fun reply u effect => ⟨justified_calm trivial effect, ?_⟩⟩
  obtain ⟨⟨turn, _, _, later⟩, logged⟩ := node_effect effect
  refine rest reply u ?_ fun known => ((Frame.of_rely moves).known known).grow logged (.inr ⟨change, rfl⟩)
  rw [later, ← moves.1]; rfl

theorem safe_get {key : String} {k : Except S3Error (Option (Bytes × ObjectMeta)) → Task F A}
    (rest : ∀ reply u, Frame s u →
      (∀ data info, reply = .ok (some (data, info)) → info.etag = etagFor data) → contract.Safe post (k reply) u) :
    contract.Safe post (next (.request (.get key)) k) s := by
  refine Contract.safe_call fun t moves => ⟨trivial, fun reply u effect => ⟨justified_calm trivial effect, ?_⟩⟩
  have steady : (Op.request (F := F) (.get key)).Steady := trivial
  refine rest reply u ((Frame.of_rely moves).trans (frame_step steady effect)) fun data info same => ?_
  obtain ⟨⟨turn, truthful, answer, _⟩, _⟩ := node_effect effect
  rw [act_request truthful] at answer
  exact ObjectStore.get_etag (Except.ok.inj (answer.symm.trans same))

theorem safe_read {path : String} {k : Except S3Error Bytes → Task F A}
    (rest : ∀ reply u, Frame s u →
      (∀ data, reply = .ok data → content u.state.fs path = some data) → contract.Safe post (k reply) u) :
    contract.Safe post (next (.fs (.readFileContent path)) k) s := by
  refine Contract.safe_call fun t moves => ⟨trivial, fun reply u effect => ⟨justified_calm trivial effect, ?_⟩⟩
  have steady : (Op.fs (F := F) (.readFileContent path)).Steady := trivial
  have kept := frame_step steady effect
  refine rest reply u ((Frame.of_rely moves).trans kept) fun data same => ?_
  obtain ⟨⟨turn, _, answer, _⟩, _⟩ := node_effect effect
  rw [kept.content]
  exact read_ok (answer.symm.trans same)

/-- The ETag of a write's condition is known. -/
def Based (path : String) (log : Log F) : Precondition → Prop
  | .none => False
  | .ifMatch etag => Known path etag log
  | .ifNoneMatchAny => True

theorem Based.frame {path : String} {cond : Precondition} {t : Node F} (based : Based path s.log cond)
    (frame : Frame s t) : Based path t.log cond := by
  cases cond with
  | none => exact based
  | ifMatch etag => exact frame.known based
  | ifNoneMatchAny => trivial

theorem safe_put {path : String} {data : Bytes} {cond : Precondition} {k : Except S3Error String → Task F A}
    (based : Based path s.log cond) (current : content s.state.fs path = some data)
    (rest : ∀ reply u, Frame s u → (∀ etag, reply = .ok etag → Known path etag u.log) →
      (∀ e, reply = .error e →
        e.isPreconditionFailed = true ∨ (e.isNotFound = true ∧ ∃ expected, cond = .ifMatch expected)) →
      contract.Safe post (k reply) u) :
    contract.Safe post (next (.request (.put (fileKey path) data cond)) k) s := by
  refine Contract.safe_call fun t moves => ⟨trivial, fun reply u effect => ?_⟩
  have frame := Frame.of_rely moves
  have steady : (Op.request (F := F) (.put (fileKey path) data cond)).Steady := trivial
  have kept := frame_step steady effect
  obtain ⟨⟨turn, truthful, answer, later⟩, logged⟩ := node_effect effect
  rw [act_request truthful] at answer later
  constructor
  · rintro name version ⟨same, found, changed⟩
    refine ⟨path, same, ?_⟩
    rw [← same] at found changed
    rw [later] at changed
    -- What the PUT replaces has the tag of its condition, and was known.
    rcases ObjectStore.put_replaces found changed with unconditional | matching
    · rw [unconditional] at based; exact based.elim
    · rw [matching] at based
      obtain ⟨bytes, equal, synced⟩ := based
      rw [EtagScheme.injective equal, ← moves.2.2] at synced
      exact synced
  · refine rest reply u (frame.trans kept) (fun etag stored => ?_) fun e failed =>
      (ObjectStore.put_error (answer.symm.trans failed)).imp_right fun missing => ⟨missing.1, missing.2.2⟩
    refine ⟨data, (ObjectStore.put_ok (answer.symm.trans stored)).symm, ?_⟩
    rw [logged]
    exact .inl ⟨rfl, rfl, by rw [← current, ← frame.content], etag, stored⟩

theorem safe_write {path : String} {data : Bytes} {k : Except S3Error Unit → Task F A} (grounded : Grounded none s)
    (failed : ∀ e u, Frame s u → contract.Safe post (k (.error e)) u)
    (written : ∀ u, Grounded (some path) u → Known path (etagFor data) u.log →
      u.state.manager = s.state.manager → contract.Safe post (k (.ok ())) u) :
    contract.Safe post (next (.fs (.writeFileContent path data)) k) s := by
  refine Contract.safe_call fun t moves => ⟨trivial, fun reply u effect => ⟨justified_calm trivial effect, ?_⟩⟩
  have frame := Frame.of_rely moves
  obtain ⟨⟨turn, _, answer, later⟩, logged⟩ := node_effect effect
  have manager : u.state.manager = t.state.manager := by rw [later]; rfl
  cases outcome : (reply : Except S3Error Unit) with
  | error e =>
    have same : content u.state.fs = content t.state.fs := by
      rw [later]; exact write_error (answer.symm.trans outcome)
    refine failed e u ⟨?_, ?_, same.trans frame.content, fun known =>
      (frame.known known).grow logged (.inl (congrFun same _))⟩
    · rw [manager, frame.cache]
    · rw [manager, frame.leases]
  | ok value =>
    have replaced : content u.state.fs = Function.update (content t.state.fs) path (some data) := by
      rw [later]; exact write_ok (answer.symm.trans outcome)
    refine written u (fun name etag outside basis => ?_) ⟨data, rfl, ?_⟩ (manager.trans moves.1)
    · rw [manager, moves.1] at basis
      refine (frame.known (grounded name etag (by simp) basis)).grow logged (.inl ?_)
      rw [replaced, Function.update_of_ne fun same => outside (by rw [same])]
    · rw [logged]
      exact .inl ⟨rfl, rfl, outcome⟩

theorem safe_unlink {path : String} {k : Except S3Error Unit → Task F A} (grounded : Grounded none s)
    (failed : ∀ e u, Frame s u → contract.Safe post (k (.error e)) u)
    (removed : ∀ u, Grounded (some path) u → u.state.manager = s.state.manager →
      contract.Safe post (k (.ok ())) u) :
    contract.Safe post (next (.fs (.unlink path)) k) s := by
  refine Contract.safe_call fun t moves => ⟨trivial, fun reply u effect => ⟨justified_calm trivial effect, ?_⟩⟩
  have frame := Frame.of_rely moves
  obtain ⟨⟨turn, _, answer, later⟩, logged⟩ := node_effect effect
  have manager : u.state.manager = t.state.manager := by rw [later]; rfl
  cases outcome : (reply : Except S3Error Unit) with
  | error e =>
    have same : content u.state.fs = content t.state.fs := by
      rw [later]; exact unlink_error (answer.symm.trans outcome)
    refine failed e u ⟨?_, ?_, same.trans frame.content, fun known =>
      (frame.known known).grow logged (.inl (congrFun same _))⟩
    · rw [manager, frame.cache]
    · rw [manager, frame.leases]
  | ok value =>
    have gone : content u.state.fs = Function.update (content t.state.fs) path none := by
      rw [later]; exact unlink_ok (answer.symm.trans outcome)
    refine removed u (fun name etag outside basis => ?_) (manager.trans moves.1)
    rw [manager, moves.1] at basis
    refine (frame.known (grounded name etag (by simp) basis)).grow logged (.inl ?_)
    rw [gone, Function.update_of_ne fun same => outside (by rw [same])]

/-! ### Functions that pin nothing new -/

theorem Grounded.of_basis {hole : Option String} {u : Node F} (grounded : Grounded hole s)
    (known : ∀ {path etag}, Known path etag s.log → Known path etag u.log)
    (basis : ∀ path etag, some path ≠ hole → Basis u.state.manager path etag → Basis s.state.manager path etag) :
    Grounded hole u :=
  fun path etag outside pinned => known (grounded path etag outside (basis path etag outside pinned))

/-- The hole closes when the path itself is grounded. -/
theorem Grounded.of_basis_at {path : String} {u : Node F} (grounded : Grounded (some path) s)
    (grow : ∀ {name etag}, Known name etag s.log → Known name etag u.log)
    (others : ∀ name etag, name ≠ path → Basis u.state.manager name etag → Basis s.state.manager name etag)
    (own : ∀ etag, Basis u.state.manager path etag → Known path etag u.log) : Grounded none u := by
  intro name etag _ pinned
  by_cases same : name = path
  · exact same ▸ own etag (same ▸ pinned)
  · exact grow (grounded name etag (by simpa using same) (others name etag same pinned))

theorem keeps_grounded : contract.Keeps (Grounded (F := F) none) Op.Tame where
  stable grounded moves := grounded.frame (.of_rely moves)
  waits _ := trivial
  step {op s reply u} tame grounded effect := by
    have calm : op.Calm := by cases op <;> first | exact tame.2 | trivial
    refine ⟨justified_calm calm effect, ?_⟩
    cases op with
    | leases change =>
      obtain ⟨⟨turn, _, _, later⟩, logged⟩ := node_effect effect
      refine grounded.of_basis (fun known => known.grow logged (.inl (by rw [later]; rfl)))
        fun path etag _ pinned => ?_
      rw [later] at pinned
      exact pinned.imp id (tame _ path etag)
    | cache change =>
      obtain ⟨⟨turn, _, _, later⟩, logged⟩ := node_effect effect
      refine grounded.of_basis (fun known => known.grow logged (.inl (by rw [later]; rfl)))
        fun path etag _ pinned => ?_
      rw [later] at pinned
      exact pinned.imp (tame _ path etag) id
    | app change =>
      obtain ⟨⟨turn, _, _, later⟩, logged⟩ := node_effect effect
      refine grounded.of_basis (fun known => known.grow logged (.inr ⟨change, rfl⟩)) fun path etag _ pinned => ?_
      rw [later] at pinned
      exact pinned
    | request | queue | schedule | now | wake | jitter | fs | arrange =>
      exact grounded.frame (frame_step tame.1 effect)

theorem tame_safe {task : Task F A} (tame : task.Only (I := syncSignature F) Op.Tame) (grounded : Grounded none s) :
    contract.Safe (fun _ t => Grounded none t) task s :=
  keeps_grounded.safe tame grounded

end
end MonakaFs.Sync.Provenance
