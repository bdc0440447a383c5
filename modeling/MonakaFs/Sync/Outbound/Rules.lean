import MonakaFs.Sync.Upload.Acknowledged

/-! What a flush owes to the operations it takes from the queue.

A flush gives way to other calls of its manager while a request is on its way, and
only then. It takes an operation out of the queue before it tries it, so from that
moment on nobody else knows of it.
-/

set_option autoImplicit false

namespace MonakaFs.Sync.Outbound

open Async SyncManager

section
variable [EtagScheme] {F : Type}

/-- The lease of a path knows of a change to push. -/
def Marked (path : String) (s : Snapshot F) : Prop :=
  ∃ lease, s.manager.leases.lookup path = some lease ∧ (lease.dirty = true ∨ lease.pendingDelete = true)

/-- Others may do anything but take a mark from a lease. -/
def marking : Surroundings F where
  moves s t := ∀ path, Marked path s → Marked path t
  refl _ _ marked := marked
  trans first second path marked := second path (first path marked)

/-! ### Operations of a flush -/

/-- The section that takes this operation from the head of the queue. -/
def Takes (op : SyncOperation) (moment : Entry F) : Prop :=
  (∃ change, moment.op = .queue change) ∧
    moment.before.manager.outboundQueue = op :: moment.after.manager.outboundQueue

/-- The store did what the request says. -/
def Effective : Entry F → Prop
  | ⟨.request r, _, before, after⟩ => (∃ value, (before.store.serve r).1 = .ok value) ∧ after.store = (before.store.serve r).2
  | _ => False

/-- The bytes were PUT at the file's key, whether or not that was answered. -/
def Pushes (path : String) (body : Bytes) (moment : Entry F) : Prop :=
  (∃ cond, moment.op = .request (.put (fileKey path) body cond)) ∧ Effective moment

def Deletes (path : String) (moment : Entry F) : Prop :=
  (∃ cond, moment.op = .request (.delete (fileKey path) cond)) ∧ Effective moment

/-- The store rejected a write for its condition. -/
def Rejects (path : String) : Entry F → Prop
  | ⟨.request (.put key _ _), reply, _, _⟩ => key = fileKey path ∧ ∃ e, reply = .error e ∧ e.isPreconditionFailed = true
  | ⟨.request (.delete key _), reply, _, _⟩ => key = fileKey path ∧ ∃ e, reply = .error e ∧ e.isPreconditionFailed = true
  | _ => False

/-- An upload pushes the bytes that were read from the local file. -/
def Applied (op : SyncOperation) (log : Log F) : Prop :=
  match op with
  | .upload path => ∃ body, (∃ read ∈ log, Upload.readOf path read = some body) ∧ ∃ put ∈ log, Pushes path body put
  | .delete path _ => ∃ moment ∈ log, Deletes path moment

/-- With leases, a rejected write is a conflict that the remote version wins. -/
def Conflicted (manager : SyncManager) (op : SyncOperation) (log : Log F) : Prop :=
  manager.config.fileLock = true ∧ ∃ moment ∈ log, Rejects op.path moment

/-- What has to hold at the end of an operation taken before these moments. -/
def Accounted (manager : SyncManager) (op : SyncOperation) (log : Log F) (s : Snapshot F) : Prop :=
  Applied op log ∨ Conflicted manager op log ∨ Marked op.path s ∨ ∃ other ∈ s.manager.outboundQueue, other.path = op.path

/-! ### Where an operation gets lost -/

/-- A delete that fails in transit before it takes effect. -/
def LosesDelete : Entry F → Prop
  | ⟨.request (.delete key cond), reply, before, after⟩ => (∃ e, reply = .error e ∧ e.isTransport = true) ∧
      ¬ Effective ⟨.request (.delete key cond), reply, before, after⟩
  | _ => False

/-- A flush takes the upload of a path that is leased, and the lease does not know of the change. -/
def DropsUpload (moment : Entry F) : Prop :=
  ∃ path lease, Takes (.upload path) moment ∧ moment.before.manager.leases.lookup path = some lease ∧
    lease.dirty = false ∧ lease.pendingDelete = false

/-- An upload was taken while its path was leased. -/
def Skipped (path : String) (log : Log F) : Prop :=
  ∃ moment ∈ log, Takes (.upload path) moment ∧ (moment.before.manager.leases.lookup path).isSome = true

/-- A delete is rejected for a path whose upload was left to the lease. -/
def Reclaims (older : Log F) (moment : Entry F) : Prop :=
  ∃ path, (∃ cond, moment.op = .request (.delete (fileKey path) cond)) ∧ Rejects path moment ∧ Skipped path older

/-- A HEAD that vouches for a PUT which never took effect. -/
def Misleads : Log F → Entry F → Prop
  | ⟨.request (.put key body cond), reply, before, after⟩ :: _, ⟨.request (.head name), found, _, _⟩ =>
      name = key ∧ (∃ e, reply = .error e ∧ e.isTransport = true) ∧
        ¬ Effective ⟨.request (.put key body cond), reply, before, after⟩ ∧
        ∃ info : ObjectMeta, found = .ok (some info) ∧ landed cond info.etag = true
  | _, _ => False

/-- Nothing gets lost here. -/
structure Fair (older : Log F) (moment : Entry F) : Prop where
  delete : ¬ LosesDelete moment
  upload : ¬ DropsUpload moment
  lease : ¬ Reclaims older moment
  head : ¬ Misleads older moment

end

/-! ### Runs that give way at requests -/

section
variable [EtagScheme] {F A : Type} [FsBackend F]

def givingWay (fine : Log F → Entry F → Prop) (admits : Turn → Prop) (around : Surroundings F) :
    Contract (syncSignature F) (Node F) where
  effect op s reply u := ∃ t, around.moves s.state t ∧ (¬ op.Remote → t = s.state) ∧
    (instanceMachine F admits).traced.effect op ⟨t, s.log⟩ reply u ∧ fine s.log ⟨op, reply, t, u.state⟩
  rely := Eq
  rely_refl _ := rfl
  rely_trans := Eq.trans
  guarantee _ _ _ _ := True

variable {fine : Log F → Entry F → Prop} {admits : Turn → Prop} {around : Surroundings F} {post : A → Node F → Prop}
  {s : Node F}

theorem way_next {op : Op F} {k : op.Reply → Task F A}
    (rest : ∀ t reply u, around.moves s.state t → (¬ op.Remote → t = s.state) →
      (∃ turn, admits turn ∧ reply = (t.act turn op).1 ∧ u = (t.act turn op).2) → fine s.log ⟨op, reply, t, u⟩ →
      (givingWay fine admits around).Safe post (k reply) ⟨u, ⟨op, reply, t, u⟩ :: s.log⟩) :
    (givingWay fine admits around).Safe post (next op k) s := by
  refine Contract.safe_call fun s' same => ⟨trivial, fun reply u effect => ⟨trivial, ?_⟩⟩
  cases same
  obtain ⟨t, moves, still, effect, fair⟩ := effect
  obtain ⟨served, logged⟩ := node_effect effect
  have same : u = ⟨u.state, ⟨op, reply, t, u.state⟩ :: s.log⟩ := by rw [← logged]
  rw [same]
  exact rest t reply u.state moves still served fair

/-- A run that nobody disturbs, in whose record every operation is fine. -/
theorem way_of_ran (around : Surroundings F) {narrow : Surroundings F} {task : Task F A} {value : A} {t : Node F}
    (alone : ∀ s t, narrow.moves s t → t = s) (ran : (runs admits narrow).Exec task s value t) (all : Throughout fine t.log) :
    (givingWay fine admits around).Exec task s value t := by
  induction ran with
  | @done value s t moves =>
    obtain ⟨state, log⟩ := t
    obtain rfl : log = s.log := moves.1
    obtain rfl : state = s.state := alone _ _ moves.2
    exact .done rfl
  | @call op next s t u v reply value moves effect rest ih =>
    obtain ⟨newer, logged⟩ := exec_log rest
    obtain ⟨state, log⟩ := t
    obtain rfl : log = s.log := moves.1
    obtain rfl : state = s.state := alone _ _ moves.2
    refine .call rfl ⟨s.state, around.refl _, fun _ => rfl, effect, ?_⟩ (ih all)
    rw [logged, (node_effect effect).2] at all
    exact all.older.1

theorem way_return {value : A} (holds : post value s) : (givingWay fine admits around).Safe post (.done value) s :=
  Contract.safe_done fun _ same => same ▸ holds

end

end MonakaFs.Sync.Outbound
