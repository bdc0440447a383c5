import MonakaFs.Sync.DataPath

/-! Lock records and what each instance may do to them.

Records live under `locks/` and in nobody's memory: an instance trusts its lease
because the record it wrote last is still the stored one. Others may replace a
record once it has expired, and only its author may replace it before. The
invariant of one instance says this about its own lease table and history.
-/

set_option autoImplicit false

namespace MonakaFs.Sync

/-- A lease that its holder still counts on. -/
def WriteLease.Live (lease : WriteLease) : Prop := lease.lost = false ∧ lease.releasing = false

instance (lease : WriteLease) : Decidable lease.Live := inferInstanceAs (Decidable (_ ∧ _))

namespace Mutex

open Async

/-- The body of a record that an instance writes for a path. -/
abbrev recordOf (id : InstanceId) (epoch expires : Nat) (path : String) : Bytes :=
  LockRecord.encode ⟨id.text, epoch, expires, path⟩

def Authored (id : InstanceId) (body : Bytes) : Prop :=
  ∃ epoch expires path, body = recordOf id epoch expires path

/-- A reader of this body may take the lease over. -/
def Takeable (body : Bytes) (now : Nat) : Prop :=
  ∀ record, LockRecord.parse body = some record → record.expiresMs ≤ now

theorem Takeable.later {body : Bytes} {now later : Nat} (takeable : Takeable body now) (moves : now ≤ later) :
    Takeable body later := fun record read => (takeable record read).trans moves

section
variable {T : Type} (ids : T → InstanceId)

/-- A member's records for a path read back with an expiry no earlier than the
one written, and nobody else takes them for its own. -/
def ReadsBack (member : T) (path : String) : Prop :=
  ∀ epoch expires, epoch < 2 ^ 64 → expires < 2 ^ 64 → ∃ record,
    LockRecord.parse (recordOf (ids member) epoch expires path) = some record ∧
      expires ≤ record.expiresMs ∧ ∀ other, record.instanceId = (ids other).text → other = member

theorem readsBack_of_oneLine (distinct : Function.Injective ids) (member : T) {path : String}
    (oneLine : '\n' ∉ path.toList) : ReadsBack ids member path := by
  intro epoch expires epochBound expiresBound
  refine ⟨_, LockRecord.parse_encode (ids member) epoch expires path oneLine epochBound expiresBound,
    Nat.le_refl _, fun other same => distinct ?_⟩
  cases left : ids other
  cases right : ids member
  simp_all

/-- What a lock object may hold: a record of a member, or something that no member
wrote and no member takes for its own. -/
def Lawful (body : Bytes) : Prop :=
  (∀ member, ¬ Authored (ids member) body ∧
    ∀ record, LockRecord.parse body = some record → record.instanceId ≠ (ids member).text) ∨
  ∃ member epoch expires path, epoch < 2 ^ 64 ∧ expires < 2 ^ 64 ∧ ReadsBack ids member path ∧
    body = recordOf (ids member) epoch expires path

variable {ids}

/-- A record that a member takes for its own is its own. -/
theorem Lawful.own {body : Bytes} (lawful : Lawful ids body) {record : LockRecord} {member : T}
    (read : LockRecord.parse body = some record) (mine : record.instanceId = (ids member).text) :
    Authored (ids member) body := by
  rcases lawful with foreign | ⟨author, epoch, expires, path, epochBound, expiresBound, reads, rfl⟩
  · exact ((foreign member).2 record read mine).elim
  · obtain ⟨record', read', -, only⟩ := reads epoch expires epochBound expiresBound
    rw [read] at read'
    cases read'
    rw [only member mine]
    exact ⟨epoch, expires, path, rfl⟩

/-- A member's record can be taken over only after its expiry. -/
theorem Lawful.expired {member : T} {epoch expires now : Nat} {path : String}
    (lawful : Lawful ids (recordOf (ids member) epoch expires path))
    (takeable : Takeable (recordOf (ids member) epoch expires path) now) : expires ≤ now := by
  rcases lawful with foreign | ⟨author, epoch', expires', path', epochBound, expiresBound, reads, same⟩
  · exact ((foreign member).1 ⟨epoch, expires, path, rfl⟩).elim
  · obtain ⟨-, rfl, rfl, rfl⟩ := LockRecord.encode_inj same
    rw [same] at takeable
    obtain ⟨record, read, bound, -⟩ := reads epoch expires epochBound expiresBound
    exact bound.trans (takeable record read)

end

section
variable {F : Type}

/-- An operation that writes no lock object and counts on no other lease than before. -/
def Op.Unlocked : Op F → Prop
  | .request r => ∀ path, r.writes ≠ some (lockKey path)
  | .leases change => ∀ table path lease, (change table).lookup path = some lease →
      ∃ before, table.lookup path = some before ∧ lease.lockEtag = before.lockEtag ∧
        lease.epoch = before.epoch ∧ (lease.Live → before.Live)
  | _ => True

theorem unlocked_alter {path : String} {change : WriteLease → WriteLease}
    (same : ∀ lease, (change lease).lockEtag = lease.lockEtag ∧ (change lease).epoch = lease.epoch ∧
      ((change lease).Live → lease.Live)) :
    Op.Unlocked (F := F) (.leases (·.alter path change)) := by
  intro table name lease found
  rw [Map.lookup_alter] at found
  split at found
  · next equal =>
    obtain ⟨before, present, rfl⟩ := Option.map_eq_some_iff.mp found
    exact ⟨before, equal ▸ present, same before⟩
  · exact ⟨lease, found, rfl, rfl, id⟩

theorem unlocked_erase (path : String) : Op.Unlocked (F := F) (.leases (·.erase path)) := by
  intro table name lease found
  rw [Map.lookup_erase_eq] at found
  split at found
  · cases found
  · exact ⟨lease, found, rfl, rfl, id⟩

theorem data_unlocked (op : Op F) (data : op.Data True) : Op.Unlocked op := by
  cases op with
  | request r => exact data.unlocked
  | leases change =>
    cases data with
    | readLeases => exact fun table path lease found => ⟨lease, found, rfl, rfl, id⟩
    | pin | unpin | markDirty | markDelete => exact unlocked_alter fun lease => ⟨rfl, rfl, id⟩
  | queue | cache | schedule | now | wake | jitter | fs | arrange | app => trivial

end

section
variable [EtagScheme] {F T : Type}

/-- The moment an instance writes a record for a path. -/
def Wrote (id : InstanceId) (path : String) (epoch expires : Nat) : Entry F → Prop
  | ⟨.request (.put key body _), reply, _, _⟩ =>
      key = lockKey path ∧ body = recordOf id epoch expires path ∧
        ∃ etag, (reply : Except S3Error String) = .ok etag
  | _ => False

/-- The last record an instance wrote for a path. -/
def Latest (id : InstanceId) (path : String) (epoch expires : Nat) : Log F → Prop
  | [] => False
  | moment :: older => Wrote id path epoch expires moment ∨
      ((∀ epoch expires, ¬ Wrote id path epoch expires moment) ∧ Latest id path epoch expires older)

/-- An instance counts on a lease whose record has not expired. -/
def Holds (id : InstanceId) (s : Node F) (path : String) : Prop :=
  ∃ lease epoch expires, s.state.manager.leases.lookup path = some lease ∧ lease.Live ∧
    Latest id path epoch expires s.log ∧ s.state.now < expires

/-- Giving back removes own records only, and so does a write for a path that is
in the lease table, a renewal. -/
def Clean (id : InstanceId) : Entry F → Prop
  | ⟨.request (.delete key _), _, before, after⟩ => ∀ path object, key = lockKey path →
      before.store.objects.lookup key = some object → after.store.objects.lookup key ≠ some object →
      Authored id object.data
  | ⟨.request (.put key body _), _, before, after⟩ => ∀ path epoch expires object, key = lockKey path →
      body = recordOf id epoch expires path → (before.manager.leases.lookup path).isSome →
      before.store.objects.lookup key = some object → after.store.objects.lookup key ≠ some object →
      Authored id object.data
  | _ => True

variable (ids : T → InstanceId) (member : T)

def AllLawful (store : ObjectStore) : Prop :=
  ∀ path object, store.objects.lookup (lockKey path) = some object → Lawful ids object.data

/-- A lease that its holder can renew and give back: its ETag is that of an own record. -/
def Backed (path : String) (lease : WriteLease) : Prop :=
  ReadsBack ids member path ∧ lease.epoch < 2 ^ 64 ∧
    ∃ epoch expires, lease.lockEtag = etagFor (recordOf (ids member) epoch expires path)

/-- The invariant of one instance. -/
structure Coherent (s : Node F) : Prop where
  lawful : AllLawful ids s.state.store
  backed : ∀ path lease, s.state.manager.leases.lookup path = some lease → Backed ids member path lease
  held : ∀ path lease epoch expires, s.state.manager.leases.lookup path = some lease → lease.Live →
    Latest (ids member) path epoch expires s.log → s.state.now < expires →
    ∃ object, s.state.store.objects.lookup (lockKey path) = some object ∧
      object.data = recordOf (ids member) epoch expires path

/-- What others do: they leave unexpired records of this member alone and write none in its name. -/
structure Others (s t : Node F) : Prop where
  manager : t.state.manager = s.state.manager
  fs : t.state.fs = s.state.fs
  log : t.log = s.log
  now : s.state.now ≤ t.state.now
  lawful : AllLawful ids s.state.store → AllLawful ids t.state.store
  kept : ∀ path epoch expires name object, s.state.store.objects.lookup (lockKey path) = some object →
    object.data = recordOf (ids member) epoch expires name → t.state.now < expires →
    t.state.store.objects.lookup (lockKey path) = some object
  unwritten : ∀ path object, t.state.store.objects.lookup (lockKey path) = some object →
    Authored (ids member) object.data → s.state.store.objects.lookup (lockKey path) = some object

theorem Others.refl (s : Node F) : Others ids member s s :=
  ⟨rfl, rfl, rfl, Nat.le_refl _, id, fun _ _ _ _ _ found _ _ => found, fun _ _ found _ => found⟩

theorem Others.trans {s t u : Node F} (first : Others ids member s t) (second : Others ids member t u) :
    Others ids member s u where
  manager := second.manager.trans first.manager
  fs := second.fs.trans first.fs
  log := second.log.trans first.log
  now := first.now.trans second.now
  lawful := second.lawful ∘ first.lawful
  kept path epoch expires name object found same fresh :=
    second.kept path epoch expires name object
      (first.kept path epoch expires name object found same (lt_of_le_of_lt second.now fresh)) same fresh
  unwritten path object found own := first.unwritten path object (second.unwritten path object found own) own

/-- What this member guarantees for one operation. -/
structure Fair (op : Op F) (s : Node F) (reply : op.Reply) (u : Node F) : Prop where
  now : s.state.now ≤ u.state.now
  coherent : Coherent ids member u
  clean : Clean (ids member) ⟨op, reply, s.state, u.state⟩
  replaces : ∀ path old, u.state.store.objects.lookup (lockKey path) ≠ s.state.store.objects.lookup (lockKey path) →
    s.state.store.objects.lookup (lockKey path) = some old →
    Authored (ids member) old.data ∨ Takeable old.data u.state.now
  writes : ∀ path new, u.state.store.objects.lookup (lockKey path) ≠ s.state.store.objects.lookup (lockKey path) →
    u.state.store.objects.lookup (lockKey path) = some new → Authored (ids member) new.data

variable {ids member}

theorem Coherent.others {s t : Node F} (coherent : Coherent ids member s) (moves : Others ids member s t) :
    Coherent ids member t where
  lawful := moves.lawful coherent.lawful
  backed := by rw [moves.manager]; exact coherent.backed
  held path lease epoch expires found live latest fresh := by
    rw [moves.manager] at found
    rw [moves.log] at latest
    obtain ⟨object, stored, same⟩ :=
      coherent.held path lease epoch expires found live latest (lt_of_le_of_lt moves.now fresh)
    exact ⟨object, moves.kept path epoch expires path object stored same fresh, same⟩

theorem latest_skip {id : InstanceId} {path : String} {epoch expires : Nat} {moment : Entry F} {older : Log F}
    (other : ∀ epoch expires, ¬ Wrote id path epoch expires moment) :
    Latest id path epoch expires (moment :: older) ↔ Latest id path epoch expires older := by
  constructor
  · rintro (wrote | ⟨-, latest⟩)
    · exact (other _ _ wrote).elim
    · exact latest
  · exact fun latest => .inr ⟨other, latest⟩

/-- A step off the lock path. -/
structure Idle (id : InstanceId) (s u : Node F) : Prop where
  now : s.state.now ≤ u.state.now
  store : ∀ path, u.state.store.objects.lookup (lockKey path) = s.state.store.objects.lookup (lockKey path)
  latest : ∀ path epoch expires, Latest id path epoch expires u.log ↔ Latest id path epoch expires s.log
  table : ∀ path lease, u.state.manager.leases.lookup path = some lease →
    ∃ before, s.state.manager.leases.lookup path = some before ∧ lease.lockEtag = before.lockEtag ∧
      lease.epoch = before.epoch ∧ (lease.Live → before.Live)

theorem Coherent.idle {s u : Node F} (coherent : Coherent ids member s) (idle : Idle (ids member) s u) :
    Coherent ids member u where
  lawful path object found := coherent.lawful path object (by rw [← idle.store]; exact found)
  backed path lease found := by
    obtain ⟨before, present, same, epoch, -⟩ := idle.table path lease found
    rw [Backed, same, epoch]
    exact coherent.backed path before present
  held path lease epoch expires found live latest fresh := by
    obtain ⟨before, present, -, -, lives⟩ := idle.table path lease found
    rw [idle.store]
    exact coherent.held path before epoch expires present (lives live) ((idle.latest ..).mp latest)
      (lt_of_le_of_lt idle.now fresh)

variable [FsBackend F]

variable (ids member) in
def contract : Contract (syncSignature F) (Node F) where
  effect := (instanceMachine F Truthful).traced.effect
  rely := Others ids member
  rely_refl := Others.refl ids member
  rely_trans := Others.trans ids member
  guarantee op s reply u := Fair ids member op s reply u

omit [FsBackend F] in
theorem Idle.same {id : InstanceId} {s u : Node F}
    (latest : ∀ path epoch expires, Latest id path epoch expires u.log ↔ Latest id path epoch expires s.log)
    (now : u.state.now = s.state.now) (store : u.state.store = s.state.store)
    (leases : u.state.manager.leases = s.state.manager.leases) : Idle id s u :=
  ⟨now.ge, fun path => by rw [store], latest, fun path lease found => ⟨lease, by rw [← leases]; exact found, rfl, rfl, fun live => live⟩⟩

theorem idle_step {op : Op F} {s u : Node F} {reply : op.Reply} (unlocked : Op.Unlocked op)
    (effect : (contract ids member).effect op s reply u) :
    Idle (ids member) s u ∧ Clean (ids member) ⟨op, reply, s.state, u.state⟩ := by
  obtain ⟨⟨turn, truthful, -, later⟩, logged⟩ := node_effect effect
  have silent (other : ∀ path epoch expires, ¬ Wrote (ids member) path epoch expires ⟨op, reply, s.state, u.state⟩)
      (path : String) (epoch expires : Nat) :
      Latest (ids member) path epoch expires u.log ↔ Latest (ids member) path epoch expires s.log := by
    rw [logged]
    exact latest_skip (other path)
  -- Of the requests only a PUT or a DELETE changes a record, and an unlocked one is for another key.
  cases op with
  | request r =>
    rw [act_request truthful] at later
    cases r with
    | list | head | get =>
      exact ⟨.same (silent fun _ _ _ => id) (by rw [later]) (by rw [later]; rfl) (by rw [later]), trivial⟩
    | put key body cond =>
      refine ⟨⟨by rw [later], fun path => ?_, silent fun path _ _ wrote => ?_,
        fun path lease found => ⟨lease, by rwa [later] at found, rfl, rfl, id⟩⟩, fun path _ _ _ same => ?_⟩
      · rw [later]; exact ObjectStore.serve_other (unlocked path)
      · exact unlocked path (congrArg some wrote.1)
      · exact (unlocked path (congrArg some same)).elim
    | delete key cond =>
      refine ⟨⟨by rw [later], fun path => ?_, silent fun _ _ _ => id,
        fun path lease found => ⟨lease, by rwa [later] at found, rfl, rfl, id⟩⟩, fun path _ same => ?_⟩
      · rw [later]; exact ObjectStore.serve_other (unlocked path)
      · exact (unlocked path (congrArg some same)).elim
  | leases change =>
    exact ⟨⟨by rw [later]; exact Nat.le_refl _, fun path => by rw [later]; rfl, silent fun _ _ _ => id,
      by rw [later]; exact unlocked s.state.manager.leases⟩, trivial⟩
  | wake instant =>
    exact ⟨⟨by rw [later]; exact Nat.le_max_left .., fun path => by rw [later]; rfl, silent fun _ _ _ => id,
      fun path lease found => ⟨lease, by rw [later] at found; exact found, rfl, rfl, id⟩⟩, trivial⟩
  | queue | cache | schedule | now | jitter | fs | arrange | app =>
    exact ⟨.same (silent fun _ _ _ => id) (by rw [later]; rfl) (by rw [later]; rfl) (by rw [later]; rfl), trivial⟩

theorem Coherent.fair {op : Op F} {s u : Node F} {reply : op.Reply} (coherent : Coherent ids member s)
    (unlocked : Op.Unlocked op) (effect : (contract ids member).effect op s reply u) :
    Fair ids member op s reply u := by
  obtain ⟨idle, clean⟩ := idle_step unlocked effect
  exact ⟨idle.now, coherent.idle idle, clean, fun path old changed => (changed (idle.store path)).elim,
    fun path new changed => (changed (idle.store path)).elim⟩

/-- An assertion that others and operations off the lock path keep. -/
structure Closed (ids : T → InstanceId) (member : T) (holds : Node F → Prop) : Prop where
  others : ∀ {s t}, holds s → Others ids member s t → holds t
  idle : ∀ {s u}, holds s → Idle (ids member) s u → holds u

theorem Closed.keeps {holds : Node F → Prop} (closed : Closed ids member holds) :
    (contract ids member).Keeps (fun s => Coherent ids member s ∧ holds s) Op.Unlocked where
  stable here moves := ⟨here.1.others moves, closed.others here.2 moves⟩
  waits _ := trivial
  step unlocked here effect :=
    ⟨here.1.fair unlocked effect, here.1.idle (idle_step unlocked effect).1, closed.idle here.2 (idle_step unlocked effect).1⟩

end
end Mutex
end MonakaFs.Sync
