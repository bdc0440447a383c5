import MonakaFs.Sync.Sharing.Rules

/-! One operation of one thread.

What a thread knows depends on its stage. Outside it knows only its own seat; at
work on the lease it knows the lock object and the entry as well, since nobody
else may touch them.
-/

set_option autoImplicit false

namespace MonakaFs.Sync.Sharing

open Async SyncManager
open scoped BigOperators

section
variable {F : Type} {path : String}

/-- Operations that look around, or wait. -/
def Passive : Op F → Prop
  | .request r => r.writes = none
  | .now | .wake _ | .jitter => True
  | _ => False

theorem passive_stage {op : Op F} (passive : Passive op) (before after : Option WriteLease) (stage : Stage) :
    stage.next path before after op = stage := by
  cases op with
  | request r => cases r <;> first | rfl | cases passive
  | now | wake | jitter => rfl
  | queue | cache | leases | schedule | fs | arrange | app => exact passive.elim

theorem part_alter (table : LeaseTable) (name : String) {change : WriteLease → WriteLease}
    (same : ∀ lease, lockPart (change lease) = lockPart lease) :
    ((table.alter name change).lookup path).map lockPart = (table.lookup path).map lockPart := by
  rw [Map.lookup_alter]
  split
  · next equal =>
    subst equal
    rw [Option.map_map]
    exact congrArg (fun change => (table.lookup path).map change) (funext same)
  · rfl

end

section
variable [EtagScheme] {T F : Type} {path : String} {id : InstanceId} [Fintype T] {member : T} {s t u : Host T F}

/-- A thread between two calls, with the references its opens have. -/
structure Settled (path : String) (id : InstanceId) (member : T) (count : Nat) (s : Host T F) : Prop where
  inv : Inv path id s
  credit : (s.seats member).credit = count
  stage : (s.seats member).stage = .out

/-- A thread inside a call that has not counted itself in or out yet. -/
structure Waiting (path : String) (id : InstanceId) (member : T) (count : Nat) (s : Host T F) : Prop where
  inv : Inv path id s
  seat : s.seats member = ⟨count, count, .out⟩

/-- A thread that owns the lock object and the lease entry, and knows both. -/
structure Owns (path : String) (id : InstanceId) (member : T) (count : Nat) (stage : Stage)
    (lock : Option MemObject) (part : Option WriteLease) (s : Host T F) : Prop where
  inv : Inv path id s
  seat : s.seats member = ⟨count, count, stage⟩
  lock : s.lock path = lock
  part : (s.entry path).map lockPart = part

variable {count : Nat} {stage : Stage} {lock : Option MemObject} {part : Option WriteLease}

theorem Settled.rely (settled : Settled path id member count s) (moves : Rely path id member s t) :
    Settled path id member count t :=
  ⟨(moves.inv settled.inv).1, by rw [moves.seat]; exact settled.credit, by rw [moves.seat]; exact settled.stage⟩

theorem Waiting.rely (waiting : Waiting path id member count s) (moves : Rely path id member s t) :
    Waiting path id member count t :=
  ⟨(moves.inv waiting.inv).1, moves.seat.trans waiting.seat⟩

theorem Owns.same (owns : Owns path id member count stage lock part s) (inv : Inv path id t) (same : Same path s t)
    (seat : t.seats member = s.seats member) : Owns path id member count stage lock part t :=
  ⟨inv, seat.trans owns.seat, same.lock.trans owns.lock, same.entry.trans owns.part⟩

theorem Owns.rely (active : stage ≠ .out) (owns : Owns path id member count stage lock part s)
    (moves : Rely path id member s t) : Owns path id member count stage lock part t := by
  obtain ⟨inv, same⟩ := moves.inv owns.inv
  exact owns.same inv (same (by rw [owns.seat]; exact active)) moves.seat

/-! ### One operation -/

omit [Fintype T] in
theorem data_stage {op : Op F} (data : op.Data True) (same : Same path s u) (active : stage ≠ .out) :
    stage.next path (s.entry path) (u.entry path) op = stage := by
  cases op with
  | request r =>
    cases r with
    | delete key cond =>
      have different : key ≠ lockKey path := fun equal => data.unlocked path (congrArg some equal)
      simp only [Stage.next, different, false_and, if_false]
    | list | head | get | put => rfl
  | leases change =>
    cases later : u.entry path with
    | none =>
      rw [same.none.mp later]
      exact if_neg active
    | some lease =>
      obtain ⟨before, present, equal⟩ := same.some later
      rw [present]
      refine if_neg fun marks => ?_
      rw [lockPart_releasing equal, marks.2] at marks
      cases marks.1
  | queue | cache | schedule | now | wake | jitter | fs | arrange | app => rfl

variable [DecidableEq T] [FsBackend F] {A : Type} {post : A → Host T F → Prop}

theorem counted (seat : s.seats member = ⟨count, count, stage⟩) : (contract (F := F) path id member).waits s := by
  show (s.seats member).credit = (s.seats member).held
  rw [seat]

theorem same_of_state {op : Op F} {reply : op.Reply} (effect : (contract path id member).effect op s reply u)
    (store : ∀ turn, Truthful turn → (s.state.act turn op).2.store.objects.lookup (lockKey path) = s.lock path)
    (leases : ∀ turn, ((s.state.act turn op).2.manager.leases.lookup path).map lockPart = (s.entry path).map lockPart) :
    Same path s u := by
  obtain ⟨turn, truthful, -, later, -⟩ := host_effect effect
  exact ⟨by rw [later, act_conditional truthful], by rw [Host.lock, later]; exact store turn truthful, by rw [Host.entry, later]; exact leases turn⟩

theorem request_same {r : Request} {reply : r.Answer} (other : r.writes ≠ some (lockKey path))
    (effect : (contract path id member).effect (.request r) s reply u) : Same path s u :=
  same_of_state effect (fun _ truthful => by rw [act_request truthful]; exact ObjectStore.serve_other other)
    fun _ => rfl

theorem passive_same {op : Op F} {reply : op.Reply} (passive : Passive op)
    (effect : (contract path id member).effect op s reply u) : Same path s u := by
  cases op with
  | request r => exact request_same (by rw [show r.writes = none from passive]; exact nofun) effect
  | now | wake | jitter => exact same_of_state effect (fun _ _ => rfl) fun _ => rfl
  | queue | cache | leases | schedule | fs | arrange | app => exact passive.elim

theorem data_same {op : Op F} {reply : op.Reply} (data : op.Data True)
    (effect : (contract path id member).effect op s reply u) : Same path s u := by
  cases op with
  | request r => exact request_same (data.unlocked path) effect
  | leases change =>
    refine same_of_state effect (fun _ _ => rfl) fun _ => ?_
    cases data with
    | readLeases => rfl
    | pin | unpin | markDirty | markDelete => exact part_alter _ _ fun _ => rfl
  | queue | cache | schedule | now | wake | jitter | fs | arrange | app =>
    exact same_of_state effect (fun _ _ => rfl) fun _ => rfl

theorem owns_step {op : Op F} {reply : op.Reply} (active : stage ≠ .out) (kind : op.Data True ∨ Passive op)
    (owns : Owns path id member count stage lock part s) (effect : (contract path id member).effect op s reply u) :
    (contract path id member).guarantee op s reply u ∧ Owns path id member count stage lock part u := by
  have same : Same path s u := kind.elim (data_same · effect) (passive_same · effect)
  have stays : (s.seats member).stage.next path (s.entry path) (u.entry path) op = (s.seats member).stage := by
    rw [owns.seat]
    exact kind.elim (data_stage · same active) (passive_stage · ..)
  obtain ⟨guarantee, inv, seat⟩ := owns.inv.ordinary effect same stays
  exact ⟨guarantee, owns.same inv same seat⟩

theorem keeps_owns (active : stage ≠ .out) :
    (contract path id member).Keeps (Owns (F := F) path id member count stage lock part)
      (fun op => op.Data True ∨ Passive op) where
  stable owns moves := owns.rely active moves
  waits owns := counted owns.seat
  step kind owns effect := owns_step active kind owns effect

/-- An operation of a thread that owns the lease, off the lease. -/
theorem safe_owns {op : Op F} {k : op.Reply → Task F A} (active : stage ≠ .out) (kind : op.Data True ∨ Passive op)
    (owns : Owns path id member count stage lock part s)
    (rest : ∀ t reply u, (∃ turn, Truthful turn ∧ reply = (t.state.act turn op).1) →
      Owns path id member count stage lock part t → Owns path id member count stage lock part u →
      (contract path id member).Safe post (k reply) u) :
    (contract path id member).Safe post (next op k) s :=
  Contract.safe_call fun t moves => by
    have owns := owns.rely active moves
    refine ⟨(keeps_owns active).waits owns, fun reply u effect => ?_⟩
    obtain ⟨guarantee, owns'⟩ := owns_step active kind owns effect
    obtain ⟨turn, truthful, answer, -⟩ := host_effect effect
    exact ⟨guarantee, rest t reply u ⟨turn, truthful, answer⟩ owns owns'⟩

/-- A look or a sleep of a thread that is not counted yet. -/
theorem safe_waiting {op : Op F} {k : op.Reply → Task F A} (passive : Passive op)
    (waiting : Waiting path id member count s)
    (rest : ∀ reply u, Waiting path id member count u → (contract path id member).Safe post (k reply) u) :
    (contract path id member).Safe post (next op k) s :=
  Contract.safe_call fun t moves => by
    have waiting := waiting.rely moves
    refine ⟨counted waiting.seat, fun reply u effect => ?_⟩
    obtain ⟨guarantee, inv, seat⟩ :=
      waiting.inv.ordinary effect (passive_same passive effect) (passive_stage passive ..)
    exact ⟨guarantee, rest reply u ⟨inv, seat.trans waiting.seat⟩⟩

theorem leases_effect {change : LeaseTable → LeaseTable} {leases : LeaseTable}
    (effect : (contract path id member).effect (.leases change) (t : Host T F) leases u) :
    leases.lookup path = t.entry path ∧ u.entry path = (change t.state.manager.leases).lookup path ∧
      u.lock path = t.lock path ∧ u.state.store = t.state.store ∧ Alone member u := by
  obtain ⟨turn, -, answer, later, -, alone⟩ := host_effect effect
  exact ⟨by rw [answer]; rfl, by rw [Host.entry, later]; rfl, by rw [Host.lock, later]; rfl, by rw [later]; rfl, alone⟩

theorem alter_effect {change : WriteLease → WriteLease} {leases : LeaseTable}
    (effect : (contract path id member).effect (.leases (·.alter path change)) (t : Host T F) leases u) :
    leases.lookup path = t.entry path ∧ u.entry path = (t.entry path).map change ∧
      u.lock path = t.lock path ∧ u.state.store = t.state.store ∧ Alone member u := by
  obtain ⟨answer, entry, rest⟩ := leases_effect effect
  exact ⟨answer, entry.trans ((Map.lookup_alter ..).trans (if_pos rfl)), rest⟩

/-! ### Opening -/

/-- The first section of an open: join the entry in use, wait for one that is being
given back, or find none and own the lease from now on. -/
theorem safe_join {k : LeaseTable → Task F A} (waiting : Waiting path id member count s)
    (joined : ∀ u leases lease, (leases : LeaseTable).lookup path = some lease → lease.releasing = false →
      Settled path id member (count + 1) u → (contract path id member).Safe post (k leases) u)
    (releasing : ∀ u leases lease, (leases : LeaseTable).lookup path = some lease → lease.releasing = true →
      Waiting path id member count u → (contract path id member).Safe post (k leases) u)
    (missed : ∀ u leases, (leases : LeaseTable).lookup path = none → Owns path id member count .missed none none u →
      (contract path id member).Safe post (k leases) u) :
    (contract path id member).Safe post (next (.leases (·.alter path fun lease =>
      if lease.releasing then lease else { lease with refcount := lease.refcount + 1 })) k) s := by
  refine Contract.safe_call fun t moves => ?_
  have waiting := waiting.rely moves
  refine ⟨counted waiting.seat, fun leases u effect => ?_⟩
  obtain ⟨answer, entry, lock, store, alone⟩ := alter_effect effect
  have seat := waiting.seat
  cases found : t.entry path with
  | none =>
    rw [found] at answer entry
    have advances : (t.seats member).advance path (t.entry path) (u.entry path) (Op.leases (F := F) (·.alter path
        fun lease => if lease.releasing then lease else { lease with refcount := lease.refcount + 1 })) =
        ⟨count, count, .missed⟩ := by
      rw [seat, found, entry]; simp [Seat.advance, Stage.next]
    obtain ⟨turn, -, -, -, seats, -⟩ := host_effect effect
    have mine : (u.seats member).stage = .missed := by rw [seats, Function.update_self, advances]
    -- nobody else is at work: no other thread found the path unleased, and there is no entry to give back
    have others (other : T) (different : other ≠ member) : (t.seats other).stage = .out := by
      have kept : u.seats other = t.seats other := by rw [seats, Function.update_of_ne different]
      cases stage : (t.seats other).stage with
      | out => rfl
      | missed => exact (different (alone mine other (by rw [kept]; exact stage))).elim
      | releasing =>
        obtain ⟨⟨lease, present, -⟩, -⟩ := waiting.inv.releasing other stage
        rw [found] at present
        cases present
    have free : t.lock path = none := by
      refine waiting.inv.free found fun each => ?_
      by_cases same : each = member
      · rw [same, seat]; exact Stage.noConfusion
      · rw [others each same]; exact Stage.noConfusion
    obtain ⟨guarantee, inv, seat'⟩ := waiting.inv.special _ effect others advances (Int.natCast_nonneg count)
      (show Shape path id ⟨count, count, .missed⟩ _ _ from entry)
    exact ⟨guarantee, missed u leases answer ⟨inv, seat', lock.trans free, by rw [entry]; rfl⟩⟩
  | some lease =>
    rw [found] at answer entry
    cases live : lease.releasing with
    | true =>
      rw [Option.map_some, if_pos live] at entry
      have same : Same path t u := ⟨by rw [store], lock, by rw [entry, found]⟩
      obtain ⟨guarantee, inv, seat'⟩ := waiting.inv.ordinary effect same (by
        rw [found, entry]; exact if_neg fun marks => by rw [marks.2] at marks; cases marks.1)
      exact ⟨guarantee, releasing u leases lease answer live ⟨inv, seat'.trans seat⟩⟩
    | false =>
      rw [Option.map_some, if_neg (by rw [live]; decide)] at entry
      have others := waiting.inv.others_out member (.inr ⟨lease, found, live⟩)
      obtain ⟨guarantee, inv, seat'⟩ := waiting.inv.special ⟨count, count + 1, .out⟩ effect others
        (by rw [seat, found, entry]; simp [Seat.advance, Stage.next, references, live]; omega)
        (by show (0 : Int) ≤ (count : Int) + 1; omega)
        (.inr ⟨_, entry, Nat.le_add_left .., live, by rw [lock]; exact waiting.inv.guarded lease found live⟩)
      exact ⟨guarantee, joined u leases lease answer live ⟨inv, by rw [seat']; push_cast; rfl, by rw [seat']⟩⟩

/-- The write that creates the lock object. Nobody else writes one, so it succeeds. -/
theorem safe_create {epoch expires : Nat} {k : Except S3Error String → Task F A}
    (owns : Owns path id member count .missed none none s)
    (rest : ∀ object u, object.data = LockRecord.encode ⟨id.text, epoch, expires, path⟩ →
      Owns path id member count .missed (some object) none u →
      (contract path id member).Safe post (k (.ok object.etag)) u) :
    (contract path id member).Safe post
      (next (.request (.put (lockKey path) (LockRecord.encode ⟨id.text, epoch, expires, path⟩) .ifNoneMatchAny)) k) s := by
  refine Contract.safe_call fun t moves => ?_
  have owns := owns.rely Stage.noConfusion moves
  refine ⟨counted owns.seat, fun reply u effect => ?_⟩
  obtain ⟨turn, truthful, answer, later, -⟩ := host_effect effect
  rw [act_request truthful] at answer later
  rcases t.state.store.put_cases (lockKey path) (LockRecord.encode ⟨id.text, epoch, expires, path⟩) .ifNoneMatchAny with
    ⟨-, stored⟩ | ⟨fails, -⟩
  swap
  -- There is no record, so that the create cannot be rejected.
  · exact (fails owns.lock).elim
  rw [show t.state.store.serve (.put (lockKey path) _ _) = _ from stored] at answer later
  have entry : u.entry path = t.entry path := by rw [Host.entry, later]; rfl
  have missing : t.entry path = none := Option.map_eq_none_iff.mp owns.part
  have lock : u.lock path =
      some ⟨LockRecord.encode ⟨id.text, epoch, expires, path⟩, t.state.store.clock + 1⟩ := by
    rw [Host.lock, later]
    exact (Map.lookup_insert_eq ..).trans (if_pos rfl)
  have others := owns.inv.others_out member (.inl (by rw [owns.seat]; exact Stage.noConfusion))
  obtain ⟨guarantee, inv, seat⟩ := owns.inv.special ⟨count, count, .missed⟩ effect others
    (by rw [owns.seat, entry]; simp [Seat.advance, Stage.next]) (Int.natCast_nonneg count)
    (show Shape path id ⟨count, count, .missed⟩ _ _ from entry.trans missing)
  rw [show reply = .ok _ from answer]
  exact ⟨guarantee, rest ⟨_, t.state.store.clock + 1⟩ u rfl ⟨inv, seat, lock, by rw [entry, missing]; rfl⟩⟩

theorem delete_effect {lockEtag : String} {reply : Except S3Error Unit} {object : MemObject} (inv : Inv path id t)
    (found : t.lock path = some object) (tag : object.etag = lockEtag)
    (effect : (contract path id member).effect (.request (.delete (lockKey path) (.ifMatch lockEtag))) t reply u) :
    u.lock path = none ∧ u.entry path = t.entry path := by
  obtain ⟨turn, truthful, -, later, -⟩ := host_effect effect
  rw [act_request truthful] at later
  have removed := ObjectStore.delete_passes inv.conditional
    (show t.state.store.Passes (lockKey path) (.ifMatch lockEtag) from ⟨object, found, tag⟩)
  rw [show t.state.store.serve (.delete (lockKey path) _) = _ from removed] at later
  exact ⟨by rw [Host.lock, later]; exact (Map.lookup_erase_eq ..).trans (if_pos rfl), by rw [Host.entry, later]; rfl⟩

/-- An opener that failed gives the lock object back and is out. -/
theorem release_missed {object : MemObject} {lockEtag : String} (tag : object.etag = lockEtag)
    (owns : Owns path id member count .missed (some object) none s) :
    (contract path id member).Safe (fun _ t => Settled path id member count t) (release (F := F) path lockEtag) s := by
  simp only [release, deleteObject_bind]
  refine Contract.safe_call fun t moves => ?_
  have owns := owns.rely Stage.noConfusion moves
  refine ⟨counted owns.seat, fun reply u effect => ?_⟩
  obtain ⟨lock, entry⟩ := delete_effect owns.inv owns.lock tag effect
  have missing : t.entry path = none := Option.map_eq_none_iff.mp owns.part
  have others := owns.inv.others_out member (.inl (by rw [owns.seat]; exact Stage.noConfusion))
  obtain ⟨guarantee, inv, seat⟩ := owns.inv.special ⟨count, count, .out⟩ effect others
    (by rw [owns.seat, entry]; simp [Seat.advance, Stage.next]) (Int.natCast_nonneg count)
    (.inl ⟨entry.trans missing, lock⟩)
  refine ⟨guarantee, Contract.safe_done fun v moves => ?_⟩
  exact Settled.rely ⟨inv, by rw [seat], by rw [seat]⟩ moves

/-- The last closer gives the lock object back, still holding the marked entry. -/
theorem release_releasing {object : MemObject} (lease : WriteLease) (tag : object.etag = lease.lockEtag)
    (owns : Owns path id member count .releasing (some object) (some lease) s) :
    (contract path id member).Safe (fun _ t => Owns path id member count .releasing none (some lease) t)
      (release (F := F) path lease.lockEtag) s := by
  simp only [release, deleteObject_bind]
  refine Contract.safe_call fun t moves => ?_
  have owns := owns.rely Stage.noConfusion moves
  refine ⟨counted owns.seat, fun reply u effect => ?_⟩
  obtain ⟨lock, entry⟩ := delete_effect owns.inv owns.lock tag effect
  have others := owns.inv.others_out member (.inl (by rw [owns.seat]; exact Stage.noConfusion))
  obtain ⟨⟨before, present, marked⟩, credit⟩ := owns.inv.releasing member (by rw [owns.seat])
  have once := (owns.inv.closing before present marked).1
  obtain ⟨guarantee, inv, seat⟩ := owns.inv.special ⟨count, count, .releasing⟩ effect others
    (by rw [owns.seat, entry]; simp [Seat.advance, Stage.next]) (Int.natCast_nonneg count)
    ⟨⟨before, entry.trans present, once, marked⟩, by rw [owns.seat] at credit; exact credit⟩
  refine ⟨guarantee, Contract.safe_done fun v moves => ?_⟩
  exact Owns.rely Stage.noConfusion ⟨inv, seat, lock, by rw [entry]; exact owns.part⟩ moves

end

end MonakaFs.Sync.Sharing
