import MonakaFs.Sync.Mutex.Rules

/-! Taking, extending and giving back a record keeps the invariant.

A record is written where none was, over one that was read expired, or over the
writer's own. A failed write is looked at once more; with true answers that look
never finds the instance's own record, since nobody else writes one in its name.
-/

set_option autoImplicit false

namespace MonakaFs.Sync.Mutex

open Async

section
variable [EtagScheme] {F T : Type} {ids : T → InstanceId} {member : T} {s : Node F}

/-! ### Assertions that survive -/

theorem closed_true : Closed (F := F) ids member fun _ => True := ⟨fun _ _ => trivial, fun _ _ => trivial⟩

theorem Closed.and {first second : Node F → Prop} (left : Closed ids member first) (right : Closed ids member second) :
    Closed ids member fun s => first s ∧ second s :=
  ⟨fun here moves => ⟨left.others here.1 moves, right.others here.2 moves⟩,
    fun here idle => ⟨left.idle here.1 idle, right.idle here.2 idle⟩⟩

/-- The path is not in the lease table. -/
def Absent (path : String) (s : Node F) : Prop := s.state.manager.leases.lookup path = none

theorem closed_absent (path : String) : Closed (F := F) ids member (Absent path) where
  others here moves := by rw [Absent, moves.manager]; exact here
  idle {s u} here idle := by
    cases found : u.state.manager.leases.lookup path with
    | none => exact found
    | some lease =>
      obtain ⟨before, present, -⟩ := idle.table path lease found
      rw [Absent, present] at here
      cases here

/-- Nobody counts on the lease of this path. -/
def Resting (path : String) (s : Node F) : Prop :=
  ∀ lease, s.state.manager.leases.lookup path = some lease → ¬ lease.Live

theorem Absent.resting {path : String} (absent : Absent path s) : Resting path s := by
  intro lease found
  rw [Absent.eq_1] at absent
  rw [absent] at found
  cases found

theorem closed_resting (path : String) : Closed (F := F) ids member (Resting path) where
  others here moves := by rw [Resting, moves.manager]; exact here
  idle here idle lease found live := by
    obtain ⟨before, present, -, -, lives⟩ := idle.table path lease found
    exact here before present (lives live)

/-- The record last written for a path carries this ETag and is stored until it expires. -/
def Recorded (id : InstanceId) (path lockEtag : String) (s : Node F) : Prop :=
  ∃ epoch expires, lockEtag = etagFor (recordOf id epoch expires path) ∧ Latest id path epoch expires s.log ∧
    (s.state.now < expires → ∃ object, s.state.store.objects.lookup (lockKey path) = some object ∧
      object.data = recordOf id epoch expires path)

theorem closed_recorded (path lockEtag : String) :
    Closed (F := F) ids member (Recorded (ids member) path lockEtag) where
  others := by
    rintro s t ⟨epoch, expires, tag, latest, stored⟩ moves
    refine ⟨epoch, expires, tag, by rw [moves.log]; exact latest, fun fresh => ?_⟩
    obtain ⟨object, found, same⟩ := stored (lt_of_le_of_lt moves.now fresh)
    exact ⟨object, moves.kept path epoch expires path object found same fresh, same⟩
  idle := by
    rintro s u ⟨epoch, expires, tag, latest, stored⟩ idle
    refine ⟨epoch, expires, tag, (idle.latest ..).mpr latest, fun fresh => ?_⟩
    rw [idle.store]
    exact stored (lt_of_le_of_lt idle.now fresh)

/-- Whatever this member wrote on the path is the version with this ETag. -/
def Sole (id : InstanceId) (path : String) (cond : Precondition) (s : Node F) : Prop :=
  ∀ object, s.state.store.objects.lookup (lockKey path) = some object → Authored id object.data →
    cond = .ifMatch object.etag

theorem closed_sole (path : String) (cond : Precondition) :
    Closed (F := F) ids member (Sole (ids member) path cond) where
  others here moves object found own := here object (moves.unwritten path object found own) own
  idle here idle object found own := here object (by rw [← idle.store]; exact found) own

/-! ### One write of a record -/

variable [FsBackend F]

/-- A condition under which a member may write a record for a path. -/
def Entitled (id : InstanceId) (path : String) (now : Nat) : Precondition → Prop
  | .none => False
  | .ifNoneMatchAny => True
  | .ifMatch etag => ∃ body, etag = etagFor body ∧
      (Takeable body now ∨ ∃ epoch expires, body = recordOf id epoch expires path)

theorem record_ok {path : String} {epoch expires : Nat} {cond : Precondition} {t u : Node F} {etag : String}
    (epochBound : epoch < 2 ^ 64) (expiresBound : expires < 2 ^ 64) (reads : ReadsBack ids member path)
    (coherent : Coherent ids member t) (entitled : Entitled (ids member) path t.state.now cond)
    (renews : ¬ Absent path t → ∃ epoch expires, cond = .ifMatch (etagFor (recordOf (ids member) epoch expires path)))
    (effect : (contract ids member).effect
      (.request (.put (lockKey path) (recordOf (ids member) epoch expires path) cond)) t (.ok etag) u) :
    Fair ids member (.request (.put (lockKey path) (recordOf (ids member) epoch expires path) cond)) t (.ok etag) u ∧
      u.state.manager = t.state.manager ∧ Recorded (ids member) path etag u := by
  obtain ⟨⟨turn, truthful, answer, later⟩, logged⟩ := node_effect effect
  rw [act_request truthful] at answer later
  rcases t.state.store.put_cases (lockKey path) (recordOf (ids member) epoch expires path) cond with
    ⟨passes, stored⟩ | ⟨-, e, failed⟩
  swap
  · rw [show t.state.store.serve (.put (lockKey path) _ cond) = _ from failed] at answer
    cases answer
  rw [show t.state.store.serve (.put (lockKey path) _ cond) = _ from stored] at answer later
  have tag : etag = etagFor (recordOf (ids member) epoch expires path) := Except.ok.inj answer
  have lookup (name : String) : u.state.store.objects.lookup (lockKey name) =
      if lockKey name = lockKey path then some ⟨recordOf (ids member) epoch expires path, t.state.store.clock + 1⟩
      else t.state.store.objects.lookup (lockKey name) := by rw [later]; exact Map.lookup_insert_eq ..
  have clock : u.state.now = t.state.now := by rw [later]
  have manager : u.state.manager = t.state.manager := by rw [later]
  have wrote : Wrote (ids member) path epoch expires
      ⟨.request (.put (lockKey path) (recordOf (ids member) epoch expires path) cond), .ok etag, t.state, u.state⟩ :=
    ⟨rfl, rfl, etag, rfl⟩
  have only {name : String} {epoch' expires' : Nat} (other : Wrote (ids member) name epoch' expires'
      ⟨.request (.put (lockKey path) (recordOf (ids member) epoch expires path) cond), .ok etag, t.state, u.state⟩) :
      epoch' = epoch ∧ expires' = expires ∧ name = path := by
    obtain ⟨-, rfl, rfl, rfl⟩ := LockRecord.encode_inj other.2.1
    exact ⟨rfl, rfl, rfl⟩
  -- a version that the write replaces is expired, or this member's record for the same path
  have displaced {object : MemObject} (found : t.state.store.objects.lookup (lockKey path) = some object) :
      Takeable object.data t.state.now ∨ ∃ epoch expires, object.data = recordOf (ids member) epoch expires path := by
    cases cond with
    | none => exact entitled.elim
    | ifNoneMatchAny => rw [show t.state.store.objects.lookup (lockKey path) = none from passes] at found; cases found
    | ifMatch expected =>
      obtain ⟨current, present, same⟩ := passes
      obtain ⟨body, known, may⟩ := entitled
      obtain rfl := Option.some.inj (present.symm.trans found)
      rw [EtagScheme.injective (same.trans known : etagFor current.data = etagFor body)]
      exact may
  have coherent' : Coherent ids member u := by
    refine ⟨fun name object found => ?_, by rw [manager]; exact coherent.backed, ?_⟩
    · rw [lookup] at found
      split at found
      · cases found
        exact .inr ⟨member, epoch, expires, path, epochBound, expiresBound, reads, rfl⟩
      · exact coherent.lawful name object found
    · intro name lease epoch' expires' found live latest fresh
      rw [manager] at found
      rw [clock] at fresh
      rw [logged] at latest
      rcases latest with now | ⟨unwritten, before⟩
      · obtain ⟨rfl, rfl, rfl⟩ := only now
        exact ⟨_, by rw [lookup, if_pos rfl], rfl⟩
      obtain ⟨object, present, same⟩ := coherent.held name lease epoch' expires' found live before fresh
      by_cases shared : lockKey name = lockKey path
      · -- two names of one lock object: the other record was still valid, so the write was not allowed
        rw [shared] at present
        rcases displaced present with takeable | ⟨_, _, own⟩
        · have law := coherent.lawful path object present
          rw [same] at law takeable
          exact absurd fresh (Nat.not_lt.mpr (law.expired takeable))
        · obtain ⟨-, -, -, rfl⟩ := LockRecord.encode_inj (same.symm.trans own)
          exact (unwritten _ _ wrote).elim
      · exact ⟨object, by rw [lookup, if_neg shared]; exact present, same⟩
  refine ⟨⟨clock.ge, coherent', ?_, ?_, ?_⟩, manager,
    epoch, expires, tag, by rw [logged]; exact .inl wrote, fun _ => ⟨_, by rw [lookup, if_pos rfl], rfl⟩⟩
  · intro name epoch' expires' object _ body leased found _
    obtain ⟨-, -, -, rfl⟩ := LockRecord.encode_inj body
    obtain ⟨epoch'', expires'', rfl⟩ := renews (by rw [Absent]; exact Option.isSome_iff_ne_none.mp leased)
    obtain ⟨current, present, same⟩ := passes
    rw [present] at found
    cases found
    exact ⟨epoch'', expires'', path, EtagScheme.injective same⟩
  · intro name old changed found
    rw [lookup] at changed
    split at changed
    · next shared =>
      rw [shared] at found
      rw [clock]
      exact (displaced found).symm.imp (fun ⟨epoch, expires, own⟩ => ⟨epoch, expires, path, own⟩) id
    · exact (changed rfl).elim
  · intro name new changed found
    rw [lookup] at changed found
    split at found
    · cases found
      exact ⟨epoch, expires, path, rfl⟩
    · next different => rw [if_neg different] at changed; exact (changed rfl).elim

theorem record_error {path : String} {body : Bytes} {cond : Precondition} {t u : Node F} {e : S3Error}
    (coherent : Coherent ids member t)
    (effect : (contract ids member).effect (.request (.put (lockKey path) body cond)) t (.error e) u) :
    Fair ids member (.request (.put (lockKey path) body cond)) t (.error e) u ∧ Idle (ids member) t u ∧
      u.state.manager = t.state.manager ∧
      ∀ object, u.state.store.objects.lookup (lockKey path) = some object → cond ≠ .ifMatch object.etag := by
  obtain ⟨⟨turn, truthful, answer, later⟩, logged⟩ := node_effect effect
  rw [act_request truthful] at answer later
  rcases t.state.store.put_cases (lockKey path) body cond with ⟨-, stored⟩ | ⟨fails, _, failed⟩
  · rw [show t.state.store.serve (.put (lockKey path) body cond) = _ from stored] at answer
    cases answer
  rw [show t.state.store.serve (.put (lockKey path) body cond) = _ from failed] at later
  have idle : Idle (ids member) t u := by
    refine .same (fun name epoch expires => ?_) (by rw [later]) (by rw [later]) (by rw [later])
    rw [logged]
    refine latest_skip fun _ _ wrote => ?_
    obtain ⟨-, -, etag, answered⟩ := wrote
    cases answered
  refine ⟨⟨idle.now, coherent.idle idle, ?_, fun name _ changed => (changed (idle.store name)).elim,
    fun name _ changed => (changed (idle.store name)).elim⟩, idle, by rw [later], ?_⟩
  · intro name _ _ object _ _ _ found changed
    rw [later] at changed
    exact (changed found).elim
  · rintro object found rfl
    rw [later] at found
    exact fails ⟨object, found, rfl⟩

theorem removed {path lockEtag : String} {t u : Node F} {reply : Except S3Error Unit}
    (coherent : Coherent ids member t) (resting : Resting path t)
    (own : ∃ epoch expires, lockEtag = etagFor (recordOf (ids member) epoch expires path))
    (effect : (contract ids member).effect (.request (.delete (lockKey path) (.ifMatch lockEtag))) t reply u) :
    Fair ids member (.request (.delete (lockKey path) (.ifMatch lockEtag))) t reply u ∧
      u.state.manager = t.state.manager := by
  obtain ⟨⟨turn, truthful, -, later⟩, logged⟩ := node_effect effect
  rw [act_request truthful] at later
  have manager : u.state.manager = t.state.manager := by rw [later]
  have now : u.state.now = t.state.now := by rw [later]
  have latest (name : String) (epoch expires : Nat) :
      Latest (ids member) name epoch expires u.log ↔ Latest (ids member) name epoch expires t.log := by
    rw [logged]
    exact latest_skip fun _ _ => id
  rcases t.state.store.delete_cases (lockKey path) (.ifMatch lockEtag) with ⟨⟨current, present, tag⟩, erased⟩ | kept
  -- The deleted version is this member's own record, as its tag says.
  · obtain ⟨epoch, expires, same⟩ := own
    have mine : current.data = recordOf (ids member) epoch expires path := EtagScheme.injective (tag.trans same)
    have lookup (name : String) : u.state.store.objects.lookup (lockKey name) =
        if lockKey name = lockKey path then none else t.state.store.objects.lookup (lockKey name) := by
      rw [later, show t.state.store.serve (.delete (lockKey path) _) = _ from erased]
      exact Map.lookup_erase_eq ..
    refine ⟨⟨now.ge, ⟨fun name object found => ?_, by rw [manager]; exact coherent.backed, ?_⟩, ?_, ?_, ?_⟩, manager⟩
    · rw [lookup] at found
      split at found
      · cases found
      · exact coherent.lawful name object found
    · intro name lease epoch' expires' found live latest' fresh
      rw [manager] at found
      rw [now] at fresh
      obtain ⟨object, stored, same'⟩ :=
        coherent.held name lease epoch' expires' found live ((latest ..).mp latest') fresh
      -- No live lease of this member is for the path whose record is gone.
      by_cases shared : lockKey name = lockKey path
      · rw [shared, present] at stored
        cases stored
        obtain ⟨-, -, -, rfl⟩ := LockRecord.encode_inj (same'.symm.trans mine)
        exact (resting lease found live).elim
      · exact ⟨object, by rw [lookup, if_neg shared]; exact stored, same'⟩
    · intro name object _ found _
      obtain rfl := Option.some.inj (present.symm.trans found)
      exact ⟨epoch, expires, path, mine⟩
    · intro name old changed found
      rw [lookup] at changed
      split at changed
      · next shared =>
        rw [shared, present] at found
        cases found
        exact .inl ⟨epoch, expires, path, mine⟩
      · exact (changed rfl).elim
    · intro name new changed found
      rw [lookup] at changed found
      split at found
      · cases found
      · next different => rw [if_neg different] at changed; exact (changed rfl).elim
  -- The store has another version, and keeps it.
  · have store : u.state.store = t.state.store := by rw [later]; exact kept
    have idle : Idle (ids member) t u := .same latest now store (by rw [manager])
    refine ⟨⟨idle.now, coherent.idle idle, fun name object _ found changed => ?_,
      fun name _ changed => (changed (idle.store name)).elim,
      fun name _ changed => (changed (idle.store name)).elim⟩, manager⟩
    rw [store] at changed
    exact (changed found).elim

/-! ### The programs -/

variable {A : Type} {post : A → Node F → Prop}

theorem safe_unlocked {holds : Node F → Prop} (closed : Closed ids member holds) {op : Op F}
    {k : op.Reply → Task F A} (unlocked : Op.Unlocked op) (coherent : Coherent ids member s) (here : holds s)
    (rest : ∀ t reply u, (contract ids member).effect op t reply u → holds t → Coherent ids member u → holds u →
      (contract ids member).Safe post (k reply) u) :
    (contract ids member).Safe post (next op k) s :=
  Contract.safe_call fun t moves => by
    obtain ⟨coherent, here⟩ := closed.keeps.stable ⟨coherent, here⟩ moves
    refine ⟨trivial, fun reply u effect => ?_⟩
    obtain ⟨fair, coherent', here'⟩ := closed.keeps.step unlocked ⟨coherent, here⟩ effect
    exact ⟨fair, rest t reply u effect here coherent' here'⟩

/-- A program off the lock path keeps what it finds. -/
theorem data_safe {holds : Node F → Prop} (closed : Closed ids member holds) {task : Task F A}
    (data : OnData True task) (coherent : Coherent ids member s) (here : holds s) :
    (contract ids member).Safe (fun _ t => Coherent ids member t ∧ holds t) task s :=
  closed.keeps.safe (data.mono data_unlocked) ⟨coherent, here⟩

theorem safe_return {holds : Node F → Prop} (closed : Closed ids member holds) (coherent : Coherent ids member s)
    (here : holds s) (value : A) :
    (contract ids member).Safe (fun _ t => Coherent ids member t ∧ holds t) (pure value : Task F A) s :=
  Contract.safe_done fun _ moves => ⟨coherent.others moves, closed.others here moves⟩

/-- Nothing on the path was written by this member. -/
def Vacant (id : InstanceId) (path : String) (s : Node F) : Prop :=
  ∀ object, s.state.store.objects.lookup (lockKey path) = some object → ¬ Authored id object.data

omit [FsBackend F] in
theorem closed_vacant (path : String) : Closed (F := F) ids member (Vacant (ids member) path) where
  others here moves object found own := here object (moves.unwritten path object found own) own
  idle here idle object found := here object (by rw [← idle.store]; exact found)

theorem verifyLeaseLanded_safe {path : String} (epoch : Nat) (coherent : Coherent ids member s)
    (vacant : Vacant (ids member) path s) (absent : Absent path s) :
    (contract ids member).Safe (fun landed t => (Coherent ids member t ∧ Absent path t) ∧ landed = none)
      (verifyLeaseLanded (F := F) (lockKey path) (ids member) epoch) s := by
  have done (landed : Option String) {u : Node F} (coherent : Coherent ids member u) (absent : Absent path u)
      (nothing : landed = none) : (contract ids member).Safe
        (fun landed t => (Coherent ids member t ∧ Absent path t) ∧ landed = none) (pure landed : Task F _) u :=
    Contract.safe_done fun v moves =>
      ⟨⟨coherent.others moves, (closed_absent path).others absent moves⟩, nothing⟩
  simp only [verifyLeaseLanded, getObject_bind]
  refine safe_unlocked ((closed_vacant path).and (closed_absent path)) (fun _ same => by cases same) coherent ⟨vacant, absent⟩
    fun t reply u effect before coherent' after => ?_
  obtain ⟨⟨turn, truthful, answer, later⟩, -⟩ := node_effect effect
  rw [act_request truthful] at answer later
  have store : u.state.store = t.state.store := by rw [later]; rfl
  split
  · next body info =>
    obtain ⟨object, found, same⟩ := Option.map_eq_some_iff.mp (Except.ok.inj answer.symm)
    obtain ⟨rfl, -⟩ := Prod.mk.inj same
    split
    · next record read =>
      refine done _ coherent' after.2 (if_neg fun own => ?_)
      have lawful := coherent'.lawful path object (by rw [store]; exact found)
      exact before.1 object found (lawful.own read own.1)
    · exact done _ coherent' after.2 rfl
  · exact done _ coherent' after.2 rfl

omit [FsBackend F] in
theorem closed_entitled (path : String) (cond : Precondition) :
    Closed (F := F) ids member fun s => Entitled (ids member) path s.state.now cond := by
  have later {now later : Nat} (moves : now ≤ later) (entitled : Entitled (ids member) path now cond) :
      Entitled (ids member) path later cond := by
    cases cond with
    | none => exact entitled
    | ifNoneMatchAny => trivial
    | ifMatch etag =>
      obtain ⟨body, same, may⟩ := entitled
      exact ⟨body, same, may.imp_left (·.later moves)⟩
  exact ⟨fun here moves => later moves.now here, fun here idle => later idle.now here⟩

/-- What is known after an acquisition. -/
def Granted (ids : T → InstanceId) (member : T) (path : String) (acquired : Acquired) (s : Node F) : Prop :=
  acquired.epoch < 2 ^ 64 ∧ Recorded (ids member) path acquired.lockEtag s

omit [FsBackend F] in
theorem closed_granted (path : String) (acquired : Acquired) :
    Closed (F := F) ids member (Granted ids member path acquired) :=
  ⟨fun here moves => ⟨here.1, (closed_recorded path acquired.lockEtag).others here.2 moves⟩,
    fun here idle => ⟨here.1, (closed_recorded path acquired.lockEtag).idle here.2 idle⟩⟩

theorem writeRecord_safe {path : String} {epoch lease : Nat} {cond : Precondition} (epochBound : epoch < 2 ^ 64)
    (reads : ReadsBack ids member path) (coherent : Coherent ids member s) (absent : Absent path s)
    (sole : Sole (ids member) path cond s) (entitled : Entitled (ids member) path s.state.now cond) :
    (contract ids member).Safe (fun result t => (Coherent ids member t ∧ Absent path t) ∧
      ∀ acquired, result = .ok acquired → Granted ids member path acquired t)
      (writeRecord (F := F) (ids member) path epoch lease cond) s := by
  have closed := (closed_absent (F := F) path).and ((closed_sole path cond).and (closed_entitled path cond : Closed ids member _))
  simp only [writeRecord, instant_bind, putObject_bind]
  refine safe_unlocked closed trivial coherent ⟨absent, sole, entitled⟩ fun _ now t _ _ coherent here => ?_
  refine safe_unlocked closed trivial coherent here fun _ start u _ _ coherent here => ?_
  refine Contract.safe_call fun v moves => ⟨trivial, fun reply w effect => ?_⟩
  obtain ⟨absent, sole, entitled⟩ := closed.others here moves
  have coherent := coherent.others moves
  have bound : (now + lease) % 2 ^ 64 < 2 ^ 64 := Nat.mod_lt _ (Nat.two_pow_pos 64)
  rcases (reply : Except S3Error String) with e | lockEtag
  -- Without an answer the record is looked for.
  · obtain ⟨fair, idle, manager, fails⟩ := record_error coherent effect
    have vacant : Vacant (ids member) path w := fun object found own =>
      fails object found ((closed_sole path cond).idle sole idle object found own)
    refine ⟨fair, ?_⟩
    refine (verifyLeaseLanded_safe epoch fair.coherent vacant ((closed_absent path).idle absent idle)).bind
      fun landed x done => ?_
    rw [done.2]
    exact Contract.safe_done fun y moves => ⟨⟨done.1.1.others moves, (closed_absent path).others done.1.2 moves⟩,
      fun _ same => by cases same⟩
  · obtain ⟨fair, manager, recorded⟩ := record_ok epochBound bound reads coherent entitled
      (fun present => (present absent).elim) effect
    have absent' : Absent path w := by rw [Absent, manager]; exact absent
    refine ⟨fair, Contract.safe_done fun x moves => ⟨⟨fair.coherent.others moves,
      (closed_absent path).others absent' moves⟩, fun acquired same => ?_⟩⟩
    obtain rfl := Except.ok.inj same
    exact (closed_granted path _).others ⟨epochBound, recorded⟩ moves

theorem attempt_safe {path : String} {lease : Nat} (reads : ReadsBack ids member path)
    (coherent : Coherent ids member s) (absent : Absent path s) (holder : Option String) :
    (contract ids member).Safe (fun result t => (Coherent ids member t ∧ Absent path t) ∧
      ∀ acquired, result = .acquired acquired → Granted ids member path acquired t)
      (attempt (F := F) (ids member) path lease holder) s := by
  have refused (result : Attempt) {u : Node F} (here : Coherent ids member u ∧ Absent path u)
      (other : ∀ acquired, result ≠ .acquired acquired) : (contract ids member).Safe
        (fun result t => (Coherent ids member t ∧ Absent path t) ∧
          ∀ acquired, result = .acquired acquired → Granted ids member path acquired t)
        (pure result : Task F Attempt) u :=
    Contract.safe_done fun v moves => ⟨⟨here.1.others moves, (closed_absent path).others here.2 moves⟩,
      fun acquired same => (other acquired same).elim⟩
  have accepted (acquired : Acquired) {u : Node F} (here : Coherent ids member u ∧ Absent path u)
      (granted : Granted ids member path acquired u) : (contract ids member).Safe
        (fun result t => (Coherent ids member t ∧ Absent path t) ∧
          ∀ acquired, result = .acquired acquired → Granted ids member path acquired t)
        (pure (.acquired acquired) : Task F Attempt) u :=
    Contract.safe_done fun v moves => ⟨⟨here.1.others moves, (closed_absent path).others here.2 moves⟩,
      fun _ same => by cases same; exact (closed_granted path acquired).others granted moves⟩
  simp only [attempt, getObject_bind]
  refine safe_unlocked (closed_absent path) (fun _ same => by cases same) coherent absent fun t reply u effect _ coherent absent => ?_
  obtain ⟨⟨turn, truthful, answer, later⟩, -⟩ := node_effect effect
  rw [act_request truthful] at answer later
  have store : u.state.store = t.state.store := by rw [later]; rfl
  split
  · exact refused _ ⟨coherent, absent⟩ fun _ same => by cases same
  · -- no record: create one, if it is still missing
    have missing : t.state.store.objects.lookup (lockKey path) = none :=
      Option.map_eq_none_iff.mp (Except.ok.inj answer.symm)
    have sole : Sole (ids member) path .ifNoneMatchAny u := fun object found => by
      rw [store, missing] at found
      cases found
    refine (writeRecord_safe (by decide) reads coherent absent sole trivial).bind fun written v done => ?_
    rcases written with e | acquired
    · dsimp only
      split <;> exact refused _ done.1 fun _ same => by cases same
    · exact accepted acquired done.1 (done.2 acquired rfl)
  · next body info =>
    -- a record: take it over if it has expired, on the version that was read
    obtain ⟨object, found, same⟩ := Option.map_eq_some_iff.mp (Except.ok.inj answer.symm)
    obtain ⟨rfl, rfl⟩ := Prod.mk.inj same
    have sole : Sole (ids member) path (.ifMatch (object.meta (lockKey path)).etag) u := fun current present _ => by
      rw [store, found] at present
      cases present
      rfl
    simp only [instant_bind]
    refine safe_unlocked ((closed_absent path).and (closed_sole path _)) trivial coherent ⟨absent, sole⟩
      fun v now w effect _ coherent here => ?_
    obtain ⟨⟨_, -, read, later'⟩, -⟩ := node_effect effect
    have clock : now = w.state.now := by rw [later']; exact read
    split
    · next expired =>
      have takeable : Takeable object.data w.state.now := by
        intro record parsed
        rw [parsed, Option.all_some] at expired
        exact clock ▸ of_decide_eq_true expired
      have bound : takeoverEpoch (LockRecord.parse object.data) < 2 ^ 64 := by
        unfold takeoverEpoch
        split
        · exact Nat.mod_lt _ (Nat.two_pow_pos 64)
        · decide
      refine (writeRecord_safe bound reads coherent here.1 here.2 ⟨object.data, rfl, .inl takeable⟩).bind
        fun written x done => ?_
      rcases written with e | acquired
      · dsimp only
        split <;> exact refused _ done.1 fun _ same => by cases same
      · exact accepted acquired done.1 (done.2 acquired rfl)
    · exact refused _ ⟨coherent, here.1⟩ fun _ same => by cases same

theorem acquireLoop_safe {path : String} {lease deadline : Nat} (reads : ReadsBack ids member path)
    (attempts backoff : Nat) (holder : Option String) (coherent : Coherent ids member s) (absent : Absent path s) :
    (contract ids member).Safe (fun result t => (Coherent ids member t ∧ Absent path t) ∧
      ∀ acquired, result = .ok acquired → Granted ids member path acquired t)
      (acquireLoop (F := F) (ids member) path lease deadline attempts backoff holder) s := by
  have refused (e : SyncError) {u : Node F} (coherent : Coherent ids member u) (absent : Absent path u) :
      (contract ids member).Safe (fun result t => (Coherent ids member t ∧ Absent path t) ∧
        ∀ acquired, result = .ok acquired → Granted ids member path acquired t)
        (pure (.error e) : Task F (Except SyncError Acquired)) u :=
    Contract.safe_done fun v moves => ⟨⟨coherent.others moves, (closed_absent path).others absent moves⟩,
      fun _ same => by cases same⟩
  induction attempts generalizing s backoff holder with
  | zero => exact fun _ _ => trivial
  | succ attempts ih =>
    refine (attempt_safe reads coherent absent holder).bind fun result t done => ?_
    cases result with
    | acquired acquired =>
      exact Contract.safe_done fun u moves => ⟨⟨done.1.1.others moves, (closed_absent path).others done.1.2 moves⟩,
        fun _ same => by cases same; exact (closed_granted path acquired).others (done.2 acquired rfl) moves⟩
    | failed e => exact refused e done.1.1 done.1.2
    | held holder =>
      simp only [instant_bind]
      refine safe_unlocked (closed_absent path) trivial done.1.1 done.1.2 fun _ now u _ _ coherent absent => ?_
      split
      · exact refused _ coherent absent
      · simp only [jitter_bind, wake_bind]
        refine safe_unlocked (closed_absent path) trivial coherent absent fun _ extra v _ _ coherent absent => ?_
        exact safe_unlocked (closed_absent path) trivial coherent absent fun _ _ w _ _ coherent absent =>
          ih _ holder coherent absent

theorem acquire_safe {path : String} (lease timeout : Nat) (reads : ReadsBack ids member path)
    (coherent : Coherent ids member s) (absent : Absent path s) :
    (contract ids member).Safe (fun result t => (Coherent ids member t ∧ Absent path t) ∧
      ∀ acquired, result = .ok acquired → Granted ids member path acquired t)
      (acquire (F := F) (ids member) path lease timeout) s := by
  simp only [acquire, instant_bind]
  exact safe_unlocked (closed_absent path) trivial coherent absent fun _ start t _ _ coherent absent =>
    acquireLoop_safe reads _ _ _ coherent absent

/-- A release needs an ETag of an own record and a lease nobody counts on. -/
theorem release_safe {path lockEtag : String} (coherent : Coherent ids member s) (resting : Resting path s)
    (own : ∃ epoch expires, lockEtag = etagFor (recordOf (ids member) epoch expires path)) :
    (contract ids member).Safe (fun _ t => Coherent ids member t) (release (F := F) path lockEtag) s := by
  simp only [release, deleteObject_bind]
  refine Contract.safe_call fun t moves => ⟨trivial, fun reply u effect => ?_⟩
  obtain ⟨fair, -⟩ := removed (coherent.others moves) ((closed_resting path).others resting moves) own effect
  exact ⟨fair, Contract.safe_done fun v moves => fair.coherent.others moves⟩

end
end MonakaFs.Sync.Mutex
