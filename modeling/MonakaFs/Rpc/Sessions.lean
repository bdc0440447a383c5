import MonakaFs.Async.Events
import MonakaFs.Rpc.Handling

/-! Who opened which descriptor, and what a disconnect leaves behind.

The server records descriptors for sessions, and a connection has a session only after
`Connect`. A ghost log says which connection opened a descriptor.
-/

set_option autoImplicit false

namespace MonakaFs.Rpc

open FsCore Async ServerContext

variable {C T : Type}

/-- The server, and every descriptor it handed out with the connection that asked for it. -/
structure Watched (C T : Type) where
  server : Server C T
  opened : List (C × Fd)

namespace Watched

section
variable [DecidableEq C] [TimeProvider T] [Target]

def step (watched : Watched C T) (event : Event C T) : Watched C T :=
  let stepped := watched.server.step event
  ⟨stepped.2,
    match event, stepped.1 with
    | .request client _ _ _, some (.fd fd) => (client, fd) :: watched.opened
    | _, _ => watched.opened⟩

/-- A server with nobody connected. -/
def start (fs : Fs T) (readFromS3 metadataSync : Bool) : Watched C T :=
  ⟨⟨⟨fs, ∅, ∅, [], [], readFromS3, metadataSync⟩, fun _ => .waiting⟩, []⟩

/-- The event ends a connection, and after it all descriptors of that connection are
closed and forgotten, and those of the others are as they were. -/
def Cleans (watched : Watched C T) : Event C T → Prop
  | .disconnect client traversal sync =>
      let later := (watched.step (.disconnect client traversal sync)).server.ctx
      (∀ fd, (client, fd) ∈ watched.opened → later.fs.holder fd = none ∧ ¬ later.Listed fd) ∧
        ∀ other fd, other ≠ client → (other, fd) ∈ watched.opened → later.fs.holder fd = watched.server.ctx.fs.holder fd
  | _ => True

/-- The sync manager is tidy and the numbers last through the event. -/
def Roomy (ctx : ServerContext T) (sync : Option (SyncManager T)) : Prop :=
  ∃ n, (∀ manager ∈ sync, Tidy n manager) ∧ ctx.fs.nextFd + n * (ctx.sessionFds.length + 1) + 1 < 2 ^ 32

/-- A request that keeps the records of its connection complete. -/
structure Attached (watched : Watched C T) (client : C) (sessionId : Option String) (request : Request) (newSessionId : String)
    (sync : Option (SyncManager T)) : Prop where
  /-- No descriptor is handed out before `Connect`. -/
  opens : sessionId = none → ∀ fd, (watched.server.ctx.handleRequest sync request sessionId newSessionId).1 ≠ .fd fd
  /-- The session is not changed while it has descriptors, and a new one is new. -/
  connects : ∀ version, request = .connect version → (negotiateVersion version).isSome →
    (∀ sid ∈ sessionId, watched.server.ctx.fdsOf sid = []) ∧
      ∀ other, other ≠ client → watched.server.clients other ≠ .connected (some newSessionId)
  /-- With read-through, nothing is read through a descriptor that was closed. -/
  reads : ∀ fd length, request = .read fd length → watched.server.ctx.readFromS3 → ∀ other, (other, fd) ∈ watched.opened →
    (watched.server.ctx.fs.holder fd).isSome

def Orderly (watched : Watched C T) : Event C T → Prop
  | .accept _ => True
  | .request client request newSessionId sync => ∀ sessionId, watched.server.clients client = .connected sessionId →
      Roomy watched.server.ctx sync ∧ watched.Attached client sessionId request newSessionId sync
  | .maybeSync sync => Roomy watched.server.ctx (some sync)
  | .disconnect _ _ sync => Roomy watched.server.ctx sync

end

/-- Every open descriptor is recorded for the session of the connection that opened it. -/
structure Owned (watched : Watched C T) : Prop where
  below : ∀ client fd, (client, fd) ∈ watched.opened → fd < watched.server.ctx.fs.nextFd
  one : ∀ client other fd, (client, fd) ∈ watched.opened → (other, fd) ∈ watched.opened → client = other
  recorded : ∀ client fd, (client, fd) ∈ watched.opened → (watched.server.ctx.fs.holder fd).isSome →
    ∃ sid, watched.server.clients client = .connected (some sid) ∧ (sid, fd) ∈ watched.server.ctx.sessionFds
  mine : ∀ sid fd, (sid, fd) ∈ watched.server.ctx.sessionFds →
    ∃ client, (client, fd) ∈ watched.opened ∧ watched.server.clients client = .connected (some sid)
  listed : ∀ client fd, (client, fd) ∈ watched.opened → watched.server.ctx.Listed fd → (watched.server.ctx.fs.holder fd).isSome
  apart : ∀ client other sid, watched.server.clients client = .connected (some sid) →
    watched.server.clients other = .connected (some sid) → client = other

variable {watched : Watched C T} {ctx later : ServerContext T} {clients : C → Client} {n : Nat} {closed marked : List Fd}
  {client : C} {opened : List (C × Fd)}

/-- What happens beside the connections keeps the records. -/
theorem Owned.settles (owned : Owned ⟨⟨ctx, clients⟩, opened⟩) (settles : Settles n closed marked ctx later)
    (reads : ∀ fd ∈ marked, ∀ client, (client, fd) ∈ opened → (ctx.fs.holder fd).isSome) :
    Owned ⟨⟨later, clients⟩, opened⟩ where
  below client fd logged := lt_of_lt_of_le (owned.below client fd logged) settles.grows
  one := owned.one
  recorded client fd logged held := by
    dsimp only at held ⊢
    rw [settles.held fd (owned.below client fd logged)] at held
    split at held
    · cases held
    · next out =>
      obtain ⟨sid, connected, within⟩ := owned.recorded client fd logged held
      exact ⟨sid, connected, (settles.sessions sid fd).mpr ⟨within, out⟩⟩
  mine sid fd within := owned.mine sid fd ((settles.sessions sid fd).mp within).1
  listed client fd logged listed := by
    obtain ⟨before, out⟩ := settles.listed fd listed
    dsimp only
    rw [settles.held fd (owned.below client fd logged), if_neg out]
    exact before.elim (owned.listed client fd logged) fun read => reads fd read client logged
  apart := owned.apart

theorem Owned.registers {fd : Fd} {sid : String} (owned : Owned ⟨⟨ctx, clients⟩, opened⟩)
    (registers : Registers fd (some sid) ctx later) (connected : clients client = .connected (some sid)) :
    Owned ⟨⟨later, clients⟩, (client, fd) :: opened⟩ := by
  -- All descriptors that were recorded are below the next one.
  have older {other : C} {fd' : Fd} (logged : (other, fd') ∈ opened) : fd' < ctx.fs.nextFd := owned.below other fd' logged
  have differs {other : C} {fd' : Fd} (logged : (other, fd') ∈ opened) : fd' ≠ fd :=
    Nat.ne_of_lt (lt_of_lt_of_le (older logged) registers.fresh)
  have same {other : C} {fd' : Fd} (logged : (other, fd') ∈ opened) : later.fs.holder fd' = ctx.fs.holder fd' :=
    registers.held fd' (older logged)
  refine ⟨fun other fd' logged => ?_, fun first second fd' logged logged' => ?_, fun other fd' logged held => ?_,
    fun sid' fd' within => ?_, fun other fd' logged listed => ?_, owned.apart⟩
  · show fd' < later.fs.nextFd
    rw [registers.next]
    rcases List.mem_cons.mp logged with new | old
    · cases new
      exact Nat.lt_succ_self _
    · exact Nat.lt_succ_of_lt (lt_of_lt_of_le (older old) registers.fresh)
  · rcases List.mem_cons.mp logged with new | old
    · cases new
      rcases List.mem_cons.mp logged' with new' | old'
      · cases new'
        rfl
      · exact absurd rfl (differs old')
    · rcases List.mem_cons.mp logged' with new' | old'
      · cases new'
        exact absurd rfl (differs old)
      · exact owned.one first second fd' old old'
  · rcases List.mem_cons.mp logged with new | old
    · cases new
      exact ⟨sid, connected, (registers.sessions sid fd).mpr (.inr ⟨rfl, rfl⟩)⟩
    · dsimp only at held
      rw [same old] at held
      obtain ⟨sid', connected', within⟩ := owned.recorded other fd' old held
      exact ⟨sid', connected', (registers.sessions sid' fd').mpr (.inl within)⟩
  · rcases (registers.sessions sid' fd').mp within with old | ⟨session, rfl⟩
    · obtain ⟨other, logged, connected'⟩ := owned.mine sid' fd' old
      exact ⟨other, List.mem_cons_of_mem _ logged, connected'⟩
    · cases session
      exact ⟨client, List.mem_cons_self, connected⟩
  · rcases List.mem_cons.mp logged with new | old
    · cases new
      exact registers.opened
    · dsimp only
      rw [same old]
      exact owned.listed other fd' old ((registers.listed fd' listed).resolve_right (differs old))

variable [DecidableEq C]

/-- A connection that has no descriptors may change its session, or end. -/
theorem Owned.moves (owned : Owned ⟨⟨ctx, clients⟩, opened⟩) (now : Client)
    (free : ∀ sid, clients client = .connected (some sid) → ∀ fd, (sid, fd) ∉ ctx.sessionFds)
    (fresh : ∀ sid, now = .connected (some sid) → ∀ other, other ≠ client → clients other ≠ .connected (some sid)) :
    Owned ⟨⟨ctx, Function.update clients client now⟩, opened⟩ where
  below := owned.below
  one := owned.one
  recorded other fd logged held := by
    obtain ⟨sid, connected, within⟩ := owned.recorded other fd logged held
    refine ⟨sid, ?_, within⟩
    dsimp only
    rw [Function.update_of_ne]
    · exact connected
    -- The client that changes has no open descriptor in its session.
    · rintro rfl
      exact free sid connected fd within
  mine sid fd within := by
    obtain ⟨other, logged, connected⟩ := owned.mine sid fd within
    refine ⟨other, logged, ?_⟩
    dsimp only
    rw [Function.update_of_ne]
    · exact connected
    · rintro rfl
      exact free sid connected fd within
  listed := owned.listed
  apart first second sid connected connected' := by
    dsimp only at connected connected'
    rw [Function.update_apply] at connected connected'
    split at connected
    · next same =>
      split at connected'
      · next same' => rw [same, same']
      · next different => exact absurd connected' (fresh sid connected second different)
    · next different =>
      split at connected'
      · exact absurd connected (fresh sid connected' first different)
      · exact owned.apart first second sid connected connected'

/-- The descriptors of the session are closed, and nothing else happens to descriptors. -/
theorem disconnected_settles {server : Server C T} {sync : Option (SyncManager T)} (roomy : Roomy server.ctx sync) (client : C)
    (sessionId : Option String) (traversal : Traversal Fd) :
    ∃ n closed, (∀ fd, fd ∈ closed ↔ ∃ sid ∈ sessionId, (sid, fd) ∈ server.ctx.sessionFds) ∧
      Settles n closed [] server.ctx (server.disconnected client sessionId traversal sync).ctx := by
  obtain ⟨n, tidy, room⟩ := roomy
  have room' : server.ctx.fs.nextFd + n * server.ctx.sessionFds.length + n < 2 ^ 32 := by
    rw [Nat.mul_succ, ← Nat.add_assoc] at room
    exact Nat.lt_of_succ_lt room
  have flushed {closed : List Fd} {later : ServerContext T}
      (settles : Settles (n * server.ctx.sessionFds.length) closed [] server.ctx later) :
      Settles (n * server.ctx.sessionFds.length + n) closed [] server.ctx (later.flushPending sync) := by
    have both := settles.trans (flushPending_settles tidy (lt_of_le_of_lt (Nat.add_le_add_right settles.few n) room'))
    rw [List.append_nil] at both
    exact both
  unfold Server.disconnected
  cases sessionId with
  | none => exact ⟨_, [], by simp, flushed ((Settles.refl server.ctx).mono (Nat.zero_le _))⟩
  | some sid =>
    obtain ⟨closed, recorded, settles⟩ :=
      closeSession_settles tidy (lt_of_le_of_lt (Nat.le_add_right _ n) room') traversal sid
    exact ⟨_, closed, fun fd => (recorded fd).trans (by simp), flushed settles⟩

variable [TimeProvider T] [Target] {event : Event C T}

theorem step_owned (orderly : watched.Orderly event) (owned : Owned watched) : Owned (watched.step event) := by
  obtain ⟨⟨ctx, clients⟩, opened⟩ := watched
  cases event with
  | accept client =>
    unfold step Server.step
    dsimp only
    split
    · next waiting =>
      refine owned.moves _ (fun sid connected => ?_) (fun sid connected => by cases connected)
      cases waiting.symm.trans connected
    · exact owned
  | request client request newSessionId sync =>
    cases now : clients client with
    | connected sessionId =>
      obtain ⟨⟨n, tidy, room⟩, attached⟩ := orderly sessionId now
      have single : ctx.fs.nextFd + n + 1 < 2 ^ 32 :=
        lt_of_le_of_lt (Nat.add_le_add_right (Nat.add_le_add_left (Nat.le_mul_of_pos_right n (Nat.succ_pos _)) _) 1) room
      have handled := handleRequest_handled tidy single request sessionId newSessionId
      have opens := attached.opens
      have connects := attached.connects
      unfold step Server.step
      dsimp only at opens connects ⊢
      rw [now]
      dsimp only
      cases result : ctx.handleRequest sync request sessionId newSessionId with
      | mk response later =>
      rw [result] at handled opens
      cases handled with
      | @connected version negotiated accepted =>
        obtain ⟨free, fresh⟩ := connects version rfl accepted
        refine owned.moves (.connected (some newSessionId)) (fun sid connected fd within => ?_) (fun sid same other different => ?_)
        -- A session that is new has no descriptors.
        · cases now.symm.trans connected
          have listed := mem_fdsOf.mpr within
          rw [free sid rfl] at listed
          cases listed
        · cases same
          exact fresh other different
      | opened fd registers =>
        -- Without a session nothing is opened.
        cases sessionId with
        | none => exact absurd rfl (opens rfl fd)
        | some sid => exact owned.registers registers now
      | settled closed marked answered settles reads =>
        -- With read-through a read lists its descriptor, which is open then.
        have kept := owned.settles settles fun fd within other logged => by
          obtain ⟨⟨length, rfl⟩, through⟩ := reads fd within
          exact attached.reads fd length rfl through other logged
        cases response with
        | fd _ => cases answered
        | connected _ _ => cases answered
        | _ => exact kept
    | waiting =>
      unfold step Server.step
      dsimp only
      rw [now]
      exact owned
    | gone =>
      unfold step Server.step
      dsimp only
      rw [now]
      exact owned
  | maybeSync sync =>
    obtain ⟨n, tidy, room⟩ := orderly
    have single : ctx.fs.nextFd + n < 2 ^ 32 :=
      lt_of_le_of_lt (Nat.add_le_add_left (Nat.le_mul_of_pos_right n (Nat.succ_pos _)) _) (Nat.lt_of_succ_lt room)
    exact owned.settles (.of_spares ((tidy sync rfl).maybeSync ctx.fs single)) fun _ within => absurd within List.not_mem_nil
  | disconnect client traversal sync =>
    cases now : clients client with
    | connected sessionId =>
      obtain ⟨n, closed, recorded, settles⟩ := disconnected_settles orderly client sessionId traversal
      unfold step Server.step
      dsimp only
      rw [now]
      have shut := owned.settles settles fun _ within => absurd within List.not_mem_nil
      refine shut.moves .gone (fun sid connected fd within => ?_) (fun sid connected => by cases connected)
      -- All descriptors of the session are closed with its connection.
      cases now.symm.trans connected
      obtain ⟨before, out⟩ := (settles.sessions sid fd).mp within
      exact out ((recorded fd).mpr ⟨sid, rfl, before⟩)
    | waiting =>
      unfold step Server.step
      dsimp only
      rw [now]
      exact owned
    | gone =>
      unfold step Server.step
      dsimp only
      rw [now]
      exact owned

/-- A disconnect in a state with complete records. -/
theorem Owned.cleans (owned : Owned watched) (orderly : watched.Orderly event) : watched.Cleans event := by
  cases event with
  | accept => trivial
  | request => trivial
  | maybeSync => trivial
  | disconnect client traversal sync =>
    obtain ⟨⟨ctx, clients⟩, opened⟩ := watched
    -- without a session in the records, all descriptors of the connection are closed already
    have idle (free : ∀ sid, clients client ≠ .connected (some sid)) (fd : Fd) (logged : (client, fd) ∈ opened) :
        ctx.fs.holder fd = none := by
      by_contra held
      obtain ⟨sid, connected, -⟩ := owned.recorded client fd logged (Option.isSome_iff_ne_none.mpr held)
      exact free sid connected
    have unlisted {fd : Fd} (logged : (client, fd) ∈ opened) (shut : ctx.fs.holder fd = none) : ¬ ctx.Listed fd := by
      intro listed
      have held := owned.listed client fd logged listed
      dsimp only at held
      rw [shut] at held
      cases held
    unfold Cleans step Server.step
    dsimp only
    cases now : clients client with
    | waiting =>
      have free (sid : String) : clients client ≠ .connected (some sid) := by
        rw [now]
        exact fun same => (by cases same)
      exact ⟨fun fd logged => ⟨idle free fd logged, unlisted logged (idle free fd logged)⟩, fun _ _ _ _ => rfl⟩
    | gone =>
      have free (sid : String) : clients client ≠ .connected (some sid) := by
        rw [now]
        exact fun same => (by cases same)
      exact ⟨fun fd logged => ⟨idle free fd logged, unlisted logged (idle free fd logged)⟩, fun _ _ _ _ => rfl⟩
    | connected sessionId =>
      obtain ⟨n, closed, recorded, settles⟩ := disconnected_settles orderly client sessionId traversal
      have own {fd : Fd} (logged : (client, fd) ∈ opened) (held : (ctx.fs.holder fd).isSome) : fd ∈ closed := by
        obtain ⟨sid, connected, within⟩ := owned.recorded client fd logged held
        cases now.symm.trans connected
        exact (recorded fd).mpr ⟨sid, rfl, within⟩
      refine ⟨fun fd logged => ⟨?_, fun listed => ?_⟩, fun other fd different logged => ?_⟩
      · refine (settles.held fd (owned.below client fd logged)).trans ?_
        split
        · rfl
        · next out =>
          by_contra held
          exact out (own logged (Option.isSome_iff_ne_none.mpr held))
      · obtain ⟨before, out⟩ := settles.listed fd listed
        exact out (own logged (owned.listed client fd logged (before.resolve_right List.not_mem_nil)))
      · refine (settles.held fd (owned.below other fd logged)).trans (if_neg fun within => different ?_)
        obtain ⟨sid, rfl, session⟩ := (recorded fd).mp within
        obtain ⟨owner, logged', connected⟩ := owned.mine sid fd session
        rw [owned.one other owner fd logged logged']
        exact owned.apart owner client sid connected now

omit [DecidableEq C] [TimeProvider T] [Target] in
theorem start_owned (fs : Fs T) (readFromS3 metadataSync : Bool) : Owned (start (C := C) fs readFromS3 metadataSync) where
  below _ _ logged := absurd logged List.not_mem_nil
  one _ _ _ logged := absurd logged List.not_mem_nil
  recorded _ _ logged := absurd logged List.not_mem_nil
  mine _ _ within := absurd within List.not_mem_nil
  listed _ _ logged := absurd logged List.not_mem_nil
  apart _ _ _ connected := by cases connected

/-- In every run in which connections open descriptors under one session each, a
disconnect closes and forgets all of them, and none that another connection opened. -/
theorem disconnect_cleans {events : List (Event C T)} {fs : Fs T} {readFromS3 metadataSync : Bool}
    (orderly : AtEveryEvent step Orderly events (start fs readFromS3 metadataSync)) :
    AtEveryEvent step Cleans events (start fs readFromS3 metadataSync) := by
  have owned := orderly.holds (fun watched event orderly owned => step_owned orderly owned) (start_owned fs readFromS3 metadataSync)
  exact owned.mono fun watched event met => met.1.cleans met.2

end Watched

/-! ### A connection that opens one file -/

/-- The descriptors of a session from the oldest on. -/
def oldestFirst : Traversal Fd := ⟨List.reverse, List.reverse_perm⟩

def connecting : List (Event Bool MonotonicCounter) :=
  [.accept false, .request false (.connect 2) "a" none, .request false (.openPath "/f" (O_WRONLY ||| O_CREAT)) "b" none,
    .disconnect false oldestFirst none]

theorem connecting_cleans :
    let _ : Target := .wasm32
    AtEveryEvent Watched.step Watched.Cleans connecting (Watched.start Fs.new false false) := by
  let _ : Target := .wasm32
  have roomy (ctx : ServerContext MonotonicCounter) (few : ctx.fs.nextFd + 1 < 2 ^ 32) : Watched.Roomy ctx none := by
    refine ⟨0, fun _ here => (by cases here), ?_⟩
    rw [Nat.zero_mul]
    exact few
  refine Watched.disconnect_cleans ⟨trivial, fun sessionId connected => ?_, fun sessionId connected => ?_, roomy _ (by decide), trivial⟩
  · cases connected
    refine ⟨roomy _ (by decide), ⟨fun _ fd same => (by cases same), fun version same _ => ⟨fun sid here => (by cases here), ?_⟩,
      fun _ _ same => (by cases same)⟩⟩
    intro other different connected
    cases other with
    | false => exact different rfl
    | true => cases connected
  · cases connected
    exact ⟨roomy _ (by decide), ⟨fun same => (by cases same), fun _ same => (by cases same), fun _ _ same => (by cases same)⟩⟩

/-- The same without `Connect`: the descriptor is open after its connection has ended. -/
theorem unconnected_leaks :
    let _ : Target := .wasm32
    let events : List (Event Bool MonotonicCounter) :=
      [.accept false, .request false (.openPath "/f" (O_WRONLY ||| O_CREAT)) "a" none, .disconnect false oldestFirst none]
    ¬ AtEveryEvent Watched.step Watched.Cleans events (Watched.start Fs.new false false) := by
  intro _ events cleans
  have shut := (cleans.2.2.1.1 3 List.mem_cons_self).1
  cases shut

end MonakaFs.Rpc
