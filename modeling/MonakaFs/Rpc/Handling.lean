import MonakaFs.FsCore.Isolation
import MonakaFs.Rpc.Server

/-! What a request does to the descriptors and to the server's maps of them. -/

set_option autoImplicit false

namespace MonakaFs.Rpc

open FsCore

variable {T : Type}

/-! ### The sync manager -/

/-- At most `n` numbers are taken, and the descriptors from before are as they were. -/
structure Spares (n : Nat) (fs later : Fs T) : Prop where
  grows : fs.nextFd ≤ later.nextFd
  few : later.nextFd ≤ fs.nextFd + n
  held : ∀ fd < fs.nextFd, later.holder fd = fs.holder fd

/-- Work on the filesystem through descriptors of its own, at most `n` of them. -/
def Modest (n : Nat) (work : Fs T → Fs T) : Prop := ∀ fs, fs.nextFd + n < 2 ^ 32 → Spares n fs (work fs)

/-- A sync manager that takes at most `n` descriptors whenever it is called, and leaves all others alone. -/
structure Tidy (n : Nat) (sync : SyncManager T) : Prop where
  onOpenWrite : ∀ path, Modest n fun fs => (sync.onOpenWrite path fs).2
  checkAndRefresh : ∀ path, Modest n (sync.checkAndRefresh path)
  refreshFile : ∀ path, Modest n (sync.refreshFile path)
  onClose : ∀ path, Modest n fun fs => (sync.onClose path fs).2
  onFsync : ∀ path, Modest n fun fs => (sync.onFsync path fs).2
  syncFileNow : ∀ path, Modest n (sync.syncFileNow path)
  onMkdir : ∀ path, Modest n (sync.onMkdir path)
  onRmdir : ∀ path, Modest n (sync.onRmdir path)
  maybeSync : Modest n sync.maybeSync
  forceFlush : Modest n sync.forceFlush

section
variable {n m : Nat} {fs middle later : Fs T}

theorem Spares.refl (n : Nat) (fs : Fs T) : Spares n fs fs := ⟨le_refl _, Nat.le_add_right _ _, fun _ _ => rfl⟩

theorem Spares.trans (first : Spares n fs middle) (second : Spares m middle later) : Spares (n + m) fs later := by
  have few : later.nextFd ≤ fs.nextFd + (n + m) :=
    le_trans second.few (le_trans (Nat.add_le_add_right first.few m) (le_of_eq (Nat.add_assoc ..)))
  refine ⟨le_trans first.grows second.grows, few, fun fd before => ?_⟩
  rw [second.held fd (lt_of_lt_of_le before first.grows), first.held fd before]

theorem Spares.mono (spares : Spares n fs later) (le : n ≤ m) : Spares m fs later :=
  ⟨spares.grows, le_trans spares.few (Nat.add_le_add_left le _), spares.held⟩

theorem Spares.of_holder (held : later.holder = fs.holder) (next : later.nextFd = fs.nextFd) : Spares 0 fs later :=
  ⟨ge_of_eq next, le_of_eq next, fun fd _ => by rw [held]⟩

end

/-! ### Changes of a context -/

namespace ServerContext

/-- Whether a descriptor is in any of the maps. -/
def Listed (ctx : ServerContext T) (fd : Fd) : Prop :=
  (ctx.fdPathMap.lookup fd).isSome ∨ (ctx.fdFlagsMap.lookup fd).isSome ∨ (∃ sid, (sid, fd) ∈ ctx.sessionFds) ∨
    fd ∈ ctx.s3RefreshedFds

/-- Some descriptors are closed and forgotten, some are marked as read through, and the others stay. -/
structure Settles (n : Nat) (closed marked : List Fd) (ctx later : ServerContext T) : Prop where
  grows : ctx.fs.nextFd ≤ later.fs.nextFd
  few : later.fs.nextFd ≤ ctx.fs.nextFd + n
  held : ∀ fd < ctx.fs.nextFd, later.fs.holder fd = if fd ∈ closed then none else ctx.fs.holder fd
  sessions : ∀ sid fd, (sid, fd) ∈ later.sessionFds ↔ (sid, fd) ∈ ctx.sessionFds ∧ fd ∉ closed
  listed : ∀ fd, later.Listed fd → (ctx.Listed fd ∨ fd ∈ marked) ∧ fd ∉ closed

/-- A descriptor is handed out and recorded for a session. -/
structure Registers (fd : Fd) (sessionId : Option String) (ctx later : ServerContext T) : Prop where
  fresh : ctx.fs.nextFd ≤ fd
  next : later.fs.nextFd = fd + 1
  opened : (later.fs.holder fd).isSome
  held : ∀ other < ctx.fs.nextFd, later.fs.holder other = ctx.fs.holder other
  sessions : ∀ sid other, (sid, other) ∈ later.sessionFds ↔ (sid, other) ∈ ctx.sessionFds ∨ sessionId = some sid ∧ other = fd
  listed : ∀ other, later.Listed other → ctx.Listed other ∨ other = fd

variable {n m : Nat} {closed more marked : List Fd} {ctx middle later : ServerContext T} {fd : Fd}

theorem Settles.of_spares {fs : Fs T} (spares : Spares n ctx.fs fs) : Settles n [] [] ctx { ctx with fs := fs } := by
  refine ⟨spares.grows, spares.few, fun fd before => ?_, fun sid fd => by simp, fun fd listed => ⟨.inl listed, List.not_mem_nil⟩⟩
  rw [if_neg List.not_mem_nil]
  exact spares.held fd before

theorem Settles.trans (first : Settles n closed marked ctx middle) (second : Settles m more [] middle later) :
    Settles (n + m) (closed ++ more) marked ctx later := by
  have few : later.fs.nextFd ≤ ctx.fs.nextFd + (n + m) :=
    le_trans second.few (le_trans (Nat.add_le_add_right first.few m) (le_of_eq (Nat.add_assoc ..)))
  refine ⟨le_trans first.grows second.grows, few, fun fd before => ?_, fun sid fd => ?_, fun fd listed => ?_⟩
  · rw [second.held fd (lt_of_lt_of_le before first.grows), first.held fd before]
    by_cases here : fd ∈ closed <;> by_cases there : fd ∈ more <;> simp [here, there]
  · rw [second.sessions, first.sessions, List.mem_append, not_or, and_assoc]
  · obtain ⟨listed', there⟩ := second.listed fd listed
    obtain ⟨before, here⟩ := first.listed fd (listed'.resolve_right List.not_mem_nil)
    exact ⟨before, fun within => (List.mem_append.mp within).elim here there⟩

theorem Settles.mono (settles : Settles n closed marked ctx later) (le : n ≤ m) : Settles m closed marked ctx later :=
  ⟨settles.grows, le_trans settles.few (Nat.add_le_add_left le _), settles.held, settles.sessions, settles.listed⟩

theorem Settles.refl (ctx : ServerContext T) : Settles 0 [] [] ctx ctx := .of_spares (.refl 0 ctx.fs)

/-! ### Closing -/

theorem unregisterFd_listed (ctx : ServerContext T) (fd other : Fd) :
    (ctx.unregisterFd fd).Listed other ↔ ctx.Listed other ∧ other ≠ fd := by
  by_cases same : other = fd
  · simp [Listed, unregisterFd, same]
  · simp [Listed, unregisterFd, same]

theorem closeFd_settles {sync : Option (SyncManager T)} (tidy : ∀ manager ∈ sync, Tidy n manager) (room : ctx.fs.nextFd + n < 2 ^ 32) :
    Settles n [fd] [] ctx (ctx.closeFd sync fd).2 := by
  have shut : Settles 0 [fd] [] ctx { ctx.unregisterFd fd with fs := (ctx.fs.close fd).2 } := by
    have next := close_nextFd ctx.fs fd
    refine ⟨ge_of_eq next, le_of_eq next, fun other _ => ?_, fun sid other => ?_, fun other listed => ?_⟩
    · rw [(Fs.close_effect ctx.fs fd).2, Function.update_apply]
      simp only [List.mem_singleton]
    · simp [unregisterFd]
    · obtain ⟨before, different⟩ := (unregisterFd_listed ctx fd other).mp listed
      exact ⟨.inl before, fun within => different (List.mem_singleton.mp within)⟩
  have quiet := shut.mono (Nat.zero_le n)
  unfold closeFd
  dsimp only
  split
  · next path manager _ =>
    split
    · have pushed := (tidy manager rfl).onClose path (ctx.fs.close fd).2 (by rw [close_nextFd]; exact room)
      have both := (shut.trans (.of_spares pushed)).mono (le_of_eq (Nat.zero_add n))
      rw [List.append_nil] at both
      dsimp only at both
      split
      · next result => rw [result] at both; exact both
      · next result => rw [result] at both; exact both
    · exact quiet
  · exact quiet

theorem closeAll_settles {sync : Option (SyncManager T)} {fds : List Fd} (tidy : ∀ manager ∈ sync, Tidy n manager)
    (room : ctx.fs.nextFd + n * fds.length < 2 ^ 32) :
    Settles (n * fds.length) fds [] ctx (fds.foldl (fun ctx fd => (ctx.closeFd sync fd).2) ctx) := by
  induction fds generalizing ctx with
  | nil => exact (Settles.refl ctx).mono (Nat.zero_le _)
  | cons fd fds ih =>
    rw [List.length_cons, Nat.mul_succ, Nat.add_comm (n * fds.length), ← Nat.add_assoc] at room
    have first : Settles n [fd] [] ctx (ctx.closeFd sync fd).2 :=
      closeFd_settles tidy (lt_of_le_of_lt (Nat.le_add_right ..) room)
    have rest := ih (lt_of_le_of_lt (Nat.add_le_add_right first.few _) room)
    exact (first.trans rest).mono (le_of_eq (by rw [List.length_cons, Nat.mul_succ, Nat.add_comm]))

theorem fdsOf_length (ctx : ServerContext T) (sessionId : String) : (ctx.fdsOf sessionId).length ≤ ctx.sessionFds.length := by
  rw [fdsOf, List.length_map]
  exact List.length_filter_le ..

theorem mem_fdsOf {sessionId : String} : fd ∈ ctx.fdsOf sessionId ↔ (sessionId, fd) ∈ ctx.sessionFds := by
  simp [fdsOf]

theorem closeSession_settles {sync : Option (SyncManager T)} (tidy : ∀ manager ∈ sync, Tidy n manager)
    (room : ctx.fs.nextFd + n * ctx.sessionFds.length < 2 ^ 32) (traversal : Traversal Fd) (sessionId : String) :
    ∃ closed, (∀ fd, fd ∈ closed ↔ (sessionId, fd) ∈ ctx.sessionFds) ∧
      Settles (n * ctx.sessionFds.length) closed [] ctx (ctx.closeSession sync traversal sessionId) := by
  have perm := traversal.perm (ctx.fdsOf sessionId)
  have recorded (fd : Fd) : fd ∈ traversal.order (ctx.fdsOf sessionId) ↔ (sessionId, fd) ∈ ctx.sessionFds :=
    perm.mem_iff.trans mem_fdsOf
  have short : n * (traversal.order (ctx.fdsOf sessionId)).length ≤ n * ctx.sessionFds.length :=
    Nat.mul_le_mul_left n (perm.length_eq ▸ fdsOf_length ctx sessionId)
  have settles : Settles _ _ [] { ctx with sessionFds := ctx.sessionFds.filter (·.1 ≠ sessionId) }
      (ctx.closeSession sync traversal sessionId) :=
    closeAll_settles tidy (lt_of_le_of_lt (Nat.add_le_add_left short _) room)
  refine ⟨traversal.order (ctx.fdsOf sessionId), recorded, ?_⟩
  refine (Settles.mono ⟨settles.grows, settles.few, settles.held, fun sid fd => ?_, fun fd listed => ?_⟩ short)
  · rw [settles.sessions, List.mem_filter, recorded]
    constructor
    · rintro ⟨⟨within, -⟩, out⟩
      exact ⟨within, out⟩
    · rintro ⟨within, out⟩
      refine ⟨⟨within, decide_eq_true fun same => out ?_⟩, out⟩
      exact same ▸ within
  · obtain ⟨before, out⟩ := settles.listed fd listed
    refine ⟨.inl ?_, out⟩
    rcases before.resolve_right List.not_mem_nil with path | flags | ⟨sid, within⟩ | refreshed
    · exact .inl path
    · exact .inr (.inl flags)
    · exact .inr (.inr (.inl ⟨sid, List.mem_of_mem_filter within⟩))
    · exact .inr (.inr (.inr refreshed))

theorem flushPending_settles {sync : Option (SyncManager T)} (tidy : ∀ manager ∈ sync, Tidy n manager)
    (room : ctx.fs.nextFd + n < 2 ^ 32) : Settles n [] [] ctx (ctx.flushPending sync) := by
  have idle : Settles n [] [] ctx ctx := (Settles.refl ctx).mono (Nat.zero_le n)
  unfold flushPending
  split
  · next manager =>
    split
    · exact .of_spares ((tidy manager rfl).forceFlush ctx.fs room)
    · exact idle
  · exact idle

/-! ### Everything else -/

/-- An answer that hands out neither a descriptor nor a session. -/
def plain : Response → Bool
  | .fd _ => false
  | .connected _ _ => false
  | _ => true

theorem mapFsError_plain (e : FsError) : plain (mapFsError e) := by
  cases e <;> rfl

theorem answer_plain {A : Type} {response : A → Response} (replies : ∀ value, plain (response value)) (result : Except FsError A) :
    plain (answer result response) := by
  cases result with
  | ok value => exact replies value
  | error e => exact mapFsError_plain e

theorem closeFd_plain (ctx : ServerContext T) (sync : Option (SyncManager T)) (fd : Fd) : plain (ctx.closeFd sync fd).1 := by
  unfold closeFd
  dsimp only
  cases (ctx.fs.close fd).1 with
  | ok _ =>
    split
    · split
      · split
        · rfl
        · rfl
      · rfl
    · rfl
  | error e =>
    split
    · split
      · split
        · exact mapFsError_plain e
        · rfl
      · exact mapFsError_plain e
    · exact mapFsError_plain e

theorem afterWrite_settles {sync : Option (SyncManager T)} (tidy : ∀ manager ∈ sync, Tidy n manager)
    (room : ctx.fs.nextFd + n < 2 ^ 32) : Settles n [] [] ctx (ctx.afterWrite sync fd) := by
  have idle : Settles n [] [] ctx ctx := (Settles.refl ctx).mono (Nat.zero_le n)
  unfold afterWrite
  split
  · next manager path _ =>
    split
    · exact .of_spares ((tidy manager rfl).syncFileNow path ctx.fs room)
    · exact idle
  · exact idle

theorem notify_settles {sync : Option (SyncManager T)} {path : String} {hook : SyncManager T → String → Fs T → Fs T}
    (modest : ∀ manager ∈ sync, Modest n (hook manager path)) (room : ctx.fs.nextFd + n < 2 ^ 32) :
    Settles n [] [] ctx (ctx.notify sync path hook) := by
  unfold notify
  split
  · next manager => exact .of_spares (modest manager rfl ctx.fs room)
  · exact (Settles.refl ctx).mono (Nat.zero_le n)

theorem beforeOpen_settles {sync : Option (SyncManager T)} (tidy : ∀ manager ∈ sync, Tidy n manager)
    (room : ctx.fs.nextFd + n < 2 ^ 32) (path : String) (flags : Nat) : Settles n [] [] ctx (ctx.beforeOpen sync path flags).2 := by
  have idle : Settles n [] [] ctx ctx := (Settles.refl ctx).mono (Nat.zero_le n)
  unfold beforeOpen
  split
  · exact idle
  next manager =>
  split
  · have leased := Settles.of_spares ((tidy manager rfl).onOpenWrite path ctx.fs room)
    dsimp only at leased
    split
    · next result => rw [result] at leased; exact leased
    · next result => rw [result] at leased; exact leased
  split
  · exact .of_spares ((tidy manager rfl).checkAndRefresh path ctx.fs room)
  · exact idle

theorem beforeOpen_plain {sync : Option (SyncManager T)} {path : String} {flags : Nat} {response : Response}
    (refused : ctx.beforeOpen sync path flags = (some response, later)) : plain response := by
  unfold beforeOpen at refused
  split at refused
  · cases refused
  split at refused
  · split at refused
    · cases refused
    · cases refused
      rfl
  · split at refused
    · cases refused
    · cases refused

theorem marked_settles {fs : Fs T} (spares : Spares n ctx.fs fs) (fd : Fd) :
    Settles n [] [fd] ctx { ctx with fs := fs, s3RefreshedFds := fd :: ctx.s3RefreshedFds } := by
  have settles := Settles.of_spares spares
  refine ⟨settles.grows, settles.few, settles.held, settles.sessions, fun other listed => ⟨?_, List.not_mem_nil⟩⟩
  rcases listed with path | flags | session | refreshed
  · exact .inl (.inl path)
  · exact .inl (.inr (.inl flags))
  · exact .inl (.inr (.inr (.inl session)))
  · rcases List.mem_cons.mp refreshed with rfl | before
    · exact .inr (List.mem_singleton_self _)
    · exact .inl (.inr (.inr (.inr before)))

theorem beforeRead_settles {sync : Option (SyncManager T)} (tidy : ∀ manager ∈ sync, Tidy n manager)
    (room : ctx.fs.nextFd + n < 2 ^ 32) (fd : Fd) :
    ∃ marked, Settles n [] marked ctx (ctx.beforeRead sync fd) ∧ ∀ other ∈ marked, other = fd ∧ ctx.readFromS3 := by
  unfold beforeRead
  split
  · next first =>
    refine ⟨[fd], marked_settles ?_ fd, fun other within => ⟨List.mem_singleton.mp within, first.1⟩⟩
    split
    · next path manager _ => exact (tidy manager rfl).refreshFile path ctx.fs room
    · exact (Spares.refl 0 ctx.fs).mono (Nat.zero_le n)
  · exact ⟨[], (Settles.refl ctx).mono (Nat.zero_le n), fun _ within => absurd within List.not_mem_nil⟩

theorem performing_settles {A : Type} {outcome : Outcome T A} {response : A → Response}
    {after : ServerContext T → ServerContext T} (calm : Spares 0 ctx.fs outcome.2)
    (follows : ∀ middle : ServerContext T, middle.fs.nextFd + n < 2 ^ 32 → Settles n [] [] middle (after middle))
    (room : ctx.fs.nextFd + n < 2 ^ 32) : Settles n [] [] ctx (ctx.performing outcome response after).2 := by
  have first : Settles 0 [] [] ctx { ctx with fs := outcome.2 } := .of_spares calm
  obtain ⟨result, fs⟩ := outcome
  cases result with
  | error e => exact first.mono (Nat.zero_le n)
  | ok value =>
    have next : fs.nextFd + n < 2 ^ 32 := lt_of_le_of_lt (Nat.add_le_add_right calm.few n) room
    exact (first.trans (follows { ctx with fs := fs } next)).mono (le_of_eq (Nat.zero_add n))

theorem performing_plain {A : Type} {outcome : Outcome T A} {response : A → Response} {after : ServerContext T → ServerContext T}
    (replies : ∀ value, plain (response value)) : plain (ctx.performing outcome response after).1 := by
  obtain ⟨result, fs⟩ := outcome
  cases result with
  | error e => exact mapFsError_plain e
  | ok value => exact replies value

/-- What handling a request comes to. -/
inductive Handled (n : Nat) (ctx : ServerContext T) (sessionId : Option String) (newSessionId : String) :
    Request → Response × ServerContext T → Prop where
  | connected {version negotiated : Nat} (accepted : (negotiateVersion version).isSome) :
      Handled n ctx sessionId newSessionId (.connect version) (.connected newSessionId negotiated, ctx)
  | opened {request : Request} {later : ServerContext T} (fd : Fd) (registers : Registers fd sessionId ctx later) :
      Handled n ctx sessionId newSessionId request (.fd fd, later)
  | settled {request : Request} {result : Response × ServerContext T} (closed marked : List Fd)
      (answered : plain result.1) (settles : Settles n closed marked ctx result.2)
      (reads : ∀ fd ∈ marked, (∃ length, request = .read fd length) ∧ ctx.readFromS3) :
      Handled n ctx sessionId newSessionId request result

theorem Handled.quietly {sessionId : Option String} {newSessionId : String} {request : Request}
    {result : Response × ServerContext T} {closed : List Fd} (answered : plain result.1)
    (settles : Settles n closed [] ctx result.2) : Handled n ctx sessionId newSessionId request result :=
  .settled closed [] answered settles fun _ within => absurd within List.not_mem_nil

section
variable [TimeProvider T] [Target] {sessionId : Option String} {newSessionId : String} {request : Request} {sync : Option (SyncManager T)}

omit [TimeProvider T] [Target] in
theorem registerFd_listed (ctx : ServerContext T) (fd other : Fd) (path : Option String) (flags : Nat)
    (listed : (ctx.registerFd fd path flags sessionId).Listed other) : ctx.Listed other ∨ other = fd := by
  by_cases same : other = fd
  · exact .inr same
  · refine .inl ?_
    rcases listed with paths | flags' | ⟨sid, session⟩ | refreshed
    · refine .inl ?_
      unfold registerFd at paths
      cases path with
      | none => exact paths
      | some path =>
        dsimp only at paths
        rw [Table.lookup_insert, if_neg same] at paths
        exact paths
    · refine .inr (.inl ?_)
      unfold registerFd at flags'
      dsimp only at flags'
      rw [Table.lookup_insert, if_neg same] at flags'
      exact flags'
    · refine .inr (.inr (.inl ⟨sid, ?_⟩))
      unfold registerFd at session
      cases sessionId with
      | none => exact session
      | some sid' =>
        exact (List.mem_insert_iff.mp session).resolve_left fun here => same (congrArg Prod.snd here)
    · exact .inr (.inr (.inr refreshed))

omit [TimeProvider T] [Target] in
theorem registerFd_sessions (ctx : ServerContext T) (fd other : Fd) (path : Option String) (flags : Nat) (sid : String) :
    (sid, other) ∈ (ctx.registerFd fd path flags sessionId).sessionFds ↔
      (sid, other) ∈ ctx.sessionFds ∨ sessionId = some sid ∧ other = fd := by
  unfold registerFd
  cases sessionId with
  | none => simp
  | some sid' =>
    dsimp only
    rw [List.mem_insert_iff, Prod.mk.injEq, Option.some.injEq, or_comm, eq_comm]

omit [TimeProvider T] [Target] in
/-- An open that follows the sync manager's part. -/
theorem opening_handled {outcome : Outcome T Fd} {path : Option String} {flags : Nat} (before : Settles n [] [] ctx middle)
    (handed : Handed middle.fs flags outcome) (room : ctx.fs.nextFd + n + 1 < 2 ^ 32) :
    Handled n ctx sessionId newSessionId request (middle.opening outcome path flags sessionId) := by
  cases handed with
  | @refused e fs beside =>
    have after : Settles 0 [] [] middle { middle with fs := fs } := .of_spares (.of_holder beside.holder beside.nextFd)
    exact .quietly (mapFsError_plain e) (before.trans after)
  | @opened id fs table next =>
    have held := holder_opened table
    have few : middle.fs.nextFd + 1 < 2 ^ 32 := lt_of_le_of_lt (Nat.add_le_add_right before.few 1) room
    refine .opened middle.fs.nextFd ⟨before.grows, ?_, ?_, fun other earlier => ?_, fun sid other => ?_, fun other listed => ?_⟩
    · exact next.trans (Nat.mod_eq_of_lt few)
    · show (fs.holder middle.fs.nextFd).isSome
      rw [held, Function.update_self]
      rfl
    · have earlier' : other < middle.fs.nextFd := lt_of_lt_of_le earlier before.grows
      show fs.holder other = ctx.fs.holder other
      rw [held, Function.update_of_ne (Nat.ne_of_lt earlier'), before.held other earlier, if_neg List.not_mem_nil]
    · rw [registerFd_sessions]
      exact or_congr_left ((before.sessions sid other).trans (and_iff_left List.not_mem_nil))
    · refine (registerFd_listed _ _ _ path flags listed).imp_left fun listed' => ?_
      exact (before.listed other listed').1.resolve_right List.not_mem_nil

theorem handleRequest_handled (tidy : ∀ manager ∈ sync, Tidy n manager) (room : ctx.fs.nextFd + n + 1 < 2 ^ 32)
    (request : Request) (sessionId : Option String) (newSessionId : String) :
    Handled n ctx sessionId newSessionId request (ctx.handleRequest sync request sessionId newSessionId) := by
  have room' : ctx.fs.nextFd + n < 2 ^ 32 := Nat.lt_of_succ_lt room
  have idle : Settles n [] [] ctx ctx := (Settles.refl ctx).mono (Nat.zero_le n)
  have stays (middle : ServerContext T) (_ : middle.fs.nextFd + n < 2 ^ 32) : Settles n [] [] middle (id middle) :=
    (Settles.refl middle).mono (Nat.zero_le n)
  have written (fd : Fd) (middle : ServerContext T) (few : middle.fs.nextFd + n < 2 ^ 32) :
      Settles n [] [] middle (middle.afterWrite sync fd) := afterWrite_settles tidy few
  have through (fd : Fd) (position : FileHandle → BlockStorage → Nat) (after : Nat → Nat → Nat) (buf : Bytes) :
      Spares 0 ctx.fs (ctx.fs.writeThrough fd position after buf).2 :=
    .of_holder (Fs.writeThrough_effect ctx.fs fd position after buf).2 (writeThrough_nextFd ctx.fs fd position after buf)
  have beside {fs : Fs T} (beside : Beside ctx.fs fs) : Spares 0 ctx.fs fs := .of_holder beside.holder beside.nextFd
  -- A request opens a descriptor, connects, or leaves all but the caller's descriptors alone.
  unfold handleRequest
  cases request with
  | connect version =>
    dsimp only
    split
    · next negotiated accepted => exact .connected (by rw [accepted]; rfl)
    · exact .quietly rfl idle
  | openPath path flags =>
    have before := beforeOpen_settles tidy room' path flags
    dsimp only
    split
    · next response later refused =>
      rw [refused] at before
      exact .quietly (beforeOpen_plain refused) before
    · next middle passed =>
      rw [passed] at before
      exact opening_handled before (openPath_handed middle.fs path flags) room
  | openAt dirFd path flags =>
    have opens (abs : Option String) (middle : ServerContext T) (before : Settles n [] [] ctx middle) :
        Handled n ctx sessionId newSessionId (.openAt dirFd path flags)
          (middle.opening (middle.fs.openAt dirFd path flags) abs flags sessionId) :=
      opening_handled before (openAt_handed middle.fs dirFd path flags) room
    -- An open at a descriptor runs the hooks of an open only if its path is known.
    dsimp only
    split
    · next response later refused =>
      split at refused
      · next abs _ =>
        have before := beforeOpen_settles tidy room' abs flags
        rw [refused] at before
        exact .quietly (beforeOpen_plain refused) before
      · cases refused
    · next middle passed =>
      split at passed
      · next abs _ =>
        have before := beforeOpen_settles tidy room' abs flags
        rw [passed] at before
        exact opens _ middle before
      · cases passed
        exact opens _ ctx idle
  | read fd length =>
    obtain ⟨marked, before, reads⟩ := beforeRead_settles tidy room' fd
    dsimp only
    have calm (middle : ServerContext T) : Spares 0 middle.fs (middle.fs.read fd length).2 :=
      .of_holder (Fs.readThrough_effect middle.fs fd _ length).2 (readThrough_nextFd middle.fs fd _ length)
    have fetched : Settles 0 [] [] (ctx.beforeRead sync fd)
        ((ctx.beforeRead sync fd).performing ((ctx.beforeRead sync fd).fs.read fd length) .data id).2 :=
      performing_settles (calm _) (fun middle _ => .refl middle) (lt_of_le_of_lt before.few room')
    refine .settled [] marked (performing_plain fun _ => rfl) (before.trans fetched) fun other within => ?_
    exact ⟨⟨length, by rw [(reads other within).1]⟩, (reads other within).2⟩
  | write fd data => exact .quietly (performing_plain fun _ => rfl) (performing_settles (through fd _ _ data) (written fd) room')
  | appendWrite fd data => exact .quietly (performing_plain fun _ => rfl) (performing_settles (through fd _ _ data) (written fd) room')
  | ftruncate fd size =>
    have calm : Spares 0 ctx.fs (ctx.fs.ftruncate fd size).2 :=
      .of_holder (Fs.ftruncate_effect ctx.fs fd size).2 (ftruncate_nextFd ctx.fs fd size)
    exact .quietly (performing_plain fun _ => rfl) (performing_settles calm (written fd) room')
  | close fd =>
    exact .quietly (closeFd_plain ctx sync fd) (closeFd_settles tidy room')
  | fsync fd =>
    dsimp only
    split
    · exact .quietly rfl idle
    split
    · next path manager _ =>
      split
      · have pushed := Settles.of_spares ((tidy manager rfl).onFsync path ctx.fs room')
        dsimp only at pushed
        split
        · next result => exact .quietly rfl (by rw [result] at pushed; exact pushed)
        · next result => exact .quietly rfl (by rw [result] at pushed; exact pushed)
      · exact .quietly rfl idle
    · exact .quietly rfl idle
  | seek fd offset whence =>
    have calm : Spares 0 ctx.fs (ctx.fs.seek fd offset whence).2 :=
      .of_holder (Fs.seek_effect ctx.fs fd offset whence).2 (seek_nextFd ctx.fs fd offset whence)
    exact .quietly (performing_plain fun _ => rfl) (performing_settles calm stays room')
  | fstat fd => exact .quietly (answer_plain (fun _ => rfl) _) idle
  | stat path => exact .quietly (answer_plain (fun _ => rfl) _) idle
  | mkdir path =>
    refine .quietly (performing_plain fun _ => rfl) (performing_settles (beside (mkdir_beside ctx.fs path)) (fun middle few => ?_) room')
    exact notify_settles (fun manager here => (tidy manager here).onMkdir path) few
  | mkdirP path =>
    refine .quietly (performing_plain fun _ => rfl) (performing_settles (beside (mkdirP_beside ctx.fs path)) (fun middle few => ?_) room')
    exact notify_settles (fun manager here => (tidy manager here).onMkdir path) few
  | unlink path =>
    exact .quietly (performing_plain fun _ => rfl) (performing_settles (beside (unlink_quiet ctx.fs path).toBeside) stays room')
  | readdir path => exact .quietly (answer_plain (fun _ => rfl) _) idle
  | readdirFd fd => exact .quietly (answer_plain (fun _ => rfl) _) idle
  | rmdir path =>
    have calm := beside (rmdir_quiet ctx.fs path).toBeside
    refine .quietly (performing_plain fun _ => rfl) (performing_settles calm (fun middle few => ?_) room')
    exact notify_settles (fun manager here => (tidy manager here).onRmdir path) few
  | rename oldPath newPath =>
    have calm := beside (rename_quiet ctx.fs oldPath newPath).toBeside
    exact .quietly (performing_plain fun _ => rfl) (performing_settles calm stays room')

end

end ServerContext
end MonakaFs.Rpc
