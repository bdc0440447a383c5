import MonakaFs.Sync.Ticking.Refreshes

/-! What a poll makes of a listing.

While the poll finds nothing new, it looks at the cache, the leases and the queue
and leaves everything as it is. The first thing that is new makes it fetch, and
then write, or remove something.
-/

set_option autoImplicit false

namespace MonakaFs.Sync.Ticking

open Async SyncManager Outbound

section
variable [EtagScheme] {F A : Type} [FsBackend F] {call : Call F} {manager : SyncManager} {state : ManagerState} {start : Log F}
  {s t : Node F} {post : A → Node F → Prop}

abbrev polling : Contract (syncSignature F) (Node F) := runs Faulty bystanders

/-- Since this record the poll has only looked. -/
structure Looking (state : ManagerState) (start : Log F) (t : Node F) : Prop where
  same : t.state.manager = state
  log : ∃ extra, t.log = extra ++ start ∧ ∀ moment ∈ extra, Op.Aloof moment.op ∧ ∀ path, ¬ Rejects path moment

/-- A fetch has failed, or the poll has reached for a local file. -/
def Reached (start : Log F) (t : Node F) : Prop :=
  ∃ newer moment extra, t.log = newer ++ moment :: (extra ++ start) ∧ (Changes moment ∨ ¬ Fetches moment) ∧
    ∀ later ∈ extra, ∀ path, ¬ Rejects path later

/-- The poll only looks if it is told nothing new. -/
def Told (known : Prop) (state : ManagerState) (start : Log F) (t : Node F) : Prop :=
  (known ∧ Looking state start t) ∨ (¬ known ∧ Reached start t)

omit [FsBackend F] in
theorem Looking.moves (looking : Looking state start s) (moves : bystanders.moves s.state t.state) (logged : t.log = s.log) :
    Looking state start t := by
  obtain ⟨extra, split, each⟩ := looking.log
  exact ⟨(show t.state.manager = s.state.manager from moves.1).trans looking.same, extra, logged.trans split, each⟩

omit [FsBackend F] in
theorem Looking.looked {moment : Entry F} {v : Snapshot F} (looking : Looking state start s) (aloof : Op.Aloof moment.op)
    (accepts : ∀ path, ¬ Rejects path moment) (same : v.manager = state) : Looking state start ⟨v, moment :: s.log⟩ := by
  obtain ⟨extra, logged, each⟩ := looking.log
  refine ⟨same, moment :: extra, by rw [logged]; rfl, fun later member => ?_⟩
  rcases List.mem_cons.mp member with rfl | older
  · exact ⟨aloof, accepts⟩
  · exact each later older

omit [FsBackend F] in
theorem Looking.reached {moment : Entry F} {v : Snapshot F} (looking : Looking state start s) (what : Changes moment ∨ ¬ Fetches moment) :
    Reached start ⟨v, moment :: s.log⟩ := by
  obtain ⟨extra, logged, each⟩ := looking.log
  exact ⟨[], moment, extra, by rw [logged]; rfl, what, fun later member => (each later member).2⟩

theorem look_return {value : A} (looking : Looking state start s) :
    polling.Safe (fun _ t => Looking state start t) (.done value) s :=
  safe_return fun _ moves => looking.moves moves rfl

/-- One look. -/
theorem look_next {op : Op F} {k : op.Reply → Task F A} (aloof : Op.Aloof op) (accepts : ∀ path reply t u, ¬ Rejects path (⟨op, reply, t, u⟩ : Entry F))
    (still : ∀ turn (t : Snapshot F), (t.act turn op).2.manager = t.manager) (looking : Looking state start s)
    (rest : ∀ turn (t : Snapshot F) u, Faulty turn → t.manager = state → Looking state start u → polling.Safe post (k (t.act turn op).1) u) :
    polling.Safe post (next op k) s := by
  refine safe_next fun t reply u moves served => ?_
  obtain ⟨turn, faulty, rfl, rfl⟩ := served
  have same : t.manager = state := (show t.manager = s.state.manager from moves.1).trans looking.same
  exact rest turn t _ faulty same (looking.looked aloof (fun path => accepts path _ _ _) ((still turn t).trans same))

/-- What was reached for stays on record. -/
theorem reached_safe (task : Task F A) (reached : Reached start s) : polling.Safe (fun _ t => Reached start t) task s := by
  induction task generalizing s with
  | done value =>
    obtain ⟨newer, moment, extra, logged, what⟩ := reached
    exact safe_return fun _ _ => ⟨newer, moment, extra, logged, what⟩
  | halt => exact fun _ _ => trivial
  | call op next ih =>
    obtain ⟨newer, moment, extra, logged, what⟩ := reached
    exact safe_next fun t reply u _ _ => ih reply ⟨_ :: newer, moment, extra, by rw [logged]; rfl, what⟩

/-- The operation that reaches for something. -/
theorem reach_next {op : Op F} {k : op.Reply → Task F A} (looking : Looking state start s)
    (what : ∀ t reply u, Changes (⟨op, reply, t, u⟩ : Entry F) ∨ ¬ Fetches (⟨op, reply, t, u⟩ : Entry F)) :
    polling.Safe (fun _ t => Reached start t) (next op k) s := by
  exact safe_next fun t reply u _ _ => reached_safe _ (looking.reached (what t reply u))

/-! ### The parts of a poll -/

theorem told_return {value : A} {known : Prop} (holds : known) (looking : Looking state start s) :
    polling.Safe (fun _ t => Told known state start t) (.done value) s :=
  (look_return looking).weaken fun _ _ looking => .inl ⟨holds, looking⟩

/-- One thing after the other. -/
theorem Told.bind {B : Type} {first rest known : Prop} {task : Task F A} {k : A → Task F B} (both : known ↔ first ∧ rest)
    (ahead : polling.Safe (fun _ t => Told first state start t) task s)
    (behind : ∀ value t, Looking state start t → polling.Safe (fun _ t => Told rest state start t) (k value) t) :
    polling.Safe (fun _ t => Told known state start t) (task >>= k) s := by
  refine ahead.bind fun value t told => ?_
  rcases told with ⟨holds, looking⟩ | ⟨new, reached⟩
  · refine (behind value t looking).weaken fun _ u told => ?_
    rcases told with ⟨holds', looking⟩ | ⟨new, reached⟩
    · exact .inl ⟨both.mpr ⟨holds, holds'⟩, looking⟩
    · exact .inr ⟨fun all => new (both.mp all).2, reached⟩
  · exact (reached_safe (k value) reached).weaken fun _ u reached => .inr ⟨fun all => new (both.mp all).1, reached⟩

theorem pollMarker_told {info : S3ObjectInfo} (looking : Looking state start s) :
    polling.Safe (fun _ t => Told (state.metadataCache.hasDir info.path = true) state start t) (pollMarker (F := F) info) s := by
  simp only [pollMarker, withCache_bind, onFs_bind]
  refine look_next trivial (fun _ _ _ _ => id) (fun _ _ => rfl) looking fun turn t u _ same looking => ?_
  simp only [Snapshot.act, same]
  split
  · next known => exact told_return known looking
  · next new =>
    exact (reach_next looking fun _ _ _ => .inl ⟨.mkdirP info.path, rfl, trivial⟩).weaken fun _ _ reached => .inr ⟨new, reached⟩

/-- The looks at the leases and the queue before anything is done to a path. -/
theorem busy_next {path : String} {idle : A} {task : Task F A} (looking : Looking state start s)
    (free : ∀ t, ¬ Busy state path → Looking state start t → polling.Safe post task t)
    (taken : ∀ t, Busy state path → Looking state start t → polling.Safe post (.done idle) t) :
    polling.Safe post (do
      if ← isLocked path then return idle
      if ← hasPendingOp path then return idle
      task) s := by
  simp only [isLocked_bind]
  refine look_next trivial (fun _ _ _ _ => id) (fun _ _ => rfl) looking fun turn t u _ same looking => ?_
  simp only [Snapshot.act, same]
  split
  · next leased => exact taken u (.inl leased) looking
  · next unleased =>
    simp only [hasPendingOp_bind]
    refine look_next trivial (fun _ _ _ _ => id) (fun _ _ => rfl) looking fun turn v w _ same looking => ?_
    simp only [Snapshot.act, same]
    split
    · next queued => exact taken w (.inr queued) looking
    · next unqueued => exact free w (fun busy => busy.elim unleased unqueued) looking

theorem pollFile_told {info : S3ObjectInfo} (looking : Looking state start s) :
    polling.Safe (fun _ t => Told (state.metadataCache.etag info.path = some info.etag ∨ Busy state info.path) state start t)
      (pollFile (F := F) info) s := by
  simp only [pollFile, withCache_bind]
  refine look_next trivial (fun _ _ _ _ => id) (fun _ _ => rfl) looking fun turn t u _ same looking => ?_
  simp only [Snapshot.act, same]
  split
  · next known => exact told_return (.inl known) looking
  next new =>
  refine busy_next looking (fun v free looking => ?_) fun v busy looking => told_return (.inr busy) looking
  have unknown : ¬ (state.metadataCache.etag info.path = some info.etag ∨ Busy state info.path) := fun known => known.elim new free
  refine @Contract.Safe.weaken _ _ _ _ (fun _ t => Reached start t) _ _ _ ?_ fun _ _ reached => .inr ⟨unknown, reached⟩
  simp only [downloadFile, getFile_bind, Prog.call_bind]
  refine safe_next fun t reply u moves served => ?_
  have unfetched (missing : ∀ found : Bytes × ObjectMeta, reply ≠ .ok (some found)) :
      Reached start (⟨u, ⟨.request (.get (fileKey info.path)), reply, t, u⟩ :: v.log⟩ : Node F) :=
    looking.reached (.inr fun fetches => by
      obtain ⟨found, same⟩ := fetches
      exact missing found same)
  obtain ⟨turn, -, -, rfl⟩ := served
  rcases (reply : Except S3Error (Option (Bytes × ObjectMeta))) with e | _ | ⟨content, found⟩
  · exact reached_safe _ (unfetched fun _ same => by cases same)
  · exact reached_safe _ (unfetched fun _ same => by cases same)
  · have same : t.manager = state := (show t.manager = v.state.manager from moves.1).trans looking.same
    refine reach_next (looking.looked trivial (fun _ => id) same) fun _ _ _ => .inl ⟨.writeFileContent info.path content, rfl, trivial⟩

theorem pollObjects_told (objects : List S3ObjectInfo) (stats : SyncStats) (looking : Looking state start s) :
    polling.Safe (fun _ t => Told (∀ info ∈ objects, Known state info) state start t) (pollObjects (F := F) objects stats) s := by
  induction objects generalizing stats s with
  | nil => exact told_return (fun _ member => (by cases member)) looking
  | cons info rest ih =>
    simp only [pollObjects]
    split
    · next dir =>
      refine Told.bind ?_ (pollMarker_told looking) fun _ t looking => ih stats looking
      simp [Known, dir]
    · next file =>
      refine Told.bind ?_ (pollFile_told looking) fun _ t looking => ih _ looking
      simp [Known, file]

theorem pollGone_told {listed : List String} {path : String} (looking : Looking state start s) :
    polling.Safe (fun _ t => Told (path ∈ listed ∨ Busy state path) state start t) (pollGone (F := F) listed path) s := by
  unfold pollGone
  split
  · next here => exact told_return (.inl here) looking
  next gone =>
  refine busy_next looking (fun t free looking => ?_) fun t busy looking => told_return (.inr busy) looking
  have unknown : ¬ (path ∈ listed ∨ Busy state path) := fun known => known.elim gone free
  exact (reach_next looking fun _ _ _ => .inl ⟨.unlink path, rfl, trivial⟩).weaken fun _ _ reached => .inr ⟨unknown, reached⟩

theorem pollDeleted_told (listed paths : List String) (stats : SyncStats) (looking : Looking state start s) :
    polling.Safe (fun _ t => Told (∀ path ∈ paths, path ∈ listed ∨ Busy state path) state start t)
      (pollDeleted (F := F) listed paths stats) s := by
  induction paths generalizing stats s with
  | nil => exact told_return (fun _ member => (by cases member)) looking
  | cons path rest ih =>
    simp only [pollDeleted]
    exact Told.bind List.forall_mem_cons (pollGone_told looking) fun _ t looking => ih _ looking

theorem pollDirs_told (listed dirs : List String) (looking : Looking state start s) :
    polling.Safe (fun _ t => Told (∀ dir ∈ dirs, dir ∈ listed) state start t) (pollDirs (F := F) listed dirs) s := by
  induction dirs generalizing s with
  | nil => exact told_return (fun _ member => (by cases member)) looking
  | cons dir rest ih =>
    unfold pollDirs
    split
    · next here =>
      refine (ih looking).weaken fun _ t told => ?_
      simpa [Told, here] using told
    · next gone =>
      have new : ¬ ∀ other ∈ dir :: rest, other ∈ listed := fun all => gone (all dir (List.mem_cons_self ..))
      exact (reach_next looking fun _ _ _ => .inl ⟨.rmdir dir, rfl, trivial⟩).weaken fun _ _ reached => .inr ⟨new, reached⟩

/-- The keys of a map, in some order. -/
theorem walk_next {keys : List String} {k : List String → Task F A} (looking : Looking state start s)
    (rest : ∀ walk : List String, (∀ path, path ∈ walk ↔ path ∈ keys) → ∀ t, Looking state start t → polling.Safe post (k walk) t) :
    polling.Safe post (arrange keys >>= k) s := by
  simp only [arrange_bind]
  refine look_next trivial (fun _ _ _ _ => id) (fun _ _ => rfl) looking fun turn t u _ _ looking => ?_
  exact rest _ (fun path => (turn.walk keys).mem_iff) u looking

/-- What a poll does with a listing. -/
def afterListing (objects : List S3ObjectInfo) : Task F (Except S3Error SyncStats) := do
  let files := (objects.filter fun info => !info.isDir).map (·.path)
  let dirs := (objects.filter (·.isDir)).map (·.path)
  let stats ← pollObjects objects {}
  let cache ← withCache id
  let paths ← arrange cache.paths
  let stats ← pollDeleted files paths stats
  let cache ← withCache id
  let localDirs ← arrange cache.dirs
  pollDirs dirs localDirs
  return .ok stats

/-- After the listing, a poll only looks if the listing agrees. -/
theorem afterListing_told (objects : List S3ObjectInfo) (looking : Looking state start s) :
    polling.Safe (fun _ t => Told (Settled objects state) state start t) (afterListing objects) s := by
  have parts : Settled objects state ↔ (∀ info ∈ objects, Known state info) ∧
      (∀ path ∈ state.metadataCache.paths, path ∈ (objects.filter fun info => !info.isDir).map (·.path) ∨ Busy state path) ∧
      ∀ dir ∈ state.metadataCache.dirs, dir ∈ (objects.filter (·.isDir)).map (·.path) :=
    ⟨fun settled => ⟨settled.known, settled.files, settled.dirs⟩, fun told => ⟨told.1, told.2.1, told.2.2⟩⟩
  unfold afterListing
  refine Told.bind parts (pollObjects_told objects {} looking) fun stats t looking => ?_
  simp only [withCache_bind]
  refine look_next trivial (fun _ _ _ _ => id) (fun _ _ => rfl) looking fun turn t u _ same looking => ?_
  simp only [Snapshot.act, same]
  refine walk_next looking fun paths cached v looking => ?_
  have deleted := pollDeleted_told (F := F) ((objects.filter fun info => !info.isDir).map (·.path)) paths stats looking
  simp only [cached] at deleted
  refine Told.bind Iff.rfl deleted fun stats w looking => ?_
  refine look_next trivial (fun _ _ _ _ => id) (fun _ _ => rfl) looking fun turn t u _ same looking => ?_
  simp only [Snapshot.act, same]
  refine walk_next looking fun dirs known v looking => ?_
  have removed := pollDirs_told (F := F) ((objects.filter (·.isDir)).map (·.path)) dirs looking
  simp only [known] at removed
  exact Told.bind (iff_of_eq (and_true _).symm) removed fun _ w looking => told_return trivial looking

/-! ### Whole calls -/

omit [FsBackend F] in
theorem rejected_cons {path : String} {moment : Entry F} {log : Log F} (rejected : Rejected path (moment :: log)) :
    Rejects path moment ∨ (¬ Lists moment ∧ Rejected path log) := by
  obtain ⟨newer, found, older, split, rejects, since⟩ := rejected
  cases newer with
  | nil =>
    obtain ⟨rfl, -⟩ := List.cons.inj split
    exact .inl rejects
  | cons first newer =>
    obtain ⟨rfl, rest⟩ := List.cons.inj split
    exact .inr ⟨since moment (List.mem_cons_self ..), newer, found, older, rest, rejects, fun later member => since later (List.mem_cons_of_mem _ member)⟩

omit [FsBackend F] in
/-- A rejection from before a listing does not count. -/
theorem not_rejected_since {path : String} {listing : Entry F} {extra older : Log F} (lists : Lists listing)
    (accepts : ∀ later ∈ extra, ¬ Rejects path later) : ¬ Rejected path (extra ++ listing :: older) := by
  induction extra with
  | nil =>
    intro rejected
    rcases rejected_cons rejected with rejects | ⟨unlisted, -⟩
    · obtain ⟨op, reply, t, u⟩ := listing
      cases lists
      exact rejects
    · exact unlisted lists
  | cons moment extra ih =>
    intro rejected
    rcases rejected_cons rejected with rejects | ⟨-, rejected⟩
    · exact accepts moment (List.mem_cons_self ..) rejects
    · exact ih (fun later member => accepts later (List.mem_cons_of_mem _ member)) rejected

omit [FsBackend F] in
/-- What only looked since a listing that agreed, or reached for something since one that did not. -/
theorem exact_of_told {older : Log F} {listing : Entry F} {known : Prop} (polls : Polls call) (lists : Lists listing)
    (agrees : Agrees listing ↔ known) (unlisted : ∀ moment ∈ older, ¬ Lists moment) (all : Throughout (Refreshes call) older)
    (told : Told known state (listing :: older) t) : Exact call t.log := by
  have unchanged : ¬ Changes listing := by
    rintro ⟨inner, same, -⟩
    rw [lists] at same
    cases same
  rcases told with ⟨holds, looking⟩ | ⟨new, newer, moment, extra, logged, what, accepts⟩
  · obtain ⟨extra, logged, each⟩ := looking.log
    rw [logged]
    have base : Exact call (listing :: older) := by
      refine ⟨fun _ => ⟨fun changes => absurd changes unchanged, all⟩, fun _ _ moment member => ?_⟩
      rcases List.mem_cons.mp member with rfl | before
      · exact agrees.mpr holds
      · exact agrees_of_unlisted (unlisted moment before)
    clear logged
    induction extra with
    | nil => exact base
    | cons moment extra ih =>
      exact (ih fun later member => each later (List.mem_cons_of_mem _ member)).step (each moment (List.mem_cons_self ..)).1
  · rw [logged]
    have among : listing ∈ newer ++ moment :: (extra ++ listing :: older) := by simp
    refine ⟨fun agree => absurd (agrees.mp (agree listing among)) new, fun all fetch => ?_⟩
    rcases what with changes | missing
    · obtain ⟨path, content, -, asked | ⟨since, rejection, before, split, rejects, later⟩⟩ := all.older.1 changes
      · cases call <;> first | exact polls.elim | exact asked.elim
      · exact absurd ⟨since, rejection, before, split, rejects, later⟩ (not_rejected_since lists fun later member => accepts later member path)
    · exact absurd (fetch moment (by simp)) missing

theorem pollInbound_exact (polls : Polls call) (unlisted : ∀ moment ∈ s.log, ¬ Lists moment)
    (all : Throughout (Refreshes call) s.log) :
    polling.Safe (fun _ t => Exact call t.log) (pollInbound (F := F)) s := by
  simp only [pollInbound, listFiles_bind]
  refine safe_next fun t reply u moves served => ?_
  have still : u.manager = t.manager := by
    obtain ⟨turn, -, -, rfl⟩ := served
    rfl
  have lists : Lists (⟨.request (.list filesPrefix none), reply, t, u⟩ : Entry F) := rfl
  rcases (reply : Except S3Error (List ObjectMeta)) with e | metas
  · refine safe_return fun v _ => ⟨fun _ => ⟨fun changes => ?_, all⟩, fun _ _ moment member => ?_⟩
    · obtain ⟨inner, same, -⟩ := changes
      cases same
    · rcases List.mem_cons.mp member with rfl | before
      · intro metas _ same
        cases same
      · exact agrees_of_unlisted (unlisted moment before)
  · have looking : Looking t.manager (⟨.request (.list filesPrefix none), .ok metas, t, u⟩ :: s.log)
        (⟨u, ⟨.request (.list filesPrefix none), .ok metas, t, u⟩ :: s.log⟩ : Node F) :=
      ⟨still, [], rfl, fun _ member => (by cases member)⟩
    refine (afterListing_told (metas.filterMap fileInfo) looking).weaken fun _ v told => ?_
    refine exact_of_told polls lists ⟨fun agrees => agrees metas rfl rfl, fun settled other _ same => ?_⟩ unlisted all told
    cases same
    exact settled

theorem exact_next {op : Op F} {k : op.Reply → Task F A} (aloof : Op.Aloof op) (exact : Exact call s.log)
    (rest : ∀ reply t, Exact call t.log → polling.Safe post (k reply) t) : polling.Safe post (next op k) s :=
  safe_next fun _ reply _ _ _ => rest reply _ (exact.step aloof)

theorem maybeSync_exact (polls : Polls call) (unlisted : ∀ moment ∈ s.log, ¬ Lists moment) (all : Throughout (Refreshes call) s.log) :
    polling.Safe (fun _ t => Exact call t.log) (manager.maybeSync (F := F)) s := by
  have finish {B : Type} {value : B} {t : Node F} (exact : Exact call t.log) :
      polling.Safe (fun _ t => Exact call t.log) (.done value) t := safe_return fun _ _ => exact
  -- What comes before the poll lists nothing.
  have quiet {t : Node F} (orderly : Orderly call s t) : (∀ moment ∈ t.log, ¬ Lists moment) ∧ Throughout (Refreshes call) t.log := by
    refine ⟨fun moment member => ?_, orderly.refreshes all⟩
    obtain ⟨extra, logged, each⟩ := orderly.unlisted
    rw [logged] at member
    exact (List.mem_append.mp member).elim (each moment) (unlisted moment)
  have polled {t : Node F} (orderly : Orderly call s t) : polling.Safe (fun _ t => Exact call t.log) (manager.pollIfDue (F := F)) t := by
    simp only [pollIfDue, withSchedule_bind, instant_bind]
    refine aloof_next call trivial fun _ schedule _ _ first => ?_
    refine aloof_next call trivial fun _ now _ _ second => ?_
    obtain ⟨unlisted, all⟩ := quiet ((orderly.trans first).trans second)
    split
    · refine (pollInbound_exact polls unlisted all).bind fun polled u exact => ?_
      refine exact_next trivial exact fun _ v exact => exact_next trivial exact fun _ w exact => ?_
      cases polled <;> exact finish exact
    · exact finish (exact_of_unlisted unlisted all)
  simp only [maybeSync, withSchedule_bind]
  refine aloof_next call trivial fun _ schedule _ _ looked => ?_
  split
  · exact finish (exact_of_unlisted (quiet looked).1 (quiet looked).2)
  have ticked {t : Node F} (orderly : Orderly call s t) : polling.Safe (fun _ t => Exact call t.log) (do
      let flushed ← manager.flushIfDue
      let polled ← manager.pollIfDue
      return flushed || polled) t :=
    (flushIfDue_orderly call).bind fun _ u flushed => (polled (orderly.trans flushed)).bind fun _ _ exact => finish exact
  split
  · exact (aloof_safe call renewLeases_aloof).bind fun _ t renewed => ticked (looked.trans renewed)
  · exact ticked looked

theorem call_exact (polls : Polls call) : polling.Safe (fun _ t => Exact call t.log) (call.task manager) ⟨s.state, []⟩ := by
  have nothing (moment : Entry F) (member : moment ∈ (⟨s.state, []⟩ : Node F).log) : ¬ Lists moment := by cases member
  cases call with
  | pollInbound => exact (pollInbound_exact polls nothing trivial).bind fun _ _ exact => safe_return fun _ _ => exact
  | maybeSync => exact (maybeSync_exact polls nothing trivial).bind fun _ _ exact => safe_return fun _ _ => exact
  | openWrite | close | fsync | write | writeNow | unlink | read | stat | mkdir | rmdir | flushOutbound | forceFlush
  | renewLeases | releaseAllLeases => exact polls.elim

variable {past : List (Call F × Log F)} {first last : Snapshot F}

theorem history_exact (history : History manager first past last) (entry : Call F × Log F) (member : entry ∈ past) :
    (Polls entry.1 → Exact entry.1 entry.2) ∧ (¬ Polls entry.1 → Throughout (Refreshes entry.1) entry.2) := by
  induction history with
  | start => cases member
  | @call past s call t history ran ih =>
    rcases List.mem_cons.mp member with rfl | earlier
    · exact ⟨fun polls => (call_exact (s := ⟨s, []⟩) polls).exec ran, fun quiet => (call_refreshes (s := ⟨s, []⟩) quiet).exec ran⟩
    · exact ih earlier

/-- For every configuration, every store and every sequence of ticks and other calls: if every
listing a poll gets agrees with the cache, the mode is honoured. If no fetch fails, only then. -/
theorem inbound_mode_honoured (manager : SyncManager) (start : Snapshot F) (past : List (Call F × Log F)) (last : Snapshot F)
    (history : History manager start past last) :
    (manager.config.inboundMode = .polling ∨ (∀ entry ∈ past, Polls entry.1 → ∀ moment ∈ entry.2, Agrees moment) → Honoured manager past) ∧
      (Honoured manager past → (∀ entry ∈ past, ∀ moment ∈ entry.2, Fetches moment) →
        manager.config.inboundMode = .polling ∨ ∀ entry ∈ past, Polls entry.1 → ∀ moment ∈ entry.2, Agrees moment) := by
  constructor
  · rintro (mode | agree) other entry member
    · exact absurd mode other
    · obtain ⟨exact, refreshes⟩ := history_exact history entry member
      by_cases polls : Polls entry.1
      · exact (exact polls).1 (agree entry member polls)
      · exact refreshes polls
  · intro honoured fetch
    refine or_iff_not_imp_left.mpr fun mode entry member polls => ?_
    exact ((history_exact history entry member).1 polls).2 (honoured mode entry member) (fetch entry member)

end

/-! ### An instance that only writes -/

section
open scoped ContentEtags

/-- `VFS_INBOUND_MODE=none`: do not sync from S3. -/
def writeOnly : SyncManager := ⟨Sample.first, ⟨.batch, .none, .local, 0, 0, 8, true, 0, 1000⟩⟩

/-- The instance has loaded a file. -/
def loaded : Snapshot MemFs := ((Sample.after (fun _ => writeOnly) [("files/a", [1])] [((), .flushOutbound)]).shared.view ()).state

instance (state : ManagerState) (path : String) : Decidable (Busy state path) := inferInstanceAs (Decidable (_ ∨ _))

instance (state : ManagerState) (info : S3ObjectInfo) : Decidable (Known state info) := inferInstanceAs (Decidable (ite _ _ _))

instance (objects : List S3ObjectInfo) (state : ManagerState) : Decidable (Settled objects state) :=
  decidable_of_iff ((∀ info ∈ objects, Known state info) ∧
      (∀ path ∈ state.metadataCache.paths, path ∈ (objects.filter fun info => !info.isDir).map (·.path) ∨ Busy state path) ∧
      ∀ dir ∈ state.metadataCache.dirs, dir ∈ (objects.filter (·.isDir)).map (·.path))
    ⟨fun told => ⟨told.1, told.2.1, told.2.2⟩, fun settled => ⟨settled.known, settled.files, settled.dirs⟩⟩

def agrees : Entry MemFs → Bool
  | ⟨.request (.list pre none), .ok metas, before, _⟩ => pre ≠ filesPrefix || decide (Settled (List.filterMap fileInfo metas) before.manager)
  | _ => true

theorem agrees_iff (moment : Entry MemFs) : agrees moment = true ↔ Agrees moment := by
  obtain ⟨op, reply, before, after⟩ := moment
  cases op with
  | request r =>
    cases r with
    | list pre maxKeys =>
      cases maxKeys with
      | none =>
        rcases (reply : Except S3Error (List ObjectMeta)) with e | metas
        · exact iff_of_true rfl fun _ _ same => by cases same
        · simp only [agrees, Bool.or_eq_true, decide_eq_true_eq, ne_eq]
          constructor
          · intro told metas' same equal
            cases equal
            exact told.resolve_left fun other => other same
          · exact fun settled => or_iff_not_imp_left.mpr fun same => settled metas (not_not.mp same) rfl
      | some keys => exact iff_of_true rfl trivial
    | head | get | put | delete => exact iff_of_true rfl trivial
  | queue | cache | leases | schedule | now | wake | jitter | fs | arrange | app => exact iff_of_true rfl trivial

/-- No object is asked for. -/
def fetchless : Entry MemFs → Bool
  | ⟨.request (.get _), _, _, _⟩ => false
  | _ => true

theorem fetches_of_fetchless {moment : Entry MemFs} (none : fetchless moment = true) : Fetches moment := by
  obtain ⟨op, reply, before, after⟩ := moment
  cases op with
  | request r =>
    cases r with
    | get => cases none
    | list | head | put | delete => trivial
  | queue | cache | leases | schedule | now | wake | jitter | fs | arrange | app => trivial

theorem tick_run (start : Snapshot MemFs) (check : Log MemFs → Bool)
    (checked : (solo Faulty (List.replicate 40 plainly) (Call.maybeSync.task writeOnly) start).any (fun result => check result.2.log) = true) :
    ∃ last : Node MemFs, History writeOnly start [(.maybeSync, last.log)] last.state ∧ check last.log = true := by
  obtain ⟨value, last, ran, checked⟩ := solo_returned (Call.maybeSync.task writeOnly) start (fun _ last => check last.log) (plainly_faulty 40) checked
  exact ⟨last, .call .start ran, checked⟩

/-- Nobody else has written, so the poll finds nothing new. -/
theorem inbound_mode_honoured_sample : ∃ log last, History writeOnly loaded [(.maybeSync, log)] last ∧
    Throughout (Refreshes .maybeSync) log := by
  obtain ⟨last, history, checked⟩ := tick_run loaded (fun log => log.all agrees) (by decide +kernel)
  refine ⟨last.log, last.state, history, (inbound_mode_honoured writeOnly loaded _ last.state history).1 (.inr ?_) (by decide) _ (List.mem_cons_self ..)⟩
  intro entry member _ moment among
  rw [List.mem_singleton.mp member] at among
  exact (agrees_iff moment).mp (List.all_eq_true.mp checked moment among)

/-- Another tool has removed the object, and the tick removes the file. -/
theorem write_only_polls : ∃ log last, writeOnly.config.inboundMode = .none ∧
    History writeOnly { loaded with store := Sample.store [] } [(.maybeSync, log)] last ∧
    ¬ Honoured writeOnly [(.maybeSync, log)] := by
  obtain ⟨last, history, checked⟩ := tick_run { loaded with store := Sample.store [] }
    (fun log => log.all fetchless && log.any fun moment => !agrees moment) (by decide +kernel)
  refine ⟨last.log, last.state, rfl, history, fun honoured => ?_⟩
  obtain ⟨fetchless, told⟩ := (Bool.and_eq_true _ _).mp checked
  obtain ⟨moment, member, new⟩ := List.any_eq_true.mp told
  have refreshes : Throughout (Refreshes .maybeSync) last.log := honoured (by decide) _ (List.mem_cons_self ..)
  have exact : Exact .maybeSync last.log := (history_exact history _ (List.mem_cons_self ..)).1 trivial
  have agree := exact.2 refreshes (fun other among => fetches_of_fetchless (List.all_eq_true.mp fetchless other among)) moment member
  rw [(agrees_iff moment).mpr agree] at new
  cases new

end

end MonakaFs.Sync.Ticking
