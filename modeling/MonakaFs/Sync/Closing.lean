import MonakaFs.Sync.Runs

/-! What a failed close leaves of the change it could not push.

The last close of a path, and the release of all leases at shutdown, push the
pending change, give the lock object back and drop the entry with its marks. They
queue nothing. What a failed push was about is known afterwards only if it had
been queued before.
-/

set_option autoImplicit false

namespace MonakaFs.Sync.Closing

open Async SyncManager

section
variable [EtagScheme] {F : Type} (path : String)

/-- A lease on the path holds a change that has not been pushed. -/
def Unpushed (s : Snapshot F) : Prop :=
  ∃ lease, s.manager.leases.lookup path = some lease ∧ (lease.dirty = true ∨ lease.pendingDelete = true)

def Queued (s : Snapshot F) : Prop := ∃ op ∈ s.manager.outboundQueue, op.path = path

/-- A later close, or a later flush of the queue, will push a change of the path. -/
def Scheduled (s : Snapshot F) : Prop := Unpushed path s ∨ Queued path s

/-- The path keeps its lease entry, and has queued operations or not as before. -/
structure Undisturbed (s t : Snapshot F) : Prop where
  lease : t.manager.leases.lookup path = s.manager.leases.lookup path
  queued : Queued path t ↔ Queued path s

/-- Surroundings that change anything else: the store, the files, the cache, other paths. -/
def apart : Surroundings F where
  moves := Undisturbed path
  refl _ := ⟨rfl, Iff.rfl⟩
  trans first second := ⟨second.lease.trans first.lease, second.queued.trans first.queued⟩

/-- The calls that give the lease of a path back. -/
inductive GivesBack (manager : SyncManager) : Task F (Except SyncError Unit) → Prop where
  | close : GivesBack manager (manager.onClose path)
  | releaseAll : GivesBack manager manager.releaseAllLeases

end

/-- An operation that queues nothing and enters no lease. -/
def Op.Drops {F : Type} : Op F → Prop
  | .queue _ => False
  | .leases change => ∀ table path, AList.lookup path (table : LeaseTable) = none → (change table).lookup path = none
  | _ => True

abbrev Dropping {F A : Type} (task : Task F A) : Prop := task.Only (I := syncSignature F) Op.Drops

section
variable {F : Type} (manager : SyncManager) (path : String)

theorem drops_alter (change : WriteLease → WriteLease) : Op.Drops (F := F) (.leases (·.alter path change)) := by
  intro table name missing
  rw [Map.lookup_alter]
  split
  · next same => rw [← same, missing]; rfl
  · exact missing

theorem drops_erase : Op.Drops (F := F) (.leases (·.erase path)) := by
  intro table name missing
  rw [Map.lookup_erase_eq]
  split
  · rfl
  · exact missing

theorem transfers_drops {deletes : Prop} (op : Op F) (transfers : op.Transfers deletes path) : Op.Drops op := by
  cases transfers with
  | pin | unpin => exact drops_alter path _
  | readLeases => exact fun _ _ missing => missing
  | look | put | delete | readCache | forget | uploaded | downloaded | now | read | stat | write => trivial

theorem quiet_drops (op : Op F) (quiet : op.Quiet) : Op.Drops op := by
  cases op with
  | queue | leases => exact quiet.elim
  | request | cache | schedule | now | wake | jitter | fs | arrange | app => trivial

theorem finishRelease_dropping (snapshot : WriteLease) : Dropping (F := F) (manager.finishRelease path snapshot) := by
  apply ((flushLease_moving manager path snapshot).mono (transfers_drops path)).bind
  intro result
  apply ((release_silent path snapshot.lockEtag).mono quiet_drops).bind
  intro _
  exact ⟨drops_erase path, fun _ => trivial⟩

theorem beginRelease_dropping : Dropping (F := F) (beginRelease path) := ⟨drops_alter path _, fun _ => trivial⟩

theorem releaseLeases_dropping (paths : List String) (firstError : Option SyncError) :
    Dropping (F := F) (manager.releaseLeases paths firstError) := by
  induction paths generalizing firstError with
  | nil => cases firstError <;> trivial
  | cons path paths ih =>
    apply (beginRelease_dropping path).bind
    rintro (_ | snapshot)
    · exact ih firstError
    · apply (finishRelease_dropping manager path snapshot).bind
      rintro (e | _)
      · exact ih _
      · exact ih _

end

/-! ### Runs -/

section
variable [EtagScheme] {F A : Type} [FsBackend F] {path : String} {start : Snapshot F} {s : Node F}

abbrev closing (path : String) : Contract (syncSignature F) (Node F) := runs Faulty (apart path)

/-- The queue says about the path what it said at the start. -/
def Same (path : String) (start : Snapshot F) (t : Node F) : Prop := Queued path t.state ↔ Queued path start

/-- And the path has no entry. -/
def Gone (path : String) (start : Snapshot F) (t : Node F) : Prop :=
  Same path start t ∧ t.state.manager.leases.lookup path = none

theorem drops_step (path : String) {op : Op F} (drops : Op.Drops op) (turn : Turn) (s : Snapshot F) :
    (s.act turn op).2.manager.outboundQueue = s.manager.outboundQueue ∧
      (s.manager.leases.lookup path = none → (s.act turn op).2.manager.leases.lookup path = none) := by
  cases op with
  | queue => exact drops.elim
  | leases change => exact ⟨rfl, drops s.manager.leases path⟩
  | request | cache | schedule | now | wake | jitter | fs | arrange | app => exact ⟨rfl, id⟩

theorem keeps_same : (closing (F := F) path).Keeps (Same path start) Op.Drops where
  stable same moves := moves.2.queued.trans same
  waits _ := trivial
  step drops same effect := by
    obtain ⟨⟨turn, -, -, later⟩, -⟩ := node_effect effect
    rw [Same, Queued, later, (drops_step path drops turn _).1]
    exact ⟨trivial, same⟩

theorem keeps_gone : (closing (F := F) path).Keeps (Gone path start) Op.Drops where
  stable gone moves := ⟨moves.2.queued.trans gone.1, moves.2.lease.trans gone.2⟩
  waits _ := trivial
  step drops gone effect := by
    refine ⟨trivial, (keeps_same.step drops gone.1 effect).2, ?_⟩
    obtain ⟨⟨turn, -, -, later⟩, -⟩ := node_effect effect
    rw [later]
    exact (drops_step path drops turn _).2 gone.2

theorem finishRelease_gone (manager : SyncManager) (snapshot : WriteLease) (same : Same path start s) :
    (closing path).Safe (fun _ t => Gone path start t) (manager.finishRelease (F := F) path snapshot) s := by
  have flush := (flushLease_moving (F := F) manager path snapshot).mono (transfers_drops path)
  have release := (release_silent (F := F) path snapshot.lockEtag).mono quiet_drops
  refine (keeps_same.safe flush same).bind fun result t same => ?_
  refine (keeps_same.safe release same).bind fun _ u same => ?_
  simp only [withLeases_bind]
  refine safe_next fun v leases w moved ⟨_, _, _, later⟩ => safe_return fun x moved' => ?_
  have same := moved.queued.trans same
  have absent : w.manager.leases.lookup path = none := by
    rw [later]
    exact (Map.lookup_erase_eq ..).trans (if_pos rfl)
  have queue : Queued path w ↔ Queued path v := by rw [later]; exact Iff.rfl
  exact ⟨moved'.queued.trans (queue.trans same), moved'.lease.trans absent⟩

/-- Every listed path loses its entry. -/
theorem releaseLeases_gone (manager : SyncManager) {paths : List String} {firstError : Option SyncError}
    (listed : path ∈ paths) (same : Same path start s) :
    (closing path).Safe (fun _ t => Gone path start t) (manager.releaseLeases (F := F) paths firstError) s := by
  -- The induction is on the leases. Once the lease is gone, no other release brings it back.
  induction paths generalizing firstError s with
  | nil => cases listed
  | cons first paths ih =>
    by_cases found : path = first
    · subst found
      have rest (firstError : Option SyncError) (t : Node F) (gone : Gone path start t) :=
        keeps_gone.safe (releaseLeases_dropping (F := F) manager paths firstError) gone
      simp only [releaseLeases, beginRelease, withLeases_bind, Prog.call_bind]
      refine safe_next ?_
      rintro t leases u moved ⟨_, _, answer, later⟩
      have queued := moved.queued.trans same
      have queue : Queued path u ↔ Queued path start := by rw [later]; exact queued
      simp only [Prog.pure_eq, Prog.done_bind]
      cases entry : AList.lookup path (leases : LeaseTable) with
      -- Somebody has released it already.
      | none =>
        refine rest firstError _ ⟨queue, ?_⟩
        have missing : t.manager.leases.lookup path = none := by rw [answer] at entry; exact entry
        rw [later]
        exact drops_alter (F := F) path _ _ _ missing
      | some lease =>
        refine (finishRelease_gone (s := ⟨u, _⟩) manager _ queue).bind fun result v gone => ?_
        rcases result with e | _
        · exact rest _ v gone
        · exact rest _ v gone
    · have listed : path ∈ paths := (List.mem_cons.mp listed).resolve_left found
      refine (keeps_same.safe (beginRelease_dropping first) same).bind fun snapshot t same => ?_
      rcases snapshot with _ | snapshot
      · exact ih listed same
      · refine (keeps_same.safe (finishRelease_dropping manager first snapshot) same).bind fun result u same => ?_
        rcases result with e | _
        · exact ih listed same
        · exact ih listed same

theorem onClose_safe (manager : SyncManager) (same : Same path start s) :
    (closing path).Safe (fun result t => ∀ e, result = .error e → Gone path start t)
      (manager.onClose (F := F) path) s := by
  simp only [onClose, withLeases_bind]
  refine safe_next ?_
  rintro t leases u moved ⟨_, _, _, later⟩
  have queue : Queued path u ↔ Queued path start := by rw [later]; exact moved.queued.trans same
  split
  · exact safe_return fun _ _ e failed => by cases failed
  · split
    · exact safe_return fun _ _ e failed => by cases failed
    · exact (finishRelease_gone (s := ⟨u, _⟩) manager _ queue).weaken fun _ _ gone _ _ => gone

theorem releaseAllLeases_safe (manager : SyncManager) (leased : s.state.manager.leases.lookup path ≠ none)
    (same : Same path start s) :
    (closing path).Safe (fun _ t => Gone path start t) (manager.releaseAllLeases (F := F)) s := by
  simp only [releaseAllLeases, withLeases_bind, arrange_bind]
  refine safe_next fun t leases u moved ⟨_, _, answer, later⟩ => safe_next fun v paths w moved' ⟨turn, _, order, later'⟩ => ?_
  have present : AList.lookup path (leases : LeaseTable) ≠ none := by rw [answer]; exact moved.lease.trans_ne leased
  have key : path ∈ (leases : LeaseTable).keys := by
    by_contra absent
    exact present (AList.lookup_eq_none.mpr absent)
  have listed : path ∈ (paths : List String) := by rw [order]; exact (turn.walk _).mem_iff.mpr key
  refine releaseLeases_gone manager listed ?_
  have queue : Queued path u ↔ Queued path start := by rw [later]; exact moved.queued.trans same
  have queue' : Queued path w ↔ Queued path v := by rw [later']; exact Iff.rfl
  exact queue'.trans (moved'.queued.trans queue)

end

/-! ### Concrete runs -/

section
open scoped ContentEtags

def sampleManager : SyncManager := Sample.manager .batch Sample.first

/-- Open a new file for write and write it, after some other calls. -/
def writing (earlier : List (Call MemFs)) : List (Call MemFs) :=
  .flushOutbound :: earlier ++ [.openWrite 1 "/a", .write "/a" (MemFs.writeLocal "/a" [1])]

def written (earlier : List (Call MemFs)) : ClusterConfig Unit MemFs :=
  Sample.after (fun _ => sampleManager) [] ((writing earlier).map fun call => ((), call))

/-- Every request of the close is lost. -/
def unanswered : List ((Snapshot MemFs → Snapshot MemFs) × Turn) :=
  List.replicate 16 (id, { fault := .unsent (.write "files/a" "timeout") })

theorem unanswered_faulty : ∀ turn ∈ unanswered,
    (∀ s : Snapshot MemFs, (apart "/a").moves s (turn.1 s)) ∧ Faulty turn.2 := quiet_turns rfl

def timeout : SyncError := .s3 (.write "files/a" "timeout")

def unpushed (path : String) (s : Snapshot MemFs) : Bool :=
  (s.manager.leases.lookup path).any fun lease => lease.dirty || lease.pendingDelete

theorem unpushed_iff {path : String} {s : Snapshot MemFs} : unpushed path s = true ↔ Unpushed path s := by
  simp [unpushed, Unpushed, Option.any_eq_true]

end

end MonakaFs.Sync.Closing
