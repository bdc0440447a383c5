import MonakaFs.Sync.Runs

/-! The background tick and the files that are open for write.

The flush and the poll ask the lease table before they touch a path, with one
exception: a queued delete is sent without asking. If the store rejects it, the
remote version is pulled over the local file, leased or not.
-/

set_option autoImplicit false

namespace MonakaFs.Sync.Background

open Async SyncManager LawfulBackend

/-- The calls of the background tick that move files. -/
inductive Tick {F : Type} : Call F → Prop where
  | flushOutbound : Tick .flushOutbound
  | forceFlush (rounds : Nat) : Tick (.forceFlush rounds)
  | pollInbound : Tick .pollInbound

/-- A delete of the file that was rejected, because the file has another version. -/
def rejectsDelete [EtagScheme] {F : Type} (path : String) : Entry F → Bool
  | ⟨.request (.delete key _), .error e, _, _⟩ => decide (key = fileKey path) && e.isPreconditionFailed
  | _ => false

/-- An operation that cannot change the local copy or the lease entry of a path. -/
def Op.Spares {F : Type} (path : String) : Op F → Prop
  | .leases change => ∀ table, AList.lookup path (change table) = table.lookup path
  | .fs (.writeFileContent other _) | .fs (.unlink other) => other ≠ path
  | .fs (.loadFile ..) | .app _ => False
  | _ => True

abbrev Sparing {F A : Type} (path : String) (task : Task F A) : Prop := task.Only (I := syncSignature F) (Op.Spares path)

section
variable {F : Type} {path other : String} {manager : SyncManager}

theorem spares_alter (different : other ≠ path) (change : WriteLease → WriteLease) :
    Op.Spares (F := F) path (.leases (·.alter other change)) := fun table => by
  rw [Map.lookup_alter, if_neg (Ne.symm different)]

theorem transfers_spares (different : other ≠ path) {deletes : Prop} (op : Op F) (transfers : op.Transfers deletes other) :
    Op.Spares path op := by
  cases transfers with
  | pin | unpin => exact spares_alter different _
  | readLeases => exact fun _ => rfl
  | write => exact different
  | look | put | delete | readCache | forget | uploaded | downloaded | now | read | stat => trivial

/-- Functions that move another file spare this one. -/
theorem Moving.sparing {A : Type} {task : Task F A} (moving : Moving True other task)
    (different : other ≠ path) : Sparing path task := moving.mono (transfers_spares different)

theorem requeue_sparing : Sparing (F := F) path (requeue other) := ⟨trivial, fun _ => trivial⟩

theorem hasPendingOp_sparing : Sparing (F := F) path (hasPendingOp other) := ⟨trivial, fun _ => trivial⟩

theorem deleteFile_sparing (cond : Precondition) : Sparing (F := F) path (deleteFile other cond) :=
  ⟨trivial, fun _ => trivial⟩

theorem deleteLocalFile_sparing (different : other ≠ path) : Sparing (F := F) path (deleteLocalFile other) := by
  simp only [deleteLocalFile, onFs_bind, only_next]
  refine ⟨different, fun removed => ?_⟩
  rcases (removed : Except S3Error Unit) with e | _
  · trivial
  · exact ⟨trivial, fun _ => trivial⟩

theorem pollMarker_sparing (info : S3ObjectInfo) : Sparing (F := F) path (pollMarker info) := by
  simp only [pollMarker, withCache_bind, only_next]
  refine ⟨trivial, fun cache => ?_⟩
  split
  · trivial
  · exact ⟨trivial, fun _ => ⟨trivial, fun _ => trivial⟩⟩

theorem pollDirs_sparing (listed dirs : List String) : Sparing (F := F) path (pollDirs listed dirs) := by
  induction dirs with
  | nil => trivial
  | cons dir rest ih =>
    unfold pollDirs
    split
    · exact ih
    · exact ⟨trivial, fun _ => ⟨trivial, fun _ => ih⟩⟩

end

/-! ### Runs -/

section
variable [EtagScheme] {F A : Type} [LawfulBackend F] {path : String} {bytes : Option Bytes} {lease : WriteLease}
  {s : Node F} {manager : SyncManager}

/-- No delete of the file is rejected. -/
abbrev sparing (path : String) : Contract (syncSignature F) (Node F) :=
  during (fun _ moment => rejectsDelete path moment = false) Faulty bystanders

/-- The local copy and the lease entry are these. -/
structure Kept (path : String) (bytes : Option Bytes) (lease : WriteLease) (s : Snapshot F) : Prop where
  bytes : content s.fs path = bytes
  lease : s.manager.leases.lookup path = some lease

abbrev Keeping (path : String) (bytes : Option Bytes) (lease : WriteLease) : A → Node F → Prop :=
  fun _ t => Kept path bytes lease t.state

theorem Kept.moves {s t : Snapshot F} (kept : Kept path bytes lease s) (moved : bystanders.moves s t) :
    Kept path bytes lease t := ⟨by rw [moved.2]; exact kept.bytes, by rw [moved.1]; exact kept.lease⟩

theorem Kept.act {s : Snapshot F} (kept : Kept path bytes lease s) {op : Op F} (spares : Op.Spares path op) (turn : Turn) :
    Kept path bytes lease (s.act turn op).2 := by
  cases op with
  | leases change => exact ⟨kept.bytes, (spares _).trans kept.lease⟩
  | app => exact spares.elim
  | request | queue | cache | schedule | now | wake | jitter | arrange => exact ⟨kept.bytes, kept.lease⟩
  | fs call =>
    have leaves : call.Leaves path := by cases call <;> exact spares
    exact ⟨(leaves.content s.fs).trans kept.bytes, kept.lease⟩

theorem keeps_kept : (sparing (F := F) path).Keeps (fun t => Kept path bytes lease t.state) (Op.Spares path) where
  stable kept moves := kept.moves moves.2
  waits _ := trivial
  step spares kept effect := by
    obtain ⟨⟨turn, -, -, later⟩, -⟩ := node_effect effect.1
    exact ⟨trivial, later ▸ kept.act spares turn⟩

theorem spare {task : Task F A} (only : Sparing path task) (kept : Kept path bytes lease s.state) :
    (sparing path).Safe (Keeping path bytes lease) task s := keeps_kept.safe only kept

theorem spare_next {op : Op F} {k : op.Reply → Task F A} (spares : Op.Spares path op) (kept : Kept path bytes lease s.state)
    (rest : ∀ reply u, Kept path bytes lease u.state → (sparing path).Safe (Keeping path bytes lease) (k reply) u) :
    (sparing path).Safe (Keeping path bytes lease) (next op k) s :=
  during_next fun _ reply _ moved ⟨turn, _, _, later⟩ _ =>
    rest reply _ (by rw [later]; exact (kept.moves moved).act spares turn)

theorem return_kept (value : A) (kept : Kept path bytes lease s.state) :
    (sparing path).Safe (Keeping path bytes lease) (.done value : Task F A) s :=
  during_return fun _ moved => kept.moves moved

/-- The lock check tells a leased path from every other one. -/
theorem isLocked_safe {other : String} (kept : Kept path bytes lease s.state) :
    (sparing path).Safe (fun locked t => Kept path bytes lease t.state ∧ (locked = false → other ≠ path))
      (isLocked (F := F) other) s := by
  simp only [isLocked, withLeases_bind]
  refine during_next fun t leases u moved ⟨_, _, answer, later⟩ _ => during_return fun v moved' => ?_
  have kept := kept.moves moved
  have kept' : Kept path bytes lease u := by rw [later]; exact ⟨kept.bytes, kept.lease⟩
  refine ⟨kept'.moves moved', ?_⟩
  rintro free rfl
  have found : AList.lookup other (leases : LeaseTable) = some lease := by rw [answer]; exact kept.lease
  rw [found] at free
  cases free

/-! ### The flush -/

theorem flushUpload_safe {other : String} (kept : Kept path bytes lease s.state) :
    (sparing path).Safe (Keeping path bytes lease) (manager.flushUpload (F := F) other) s := by
  unfold flushUpload
  split
  · exact return_kept _ kept
  refine (isLocked_safe kept).bind ?_
  rintro locked t ⟨kept, free⟩
  split
  · exact return_kept _ kept
  next unlocked =>
  -- The path is leased, and only what is not leased is uploaded.
  have different : other ≠ path := free (Bool.eq_false_iff.mpr unlocked)
  refine (spare (Moving.sparing (condForUpload_moving other) different) kept).bind fun cond u kept => ?_
  refine (spare (Moving.sparing (uploadWithCond_moving manager other cond) different) kept).bind
    fun result v kept => ?_
  have queued (e : SyncError) (w : Node F) (kept : Kept path bytes lease w.state) :
      (sparing path).Safe (Keeping path bytes lease)
        (requeue (F := F) other >>= fun _ => (pure (.error e) : Task F (Except SyncError Bool))) w :=
    (spare requeue_sparing kept).bind fun _ _ kept => return_kept _ kept
  rcases result with e | _
  · dsimp only
    split
    · refine (spare (Moving.sparing (handleUploadConflict_moving manager other) different) kept).bind
        fun handled w kept => ?_
      rcases handled with failed | _
      · dsimp only
        split
        · exact return_kept _ kept
        · exact queued failed w kept
      · exact return_kept _ kept
    · exact queued e v kept
  · exact return_kept _ kept

/-- A queued delete of the path itself pulls nothing unless it is rejected. -/
theorem flushDelete_safe (locking : manager.config.fileLock = true) {other : String} (etag : Option String)
    (kept : Kept path bytes lease s.state) :
    (sparing path).Safe (Keeping path bytes lease) (manager.flushDelete (F := F) other etag) s := by
  by_cases different : other = path
  · subst different
    simp only [flushDelete, deleteFile_bind, locking, if_true]
    refine during_next ?_
    rintro t reply u moved ⟨_, _, _, later⟩ fine
    have kept := kept.moves moved
    have kept : Kept other bytes lease u := by rw [later]; exact ⟨kept.bytes, kept.lease⟩
    split
    · exact return_kept _ kept
    · next e _ _ =>
      split
      · next rejected => simp [rejectsDelete, rejected] at fine
      · split
        · exact (spare (s := ⟨u, _⟩) (deleteFile_sparing _) kept).bind fun _ _ kept => return_kept _ kept
        · exact return_kept _ kept
  · exact spare (Moving.sparing (flushDelete_moving manager other etag) different) kept

theorem flushLoop_safe (locking : manager.config.fileLock = true) (batch processed : Nat)
    (kept : Kept path bytes lease s.state) :
    (sparing path).Safe (Keeping path bytes lease) (manager.flushLoop (F := F) batch processed) s := by
  induction batch generalizing processed s with
  | zero => exact spare ⟨trivial, fun _ => ⟨trivial, fun _ => trivial⟩⟩ kept
  | succ batch ih =>
    simp only [flushLoop, withQueue_bind]
    refine spare_next trivial kept fun queue u kept => ?_
    split
    · exact spare ⟨trivial, fun _ => ⟨trivial, fun _ => trivial⟩⟩ kept
    · refine (flushUpload_safe kept).bind fun result v kept => ?_
      rcases result with e | counted
      · exact return_kept _ kept
      · exact ih _ kept
    · exact (flushDelete_safe locking _ kept).bind fun _ v kept => ih _ kept

theorem forceFlush_safe (locking : manager.config.fileLock = true) (rounds : Nat) (kept : Kept path bytes lease s.state) :
    (sparing path).Safe (Keeping path bytes lease) (manager.forceFlush (F := F) rounds) s := by
  induction rounds generalizing s with
  | zero => exact fun _ _ => trivial
  | succ rounds ih =>
    simp only [forceFlush, withQueue_bind]
    refine spare_next trivial kept fun queue u kept => ?_
    split
    · exact return_kept _ kept
    · refine (flushLoop_safe locking _ _ kept).bind fun result v kept => ?_
      rcases result with e | count
      · exact return_kept _ kept
      · exact (ih kept).bind fun _ _ kept => return_kept _ kept

/-! ### The poll -/

theorem pollFile_safe (info : S3ObjectInfo) (kept : Kept path bytes lease s.state) :
    (sparing path).Safe (Keeping path bytes lease) (pollFile (F := F) info) s := by
  simp only [pollFile, withCache_bind]
  refine spare_next trivial kept fun cache u kept => ?_
  split
  · exact return_kept _ kept
  refine (isLocked_safe kept).bind ?_
  rintro locked v ⟨kept, free⟩
  split
  · exact return_kept _ kept
  next unlocked =>
  have different : info.path ≠ path := free (Bool.eq_false_iff.mpr unlocked)
  refine (spare hasPendingOp_sparing kept).bind fun pending w kept => ?_
  split
  · exact return_kept _ kept
  refine (spare (Moving.sparing (downloadFile_moving info) different) kept).bind fun result x kept => ?_
  rcases result with e | _
  · exact return_kept _ kept
  · exact return_kept _ kept

theorem pollObjects_safe (objects : List S3ObjectInfo) (stats : SyncStats) (kept : Kept path bytes lease s.state) :
    (sparing path).Safe (Keeping path bytes lease) (pollObjects (F := F) objects stats) s := by
  induction objects generalizing stats s with
  | nil => exact return_kept _ kept
  | cons info rest ih =>
    unfold pollObjects
    split
    · exact (spare (pollMarker_sparing info) kept).bind fun _ _ kept => ih _ kept
    · exact (pollFile_safe info kept).bind fun _ _ kept => ih _ kept

theorem pollGone_safe (listed : List String) (other : String) (kept : Kept path bytes lease s.state) :
    (sparing path).Safe (Keeping path bytes lease) (pollGone (F := F) listed other) s := by
  unfold pollGone
  split
  · exact return_kept _ kept
  refine (isLocked_safe kept).bind ?_
  rintro locked v ⟨kept, free⟩
  split
  · exact return_kept _ kept
  next unlocked =>
  have different : other ≠ path := free (Bool.eq_false_iff.mpr unlocked)
  refine (spare hasPendingOp_sparing kept).bind fun pending w kept => ?_
  split
  · exact return_kept _ kept
  refine (spare (deleteLocalFile_sparing different) kept).bind fun result x kept => ?_
  rcases result with e | _
  · exact return_kept _ kept
  · exact return_kept _ kept

theorem pollDeleted_safe (listed paths : List String) (stats : SyncStats) (kept : Kept path bytes lease s.state) :
    (sparing path).Safe (Keeping path bytes lease) (pollDeleted (F := F) listed paths stats) s := by
  induction paths generalizing stats s with
  | nil => exact return_kept _ kept
  | cons other rest ih => exact (pollGone_safe listed other kept).bind fun _ _ kept => ih _ kept

theorem pollInbound_safe (kept : Kept path bytes lease s.state) :
    (sparing path).Safe (Keeping path bytes lease) (pollInbound (F := F)) s := by
  simp only [pollInbound, listFiles_bind]
  refine spare_next trivial kept fun listed u kept => ?_
  rcases (listed : Except S3Error (List ObjectMeta)) with e | metas
  · exact return_kept _ kept
  refine (pollObjects_safe _ _ kept).bind fun stats v kept => ?_
  refine spare_next trivial kept fun cache w kept => spare_next trivial kept fun paths x kept => ?_
  refine (pollDeleted_safe _ _ _ kept).bind fun stats y kept => ?_
  refine spare_next trivial kept fun cache z kept => spare_next trivial kept fun dirs a kept => ?_
  exact (spare (pollDirs_sparing _ _) kept).bind fun _ _ kept => return_kept _ kept

end

/-! ### Concrete runs -/

section
open scoped ContentEtags

def sampleManager (second : Bool) : SyncManager :=
  Sample.manager .batch (if second then Sample.second else Sample.first)

/-- The first instance unlinks a file and opens it for write again before the delete is
flushed. The second instance may change the file in between. -/
def reopening (between : List (Call MemFs)) : List (Bool × Call MemFs) :=
  [(false, .flushOutbound), (true, .flushOutbound), (false, .unlink "/a" (MemFs.removeLocal "/a"))] ++
    between.map (fun call => (true, call)) ++
    [(false, .openWrite 1 "/a"), (false, .write "/a" (MemFs.writeLocal "/a" [3]))]

def reopened (between : List (Call MemFs)) : ClusterConfig Bool MemFs :=
  Sample.after sampleManager [("files/a", [1])] (reopening between)

def first (config : ClusterConfig Bool MemFs) : Snapshot MemFs := (config.shared.view false).state

def replacing : List (Call MemFs) := [.openWrite 1 "/a", .write "/a" (MemFs.writeLocal "/a" [2]), .close "/a"]

end

end MonakaFs.Sync.Background
