import MonakaFs.Sync.Tasks

/-! Which files a poll overwrites.

The poll looks at the lease table before it downloads a file and before it removes
one, and never again before it does so. A download waits for the store in between.
-/

set_option autoImplicit false

namespace MonakaFs.Sync.Polling.Overwrites

open Async SyncManager

/-- An operation that replaces or removes the local copy of a path. -/
def Replaces {F : Type} (path : String) (op : Op F) : Prop :=
  op = .fs (.unlink path) ∨ ∃ content, op = .fs (.writeFileContent path content)

section
variable [EtagScheme] {F : Type}

/-- The poll looks at the lease table, and overwrites what it found unleased. -/
def leaseWatch (F : Type) : Watch (syncSignature F) String (Snapshot F) where
  looks op := op = .leases id
  acts := Replaces
  gives _ _ := True
  tells
    | .leases _, table, path => (table : LeaseTable).lookup path = none
    | _, _, _ => False
  safe path s := s.manager.leases.lookup path = none

theorem calm_next {op : Op F} {A : Type} {k : op.Reply → Task F A} (unlooking : op ≠ .leases id)
    (idle : ∀ path, ¬ Replaces path op) (rest : ∀ reply, (leaseWatch F).Calm (k reply)) : (leaseWatch F).Calm (next op k) :=
  Watch.within_call unlooking idle fun reply _ => rest reply

/-- An operation of the poll that changes the local copy of one path at most. -/
abbrev About (path : String) (op : Op F) : Prop :=
  ¬ (leaseWatch F).looks op ∧ ∀ other, (leaseWatch F).acts other op → other = path

theorem downloadFile_about (info : S3ObjectInfo) :
    (downloadFile (F := F) info).Only (I := syncSignature F) (About info.path) := by
  simp only [downloadFile, getFile_bind, only_next]
  refine ⟨by simp [About, leaseWatch, Replaces], fun found => ?_⟩
  rcases (found : Except S3Error (Option (Bytes × ObjectMeta))) with e | _ | ⟨content, info⟩
  · trivial
  · trivial
  simp only [storeDownload, onFs_bind, withCache_bind, only_next]
  refine ⟨by simp [About, leaseWatch, Replaces], fun stored => ?_⟩
  rcases (stored : Except S3Error Unit) with e | _
  · trivial
  · exact ⟨by simp [About, leaseWatch, Replaces], fun _ => trivial⟩

theorem deleteLocalFile_about (path : String) :
    (deleteLocalFile (F := F) path).Only (I := syncSignature F) (About path) := by
  simp only [deleteLocalFile, onFs_bind, withCache_bind, only_next]
  refine ⟨by simp [About, leaseWatch, Replaces], fun removed => ?_⟩
  rcases (removed : Except S3Error Unit) with e | _
  · trivial
  · exact ⟨by simp [About, leaseWatch, Replaces], fun _ => trivial⟩

/-- A look that found the path unleased justifies one change of its local copy. -/
theorem calm_checked {A : Type} {path : String} {task : Task F A} {value : A}
    (about : task.Only (I := syncSignature F) (About path)) :
    (leaseWatch F).Calm (do
      if ← isLocked path then return value
      if ← hasPendingOp path then return value
      task) := by
  rw [isLocked_bind]
  refine Watch.calm_look rfl (by simp [leaseWatch, Replaces]) fun leases _ => ?_
  split
  · exact Watch.within_done _
  next unlocked =>
  have free : (leases : LeaseTable).lookup path = none := by simpa using unlocked
  rw [hasPendingOp_bind]
  refine Watch.within_call (by simp [leaseWatch]) (by simp [leaseWatch, Replaces]) fun queue _ => ?_
  split
  · exact Watch.within_done _
  · exact Watch.within_of_only (about.mono fun op only => ⟨only.1, fun other acts => by rw [only.2 other acts]; exact free⟩)

theorem pollFile_calm (info : S3ObjectInfo) : (leaseWatch F).Calm (pollFile info) := by
  simp only [pollFile, withCache_bind]
  refine calm_next (by simp) (by simp [Replaces]) fun cache => ?_
  split
  · exact Watch.within_done _
  · refine calm_checked ((downloadFile_about info).bind fun result => ?_)
    split <;> trivial

theorem pollMarker_calm (info : S3ObjectInfo) : (leaseWatch F).Calm (pollMarker info) := by
  simp only [pollMarker, withCache_bind]
  refine calm_next (by simp) (by simp [Replaces]) fun cache => ?_
  split
  · exact Watch.within_done _
  · simp only [onFs_bind]
    apply Watch.within_of_only
    simp [leaseWatch, Replaces]

theorem pollObjects_calm (objects : List S3ObjectInfo) (stats : SyncStats) :
    (leaseWatch F).Calm (pollObjects objects stats) := by
  induction objects generalizing stats with
  | nil => exact Watch.within_done _
  | cons info rest ih =>
    unfold pollObjects
    split
    · exact (pollMarker_calm info).bind fun _ => ih _
    · exact (pollFile_calm info).bind fun _ => ih _

theorem pollGone_calm (listed : List String) (path : String) : (leaseWatch F).Calm (pollGone listed path) := by
  unfold pollGone
  split
  · exact Watch.within_done _
  · refine calm_checked ((deleteLocalFile_about path).bind fun result => ?_)
    split <;> trivial

theorem pollDeleted_calm (listed paths : List String) (stats : SyncStats) :
    (leaseWatch F).Calm (pollDeleted listed paths stats) := by
  induction paths generalizing stats with
  | nil => exact Watch.within_done _
  | cons path rest ih => exact (pollGone_calm listed path).bind fun _ => ih _

theorem pollDirs_calm (listed dirs : List String) : (leaseWatch F).Calm (pollDirs listed dirs) := by
  induction dirs with
  | nil => exact Watch.within_done _
  | cons dir rest ih =>
    unfold pollDirs
    split
    · exact ih
    · simp only [onFs_bind, withCache_bind]
      exact calm_next (by simp) (by simp [Replaces]) fun _ => calm_next (by simp) (by simp [Replaces]) fun _ => ih

theorem pollInbound_calm : (leaseWatch F).Calm pollInbound := by
  simp only [pollInbound, listFiles_bind]
  refine calm_next (by simp) (by simp [Replaces]) fun listed => ?_
  rcases (listed : Except S3Error (List ObjectMeta)) with e | metas
  · exact Watch.within_done _
  simp only [Except.map, withCache_bind, arrange_bind]
  refine (pollObjects_calm _ _).bind fun stats => ?_
  refine calm_next (by simp) (by simp [Replaces]) fun cache => calm_next (by simp) (by simp [Replaces]) fun paths => ?_
  refine (pollDeleted_calm _ _ _).bind fun stats => ?_
  refine calm_next (by simp) (by simp [Replaces]) fun cache => calm_next (by simp) (by simp [Replaces]) fun dirs => ?_
  exact (pollDirs_calm _ _).bind fun _ => Watch.within_done _

end

section
variable [EtagScheme] {T F : Type} [FsBackend F] [DecidableEq T] {manager : SyncManager} {poller : T}
  {admits : Turn → Prop}

/-- The poll is not about to replace or remove the local copy of a leased path. -/
def SparesLeased (poller : T) (config : TaskConfig T F) : Prop :=
  ∀ path op next, config.prog poller = .call op next → Replaces path op →
    config.shared.manager.leases.lookup path = none

/-- A path that the poll has found unleased does not become leased before the poll is done with it. -/
def StaysUnleased (poller : T) (before after : TaskConfig T F) : Prop :=
  ∀ path, (leaseWatch F).Awaits path (before.prog poller) → before.shared.manager.leases.lookup path = none →
    after.shared.manager.leases.lookup path = none

omit [DecidableEq T] in
theorem leaseWatch_fits (manager : SyncManager) (poller : T) (admits : Turn → Prop) :
    (leaseWatch F).Fits tasks (taskRules manager poller admits) poller fun _ => True where
  gives _ _ _ _ _ _ := trivial
  tells op s reply t path effect looks tells := by
    cases looks
    obtain ⟨turn, -, acted⟩ := effect
    cases acted
    exact tells
  starts _ _ _ _ starts := by
    obtain ⟨-, call, polls, rfl⟩ := starts
    rw [polls rfl]
    exact pollInbound_calm.bind fun _ => Watch.within_done _

/-- In every run in which no path becomes leased between the poll's look at the leases and
what the poll does to the path after it, the poll leaves leased files alone. -/
theorem poll_spares_leased {first last : TaskConfig T F} (idle : first.prog poller = .done ())
    (reached : tasks.ReachableBy (taskRules manager poller admits) (StaysUnleased poller) first last) :
    SparesLeased poller last := by
  have watched := (leaseWatch_fits manager poller admits).run (fun _ _ stays => ⟨trivial, stays⟩)
    (Watch.watched_idle idle) reached
  exact fun path op next about replaces => watched.acts about replaces

end

/-! ### Concrete runs -/

section
open Side
open scoped ContentEtags

def aboutToReplace (path : String) : Task MemFs Unit → Bool
  | .call (.fs (.writeFileContent name _)) _ => decide (name = path)
  | _ => false

theorem aboutToReplace_spec {path : String} {task : Task MemFs Unit} (about : aboutToReplace path task = true) :
    ∃ op next, task = .call op next ∧ Replaces path op := by
  unfold aboutToReplace at about
  split at about
  · next name content k => exact ⟨_, k, rfl, .inr ⟨content, by rw [of_decide_eq_true about]⟩⟩
  · cases about

/-- The poller is idle, or the leases are as before. -/
def leasesKept (before after : TaskConfig Bool MemFs) : Bool :=
  isIdle (before.prog false) || decide (after.shared.manager.leases.entries = before.shared.manager.leases.entries)

theorem leasesKept_stays (before after : TaskConfig Bool MemFs) (kept : leasesKept before after = true) :
    StaysUnleased false before after := by
  intro path awaited free
  rcases (Bool.or_eq_true _ _).mp kept with idle | same
  · obtain ⟨value, done⟩ := isIdle_done idle
    rw [done] at awaited
    exact awaited.elim
  · rw [AList.ext (of_decide_eq_true same)]
    exact free

def bothFiles : TaskConfig Bool MemFs := resting [("files/a", [1]), ("files/b", [1])] .empty

/-- A poll that starts while /a is open for write downloads /b only. -/
def besideWriter : List (Bool × Call MemFs × Nat) :=
  [(true, .openWrite 1 "/a", 32), (true, .write "/a" (MemFs.writeLocal "/a" [2]), 8), (false, .pollInbound, 5)]

theorem besideWriter_passes : tasks.passes sampleMachine leasesKept (schedule besideWriter)
    bothFiles = true := by decide +kernel

theorem besideWriter_proper : Proper besideWriter := by simp [Proper, besideWriter]

theorem poll_spares_leased_sample :
    (aboutToReplace "/b" ((after bothFiles besideWriter).prog false) = true) ∧
      SparesLeased false (after bothFiles besideWriter) :=
  ⟨by decide +kernel, poll_spares_leased rfl (Team.follow_reachableBy leasesKept_stays _ _
    (schedule_allowed besideWriter_proper) besideWriter_passes)⟩

def oneFile : TaskConfig Bool MemFs := resting [("files/a", [1])] .empty

/-- The poll waits for its GET of /a while the other task opens /a for write and writes it. -/
def overtaken : List (Bool × Call MemFs × Nat) :=
  [(false, .pollInbound, 4), (true, .openWrite 1 "/a", 32), (true, .write "/a" (MemFs.writeLocal "/a" [2]), 8),
    (false, .pollInbound, 1)]

theorem poll_overwrites_leased :
    tasks.Reachable (taskRules sampleManager false Truthful) oneFile (after oneFile overtaken) ∧
      ¬ SparesLeased false (after oneFile overtaken) := by
  constructor
  · exact Team.follow_reachable _ _ (schedule_allowed (by simp [Proper, overtaken]))
  intro spares
  obtain ⟨op, next, about, replaces⟩ := aboutToReplace_spec
    (show aboutToReplace "/a" ((after oneFile overtaken).prog false) = true by decide +kernel)
  have free := spares "/a" op next about replaces
  have leased : ((after oneFile overtaken).shared.manager.leases.lookup "/a").isSome = true := by decide +kernel
  rw [free] at leased
  cases leased

end
end MonakaFs.Sync.Polling.Overwrites
