import MonakaFs.Sync.Tasks
import MonakaFs.Sync.Runs

/-! What a poll deletes.

The poll lists the store once. When the downloads are done it removes every cached
file, and every cached directory, that the listing does not contain. What was
created in the meantime is in the cache and in the store, but not in the listing.
-/

set_option autoImplicit false

namespace MonakaFs.Sync.Polling.Removals

open Async SyncManager

/-- What a poll removes. -/
inductive Item where
  | file (path : String)
  | dir (path : String)
  deriving DecidableEq

namespace Item

def key : Item → String
  | file path => fileKey path
  | dir path => dirMarkerKey path

/-- How a listing shows an item whose path is spelled as listings spell it. -/
def shown : Item → String × Bool
  | file path => (path, false)
  | dir path => (path, true)

def removal : Item → LocalCall
  | file path => .unlink path
  | dir path => .rmdir path

def Cached (cache : MetadataCache) : Item → Prop
  | file path => path ∈ cache.paths
  | dir path => path ∈ cache.dirs

/-- A file that is in the store as it was last seen, or a directory that has a marker. -/
def Live [EtagScheme] {F : Type} (s : Snapshot F) : Item → Prop
  | file path => ∃ version, object path s = some version ∧ s.manager.metadataCache.etag path = some version.etag
  | dir path => (s.store.objects.lookup (dirMarkerKey path)).isSome

def Listed (metas : List ObjectMeta) (item : Item) : Prop :=
  item.shown ∈ (metas.filterMap fileInfo).map fun info => (info.path, info.isDir)

theorem live_stored [EtagScheme] {F : Type} {s : Snapshot F} {item : Item} (live : item.Live s) :
    ∃ version, s.store.objects.lookup item.key = some version := by
  cases item with
  | file path =>
    obtain ⟨version, stored, -⟩ := live
    exact ⟨version, stored⟩
  | dir path => exact Option.isSome_iff_exists.mp live

end Item

/-- Every cached path is spelled the way a listing spells it. -/
def Spelled (cache : MetadataCache) : Prop := ∀ item : Item, item.Cached cache → pathFromFileKey item.key = some item.shown

section
variable [EtagScheme] {F : Type}

/-- The poll looks at the listing, and removes what it cached and does not find there. -/
def listWatch (F : Type) : Watch (syncSignature F) Item (Snapshot F) where
  looks op := op = .request (.list filesPrefix none)
  acts item op := op = .fs item.removal
  gives
    | .cache _, cache => Spelled cache
    | .arrange keys, order => ∀ key ∈ (order : List String), key ∈ keys
    | _, _ => True
  tells
    | .request (.list ..), listed, item => pathFromFileKey item.key = some item.shown ∧
        ∃ metas, (listed : Except S3Error (List ObjectMeta)) = .ok metas ∧ ¬ item.Listed metas
    | _, _, _ => False
  safe item s := ¬ item.Live s

/-- What is stored is listed. -/
theorem stored_listed {store : ObjectStore} {item : Item} {version : MemObject}
    (spelled : pathFromFileKey item.key = some item.shown) (stored : store.objects.lookup item.key = some version) :
    item.Listed (store.list filesPrefix none) := by
  have here : filesPrefix.toList.isPrefixOf item.key.toList = true := by
    unfold pathFromFileKey at spelled
    split at spelled
    · next found => exact found
    · cases spelled
  have entry : (⟨item.key, version⟩ : Sigma fun _ => MemObject) ∈ store.objects.entries := AList.mem_lookup_iff.mp stored
  have named : fileInfo (version.meta item.key) =
      some ⟨item.shown.1, version.etag, version.lastModified, version.data.length, item.shown.2⟩ := by
    simp only [fileInfo, MemObject.meta, spelled, Option.map_some]
  refine List.mem_map.mpr ⟨_, List.mem_filterMap.mpr ⟨_, ?_, named⟩, rfl⟩
  exact List.mem_map.mpr ⟨_, List.mem_filter.mpr ⟨entry, here⟩, rfl⟩

/-- An operation of the poll after its listing, that removes only such items. -/
abbrev Removing (gone : Item → Prop) (op : Op F) : Prop :=
  ¬ (listWatch F).looks op ∧ ∀ item, (listWatch F).acts item op → gone item

variable {gone : Item → Prop}

theorem elsewhere {op : Op F} (unlisting : op ≠ .request (.list filesPrefix none))
    (other : ∀ path, op ≠ .fs (.unlink path) ∧ op ≠ .fs (.rmdir path)) : Removing gone op := by
  refine ⟨unlisting, fun item acts => ?_⟩
  cases item with
  | file path => exact absurd acts (other path).1
  | dir path => exact absurd acts (other path).2

theorem removal_removing (item : Item) (allowed : gone item) : Removing gone (Op.fs (F := F) item.removal) := by
  refine ⟨by simp [listWatch], fun other acts => ?_⟩
  have same : other = item := by cases item <;> cases other <;> simp_all [listWatch, Item.removal]
  rw [same]
  exact allowed

theorem downloadFile_removing (info : S3ObjectInfo) :
    (downloadFile (F := F) info).Only (I := syncSignature F) (Removing gone) := by
  simp only [downloadFile, getFile_bind, only_next]
  refine ⟨elsewhere (by simp) (by simp), fun found => ?_⟩
  rcases (found : Except S3Error (Option (Bytes × ObjectMeta))) with e | _ | ⟨content, info⟩
  · trivial
  · trivial
  simp only [storeDownload, onFs_bind, withCache_bind, only_next]
  refine ⟨elsewhere (by simp) (by simp), fun stored => ?_⟩
  rcases (stored : Except S3Error Unit) with e | _
  · trivial
  · exact ⟨elsewhere (by simp) (by simp), fun _ => trivial⟩

theorem pollFile_removing (info : S3ObjectInfo) : (pollFile (F := F) info).Only (I := syncSignature F) (Removing gone) := by
  simp only [pollFile, withCache_bind, isLocked_bind, only_next]
  refine ⟨elsewhere (by simp) (by simp), fun cache => ?_⟩
  split
  · trivial
  refine ⟨elsewhere (by simp) (by simp), fun leases => ?_⟩
  dsimp only
  split
  · trivial
  simp only [hasPendingOp_bind, only_next]
  refine ⟨elsewhere (by simp) (by simp), fun queue => ?_⟩
  split
  · trivial
  · exact (downloadFile_removing info).bind fun result => by split <;> trivial

theorem pollMarker_removing (info : S3ObjectInfo) : (pollMarker (F := F) info).Only (I := syncSignature F) (Removing gone) := by
  simp only [pollMarker, withCache_bind, onFs_bind, only_next]
  refine ⟨elsewhere (by simp) (by simp), fun cache => ?_⟩
  split
  · trivial
  · refine ⟨elsewhere (by simp) (by simp), fun _ => ⟨elsewhere (by simp) (by simp), fun _ => trivial⟩⟩

theorem pollObjects_removing (objects : List S3ObjectInfo) (stats : SyncStats) :
    (pollObjects (F := F) objects stats).Only (I := syncSignature F) (Removing gone) := by
  induction objects generalizing stats with
  | nil => trivial
  | cons info rest ih =>
    unfold pollObjects
    split
    · exact (pollMarker_removing info).bind fun _ => ih _
    · exact (pollFile_removing info).bind fun _ => ih _

theorem pollGone_removing (listed : List String) (path : String) :
    (pollGone (F := F) listed path).Only (I := syncSignature F) (Removing fun item => path ∉ listed ∧ item = .file path) := by
  unfold pollGone
  split
  · trivial
  next unlisted =>
  simp only [isLocked_bind, only_next]
  refine ⟨elsewhere (by simp) (by simp), fun leases => ?_⟩
  split
  · trivial
  simp only [hasPendingOp_bind, only_next]
  refine ⟨elsewhere (by simp) (by simp), fun queue => ?_⟩
  split
  · trivial
  simp only [deleteLocalFile, onFs_bind, withCache_bind]
  refine ⟨removal_removing (.file path) ⟨unlisted, rfl⟩, fun removed => ?_⟩
  rcases (removed : Except S3Error Unit) with e | _
  · trivial
  · exact ⟨elsewhere (by simp) (by simp), fun _ => trivial⟩

theorem pollDeleted_removing (listed paths : List String) (stats : SyncStats) :
    (pollDeleted (F := F) listed paths stats).Only (I := syncSignature F)
      (Removing fun item => ∃ path ∈ paths, path ∉ listed ∧ item = .file path) := by
  induction paths generalizing stats with
  | nil => trivial
  | cons path rest ih =>
    apply Prog.Only.bind
    · refine (pollGone_removing listed path).mono fun op only => ⟨only.1, fun item acts => ?_⟩
      exact ⟨path, List.mem_cons_self, only.2 item acts⟩
    · intro deleted
      refine (ih _).mono fun op only => ⟨only.1, fun item acts => ?_⟩
      obtain ⟨other, member, unlisted⟩ := only.2 item acts
      exact ⟨other, List.mem_cons_of_mem _ member, unlisted⟩

theorem pollDirs_removing (listed dirs : List String) :
    (pollDirs (F := F) listed dirs).Only (I := syncSignature F)
      (Removing fun item => ∃ dir ∈ dirs, dir ∉ listed ∧ item = .dir dir) := by
  induction dirs with
  | nil => trivial
  | cons dir rest ih =>
    have later := ih.mono fun op only => show Removing (fun item => ∃ name ∈ dir :: rest, name ∉ listed ∧ item = .dir name) op from
      ⟨only.1, fun item acts => let ⟨other, member, unlisted⟩ := only.2 item acts
        ⟨other, List.mem_cons_of_mem _ member, unlisted⟩⟩
    unfold pollDirs
    split
    · exact later
    next unlisted =>
    simp only [onFs_bind, withCache_bind, only_next]
    refine ⟨removal_removing (.dir dir) ⟨dir, List.mem_cons_self, unlisted, rfl⟩, fun _ => ?_⟩
    exact ⟨elsewhere (by simp) (by simp), fun _ => later⟩

/-- A cached item that is gone from the listing was shown by no entry of it. -/
theorem tells_gone {metas : List ObjectMeta} {cache : MetadataCache} {item : Item} (spelled : Spelled cache)
    (cached : item.Cached cache)
    (unlisted : item.shown.1 ∉ ((metas.filterMap fileInfo).filter fun info => info.isDir == item.shown.2).map (·.path)) :
    (listWatch F).tells (.request (.list filesPrefix none)) (.ok metas) item := by
  refine ⟨spelled item cached, metas, rfl, fun listed => unlisted ?_⟩
  obtain ⟨info, member, same⟩ := List.mem_map.mp listed
  refine List.mem_map.mpr ⟨info, List.mem_filter.mpr ⟨member, ?_⟩, congrArg Prod.fst same⟩
  simp [← same]

theorem pollInbound_calm : (listWatch F).Calm pollInbound := by
  have aside {op : Op F} {A : Type} {k : op.Reply → Task F A} {allowed : Item → Prop} (removing : Removing allowed op)
      (rest : ∀ reply, (listWatch F).gives op reply → (listWatch F).Within allowed (k reply)) :
      (listWatch F).Within allowed (next op k) := Watch.within_call removing.1 removing.2 rest
  simp only [pollInbound, listFiles_bind]
  refine Watch.calm_look rfl (fun item => by simp [listWatch]) fun listed _ => ?_
  rcases (listed : Except S3Error (List ObjectMeta)) with e | metas
  · exact Watch.within_done _
  simp only [Except.map, withCache_bind, arrange_bind]
  apply Watch.within_bind (pollObjects_removing _ _)
  intro stats
  refine aside (elsewhere (by simp) (by simp)) fun cache spelled => ?_
  refine aside (elsewhere (by simp) (by simp)) fun paths known => ?_
  apply Watch.within_bind
  · refine (pollDeleted_removing _ _ _).mono fun op only => ⟨only.1, fun item acts => ?_⟩
    obtain ⟨path, member, unlisted, rfl⟩ := only.2 item acts
    exact tells_gone spelled (known path member) (by simpa [Item.shown] using unlisted)
  intro stats
  refine aside (elsewhere (by simp) (by simp)) fun cache spelled => ?_
  refine aside (elsewhere (by simp) (by simp)) fun dirs known => ?_
  apply Watch.within_bind
  · refine (pollDirs_removing _ _).mono fun op only => ⟨only.1, fun item acts => ?_⟩
    obtain ⟨dir, member, unlisted, rfl⟩ := only.2 item acts
    exact tells_gone spelled (known dir member) (by simpa [Item.shown] using unlisted)
  · exact fun _ => Watch.within_done _

end

section
variable [EtagScheme] {T F : Type} [FsBackend F] [DecidableEq T] {manager : SyncManager} {poller : T}
  {admits : Turn → Prop}

/-- The poll is not about to remove a live file or directory. -/
def SparesLive (poller : T) (config : TaskConfig T F) : Prop :=
  ∀ (item : Item) next, config.prog poller = .call (.fs item.removal) next → ¬ item.Live config.shared

/-- Cached paths are spelled as listings spell them, and nothing that the poll did not
list comes to life before the poll has removed it. -/
def StaysGone (poller : T) (before after : TaskConfig T F) : Prop :=
  Spelled before.shared.manager.metadataCache ∧
    ∀ item : Item, (listWatch F).Awaits item (before.prog poller) → ¬ item.Live before.shared → ¬ item.Live after.shared

omit [DecidableEq T] in
theorem listWatch_fits (manager : SyncManager) (poller : T) (admits : Turn → Prop) :
    (listWatch F).Fits tasks (taskRules manager poller admits) poller fun s => Spelled s.manager.metadataCache where
  gives op s reply t spelled effect := by
    obtain ⟨turn, -, acted⟩ := effect
    cases op with
    | cache change => cases acted; exact spelled
    | arrange keys => cases acted; exact fun key member => (turn.walk keys).mem_iff.mp member
    | request | queue | leases | schedule | now | wake | jitter | fs | app => trivial
  tells op s reply t item effect looks tells := by
    cases looks
    obtain ⟨turn, -, acted⟩ := effect
    obtain ⟨spelled, metas, rfl, unlisted⟩ := tells
    obtain ⟨rfl, unchanged⟩ := list_answered (congrArg Prod.fst acted)
    have same : t.store = s.store := (congrArg (fun answer => answer.2.store) acted).symm.trans unchanged
    intro live
    obtain ⟨version, stored⟩ := Item.live_stored live
    exact unlisted (stored_listed spelled (same ▸ stored))
  starts _ _ _ _ starts := by
    obtain ⟨-, call, polls, rfl⟩ := starts
    rw [polls rfl]
    exact pollInbound_calm.bind fun _ => Watch.within_done _

/-- In every run in which nothing the poll did not list comes to life before the poll
removes it, the poll removes nothing that is live. -/
theorem poll_spares_live {first last : TaskConfig T F} (idle : first.prog poller = .done ())
    (reached : tasks.ReachableBy (taskRules manager poller admits) (StaysGone poller) first last) :
    SparesLive poller last := by
  have watched := (listWatch_fits manager poller admits).run (fun _ _ stays => stays)
    (Watch.watched_idle idle) reached
  exact fun item next about => watched.acts about rfl

end

/-! ### Concrete runs -/

section
open Side
open scoped ContentEtags

def aboutToRemove : Task MemFs Unit → Option Item
  | .call (.fs (.unlink path)) _ => some (.file path)
  | .call (.fs (.rmdir path)) _ => some (.dir path)
  | _ => none

theorem aboutToRemove_spec {task : Task MemFs Unit} {item : Item} (about : aboutToRemove task = some item) :
    ∃ next, task = .call (.fs item.removal) next := by
  unfold aboutToRemove at about
  split at about
  · next path next => cases about; exact ⟨next, rfl⟩
  · next path next => cases about; exact ⟨next, rfl⟩
  · cases about

def wellSpelled (cache : MetadataCache) : Bool :=
  cache.paths.all (fun path => decide (pathFromFileKey (fileKey path) = some (path, false))) &&
    cache.dirs.all fun path => decide (pathFromFileKey (dirMarkerKey path) = some (path, true))

theorem wellSpelled_spelled {cache : MetadataCache} (well : wellSpelled cache = true) : Spelled cache := by
  simp only [wellSpelled, Bool.and_eq_true, List.all_eq_true, decide_eq_true_eq] at well
  intro item cached
  cases item with
  | file path => exact well.1 path cached
  | dir path => exact well.2 path cached

/-- The poller is idle, or neither the store nor the cache has changed. -/
def viewKept (before after : TaskConfig Bool MemFs) : Bool :=
  wellSpelled before.shared.manager.metadataCache && (isIdle (before.prog false) ||
    (decide (after.shared.store.objects.entries = before.shared.store.objects.entries) &&
      decide (after.shared.manager.metadataCache.files.entries = before.shared.manager.metadataCache.files.entries)))

theorem viewKept_stays (before after : TaskConfig Bool MemFs) (kept : viewKept before after = true) :
    StaysGone false before after := by
  obtain ⟨well, kept⟩ := (Bool.and_eq_true _ _).mp kept
  refine ⟨wellSpelled_spelled well, fun item awaited gone => ?_⟩
  rcases (Bool.or_eq_true _ _).mp kept with idle | same
  · obtain ⟨value, done⟩ := isIdle_done idle
    rw [done] at awaited
    exact awaited.elim
  · rw [Bool.and_eq_true, decide_eq_true_eq, decide_eq_true_eq] at same
    have objects := AList.ext same.1
    have files := AList.ext same.2
    cases item with
    | file path =>
      rintro ⟨version, stored, cached⟩
      refine gone ⟨version, by rw [object, ← objects]; exact stored, ?_⟩
      simpa only [MetadataCache.etag, MetadataCache.get, files] using cached
    | dir path =>
      simp only [Item.Live, objects] at gone ⊢
      exact gone

/-- /a was deleted by another instance, and is still cached here. -/
def staleCache : TaskConfig Bool MemFs :=
  resting [] (MetadataCache.empty.updateAfterDownload "/a" (etagFor [1]) 0 1)

def pollAlone : List (Bool × Call MemFs × Nat) := [(false, .pollInbound, 5)]

theorem pollAlone_passes : tasks.passes sampleMachine viewKept (schedule pollAlone) staleCache = true := by decide +kernel

theorem poll_spares_live_sample :
    (∃ next, (after staleCache pollAlone).prog false = .call (.fs (Item.file "/a").removal) next) ∧
      SparesLive false (after staleCache pollAlone) :=
  ⟨aboutToRemove_spec (by decide +kernel), poll_spares_live rfl (Team.follow_reachableBy viewKept_stays _ _
    (schedule_allowed (by simp [Proper, pollAlone])) pollAlone_passes)⟩

/-- The listing is on its way to the poll while the other task creates /a and closes it. -/
def createdMeanwhile : List (Bool × Call MemFs × Nat) :=
  [(false, .pollInbound, 1), (true, .openWrite 1 "/a", 32), (true, .write "/a" (MemFs.writeLocal "/a" [2]), 8),
    (true, .close "/a", 32), (false, .pollInbound, 4)]

/-- The listing is on its way to the poll while the other task creates a directory. -/
def madeMeanwhile : List (Bool × Call MemFs × Nat) :=
  [(false, .pollInbound, 1), (true, .mkdir "/d", 8), (false, .pollInbound, 4)]

/-- The poll is about to remove a file, or a directory, that is live. -/
theorem poll_removes_live :
    (tasks.Reachable (taskRules sampleManager false Truthful) (resting [] .empty) (after (resting [] .empty) createdMeanwhile) ∧
      ¬ SparesLive false (after (resting [] .empty) createdMeanwhile)) ∧
    tasks.Reachable (taskRules sampleManager false Truthful) (resting [] .empty) (after (resting [] .empty) madeMeanwhile) ∧
      ¬ SparesLive false (after (resting [] .empty) madeMeanwhile) := by
  refine ⟨⟨Team.follow_reachable _ _ (schedule_allowed (by simp [Proper, createdMeanwhile])), fun spares => ?_⟩,
    Team.follow_reachable _ _ (schedule_allowed (by simp [Proper, madeMeanwhile])), fun spares => ?_⟩
  · obtain ⟨next, about⟩ := aboutToRemove_spec
      (show aboutToRemove ((after (resting [] .empty) createdMeanwhile).prog false) = some (.file "/a") by decide +kernel)
    obtain ⟨version, stored, data⟩ := Option.map_eq_some_iff.mp
      (show (object "/a" (after (resting [] .empty) createdMeanwhile).shared).map (·.data) = some [2] by decide +kernel)
    refine spares _ next about ⟨version, stored, ?_⟩
    rw [MemObject.etag, data]
    decide +kernel
  · obtain ⟨next, about⟩ := aboutToRemove_spec
      (show aboutToRemove ((after (resting [] .empty) madeMeanwhile).prog false) = some (.dir "/d") by decide +kernel)
    exact spares _ next about (show Option.isSome _ = true by decide +kernel)

end
end MonakaFs.Sync.Polling.Removals
