import MonakaFs.Sync.InitialLoad

/-! One poll over the in-memory filesystem, from a store that is at rest.

The poll is the only thing that runs. Files that are neither leased nor queued come to be
what is listed: the others among the cached ones go, and everything else stays.
-/

set_option autoImplicit false

namespace MonakaFs.Sync

open Async FsCore SyncManager

/-- Neither leased nor waiting to be pushed. -/
def free (manager : ManagerState) (path : String) : Bool :=
  !((manager.leases.lookup path).isSome || manager.outboundQueue.any fun op => op.path = path)

section
variable {loads : List (String × Bytes)} {path : String}

/-- Where components tell the paths apart, either key finds the same download. -/
theorem latest_components (apart : ∀ load ∈ loads, components load.1 = components path → load.1 = path) :
    latest components loads (components path) = latest id loads path := by
  have same : (loads.filter fun load => components load.1 = components path) = loads.filter fun load => id load.1 = path :=
    List.filter_congr fun load member => decide_eq_decide.mpr ⟨apart load member, fun same => congrArg components same⟩
  rw [latest, latest, same]

end

section
variable [EtagScheme] {T : Type} [TimeProvider T] [target : Target] {store : ObjectStore}

/-- The listed files that a poll may replace. -/
def settled (store : ObjectStore) (manager : ManagerState) : List (String × Bytes) :=
  (listedFiles store).filter fun load => free manager load.1

/-- The paths that the listing or the cache knows. -/
def Known' (store : ObjectStore) (cache : MetadataCache) (path : String) : Prop :=
  path ∈ (listedFiles store).map (·.1) ∨ (cache.etag path).isSome

/-- A state from which a poll can bring everything that is listed. -/
structure Pollable (store : ObjectStore) (start : Snapshot (AdapterFs T)) : Prop where
  working : Working start.fs
  offers : Offers store start
  /-- A listed key is the one that its path leads back to. -/
  keys : ∀ entry ∈ store.list filesPrefix none, ∀ info, fileInfo entry = some info → info.isDir = false → fileKey info.path = entry.key
  names : ∀ path other, Known' store start.manager.metadataCache path → Known' store start.manager.metadataCache other →
    components path = components other → path = other
  /-- A cached file is there, as it was cached. -/
  faithful : ∀ path etag, start.manager.metadataCache.etag path = some etag → free start.manager path = true →
    ∃ data, start.fs.files (components path) = some data ∧ etagFor data = etag
  fits : ∀ load ∈ listedFiles store, "." ∉ components load.1 ∧ load.2.length < 2 ^ target.usizeBits
  /-- There is room for every listed file, among the local ones and among each other. -/
  places : ∀ load ∈ listedFiles store, ¬ start.fs.Occupied (components load.1) ∧
    ∀ front, front <+: (components load.1).dropLast → start.fs.files front = none
  apart : ¬ Clashes (listedDirs store) (listedFiles store)
  room : start.fs.nextInode + cost ((listing store).map (·.path)) < 2 ^ 64

/-- These downloads were brought, and nothing else was changed. -/
structure Polled (store : ObjectStore) (start : Snapshot (AdapterFs T)) (done : List (String × Bytes)) (t : Snapshot (AdapterFs T)) : Prop where
  working : Working t.fs
  offers : Offers store t
  leases : t.manager.leases = start.manager.leases
  queue : t.manager.outboundQueue = start.manager.outboundQueue
  files : ∀ names, t.fs.files names = (latest components done names).or (start.fs.files names)
  folders : ∀ names, t.fs.Occupied names → start.fs.Occupied names ∨ Folder (listedDirs store) (listedFiles store) names
  etags : ∀ path, t.manager.metadataCache.etag path = ((latest id done path).map etagFor).or (start.manager.metadataCache.etag path)

section
variable {start t u : Snapshot (AdapterFs T)} {done : List (String × Bytes)} {path : String} {data : Bytes}

theorem Polled.moves (polled : Polled store start done t) (moves : atRest.moves t u) : Polled store start done u where
  working := moves.1.2 ▸ polled.working
  offers := polled.offers.moves moves
  leases := by rw [moves.1.1]; exact polled.leases
  queue := by rw [moves.1.1]; exact polled.queue
  files := by rw [moves.1.2]; exact polled.files
  folders := by rw [moves.1.2]; exact polled.folders
  etags := by rw [moves.1.1]; exact polled.etags

/-- A listed file is in the store, under the tag it was listed with. -/
theorem Pollable.listed (pollable : Pollable store start) {info : S3ObjectInfo} (member : info ∈ listing store) (file : info.isDir = false) :
    ∃ object, store.objects.lookup (fileKey info.path) = some object ∧ object.etag = info.etag ∧
      (info.path, object.data) ∈ listedFiles store := by
  obtain ⟨entry, listed, named⟩ := List.mem_filterMap.mp member
  obtain ⟨⟨key, object⟩, stored, rfl⟩ := List.mem_map.mp listed
  have own := pollable.keys _ listed info named file
  have found : store.objects.lookup (fileKey info.path) = some object := by
    rw [own]
    exact AList.mem_lookup_iff.mpr (List.mem_filter.mp stored).1
  refine ⟨object, found, ?_, ?_⟩
  · obtain ⟨_, -, rfl⟩ := Option.map_eq_some_iff.mp named
    rfl
  · refine List.mem_filterMap.mpr ⟨info, List.mem_filter.mpr ⟨member, by rw [file]; rfl⟩, ?_⟩
    rw [found]
    rfl

/-- Nothing stands in the way of a listed file. -/
theorem Polled.stored (word : target.usizeBits ≤ 64) (polled : Polled store start done t) (pollable : Pollable store start)
    (within : done ⊆ listedFiles store) (member : (path, data) ∈ listedFiles store)
    (room : t.fs.nextInode + (components path).length < 2 ^ 64) : (writeFileContent path data t.fs).1 = .ok () := by
  obtain ⟨plain, small⟩ := pollable.fits _ member
  obtain ⟨free, above⟩ := pollable.places _ member
  have unfolded : ¬ Folder (listedDirs store) (listedFiles store) (components path) := fun folder => pollable.apart ⟨_, member, folder⟩
  refine (stored_iff word polled.working plain room small).mpr ⟨fun root => unfolded (.inl root), ?_, fun there => ?_⟩
  · rw [Fs.blocked_iff]
    rintro ⟨front, short, held⟩
    rw [polled.files, above front short, Option.or_none] at held
    obtain ⟨other, one, rfl⟩ := (latest_ne_none components done).mp held
    exact pollable.apart ⟨other, within one, .inr (.inr ⟨_, member, short⟩)⟩
  · exact (polled.folders _ there).elim free unfolded

end

end
end MonakaFs.Sync
