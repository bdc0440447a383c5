import MonakaFs.Cli.Overlap

/-! What is restored from an embedded image.

The image is faithful if its inodes have one number and one entry each, and if every
mapped file is read back by its path. It is, exactly if the mounts do not overlap in the
wrong way and no file is mapped to a path that ends in a dot.
-/

set_option autoImplicit false

namespace MonakaFs.Cli

open FsCore FsCore.Fs BlockStorage

/-- A directory of a snapshot has an entry for an inode. -/
def Names (snapshot : FsSnapshot) (d : InodeId) (name : String) (v : InodeId) : Prop :=
  ∃ inode ∈ snapshot.inodes, inode.id = d ∧ ∃ entries, inode.content = .dir entries ∧ entries.lookup name = some v

section
variable [Target] {T : Type} [TimeProvider T]

/-- A file that is opened by its path reads as these bytes. -/
def Shows (fs : Fs T) (path : String) (bytes : Bytes) : Prop :=
  ∃ fd later, fs.openPathWithFlags path O_RDONLY = (.ok fd, later) ∧ ∀ wanted, (later.read fd wanted).1 = .ok (bytes.take wanted)

/-- The inodes have one number and one entry each, and a path shows what was mapped to it last. -/
structure Faithful (mounts : List Mount) (snapshot : FsSnapshot) (clock : T) : Prop where
  distinct : (snapshot.inodes.map (·.id)).Nodup
  bounded : ∀ inode ∈ snapshot.inodes, inode.id < snapshot.nextInode
  named : ∀ inode ∈ snapshot.inodes, inode.id ≠ snapshot.rootInode →
    ∃! place : InodeId × String, Names snapshot place.1 place.2 inode.id
  shown : ∀ front path bytes back, mapped mounts = front ++ (path, some bytes) :: back →
    (∀ later ∈ back, later.2.isSome → components later.1 ≠ components path) → Shows (fromSnapshot snapshot clock) path bytes

end

/-- No file is put over another entry, nothing is put below a file, and every file is entered
under the last component of its path. -/
structure Clear (mounts : List Mount) : Prop where
  apart : (mapped mounts).Pairwise Apart
  proper : ∀ entry ∈ mapped mounts, entry.2.isSome → target entry.1 = some (components entry.1)

/-! ### The snapshot of an image -/

section
variable {T : Type} {image : Image} {d v id : InodeId} {name : String} {clock : T}

open Image

@[simp] theorem newInode_id (id : InodeId) (content : Option Bytes) : (newInode id content).id = id := by
  cases content <;> rfl

theorem fill_id (inode : InodeSnapshot) : (image.fill inode).id = inode.id := by
  unfold fill
  split <;> rfl

theorem fill_dir (id : InodeId) : (image.fill (newInode id none)).content = .dir ((image.dirEntries.lookup id).getD ∅) := by
  unfold fill
  cases found : image.dirEntries.lookup id <;> simp [newInode, dirInode, found]

theorem fill_file (id : InodeId) (bytes : Bytes) : image.fill (newInode id (some bytes)) = fileInode id bytes := by
  unfold fill
  cases image.dirEntries.lookup id <;> rfl

section
variable (sound : image.Sound)
include sound

theorem all_iff {inode : InodeSnapshot} : image.all[id]? = some inode ↔ ∃ content, image.stored id = some content ∧ inode = newInode id content := by
  constructor
  · intro found
    exact ⟨bytesOf inode, by rw [stored, found, Option.map_some], sound.numbered found⟩
  · rintro ⟨content, found, rfl⟩
    obtain ⟨inode, there, rfl⟩ := Option.map_eq_some_iff.mp found
    rw [there, ← sound.numbered there]

theorem snapshot_at (id : InodeId) : image.snapshot.inodes[id]? = (image.stored id).map fun content => image.fill (newInode id content) := by
  have inodes : image.snapshot.inodes = image.all.map image.fill := rfl
  rw [inodes, List.getElem?_map]
  cases found : image.all[id]? with
  | none => rw [stored, found, Option.map_none, Option.map_none, Option.map_none]
  | some inode =>
    obtain ⟨content, there, rfl⟩ := (all_iff sound).mp found
    rw [there, Option.map_some, Option.map_some]

theorem snapshot_ids : image.snapshot.inodes.map (·.id) = List.range image.nextInode := by
  refine List.ext_getElem? fun id => ?_
  rw [List.getElem?_map, snapshot_at sound, Option.map_map]
  cases found : image.stored id with
  | none =>
    have beyond : ¬ id < image.nextInode := by
      rw [← sound.stored_some, found]
      exact Bool.false_ne_true
    rw [List.getElem?_eq_none (by rw [List.length_range]; exact Nat.not_lt.mp beyond)]
    rfl
  | some content =>
    have within : id < image.nextInode := sound.stored_some.mp (by rw [found]; rfl)
    rw [List.getElem?_range within, Option.map_some, Function.comp, fill_id, newInode_id]

theorem mem_snapshot {inode : InodeSnapshot} : inode ∈ image.snapshot.inodes ↔
    ∃ id content, image.stored id = some content ∧ inode = image.fill (newInode id content) := by
  rw [List.mem_iff_getElem?]
  refine exists_congr fun id => ?_
  rw [snapshot_at sound, Option.map_eq_some_iff]
  simp only [eq_comm]

theorem names_iff : Names image.snapshot d name v ↔ image.stored d = some none ∧ image.link d name = some v := by
  constructor
  · rintro ⟨inode, member, rfl, entries, isDir, named⟩
    obtain ⟨id, content, found, rfl⟩ := (mem_snapshot sound).mp member
    rw [fill_id, newInode_id]
    cases content with
    | some bytes =>
      rw [fill_file] at isDir
      cases isDir
    | none =>
      rw [fill_dir] at isDir
      cases isDir
      refine ⟨found, ?_⟩
      rw [link]
      cases there : image.dirEntries.lookup id with
      | none =>
        rw [there] at named
        cases named
      | some entries =>
        rw [there] at named
        exact named
  · rintro ⟨found, named⟩
    obtain ⟨entries, there, named⟩ := Option.bind_eq_some_iff.mp named
    refine ⟨_, (mem_snapshot sound).mpr ⟨d, none, found, rfl⟩, by rw [fill_id, newInode_id], entries, ?_, named⟩
    rw [fill_dir, there, Option.getD_some]

/-! ### The restored filesystem -/

section
variable [Target]

omit sound in
theorem foldl_insert_absent {inodes : List InodeSnapshot} (absent : id ∉ inodes.map (·.id)) (table : Table InodeId Inode) :
    (inodes.foldl (fun table inode => AList.insert inode.id inode.restore table) table).lookup id = table.lookup id := by
  induction inodes generalizing table with
  | nil => rfl
  | cons inode inodes ih =>
    rw [List.map_cons, List.mem_cons, not_or] at absent
    obtain ⟨other, absent⟩ := absent
    rw [List.foldl_cons, ih absent, Table.lookup_insert, if_neg other]

omit sound in
/-- Inodes with different numbers are put in one after the other. -/
theorem foldl_insert_member {inodes : List InodeSnapshot} {inode : InodeSnapshot} (distinct : (inodes.map (·.id)).Nodup)
    (member : inode ∈ inodes) (table : Table InodeId Inode) :
    (inodes.foldl (fun table inode => AList.insert inode.id inode.restore table) table).lookup inode.id = some inode.restore := by
  induction inodes generalizing table with
  | nil => cases member
  | cons first inodes ih =>
    obtain ⟨unlike, distinct⟩ := List.nodup_cons.mp distinct
    rw [List.foldl_cons]
    rcases List.mem_cons.mp member with rfl | member
    · rw [foldl_insert_absent unlike, Table.lookup_insert, if_pos rfl]
    · exact ih distinct member _

theorem restored_inode (clock : T) (id : InodeId) : (fromSnapshot image.snapshot clock).inodeTable.lookup id =
    (image.stored id).map fun content => (image.fill (newInode id content)).restore := by
  have ids := snapshot_ids sound
  rw [fromSnapshot]
  dsimp only
  cases found : image.stored id with
  | none =>
    have beyond : ¬ id < image.nextInode := by
      rw [← sound.stored_some, found]
      exact Bool.false_ne_true
    refine foldl_insert_absent ?_ ∅
    rw [ids, List.mem_range]
    exact beyond
  | some content =>
    have member := (mem_snapshot sound).mpr ⟨id, content, found, rfl⟩
    have distinct : (image.snapshot.inodes.map (·.id)).Nodup := by
      rw [ids]
      exact List.nodup_range
    have placed := foldl_insert_member distinct member ∅
    rw [fill_id, newInode_id] at placed
    exact placed

theorem restored_kind (clock : T) (id : InodeId) :
    (fromSnapshot image.snapshot clock).kind id = (image.stored id).map Option.isNone := by
  rw [Fs.kind, restored_inode sound, Option.map_map]
  refine congrArg (Option.map · _) (funext fun content => ?_)
  cases content with
  | none =>
    rw [Function.comp, InodeSnapshot.restore, fill_dir]
    rfl
  | some bytes =>
    rw [Function.comp, fill_file]
    rfl

theorem restored_links (clock : T) (name : String) (d : InodeId) :
    (fromSnapshot image.snapshot clock).links d name = if image.stored d = some none then image.link d name else none := by
  split
  · next isDir =>
    have entries : (fromSnapshot image.snapshot clock).entries d = some ((image.dirEntries.lookup d).getD ∅) := by
      rw [entries_eq, restored_inode sound, isDir, Option.map_some, Option.bind_some, InodeSnapshot.restore, fill_dir]
      rfl
    rw [links_of_entries entries, link]
    cases image.dirEntries.lookup d <;> rfl
  · next other =>
    refine links_none ?_ name
    rw [restored_kind sound]
    intro isDir
    obtain ⟨content, found, none⟩ := Option.map_eq_some_iff.mp isDir
    rw [found, Option.isNone_iff_eq_none.mp none] at other
    exact other rfl

end

end
end

/-! ### Opening for reading -/

section
variable [Target] {T : Type} [TimeProvider T] {fs later : Fs T} {fd : Fd} {path : String} {v : InodeId} {bytes : Bytes}

omit [TimeProvider T] in
theorem read_opened {metadata : Metadata} {storage : BlockStorage} (found : fs.inodeTable.lookup v = some ⟨metadata, .file storage⟩)
    (wanted : Nat) : ((fs.insertFd v O_RDONLY).2.read fs.nextFd wanted).1 = .ok (storage.read 0 wanted) := by
  have handle : (fs.insertFd v O_RDONLY).2.fdTable.lookup fs.nextFd = some ⟨v, 0, O_RDONLY⟩ := by
    rw [insertFd, Table.lookup_insert, if_pos rfl]
  have same : (fs.insertFd v O_RDONLY).2.inodeTable = fs.inodeTable := rfl
  have front : toUsize 0 = 0 := Nat.zero_mod _
  rw [Fs.read, readThrough, handle]
  dsimp only
  rw [if_neg (by decide), same, found]
  dsimp only
  rw [front]

omit [TimeProvider T] in
theorem file_of_read {wanted : Nat} (read : ((fs.insertFd v O_RDONLY).2.read fs.nextFd wanted).1 = .ok bytes) :
    fs.kind v = some false := by
  have handle : (fs.insertFd v O_RDONLY).2.fdTable.lookup fs.nextFd = some ⟨v, 0, O_RDONLY⟩ := by
    rw [insertFd, Table.lookup_insert, if_pos rfl]
  have same : (fs.insertFd v O_RDONLY).2.inodeTable = fs.inodeTable := rfl
  rw [Fs.read, readThrough, handle] at read
  dsimp only at read
  rw [if_neg (by decide), same] at read
  cases found : fs.inodeTable.lookup v with
  | none =>
    rw [found] at read
    cases read
  | some inode =>
    obtain ⟨metadata, content⟩ := inode
    rw [found] at read
    cases content with
    | dir entries => cases read
    | file storage =>
      rw [kind, found]
      rfl

/-- What was opened and can be read is a file with an entry. -/
theorem shows_file (root : fs.kind fs.rootInode = some true) (shows : Shows fs path bytes) :
    ∃ d name v, (components path).getLast? = some name ∧ fs.links d name = some v ∧ fs.kind v = some false := by
  obtain ⟨fd, later, opened, reads⟩ := shows
  have read := reads 0
  unfold openPathWithFlags at opened
  split at opened
  · cases opened
  split at opened
  · cases opened
    rw [file_of_read read] at root
    cases root
  next name last =>
  split at opened
  · cases opened
  next parent _ =>
  rw [openEntry, findOrCreate_reads] at opened
  cases found : fs.findInode parent name with
  | error e =>
    rw [found] at opened
    cases opened
  | ok v =>
    obtain ⟨named, there⟩ := findInode_ok.mp found
    rw [found] at opened
    dsimp only at opened
    rw [openInode_reads there] at opened
    cases opened
    exact ⟨parent, name, v, last, named, file_of_read read⟩

end

/-! ### The bytes of a restored file -/

section
variable [Target] {bytes : Bytes}

theorem restore_read (small : bytes.length < 2 ^ Target.usizeBits) (wanted : Nat) :
    (FileDataSnapshot.restore ⟨bytes.length, bytes⟩).read 0 wanted = bytes.take wanted := by
  by_cases none : bytes = []
  · subst none
    rw [List.take_nil]
    rfl
  · have fits : 0 + bytes.length < 2 ^ Target.usizeBits := by rwa [Nat.zero_add]
    have holds := new_holds.write new_whole fits
    have flat : Flat.write [] 0 bytes = bytes := by simp [Flat.write, Flat.pad]
    rw [flat] at holds
    have restored : FileDataSnapshot.restore ⟨bytes.length, bytes⟩ = BlockStorage.new.write 0 bytes := by
      simp only [FileDataSnapshot.restore, none, if_false, holds.size, ne_eq, not_true_eq_false]
    have covers : (BlockStorage.new.write 0 bytes).size ≤ (BlockStorage.new.write 0 bytes).blocks.length * BLOCK_SIZE := by
      rw [BlockStorage.write, if_neg none]
      exact max_le (Nat.zero_le _) (writeLoop_covers (Nat.zero_le _))
    have covered : Covered (BlockStorage.new.write 0 bytes) 0 wanted := (Nat.min_le_right _ _).trans covers
    rw [restored, (holds.read_iff (write_whole new_whole (Nat.two_pow_pos _))).mpr covered, Flat.read, List.drop_zero]

end

/-! ### Faithful images -/

section
variable {image : Image}

open Image

theorem source_dir (clean : image.Clean) {d v : InodeId} {name : String} (named : image.link d name = some v) : image.stored d = some none := by
  obtain ⟨content, kind⟩ := Option.isSome_iff_exists.mp (clean.stored_some.mpr (clean.source_bounded named))
  cases content with
  | none => exact kind
  | some bytes =>
    rw [clean.leaves name kind] at named
    cases named

/-- Every inode has one entry if none is lost. -/
theorem named_iff (sound : image.Sound) : (∀ inode ∈ image.snapshot.inodes, inode.id ≠ image.snapshot.rootInode →
    ∃! place : InodeId × String, Names image.snapshot place.1 place.2 inode.id) ↔ ∀ v, ¬ image.Lost v := by
  simp only [names_iff sound]
  constructor
  · rintro named v ⟨positive, within, unnamed⟩
    obtain ⟨content, found⟩ := Option.isSome_iff_exists.mp (sound.stored_some.mpr within)
    have here : (image.fill (newInode v content)).id = v := by rw [fill_id, newInode_id]
    obtain ⟨⟨d, name⟩, ⟨isDir, link⟩, -⟩ := named _ ((mem_snapshot sound).mpr ⟨v, content, found, rfl⟩) (by
      rw [here]
      exact Nat.ne_of_gt positive)
    rw [here] at link
    exact unnamed d name link isDir
  · intro kept inode member other
    obtain ⟨v, content, found, rfl⟩ := (mem_snapshot sound).mp member
    rw [fill_id, newInode_id] at other ⊢
    have within : v < image.nextInode := sound.stored_some.mp (by rw [found]; rfl)
    obtain ⟨d, name, link, isDir⟩ : ∃ d name, image.link d name = some v ∧ image.stored d = some none := by
      by_contra none
      exact kept v ⟨Nat.pos_of_ne_zero other, within, fun d name link isDir => none ⟨d, name, link, isDir⟩⟩
    refine ⟨(d, name), ⟨isDir, link⟩, ?_⟩
    rintro ⟨e, n⟩ ⟨-, again⟩
    obtain ⟨rfl, rfl⟩ := sound.forest.unique link again
    rfl

theorem clean_kept (clean : image.Clean) (v : InodeId) : ¬ image.Lost v := by
  rintro ⟨positive, within, unnamed⟩
  obtain ⟨d, name, named⟩ := clean.linked positive within
  exact unnamed d name named (source_dir clean named)

/-- A file that could be entered has a name. -/
theorem mapAll_named {later : Image} {rest : List (String × Option Bytes)} (mapped : image.mapAll rest = .ok later) :
    ∀ entry ∈ rest, entry.2.isSome → (fileName entry.1).isSome := by
  induction rest generalizing image with
  | nil => exact fun _ member => (by cases member)
  | cons first rest ih =>
    obtain ⟨middle, one, others⟩ := mapAll_cons.mp mapped
    intro entry member isFile
    rcases List.mem_cons.mp member with rfl | member
    · obtain ⟨bytes, content⟩ := Option.isSome_iff_exists.mp isFile
      rw [content, mapEntry] at one
      cases named : fileName entry.1 with
      | some name => rfl
      | none =>
        rw [named] at one
        cases one
    · exact ih others entry member isFile

theorem mapAll_total {rest : List (String × Option Bytes)} (named : ∀ entry ∈ rest, entry.2.isSome → (fileName entry.1).isSome) :
    ∃ later, image.mapAll rest = .ok later := by
  induction rest generalizing image with
  | nil => exact ⟨image, rfl⟩
  | cons first rest ih =>
    obtain ⟨middle, one⟩ : ∃ middle, image.mapEntry first.1 first.2 = .ok middle := by
      have here := named first List.mem_cons_self
      rw [mapEntry]
      cases found : fileName first.1 with
      | none =>
        cases content : first.2 with
        | none => exact ⟨_, rfl⟩
        | some bytes =>
          have missing := here (by rw [content]; rfl)
          rw [found] at missing
          cases missing
      | some name =>
        cases first.2 with
        | none =>
          dsimp only
          split <;> exact ⟨_, rfl⟩
        | some bytes => exact ⟨_, rfl⟩
    obtain ⟨later, others⟩ := @ih middle fun entry member => named entry (List.mem_cons_of_mem _ member)
    exact ⟨later, mapAll_cons.mpr ⟨middle, one, others⟩⟩

/-- Mounts are refused only for a file whose path has no name for it. -/
theorem built_iff {mounts : List Mount} : (∃ snapshot, buildSnapshot mounts = .ok snapshot) ↔
    ∀ entry ∈ mapped mounts, entry.2.isSome → (fileName entry.1).isSome := by
  unfold buildSnapshot
  constructor
  · rintro ⟨snapshot, built⟩
    cases all : Image.empty.mapAll (mapped mounts) with
    | error e =>
      rw [all] at built
      cases built
    | ok image => exact mapAll_named all
  · intro named
    obtain ⟨image, all⟩ := @mapAll_total Image.empty _ named
    exact ⟨image.snapshot, by rw [all]; rfl⟩

/-- Without a dot at its end, a path is entered where it leads. -/
theorem target_proper {path name : String} (last : (components path).getLast? = some name) (plain : name ≠ ".") (named : (fileName path).isSome) :
    target path = some (components path) := by
  have some : components path ≠ [] := by
    intro none
    rw [none] at last
    cases last
  have whole : (components path).rdropWhile (· == ".") = components path := by
    rw [List.rdropWhile_eq_self_iff]
    intro _ dot
    rw [List.getLast?_eq_some_getLast some, Option.some_inj] at last
    rw [last] at dot
    exact plain (eq_of_beq dot)
  have found : fileName path = .some name := by
    unfold fileName at named ⊢
    rw [whole, last] at named ⊢
    dsimp only at named ⊢
    split at named
    · cases named
    · next other => exact if_neg other
  rw [target, found, Option.map_some, List.dropLast_append_getLast? name last]

/-- The last element of its kind. -/
theorem last_split {α : Type} {p : α → Prop} {list : List α} (some : ∃ x ∈ list, p x) :
    ∃ front last back, list = front ++ last :: back ∧ p last ∧ ∀ y ∈ back, ¬ p y := by
  induction list with
  | nil =>
    obtain ⟨x, member, -⟩ := some
    cases member
  | cons first list ih =>
    by_cases more : ∃ x ∈ list, p x
    · obtain ⟨front, last, back, rfl, here, behind⟩ := ih more
      exact ⟨first :: front, last, back, rfl, here, behind⟩
    · obtain ⟨x, member, here⟩ := some
      rcases List.mem_cons.mp member with rfl | member
      · exact ⟨[], x, list, rfl, here, fun y member there => more ⟨y, member, there⟩⟩
      · exact absurd ⟨x, member, here⟩ more

end

section
variable [Target] {T : Type} [TimeProvider T] {image : Image} {mounts : List Mount} {snapshot : FsSnapshot} {clock : T} {path : String}
  {bytes : Bytes}

open Image

/-- In a clean image a path shows the bytes that the image has for it. -/
theorem clean_shows (clean : image.Clean) (there : image.shown (components path) = some (some bytes)) (some : components path ≠ [])
    (small : bytes.length < 2 ^ Target.usizeBits) (clock : T) : Shows (fromSnapshot image.snapshot clock) path bytes := by
  obtain ⟨v, walked, file⟩ := Option.bind_eq_some_iff.mp there
  have links : (fromSnapshot image.snapshot clock).links = image.link := by
    funext d name
    rw [restored_links clean.toSound]
    split
    · rfl
    · next other =>
      cases named : image.link d name with
      | none => rfl
      | some v => exact absurd (source_dir clean named) other
  have found : (fromSnapshot image.snapshot clock).inodeTable.lookup v = .some (fileInode v bytes).restore := by
    rw [restored_inode clean.toSound, file, Option.map_some, fill_file]
  have opened := @openPath_reads _ _ (fromSnapshot image.snapshot clock) path v (by rw [resolve, links]; exact walked) some
    (by rw [kind_some, found]; rfl)
  refine ⟨_, _, opened, fun wanted => ?_⟩
  exact (read_opened found wanted).trans (congrArg Except.ok (restore_read small wanted))

/-- What was embedded is faithful exactly if no mapped file was put over an entry or had something put below it. -/
theorem faithful_iff (small : ∀ entry ∈ mapped mounts, ∀ bytes, entry.2 = some bytes → bytes.length < 2 ^ Target.usizeBits)
    (built : buildSnapshot mounts = .ok snapshot) : Faithful mounts snapshot clock ↔ Clear mounts := by
  obtain ⟨image, all, rfl⟩ : ∃ image, Image.empty.mapAll (mapped mounts) = .ok image ∧ image.snapshot = snapshot := by
    unfold buildSnapshot at built
    cases all : Image.empty.mapAll (mapped mounts) with
    | error e =>
      rw [all] at built
      cases built
    | ok image =>
      rw [all] at built
      cases built
      exact ⟨image, rfl, rfl⟩
  have run := mapAll_cases empty_describes List.Pairwise.nil all
  obtain ⟨sound, -⟩ := mapAll_grown empty_sound all
  rw [List.nil_append] at run
  constructor
  -- Of all entries for a path the last one is shown, and that it is shown needs its name.
  · intro faithful
    have kept := (named_iff sound).mp faithful.named
    refine ⟨?_, fun entry member isFile => ?_⟩
    · rcases run with ⟨apart, -⟩ | ⟨-, v, lost⟩
      · exact apart
      · exact absurd lost (kept v)
    obtain ⟨front, last, back, whole, ⟨lastFile, samePath⟩, behind⟩ : ∃ front last back, mapped mounts = front ++ last :: back ∧
        (last.2.isSome ∧ components last.1 = components entry.1) ∧
          ∀ later ∈ back, ¬ (later.2.isSome ∧ components later.1 = components entry.1) :=
      last_split ⟨entry, member, isFile, rfl⟩
    obtain ⟨path, content⟩ := last
    obtain ⟨bytes, rfl⟩ := Option.isSome_iff_exists.mp lastFile
    have shows := faithful.shown front path bytes back whole fun later among file same => behind later among ⟨file, same.trans samePath⟩
    have root : (fromSnapshot image.snapshot clock).kind (fromSnapshot image.snapshot clock).rootInode = some true := by
      rw [restored_kind sound]
      rfl
    obtain ⟨d, name, v, final, named, file⟩ := shows_file root shows
    rw [samePath] at final
    refine target_proper final ?_ (mapAll_named all entry member isFile)
    -- An entry for the root would be a file with children.
    rintro rfl
    rw [restored_links sound] at named
    split at named
    · rw [restored_kind sound, sound.dots named] at file
      cases file
    · cases named
  · intro clear
    obtain ⟨-, describes⟩ : (mapped mounts).Pairwise Apart ∧ Describes (mapped mounts) image := by
      rcases run with described | ⟨overlap, -⟩
      · exact described
      · exact absurd clear.apart overlap
    have ids := snapshot_ids sound
    refine ⟨?_, fun inode member => ?_, (named_iff sound).mpr (clean_kept describes.toClean), fun front path bytes back whole _ => ?_⟩
    · rw [ids]
      exact List.nodup_range
    · have listed := List.mem_map_of_mem (f := fun inode : InodeSnapshot => inode.id) member
      rw [ids, List.mem_range] at listed
      exact listed
    -- The entry is described by the image, and the image by its snapshot.
    · have member : (path, some bytes) ∈ mapped mounts := by
        rw [whole]
        exact List.mem_append_right _ List.mem_cons_self
      have entered := clear.proper _ member rfl
      refine clean_shows describes.toClean ((describes.files _ bytes).mpr ⟨_, member, rfl, entered⟩) ?_ (small _ member bytes rfl) clock
      intro none
      obtain ⟨name, -, whole⟩ := Option.map_eq_some_iff.mp entered
      rw [none] at whole
      simp at whole

end

/-- The same file twice. -/
def doubled : List Mount := [⟨"/a", [⟨[], some [1]⟩]⟩, ⟨"/a", [⟨[], some [2]⟩]⟩]

theorem doubled_unfaithful :
    let _ : Target := ⟨64⟩
    ∃ snapshot, buildSnapshot doubled = .ok snapshot ∧ ¬ Faithful doubled snapshot MonotonicCounter.new := by
  let _ : Target := ⟨64⟩
  have entered : target "/a" = some ["a"] := by decide
  have overlap : ¬ (mapped doubled).Pairwise Apart := by
    intro apart
    have both : Apart ("/a", some [1]) ("/a", some [2]) := List.rel_of_pairwise_cons apart List.mem_cons_self
    exact both.free ["a"] rfl entered (.inr entered)
  have named : ∀ entry ∈ mapped doubled, entry.2.isSome → (fileName entry.1).isSome := by decide
  obtain ⟨image, all⟩ := @mapAll_total Image.empty _ named
  obtain ⟨sound, -⟩ := Image.mapAll_grown Image.empty_sound all
  refine ⟨image.snapshot, by rw [buildSnapshot, all]; rfl, fun faithful => ?_⟩
  rcases Image.mapAll_cases Image.empty_describes List.Pairwise.nil all with ⟨apart, -⟩ | ⟨-, v, lost⟩
  · exact overlap apart
  · exact (named_iff sound).mp faithful.named v lost

/-- A directory with one file. -/
def single : List Mount := [⟨"/data", [⟨[], none⟩, ⟨["x"], some [7]⟩]⟩]

theorem single_faithful :
    let _ : Target := ⟨64⟩
    ∃ snapshot, buildSnapshot single = .ok snapshot ∧ (Faithful single snapshot MonotonicCounter.new ↔ Clear single) := by
  let _ : Target := ⟨64⟩
  have named : ∀ entry ∈ mapped single, entry.2.isSome → (fileName entry.1).isSome := by decide
  obtain ⟨snapshot, built⟩ := built_iff.mpr named
  have small : ∀ entry ∈ mapped single, ∀ bytes, entry.2 = some bytes → bytes.length < 2 ^ 64 := by
    have entries : mapped single = [("/data", none), ("/data/x", some [7])] := by decide
    rw [entries]
    rintro entry member bytes content
    rcases List.mem_cons.mp member with rfl | member
    · cases content
    · obtain rfl := List.mem_singleton.mp member
      cases content
      decide
  exact ⟨snapshot, built, faithful_iff small built⟩

end MonakaFs.Cli
