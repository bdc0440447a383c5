import MonakaFs.FsCore.Effects

/-! The effect of each operation. -/

set_option autoImplicit false

namespace MonakaFs.FsCore.Fs

section
variable {T : Type} {fs later : Fs T} {id d v : InodeId} {name : String}

/-! ### Descriptors -/

theorem insertFd_effect (fs : Fs T) (id : InodeId) (flags : Nat) :
    Same fs (fs.insertFd id flags).2 ∧ (fs.insertFd id flags).2.holder = Function.update fs.holder fs.nextFd (some id) := by
  refine ⟨.of_table rfl rfl rfl, ?_⟩
  funext fd
  rw [holder, insertFd, Table.lookup_insert, Function.update_apply]
  split <;> rfl

/-- A position says nothing about the inode. -/
theorem setPosition_effect (fs : Fs T) (fd : Fd) (position : Nat) :
    Same fs (fs.setPosition fd position) ∧ (fs.setPosition fd position).holder = fs.holder := by
  unfold setPosition
  split
  · next handle found =>
    refine ⟨.of_table rfl rfl rfl, ?_⟩
    funext other
    rw [holder, holder, Table.lookup_insert]
    split
    · next same => rw [same, found]; rfl
    · rfl
  · exact ⟨.refl fs, rfl⟩

theorem close_effect (fs : Fs T) (fd : Fd) :
    Same fs (fs.close fd).2 ∧ (fs.close fd).2.holder = Function.update fs.holder fd none := by
  unfold close
  split
  · refine ⟨.of_table rfl rfl rfl, ?_⟩
    funext other
    rw [holder, Table.lookup_erase, Function.update_apply]
    split <;> rfl
  · next missing =>
    have nothing : fs.holder fd = none := by rw [holder, Option.not_isSome_iff_eq_none.mp missing]; rfl
    exact ⟨.refl fs, by rw [← nothing, Function.update_eq_self]⟩

variable [TimeProvider T]

/-! ### File contents -/

/-- The content of a file is none of the namespace. -/
theorem update_effect {inode : Inode} {storage : BlockStorage} (found : fs.inodeTable.lookup id = some inode)
    (file : inode.content = .file storage) (written : BlockStorage) (size : Nat) :
    Same fs (fs.update id (inode.store written size)) ∧ (fs.update id (inode.store written size)).holder = fs.holder := by
  have table : (fs.update id (inode.store written size)).inodeTable =
      AList.insert id (inode.store written size (TimeProvider.now fs.timeProvider).1) fs.inodeTable := rfl
  refine ⟨⟨⟨?_, ?_, rfl, rfl⟩, ?_⟩, rfl⟩
  · funext other
    rw [kind_insert table]
    split
    · next same => rw [same, kind, found, Option.map_some, file]; rfl
    · rfl
  · intro typed other stored present
    rw [table, Table.lookup_insert] at present
    split at present
    · cases present
      have flag := typed id inode found
      rw [file] at flag
      exact flag
    · exact typed other stored present
  · funext other m
    rw [links_insert table]
    split
    · next same => rw [same, links, entries_eq, found, Option.bind_some, file]; rfl
    · rfl

section
variable [Target]

theorem writeThrough_effect (fs : Fs T) (fd : Fd) (position : FileHandle → BlockStorage → Nat) (after : Nat → Nat → Nat)
    (buf : Bytes) : Same fs (fs.writeThrough fd position after buf).2 ∧ (fs.writeThrough fd position after buf).2.holder = fs.holder := by
  unfold writeThrough
  split
  · exact ⟨.refl fs, rfl⟩
  split
  · exact ⟨.refl fs, rfl⟩
  split
  · exact ⟨.refl fs, rfl⟩
  next inode found =>
    split
    · exact ⟨.refl fs, rfl⟩
    · next storage file =>
      obtain ⟨same, held⟩ := update_effect found file (storage.write (toUsize (position _ storage)) buf) (toU64 _)
      obtain ⟨same', held'⟩ := setPosition_effect (fs.update _ _) fd (after (position _ storage) buf.length)
      exact ⟨same.trans same', held'.trans held⟩

omit [TimeProvider T] in
theorem readThrough_effect (fs : Fs T) (fd : Fd) (position : FileHandle → Nat) (wanted : Nat) :
    Same fs (fs.readThrough fd position wanted).2 ∧ (fs.readThrough fd position wanted).2.holder = fs.holder := by
  unfold readThrough
  split
  · exact ⟨.refl fs, rfl⟩
  split
  · exact ⟨.refl fs, rfl⟩
  split
  · exact ⟨.refl fs, rfl⟩
  split
  · exact ⟨.refl fs, rfl⟩
  · exact setPosition_effect fs fd _

theorem ftruncate_effect (fs : Fs T) (fd : Fd) (size : Nat) :
    Same fs (fs.ftruncate fd size).2 ∧ (fs.ftruncate fd size).2.holder = fs.holder := by
  unfold ftruncate
  split
  · exact ⟨.refl fs, rfl⟩
  split
  · exact ⟨.refl fs, rfl⟩
  split
  · exact ⟨.refl fs, rfl⟩
  next inode found =>
    split
    · exact ⟨.refl fs, rfl⟩
    · next storage file => exact update_effect found file _ size

end

omit [TimeProvider T] in
theorem seek_effect (fs : Fs T) (fd : Fd) (offset whence : Int) :
    Same fs (fs.seek fd offset whence).2 ∧ (fs.seek fd offset whence).2.holder = fs.holder := by
  unfold seek
  split
  · exact ⟨.refl fs, rfl⟩
  split
  · exact ⟨.refl fs, rfl⟩
  split
  · exact ⟨.refl fs, rfl⟩
  dsimp only
  split
  · exact ⟨.refl fs, rfl⟩
  split
  · exact ⟨.refl fs, rfl⟩
  · exact setPosition_effect fs fd _

/-! ### Entries -/

omit [TimeProvider T] in
/-- A directory gets a new content; nothing else is another. -/
theorem relink (later : Fs T) {parent : Inode} {entries : Table String InodeId} (changed : Table String InodeId) {timestamp : Nat}
    (found : fs.inodeTable.lookup d = some parent) (dir : parent.content = .dir entries)
    (table : later.inodeTable = AList.insert d (parent.modify (.dir changed) timestamp) fs.inodeTable)
    (root : later.rootInode = fs.rootInode) (next : later.nextInode = fs.nextInode) :
    Kept fs later ∧ later.links = Function.update fs.links d fun m => changed.lookup m := by
  refine ⟨⟨?_, ?_, root, next⟩, ?_⟩
  · funext other
    rw [kind_insert table]
    split
    · next same => rw [same, kind, found, Option.map_some, dir]; rfl
    · rfl
  · intro typed other stored present
    rw [table, Table.lookup_insert] at present
    split at present
    · cases present
      have flag := typed d parent found
      rw [dir] at flag
      exact flag
    · exact typed other stored present
  · funext other m
    rw [links_insert table, Function.update_apply]
    split <;> rfl

omit [TimeProvider T] in
/-- One entry of a directory is changed. -/
theorem update_set {entries changed : Table String InodeId} {target : Option InodeId} (found : fs.entries d = some entries)
    (entry : ∀ m, changed.lookup m = if m = name then target else entries.lookup m) :
    Function.update fs.links d (fun m => changed.lookup m) = fs.links.set d name target := by
  funext other m
  rw [Function.update_apply, Links.set]
  by_cases same : other = d
  · subst same
    simp only [if_true, true_and, entry, links_of_entries found]
  · rw [if_neg same, if_neg fun here => same here.1]

omit [TimeProvider T] in
/-- A directory, as it is stored. -/
theorem stored_dir (dir : fs.kind d = some true) :
    ∃ metadata entries, fs.inodeTable.lookup d = some ⟨metadata, .dir entries⟩ ∧ fs.entries d = some entries := by
  obtain ⟨entries, found⟩ := kind_dir.mp dir
  obtain ⟨⟨metadata, content⟩, stored, same⟩ := Option.bind_eq_some_iff.mp ((entries_eq fs d).symm.trans found)
  cases content with
  | file => cases same
  | dir entries =>
    cases same
    exact ⟨metadata, entries, stored, found⟩

theorem createInode_unused (isDir : Bool) (unused : fs.kind fs.nextInode = none) (parent : fs.kind d = some true) (free : fs.links d name = none) :
    ∃ later, fs.createInode d name isDir = (.ok fs.nextInode, later) ∧ Created d name isDir fs later ∧
      later.nextFd = fs.nextFd := by
  obtain ⟨metadata, entries, stored, found⟩ := stored_dir parent
  have different : d ≠ fs.nextInode := by
    rintro rfl
    rw [unused] at parent
    cases parent
  rw [links_of_entries found] at free
  have made : fs.createInode d name isDir = (.ok fs.nextInode, (fs.createInode d name isDir).2) := by
    simp [createInode, stored, free]
  refine ⟨_, made, ?_, by simp [createInode, stored, free]⟩
  -- The entry is put into the parent first, and the inode into the table then.
  let clock := TimeProvider.now fs.timeProvider
  let parent' := Inode.modify ⟨metadata, .dir entries⟩ (.dir (AList.insert name fs.nextInode entries)) clock.1
  let linked : Fs T := { fs with inodeTable := AList.insert d parent' fs.inodeTable }
  have table : (fs.createInode d name isDir).2.inodeTable =
      AList.insert fs.nextInode (if isDir then Inode.newDir clock.1 else Inode.newFile clock.1) linked.inodeTable := by
    simp [createInode, stored, free, linked, parent', clock]
  have moved := relink linked (AList.insert name fs.nextInode entries) stored rfl rfl rfl rfl
  rw [update_set found fun m => Table.lookup_insert name m fs.nextInode entries] at moved
  obtain ⟨kept, relinked⟩ := moved
  refine ⟨parent, (links_of_entries found name).trans free, ?_, ?_, ?_, ?_, ?_, ?_⟩
  · funext other m
    rw [links_insert table, relinked]
    split
    · next same =>
      rw [same, Links.set_other fun here => different here.1.symm, links_none (by rw [unused]; exact fun same => by cases same)]
      cases isDir <;> rfl
    · rfl
  · funext other
    rw [kind_insert table, kept.kind, Function.update_apply]
    cases isDir <;> rfl
  · intro typed other inode present
    rw [table, Table.lookup_insert] at present
    split at present
    · cases present
      cases isDir <;> rfl
    · exact kept.typed typed other inode present
  · simp [createInode, stored, free]
  · simp [createInode, stored, free]
  · simp [createInode, stored, free, holder, funext_iff]

theorem createInode_free (isDir : Bool) (sane : Sane fs) (parent : fs.kind d = some true) (free : fs.links d name = none) :
    ∃ later, fs.createInode d name isDir = (.ok fs.nextInode, later) ∧ Created d name isDir fs later ∧
      later.nextFd = fs.nextFd := createInode_unused isDir sane.unused parent free

theorem createInode_taken {isDir : Bool} (parent : fs.kind d = some true) (taken : fs.links d name = some v) :
    fs.createInode d name isDir = (.error .alreadyExists, fs) := by
  obtain ⟨metadata, entries, stored, found⟩ := stored_dir parent
  rw [links_of_entries found] at taken
  simp [createInode, stored, taken]

theorem removeEntry_effect (named : fs.links d name = some v) (leaf : ∀ m, fs.links v m = none) :
    Removed d name v fs (fs.removeEntry d name).2 := by
  obtain ⟨metadata, entries, stored, found⟩ := stored_dir (kind_of_links named)
  have gone := relink (fs.removeEntry d name).2 (AList.erase name entries) stored rfl
    (by simp only [removeEntry, stored]; rfl) (by simp [removeEntry, stored, update]) (by simp [removeEntry, stored, update])
  rw [update_set found fun m => Table.lookup_erase name m entries] at gone
  exact ⟨gone.1, named, leaf, gone.2, by simp [removeEntry, stored, update, holder, funext_iff]⟩

/-- Both parents are directories, and the source is there. -/
theorem moveEntry_effect {e : InodeId} {newName : String} (named : fs.links d name = some v) (target : fs.kind e = some true)
    (leaf : ∀ w, fs.links e newName = some w → ∀ m, fs.links w m = none) :
    Moved d name e newName v fs (fs.moveEntry d name e newName).2 := by
  obtain ⟨metadata, entries, stored, found⟩ := stored_dir (kind_of_links named)
  have entry : entries.lookup name = some v := by rw [← links_of_entries found, named]
  let clock := TimeProvider.now fs.timeProvider
  let taken : Fs T := { fs with
    timeProvider := clock.2
    inodeTable := AList.insert d (Inode.modify ⟨metadata, .dir entries⟩ (.dir (AList.erase name entries)) clock.1) fs.inodeTable }
  -- Within one directory both changes are made to the same entries.
  by_cases same : d = e
  · subst same
    have result : fs.moveEntry d name d newName = (.ok (), { fs with
        timeProvider := clock.2
        inodeTable := AList.insert d (Inode.modify ⟨metadata, .dir entries⟩
          (.dir (AList.insert newName v (AList.erase name entries))) clock.1) fs.inodeTable }) := by
      simp [moveEntry, stored, entry, clock]
    rw [result]
    have moved := relink { fs with
      timeProvider := clock.2
      inodeTable := AList.insert d (Inode.modify ⟨metadata, .dir entries⟩
        (.dir (AList.insert newName v (AList.erase name entries))) clock.1) fs.inodeTable }
      (AList.insert newName v (AList.erase name entries)) stored rfl rfl rfl rfl
    refine ⟨moved.1, named, target, leaf, ?_, rfl⟩
    rw [moved.2]
    funext other m
    simp only [Function.update_apply, Links.move, Links.set, Table.lookup_insert, Table.lookup_erase]
    by_cases here : other = d
    · simp only [here, if_true, true_and, links_of_entries found]
    · simp only [here, if_false, false_and]
  -- Between two directories the entry is taken first, and put then.
  · have erased := relink taken (AList.erase name entries) stored rfl rfl rfl rfl
    rw [update_set found fun m => Table.lookup_erase name m entries] at erased
    obtain ⟨kept, unlinked⟩ := erased
    obtain ⟨metadata', entries', stored', found'⟩ := stored_dir (show taken.kind e = some true by rw [kept.kind]; exact target)
    have result : fs.moveEntry d name e newName = (.ok (), { taken with
        inodeTable := AList.insert e (Inode.modify ⟨metadata', .dir entries'⟩ (.dir (AList.insert newName v entries')) clock.1)
          taken.inodeTable }) := by
      simp only [moveEntry, stored, entry, same, if_false]
      rw [show AList.lookup e (AList.insert d _ fs.inodeTable) = some ⟨metadata', .dir entries'⟩ from stored']
    rw [result]
    have moved := relink { taken with
      inodeTable := AList.insert e (Inode.modify ⟨metadata', .dir entries'⟩ (.dir (AList.insert newName v entries')) clock.1)
        taken.inodeTable } (AList.insert newName v entries') stored' rfl rfl rfl rfl
    rw [update_set found' fun m => Table.lookup_insert newName m v entries', unlinked] at moved
    exact ⟨kept.trans moved.1, named, target, leaf, moved.2, rfl⟩

end

end MonakaFs.FsCore.Fs
