import MonakaFs.FsCore.Calls

/-! What a call that fails has changed.

All checks come before the first change, but for one: an open creates a missing file
and refuses only then to truncate what it may not write. This holds in any state, in
a run or not.
-/

set_option autoImplicit false

namespace MonakaFs.FsCore

section
variable {T : Type}

/-- The same namespace, contents, metadata and descriptors with their positions. -/
structure Unchanged (fs later : Fs T) : Prop where
  inodes : later.inodeTable.lookup = fs.inodeTable.lookup
  descriptors : later.fdTable.lookup = fs.fdTable.lookup
  root : later.rootInode = fs.rootInode

theorem Unchanged.of_eq {fs later : Fs T} (same : later = fs) : Unchanged fs later := by
  subst same
  exact ⟨rfl, rfl, rfl⟩

def Outcome.failed {A : Type} (outcome : Outcome T A) : Bool := outcome.1.toOption.isNone

/-- The directory and the name that an open arrives at, and its flags. -/
def Call.opens : Call → Fs T → Option (InodeId × String × Nat)
  | .openPathWithFlags path flags, fs => (fs.locate path).toOption.map fun place => (place.1, place.2, flags)
  | .openAt dirFd path flags, fs =>
      if ['/'].isPrefixOf path.toList then none
      else (fs.holder dirFd).bind fun dir => (relativeComponents path).getLast?.bind fun name =>
        (fs.descend dir (relativeComponents path).dropLast).toOption.map fun parent => (parent, name, flags)
  | _, _ => none

/-- An open that creates its file and may not truncate it. -/
def Strands (call : Call) (fs : Fs T) : Prop :=
  ∃ parent name flags, call.opens fs = some (parent, name, flags) ∧ fs.kind parent = some true ∧ fs.links parent name = none ∧
    flags &&& O_CREAT ≠ 0 ∧ flags &&& O_TRUNC ≠ 0 ∧ accessMode flags = O_RDONLY

variable [TimeProvider T] [Target]

def Call.failed : Call → Fs T → Bool
  | .openPathWithFlags path flags, fs => (fs.openPathWithFlags path flags).failed
  | .openAt dirFd path flags, fs => (fs.openAt dirFd path flags).failed
  | .write fd buf, fs => (fs.write fd buf).failed
  | .writeAt fd offset buf, fs => (fs.writeAt fd offset buf).failed
  | .appendWrite fd buf, fs => (fs.appendWrite fd buf).failed
  | .read fd wanted, fs => (fs.read fd wanted).failed
  | .readAt fd offset wanted, fs => (fs.readAt fd offset wanted).failed
  | .ftruncate fd size, fs => (fs.ftruncate fd size).failed
  | .seek fd offset whence, fs => (fs.seek fd offset whence).failed
  | .close fd, fs => (fs.close fd).failed
  | .mkdir path, fs => (fs.mkdir path).failed
  | .mkdirP path, fs => (fs.mkdirP path).failed
  | .unlink path, fs => (fs.unlink path).failed
  | .rmdir path, fs => (fs.rmdir path).failed
  | .rename oldPath newPath, fs => (fs.rename oldPath newPath).failed

end

namespace Fs

variable {T : Type} {fs : Fs T} {id d v : InodeId} {name : String} {flags : Nat}

/-- A failure comes before any change. -/
def Clean {A : Type} (fs : Fs T) (outcome : Outcome T A) : Prop := outcome.failed → outcome.2 = fs

theorem Clean.error {A : Type} (e : FsError) : Clean (A := A) fs (.error e, fs) := fun _ => rfl

theorem Clean.ok {A : Type} (value : A) (later : Fs T) : Clean fs (.ok value, later) := by
  intro failed
  cases failed

/-! ### Descriptors and contents -/

theorem close_clean (fs : Fs T) (fd : Fd) : Clean fs (fs.close fd) := by
  unfold close
  split
  · exact .ok _ _
  · exact .error _

theorem seek_clean (fs : Fs T) (fd : Fd) (offset whence : Int) : Clean fs (fs.seek fd offset whence) := by
  unfold seek
  split
  · exact .error _
  split
  · exact .error _
  split
  · exact .error _
  dsimp only
  split
  · exact .error _
  split
  · exact .error _
  · exact .ok _ _

section
variable [Target]

theorem readThrough_clean (fs : Fs T) (fd : Fd) (position : FileHandle → Nat) (wanted : Nat) :
    Clean fs (fs.readThrough fd position wanted) := by
  unfold readThrough
  split
  · exact .error _
  split
  · exact .error _
  split
  · exact .error _
  split
  · exact .error _
  · exact .ok _ _

variable [TimeProvider T]

theorem writeThrough_clean (fs : Fs T) (fd : Fd) (position : FileHandle → BlockStorage → Nat) (after : Nat → Nat → Nat)
    (buf : Bytes) : Clean fs (fs.writeThrough fd position after buf) := by
  unfold writeThrough
  split
  · exact .error _
  split
  · exact .error _
  split
  · exact .error _
  split
  · exact .error _
  · exact .ok _ _

theorem ftruncate_clean (fs : Fs T) (fd : Fd) (size : Nat) : Clean fs (fs.ftruncate fd size) := by
  unfold ftruncate
  split
  · exact .error _
  split
  · exact .error _
  split
  · exact .error _
  split
  · exact .error _
  · exact .ok _ _

end

/-! ### Entries -/

section
variable [TimeProvider T]

/-- A creation makes an empty inode and links it. -/
theorem createInode_made {metadata : Metadata} {entries : Table String InodeId} (isDir : Bool)
    (stored : fs.inodeTable.lookup d = some ⟨metadata, .dir entries⟩) (free : entries.lookup name = none) :
    ∃ timestamp later, fs.createInode d name isDir = (.ok fs.nextInode, later) ∧ later.inodeTable =
      AList.insert fs.nextInode (if isDir then Inode.newDir timestamp else Inode.newFile timestamp)
        (AList.insert d (Inode.modify ⟨metadata, .dir entries⟩ (.dir (AList.insert name fs.nextInode entries)) timestamp)
          fs.inodeTable) ∧ later.nextInode = toU64 (fs.nextInode + 1) := by
  have made : fs.createInode d name isDir = (.ok fs.nextInode, (fs.createInode d name isDir).2) := by
    simp only [createInode, stored, free, Option.isSome_none, Bool.false_eq_true, if_false]
  refine ⟨(TimeProvider.now fs.timeProvider).1, _, made, ?_, ?_⟩
  · simp only [createInode, stored, free, Option.isSome_none, Bool.false_eq_true, if_false]
  · simp only [createInode, stored, free, Option.isSome_none, Bool.false_eq_true, if_false]

/-- Otherwise it fails before it changes anything. -/
theorem createInode_cases (fs : Fs T) (d : InodeId) (name : String) (isDir : Bool) :
    (∃ e, fs.createInode d name isDir = (.error e, fs)) ∨
      ∃ metadata entries, fs.inodeTable.lookup d = some ⟨metadata, .dir entries⟩ ∧ entries.lookup name = none := by
  cases stored : fs.inodeTable.lookup d with
  | none => exact .inl ⟨.notADirectory, by rw [createInode, stored]⟩
  | some parent =>
    obtain ⟨metadata, content⟩ := parent
    cases content with
    | file storage => exact .inl ⟨.notADirectory, by rw [createInode, stored]⟩
    | dir entries =>
      cases free : entries.lookup name with
      | some id => exact .inl ⟨.alreadyExists, by simp only [createInode, stored, free, Option.isSome_some, if_true]⟩
      | none => exact .inr ⟨metadata, entries, rfl, free⟩

theorem mkdir_clean (fs : Fs T) (path : String) : Clean fs (fs.mkdir path) := by
  unfold mkdir
  split
  · exact .error _
  · next parent name _ =>
    rcases createInode_cases fs parent name true with ⟨e, failed⟩ | ⟨metadata, entries, stored, free⟩
    · rw [failed]
      exact .error _
    · obtain ⟨timestamp, later, made, -⟩ := createInode_made true stored free
      rw [made]
      exact .ok _ _

/-- Below a directory that was just made the loop finds nothing in its way. -/
theorem mkdirPath_made {comps : List String} {timestamp : Nat} (empty : fs.inodeTable.lookup d = some (Inode.newDir timestamp)) :
    ∃ later, fs.mkdirPath d comps = (.ok (), later) := by
  induction comps generalizing fs d timestamp with
  | nil => exact ⟨fs, rfl⟩
  | cons comp comps ih =>
    have missing : fs.findInode d comp = .error .notFound := by
      simp only [findInode, entries, empty, Inode.newDir, Option.bind_some]
      rfl
    obtain ⟨timestamp', later, made, table, -⟩ := createInode_made true empty (show AList.lookup comp ∅ = none from rfl)
    rw [mkdirPath, missing]
    simp only [made]
    exact ih (by rw [table, Table.lookup_insert, if_pos rfl, if_pos rfl])

theorem mkdirPath_clean (comps : List String) : Clean fs (fs.mkdirPath d comps) := by
  induction comps generalizing d with
  | nil => exact .ok _ _
  | cons comp comps ih =>
    unfold mkdirPath
    split
    · split
      · exact .error _
      · exact ih
    · rcases createInode_cases fs d comp true with ⟨e, failed⟩ | ⟨metadata, entries, stored, free⟩
      · rw [failed]
        split
        · next same => cases same
        · next same =>
          cases same
          split
          · exact ih
          · exact .error _
        · next same =>
          cases same
          exact .error _
      -- The directory is made. What comes below it cannot fail any more.
      · obtain ⟨timestamp, later, made, table, -⟩ := createInode_made true stored free
        have empty : later.inodeTable.lookup fs.nextInode = some (Inode.newDir timestamp) := by
          rw [table, Table.lookup_insert, if_pos rfl, if_pos rfl]
        obtain ⟨last, result⟩ : ∃ last, later.mkdirPath fs.nextInode comps = (.ok (), last) := mkdirPath_made empty
        rw [made]
        dsimp only
        rw [result]
        exact .ok _ _
    · exact .error _

theorem mkdirP_clean (fs : Fs T) (path : String) : Clean fs (fs.mkdirP path) := by
  unfold mkdirP
  split
  · exact .error _
  split
  · exact .ok _ _
  split
  · exact mkdirPath_clean _
  · exact .error _

theorem removeEntry_clean {entries : Table String InodeId} (found : fs.entries d = some entries) :
    Clean fs (fs.removeEntry d name) := by
  obtain ⟨metadata, entries, stored, -⟩ := stored_dir (kind_dir.mpr ⟨entries, found⟩)
  simp only [removeEntry, stored]
  exact .ok _ _

omit [TimeProvider T] in
/-- Only directories have entries. -/
theorem entries_of_findInode (found : fs.findInode d name = .ok v) : ∃ entries, fs.entries d = some entries :=
  kind_dir.mp (kind_of_links (findInode_ok.mp found).1)

theorem unlink_clean (fs : Fs T) (path : String) : Clean fs (fs.unlink path) := by
  unfold unlink
  split
  · exact .error _
  split
  · exact .error _
  · next found =>
    obtain ⟨entries, dir⟩ := entries_of_findInode found
    split
    · exact removeEntry_clean dir
    · exact .error _

theorem rmdir_clean (fs : Fs T) (path : String) : Clean fs (fs.rmdir path) := by
  unfold rmdir
  split
  · exact .error _
  split
  · exact .error _
  · next found =>
    obtain ⟨entries, dir⟩ := entries_of_findInode found
    split
    · exact .error _
    split
    · exact removeEntry_clean dir
    · exact .error _

omit [TimeProvider T] in
/-- A descent from a directory arrives at a directory. -/
theorem descend_dir {comps : List String} (dir : fs.kind d = some true) (found : fs.descend d comps = .ok v) :
    fs.kind v = some true := by
  induction comps generalizing d with
  | nil =>
    cases found
    exact dir
  | cons comp comps ih =>
    rw [descend] at found
    cases step : fs.findInode d comp with
    | error e =>
      rw [step] at found
      cases found
    | ok next =>
      simp only [step] at found
      split at found
      · cases found
      · next notFile =>
        obtain ⟨isDir, kind⟩ := Option.isSome_iff_exists.mp (findInode_ok.mp step).2
        cases isDir with
        | true => exact ih kind found
        | false => exact absurd (isFile_iff.mpr kind) notFile

omit [TimeProvider T] in
/-- If one descent comes to an entry, then the root is a directory. -/
theorem root_dir {comps comps' : List String} (found : fs.findParent comps = .ok d) (entry : fs.findInode d name = .ok v)
    (found' : fs.findParent comps' = .ok id) : fs.kind id = some true := by
  have root : fs.kind fs.rootInode = some true := by
    unfold findParent at found
    split at found
    · cases front : comps.dropLast with
      | nil =>
        rw [front] at found
        cases found
        exact kind_of_links (findInode_ok.mp entry).1
      | cons comp front' =>
        rw [front, descend] at found
        cases step : fs.findInode fs.rootInode comp with
        | error e =>
          rw [step] at found
          cases found
        | ok next => exact kind_of_links (findInode_ok.mp step).1
    · cases found
  unfold findParent at found'
  split at found'
  · exact descend_dir root found'
  · cases found'

theorem moveEntry_clean {e : InodeId} {newName : String} (named : fs.links d name = some v) (target : fs.kind e = some true) :
    Clean fs (fs.moveEntry d name e newName) := by
  obtain ⟨metadata, entries, stored, found⟩ := stored_dir (kind_of_links named)
  have entry : entries.lookup name = some v := by rw [← links_of_entries found, named]
  by_cases same : d = e
  · simp only [moveEntry, stored, entry, same, if_true]
    exact .ok _ _
  · obtain ⟨metadata', entries', stored', -⟩ := stored_dir target
    have other : ¬ e = d := fun back => same back.symm
    simp only [moveEntry, stored, entry, same, if_false, Table.lookup_insert, other, stored']
    exact .ok _ _

theorem rename_clean (fs : Fs T) (oldPath newPath : String) : Clean fs (fs.rename oldPath newPath) := by
  unfold rename
  split
  · exact .error _
  split
  · split
    · exact .ok _ _
    split
    · exact .error _
    · next oldParent parent =>
      split
      · exact .error _
      · next source found =>
        split
        · exact .error _
        · next newParent parent' =>
          split
          · exact .error _
          · exact moveEntry_clean (findInode_ok.mp found).1 (root_dir parent found parent')
  · exact .error _

/-! ### Opens -/

theorem openInode_clean (fs : Fs T) (id : InodeId) (flags : Nat) : Clean fs (fs.openInode id flags) := by
  unfold openInode
  split
  · exact .error _
  split
  · split
    · exact .error _
    split
    · exact .error _
    · exact .ok _ _
  · split
    · split
      · exact .error _
      · exact .ok _ _
    · exact .ok _ _

omit [TimeProvider T] in
theorem findInode_missing (dir : fs.kind d = some true) (free : fs.links d name = none) :
    fs.findInode d name = .error .notFound := by
  obtain ⟨entries, found⟩ := kind_dir.mp dir
  rw [links_of_entries found] at free
  simp only [findInode, found, free]

/-- The entry that is made stays, also if the open fails afterwards. -/
theorem findOrCreate_made (creates : flags &&& O_CREAT ≠ 0) (dir : fs.kind d = some true) (free : fs.links d name = none) :
    ∃ later, fs.findOrCreate d name flags = (.ok fs.nextInode, later) ∧ later.kind fs.nextInode = some false ∧
      ¬ Unchanged fs later := by
  obtain ⟨metadata, entries, stored, found⟩ := stored_dir dir
  have missing := findInode_missing dir free
  rw [links_of_entries found] at free
  obtain ⟨timestamp, later, made, table, -⟩ := createInode_made false stored free
  refine ⟨later, ?_, ?_, fun unchanged => ?_⟩
  · simp only [findOrCreate, missing, creates, ne_eq, not_false_eq_true, and_self, if_true, made]
  · rw [kind, table, Table.lookup_insert, if_pos rfl]
    rfl
  · -- the directory has one entry more, or was replaced by the new file
    have before := congrFun unchanged.inodes d
    rw [table, Table.lookup_insert, Table.lookup_insert, if_pos rfl, stored] at before
    split at before
    · cases before
    · have content := congrArg Inode.content (Option.some.inj before)
      have grown : AList.insert name fs.nextInode entries = entries := FileContent.dir.inj content
      have entry := AList.lookup_insert (a := name) (b := fs.nextInode) entries
      rw [grown, free] at entry
      cases entry

/-- An open finds the entry, makes it, or fails before it changes anything. -/
theorem findOrCreate_cases (fs : Fs T) (d : InodeId) (name : String) (flags : Nat) :
    (∃ e, fs.findOrCreate d name flags = (.error e, fs)) ∨
      (∃ id, fs.links d name = some id ∧ fs.findOrCreate d name flags = (.ok id, fs)) ∨
      ((fs.kind d = some true ∧ fs.links d name = none ∧ flags &&& O_CREAT ≠ 0) ∧
        ∃ later, fs.createInode d name false = (.ok fs.nextInode, later) ∧
          fs.findOrCreate d name flags = (.ok fs.nextInode, later)) := by
  cases found : fs.findInode d name with
  | ok id => exact .inr (.inl ⟨id, (findInode_ok.mp found).1, by rw [findOrCreate, found]⟩)
  | error e =>
    rw [findOrCreate, found]
    dsimp only
    split
    · next creates =>
      obtain ⟨rfl, creates⟩ := creates
      rcases createInode_cases fs d name false with ⟨e, failed⟩ | ⟨metadata, entries, stored, free⟩
      · rw [failed]
        dsimp only
        split
        · exact .inl ⟨.notFound, by rw [found]⟩
        · exact .inl ⟨e, rfl⟩
      · have inside : fs.entries d = some entries := by rw [entries_eq, stored]; rfl
        obtain ⟨timestamp, later, made, -⟩ := createInode_made false stored free
        refine .inr (.inr ⟨⟨kind_dir.mpr ⟨entries, inside⟩, by rw [links_of_entries inside, free], creates⟩, later, made, ?_⟩)
        rw [made]
    · exact .inl ⟨e, rfl⟩

theorem findOrCreate_found (known : ¬ (fs.kind d = some true ∧ fs.links d name = none ∧ flags &&& O_CREAT ≠ 0)) :
    (fs.findOrCreate d name flags).2 = fs := by
  rcases findOrCreate_cases fs d name flags with ⟨e, result⟩ | ⟨id, -, result⟩ | ⟨creates, -⟩
  · rw [result]
  · rw [result]
  · exact absurd creates known

omit [TimeProvider T] in
theorem file_stored (file : fs.kind id = some false) :
    ∃ metadata storage, fs.inodeTable.lookup id = some ⟨metadata, .file storage⟩ := by
  obtain ⟨⟨metadata, content⟩, stored, kind⟩ := Option.map_eq_some_iff.mp file
  cases content with
  | dir => cases kind
  | file storage => exact ⟨metadata, storage, stored⟩

theorem openInode_refuses (file : fs.kind id = some false) (failed : (fs.openInode id flags).failed) :
    flags &&& O_TRUNC ≠ 0 ∧ accessMode flags = O_RDONLY := by
  obtain ⟨metadata, storage, stored⟩ := file_stored file
  simp only [openInode, stored] at failed
  split at failed
  · next truncates =>
    split at failed
    · next readOnly => exact ⟨truncates, readOnly⟩
    · cases failed
  · cases failed

theorem openEntry_unchanged (failed : (fs.openEntry d name flags).failed) : Unchanged fs (fs.openEntry d name flags).2 ↔
    ¬ (fs.kind d = some true ∧ fs.links d name = none ∧ flags &&& O_CREAT ≠ 0 ∧ flags &&& O_TRUNC ≠ 0 ∧
      accessMode flags = O_RDONLY) := by
  by_cases creates : fs.kind d = some true ∧ fs.links d name = none ∧ flags &&& O_CREAT ≠ 0
  · obtain ⟨dir, free, creates⟩ := creates
    obtain ⟨later, made, file, changed⟩ := findOrCreate_made creates dir free
    have opened : fs.openEntry d name flags = later.openInode fs.nextInode flags := by simp only [openEntry, made]
    rw [opened] at failed ⊢
    have refused := openInode_refuses file failed
    rw [openInode_clean later _ _ failed]
    exact ⟨fun unchanged => absurd unchanged changed, fun other => absurd ⟨dir, free, creates, refused⟩ other⟩
  · have same := findOrCreate_found creates
    have unchanged : (fs.openEntry d name flags).2 = fs := by
      unfold openEntry at failed ⊢
      generalize fs.findOrCreate d name flags = found at same failed ⊢
      obtain ⟨answer, later⟩ := found
      cases same
      cases answer with
      | error e => rfl
      | ok id => exact openInode_clean later id flags failed
    refine ⟨fun _ strands => creates ⟨strands.1, strands.2.1, strands.2.2.1⟩, fun _ => .of_eq unchanged⟩

end

end Fs

/-! ### Every call -/

section
variable {T : Type} [TimeProvider T] [Target] {fs : Fs T}

open Fs

omit [TimeProvider T] [Target] in
theorem strands_iff {call : Call} {parent : InodeId} {name : String} {flags : Nat}
    (opens : call.opens fs = some (parent, name, flags)) : Strands call fs ↔ fs.kind parent = some true ∧
      fs.links parent name = none ∧ flags &&& O_CREAT ≠ 0 ∧ flags &&& O_TRUNC ≠ 0 ∧ accessMode flags = O_RDONLY := by
  constructor
  · rintro ⟨parent', name', flags', opens', strands⟩
    cases opens.symm.trans opens'
    exact strands
  · exact fun strands => ⟨parent, name, flags, opens, strands⟩

omit [TimeProvider T] [Target] in
theorem not_strands {call : Call} (opens : call.opens fs = none) : ¬ Strands call fs := by
  rintro ⟨parent, name, flags, opens', -⟩
  cases opens.symm.trans opens'

omit [Target] in
/-- An open fails on its way, opens the root, or arrives at a directory. -/
theorem openPath_cases (fs : Fs T) (path : String) (flags : Nat) :
    ((∃ e, fs.openPathWithFlags path flags = (.error e, fs)) ∧ (Call.openPathWithFlags path flags).opens fs = none) ∨
      (fs.openPathWithFlags path flags = fs.insertFd fs.rootInode flags ∧ (Call.openPathWithFlags path flags).opens fs = none) ∨
      ∃ d name, (Call.openPathWithFlags path flags).opens fs = some (d, name, flags) ∧
        fs.openPathWithFlags path flags = fs.openEntry d name flags := by
  unfold openPathWithFlags
  rw [Call.opens, locate]
  split
  · exact .inl ⟨⟨_, rfl⟩, rfl⟩
  split
  · exact .inr (.inl ⟨rfl, rfl⟩)
  · next name _ =>
    cases fs.findParent (components path) with
    | error e => exact .inl ⟨⟨e, rfl⟩, rfl⟩
    | ok d => exact .inr (.inr ⟨d, name, rfl, rfl⟩)

omit [TimeProvider T] [Target] in
/-- A walk from what is no directory comes to no directory. -/
theorem descend_start {d v : InodeId} {comps : List String} (found : fs.descend d comps = .ok v) (dir : fs.kind v = some true) :
    fs.kind d = some true := by
  cases comps with
  | nil =>
    cases found
    exact dir
  | cons comp comps =>
    rw [descend] at found
    cases step : fs.findInode d comp with
    | error e =>
      rw [step] at found
      cases found
    | ok next => exact kind_of_links (findInode_ok.mp step).1

omit [Target] in
theorem openAt_cases (fs : Fs T) (dirFd : Fd) (path : String) (flags : Nat) :
    ((∃ e, fs.openAt dirFd path flags = (.error e, fs)) ∧ ∀ d name flags',
        (Call.openAt dirFd path flags).opens fs = some (d, name, flags') → fs.kind d ≠ some true) ∨
      ∃ d name, (Call.openAt dirFd path flags).opens fs = some (d, name, flags) ∧
        fs.openAt dirFd path flags = fs.openEntry d name flags := by
  unfold openAt
  rw [Call.opens]
  split
  · exact .inl ⟨⟨_, rfl⟩, fun _ _ _ opens => by cases opens⟩
  rw [holder]
  split
  · next missing => exact .inl ⟨⟨_, rfl⟩, fun _ _ _ opens => (by rw [missing] at opens; cases opens)⟩
  next handle found =>
  rw [found, Option.map_some, Option.bind_some]
  -- A walk that starts at no directory does not end at one.
  have blocked {e : FsError} (notDir : fs.kind handle.inodeId ≠ some true) :
      (∃ e', ((.error e, fs) : Outcome T Fd) = (.error e', fs)) ∧ ∀ d name flags',
        ((relativeComponents path).getLast?.bind fun name =>
          (fs.descend handle.inodeId (relativeComponents path).dropLast).toOption.map fun parent => (parent, name, flags)) =
          some (d, name, flags') → fs.kind d ≠ some true := by
    refine ⟨⟨e, rfl⟩, fun d name flags' opens dir => notDir ?_⟩
    obtain ⟨name', -, walked⟩ := Option.bind_eq_some_iff.mp opens
    obtain ⟨parent, walked, same⟩ := Option.map_eq_some_iff.mp walked
    cases same
    cases walk : fs.descend handle.inodeId (relativeComponents path).dropLast with
    | error e =>
      rw [walk] at walked
      cases walked
    | ok d =>
      rw [walk] at walked
      cases walked
      exact descend_start walk dir
  split
  · next missing =>
    refine .inl (blocked ?_)
    rw [kind, Option.isNone_iff_eq_none.mp missing]
    exact fun same => (by cases same)
  split
  · next file =>
    refine .inl (blocked ?_)
    rw [isFile_iff.mp file]
    exact fun same => (by cases same)
  split
  · next none => exact .inl ⟨⟨_, rfl⟩, fun _ _ _ opens => (by rw [none] at opens; cases opens)⟩
  · next name last =>
    rw [last, Option.bind_some]
    cases fs.descend handle.inodeId (relativeComponents path).dropLast with
    | error e => exact .inl ⟨⟨e, rfl⟩, fun _ _ _ opens => (by cases opens)⟩
    | ok d => exact .inr ⟨d, name, rfl, rfl⟩

theorem openPath_unchanged {path : String} {flags : Nat} (failed : (Call.openPathWithFlags path flags).failed fs) :
    Unchanged fs ((Call.openPathWithFlags path flags).perform fs) ↔ ¬ Strands (.openPathWithFlags path flags) fs := by
  dsimp only [Call.failed, Call.perform] at failed ⊢
  rcases openPath_cases fs path flags with ⟨⟨e, result⟩, nowhere⟩ | ⟨result, nowhere⟩ | ⟨d, name, arrives, result⟩
  · rw [result]
    exact ⟨fun _ => not_strands nowhere, fun _ => .of_eq rfl⟩
  · rw [result] at failed
    cases failed
  · rw [result] at failed ⊢
    rw [strands_iff arrives]
    exact openEntry_unchanged failed

theorem openAt_unchanged {dirFd : Fd} {path : String} {flags : Nat} (failed : (Call.openAt dirFd path flags).failed fs) :
    Unchanged fs ((Call.openAt dirFd path flags).perform fs) ↔ ¬ Strands (.openAt dirFd path flags) fs := by
  dsimp only [Call.failed, Call.perform] at failed ⊢
  rcases openAt_cases fs dirFd path flags with ⟨⟨e, result⟩, nowhere⟩ | ⟨d, name, arrives, result⟩
  · rw [result]
    refine ⟨fun _ => ?_, fun _ => .of_eq rfl⟩
    rintro ⟨parent, name, flags', opens, dir, -⟩
    exact nowhere parent name flags' opens dir
  · rw [result] at failed ⊢
    rw [strands_iff arrives]
    exact openEntry_unchanged failed

omit [TimeProvider T] [Target] in
theorem clean_unchanged {A : Type} {outcome : Outcome T A} (clean : Clean fs outcome) (failed : outcome.failed) :
    Unchanged fs outcome.2 := .of_eq (clean failed)

/-- A call that fails changes nothing, unless it leaves the file that it created. -/
theorem failed_unchanged_iff {call : Call} (failed : call.failed fs) : Unchanged fs (call.perform fs) ↔ ¬ Strands call fs := by
  have other (nothing : call.opens fs = none) (unchanged : Unchanged fs (call.perform fs)) :
      Unchanged fs (call.perform fs) ↔ ¬ Strands call fs :=
    ⟨fun _ => not_strands nothing, fun _ => unchanged⟩
  cases call with
  | openPathWithFlags path flags => exact openPath_unchanged failed
  | openAt dirFd path flags => exact openAt_unchanged failed
  | write fd buf => exact other rfl (clean_unchanged (writeThrough_clean fs fd _ _ buf) failed)
  | writeAt fd offset buf => exact other rfl (clean_unchanged (writeThrough_clean fs fd _ _ buf) failed)
  | appendWrite fd buf => exact other rfl (clean_unchanged (writeThrough_clean fs fd _ _ buf) failed)
  | read fd wanted => exact other rfl (clean_unchanged (readThrough_clean fs fd _ wanted) failed)
  | readAt fd offset wanted => exact other rfl (clean_unchanged (readThrough_clean fs fd _ wanted) failed)
  | ftruncate fd size => exact other rfl (clean_unchanged (ftruncate_clean fs fd size) failed)
  | seek fd offset whence => exact other rfl (clean_unchanged (seek_clean fs fd offset whence) failed)
  | close fd => exact other rfl (clean_unchanged (close_clean fs fd) failed)
  | mkdir path => exact other rfl (clean_unchanged (mkdir_clean fs path) failed)
  | mkdirP path => exact other rfl (clean_unchanged (mkdirP_clean fs path) failed)
  | unlink path => exact other rfl (clean_unchanged (unlink_clean fs path) failed)
  | rmdir path => exact other rfl (clean_unchanged (rmdir_clean fs path) failed)
  | rename oldPath newPath => exact other rfl (clean_unchanged (rename_clean fs oldPath newPath) failed)

end

/-- A reader that wants its new file truncated. -/
def strandedOpen : Call := .openPathWithFlags "/f" (O_CREAT ||| O_TRUNC)

theorem stranded_file : @Call.failed _ _ .wasm32 strandedOpen Fs.new = true ∧
    ¬ Unchanged Fs.new (@Call.perform _ _ .wasm32 strandedOpen Fs.new) := by
  refine ⟨by rfl, fun unchanged => ?_⟩
  have added := congrFun unchanged.inodes 1
  cases added

theorem failed_unchanged_stranded : Unchanged Fs.new (@Call.perform _ _ .wasm32 strandedOpen Fs.new) ↔ ¬ Strands strandedOpen Fs.new :=
  @failed_unchanged_iff MonotonicCounter _ .wasm32 Fs.new strandedOpen (by rfl)

end MonakaFs.FsCore
