import MonakaFs.FsCore.Snapshots

/-! The filesystem image that the command line tool embeds.

Mounted directories are walked one after the other. Inodes are pushed to a list, and
the entries of directories are kept in a map beside it. At the end every directory of
the list gets the entries that the map has for it. A file is entered whatever was
there before, and what is mapped below a file gets entries in the map only.
-/

set_option autoImplicit false

namespace MonakaFs.Cli

open FsCore

/-- `Path::file_name`: the last component, unless that is the parent directory. Dots at
the end are skipped. -/
def fileName (path : String) : Option String :=
  let name := ((components path).rdropWhile (· == ".")).getLast?
  if name = some ".." then none else name

/-- What a walk of a local directory yields: a path below the mounted one, and the bytes of a file. -/
structure LocalEntry where
  relativePath : List String
  content : Option Bytes

structure Mount where
  virtPath : String
  walk : List LocalEntry

def virtFilePath (virtPath : String) (entry : LocalEntry) : String :=
  if entry.relativePath = [] then virtPath
  else Text.trimEndMatches '/' virtPath ++ "/" ++ "/".intercalate entry.relativePath

def dirInode (id : InodeId) : InodeSnapshot := ⟨id, ⟨0, 0, 0, 0o755, true⟩, .dir ∅⟩

def fileInode (id : InodeId) (content : Bytes) : InodeSnapshot :=
  ⟨id, ⟨content.length, 0, 0, 0o644, false⟩, .file ⟨content.length, content⟩⟩

def newInode (id : InodeId) : Option Bytes → InodeSnapshot
  | none => dirInode id
  | some content => fileInode id content

/-- The state of `build_snapshot`. -/
structure Image where
  nextInode : InodeId
  inodes : List InodeSnapshot
  dirEntries : Table InodeId (Table String InodeId)

namespace Image

def empty : Image := ⟨1, [], AList.insert 0 ∅ ∅⟩

/-- Push a new inode and enter it under a name. A new directory gets a map of its own. -/
def add (image : Image) (parent : InodeId) (name : String) (content : Option Bytes) : Image :=
  let new := image.nextInode
  let entries := AList.insert name new ((image.dirEntries.lookup parent).getD ∅)
  let dirEntries := AList.insert parent entries image.dirEntries
  ⟨new + 1, image.inodes ++ [newInode new content], if content.isNone then AList.insert new ∅ dirEntries else dirEntries⟩

/-- The entry that the map has for a name. -/
def link (image : Image) (parent : InodeId) (name : String) : Option InodeId :=
  (image.dirEntries.lookup parent).bind (·.lookup name)

/-- The loop of `ensure_parent_dirs`. -/
def ensureDirs (image : Image) (current : InodeId) : List String → Image × InodeId
  | [] => (image, current)
  | part :: parts =>
      match image.link current part with
      | some existing => ensureDirs image existing parts
      | none => ensureDirs (image.add current part none) image.nextInode parts

/-- The directory that a path is entered in, with the directories on the way to it. -/
def ensureParentDirs (image : Image) (path : String) : Image × InodeId := image.ensureDirs 0 (components path).dropLast

/-- One round of the walk. -/
def mapEntry (image : Image) (path : String) (content : Option Bytes) : Except String Image :=
  let (image, parent) := image.ensureParentDirs path
  match content, fileName path with
  | none, none => .ok image
  | none, some name => if (image.link parent name).isSome then .ok image else .ok (image.add parent name none)
  | some _, none => .error "Invalid file name"
  | some bytes, some name => .ok (image.add parent name (some bytes))

def mapAll (image : Image) : List (String × Option Bytes) → Except String Image
  | [] => .ok image
  | mapped :: rest => (image.mapEntry mapped.1 mapped.2).bind fun image => image.mapAll rest

/-- The entries of a directory are those of the map. -/
def fill (image : Image) (inode : InodeSnapshot) : InodeSnapshot :=
  match inode.content, image.dirEntries.lookup inode.id with
  | .dir _, some entries => { inode with content := .dir entries }
  | _, _ => inode

def snapshot (image : Image) : FsSnapshot := ⟨image.nextInode, 0, (dirInode 0 :: image.inodes).map image.fill⟩

end Image

/-- Everything that is mapped, in the order of the mounts and of their walks. -/
def mapped (mounts : List Mount) : List (String × Option Bytes) :=
  mounts.flatMap fun mount => mount.walk.map fun entry => (virtFilePath mount.virtPath entry, entry.content)

def buildSnapshot (mounts : List Mount) : Except String FsSnapshot := (Image.empty.mapAll (mapped mounts)).map Image.snapshot

/-! ### What an image holds -/

/-- The bytes of a file. -/
def bytesOf (inode : InodeSnapshot) : Option Bytes :=
  match inode.content with
  | .file fileData => some fileData.data
  | .dir _ => none

@[simp] theorem bytesOf_new (id : InodeId) (content : Option Bytes) : bytesOf (newInode id content) = content := by
  cases content <;> rfl

namespace Image

variable {image later : Image} {parent d e v : InodeId} {name n : String} {content : Option Bytes} {place other : List String}

/-- The inodes with the root in front, which is put there at the end. -/
def all (image : Image) : List InodeSnapshot := dirInode 0 :: image.inodes

/-- What has a number: nothing, a directory, or a file with its bytes. -/
def stored (image : Image) (id : InodeId) : Option (Option Bytes) := (image.all[id]?).map bytesOf

/-- What a path leads to by the map of the entries. -/
def shown (image : Image) (place : List String) : Option (Option Bytes) := (Links.walk image.link 0 place).bind image.stored

/-- What holds of an image in every run. -/
structure Sound (image : Image) : Prop where
  numbered : ∀ {id inode}, image.all[id]? = some inode → inode = newInode id (bytesOf inode)
  counted : image.all.length = image.nextInode
  forest : Links.Forest image.link 0
  bounded : ∀ {d n v}, image.link d n = some v → v < image.nextInode
  unused : ∀ {d} n, image.nextInode ≤ d → image.link d n = none
  -- a file is never entered as a dot
  dots : ∀ {d v}, image.link d "." = some v → image.stored v = some none

theorem empty_link (d : InodeId) (n : String) : empty.link d n = none := by
  rw [link, empty, Table.lookup_insert]
  split <;> rfl

theorem empty_sound : empty.Sound where
  numbered {id inode} found := by
    obtain ⟨within, rfl⟩ := List.getElem?_eq_some_iff.mp found
    have within : id < 1 := within
    obtain rfl : id = 0 := Nat.lt_one_iff.mp within
    rfl
  counted := rfl
  forest := by
    constructor
    · rintro ⟨d, n, named⟩
      rw [empty_link] at named
      cases named
    · intro d e n m v named
      rw [empty_link] at named
      cases named
  bounded named := by
    rw [empty_link] at named
    cases named
  unused n _ := empty_link _ n
  dots named := by
    rw [empty_link] at named
    cases named

section
variable (sound : image.Sound)
include sound

theorem Sound.source_bounded (named : image.link d n = some v) : d < image.nextInode := by
  by_contra beyond
  rw [sound.unused n (Nat.not_lt.mp beyond)] at named
  cases named

theorem Sound.stored_some : (image.stored v).isSome ↔ v < image.nextInode := by
  rw [stored, Option.isSome_map, ← sound.counted]
  simp

theorem Sound.positive : 0 < image.nextInode := by
  rw [← sound.counted]
  exact Nat.succ_pos _

theorem Sound.next_unlinked : ¬ Links.Linked image.link image.nextInode := by
  rintro ⟨d, n, named⟩
  exact Nat.lt_irrefl _ (sound.bounded named)

theorem Sound.walk_bounded (found : Links.walk image.link 0 place = some v) : v < image.nextInode := by
  induction place using List.reverseRecOn with
  | nil =>
    cases found
    exact sound.positive
  | append_singleton place n =>
    rw [Links.walk_concat] at found
    obtain ⟨d, -, named⟩ := Option.bind_eq_some_iff.mp found
    exact sound.bounded named

theorem Sound.shown_none : image.shown place = none ↔ Links.walk image.link 0 place = none := by
  rw [shown]
  cases found : Links.walk image.link 0 place with
  | none => simp
  | some v =>
    have there := sound.stored_some.mpr (sound.walk_bounded found)
    simp [← Option.isSome_iff_ne_none, there]

/-! ### One more inode -/

theorem add_all (parent : InodeId) (name : String) (content : Option Bytes) (id : InodeId) :
    (image.add parent name content).all[id]? = if id = image.nextInode then some (newInode image.nextInode content) else image.all[id]? := by
  have all : (image.add parent name content).all = image.all ++ [newInode image.nextInode content] := rfl
  rw [all, List.getElem?_append, sound.counted]
  rcases Nat.lt_trichotomy id image.nextInode with before | rfl | behind
  · rw [if_pos before, if_neg (Nat.ne_of_lt before)]
  · simp
  · have old : image.all[id]? = none := List.getElem?_eq_none (by rw [sound.counted]; exact Nat.le_of_lt behind)
    rw [if_neg (Nat.not_lt.mpr (Nat.le_of_lt behind)), if_neg (Nat.ne_of_gt behind), old, List.getElem?_eq_none]
    exact Nat.sub_pos_of_lt behind

theorem add_stored (parent : InodeId) (name : String) (content : Option Bytes) (id : InodeId) :
    (image.add parent name content).stored id = if id = image.nextInode then some content else image.stored id := by
  rw [stored, stored, add_all sound]
  split
  · rw [Option.map_some, bytesOf_new]
  · rfl

omit sound in
/-- The entries of one directory are put in the place of what there was. -/
theorem lookup_entries (dirEntries : Table InodeId (Table String InodeId)) (entries : Table String InodeId) :
    ((AList.insert parent entries dirEntries).lookup d).bind (·.lookup n) =
      if d = parent then entries.lookup n else (dirEntries.lookup d).bind (·.lookup n) := by
  rw [Table.lookup_insert]
  split <;> rfl

theorem add_link (there : parent < image.nextInode) (name : String) (content : Option Bytes) :
    (image.add parent name content).link = Links.set image.link parent name (some image.nextInode) := by
  funext d n
  have fresh : image.link image.nextInode n = none := sound.unused n (le_refl _)
  have entered : ((AList.insert parent (AList.insert name image.nextInode ((image.dirEntries.lookup parent).getD ∅))
      image.dirEntries).lookup d).bind (·.lookup n) = Links.set image.link parent name (some image.nextInode) d n := by
    rw [lookup_entries, Table.lookup_insert, Links.set]
    by_cases here : d = parent
    · subst here
      rw [if_pos rfl]
      by_cases same : n = name
      · rw [if_pos same, if_pos ⟨rfl, same⟩]
      · rw [if_neg same, if_neg fun both => same both.2, link]
        cases image.dirEntries.lookup d <;> rfl
    · rw [if_neg here, if_neg fun both => here both.1]
      rfl
  rw [link, add]
  dsimp only
  split
  · rw [lookup_entries]
    by_cases new : d = image.nextInode
    · subst new
      rw [if_pos rfl, Links.set_other fun both => Nat.ne_of_gt there both.1, fresh]
      rfl
    · rw [if_neg new]
      exact entered
  · exact entered

theorem add_sound (there : parent < image.nextInode) (dots : content.isSome → name ≠ ".") : (image.add parent name content).Sound := by
  have links := add_link sound there name content
  have next : (image.add parent name content).nextInode = image.nextInode + 1 := rfl
  refine ⟨fun {id inode} found => ?_, ?_, ?_, fun {d n v} named => ?_, fun {d} n beyond => ?_, fun {d v} named => ?_⟩
  · rw [add_all sound] at found
    split at found
    · next same =>
      cases found
      rw [bytesOf_new, same]
    · exact sound.numbered found
  · have all : (image.add parent name content).all = image.all ++ [newInode image.nextInode content] := rfl
    rw [all, List.length_append, sound.counted]
    rfl
  · rw [links]
    exact sound.forest.put sound.next_unlinked (Nat.ne_of_gt sound.positive)
  · rw [next]
    rw [links] at named
    rcases Links.set_some named with ⟨-, -, same⟩ | ⟨-, named⟩
    · cases same
      exact Nat.lt_succ_self _
    · exact Nat.lt_succ_of_lt (sound.bounded named)
  · rw [next] at beyond
    -- A number beyond the next one is not the parent.
    have elsewhere : d ≠ parent := Nat.ne_of_gt (there.trans (Nat.lt_of_succ_le beyond))
    rw [links, Links.set_other fun both => elsewhere both.1]
    exact sound.unused n (Nat.le_of_succ_le beyond)
  · rw [add_stored sound]
    rw [links] at named
    rcases Links.set_some named with ⟨-, dot, same⟩ | ⟨-, named⟩
    · cases same
      cases content with
      | none => rw [if_pos rfl]
      | some bytes => exact absurd dot.symm (dots rfl)
    · rw [if_neg (Nat.ne_of_lt (sound.bounded named))]
      exact sound.dots named

end

/-! ### Growth -/

/-- Inodes stay what they are, and only new ones get another entry. -/
structure Grown (image later : Image) : Prop where
  next : image.nextInode ≤ later.nextInode
  stored : ∀ {v}, v < image.nextInode → later.stored v = image.stored v
  links : ∀ {d n v}, later.link d n = some v → v < image.nextInode → image.link d n = some v

theorem Grown.refl (image : Image) : Grown image image := ⟨le_refl _, fun _ => rfl, fun named _ => named⟩

theorem Grown.trans {last : Image} (first : Grown image later) (second : Grown later last) : Grown image last where
  next := first.next.trans second.next
  stored old := (second.stored (old.trans_le first.next)).trans (first.stored old)
  links named old := first.links (second.links named (old.trans_le first.next)) old

theorem add_grown (sound : image.Sound) (there : parent < image.nextInode) (name : String) (content : Option Bytes) :
    Grown image (image.add parent name content) where
  next := Nat.le_succ _
  stored old := by rw [add_stored sound, if_neg (Nat.ne_of_lt old)]
  links named old := by
    rw [add_link sound there] at named
    rcases Links.set_some named with ⟨-, -, same⟩ | ⟨-, named⟩
    · cases same
      exact absurd old (Nat.lt_irrefl _)
    · exact named

/-- The image grew, and no entry was replaced. -/
structure Extends (image later : Image) : Prop extends Grown image later where
  sound : later.Sound
  kept : ∀ d n v, image.link d n = some v → later.link d n = some v

theorem Extends.trans {last : Image} (first : Extends image later) (second : Extends later last) : Extends image last where
  toGrown := first.toGrown.trans second.toGrown
  sound := second.sound
  kept d n v named := second.kept d n v (first.kept d n v named)

theorem add_extends (sound : image.Sound) (there : parent < image.nextInode) (dots : content.isSome → name ≠ ".")
    (free : image.link parent name = none) : Extends image (image.add parent name content) where
  toGrown := add_grown sound there name content
  sound := add_sound sound there dots
  kept d n v named := by
    rw [add_link sound there, Links.set_other]
    · exact named
    · rintro ⟨rfl, rfl⟩
      rw [free] at named
      cases named

theorem ensureDirs_extends {parts : List String} {current : InodeId} (sound : image.Sound) (there : current < image.nextInode) :
    Extends image (image.ensureDirs current parts).1 ∧
      Links.walk (image.ensureDirs current parts).1.link current parts = some (image.ensureDirs current parts).2 := by
  induction parts generalizing image current with
  | nil => exact ⟨⟨.refl image, sound, fun _ _ _ named => named⟩, rfl⟩
  | cons part parts ih =>
    rw [ensureDirs]
    cases found : image.link current part with
    | some existing =>
      obtain ⟨grown, walked⟩ := ih sound (sound.bounded found)
      refine ⟨grown, ?_⟩
      rw [Links.walk, grown.kept _ _ _ found]
      exact walked
    | none =>
      have made : Extends image (image.add current part none) := add_extends sound there (fun some => (by cases some)) found
      obtain ⟨grown, walked⟩ := ih made.sound (Nat.lt_succ_self image.nextInode)
      refine ⟨made.trans grown, ?_⟩
      have named : (image.add current part none).link current part = some image.nextInode := by
        rw [add_link sound there, Links.set_same]
      rw [Links.walk, grown.kept _ _ _ named]
      exact walked

end Image

end MonakaFs.Cli
