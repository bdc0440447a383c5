import MonakaFs.FsCore.ByPath
import MonakaFs.FsCore.Handles

/-! Whole files through a descriptor: opened, read or emptied and written, and closed.

What an open for replacing finds in its way is a directory of that name. The directories
of a path can be made unless a file stands in their place.
-/

set_option autoImplicit false

namespace MonakaFs.FsCore.Fs

open BlockStorage

section
variable {T : Type} {fs later : Fs T} {id d : InodeId} {fd : Fd} {name : String} {front comps : List String} {flags : Nat}

/-! ### Descriptors -/

theorem setPosition_lookup (fs : Fs T) (fd : Fd) (position : Nat) {other : Fd} (apart : other ≠ fd) :
    (fs.setPosition fd position).fdTable.lookup other = fs.fdTable.lookup other := by
  unfold setPosition
  split
  · rw [Table.lookup_insert, if_neg apart]
  · rfl

theorem close_lookup (fs : Fs T) (fd other : Fd) :
    (fs.close fd).2.fdTable.lookup other = if other = fd then none else fs.fdTable.lookup other := by
  unfold close
  split
  · rw [Table.lookup_erase]
  · next missing =>
    split
    · next same => rw [same, Option.not_isSome_iff_eq_none.mp missing]
    · rfl

theorem close_files (fs : Fs T) (fd : Fd) : (fs.close fd).2.files = fs.files :=
  files_same (close_effect fs fd).1 (close_node fs fd)

theorem readThrough_lookup [Target] (fs : Fs T) (fd : Fd) (position : FileHandle → Nat) (wanted : Nat) {other : Fd} (apart : other ≠ fd) :
    (fs.readThrough fd position wanted).2.fdTable.lookup other = fs.fdTable.lookup other := by
  unfold readThrough
  split
  · rfl
  split
  · rfl
  split
  · rfl
  split
  · rfl
  · exact setPosition_lookup fs fd _ apart

end

section
variable {T : Type} [TimeProvider T] {fs later : Fs T} {id d : InodeId} {fd : Fd} {name : String} {front comps : List String} {flags : Nat}

theorem writeThrough_lookup [Target] (fs : Fs T) (fd : Fd) (position : FileHandle → BlockStorage → Nat) (after : Nat → Nat → Nat)
    (buf : Bytes) {other : Fd} (apart : other ≠ fd) :
    (fs.writeThrough fd position after buf).2.fdTable.lookup other = fs.fdTable.lookup other := by
  unfold writeThrough
  split
  · rfl
  split
  · rfl
  split
  · rfl
  split
  · rfl
  · exact setPosition_lookup _ fd _ apart

theorem mkdirPath_next (fs : Fs T) (d : InodeId) (comps : List String) :
    (fs.mkdirPath d comps).2.nextInode ≤ fs.nextInode + comps.length := by
  induction comps generalizing fs d with
  | nil => exact Nat.le_refl _
  | cons comp comps ih =>
    have further {middle : Fs T} {next : InodeId} (number : middle.nextInode ≤ fs.nextInode + 1) :
        (middle.mkdirPath next comps).2.nextInode ≤ fs.nextInode + (comps.length + 1) := by
      refine (ih middle next).trans ?_
      rw [Nat.add_comm comps.length 1, ← Nat.add_assoc]
      exact Nat.add_le_add_right number _
    unfold mkdirPath
    split
    · split
      · exact Nat.le_add_right _ _
      · exact further (Nat.le_succ _)
    · rcases createInode_node fs d comp true with ⟨e, failed⟩ | ⟨middle, made, -, next⟩
      · rw [failed]
        cases e with
        | alreadyExists =>
          dsimp only
          split
          · exact further (Nat.le_succ _)
          · exact Nat.le_add_right _ _
        | _ => exact Nat.le_add_right _ _
      · rw [made]
        exact further (by rw [next]; exact Nat.mod_le _ _)
    · exact Nat.le_add_right _ _

theorem mkdirP_next (fs : Fs T) (path : String) : (fs.mkdirP path).2.nextInode ≤ fs.nextInode + (components path).length := by
  unfold mkdirP
  split
  · exact Nat.le_add_right _ _
  split
  · exact Nat.le_add_right _ _
  split
  · exact mkdirPath_next fs _ _
  · exact Nat.le_add_right _ _

/-! ### Making directories -/

omit [TimeProvider T] in
theorem Grown.links (grown : Grown fs later) {v : InodeId} (named : fs.links d name = some v) : later.links d name = some v := by
  induction grown with
  | done => exact named
  | more _ _ made _ ih =>
    refine ih ?_
    rw [made.links, Links.set_other]
    · exact named
    · rintro ⟨rfl, rfl⟩
      rw [made.free] at named
      cases named

/-- A file stands where a path needs a directory. -/
def Blocked (fs : Fs T) (d : InodeId) (comps : List String) : Prop :=
  ∃ front, front <+: comps ∧ ∃ v, fs.links.walk d front = some v ∧ fs.kind v = some false

omit [TimeProvider T] in
theorem not_blocked_nil (dir : fs.kind d = some true) : ¬ fs.Blocked d [] := by
  rintro ⟨front, short, v, walked, file⟩
  obtain rfl := List.prefix_nil.mp short
  cases walked
  rw [dir] at file
  cases file

omit [TimeProvider T] in
/-- What blocks the way stands behind the first entry. -/
theorem blocked_cons {comp : String} {next : InodeId} (dir : fs.kind d = some true) (link : fs.links d comp = some next) :
    fs.Blocked d (comp :: comps) ↔ fs.Blocked next comps := by
  constructor
  · rintro ⟨front, short, v, walked, file⟩
    cases front with
    | nil =>
      cases walked
      rw [dir] at file
      cases file
    | cons first front =>
      obtain ⟨rfl, within⟩ := List.cons_prefix_cons.mp short
      rw [Links.walk, link] at walked
      exact ⟨front, within, v, walked, file⟩
  · rintro ⟨front, short, v, walked, file⟩
    exact ⟨comp :: front, List.cons_prefix_cons.mpr ⟨rfl, short⟩, v, by rw [Links.walk, link]; exact walked, file⟩

omit [TimeProvider T] in
theorem not_blocked_free {comp : String} (dir : fs.kind d = some true) (free : fs.links d comp = none) : ¬ fs.Blocked d (comp :: comps) := by
  rintro ⟨front, short, v, walked, file⟩
  cases front with
  | nil =>
    cases walked
    rw [dir] at file
    cases file
  | cons first front =>
    obtain ⟨rfl, -⟩ := List.cons_prefix_cons.mp short
    rw [Links.walk, free] at walked
    cases walked

omit [TimeProvider T] in
/-- Nothing can be in the way below an empty directory. -/
theorem not_blocked_empty (dir : fs.kind d = some true) (empty : ∀ name, fs.links d name = none) : ¬ fs.Blocked d comps := by
  cases comps with
  | nil => exact not_blocked_nil dir
  | cons comp comps => exact not_blocked_free dir (empty comp)

theorem mkdirPath_cases (sane : Sane fs) (dir : fs.kind d = some true) (live : fs.links.Below fs.rootInode d)
    (room : fs.nextInode + comps.length < 2 ^ 64) :
    (fs.Blocked d comps ∧ fs.mkdirPath d comps = (.error .notADirectory, fs)) ∨
      (¬ fs.Blocked d comps ∧ ∃ later, fs.mkdirPath d comps = (.ok (), later) ∧
        ∃ v, later.links.walk d comps = some v ∧ later.kind v = some true) := by
  induction comps generalizing fs d with
  | nil => exact .inr ⟨not_blocked_nil dir, fs, rfl, d, rfl, dir⟩
  | cons comp comps ih =>
    obtain ⟨fewer, space, rest⟩ := room_succ room
    unfold mkdirPath
    cases found : fs.findInode d comp with
    | ok next =>
      obtain ⟨link, there⟩ := findInode_ok.mp found
      rw [blocked_cons dir link]
      dsimp only
      split
      · next file => exact .inl ⟨⟨[], List.nil_prefix, next, rfl, isFile_iff.mp file⟩, rfl⟩
      · next notFile =>
        obtain ⟨isDir, kind⟩ := Option.isSome_iff_exists.mp there
        have directory : fs.kind next = some true := by
          cases isDir with
          | true => exact kind
          | false => exact absurd (isFile_iff.mpr kind) notFile
        have reached := live.tail ⟨comp, link⟩
        rcases ih sane directory reached fewer with blocked | ⟨free, later, result, v, walked, kind⟩
        · exact .inl blocked
        · have grown := mkdirPath_effect sane directory reached fewer
          rw [result] at grown
          exact .inr ⟨free, later, result, v, by rw [Links.walk, grown.links link]; exact walked, kind⟩
    | error e =>
      obtain ⟨rfl, free⟩ := findInode_error found dir (sane.named d comp)
      obtain ⟨middle, result, made, -⟩ := createInode_free true sane dir free
      have next : middle.nextInode = fs.nextInode + 1 := by rw [made.next, toU64, Nat.mod_eq_of_lt space]
      have sane' := made.sane sane space
      have directory : middle.kind fs.nextInode = some true := by rw [made.kind, Function.update_self]
      have link : middle.links d comp = some fs.nextInode := by rw [made.links, Links.set_same]
      have reached : middle.links.Below middle.rootInode fs.nextInode := (made.below sane).mpr (.inr ⟨rfl, live⟩)
      have empty (name : String) : middle.links fs.nextInode name = none := by
        rw [made.links, Links.set_other, sane.next_leaf]
        rintro ⟨rfl, -⟩
        rw [sane.unused] at dir
        cases dir
      simp only [result]
      rcases ih sane' directory reached (by rw [next]; exact rest) with ⟨blocked, -⟩ | ⟨-, later, answer, v, walked, kind⟩
      · exact absurd blocked (not_blocked_empty directory empty)
      · have grown := mkdirPath_effect sane' directory reached (by rw [next]; exact rest)
        rw [answer] at grown
        exact .inr ⟨not_blocked_free dir free, later, answer, v, by rw [Links.walk, grown.links link]; exact walked, kind⟩

omit [TimeProvider T] in
theorem Grown.root (grown : Grown fs later) : later.rootInode = fs.rootInode := by
  induction grown with
  | done => rfl
  | more _ _ made _ ih => exact ih.trans made.root

omit [TimeProvider T] in
theorem Grown.walk (grown : Grown fs later) {names : List String} {v : InodeId} (walked : fs.links.walk fs.rootInode names = some v) :
    later.links.walk later.rootInode names = some v := by
  rw [grown.root]
  exact Links.walk_mono (fun _ _ _ named => grown.links named) walked

/-- Directories are made on the way only. -/
theorem mkdirPath_others {names : List String} (sane : Sane fs) (dir : fs.kind d = some true)
    (walked : fs.links.walk fs.rootInode front = some d) (room : fs.nextInode + comps.length < 2 ^ 64)
    (apart : ¬ names <+: front ++ comps) :
    (fs.mkdirPath d comps).2.links.walk (fs.mkdirPath d comps).2.rootInode names = fs.links.walk fs.rootInode names := by
  induction comps generalizing fs d front with
  | nil => rfl
  | cons comp comps ih =>
    obtain ⟨fewer, space, rest⟩ := room_succ room
    have apart' : ¬ names <+: (front ++ [comp]) ++ comps := by rw [List.append_assoc]; exact apart
    unfold mkdirPath
    cases found : fs.findInode d comp with
    | ok next =>
      obtain ⟨link, there⟩ := findInode_ok.mp found
      dsimp only
      split
      · rfl
      · next notFile =>
        obtain ⟨isDir, kind⟩ := Option.isSome_iff_exists.mp there
        have directory : fs.kind next = some true := by
          cases isDir with
          | true => exact kind
          | false => exact absurd (isFile_iff.mpr kind) notFile
        have onward : fs.links.walk fs.rootInode (front ++ [comp]) = some next := by
          rw [Links.walk_concat, walked]
          exact link
        exact ih sane directory onward fewer apart'
    | error e =>
      obtain ⟨rfl, free⟩ := findInode_error found dir (sane.named d comp)
      obtain ⟨middle, result, made, -⟩ := createInode_free true sane dir free
      have next : middle.nextInode = fs.nextInode + 1 := by rw [made.next, toU64, Nat.mod_eq_of_lt space]
      have distinct : fs.nextInode ≠ d := by
        rintro rfl
        rw [sane.unused] at dir
        cases dir
      have paths (names : List String) : middle.links.walk middle.rootInode names =
          if names = front ++ [comp] then some fs.nextInode else fs.links.walk fs.rootInode names := by
        rw [made.links, made.root, sane.forest.walk_put walked free sane.next_leaf distinct]
      simp only [result]
      rw [ih (made.sane sane space) (by rw [made.kind, Function.update_self]) (by rw [paths, if_pos rfl]) (by rw [next]; exact rest) apart',
        paths, if_neg]
      rintro rfl
      exact apart' (List.prefix_append _ _)

/-! ### Opening, writing and reading -/

theorem openInode_empties (file : fs.kind id = some false) (truncates : flags &&& O_TRUNC ≠ 0) (writer : accessMode flags ≠ O_RDONLY) :
    ∃ later stored, fs.openInode id flags = (.ok fs.nextFd, later) ∧ Same fs later ∧
      later.node = Function.update fs.node id (some (some stored)) ∧ stored.storage.size = 0 ∧
      later.fdTable = AList.insert fs.nextFd ⟨id, 0, flags⟩ fs.fdTable ∧ later.nextFd = (fs.nextFd + 1) % 2 ^ 32 := by
  obtain ⟨metadata, storage, stored⟩ := file_stored file
  let emptied := fs.update id (Inode.store ⟨metadata, .file storage⟩ (storage.truncate 0) 0)
  have result : fs.openInode id flags = emptied.insertFd id flags := by
    simp only [openInode, stored, truncates, ne_eq, not_false_eq_true, if_true, writer, if_false, emptied]
  obtain ⟨same, -⟩ := update_effect stored rfl (storage.truncate 0) 0
  obtain ⟨same', -⟩ := insertFd_effect emptied id flags
  refine ⟨(emptied.insertFd id flags).2, ⟨storage.truncate 0, 0⟩, result, same.trans same', ?_, truncate_size .., rfl, rfl⟩
  rw [insertFd_node, update_node]

/-- The path leads to a directory. -/
def Occupied (fs : Fs T) (comps : List String) : Prop := ∃ v, fs.links.walk fs.rootInode comps = some v ∧ fs.kind v = some true

omit [TimeProvider T] in
theorem occupied_same (same : Same fs later) (comps : List String) : later.Occupied comps ↔ fs.Occupied comps := by
  rw [Occupied, Occupied, same.links, same.root, same.kind]

omit [TimeProvider T] in
/-- A new file is no directory, and leaves the others where they are. -/
theorem occupied_created (sane : Sane fs) (made : Created d name false fs later) (walked : fs.links.walk fs.rootInode front = some d)
    (names : List String) : later.Occupied names ↔ fs.Occupied names := by
  have apart : fs.nextInode ≠ d := by
    rintro rfl
    have parent := made.parent
    rw [sane.unused] at parent
    cases parent
  unfold Occupied
  rw [made.links, made.root, sane.forest.walk_put walked made.free sane.next_leaf apart]
  split
  · next new =>
    constructor
    · rintro ⟨v, reached, dir⟩
      cases reached
      rw [made.kind, Function.update_self] at dir
      cases dir
    · rintro ⟨v, reached, -⟩
      rw [new, Links.walk_concat, walked, Option.bind_some, made.free] at reached
      cases reached
  · constructor
    · rintro ⟨v, reached, dir⟩
      exact ⟨v, reached, by rw [← Created.kind_stays sane made (walked_there sane reached)]; exact dir⟩
    · rintro ⟨v, reached, dir⟩
      exact ⟨v, reached, by rw [Created.kind_stays sane made (walked_there sane reached)]; exact dir⟩

/-- A file was opened for replacing: it is there, and it is empty. -/
structure Emptied (fs : Fs T) (comps : List String) (flags : Nat) (later : Fs T) (id : InodeId) : Prop where
  walked : later.links.walk later.rootInode comps = some id
  empty : ∃ stored, later.node id = some (some stored) ∧ stored.storage.size = 0
  files : later.files = Function.update fs.files comps (some [])
  dirs : ∀ names, later.Occupied names ↔ fs.Occupied names
  held : later.fdTable = AList.insert fs.nextFd ⟨id, 0, flags⟩ fs.fdTable
  nextFd : later.nextFd = (fs.nextFd + 1) % 2 ^ 32

theorem openEntry_empties (sane : Sane fs) (dir : fs.kind d = some true) (walked : fs.links.walk fs.rootInode front = some d)
    (creates : flags &&& O_CREAT ≠ 0) (truncates : flags &&& O_TRUNC ≠ 0) (writer : accessMode flags = O_RDWR) :
    (∃ v, fs.links d name = some v ∧ fs.kind v = some true ∧ fs.openEntry d name flags = (.error .isADirectory, fs)) ∨
      ((∀ v, fs.links d name = some v → fs.kind v ≠ some true) ∧
        ∃ later id, fs.openEntry d name flags = (.ok fs.nextFd, later) ∧ Emptied fs (front ++ [name]) flags later id) := by
  have reader : accessMode flags ≠ O_RDONLY := by rw [writer]; decide
  cases link : fs.links d name with
  | some v =>
    have there := sane.named d name v link
    have found : fs.openEntry d name flags = fs.openInode v flags := by
      rw [openEntry, findOrCreate, findInode_ok.mpr ⟨link, there⟩]
    obtain ⟨isDir, kind⟩ := Option.isSome_iff_exists.mp there
    rw [found]
    cases isDir with
    | true =>
      obtain ⟨metadata, entries, stored, -⟩ := stored_dir kind
      exact .inl ⟨v, rfl, kind, by simp only [openInode, stored, writer, or_true, if_true]⟩
    | false =>
      obtain ⟨later, stored, result, same, nodes, empty, held, next⟩ := openInode_empties kind truncates reader
      have reached : fs.links.walk fs.rootInode (front ++ [name]) = some v := by rw [Links.walk_concat, walked]; exact link
      refine .inr ⟨fun w other dir => ?_, later, v, result, ?_, ⟨stored, ?_, empty⟩, ?_, occupied_same same, held, next⟩
      · cases other
        rw [kind] at dir
        cases dir
      · rw [same.links, same.root, reached]
      · rw [nodes, Function.update_self]
      · rw [files_stored sane same reached nodes, List.length_eq_zero_iff.mp ((content_length _).trans empty)]
  | none =>
    obtain ⟨middle, result, made, fds⟩ := createInode_free false sane dir link
    have nodes := (createInode_nodes result).1
    have table := (createInode_beside fs d name false).fds
    rw [result] at table
    have missing := findInode_missing dir link
    have found : fs.openEntry d name flags = middle.openInode fs.nextInode flags := by
      simp only [openEntry, findOrCreate, missing, creates, ne_eq, not_false_eq_true, and_self, if_true, result]
    have apart : fs.nextInode ≠ d := by
      rintro rfl
      rw [sane.unused] at dir
      cases dir
    have kind : middle.kind fs.nextInode = some false := by rw [made.kind, Function.update_self]
    have reached : middle.links.walk middle.rootInode (front ++ [name]) = some fs.nextInode := by
      rw [made.links, made.root, sane.forest.walk_put walked link sane.next_leaf apart, if_pos rfl]
    have files := files_created sane made nodes walked
    rw [found, ← fds]
    obtain ⟨later, stored, result', same, nodes', empty, held, next⟩ := openInode_empties kind truncates reader
    refine .inr ⟨fun w other => (by cases other), later, fs.nextInode, result', ?_, ⟨stored, ?_, empty⟩, ?_, fun names => ?_, ?_, ?_⟩
    · rw [same.links, same.root, reached]
    · rw [nodes', Function.update_self]
    -- The new file was empty before it was truncated.
    · have content := List.length_eq_zero_iff.mp ((content_length stored.storage).trans empty)
      rw [files_restored same (by rw [nodes, Function.update_self]; rfl) nodes' (by rw [content]; rfl), files]
      rfl
    · rw [occupied_same same]
      exact occupied_created sane made walked names
    · rw [held, table, fds]
    · rw [next, fds]

section
variable [Target]

/-- An empty file that is written through a fresh descriptor holds what was written. -/
theorem write_empty {data : Bytes} {stored : Stored} (sane : Sane fs) (whole : AllWhole fs)
    (walked : fs.links.walk fs.rootInode comps = some id) (found : fs.node id = some (some stored)) (empty : stored.storage.size = 0)
    (held : fs.fdTable.lookup fd = some ⟨id, 0, flags⟩) (writer : accessMode flags = O_RDWR) (plain : flags &&& O_APPEND = 0)
    (small : data.length < 2 ^ Target.usizeBits) :
    (fs.write fd data).1 = .ok data.length ∧ (fs.write fd data).2.files = Function.update fs.files comps (some data) := by
  have reader : accessMode flags ≠ O_RDONLY := by rw [writer]; decide
  have start : toUsize (0 : Nat) = 0 := Nat.zero_mod _
  obtain ⟨ok, nodes⟩ : (fs.write fd data).1 = .ok data.length ∧ (fs.write fd data).2.node = Function.update fs.node id
      (some (some ⟨stored.storage.write 0 data, toU64 (stored.storage.write 0 data).size⟩)) := by
    obtain ⟨ok, nodes⟩ := @writeThrough_done T _ _ fs fd
      (fun handle storage => if handle.flags &&& O_APPEND ≠ 0 then storage.size else toUsize handle.position)
      (fun pos n => toU64 (toUsize (pos + n))) data _ stored held found reader
    dsimp only at nodes
    rw [if_neg (by rw [plain]; exact fun same => same rfl), start, start] at nodes
    exact ⟨ok, nodes⟩
  have same : Same fs (fs.write fd data).2 := (writeThrough_effect fs fd _ _ data).1
  refine ⟨ok, ?_⟩
  rw [files_stored sane same walked nodes]
  have fits : stored.storage.size + data.length < 2 ^ Target.usizeBits := by
    rw [empty, Nat.zero_add]
    exact small
  have appended := append_content (whole id stored found) fits
  rw [empty, List.length_eq_zero_iff.mp ((content_length _).trans empty), List.nil_append] at appended
  rw [appended]

omit [TimeProvider T] in
/-- What a read of as many bytes as the file has returns, filled up with zeros. -/
theorem read_whole {stored : Stored} (whole : Whole stored.storage) (found : fs.node id = some (some stored))
    (held : fs.fdTable.lookup fd = some ⟨id, 0, O_RDONLY⟩) :
    ∃ bytes, (fs.read fd stored.storage.size).1 = .ok bytes ∧
      bytes ++ List.replicate (stored.storage.size - bytes.length) 0 = stored.storage.content := by
  have reader : accessMode O_RDONLY ≠ O_WRONLY := by decide
  have ok := @readThrough_done T _ fs fd (·.position) stored.storage.size _ stored held found reader
  refine ⟨stored.storage.read 0 stored.storage.size, ?_, ?_⟩
  · rw [Fs.read, ok, toUsize, Nat.zero_mod]
  · have filled := fromStorage_eq whole
    rw [FileDataSnapshot.fromStorage] at filled
    exact (FileDataSnapshot.mk.inj filled).2

/-- Nothing is written to a directory or read from it. -/
theorem write_dir {data : Bytes} (dir : fs.kind id = some true) (held : fs.fdTable.lookup fd = some ⟨id, 0, flags⟩)
    (writer : accessMode flags ≠ O_RDONLY) : fs.write fd data = (.error .badFileDescriptor, fs) := by
  obtain ⟨metadata, entries, stored, -⟩ := stored_dir dir
  simp only [Fs.write, writeThrough, held, writer, if_false, stored]

omit [TimeProvider T] in
theorem read_dir {wanted : Nat} (dir : fs.kind id = some true) (held : fs.fdTable.lookup fd = some ⟨id, 0, flags⟩)
    (reader : accessMode flags ≠ O_WRONLY) : fs.read fd wanted = (.error .badFileDescriptor, fs) := by
  obtain ⟨metadata, entries, stored, -⟩ := stored_dir dir
  simp only [Fs.read, readThrough, held, reader, if_false, stored]

end

/-! ### By path -/

omit [TimeProvider T] in
theorem resolve_dropLast {path : String} (named : (components path).getLast? = some name) :
    fs.resolve path = (fs.links.walk fs.rootInode (components path).dropLast).bind fun d => fs.links d name := by
  obtain ⟨front, split⟩ := List.getLast?_eq_some_iff.mp named
  rw [resolve, split, List.dropLast_concat, Links.walk_concat]

/-- An open for reading opens what the path leads to. -/
theorem openPath_read (sane : Sane fs) (path : String) :
    ((fs.resolve path = none ∨ path = "") ∧ ∃ e, fs.openPathWithFlags path O_RDONLY = (.error e, fs)) ∨
      ∃ id, path ≠ "" ∧ fs.resolve path = some id ∧ fs.openPathWithFlags path O_RDONLY = fs.insertFd id O_RDONLY := by
  by_cases blank : path = ""
  · exact .inl ⟨.inr blank, .invalidArgument, by rw [openPathWithFlags, if_pos blank]⟩
  by_cases root : components path = []
  · refine .inr ⟨fs.rootInode, blank, by rw [resolve, root]; rfl, ?_⟩
    rw [openPathWithFlags, if_neg blank, root]
    rfl
  cases found : fs.resolve path with
  | some id => exact .inr ⟨id, blank, rfl, openPath_reads found root (walked_there sane found)⟩
  | none =>
    refine .inl ⟨.inl rfl, ?_⟩
    obtain ⟨front, name, split⟩ : ∃ front name, components path = front ++ [name] := ⟨_, _, (List.dropLast_append_getLast root).symm⟩
    have last : (components path).getLast? = some name := by rw [split, List.getLast?_concat]
    rw [openPathWithFlags, if_neg blank, last]
    cases parent : fs.findParent (components path) with
    | error e => exact ⟨e, rfl⟩
    | ok d =>
      obtain ⟨walked, dir⟩ := (findParent_ok sane).mp parent
      rw [resolve_dropLast last, walked] at found
      refine ⟨.notFound, ?_⟩
      dsimp only
      rw [openEntry, findOrCreate_reads, findInode_missing dir found]

/-- The directory of a path is there. -/
def Housed (fs : Fs T) (comps : List String) : Prop := ∃ d, fs.links.walk fs.rootInode comps.dropLast = some d ∧ fs.kind d = some true

omit [TimeProvider T] in
theorem not_housed (blocked : fs.Blocked fs.rootInode comps.dropLast) : ¬ fs.Housed comps := by
  rintro ⟨d, walked, dir⟩
  obtain ⟨front, ⟨rest, whole⟩, v, reached, file⟩ := blocked
  rw [← whole, Links.walk_append, reached, Option.bind_some] at walked
  cases rest with
  | nil =>
    cases walked
    rw [file] at dir
    cases dir
  | cons name rest =>
    rw [Links.walk, links_none (by rw [file]; decide)] at walked
    cases walked

theorem mkdirP_root {path : String} (sane : Sane fs) (spelled : path ≠ "") : fs.mkdirP path = fs.mkdirPath fs.rootInode (components path) := by
  have there : (fs.inodeTable.lookup fs.rootInode).isSome := by rw [← kind_some, sane.root]; rfl
  by_cases root : components path = []
  · rw [mkdirP, if_neg spelled, if_pos root, root]
    rfl
  · rw [mkdirP, if_neg spelled, if_neg root, if_pos there]

/-- The directories of a path are there after they were asked for, unless a file is in the way. -/
theorem mkdirP_housed {path parent : String} (sane : Sane fs) (parents : components parent = (components path).dropLast)
    (spelled : parent ≠ "") (some : components path ≠ []) (room : fs.nextInode + (components parent).length < 2 ^ 64) :
    ((fs.mkdirP parent).2.Housed (components path) ↔ ¬ fs.Blocked fs.rootInode (components path).dropLast) ∧
      ((fs.mkdirP parent).2.Occupied (components path) ↔ fs.Occupied (components path)) := by
  have grown := mkdirP_effect parent sane room
  rw [mkdirP_root sane spelled] at grown ⊢
  constructor
  · rcases mkdirPath_cases sane sane.root .refl room with ⟨blocked, failed⟩ | ⟨free, later, result, v, walked, dir⟩
    · rw [parents] at blocked
      rw [failed]
      exact ⟨fun housed => absurd housed (not_housed blocked), fun free => absurd blocked free⟩
    · rw [result] at grown ⊢
      rw [parents] at free walked
      exact ⟨fun _ => free, fun _ => ⟨v, by rw [grown.root]; exact walked, dir⟩⟩
  · constructor
    · rintro ⟨v, walked, dir⟩
      have root : fs.links.walk fs.rootInode [] = .some fs.rootInode := rfl
      rw [mkdirPath_others sane sane.root root room] at walked
      · exact ⟨v, walked, by rw [← Grown.kind_stays grown sane (walked_there sane walked)]; exact dir⟩
      · rw [List.nil_append, parents]
        intro short
        have lengths := short.length_le
        rw [List.length_dropLast] at lengths
        have := List.length_pos_iff.mpr some
        omega
    · rintro ⟨v, walked, dir⟩
      exact ⟨v, grown.walk walked, by rw [Grown.kind_stays grown sane (walked_there sane walked)]; exact dir⟩

/-- An open for replacing empties the file or makes one. -/
theorem openPath_empties (sane : Sane fs) (path : String) (creates : flags &&& O_CREAT ≠ 0) (truncates : flags &&& O_TRUNC ≠ 0)
    (writer : accessMode flags = O_RDWR) :
    (components path = [] ∧ ((path = "" ∧ fs.openPathWithFlags path flags = (.error .invalidArgument, fs)) ∨
        (path ≠ "" ∧ fs.openPathWithFlags path flags = fs.insertFd fs.rootInode flags))) ∨
      (components path ≠ [] ∧ (¬ fs.Housed (components path) ∨ fs.Occupied (components path)) ∧
        ∃ e, fs.openPathWithFlags path flags = (.error e, fs)) ∨
      (components path ≠ [] ∧ fs.Housed (components path) ∧ ¬ fs.Occupied (components path) ∧
        ∃ later id, fs.openPathWithFlags path flags = (.ok fs.nextFd, later) ∧ Emptied fs (components path) flags later id) := by
  by_cases root : components path = []
  · refine .inl ⟨root, ?_⟩
    by_cases blank : path = ""
    · exact .inl ⟨blank, by rw [openPathWithFlags, if_pos blank]⟩
    · refine .inr ⟨blank, ?_⟩
      rw [openPathWithFlags, if_neg blank, root]
      rfl
  refine .inr ?_
  have blank : path ≠ "" := by
    rintro rfl
    exact root components_empty
  obtain ⟨front, name, split⟩ : ∃ front name, components path = front ++ [name] := ⟨_, _, (List.dropLast_append_getLast root).symm⟩
  have last : (components path).getLast? = some name := by rw [split, List.getLast?_concat]
  rw [openPathWithFlags, if_neg blank, last]
  dsimp only
  cases parent : fs.findParent (components path) with
  | error e =>
    refine .inl ⟨root, .inl ?_, e, rfl⟩
    rintro ⟨d, walked, dir⟩
    rw [(findParent_ok sane).mpr ⟨walked, dir⟩] at parent
    cases parent
  | ok d =>
    obtain ⟨walked, dir⟩ := (findParent_ok sane).mp parent
    have whole : fs.links.walk fs.rootInode (components path) = fs.links d name := by
      rw [split, List.dropLast_concat] at walked
      rw [split, Links.walk_concat, walked, Option.bind_some]
    dsimp only
    rw [split, List.dropLast_concat] at walked
    have cases := @openEntry_empties T _ fs d name _ flags sane dir walked creates truncates writer
    rcases cases with ⟨v, link, kind, refused⟩ | ⟨free, later, id, result, emptied⟩
    · exact .inl ⟨root, .inr ⟨v, whole.trans link, kind⟩, _, refused⟩
    · refine .inr ⟨root, ⟨d, by rw [split, List.dropLast_concat]; exact walked, dir⟩, ?_, later, id, result, by rw [split]; exact emptied⟩
      rintro ⟨v, reached, kind⟩
      exact free v (whole.symm.trans reached) kind

end
end MonakaFs.FsCore.Fs
