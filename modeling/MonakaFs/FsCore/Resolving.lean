import MonakaFs.FsCore.Snapshots

/-! Where paths lead: after a rename, and below a descriptor.

A rename carries a whole subtree from one place to another. An open below a descriptor
is an open below the path of its directory.
-/

set_option autoImplicit false

namespace MonakaFs.FsCore

open Fs

section
variable {T : Type} [TimeProvider T] [Target] {fs : Fs T}

/-! ### Filesystems before the inode numbers run out -/

/-- New filesystems, those after a call that has numbers left, and restored ones. -/
inductive Lasting : Fs T → Prop where
  | new (clock : T) : Lasting (withTimeProvider clock)
  | called {fs : Fs T} (lasting : Lasting fs) (call : Call) (room : Room call fs) : Lasting (call.perform fs)
  | restored {fs : Fs T} {inodes : List (Sigma fun _ : InodeId => Inode)} (lasting : Lasting fs) (visits : Visits fs inodes)
      (clock : T) : Lasting (fromSnapshot (fs.toSnapshot inodes) clock)

theorem Lasting.reachable (lasting : Lasting fs) : Reachable fs := by
  induction lasting with
  | new clock => exact .new clock
  | called _ call _ ih => exact .called ih call
  | restored _ visits clock ih => exact .restored ih visits clock

omit [TimeProvider T] in
/-- A restored namespace is the one that was saved. -/
theorem restored_same {inodes : List (Sigma fun _ : InodeId => Inode)} (visits : Visits fs inodes) (clock : T) :
    Same fs (fromSnapshot (fs.toSnapshot inodes) clock) := by
  have content (inode : Inode) : (rebuilt inode).content.isDir = inode.content.isDir ∧
      (rebuilt inode).content.entries = inode.content.entries ∧ (rebuilt inode).metadata = inode.metadata := by
    obtain ⟨metadata, content⟩ := inode
    cases content with
    | file storage => exact ⟨rfl, rfl, rfl⟩
    | dir entries => exact ⟨rfl, rfl, rfl⟩
  refine ⟨⟨?_, fun typed id inode found => ?_, rfl, rfl⟩, ?_⟩
  · funext id
    rw [Fs.kind, Fs.kind, restored_lookup visits, Option.map_map]
    congr 1
    funext inode
    exact (content inode).1
  · rw [restored_lookup visits] at found
    obtain ⟨before, there, rfl⟩ := Option.map_eq_some_iff.mp found
    rw [(content before).1, (content before).2.2]
    exact typed id before there
  · funext d name
    rw [Fs.links, Fs.links, entries_eq, entries_eq, restored_lookup visits, Option.bind_map]
    congr 2
    funext inode
    exact (content inode).2.1

theorem Lasting.sane (lasting : Lasting fs) : Sane fs := by
  induction lasting with
  | new clock => exact new_sane clock
  | called _ call room ih => exact perform_sane call ih room
  | restored _ visits clock ih => exact (restored_same visits clock).sane ih fun _ _ held => by cases held

/-! ### Renaming -/

omit [Target] in
/-- A rename between different paths succeeds only with a source that may go to its destination. -/
theorem rename_ok {oldPath newPath : String} (sane : Sane fs) (ok : (fs.rename oldPath newPath).1 = .ok ())
    (different : components oldPath ≠ components newPath) :
    ∃ d name e newName v, Renames fs oldPath newPath d name e newName v := by
  unfold rename at ok
  split at ok
  · cases ok
  split at ok
  · next oldName newName lastOld lastNew =>
    obtain ⟨front, split⟩ := List.getLast?_eq_some_iff.mp lastOld
    obtain ⟨back, split'⟩ := List.getLast?_eq_some_iff.mp lastNew
    split at ok
    · cases ok
    next d parent =>
    split at ok
    · cases ok
    next v found =>
    split at ok
    · cases ok
    next e parent' =>
    split at ok
    · cases ok
    next free =>
    obtain ⟨walked, -⟩ := (findParent_ok sane).mp parent
    obtain ⟨walked', dir⟩ := (findParent_ok sane).mp parent'
    rw [split, List.dropLast_concat] at walked
    rw [split', List.dropLast_concat] at walked'
    obtain ⟨named, there⟩ := findInode_ok.mp found
    -- That the target may be replaced is the last check.
    refine ⟨d, oldName, e, newName, v, different, ⟨front, split, walked⟩, named, ⟨back, split', walked'⟩, dir, fun w taken => ?_⟩
    have there' := sane.named e newName w taken
    rw [findInode_ok.mpr ⟨taken, there'⟩] at free
    exact (replaceError_none sane there there').mp free
  · cases ok

/-- What was at and below the old path is at and below the new one, nothing is left
there, and every other path leads where it did. -/
structure MovesSubtree (fs later : Fs T) (oldPath newPath : String) : Prop where
  moved : ∀ suffix, later.links.walk later.rootInode (components newPath ++ suffix) =
    fs.links.walk fs.rootInode (components oldPath ++ suffix)
  gone : ∀ suffix, later.links.walk later.rootInode (components oldPath ++ suffix) = none
  others : ∀ path, ¬ components oldPath <+: path → ¬ components newPath <+: path →
    later.links.walk later.rootInode path = fs.links.walk fs.rootInode path

/-- The source is there, the destination has a directory, and what it replaces is a file
for a file or an empty directory for a directory. -/
structure MayMove (fs : Fs T) (oldPath newPath : String) (source parent : InodeId) : Prop where
  found : fs.resolve oldPath = some source
  reached : fs.links.walk fs.rootInode (components newPath).dropLast = some parent
  dir : fs.kind parent = some true
  replaced : ∀ target, fs.resolve newPath = some target → fs.kind source = fs.kind target ∧ ∀ name, fs.links target name = none

/-- In every reachable state, a rename that succeeds moves exactly one subtree. -/
theorem rename_moves_subtree {oldPath newPath : String} (lasting : Lasting fs) (ok : (fs.rename oldPath newPath).1 = .ok ())
    (outside : ¬ components oldPath <+: components newPath) :
    MovesSubtree fs (fs.rename oldPath newPath).2 oldPath newPath ∧ ∃ source parent, MayMove fs oldPath newPath source parent := by
  have sane := lasting.sane
  obtain ⟨d, name, e, newName, v, renames⟩ := rename_ok sane ok fun same => outside (same ▸ List.prefix_refl _)
  obtain ⟨links, root⟩ : (fs.rename oldPath newPath).2.links = fs.links.move d name e newName v ∧
      (fs.rename oldPath newPath).2.rootInode = fs.rootInode := by
    rcases rename_effect oldPath newPath sane with ⟨d', name', e', newName', v', again, moved⟩ | ⟨refused, -⟩
    · obtain ⟨rfl, rfl, rfl⟩ := renames.unique again
      obtain ⟨rfl, rfl⟩ := sane.forest.unique renames.named again.named
      exact ⟨moved.links, moved.root⟩
    · exact absurd renames (refused d name e newName v)
  obtain ⟨front, split, source⟩ := renames.source
  obtain ⟨back, split', target⟩ := renames.target
  have outside' : ¬ front ++ [name] <+: back ++ [newName] := by rw [← split, ← split']; exact outside
  have aside : ¬ front ++ [name] <+: back := fun short => outside' (short.trans (List.prefix_append ..))
  refine ⟨⟨fun suffix => ?_, fun suffix => ?_, fun path notOld notNew => ?_⟩, v, e, ?_, ?_, renames.dir, fun w found => ?_⟩
  · rw [links, root, split, split']
    exact sane.forest.walk_move_new renames.named source target aside
  · rw [links, root, split]
    exact sane.forest.walk_move_old renames.named source target (fun w there => (renames.replaceable w there).2) outside'
  · rw [links, root]
    exact sane.forest.walk_move_other source target (split ▸ notOld) (split' ▸ notNew)
  · rw [resolve_concat split source]
    exact renames.named
  · rw [split', List.dropLast_concat]
    exact target
  · rw [resolve_concat split' target] at found
    exact renames.replaceable w found

/-! ### Opening below a descriptor -/

omit [TimeProvider T] [Target] in
theorem descend_of_walk {d v : InodeId} {comps : List String} (walked : fs.links.walk d comps = some v)
    (dir : fs.kind v = some true) : fs.descend d comps = .ok v := by
  induction comps generalizing d with
  | nil =>
    cases walked
    rfl
  | cons comp comps ih =>
    obtain ⟨next, named, onward⟩ := Option.bind_eq_some_iff.mp walked
    have kind : fs.kind next = some true := by
      cases comps with
      | nil =>
        cases onward
        exact dir
      | cons =>
        obtain ⟨_, link, -⟩ := Option.bind_eq_some_iff.mp onward
        exact kind_of_links link
    have notFile : ¬ fs.isFile next = true := by
      rw [isFile_iff, kind]
      exact fun same => (by cases same)
    rw [descend, findInode_ok.mpr ⟨named, by rw [kind]; rfl⟩]
    dsimp only
    rw [if_neg notFile]
    exact ih onward

omit [TimeProvider T] [Target] in
theorem descend_append {d middle : InodeId} {front back : List String} (walked : fs.descend d front = .ok middle) :
    fs.descend d (front ++ back) = fs.descend middle back := by
  induction front generalizing d with
  | nil =>
    cases walked
    rfl
  | cons comp front ih =>
    rw [descend] at walked
    rw [List.cons_append, descend]
    split at walked
    · cases walked
    next next found =>
    split at walked
    · cases walked
    next notFile => exact (if_neg notFile).trans (ih walked)

omit [TimeProvider T] [Target] in
theorem there_of_walk {d v : InodeId} {comps : List String} (walked : fs.links.walk d comps = some v) (dir : fs.kind v = some true) :
    (fs.inodeTable.lookup d).isSome := by
  rw [← kind_some]
  cases comps with
  | nil =>
    cases walked
    rw [dir]
    rfl
  | cons comp comps =>
    obtain ⟨_, link, -⟩ := Option.bind_eq_some_iff.mp walked
    rw [kind_of_links link]
    rfl

omit [TimeProvider T] [Target] in
theorem components_below (dir path : String) : components (dir ++ "/" ++ path) = components dir ++ relativeComponents path := by
  have split : (dir ++ "/" ++ path).toList = dir.toList ++ '/' :: path.toList := by simp
  rw [components_eq, components_eq, split, segments_append, List.map_append]
  rfl

omit [Target] in
/-- In every state, reachable or not, an open below a descriptor of a directory is the
open of the joined path, as long as the directory is where the path says. -/
theorem openAt_agrees {dirFd : Fd} {dir : InodeId} {dirPath path : String} (flags : Nat) (held : fs.holder dirFd = some dir)
    (kind : fs.kind dir = some true) (reached : fs.resolve dirPath = some dir) (relative : Relative path)
    (named : relativeComponents path ≠ []) :
    fs.openAt dirFd path flags = fs.openPathWithFlags (dirPath ++ "/" ++ path) flags := by
  obtain ⟨handle, found, rfl⟩ := Option.map_eq_some_iff.mp held
  have there : ¬ (fs.inodeTable.lookup handle.inodeId).isNone := by
    rw [Option.isNone_iff_eq_none, ← ne_eq, ← Option.isSome_iff_ne_none, ← kind_some, kind]
    rfl
  have notFile : ¬ fs.isFile handle.inodeId = true := by
    rw [isFile_iff, kind]
    exact fun same => (by cases same)
  obtain ⟨front, name, split⟩ : ∃ front name, relativeComponents path = front ++ [name] := by
    rcases (relativeComponents path).eq_nil_or_concat with none | ⟨front, name, split⟩
    · exact absurd none named
    · exact ⟨front, name, by rw [split, List.concat_eq_append]⟩
  have joined : components (dirPath ++ "/" ++ path) = components dirPath ++ front ++ [name] := by
    rw [components_below, split, List.append_assoc]
  have parent : fs.findParent (components (dirPath ++ "/" ++ path)) = fs.descend handle.inodeId front := by
    rw [findParent, if_pos (there_of_walk reached kind), joined, List.dropLast_concat]
    exact descend_append (descend_of_walk reached kind)
  have some : ¬ dirPath ++ "/" ++ path = "" := by
    intro empty
    rw [empty, components_empty] at joined
    simp at joined
  rw [openAt, if_neg (by rw [relative]; exact Bool.false_ne_true), found]
  dsimp only
  rw [if_neg there, if_neg notFile, split, List.getLast?_concat, List.dropLast_concat, openPathWithFlags, if_neg some, parent, joined,
    List.getLast?_concat]

/-! ### Opening for reading -/

omit [Target] in
theorem openInode_reads {v : InodeId} (there : (fs.kind v).isSome) : fs.openInode v O_RDONLY = fs.insertFd v O_RDONLY := by
  rw [kind_some] at there
  obtain ⟨inode, found⟩ := Option.isSome_iff_exists.mp there
  rw [openInode, found]
  dsimp only
  cases inode.content <;> rfl

omit [Target] in
theorem findOrCreate_reads (d : InodeId) (name : String) : fs.findOrCreate d name O_RDONLY = (fs.findInode d name, fs) := by
  rw [findOrCreate]
  cases fs.findInode d name with
  | ok v => rfl
  | error e => exact if_neg fun both => both.2 rfl

omit [Target] in
/-- A path that leads to an inode opens it. -/
theorem openPath_reads {path : String} {v : InodeId} (resolved : fs.resolve path = some v) (some : components path ≠ []) (there : (fs.kind v).isSome) :
    fs.openPathWithFlags path O_RDONLY = fs.insertFd v O_RDONLY := by
  obtain ⟨front, name, whole⟩ : ∃ front name, components path = front ++ [name] := ⟨_, _, (List.dropLast_append_getLast some).symm⟩
  rw [resolve, whole, Links.walk_concat] at resolved
  obtain ⟨d, walked, named⟩ := Option.bind_eq_some_iff.mp resolved
  have isDir := kind_of_links named
  have spelled : path ≠ "" := by
    rintro rfl
    exact some (by decide)
  rw [openPathWithFlags, if_neg spelled, whole]
  have last : (front ++ [name]).getLast? = .some name := by simp
  rw [last]
  dsimp only
  rw [findParent, if_pos (there_of_walk walked isDir), List.dropLast_concat, descend_of_walk walked isDir]
  dsimp only
  rw [openEntry, findOrCreate_reads, findInode_ok.mpr ⟨named, there⟩]
  exact openInode_reads there

end

/-- Two directories, one in the other. -/
def nested [Target] : Fs MonotonicCounter := after [.mkdir "/a", .mkdir "/a/b"] Fs.new

theorem nested_moves :
    let _ : Target := .wasm32
    MovesSubtree nested (nested.rename "/a" "//c").2 "/a" "//c" ∧ ∃ source parent, MayMove nested "/a" "//c" source parent := by
  let _ : Target := .wasm32
  have lasting : Lasting nested := .called (.called (.new MonotonicCounter.new) (.mkdir "/a") (by decide)) (.mkdir "/a/b") (by decide)
  exact rename_moves_subtree lasting rfl (by decide)

/-- A descriptor of the inner one. -/
def inner [Target] : Fs MonotonicCounter := (Call.openPathWithFlags "/a/b" O_RDONLY).perform nested

theorem inner_agrees :
    let _ : Target := .wasm32
    inner.openAt 3 "f//g" (O_RDWR ||| O_CREAT) = inner.openPathWithFlags ("/a/b" ++ "/" ++ "f//g") (O_RDWR ||| O_CREAT) := by
  let _ : Target := .wasm32
  exact openAt_agrees _ (rfl : inner.holder 3 = some 2) rfl rfl rfl (by decide)

end MonakaFs.FsCore
