import MonakaFs.FsCore.Offsets
import MonakaFs.FsCore.Resolving

/-! The files of a filesystem, by the components of their paths.

This is all that a caller sees who reads and writes whole files. Directories come and go
in it without a trace, and an operation on one file leaves every other one alone.
-/

set_option autoImplicit false

namespace MonakaFs.FsCore

open Fs BlockStorage

/-- The namespace is sane, and every file is whole and has the size it claims. -/
structure Healthy [Target] {T : Type} (fs : Fs T) : Prop where
  sane : Sane fs
  whole : AllWhole fs
  sizes : SizesAgree fs

namespace Fs

section
variable {T : Type} {fs later : Fs T} {id d v : InodeId} {name : String} {front comps : List String}

/-- The bytes of the file that components lead to. -/
def files (fs : Fs T) (comps : List String) : Option Bytes :=
  (fs.links.walk fs.rootInode comps).bind fun id => (fs.node id).join.map (·.storage.content)

theorem files_walked (walked : fs.links.walk fs.rootInode comps = some id) :
    fs.files comps = (fs.node id).join.map (·.storage.content) := by rw [files, walked, Option.bind_some]

theorem kind_node : fs.kind id = some false ↔ ∃ stored, fs.node id = some (some stored) := by
  rw [kind, node]
  cases fs.inodeTable.lookup id with
  | none => simp
  | some inode =>
    obtain ⟨metadata, content⟩ := inode
    cases content <;> simp [FileContent.isDir, Inode.stored]

theorem node_dir (dir : fs.kind id = some true) : fs.node id = some none := by
  obtain ⟨metadata, entries, stored, -⟩ := stored_dir dir
  rw [node, stored]
  rfl

theorem files_dir (walked : fs.links.walk fs.rootInode comps = some id) (dir : fs.kind id = some true) : fs.files comps = none := by
  rw [files_walked walked, node_dir dir]
  rfl

theorem files_missing (missing : fs.links.walk fs.rootInode comps = none) : fs.files comps = none := by
  rw [files, missing]
  rfl

/-- What a walk ends at is there. -/
theorem walked_there (sane : Sane fs) (walked : fs.links.walk fs.rootInode comps = some id) : (fs.kind id).isSome := by
  by_cases same : id = fs.rootInode
  · rw [same, sane.root]
    rfl
  · obtain ⟨d, name, named⟩ := (Links.Below.of_walk walked).linked same
    exact sane.named d name id named

theorem files_same (same : Same fs later) (nodes : later.node = fs.node) : later.files = fs.files := by
  funext comps
  rw [files, files, same.links, same.root, nodes]

/-- A new directory holds nothing, and a new file no bytes. -/
theorem files_created {isDir : Bool} (sane : Sane fs) (made : Created d name isDir fs later)
    (nodes : later.node = Function.update fs.node fs.nextInode (created isDir))
    (walked : fs.links.walk fs.rootInode front = some d) :
    later.files = Function.update fs.files (front ++ [name]) (if isDir then none else some []) := by
  have apart : fs.nextInode ≠ d := by
    rintro rfl
    have parent := made.parent
    rw [sane.unused] at parent
    cases parent
  funext comps
  rw [files, made.links, made.root, sane.forest.walk_put walked made.free sane.next_leaf apart, Function.update_apply, nodes]
  split
  · rw [Option.bind_some, Function.update_self]
    cases isDir <;> rfl
  · refine Option.bind_congr fun old found => ?_
    have there := walked_there sane found
    rw [Function.update_of_ne]
    rintro rfl
    rw [sane.unused] at there
    cases there

/-- A file that a path leads to got another content. -/
theorem files_stored {stored : Stored} (sane : Sane fs) (same : Same fs later)
    (walked : fs.links.walk fs.rootInode comps = some id)
    (nodes : later.node = Function.update fs.node id (some (some stored))) :
    later.files = Function.update fs.files comps (some stored.storage.content) := by
  funext other
  rw [files, same.links, same.root, nodes, Function.update_apply]
  split
  · next here =>
    rw [here, walked, Option.bind_some, Function.update_self]
    rfl
  · next elsewhere =>
    refine Option.bind_congr fun found reached => ?_
    rw [Function.update_of_ne]
    rintro rfl
    exact elsewhere (sane.forest.walk_unique reached walked)

/-- A file was stored again with the bytes that it had. -/
theorem files_restored {before stored : Stored} (same : Same fs later) (found : fs.node id = some (some before))
    (nodes : later.node = Function.update fs.node id (some (some stored))) (content : stored.storage.content = before.storage.content) :
    later.files = fs.files := by
  funext comps
  rw [files, files, same.links, same.root, nodes]
  refine Option.bind_congr fun other _ => ?_
  rw [Function.update_apply]
  split
  · next here =>
    rw [here, found]
    exact congrArg some content
  · rfl

theorem files_removed (sane : Sane fs) (gone : Removed d name v fs later) (nodes : later.node = fs.node)
    (walked : fs.links.walk fs.rootInode front = some d) : later.files = Function.update fs.files (front ++ [name]) none := by
  funext comps
  rw [files, gone.links, gone.root, nodes, Function.update_apply, sane.forest.walk_take walked fun w link => ?_]
  · split
    · rfl
    · rfl
  · cases gone.named.symm.trans link
    exact gone.leaf

end

section
variable {T : Type} [TimeProvider T] {fs later : Fs T} {id d v : InodeId} {name : String} {front comps : List String} {flags : Nat}

/-! ### Directories -/

theorem mkdirPath_files (sane : Sane fs) (dir : fs.kind d = some true) (walked : fs.links.walk fs.rootInode front = some d)
    (room : fs.nextInode + comps.length < 2 ^ 64) : (fs.mkdirPath d comps).2.files = fs.files := by
  induction comps generalizing fs d front with
  | nil => rfl
  | cons comp comps ih =>
    obtain ⟨fewer, space, rest⟩ := room_succ room
    unfold mkdirPath
    cases found : fs.findInode d comp with
    | ok next =>
      obtain ⟨link, there⟩ := findInode_ok.mp found
      dsimp only
      split
      · rfl
      · next notFile =>
        obtain ⟨isDir, kind⟩ := Option.isSome_iff_exists.mp there
        have directory : fs.kind next = some true := by
          cases isDir with
          | true => exact kind
          | false => exact absurd (isFile_iff.mpr kind) notFile
        have onward : fs.links.walk fs.rootInode (front ++ [comp]) = some next := by
          rw [Links.walk_concat, walked]
          exact link
        exact ih sane directory onward fewer
    | error e =>
      obtain ⟨rfl, free⟩ := findInode_error found dir (sane.named d comp)
      obtain ⟨middle, result, made, -⟩ := createInode_free true sane dir free
      have nodes := (createInode_nodes result).1
      have next : middle.nextInode = fs.nextInode + 1 := by rw [made.next, toU64, Nat.mod_eq_of_lt space]
      have apart : fs.nextInode ≠ d := by
        rintro rfl
        rw [sane.unused] at dir
        cases dir
      have reached : middle.links.walk middle.rootInode (front ++ [comp]) = some fs.nextInode := by
        rw [made.links, made.root, sane.forest.walk_put walked free sane.next_leaf apart, if_pos rfl]
      have kept : middle.files = fs.files := by
        rw [files_created sane made nodes walked, if_pos rfl, Function.update_eq_self_iff, files_missing]
        rw [Links.walk_concat, walked]
        exact free
      simp only [result]
      rw [ih (made.sane sane space) (by rw [made.kind, Function.update_self]) reached (by rw [next]; exact rest), kept]

theorem mkdirP_files (path : String) (sane : Sane fs) (room : fs.nextInode + (components path).length < 2 ^ 64) :
    (fs.mkdirP path).2.files = fs.files := by
  unfold mkdirP
  split
  · rfl
  split
  · rfl
  split
  · have root : fs.links.walk fs.rootInode [] = some fs.rootInode := rfl
    exact mkdirPath_files sane sane.root root room
  · rfl

/-- Only an empty directory is taken away. -/
theorem rmdir_files (path : String) (sane : Sane fs) : (fs.rmdir path).2.files = fs.files := by
  unfold rmdir
  split
  · rfl
  next parent name located =>
  obtain ⟨front, -, walked, -⟩ := (locate_ok sane).mp located
  split
  · rfl
  next target found =>
  split
  · rfl
  next entries inside =>
  split
  · next empty =>
    obtain ⟨link, -⟩ := findInode_ok.mp found
    have gone := removeEntry_effect link fun m => by rw [links_of_entries inside]; exact Table.keys_eq_nil.mp empty m
    rw [files_removed sane gone (removeEntry_node fs parent name) walked, Function.update_eq_self_iff]
    have reached : fs.links.walk fs.rootInode (front ++ [name]) = some target := by
      rw [Links.walk_concat, walked]
      exact link
    exact (files_dir reached (kind_dir.mpr ⟨entries, inside⟩)).symm
  · rfl

theorem unlink_files (path : String) (sane : Sane fs) :
    ((fs.unlink path).1 = .ok () ∧ fs.files (components path) ≠ none ∧
        (fs.unlink path).2.files = Function.update fs.files (components path) none) ∨
      ((∃ e, (fs.unlink path).1 = .error e) ∧ fs.files (components path) = none ∧ (fs.unlink path).2 = fs) := by
  unfold unlink
  split
  · next e failed =>
    refine .inr ⟨⟨e, rfl⟩, ?_, rfl⟩
    by_cases none : components path = []
    · exact files_dir (by rw [none]; rfl) sane.root
    · exact files_missing (locate_none sane failed none)
  next parent name located =>
  obtain ⟨front, split, walked, dir⟩ := (locate_ok sane).mp located
  have resolved := resolve_concat split walked
  cases found : fs.findInode parent name with
  | error e =>
    obtain ⟨-, free⟩ := findInode_error found dir (sane.named parent name)
    exact .inr ⟨⟨e, rfl⟩, files_missing (resolved.trans free), rfl⟩
  | ok target =>
    obtain ⟨link, there⟩ := findInode_ok.mp found
    have reached := resolved.trans link
    dsimp only
    split
    · next file =>
      have kind := isFile_iff.mp file
      obtain ⟨stored, present⟩ := kind_node.mp kind
      have gone := removeEntry_effect link fun m => links_none (by rw [kind]; decide) m
      obtain ⟨metadata, entries, parent', -⟩ := stored_dir dir
      refine .inl ⟨by rw [removeEntry, parent'], ?_, ?_⟩
      · rw [files_walked reached, present]
        exact fun same => by cases same
      · rw [split]
        exact files_removed sane gone (removeEntry_node fs parent name) walked
    · next notFile =>
      refine .inr ⟨⟨_, rfl⟩, files_dir reached ?_, rfl⟩
      obtain ⟨isDir, kind⟩ := Option.isSome_iff_exists.mp there
      cases isDir with
      | true => exact kind
      | false => exact absurd (isFile_iff.mpr kind) notFile

end
end Fs

section
variable {T : Type} [TimeProvider T] [target : Target] {fs : Fs T}

theorem perform_healthy (word : target.usizeBits ≤ 64) (call : Call) (healthy : Healthy fs) (room : Room call fs) (fits : Fits call fs) :
    Healthy (call.perform fs) where
  sane := perform_sane call healthy.sane room
  whole id stored found := by
    have fate := perform_fate call fs id
    rw [found] at fate
    exact fate.whole healthy.whole
  sizes := perform_sizes healthy.whole word fits healthy.sizes

/-- Filesystems as they come to be by calls that have numbers left and fit, and by being restored. -/
inductive Working : Fs T → Prop where
  | new (clock : T) : Working (withTimeProvider clock)
  | called {fs : Fs T} (working : Working fs) (call : Call) (room : Room call fs) (fits : Fits call fs) : Working (call.perform fs)
  | restored {fs : Fs T} {inodes : List (Sigma fun _ : InodeId => Inode)} (working : Working fs) (visits : Visits fs inodes)
      (clock : T) : Working (fromSnapshot (fs.toSnapshot inodes) clock)

theorem Working.lasting (working : Working fs) : Lasting fs := by
  induction working with
  | new clock => exact .new clock
  | called _ call room _ ih => exact .called ih call room
  | restored _ visits clock ih => exact .restored ih visits clock

theorem Working.healthy (word : target.usizeBits ≤ 64) (working : Working fs) : Healthy fs := by
  induction working with
  | new clock =>
    refine ⟨new_sane clock, reachable_whole (.new clock), fun id stored found => ?_⟩
    rw [node, withTimeProvider] at found
    dsimp only at found
    rw [Table.lookup_insert] at found
    split at found
    · cases found
    · cases found
  | called _ call room fits ih => exact perform_healthy word call ih room fits
  | restored working visits clock ih =>
    exact ⟨(working.restored visits clock).lasting.sane, reachable_whole (working.restored visits clock).lasting.reachable,
      restored_sizes ih.whole visits clock ih.sizes⟩

end
end MonakaFs.FsCore
