import MonakaFs.FsCore.Resolving

/-! The paths that the three front ends ask the filesystem about.

An operation gets a path relative to a descriptor. The adapter that has the filesystem
inside joins it to the path its descriptor was opened by, and so does the host, which
takes both ends of a rename from the first descriptor. The client of the server keeps no
paths and asks about a relative path as it stands.
-/

set_option autoImplicit false

namespace MonakaFs.Wasi

open FsCore

/-- What a front end asks the filesystem by path. -/
inductive PathCall where
  | openPath (path : String) (flags : Nat)
  | stat (path : String)
  | mkdir (path : String)
  | rmdir (path : String)
  | unlink (path : String)
  | rename (oldPath newPath : String)
  deriving DecidableEq

/-- The operations on a path relative to a descriptor. -/
inductive AtOperation where
  | openAt (path : String) (flags : Nat)
  | statAt (path : String)
  | createDirectoryAt (path : String)
  | removeDirectoryAt (path : String)
  | unlinkFileAt (path : String)
  | renameAt (oldPath newPath : String)

namespace AtOperation

/-- The call for an operation, with full paths in place of relative ones. -/
def asked (full fullNew : String → String) : AtOperation → PathCall
  | .openAt path flags => .openPath (full path) flags
  | .statAt path => .stat (full path)
  | .createDirectoryAt path => .mkdir (full path)
  | .removeDirectoryAt path => .rmdir (full path)
  | .unlinkFileAt path => .unlink (full path)
  | .renameAt oldPath newPath => .rename (full oldPath) (fullNew newPath)

def paths : AtOperation → List String
  | .openAt path _ => [path]
  | .statAt path => [path]
  | .createDirectoryAt path => [path]
  | .removeDirectoryAt path => [path]
  | .unlinkFileAt path => [path]
  | .renameAt oldPath newPath => [oldPath, newPath]

def renames : AtOperation → Bool
  | .renameAt _ _ => true
  | _ => false

end AtOperation

/-! ### The adapter with the filesystem inside -/

namespace VfsAdapter

structure Descriptor where
  handle : Nat
  path : String
  flags : Nat

/-- The preopened root. -/
def root : Descriptor := ⟨0, "/", O_RDONLY⟩

def stripDotSlash : List Char → List Char
  | '.' :: '/' :: rest => stripDotSlash rest
  | text => text

/-- Resolve a relative path against a descriptor's absolute path. -/
def joinAtPath (base rel : String) : String :=
  let rel := Text.trimStartMatches '/' (String.ofList (stripDotSlash rel.toList))
  if rel = "" ∨ rel = "." then base
  else if base = "/" then "/" ++ rel
  else base ++ "/" ++ rel

/-- Whether an open is about the descriptor's own directory. -/
def reopens (d : Descriptor) (path : String) : Prop := path = "" ∨ path = "." ∨ (d.handle = 0 ∧ path = "/")

instance (d : Descriptor) (path : String) : Decidable (reopens d path) :=
  inferInstanceAs (Decidable (path = "" ∨ path = "." ∨ (d.handle = 0 ∧ path = "/")))

def ask (d new : Descriptor) : AtOperation → PathCall
  | .openAt path flags => if reopens d path then .openPath d.path O_RDONLY else .openPath (joinAtPath d.path path) flags
  | op => op.asked (joinAtPath d.path) (joinAtPath new.path)

/-- The descriptor that an open hands out. -/
def opened (d : Descriptor) (path : String) (flags handle : Nat) : Descriptor :=
  if reopens d path then ⟨handle, d.path, O_RDONLY⟩ else ⟨handle, joinAtPath d.path path, flags⟩

/-- The descriptors there can be. -/
inductive Handed : Descriptor → Prop where
  | root : Handed root
  | opened {d : Descriptor} (handed : Handed d) (path : String) (flags handle : Nat) : Handed (opened d path flags handle)

end VfsAdapter

/-! ### The host -/

namespace VfsHost

structure FsDescriptorWrapper where
  fd : Fd
  path : Option String
  flags : Nat

/-- Resolve a relative path from a directory descriptor. -/
def resolvePath (dirPath : Option String) (relativePath : String) : String :=
  match dirPath with
  | some dir =>
      if dir = "/" then "/" ++ Text.trimStartMatches '/' relativePath
      else Text.trimEndMatches '/' dir ++ "/" ++ Text.trimStartMatches '/' relativePath
  | none => "/" ++ Text.trimStartMatches '/' relativePath

/-- A rename does not look at the new descriptor. -/
def ask (d _new : FsDescriptorWrapper) (op : AtOperation) : PathCall := op.asked (resolvePath d.path) (resolvePath d.path)

/-- The path that relative ones are resolved from. -/
def FsDescriptorWrapper.base (d : FsDescriptorWrapper) : String := d.path.getD "/"

end VfsHost

/-! ### The client of the server -/

namespace RpcAdapter

structure Descriptor where
  handle : Nat
  flags : Nat

def normalizePath (path : String) : String := "/" ++ Text.trimStartMatches '/' path

/-- Descriptors keep no path; only the root's paths are made absolute. -/
def fullPath (d : Descriptor) (path : String) : String := if d.handle = 0 then normalizePath path else path

def ask (d _new : Descriptor) (op : AtOperation) : PathCall := op.asked (fullPath d) (fullPath d)

end RpcAdapter

/-! ### Where the calls lead -/

/-- A relative path without dots. -/
structure Plain (path : String) : Prop where
  relative : Fs.Relative path
  here : "." ∉ components path
  up : ".." ∉ components path

/-- A full path leads below a directory where the relative path says. -/
def Leads (dir : List String) (path full : String) : Prop := full ≠ "" ∧ components full = dir ++ components path

/-- A call is the operation's, on the paths below the directories of the descriptors. -/
def AtOperation.Acts (dir newDir : List String) : AtOperation → PathCall → Prop
  | .openAt path _, .openPath full _ => Leads dir path full
  | .statAt path, .stat full => Leads dir path full
  | .createDirectoryAt path, .mkdir full => Leads dir path full
  | .removeDirectoryAt path, .rmdir full => Leads dir path full
  | .unlinkFileAt path, .unlink full => Leads dir path full
  | .renameAt oldPath newPath, .rename full fullNew => Leads dir oldPath full ∧ Leads newDir newPath fullNew
  | _, _ => False

section
variable {base rel path : String} {dir newDir : List String} {op : AtOperation}

theorem components_slash (path : String) : components ("/" ++ path) = components path := by
  have split : ("/" ++ path).toList = [] ++ '/' :: path.toList := by simp
  rw [components_eq, components_eq, split, segments_append]
  rfl

theorem components_join (base path : String) : components (base ++ "/" ++ path) = components base ++ components path := by
  have split : (base ++ "/" ++ path).toList = base.toList ++ '/' :: path.toList := by simp
  rw [components_eq, components_eq, components_eq, split, segments_append, List.map_append]

theorem components_trimStart (path : String) : components (Text.trimStartMatches '/' path) = components path := by
  rw [components_inj, Text.trimStartMatches, String.toList_ofList, segments_dropSlashes]

theorem ne_empty_of_slash (front back : String) : front ++ "/" ++ back ≠ "" := by
  intro empty
  have chars := congrArg String.toList empty
  simp at chars

/-- Nothing is stripped from a path that does not begin with a dot. -/
theorem stripDotSlash_plain (plain : Plain rel) : VfsAdapter.stripDotSlash rel.toList = rel.toList := by
  have noDot (rest : List Char) : rel.toList ≠ '.' :: '/' :: rest := by
    intro dotted
    refine plain.here ?_
    rw [components_eq, dotted]
    have split : segments ('.' :: '/' :: rest) = segments ['.'] ++ segments rest := segments_append ['.'] rest
    rw [split]
    exact List.mem_map.mpr ⟨['.'], List.mem_append_left _ (by decide), rfl⟩
  unfold VfsAdapter.stripDotSlash
  split
  · next rest dotted => exact absurd dotted (noDot rest)
  · rfl

theorem joinAtPath_leads (spelled : base ≠ "") (plain : Plain rel) : VfsAdapter.joinAtPath base rel ≠ "" ∧
    components (VfsAdapter.joinAtPath base rel) = components base ++ components rel := by
  have trimmed : components (Text.trimStartMatches '/' rel) = components rel := components_trimStart rel
  unfold VfsAdapter.joinAtPath
  rw [stripDotSlash_plain plain, String.ofList_toList]
  dsimp only
  split
  · next own =>
    refine ⟨spelled, ?_⟩
    rcases own with none | dot
    · rw [← trimmed, none]
      exact (List.append_nil _).symm
    · refine absurd ?_ plain.here
      rw [← trimmed, dot]
      decide
  split
  · next top =>
    refine ⟨ne_empty_of_slash "" _, ?_⟩
    have root : components "/" = [] := by decide
    rw [components_slash, trimmed, top, root, List.nil_append]
  · exact ⟨ne_empty_of_slash _ _, by rw [components_join, trimmed]⟩

theorem resolvePath_leads (d : VfsHost.FsDescriptorWrapper) (path : String) : VfsHost.resolvePath d.path path ≠ "" ∧
    components (VfsHost.resolvePath d.path path) = components d.base ++ components path := by
  unfold VfsHost.resolvePath VfsHost.FsDescriptorWrapper.base
  have root : components "/" = [] := by decide
  split
  · next dir found =>
    rw [found, Option.getD_some]
    split
    · next top =>
      refine ⟨ne_empty_of_slash "" _, ?_⟩
      rw [components_slash, components_trimStart, top, root, List.nil_append]
    · exact ⟨ne_empty_of_slash _ _, by rw [components_join, components_trimEnd, components_trimStart]⟩
  · next found =>
    refine ⟨ne_empty_of_slash "" _, ?_⟩
    rw [found, Option.getD_none, components_slash, components_trimStart, root, List.nil_append]

theorem handed_spelled {d : VfsAdapter.Descriptor} (handed : VfsAdapter.Handed d) : d.path ≠ "" := by
  induction handed with
  | root => decide
  | @opened d handed path flags handle ih =>
    unfold VfsAdapter.opened
    split
    · exact ih
    · unfold VfsAdapter.joinAtPath
      dsimp only
      split
      · exact ih
      split
      · exact ne_empty_of_slash "" _
      · exact ne_empty_of_slash _ _

/-- Where full paths begin with a base, an operation acts below the directories that the bases name. -/
theorem asked_acts {full fullNew : String → String} {from' fromNew : List String}
    (leads : ∀ path ∈ op.paths, full path ≠ "" ∧ components (full path) = from' ++ components path)
    (leadsNew : ∀ path ∈ op.paths, fullNew path ≠ "" ∧ components (fullNew path) = fromNew ++ components path) :
    op.Acts dir newDir (op.asked full fullNew) ↔ from' = dir ∧ (op.renames → fromNew = newDir) := by
  have one {full : String → String} {base dir : List String} {path : String}
      (leads : full path ≠ "" ∧ components (full path) = base ++ components path) : Leads dir path (full path) ↔ base = dir := by
    rw [Leads, and_iff_right leads.1, leads.2, List.append_left_inj]
  cases op with
  | renameAt oldPath newPath =>
    have old := leads oldPath List.mem_cons_self
    have new := leadsNew newPath (List.mem_cons_of_mem _ List.mem_cons_self)
    exact and_congr (one old) ((one new).trans ⟨fun here _ => here, fun here => here rfl⟩)
  | openAt path flags => exact (one (leads path List.mem_cons_self)).trans (and_iff_left fun same => (by cases same)).symm
  | statAt path => exact (one (leads path List.mem_cons_self)).trans (and_iff_left fun same => (by cases same)).symm
  | createDirectoryAt path => exact (one (leads path List.mem_cons_self)).trans (and_iff_left fun same => (by cases same)).symm
  | removeDirectoryAt path => exact (one (leads path List.mem_cons_self)).trans (and_iff_left fun same => (by cases same)).symm
  | unlinkFileAt path => exact (one (leads path List.mem_cons_self)).trans (and_iff_left fun same => (by cases same)).symm

theorem asked_spelled {full : String → String} (acts : op.Acts dir newDir (op.asked full full)) :
    ∀ path ∈ op.paths, full path ≠ "" := by
  cases op with
  | renameAt oldPath newPath =>
    intro path member
    rcases List.mem_cons.mp member with rfl | member
    · exact acts.1.1
    · rw [List.mem_singleton.mp member]
      exact acts.2.1
  | openAt path flags => exact List.forall_mem_singleton.mpr acts.1
  | statAt path => exact List.forall_mem_singleton.mpr acts.1
  | createDirectoryAt path => exact List.forall_mem_singleton.mpr acts.1
  | removeDirectoryAt path => exact List.forall_mem_singleton.mpr acts.1
  | unlinkFileAt path => exact List.forall_mem_singleton.mpr acts.1

variable (plain : ∀ path ∈ op.paths, Plain path)
include plain

theorem vfsAdapter_acts {d new : VfsAdapter.Descriptor} (handed : VfsAdapter.Handed d) (handedNew : VfsAdapter.Handed new) :
    op.Acts dir newDir (VfsAdapter.ask d new op) ↔ components d.path = dir ∧ (op.renames → components new.path = newDir) := by
  have joined := @asked_acts dir newDir op (VfsAdapter.joinAtPath d.path) (VfsAdapter.joinAtPath new.path) (components d.path)
    (components new.path) (fun path member => joinAtPath_leads (handed_spelled handed) (plain path member))
    (fun path member => joinAtPath_leads (handed_spelled handedNew) (plain path member))
  cases op with
  | openAt path flags =>
    rw [VfsAdapter.ask]
    split
    · next own =>
      -- Of the spellings of the directory itself only the empty path is plain.
      have empty : path = "" := by
        have plain := plain path List.mem_cons_self
        rcases own with empty | dot | ⟨-, slash⟩
        · exact empty
        · refine absurd ?_ plain.here
          rw [dot]
          decide
        · have relative := plain.relative
          rw [slash] at relative
          cases relative
      have leads : Leads dir "" d.path ↔ components d.path = dir := by
        rw [Leads, and_iff_right (handed_spelled handed), Fs.components_empty, List.append_nil]
      rw [empty]
      exact leads.trans (and_iff_left fun same => (by cases same)).symm
    · exact joined
  | renameAt => exact joined
  | statAt => exact joined
  | createDirectoryAt => exact joined
  | removeDirectoryAt => exact joined
  | unlinkFileAt => exact joined

omit plain in
theorem vfsHost_acts (d new : VfsHost.FsDescriptorWrapper) :
    op.Acts dir newDir (VfsHost.ask d new op) ↔ components d.base = dir ∧ (op.renames → components d.base = newDir) :=
  asked_acts (fun path _ => resolvePath_leads d path) (fun path _ => resolvePath_leads d path)

omit plain in
theorem rpcAdapter_acts (d new : RpcAdapter.Descriptor) : op.Acts dir newDir (RpcAdapter.ask d new op) ↔
    dir = [] ∧ (op.renames → newDir = []) ∧ (d.handle ≠ 0 → "" ∉ op.paths) := by
  have bare (path : String) : RpcAdapter.fullPath d path ≠ "" ∧ components (RpcAdapter.fullPath d path) = [] ++ components path ↔
      (d.handle ≠ 0 → path ≠ "") := by
    unfold RpcAdapter.fullPath RpcAdapter.normalizePath
    split
    · next root =>
      rw [components_slash, components_trimStart]
      exact ⟨fun _ other => absurd root other, fun _ => ⟨ne_empty_of_slash "" _, (List.nil_append _).symm⟩⟩
    · next other => exact ⟨fun leads _ => leads.1, fun spelled => ⟨spelled other, (List.nil_append _).symm⟩⟩
  by_cases spelled : d.handle ≠ 0 → "" ∉ op.paths
  · have leads (path : String) (member : path ∈ op.paths) : RpcAdapter.fullPath d path ≠ "" ∧
        components (RpcAdapter.fullPath d path) = [] ++ components path := by
      refine (bare path).mpr fun other empty => ?_
      subst empty
      exact spelled other member
    rw [RpcAdapter.ask, asked_acts leads leads, and_iff_left spelled]
    simp only [eq_comm]
  · refine ⟨fun acts => ?_, fun right => absurd right.2.2 spelled⟩
    rw [Classical.not_imp, not_not] at spelled
    have whole := asked_spelled acts "" spelled.2
    rw [RpcAdapter.fullPath, if_neg spelled.1] at whole
    exact absurd rfl whole

end

/-! ### On a filesystem -/

section
variable {T : Type} {fs : Fs T} {id newId : InodeId} {dir newDir : List String} {path full other : String} {op : AtOperation}

section
variable [TimeProvider T]

/-- Paths that lead to the same place are the same to the filesystem. -/
theorem same_place (leads : Leads dir path full) (again : Leads dir path other) (flags : Nat) :
    fs.openPathWithFlags full flags = fs.openPathWithFlags other flags ∧ fs.stat full = fs.stat other ∧
      fs.mkdir full = fs.mkdir other ∧ fs.rmdir full = fs.rmdir other ∧ fs.unlink full = fs.unlink other := by
  obtain ⟨spelled, place⟩ := leads
  obtain ⟨spelled', place'⟩ := again
  have same := place.trans place'.symm
  have located : fs.locate full = fs.locate other := by
    rw [Fs.locate, Fs.locate, if_neg spelled, if_neg spelled', same]
  refine ⟨?_, ?_, ?_, ?_, ?_⟩
  · rw [Fs.openPathWithFlags, Fs.openPathWithFlags, if_neg spelled, if_neg spelled', same]
  · rw [Fs.stat, Fs.stat, if_neg spelled, if_neg spelled', same]
  · rw [Fs.mkdir, Fs.mkdir, located]
  · rw [Fs.rmdir, Fs.rmdir, located]
  · rw [Fs.unlink, Fs.unlink, located]

theorem same_rename {oldPath newPath fullNew otherNew : String} (leads : Leads dir oldPath full) (again : Leads dir oldPath other)
    (leadsNew : Leads newDir newPath fullNew) (againNew : Leads newDir newPath otherNew) : fs.rename full fullNew = fs.rename other otherNew := by
  have spelled : ¬ (full = "" ∨ fullNew = "") := not_or.mpr ⟨leads.1, leadsNew.1⟩
  have spelled' : ¬ (other = "" ∨ otherNew = "") := not_or.mpr ⟨again.1, againNew.1⟩
  rw [Fs.rename, Fs.rename, if_neg spelled, if_neg spelled', leads.2, again.2, leadsNew.2, againNew.2]

/-- A path that a directory was opened by leads to what the descriptor holds. -/
theorem opened_leads (resolved : fs.resolve full = some id) (isDir : fs.kind id = some true) (spelled : full ≠ "") :
    (fs.openPathWithFlags full O_RDONLY).1 = .ok fs.nextFd ∧ (fs.openPathWithFlags full O_RDONLY).2.holder fs.nextFd = some id ∧
      (fs.openPathWithFlags full O_RDONLY).2.resolve full = some id := by
  have opens : fs.openPathWithFlags full O_RDONLY = fs.insertFd id O_RDONLY := by
    by_cases root : components full = []
    · rw [Fs.resolve, root] at resolved
      cases resolved
      rw [Fs.openPathWithFlags, if_neg spelled, root]
      rfl
    · exact openPath_reads resolved root (by rw [isDir]; rfl)
  rw [opens]
  refine ⟨rfl, ?_, resolved⟩
  rw [Fs.insertFd, Fs.holder, Table.lookup_insert, if_pos rfl]
  rfl

end

theorem resolve_iff (forest : Links.Forest fs.links fs.rootInode) (there : Links.walk fs.links fs.rootInode dir = some id) :
    fs.resolve path = some id ↔ components path = dir := by
  constructor
  · exact fun resolved => forest.walk_unique resolved there
  · intro same
    rw [Fs.resolve, same]
    exact there

/-- In the three front ends an operation acts below the directories of its descriptors exactly if:
in the adapter, the paths that the descriptors were opened by still lead to them;
on the host, the first one's does, and a rename stays in this directory;
in the client, they are the root, and a path is not empty below a root that was opened again. -/
theorem acts_iff (forest : Links.Forest fs.links fs.rootInode) (there : Links.walk fs.links fs.rootInode dir = some id)
    (newThere : Links.walk fs.links fs.rootInode newDir = some newId) (plain : ∀ path ∈ op.paths, Plain path) :
    (∀ d new, VfsAdapter.Handed d → VfsAdapter.Handed new → (op.Acts dir newDir (VfsAdapter.ask d new op) ↔
      fs.resolve d.path = some id ∧ (op.renames → fs.resolve new.path = some newId))) ∧
    (∀ d new : VfsHost.FsDescriptorWrapper, op.Acts dir newDir (VfsHost.ask d new op) ↔
      fs.resolve d.base = some id ∧ (op.renames → newId = id)) ∧
    ∀ d new : RpcAdapter.Descriptor, op.Acts dir newDir (RpcAdapter.ask d new op) ↔
      id = fs.rootInode ∧ (op.renames → newId = fs.rootInode) ∧ (d.handle ≠ 0 → "" ∉ op.paths) := by
  have root : Links.walk fs.links fs.rootInode [] = some fs.rootInode := rfl
  have isRoot {place : List String} {v : InodeId} (there : Links.walk fs.links fs.rootInode place = some v) :
      v = fs.rootInode ↔ place = [] := by
    constructor
    · rintro rfl
      exact forest.walk_unique there root
    · rintro rfl
      cases there
      rfl
  refine ⟨fun d new handed handedNew => ?_, fun d new => ?_, fun d new => ?_⟩
  -- The host resolves both paths against the one directory of its wrapper.
  · rw [vfsAdapter_acts plain handed handedNew, resolve_iff forest there, resolve_iff forest newThere]
  · rw [vfsHost_acts, resolve_iff forest there]
    refine and_congr_right fun base => imp_congr_right fun _ => ?_
    rw [base]
    constructor
    · rintro rfl
      cases newThere.symm.trans there
      rfl
    · rintro rfl
      exact forest.walk_unique there newThere
  · rw [rpcAdapter_acts, isRoot there, isRoot newThere]

end

/-- Two directories. -/
def siblings [Target] : Fs MonotonicCounter := after [.mkdir "/a", .mkdir "/b"] Fs.new

/-- Descriptors of two directories: the host renames within the first, and the client asks about the root. -/
theorem siblings_confused :
    let _ : Target := ⟨64⟩
    siblings.resolve "/a" = some 1 ∧ siblings.resolve "/b" = some 2 ∧
      ¬ (AtOperation.renameAt "x" "y").Acts ["a"] ["b"] (VfsHost.ask ⟨3, some "/a", O_RDONLY⟩ ⟨4, some "/b", O_RDONLY⟩ (.renameAt "x" "y")) ∧
      ¬ (AtOperation.statAt "x").Acts ["a"] ["b"] (RpcAdapter.ask ⟨1, O_RDONLY⟩ ⟨2, O_RDONLY⟩ (.statAt "x")) := by
  refine ⟨by decide, by decide, fun acts => ?_, fun acts => ?_⟩
  · exact absurd acts.2.2 (by decide)
  · exact absurd acts.2 (by decide)

theorem siblings_acts :
    let _ : Target := ⟨64⟩
    let op := AtOperation.renameAt "x" "y"
    (∀ d new, VfsAdapter.Handed d → VfsAdapter.Handed new → (op.Acts ["a"] ["b"] (VfsAdapter.ask d new op) ↔
      siblings.resolve d.path = some 1 ∧ (op.renames → siblings.resolve new.path = some 2))) ∧
    (∀ d new : VfsHost.FsDescriptorWrapper, op.Acts ["a"] ["b"] (VfsHost.ask d new op) ↔
      siblings.resolve d.base = some 1 ∧ (op.renames → (2 : InodeId) = 1)) ∧
    ∀ d new : RpcAdapter.Descriptor, op.Acts ["a"] ["b"] (RpcAdapter.ask d new op) ↔
      (1 : InodeId) = siblings.rootInode ∧ (op.renames → (2 : InodeId) = siblings.rootInode) ∧ (d.handle ≠ 0 → "" ∉ op.paths) := by
  let _ : Target := ⟨64⟩
  have lasting : Lasting siblings := .called (.called (.new MonotonicCounter.new) (.mkdir "/a") (by decide)) (.mkdir "/b") (by decide)
  have plain : ∀ path ∈ (AtOperation.renameAt "x" "y").paths, Plain path := by
    intro path member
    rcases List.mem_cons.mp member with rfl | member
    · exact ⟨rfl, by decide, by decide⟩
    · rw [List.mem_singleton.mp member]
      exact ⟨rfl, by decide, by decide⟩
  exact acts_iff lasting.sane.forest (by decide) (by decide) plain

end MonakaFs.Wasi
