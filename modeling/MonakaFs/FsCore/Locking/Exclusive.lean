import MonakaFs.FsCore.Locking.Namespace

/-! Opens with `O_CREAT` and `O_EXCL`.

Whether the file exists is looked up first, and what is found is opened as it is: the
flag is read only where the creation lost a race. So an exclusive open succeeds on what
exists and may be opened with its flags. Where none of the lookups finds such a file,
at most one of any number of threads succeeds.
-/

set_option autoImplicit false

namespace MonakaFs.FsCore

open Async Fs

/-- The two ways to open. -/
inductive Opener where
  | fromRoot (path : String)
  | below (dirFd : Fd) (path : String)

namespace Opener

def task (flags : Nat) : Opener → Task
  | .fromRoot path => .openPathWithFlags path flags
  | .below dirFd path => .openAt dirFd path flags

def comps : Opener → List String
  | .fromRoot path => components path
  | .below _ path => relativeComponents path

variable {T : Type}

/-- The directory that the walk starts from. -/
def base (fs : Fs T) : Opener → Option InodeId
  | .fromRoot _ => some fs.rootInode
  | .below dirFd _ => fs.holder dirFd

/-- A path that is not refused as it stands. -/
def Spelled : Opener → Prop
  | .fromRoot path => path ≠ ""
  | .below _ path => Relative path

def outcome [TimeProvider T] (fs : Fs T) (flags : Nat) : Opener → Outcome T Fd
  | .fromRoot path => fs.openPathWithFlags path flags
  | .below dirFd path => fs.openAt dirFd path flags

/-- The path names this inode. -/
def Names (fs : Fs T) (opener : Opener) (id : InodeId) : Prop :=
  opener.Spelled ∧ ∃ base, opener.base fs = some base ∧
    opener.comps.foldlM (fun current comp => fs.findInode current comp) base = .ok id

end Opener

section
variable {T : Type} {fs later : Fs T} {d id v : InodeId} {name : String} {flags : Nat}

/-- The inode may be opened with these flags. -/
def Fs.Accepts (fs : Fs T) (flags : Nat) (id : InodeId) : Prop :=
  if (fs.entries id).isSome then ¬ (accessMode flags = O_WRONLY ∨ accessMode flags = O_RDWR ∨ flags &&& O_TRUNC ≠ 0)
  else ¬ (flags &&& O_TRUNC ≠ 0 ∧ accessMode flags = O_RDONLY)

/-- The root is opened with any flags, and never below a descriptor. -/
def Opener.Takes (fs : Fs T) (flags : Nat) (id : InodeId) : Opener → Prop
  | .fromRoot path => components path = [] ∨ fs.Accepts flags id
  | .below _ path => relativeComponents path ≠ [] ∧ fs.Accepts flags id

theorem names_concat {front : List String} : (front ++ [name]).foldlM (fun current comp => fs.findInode current comp) d = .ok v ↔
    ∃ e, fs.descend d front = .ok e ∧ fs.findInode e name = .ok v := by
  induction front generalizing d with
  | nil =>
    rw [List.nil_append, List.foldlM_cons]
    cases found : fs.findInode d name with
    | error e => simp [descend, found, bind, Except.bind]
    | ok next => simp [descend, found, bind, Except.bind, pure, Except.pure]
  | cons comp front ih =>
    rw [List.cons_append, List.foldlM_cons, descend]
    cases found : fs.findInode d comp with
    | error e => simp [bind, Except.bind]
    | ok next =>
      dsimp only [bind, Except.bind]
      rw [ih]
      by_cases file : fs.isFile next
      · rw [if_pos file]
        constructor
        · rintro ⟨e, walked, entry⟩
          have dir := descend_start walked (kind_of_links (findInode_ok.mp entry).1)
          rw [isFile_iff.mp file] at dir
          cases dir
        · rintro ⟨e, walked, -⟩
          cases walked
      · rw [if_neg file]

variable [TimeProvider T]

theorem openInode_accepts (there : (fs.inodeTable.lookup id).isSome) :
    (fs.openInode id flags).failed = false ↔ fs.Accepts flags id := by
  obtain ⟨⟨metadata, content⟩, stored⟩ := Option.isSome_iff_exists.mp there
  cases content with
  | dir entries =>
    have dir : (fs.entries id).isSome := by rw [entries_eq, stored]; rfl
    rw [Accepts, if_pos dir]
    simp only [openInode, stored]
    by_cases writes : accessMode flags = O_WRONLY ∨ accessMode flags = O_RDWR
    · rw [if_pos writes]
      exact ⟨fun opened => (by cases opened), fun allowed => absurd (by tauto) allowed⟩
    by_cases truncates : flags &&& O_TRUNC ≠ 0
    · rw [if_neg writes, if_pos truncates]
      exact ⟨fun opened => (by cases opened), fun allowed => absurd (by tauto) allowed⟩
    · rw [if_neg writes, if_neg truncates]
      exact ⟨fun _ => (by tauto), fun _ => rfl⟩
  | file storage =>
    have file : ¬ (fs.entries id).isSome := by rw [entries_eq, stored]; exact fun same => (by cases same)
    rw [Accepts, if_neg file]
    simp only [openInode, stored]
    by_cases truncates : flags &&& O_TRUNC ≠ 0
    · rw [if_pos truncates]
      by_cases reads : accessMode flags = O_RDONLY
      · rw [if_pos reads]
        exact ⟨fun opened => (by cases opened), fun allowed => absurd ⟨truncates, reads⟩ allowed⟩
      · rw [if_neg reads]
        exact ⟨fun _ both => reads both.2, fun _ => rfl⟩
    · rw [if_neg truncates]
      exact ⟨fun _ both => truncates both.1, fun _ => rfl⟩

/-- An entry that is there is opened if its inode takes the flags. -/
theorem openEntry_accepts (found : fs.findInode d name = .ok v) :
    (fs.openEntry d name flags).failed = false ↔ fs.Accepts flags v := by
  rw [openEntry, findOrCreate, found]
  exact openInode_accepts (findInode_there found)

namespace Opener

variable {opener : Opener}

/-- What a path that is not the root's names is what the open comes to. -/
theorem names_some (flags : Nat) (named : opener.Names fs v) (some : opener.comps ≠ []) :
    ∃ d name, opener.outcome fs flags = fs.openEntry d name flags ∧ fs.findInode d name = .ok v := by
  obtain ⟨spelled, base, start, found⟩ := named
  obtain ⟨front, name, split⟩ := (opener.comps.eq_nil_or_concat).resolve_left some
  rw [List.concat_eq_append] at split
  rw [split, names_concat] at found
  obtain ⟨d, walked, entry⟩ := found
  refine ⟨d, name, ?_, entry⟩
  -- All directories on the way exist, so that no check of the source refuses.
  have dir := descend_start walked (kind_of_links (findInode_ok.mp entry).1)
  cases opener with
  | fromRoot path =>
    cases start
    have rooted : (fs.inodeTable.lookup fs.rootInode).isSome := by rw [← kind_some, dir]; rfl
    rw [comps] at split
    rw [outcome, openPathWithFlags, if_neg spelled, split, List.getLast?_concat]
    dsimp only
    rw [findParent, if_pos rooted, List.dropLast_concat, walked]
  | below dirFd path =>
    obtain ⟨handle, held, rfl⟩ := Option.map_eq_some_iff.mp start
    have there : ¬ (fs.inodeTable.lookup handle.inodeId).isNone := by
      rw [Option.isNone_iff_eq_none, ← ne_eq, ← Option.isSome_iff_ne_none, ← kind_some, dir]
      rfl
    have notFile : ¬ fs.isFile handle.inodeId := by
      rw [isFile_iff, dir]
      exact fun same => (by cases same)
    rw [comps] at split
    rw [Spelled, Relative] at spelled
    rw [outcome, openAt, spelled, held]
    dsimp only
    rw [if_neg there, if_neg notFile, split, List.getLast?_concat]
    dsimp only
    rw [List.dropLast_concat, walked]
    rfl

/-- Whether an open of what is there succeeds. -/
theorem opens_iff (named : opener.Names fs v) : (opener.outcome fs flags).failed = false ↔ opener.Takes fs flags v := by
  by_cases none : opener.comps = []
  · cases opener with
    | fromRoot path =>
      rw [comps] at none
      rw [outcome, openPathWithFlags, if_neg named.1, none]
      exact ⟨fun _ => .inl none, fun _ => rfl⟩
    | below dirFd path =>
      rw [comps] at none
      refine ⟨fun opened => ?_, fun takes => absurd none takes.1⟩
      rcases openAt_cases fs dirFd path flags with ⟨⟨e, failed⟩, -⟩ | ⟨d, name, arrives, -⟩
      · rw [outcome, failed] at opened
        cases opened
      · rw [Call.opens, none] at arrives
        have relative : Relative path := named.1
        rw [Relative] at relative
        simp [relative] at arrives
  · obtain ⟨d, name, result, found⟩ := names_some flags named none
    rw [result, openEntry_accepts found]
    cases opener with
    | fromRoot path => exact ⟨.inr, fun takes => takes.resolve_left none⟩
    | below dirFd path => exact ⟨fun accepts => ⟨none, accepts⟩, And.right⟩

/-- An exclusive open succeeds on what is missing only, unless there is something that takes its flags. -/
theorem exclusive_iff : ((opener.outcome fs flags).failed = false → ∀ id, ¬ opener.Names fs id) ↔
    ¬ ∃ id, opener.Names fs id ∧ opener.Takes fs flags id := by
  constructor
  · rintro exclusive ⟨id, named, takes⟩
    exact exclusive ((opens_iff named).mpr takes) id named
  · intro nothing opened id named
    exact nothing ⟨id, named, (opens_iff named).mp opened⟩

end Opener

end

/-! ### Threads -/

section
variable {T : Type} {fs later : Fs T} {d id v : InodeId} {name : String} {flags : Nat} {opener : Opener}

/-- Inode numbers are taken in order. -/
def Bounded (fs : Fs T) : Prop := ∀ id, (fs.kind id).isSome → id < fs.nextInode

/-- No entry was taken away, and the walk starts where it did. -/
structure Keeps (opener : Opener) (fs later : Fs T) : Prop where
  links : ∀ d n v, fs.links d n = some v → later.links d n = some v
  kind : ∀ id dir, fs.kind id = some dir → later.kind id = some dir
  root : later.rootInode = fs.rootInode
  base : ∀ start, opener.base fs = some start → opener.base later = some start

/-- The directory and the name that the path leads to. -/
def Place (opener : Opener) (fs : Fs T) (d : InodeId) (name : String) : Prop :=
  ∃ start front, opener.base fs = some start ∧ opener.comps = front ++ [name] ∧ fs.links.walk start front = some d

/-- The path names the inode. -/
def Won (opener : Opener) (fs : Fs T) (id : InodeId) : Prop := ∃ d name, Place opener fs d name ∧ fs.links d name = some id

/-- Where an exclusive open can be. -/
def Point.Follows (opener : Opener) (flags : Nat) (fs : Fs T) : Point → Prop
  | .done (.ok _) => ∃ id, Won opener fs id
  | .done (.error _) => True
  | .root goal name comps => goal = .openEntry flags ∧ opener.comps = comps ++ [name] ∧ opener.base fs = some fs.rootInode
  | .handle dirFd path flags' => opener = .below dirFd path ∧ flags' = flags
  | .present dir path flags' => opener.comps = relativeComponents path ∧ opener.base fs = some dir ∧ flags' = flags
  | .directory dir path flags' => opener.comps = relativeComponents path ∧ opener.base fs = some dir ∧ flags' = flags
  | .find goal name current comp comps => goal = .openEntry flags ∧ ∃ start front, opener.base fs = some start ∧
      opener.comps = front ++ comp :: (comps ++ [name]) ∧ fs.links.walk start front = some current
  | .check goal name next comps => goal = .openEntry flags ∧ ∃ start front, opener.base fs = some start ∧
      opener.comps = front ++ (comps ++ [name]) ∧ fs.links.walk start front = some next
  | .lookup flags' parent name => flags' = flags ∧ Place opener fs parent name
  | .create flags' parent name => flags' = flags ∧ Place opener fs parent name
  | .kind flags' id => flags' = flags ∧ (fs.kind id).isSome ∧ (Won opener fs id ∨ ¬ fs.Accepts flags id)
  | .truncate _ id => Won opener fs id
  | .allocate _ id => Won opener fs id
  | .insert _ _ id => Won opener fs id
  | _ => False

/-- The open succeeds, whatever happens. -/
def Point.Wins (fs : Fs T) : Point → Prop
  | .done (.ok _) => True
  | .kind flags id => fs.Accepts flags id
  | .truncate _ _ => True
  | .allocate _ _ => True
  | .insert _ _ _ => True
  | _ => False

theorem Place.unique {e : InodeId} {other : String} (place : Place opener fs d name) (again : Place opener fs e other) :
    e = d ∧ other = name := by
  obtain ⟨start, front, base, split, walked⟩ := place
  obtain ⟨start', front', base', split', walked'⟩ := again
  obtain ⟨rfl, tail⟩ := List.append_inj' (split.symm.trans split') rfl
  cases tail
  cases base.symm.trans base'
  cases walked.symm.trans walked'
  exact ⟨rfl, rfl⟩

namespace Keeps

variable (keeps : Keeps opener fs later)
include keeps

theorem place (place : Place opener fs d name) : Place opener later d name := by
  obtain ⟨start, front, base, split, walked⟩ := place
  exact ⟨start, front, keeps.base start base, split, Links.walk_mono keeps.links walked⟩

theorem won (won : Won opener fs id) : Won opener later id := by
  obtain ⟨d, name, place, named⟩ := won
  exact ⟨d, name, keeps.place place, keeps.links d name id named⟩

theorem there (there : (fs.kind id).isSome) : later.kind id = fs.kind id := by
  obtain ⟨dir, kind⟩ := Option.isSome_iff_exists.mp there
  rw [kind, keeps.kind id dir kind]

theorem accepts (there : (fs.kind id).isSome) : later.Accepts flags id ↔ fs.Accepts flags id := by
  have entries (fs : Fs T) : (fs.entries id).isSome ↔ fs.kind id = some true := by
    rw [kind_dir, Option.isSome_iff_exists]
  have same : ((later.entries id).isSome = true) = ((fs.entries id).isSome = true) := by
    rw [entries, entries, keeps.there there]
  simp only [Accepts, same]

/-- Where another open is stays where it can be. -/
theorem follows {point : Point} (follows : point.Follows opener flags fs) : point.Follows opener flags later := by
  cases point with
  | done answer =>
    cases answer with
    | ok fd =>
      obtain ⟨id, won⟩ := follows
      exact ⟨id, keeps.won won⟩
    | error e => trivial
  | root goal name comps =>
    obtain ⟨goal, split, base⟩ := follows
    exact ⟨goal, split, by rw [keeps.base _ base, keeps.root]⟩
  | handle dirFd path flags' => exact follows
  | present dir path flags' =>
    obtain ⟨split, base, same⟩ := follows
    exact ⟨split, keeps.base _ base, same⟩
  | directory dir path flags' =>
    obtain ⟨split, base, same⟩ := follows
    exact ⟨split, keeps.base _ base, same⟩
  | find goal name current comp comps =>
    obtain ⟨goal, start, front, base, split, walked⟩ := follows
    exact ⟨goal, start, front, keeps.base _ base, split, Links.walk_mono keeps.links walked⟩
  | check goal name next comps =>
    obtain ⟨goal, start, front, base, split, walked⟩ := follows
    exact ⟨goal, start, front, keeps.base _ base, split, Links.walk_mono keeps.links walked⟩
  | lookup flags' parent name => exact ⟨follows.1, keeps.place follows.2⟩
  | create flags' parent name => exact ⟨follows.1, keeps.place follows.2⟩
  | kind flags' id =>
    obtain ⟨same, there, won⟩ := follows
    refine ⟨same, by rw [keeps.there there]; exact there, ?_⟩
    rcases won with won | refused
    · exact .inl (keeps.won won)
    · exact .inr fun accepts => refused ((keeps.accepts there).mp accepts)
  | truncate flags' id => exact keeps.won follows
  | allocate flags' id => exact keeps.won follows
  | insert fd flags' id => exact keeps.won follows
  | _ => exact follows.elim

theorem wins {point : Point} (follows : point.Follows opener flags fs) (wins : point.Wins later) : point.Wins fs := by
  cases point with
  | kind flags' id => exact (keeps.accepts follows.2.1).mp wins
  | done answer => cases answer <;> exact wins
  | _ => exact wins

end Keeps

/-- Who wins has opened the inode that the path names. -/
theorem won_of_wins {point : Point} (follows : point.Follows opener flags fs) (wins : point.Wins fs) : ∃ id, Won opener fs id := by
  cases point with
  | done answer =>
    cases answer with
    | ok fd => exact follows
    | error e => exact wins.elim
  | kind flags' id =>
    obtain ⟨rfl, -, won | refused⟩ := follows
    · exact ⟨id, won⟩
    · exact absurd wins refused
  | truncate flags' id => exact ⟨id, follows⟩
  | allocate flags' id => exact ⟨id, follows⟩
  | insert fd flags' id => exact ⟨id, follows⟩
  | _ => exact wins.elim

end

section
variable {T U : Type} [TimeProvider T] {fs later : Fs T} {d id v : InodeId} {name : String} {flags : Nat} {opener : Opener}

omit [TimeProvider T] in
theorem Keeps.of_same (same : Same fs later) (base : ∀ start, opener.base fs = some start → opener.base later = some start) :
    Keeps opener fs later where
  links d n v named := by rw [same.links]; exact named
  kind id dir kind := by rw [same.kind]; exact kind
  root := same.root
  base := base

omit [TimeProvider T] in
theorem base_of_holder (root : later.rootInode = fs.rootInode) (holder : later.holder = fs.holder) (start : InodeId)
    (base : opener.base fs = some start) : opener.base later = some start := by
  cases opener with
  | fromRoot path => rw [← base, Opener.base, Opener.base, root]
  | below dirFd path => rw [← base, Opener.base, Opener.base, holder]

omit [TimeProvider T] in
theorem Bounded.unused (bounded : Bounded fs) : fs.kind fs.nextInode = none := by
  cases there : fs.kind fs.nextInode with
  | none => rfl
  | some dir => exact absurd (bounded fs.nextInode (by rw [there]; rfl)) (Nat.lt_irrefl _)

omit [TimeProvider T] in
theorem Fs.Created.keeps {dir : Bool} (bounded : Bounded fs) (made : Created d name dir fs later) : Keeps opener fs later where
  links e m v named := by
    rw [made.links]
    refine (Links.set_other ?_).trans named
    rintro ⟨rfl, rfl⟩
    rw [made.free] at named
    cases named
  kind id isDir kind := by
    rw [made.kind, Function.update_of_ne]
    · exact kind
    · rintro rfl
      rw [bounded.unused] at kind
      cases kind
  root := made.root
  base := base_of_holder made.root made.holder

omit [TimeProvider T] in
theorem Fs.Created.bounded {dir : Bool} (bounded : Bounded fs) (room : fs.nextInode + 1 < 2 ^ 64) (made : Created d name dir fs later) :
    Bounded later := by
  intro id there
  rw [made.next, toU64, Nat.mod_eq_of_lt room]
  rw [made.kind, Function.update_apply] at there
  split at there
  · next same => rw [same]; exact Nat.lt_succ_self _
  · exact Nat.lt_succ_of_lt (bounded id there)

omit [TimeProvider T] in
theorem bounded_of_same (same : Same fs later) (bounded : Bounded fs) : Bounded later := by
  rw [Bounded, same.kind, same.next]
  exact bounded

/-- The thread's own part of the condition: what the lookup finds does not take the flags, inode numbers
are left, and no new descriptor is the one that the path is read from. -/
def Point.Undisputed (opener : Opener) (fs : Fs T) : Point → Prop
  | .lookup flags parent name => ∀ id, fs.findInode parent name = .ok id → ¬ fs.Accepts flags id
  | .create _ _ _ => fs.nextInode + 1 < 2 ^ 64
  | .insert fd _ _ => ∀ path, opener ≠ .below fd path
  | _ => True

theorem step_keeps {point : Point} (bounded : Bounded fs) (follows : point.Follows opener flags fs)
    (undisputed : point.Undisputed opener fs) : Keeps opener fs (point.step fs).2 ∧ Bounded (point.step fs).2 := by
  have looked (looks : point.Looks) : Keeps opener fs (point.step fs).2 ∧ Bounded (point.step fs).2 := by
    rw [step_looks looks fs]
    exact ⟨.of_same (.refl fs) fun _ base => base, bounded⟩
  cases point with
  | create flags' d name =>
    rw [create_state]
    rcases createInode_cases fs d name false with ⟨e, result⟩ | ⟨metadata, entries, stored, free⟩
    · rw [result]
      exact ⟨.of_same (.refl fs) fun _ base => base, bounded⟩
    · have found : fs.entries d = some entries := by rw [entries_eq, stored]; rfl
      obtain ⟨later, result, made, -⟩ := createInode_unused false bounded.unused (kind_dir.mpr ⟨entries, found⟩)
        (by rw [links_of_entries found, free])
      rw [result]
      exact ⟨made.keeps bounded, made.bounded bounded undisputed⟩
  | truncate flags' id =>
    obtain ⟨same, holder⟩ := clear_effect fs id
    exact ⟨.of_same same (base_of_holder same.root holder), bounded_of_same same bounded⟩
  | allocate flags' id =>
    exact ⟨.of_same (.of_table rfl rfl rfl) (base_of_holder rfl rfl), bounded⟩
  | insert fd flags' id =>
    -- The new descriptor may have the number the opener starts from, which is disputed then.
    refine ⟨.of_same (.of_table rfl rfl rfl) fun start base => ?_, bounded⟩
    cases opener with
    | fromRoot path => exact base
    | below dirFd path =>
      have other : dirFd ≠ fd := fun same => undisputed path (by rw [same])
      rw [← base, Opener.base, Opener.base, holder, holder, Point.step, Table.lookup_insert, if_neg other]
  | createDir | pathCreate | remove | move => exact follows.elim
  | _ => exact looked trivial

omit [TimeProvider T] in
theorem walk_follows {comps : List String} {start : InodeId} (front : List String) (base : opener.base fs = some start)
    (split : opener.comps = front ++ (comps ++ [name])) (walked : fs.links.walk start front = some d) :
    ((Goal.openEntry flags).walk name d comps).Follows opener flags fs := by
  cases comps with
  | nil => exact ⟨rfl, start, front, base, split, walked⟩
  | cons comp comps => exact ⟨rfl, start, front, base, split, walked⟩

/-- What the check for directories makes of an inode that does not take the flags. -/
theorem kind_refuses (refused : ¬ fs.Accepts flags id) : ∃ e, (Point.kind flags id).step fs = (.fail e, fs) := by
  rw [Point.step]
  by_cases dir : (fs.entries id).isSome
  · rw [Accepts, if_pos dir, not_not] at refused
    exact ⟨_, if_pos ⟨dir, refused⟩⟩
  · rw [Accepts, if_neg dir, not_not] at refused
    rw [if_neg fun both => dir both.1, Point.opened, if_pos refused.1, if_pos refused.2]
    exact ⟨_, rfl⟩

/-- A section leads an exclusive open to where it can be. -/
theorem step_follows {point : Point} (bounded : Bounded fs) (creates : flags &&& O_CREAT ≠ 0) (exclusive : flags &&& O_EXCL ≠ 0)
    (follows : point.Follows opener flags fs) (undisputed : point.Undisputed opener fs) :
    (point.step fs).1.Follows opener flags (point.step fs).2 := by
  cases point with
  | done answer => exact follows
  | root goal name comps =>
    obtain ⟨rfl, split, base⟩ := follows
    rw [Point.step]
    split
    · exact walk_follows [] base split rfl
    · trivial
  | handle dirFd path flags' =>
    obtain ⟨rfl, rfl⟩ := follows
    rw [Point.step]
    split
    · trivial
    · next held found => exact ⟨rfl, by rw [Opener.base, holder, found]; rfl, rfl⟩
  | present dir path flags' =>
    rw [Point.step]
    split
    · trivial
    · exact follows
  | directory dir path flags' =>
    obtain ⟨comps, base, rfl⟩ := follows
    rw [Point.step]
    split
    · trivial
    split
    · trivial
    · next name last =>
      obtain ⟨front, split⟩ := List.getLast?_eq_some_iff.mp last
      refine walk_follows [] base ?_ rfl
      rw [comps, split, List.dropLast_concat]
      rfl
  | find goal name current comp comps =>
    obtain ⟨rfl, start, front, base, split, walked⟩ := follows
    rw [Point.step]
    split
    · trivial
    · next next found =>
      refine ⟨rfl, start, front ++ [comp], base, by rw [split, List.append_assoc]; rfl, ?_⟩
      rw [Links.walk_concat, walked]
      -- one step further along the path
      exact (findInode_ok.mp found).1
  | check goal name next comps =>
    obtain ⟨rfl, start, front, base, split, walked⟩ := follows
    rw [Point.step]
    split
    · trivial
    · exact walk_follows front base split walked
  | lookup flags' parent name =>
    obtain ⟨rfl, place⟩ := follows
    rw [Point.step]
    split
    -- What is found here is not the winner's, or no inode would be opened.
    · next id found => exact ⟨rfl, (findInode_ok.mp found).2, .inr (undisputed id found)⟩
    · split
      · exact ⟨rfl, place⟩
      · trivial
  | create flags' parent name =>
    obtain ⟨rfl, place⟩ := follows
    rw [Point.step]
    rcases createInode_cases fs parent name false with ⟨e, result⟩ | ⟨metadata, entries, stored, free⟩
    · rw [result]
      dsimp only
      rw [if_neg fun lost => exclusive lost.2]
      trivial
    -- This thread creates the entry, and wins with it.
    · have found : fs.entries parent = some entries := by rw [entries_eq, stored]; rfl
      obtain ⟨later, result, made, -⟩ := createInode_unused false bounded.unused (kind_dir.mpr ⟨entries, found⟩)
        (by rw [links_of_entries found, free])
      rw [result]
      refine ⟨rfl, by rw [made.kind, Function.update_self]; rfl, .inl ⟨parent, name, (made.keeps bounded).place place, ?_⟩⟩
      rw [made.links, Links.set_same]
  | kind flags' id =>
    obtain ⟨rfl, there, won⟩ := follows
    by_cases accepts : fs.Accepts flags' id
    -- An inode that refuses the flags is never opened, so the entry is this thread's own.
    · have won := won.resolve_right fun refused => refused accepts
      rw [Point.step]
      split
      · trivial
      · rw [Point.opened]
        split
        · split
          · trivial
          · exact won
        · exact won
    · obtain ⟨e, result⟩ := kind_refuses accepts
      rw [result]
      trivial
  | truncate flags' id => exact (step_keeps bounded follows undisputed).1.won follows
  | allocate flags' id => exact (step_keeps bounded follows undisputed).1.won follows
  | insert fd flags' id => exact ⟨id, (step_keeps bounded follows undisputed).1.won follows⟩
  | _ => exact follows.elim

/-- Only a creation makes an open succeed that did not already. -/
theorem step_wins {point : Point} (exclusive : flags &&& O_EXCL ≠ 0) (follows : point.Follows opener flags fs)
    (undisputed : point.Undisputed opener fs) (wins : (point.step fs).1.Wins (point.step fs).2) :
    point.Wins fs ∨ ∃ d name, point = .create flags d name ∧ fs.links d name = none := by
  -- A walk has not won, so that no step of it is where the opener wins.
  have walk_loses {comps : List String} {fs : Fs T} {name : String} {d : InodeId}
      (wins : ((Goal.openEntry flags).walk name d comps).Wins fs) : False := by
    cases comps <;> exact wins
  cases point with
  | done answer => exact .inl wins
  | truncate | allocate | insert => exact .inl trivial
  | root goal name comps =>
    obtain ⟨rfl, -, -⟩ := follows
    rw [Point.step] at wins
    split at wins
    · exact (walk_loses wins).elim
    · exact wins.elim
  | handle dirFd path flags' =>
    rw [Point.step] at wins
    split at wins <;> exact wins.elim
  | present dir path flags' =>
    rw [Point.step] at wins
    split at wins <;> exact wins.elim
  | directory dir path flags' =>
    obtain ⟨-, -, rfl⟩ := follows
    rw [Point.step] at wins
    split at wins
    · exact wins.elim
    split at wins
    · exact wins.elim
    · exact (walk_loses wins).elim
  | find goal name current comp comps =>
    rw [Point.step] at wins
    split at wins <;> exact wins.elim
  | check goal name next comps =>
    obtain ⟨rfl, -⟩ := follows
    rw [Point.step] at wins
    split at wins
    · exact wins.elim
    · exact (walk_loses wins).elim
  | lookup flags' parent name =>
    rw [Point.step] at wins
    split at wins
    · next id found => exact absurd wins (undisputed id found)
    · split at wins <;> exact wins.elim
  | create flags' parent name =>
    obtain ⟨rfl, -⟩ := follows
    rcases createInode_cases fs parent name false with ⟨e, result⟩ | ⟨metadata, entries, stored, free⟩
    · rw [Point.step, result] at wins
      dsimp only at wins
      rw [if_neg fun lost => exclusive lost.2] at wins
      exact wins.elim
    -- The opener wins with the entry it creates.
    · refine .inr ⟨parent, name, rfl, ?_⟩
      rw [links_of_entries (by rw [entries_eq, stored]; rfl), free]
  | kind flags' id =>
    by_cases accepts : fs.Accepts flags' id
    · exact .inl accepts
    · obtain ⟨e, result⟩ := kind_refuses accepts
      rw [result] at wins
      exact wins.elim
  | _ => exact follows.elim

end

/-! ### Every run -/

section
variable {T U : Type} [TimeProvider T] [DecidableEq U] {threads : Threads U Point (Fs T)} {flags : U → Nat} {opener : Opener}

/-- Nothing is taken away between the opens, and none of their lookups finds what they may open. -/
def Unopposed (opener : Opener) (turn : Pick U (Fs T)) (threads : Threads U Point (Fs T)) : Prop :=
  match turn with
  | .thread thread => (threads.point thread).Undisputed opener threads.shared
  | .around change => Keeps opener threads.shared (change threads.shared) ∧ Bounded (change threads.shared)

/-- Every open is on its way, and at most one has created the file. -/
structure Racing (opener : Opener) (flags : U → Nat) (threads : Threads U Point (Fs T)) : Prop where
  bounded : Bounded threads.shared
  follows : ∀ thread, (threads.point thread).Follows opener (flags thread) threads.shared
  one : ∀ thread other, (threads.point thread).Wins threads.shared → (threads.point other).Wins threads.shared → thread = other

theorem turn_racing (creates : ∀ thread, flags thread &&& O_CREAT ≠ 0) (exclusive : ∀ thread, flags thread &&& O_EXCL ≠ 0)
    (turn : Pick U (Fs T)) (threads : Threads U Point (Fs T)) (unopposed : Unopposed opener turn threads)
    (racing : Racing opener flags threads) : Racing opener flags (threads.turn Point.step turn) := by
  cases turn with
  | around change =>
    obtain ⟨keeps, bounded⟩ := unopposed
    exact ⟨bounded, fun thread => keeps.follows (racing.follows thread), fun thread other wins wins' =>
      racing.one thread other (keeps.wins (racing.follows thread) wins) (keeps.wins (racing.follows other) wins')⟩
  | thread thread =>
    obtain ⟨keeps, bounded⟩ := step_keeps racing.bounded (racing.follows thread) unopposed
    have own := step_follows racing.bounded (creates thread) (exclusive thread) (racing.follows thread) unopposed
    have won_before {other : U} (different : other ≠ thread)
        (wins : ((threads.turn Point.step (.thread thread)).point other).Wins (threads.turn Point.step (.thread thread)).shared) :
        (threads.point other).Wins threads.shared := by
      rw [turn_other different] at wins
      exact keeps.wins (racing.follows other) wins
    -- whoever wins with this turn has created the entry, so nobody had won before
    have alone {other : U} (different : other ≠ thread)
        (wins : ((threads.turn Point.step (.thread thread)).point thread).Wins (threads.turn Point.step (.thread thread)).shared)
        (wins' : ((threads.turn Point.step (.thread thread)).point other).Wins (threads.turn Point.step (.thread thread)).shared) :
        False := by
      have before := won_before different wins'
      rw [turn_own] at wins
      rcases step_wins (exclusive thread) (racing.follows thread) unopposed wins with already | ⟨d, name, here, free⟩
      · exact different (racing.one other thread before already)
      · obtain ⟨id, e, name', place', named⟩ := won_of_wins (racing.follows other) before
        have place := racing.follows thread
        rw [here] at place
        obtain ⟨rfl, rfl⟩ := place.2.unique place'
        rw [free] at named
        cases named
    refine ⟨bounded, fun other => ?_, fun first second wins wins' => ?_⟩
    · by_cases same : other = thread
      · subst same
        rw [turn_own]
        exact own
      · rw [turn_other same]
        exact keeps.follows (racing.follows other)
    · by_cases same : first = thread <;> by_cases same' : second = thread
      · rw [same, same']
      · subst same
        exact (alone same' wins wins').elim
      · subst same'
        exact (alone same wins' wins).elim
      · exact racing.one first second (won_before same wins) (won_before same' wins')

omit [TimeProvider T] [DecidableEq U] in
theorem begin_follows {fs : Fs T} (flags : Nat) (some : opener.comps ≠ []) :
    ((opener.task flags).begin fs.rootInode).Follows opener flags fs ∧ ¬ ((opener.task flags).begin fs.rootInode).Wins fs := by
  cases opener with
  | fromRoot path =>
    rw [Opener.task, Task.begin]
    split
    · exact ⟨trivial, id⟩
    split
    · next none => exact absurd (List.getLast?_eq_none_iff.mp none) some
    · next name last =>
      obtain ⟨front, split⟩ := List.getLast?_eq_some_iff.mp last
      refine ⟨⟨rfl, ?_, rfl⟩, id⟩
      rw [Opener.comps, split, List.dropLast_concat]
  | below dirFd path =>
    rw [Opener.task, Task.begin]
    split
    · exact ⟨trivial, id⟩
    · exact ⟨⟨rfl, rfl⟩, id⟩

omit [TimeProvider T] [DecidableEq U] in
theorem start_racing (bounded : Bounded threads.shared) (some : opener.comps ≠ [])
    (begun : ∀ thread, threads.point thread = (opener.task (flags thread)).begin threads.shared.rootInode) :
    Racing opener flags threads := by
  refine ⟨bounded, fun thread => ?_, fun thread other wins => ?_⟩
  · rw [begun]
    exact (begin_follows (flags thread) some).1
  · rw [begun] at wins
    exact absurd wins (begin_follows (flags thread) some).2

/-- At most one open has succeeded. -/
def OneSucceeds (threads : Threads U Point (Fs T)) : Prop :=
  ∀ thread other fd fd', threads.point thread = .done (.ok fd) → threads.point other = .done (.ok fd') → thread = other

theorem one_succeeds {schedule : List (Pick U (Fs T))} (creates : ∀ thread, flags thread &&& O_CREAT ≠ 0)
    (exclusive : ∀ thread, flags thread &&& O_EXCL ≠ 0) (bounded : Bounded threads.shared) (some : opener.comps ≠ [])
    (begun : ∀ thread, threads.point thread = (opener.task (flags thread)).begin threads.shared.rootInode)
    (met : AtEveryTurn Point.step (Unopposed opener) schedule threads) : OneSucceeds (interleave Point.step schedule threads) := by
  have racing := interleave_keeps (turn_racing creates exclusive) met (start_racing bounded some begun)
  intro thread other fd fd' done done'
  exact racing.one thread other (by rw [done]; trivial) (by rw [done']; trivial)

end

/-- An exclusive open succeeds on a missing path only, unless the path names what takes its flags; and where the lookups
of any number of threads find nothing that they may open, at most one of them succeeds. -/
theorem exclusive_create (opener : Opener) :
    (∀ (T : Type) [TimeProvider T] (fs : Fs T) (flags : Nat), flags &&& O_CREAT ≠ 0 → flags &&& O_EXCL ≠ 0 →
      (((opener.outcome fs flags).failed = false → ∀ id, ¬ opener.Names fs id) ↔
        ¬ ∃ id, opener.Names fs id ∧ opener.Takes fs flags id)) ∧
    ∀ (T U : Type) [TimeProvider T] [DecidableEq U] (threads : Threads U Point (Fs T)) (flags : U → Nat)
      (schedule : List (Pick U (Fs T))), (∀ thread, flags thread &&& O_CREAT ≠ 0) → (∀ thread, flags thread &&& O_EXCL ≠ 0) →
      Bounded threads.shared → opener.comps ≠ [] →
      (∀ thread, threads.point thread = (opener.task (flags thread)).begin threads.shared.rootInode) →
      AtEveryTurn Point.step (Unopposed opener) schedule threads → OneSucceeds (interleave Point.step schedule threads) :=
  ⟨fun _ _ _ _ _ _ => Opener.exclusive_iff, fun _ _ _ _ _ _ _ creates exclusive bounded some begun met =>
    one_succeeds creates exclusive bounded some begun met⟩

/-- The file is there, and the exclusive open succeeds. -/
theorem existing_opened : let fs := (Fs.new.openPathWithFlags "/f" (O_CREAT ||| O_RDWR)).2
    (Opener.fromRoot "/f").Names fs 1 ∧
      ((Opener.fromRoot "/f").outcome fs (O_CREAT ||| O_EXCL ||| O_RDWR)).failed = false :=
  ⟨⟨show "/f" ≠ "" by decide, 0, rfl, rfl⟩, rfl⟩

/-- Two threads that open one missing path exclusively. -/
def racers : Threads Bool Point (Fs MonotonicCounter) :=
  ⟨Fs.new, fun _ => ((Opener.fromRoot "/f").task (O_CREAT ||| O_EXCL ||| O_RDWR)).begin 0⟩

/-- On a missing path the open may succeed; and both threads look before one of them creates the file, and the other one fails. -/
theorem racers_exclusive : (((Opener.fromRoot "/f").outcome Fs.new (O_CREAT ||| O_EXCL)).failed = false →
      ∀ id, ¬ (Opener.fromRoot "/f").Names Fs.new id) ∧
    OneSucceeds (interleave Point.step ([true, false, true, false, true, false, true, true, true].map .thread) racers) := by
  have missing (id : InodeId) (found : Except.error FsError.notFound = Except.ok id) : ¬ Fs.new.Accepts (O_CREAT ||| O_EXCL ||| O_RDWR) id := by
    cases found
  constructor
  · refine ((exclusive_create (.fromRoot "/f")).1 _ Fs.new (O_CREAT ||| O_EXCL) (by decide) (by decide)).mpr ?_
    rintro ⟨id, ⟨-, base, start, found⟩, -⟩
    cases start
    cases (show Except.error FsError.notFound = Except.ok id from found)
  · refine (exclusive_create (.fromRoot "/f")).2 _ _ racers (fun _ => O_CREAT ||| O_EXCL ||| O_RDWR) _ (fun _ => by decide)
      (fun _ => by decide) (new_sane MonotonicCounter.new).bounded (by decide) (fun _ => rfl)
      ⟨trivial, trivial, missing, missing, show 1 + 1 < 2 ^ 64 by decide, show 2 + 1 < 2 ^ 64 by decide, trivial, trivial, ?_, trivial⟩
    intro path same
    cases same

end MonakaFs.FsCore
