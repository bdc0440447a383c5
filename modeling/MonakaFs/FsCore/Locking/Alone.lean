import MonakaFs.FsCore.Locking.Points

/-! A thread that nobody interrupts.

Section by section it comes to the answer and to the filesystem of the operation in
one piece, for every operation on names.
-/

set_option autoImplicit false

namespace MonakaFs.FsCore

open Async Fs

variable {T : Type} [TimeProvider T] {fs : Fs T} {d id : InodeId} {name : String} {flags : Nat}

def Outcome.answered {A : Type} (outcome : Outcome T A) (answer : A → Option Fd) : Outcome T (Option Fd) :=
  (outcome.1.map answer, outcome.2)

/-- The operation in one piece. -/
def Task.run : Task → Fs T → Outcome T (Option Fd)
  | .openPathWithFlags path flags, fs => (fs.openPathWithFlags path flags).answered some
  | .openAt dirFd path flags, fs => (fs.openAt dirFd path flags).answered some
  | .mkdir path, fs => (fs.mkdir path).answered fun _ => none
  | .mkdirP path, fs => (fs.mkdirP path).answered fun _ => none
  | .unlink path, fs => (fs.unlink path).answered fun _ => none
  | .rmdir path, fs => (fs.rmdir path).answered fun _ => none
  | .rename oldPath newPath, fs => (fs.rename oldPath newPath).answered fun _ => none

/-- From a point the thread comes to this outcome. -/
def Finishes (point : Point) (fs : Fs T) (outcome : Outcome T (Option Fd)) : Prop :=
  Leads Point.step (point, fs) (.done outcome.1, outcome.2)

theorem Finishes.fail (e : FsError) (fs : Fs T) : Finishes (.fail e) fs (.error e, fs) := .refl _

theorem Finishes.done (answer : Option Fd) (fs : Fs T) : Finishes (.done (.ok answer)) fs (.ok answer, fs) := .refl _

theorem Finishes.turn {point : Point} {outcome : Outcome T (Option Fd)}
    (rest : Finishes (point.step fs).1 (point.step fs).2 outcome) : Finishes point fs outcome := Leads.turn rest

/-! ### Opens -/

theorem insertFd_alone (fs : Fs T) (id : InodeId) (flags : Nat) :
    Finishes (.allocate flags id) fs ((fs.insertFd id flags).answered some) := ⟨2, rfl⟩

theorem openInode_alone (there : (fs.inodeTable.lookup id).isSome) :
    Finishes (.kind flags id) fs ((fs.openInode id flags).answered some) := by
  obtain ⟨⟨metadata, content⟩, stored⟩ := Option.isSome_iff_exists.mp there
  refine .turn ?_
  cases content with
  | dir entries =>
    have dir : (fs.entries id).isSome := by rw [entries_eq, stored]; rfl
    have result : fs.openInode id flags = if accessMode flags = O_WRONLY ∨ accessMode flags = O_RDWR then (.error .isADirectory, fs)
        else if flags &&& O_TRUNC ≠ 0 then (.error .isADirectory, fs) else fs.insertFd id flags := by
      rw [openInode, stored]
    rw [Point.step, result]
    -- The two refusals of a directory are one check at the point.
    by_cases writes : accessMode flags = O_WRONLY ∨ accessMode flags = O_RDWR
    · rw [if_pos ⟨dir, by tauto⟩, if_pos writes]
      exact .fail _ _
    by_cases truncates : flags &&& O_TRUNC ≠ 0
    · rw [if_pos ⟨dir, by tauto⟩, if_neg writes, if_pos truncates]
      exact .fail _ _
    · rw [if_neg (by tauto), if_neg writes, if_neg truncates, Point.opened, if_neg truncates]
      exact insertFd_alone fs id flags
  | file storage =>
    have file : ¬ (fs.entries id).isSome := by rw [entries_eq, stored]; exact fun same => (by cases same)
    have result : fs.openInode id flags = if flags &&& O_TRUNC ≠ 0 then
          if accessMode flags = O_RDONLY then (.error .invalidArgument, fs)
          else (fs.update id (Inode.store ⟨metadata, .file storage⟩ (storage.truncate 0) 0)).insertFd id flags
        else fs.insertFd id flags := by
      rw [openInode, stored]
    rw [Point.step, result, if_neg fun both => file both.1, Point.opened]
    by_cases truncates : flags &&& O_TRUNC ≠ 0
    · rw [if_pos truncates, if_pos truncates]
      by_cases reads : accessMode flags = O_RDONLY
      · rw [if_pos reads, if_pos reads]
        exact .fail _ _
      · rw [if_neg reads, if_neg reads]
        refine .turn ?_
        rw [Point.step, clear, stored]
        exact insertFd_alone _ id flags
    · rw [if_neg truncates, if_neg truncates]
      exact insertFd_alone fs id flags

omit [TimeProvider T] in
/-- What a lookup finds is in the table. -/
theorem findInode_there {v : InodeId} (found : fs.findInode d name = .ok v) : (fs.inodeTable.lookup v).isSome := by
  rw [← kind_some]
  exact (findInode_ok.mp found).2

theorem createInode_there {isDir : Bool} {later : Fs T} {v : InodeId} (made : fs.createInode d name isDir = (.ok v, later)) :
    (later.inodeTable.lookup v).isSome := by
  unfold createInode at made
  split at made
  · cases made
  split at made
  · cases made
  split at made
  · cases made
  · cases made
    rw [Table.lookup_insert, if_pos rfl]
    rfl

theorem openEntry_alone (fs : Fs T) (d : InodeId) (name : String) (flags : Nat) :
    Finishes (.lookup flags d name) fs ((fs.openEntry d name flags).answered some) := by
  refine .turn ?_
  rw [Point.step, openEntry, findOrCreate]
  cases found : fs.findInode d name with
  | ok v => exact openInode_alone (findInode_there found)
  | error e =>
    dsimp only
    by_cases creates : e = .notFound ∧ flags &&& O_CREAT ≠ 0
    · rw [if_pos creates, if_pos creates]
      refine .turn ?_
      rw [Point.step]
      rcases made : fs.createInode d name false with ⟨answer, later⟩
      cases answer with
      | ok v => exact openInode_alone (createInode_there made)
      | error e =>
        dsimp only
        by_cases lost : e = .alreadyExists ∧ flags &&& O_EXCL = 0
        · rw [if_pos lost, if_pos lost]
          refine .turn ?_
          rw [Point.step]
          cases again : later.findInode d name with
          | ok v => exact openInode_alone (findInode_there again)
          | error e => exact .fail _ _
        · rw [if_neg lost, if_neg lost]
          exact .fail _ _
    · rw [if_neg creates, if_neg creates]
      exact .fail _ _

/-! ### Walks -/

/-- A walk comes to the directory or fails on the way. -/
theorem walk_alone (goal : Goal) {outcome : InodeId → Outcome T (Option Fd)} (arrived : ∀ d, Finishes (goal.arrive name d) fs (outcome d))
    (d : InodeId) (comps : List String) : Finishes (goal.walk name d comps) fs
      (match fs.descend d comps with
        | .error e => (.error e, fs)
        | .ok d => outcome d) := by
  induction comps generalizing d with
  | nil => exact arrived d
  | cons comp comps ih =>
    refine .turn ?_
    rw [Goal.walk, Point.step, descend]
    cases fs.findInode d comp with
    | error e => exact .fail _ _
    | ok next =>
      refine .turn ?_
      rw [Point.step]
      dsimp only
      split
      · exact .fail _ _
      · exact ih next

theorem root_alone (goal : Goal) {outcome : InodeId → Outcome T (Option Fd)} (arrived : ∀ d, Finishes (goal.arrive name d) fs (outcome d))
    (comps : List String) : Finishes (.root goal name comps.dropLast) fs
      (match fs.findParent comps with
        | .error e => (.error e, fs)
        | .ok d => outcome d) := by
  refine .turn ?_
  rw [Point.step, findParent]
  split
  · exact walk_alone goal arrived _ _
  · exact .fail _ _

theorem begin_alone (goal : Goal) {outcome : InodeId → String → Outcome T (Option Fd)}
    (arrived : ∀ d name, Finishes (goal.arrive name d) fs (outcome d name)) (path : String) :
    Finishes (goal.begin path) fs
      (match fs.locate path with
        | .error e => (.error e, fs)
        | .ok (parent, name) => outcome parent name) := by
  rw [Goal.begin, locate]
  split
  · exact .fail _ _
  cases (components path).getLast? with
  | none => exact .fail _ _
  | some name =>
    have finishes := root_alone goal (fun d => arrived d name) (components path)
    dsimp only
    cases found : fs.findParent (components path) with
    | error e =>
      rw [found] at finishes
      exact finishes
    | ok parent =>
      rw [found] at finishes
      exact finishes

/-! ### Directories and removals -/

theorem mkdir_alone (fs : Fs T) (d : InodeId) (name : String) : Finishes (Goal.mkdir.arrive name d) fs
    (Outcome.answered (match fs.createInode d name true with
      | (.error e, fs) => ((.error e, fs) : Outcome T Unit)
      | (.ok _, fs) => (.ok (), fs)) fun _ => none) := by
  refine .turn ?_
  rw [Goal.arrive, Point.step]
  rcases fs.createInode d name true with ⟨answer, later⟩
  cases answer with
  | ok v => exact .done none _
  | error e => exact .fail _ _

theorem mkdirPath_alone (fs : Fs T) (d : InodeId) (comps : List String) :
    Finishes (.path d comps) fs ((fs.mkdirPath d comps).answered fun _ => none) := by
  induction comps generalizing fs d with
  | nil => exact .done none _
  | cons comp comps ih =>
    refine .turn ?_
    rw [Point.path, Point.step, mkdirPath]
    cases found : fs.findInode d comp with
    | ok next =>
      refine .turn ?_
      rw [Point.step]
      dsimp only
      split
      · exact .fail _ _
      · exact ih fs next
    | error e =>
      -- The directory is missing, and is made. Alone, another thread cannot be faster.
      cases e with
      | notFound =>
        refine .turn ?_
        rw [Point.step]
        rcases made : fs.createInode d comp true with ⟨answer, later⟩
        cases answer with
        | ok next => exact ih later next
        | error e =>
          cases e with
          | alreadyExists =>
            refine .turn ?_
            rw [Point.step]
            dsimp only
            cases again : later.findInode d comp with
            | ok next => exact ih later next
            | error e => exact .fail _ _
          | notFound => exact .fail _ _
          | notADirectory => exact .fail _ _
          | isADirectory => exact .fail _ _
          | invalidArgument => exact .fail _ _
          | badFileDescriptor => exact .fail _ _
          | permissionDenied => exact .fail _ _
          | notEmpty => exact .fail _ _
      | notADirectory => exact .fail _ _
      | isADirectory => exact .fail _ _
      | invalidArgument => exact .fail _ _
      | badFileDescriptor => exact .fail _ _
      | permissionDenied => exact .fail _ _
      | alreadyExists => exact .fail _ _
      | notEmpty => exact .fail _ _

theorem remove_alone (removal : Removal) (fs : Fs T) (d : InodeId) (name : String) :
    Finishes (.remove removal d name) fs ((fs.removeEntry d name).answered fun _ => none) := ⟨1, rfl⟩

theorem unlink_alone (fs : Fs T) (d : InodeId) (name : String) : Finishes ((Goal.remove .unlink).arrive name d) fs
    (Outcome.answered (match fs.findInode d name with
      | .error e => ((.error e, fs) : Outcome T Unit)
      | .ok target => if fs.isFile target then fs.removeEntry d name else (.error .isADirectory, fs)) fun _ => none) := by
  refine .turn ?_
  rw [Goal.arrive, Point.step]
  cases fs.findInode d name with
  | error e => exact .fail _ _
  | ok target =>
    refine .turn ?_
    rw [Point.step]
    dsimp only
    split
    · exact remove_alone _ _ _ _
    · exact .fail _ _

theorem rmdir_alone (fs : Fs T) (d : InodeId) (name : String) : Finishes ((Goal.remove .rmdir).arrive name d) fs
    (Outcome.answered (match fs.findInode d name with
      | .error e => ((.error e, fs) : Outcome T Unit)
      | .ok target =>
          match fs.entries target with
          | none => (.error .notADirectory, fs)
          | some entries => if entries.keys = [] then fs.removeEntry d name else (.error .notEmpty, fs)) fun _ => none) := by
  refine .turn ?_
  rw [Goal.arrive, Point.step]
  cases fs.findInode d name with
  | error e => exact .fail _ _
  | ok target =>
    refine .turn ?_
    rw [Point.step]
    dsimp only
    cases fs.entries target with
    | none => exact .fail _ _
    | some entries =>
      dsimp only
      split
      · exact remove_alone _ _ _ _
      · exact .fail _ _

/-! ### Renames -/

omit [TimeProvider T] in
theorem refuses_eq (fs : Fs T) (source dest : InodeId) : fs.refuses (fs.isDir source) dest = fs.replaceError source dest := rfl

theorem move_alone (fs : Fs T) (oldParent : InodeId) (oldName : String) (newParent : InodeId) (newName : String) :
    Finishes (.move oldParent oldName newParent newName) fs
      ((fs.moveEntry oldParent oldName newParent newName).answered fun _ => none) := ⟨1, rfl⟩

theorem renameTo_alone (fs : Fs T) (oldParent : InodeId) (oldName : String) (source newParent : InodeId) (newName : String) :
    Finishes ((Goal.renameTo oldParent oldName (fs.isDir source)).arrive newName newParent) fs
      (Outcome.answered (match (fs.findInode newParent newName).toOption.bind (fs.replaceError source) with
        | some e => ((.error e, fs) : Outcome T Unit)
        | none => fs.moveEntry oldParent oldName newParent newName) fun _ => none) := by
  refine .turn ?_
  rw [Goal.arrive, Point.step]
  cases fs.findInode newParent newName with
  | error e => exact move_alone _ _ _ _ _
  | ok dest =>
    refine .turn ?_
    rw [Point.step, refuses_eq]
    dsimp only [Except.toOption, Option.bind_some]
    cases fs.replaceError source dest with
    | none => exact move_alone _ _ _ _ _
    | some e => exact .fail _ _

theorem renameFrom_alone (rooted : (fs.inodeTable.lookup fs.rootInode).isSome) (oldParent : InodeId) (oldName newName : String)
    (newComps : List String) :
    Finishes ((Goal.renameFrom newName newComps.dropLast).arrive oldName oldParent) fs
      (Outcome.answered (match fs.findInode oldParent oldName with
        | .error e => ((.error e, fs) : Outcome T Unit)
        | .ok source =>
            match fs.findParent newComps with
            | .error e => (.error e, fs)
            | .ok newParent =>
                match (fs.findInode newParent newName).toOption.bind (fs.replaceError source) with
                | some e => (.error e, fs)
                | none => fs.moveEntry oldParent oldName newParent newName) fun _ => none) := by
  refine .turn ?_
  rw [Goal.arrive, Point.step]
  cases fs.findInode oldParent oldName with
  | error e => exact .fail _ _
  | ok source =>
    refine .turn ?_
    rw [Point.step]
    have finishes := walk_alone (.renameTo oldParent oldName (fs.isDir source))
      (fun d => renameTo_alone fs oldParent oldName source d newName) fs.rootInode newComps.dropLast
    dsimp only
    rw [findParent, if_pos rooted]
    cases found : fs.descend fs.rootInode newComps.dropLast with
    | error e =>
      rw [found] at finishes
      exact finishes
    | ok newParent =>
      rw [found] at finishes
      exact finishes

/-! ### Every operation -/

theorem task_alone (task : Task) (fs : Fs T) : Finishes (task.begin fs.rootInode) fs (task.run fs) := by
  cases task with
  | openPathWithFlags path flags =>
    rw [Task.begin, Task.run, openPathWithFlags]
    split
    · exact .fail _ _
    cases (components path).getLast? with
    | none => exact insertFd_alone _ _ _
    | some name =>
      have finishes := root_alone (.openEntry flags) (fun d => openEntry_alone fs d name flags) (components path)
      dsimp only
      cases found : fs.findParent (components path) with
      | error e =>
        rw [found] at finishes
        exact finishes
      | ok parent =>
        rw [found] at finishes
        exact finishes
  | openAt dirFd path flags =>
    rw [Task.begin, Task.run, openAt]
    split
    · exact .fail _ _
    refine .turn ?_
    rw [Point.step]
    cases fs.fdTable.lookup dirFd with
    | none => exact .fail _ _
    | some handle =>
      refine .turn ?_
      rw [Point.step]
      dsimp only
      split
      · exact .fail _ _
      refine .turn ?_
      rw [Point.step]
      split
      · exact .fail _ _
      cases (relativeComponents path).getLast? with
      | none => exact .fail _ _
      | some name =>
        have finishes := walk_alone (.openEntry flags) (fun d => openEntry_alone fs d name flags) handle.inodeId
          (relativeComponents path).dropLast
        dsimp only
        cases found : fs.descend handle.inodeId (relativeComponents path).dropLast with
        | error e =>
          rw [found] at finishes
          exact finishes
        | ok parent =>
          rw [found] at finishes
          exact finishes
  | mkdir path =>
    have finishes := begin_alone .mkdir (mkdir_alone fs) path
    rw [Task.begin, Task.run, mkdir]
    cases found : fs.locate path with
    | error e =>
      rw [found] at finishes
      exact finishes
    | ok located =>
      rw [found] at finishes
      exact finishes
  | mkdirP path =>
    rw [Task.begin, Task.run, mkdirP]
    split
    · exact .fail _ _
    split
    · exact .done none _
    refine .turn ?_
    rw [Point.step]
    -- the elaborator would otherwise take the path apart
    generalize components path = comps
    split
    · exact mkdirPath_alone fs fs.rootInode comps
    · exact .fail _ _
  | unlink path =>
    have finishes := begin_alone (.remove .unlink) (unlink_alone fs) path
    rw [Task.begin, Task.run, unlink]
    cases found : fs.locate path with
    | error e =>
      rw [found] at finishes
      exact finishes
    | ok located =>
      rw [found] at finishes
      exact finishes
  | rmdir path =>
    have finishes := begin_alone (.remove .rmdir) (rmdir_alone fs) path
    rw [Task.begin, Task.run, rmdir]
    cases found : fs.locate path with
    | error e =>
      rw [found] at finishes
      exact finishes
    | ok located =>
      rw [found] at finishes
      exact finishes
  | rename oldPath newPath =>
    rw [Task.begin, Task.run, rename]
    split
    · exact .fail _ _
    cases (components oldPath).getLast? with
    | none => exact .fail _ _
    | some oldName =>
    cases (components newPath).getLast? with
    | none => exact .fail _ _
    | some newName =>
    dsimp only
    split
    · exact .done none _
    by_cases rooted : (fs.inodeTable.lookup fs.rootInode).isSome
    · have finishes := root_alone (.renameFrom newName (components newPath).dropLast)
        (fun d => renameFrom_alone rooted d oldName newName (components newPath)) (components oldPath)
      cases found : fs.findParent (components oldPath) with
      | error e =>
        rw [found] at finishes
        exact finishes
      | ok oldParent =>
        rw [found] at finishes
        exact finishes
    · refine .turn ?_
      rw [findParent, if_neg rooted, Point.step, if_neg rooted]
      exact .fail _ _

end MonakaFs.FsCore
