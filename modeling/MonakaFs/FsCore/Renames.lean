import MonakaFs.FsCore.Calls

/-! When a rename succeeds, and what it moves.

The checks are made one by one on the way: the source and both directories have to
be there, and what is replaced has to be of the same kind and, if it is a directory,
empty. Whether the destination is below the source is not looked at.
-/

set_option autoImplicit false

namespace MonakaFs.FsCore.Fs

variable {T : Type} [TimeProvider T] {fs : Fs T} {id : InodeId}

/-- What a rename that succeeds found. -/
structure Renames (fs : Fs T) (oldPath newPath : String) (d : InodeId) (name : String) (e : InodeId) (newName : String)
    (v : InodeId) : Prop where
  different : components oldPath ≠ components newPath
  source : ∃ front, components oldPath = front ++ [name] ∧ fs.links.walk fs.rootInode front = some d
  named : fs.links d name = some v
  target : ∃ back, components newPath = back ++ [newName] ∧ fs.links.walk fs.rootInode back = some e
  dir : fs.kind e = some true
  replaceable : ∀ w, fs.links e newName = some w → fs.kind v = fs.kind w ∧ ∀ m, fs.links w m = none

section
omit [TimeProvider T]

theorem isDir_iff (sane : Sane fs) : fs.isDir id = true ↔ fs.kind id = some true := by
  rw [isDir, kind]
  cases stored : fs.inodeTable.lookup id with
  | none => simp
  | some inode => simp [sane.typed id inode stored]

theorem replaceError_none {source dest : InodeId} (sane : Sane fs) (there : (fs.kind source).isSome)
    (there' : (fs.kind dest).isSome) :
    fs.replaceError source dest = none ↔ fs.kind source = fs.kind dest ∧ ∀ m, fs.links dest m = none := by
  obtain ⟨sourceDir, kind⟩ := Option.isSome_iff_exists.mp there
  obtain ⟨destDir, kind'⟩ := Option.isSome_iff_exists.mp there'
  have flag : fs.isDir source = sourceDir := by rw [Bool.eq_iff_iff, isDir_iff sane, kind, Option.some.injEq]
  have flag' : fs.isDir dest = destDir := by rw [Bool.eq_iff_iff, isDir_iff sane, kind', Option.some.injEq]
  have leaf : (∀ m, fs.links dest m = none) ↔ (fs.entries dest).any (·.keys ≠ []) = false := by
    cases inside : fs.entries dest with
    | none => simp [links, inside]
    | some entries =>
      simp only [links_of_entries inside, Option.any_some, decide_eq_false_iff_not, not_not]
      exact Table.keys_eq_nil.symm
  rw [replaceError, flag, flag', kind, kind', leaf]
  have files : destDir = false → (fs.entries dest).any (·.keys ≠ []) = false := by
    rintro rfl
    refine leaf.mp fun m => links_none (by rw [kind']; decide) m
  cases sourceDir <;> cases destDir <;> simp_all

end

theorem rename_effect (oldPath newPath : String) (sane : Sane fs) :
    (∃ d name e newName v, Renames fs oldPath newPath d name e newName v ∧
      Moved d name e newName v fs (fs.rename oldPath newPath).2) ∨
      ((∀ d name e newName v, ¬ Renames fs oldPath newPath d name e newName v) ∧ Same fs (fs.rename oldPath newPath).2 ∧
        (fs.rename oldPath newPath).2.holder = fs.holder) := by
  have refused (answer : Except FsError Unit) (no : ∀ d name e newName v, ¬ Renames fs oldPath newPath d name e newName v) :
      (∃ d name e newName v, Renames fs oldPath newPath d name e newName v ∧ Moved d name e newName v fs (answer, fs).2) ∨
        ((∀ d name e newName v, ¬ Renames fs oldPath newPath d name e newName v) ∧ Same fs (answer, fs).2 ∧
          (answer, fs).2.holder = fs.holder) := .inr ⟨no, .refl fs, rfl⟩
  unfold rename
  -- The checks in the order of the source. Each that refuses excludes all renames.
  split
  · next empty =>
    refine refused _ fun d name e newName v renames => ?_
    obtain ⟨front, split, -⟩ := renames.source
    obtain ⟨back, split', -⟩ := renames.target
    rcases empty with rfl | rfl
    · simp [components_empty] at split
    · simp [components_empty] at split'
  split
  · next oldName newName lastOld lastNew =>
    obtain ⟨front, split⟩ := List.getLast?_eq_some_iff.mp lastOld
    obtain ⟨back, split'⟩ := List.getLast?_eq_some_iff.mp lastNew
    split
    -- The same path twice.
    · next same => exact refused _ fun d name e newName v renames => renames.different same
    -- What is renamed is determined by the last names, and the walks to their directories.
    next different =>
    have source {d : InodeId} {name : String} (there : ∃ front, components oldPath = front ++ [name] ∧
        fs.links.walk fs.rootInode front = some d) : name = oldName ∧ fs.links.walk fs.rootInode front = some d := by
      obtain ⟨front', split'', walked⟩ := there
      obtain ⟨rfl, tail⟩ := List.append_inj' (split''.symm.trans split) rfl
      cases tail
      exact ⟨rfl, walked⟩
    have target {e : InodeId} {name : String} (there : ∃ back, components newPath = back ++ [name] ∧
        fs.links.walk fs.rootInode back = some e) : name = newName ∧ fs.links.walk fs.rootInode back = some e := by
      obtain ⟨back', split'', walked⟩ := there
      obtain ⟨rfl, tail⟩ := List.append_inj' (split''.symm.trans split') rfl
      cases tail
      exact ⟨rfl, walked⟩
    cases parent : fs.findParent (components oldPath) with
    | error err =>
      refine refused _ fun d name e newName v renames => ?_
      obtain ⟨-, walked⟩ := source renames.source
      rw [(findParent_ok sane).mpr ⟨by rw [split, List.dropLast_concat]; exact walked, kind_of_links renames.named⟩] at parent
      cases parent
    | ok d =>
    obtain ⟨walked, dir⟩ := (findParent_ok sane).mp parent
    rw [split, List.dropLast_concat] at walked
    dsimp only
    cases found : fs.findInode d oldName with
    | error err =>
      obtain ⟨-, free⟩ := findInode_error found dir (sane.named d oldName)
      refine refused _ fun d' name e newName v renames => ?_
      obtain ⟨rfl, walked'⟩ := source renames.source
      cases walked.symm.trans walked'
      rw [renames.named] at free
      cases free
    | ok v =>
    obtain ⟨named, there⟩ := findInode_ok.mp found
    dsimp only
    cases parent' : fs.findParent (components newPath) with
    | error err =>
      refine refused _ fun d' name e newName v renames => ?_
      obtain ⟨-, walked'⟩ := target renames.target
      rw [(findParent_ok sane).mpr ⟨by rw [split', List.dropLast_concat]; exact walked', renames.dir⟩] at parent'
      cases parent'
    | ok e =>
    obtain ⟨walked', dir'⟩ := (findParent_ok sane).mp parent'
    rw [split', List.dropLast_concat] at walked'
    dsimp only
    have moves (replaceable : ∀ w, fs.links e newName = some w → fs.kind v = fs.kind w ∧ ∀ m, fs.links w m = none) :
        Renames fs oldPath newPath d oldName e newName v ∧ Moved d oldName e newName v fs (fs.moveEntry d oldName e newName).2 :=
      ⟨⟨different, ⟨front, split, walked⟩, named, ⟨back, split', walked'⟩, dir', replaceable⟩,
        moveEntry_effect named dir' fun w there => (replaceable w there).2⟩
    cases link : fs.links e newName with
    | none =>
      have missing : (fs.findInode e newName).toOption = none := by
        cases found : fs.findInode e newName with
        | error e => rfl
        | ok w => rw [(findInode_ok.mp found).1] at link; cases link
      rw [missing]
      exact .inl ⟨d, oldName, e, newName, v, moves fun w there => (by rw [link] at there; cases there)⟩
    | some w =>
      have there' := sane.named e newName w link
      rw [findInode_ok.mpr ⟨link, there'⟩]
      simp only [Except.toOption, Option.bind_some]
      cases blocked : fs.replaceError v w with
      -- What has the new name is of another kind, or is not empty.
      | some err =>
        refine refused _ fun d' name e' newName' v' renames => ?_
        obtain ⟨rfl, walked''⟩ := source renames.source
        cases walked.symm.trans walked''
        obtain ⟨rfl, walked''⟩ := target renames.target
        cases walked'.symm.trans walked''
        cases named.symm.trans renames.named
        rw [(replaceError_none sane there there').mpr (renames.replaceable w link)] at blocked
        cases blocked
      | none =>
        have replaceable := (replaceError_none sane there there').mp blocked
        exact .inl ⟨d, oldName, e, newName, v, moves fun w' same => (by rw [link] at same; cases same; exact replaceable)⟩
  -- A path without a last name.
  · next none =>
    refine refused _ fun d name e newName v renames => ?_
    obtain ⟨front, split, -⟩ := renames.source
    obtain ⟨back, split', -⟩ := renames.target
    refine none name newName ?_ ?_
    · rw [split, List.getLast?_concat]
    · rw [split', List.getLast?_concat]

/-! ### Where a rename leads -/

namespace Renames

variable {oldPath newPath : String} {d e v : InodeId} {name newName : String}
  (renames : Renames fs oldPath newPath d name e newName v)
include renames
omit [TimeProvider T]

theorem live : fs.links.Below fs.rootInode e := by
  obtain ⟨back, -, walked⟩ := renames.target
  exact .of_walk walked

theorem reached : fs.links.Below fs.rootInode v := by
  obtain ⟨front, -, walked⟩ := renames.source
  exact (Links.Below.of_walk walked).tail ⟨name, renames.named⟩

/-- The destination is another entry, since it has another path. -/
theorem elsewhere (sane : Sane fs) : ¬ (e = d ∧ newName = name) := by
  rintro ⟨rfl, rfl⟩
  obtain ⟨front, split, walked⟩ := renames.source
  obtain ⟨back, split', walked'⟩ := renames.target
  refine renames.different ?_
  rw [split, split', sane.forest.walk_unique walked walked']

/-- Whether the destination is below the source can be read off the paths. -/
theorem inside_iff (sane : Sane fs) : fs.links.Below v e ↔ components oldPath <+: (components newPath).dropLast := by
  obtain ⟨front, split, walked⟩ := renames.source
  obtain ⟨back, split', walked'⟩ := renames.target
  have found : fs.links.walk fs.rootInode (components oldPath) = some v := by
    rw [split, Links.walk_concat, walked]
    exact renames.named
  rw [sane.forest.below_iff_prefix found walked', split', List.dropLast_concat]

/-- The paths of a rename lead to one source and one destination. -/
theorem unique {d' e' v' : InodeId} {name' newName' : String} (again : Renames fs oldPath newPath d' name' e' newName' v') :
    e' = e ∧ newName' = newName ∧ v' = v := by
  obtain ⟨front, split, walked⟩ := renames.source
  obtain ⟨front', split', walked'⟩ := again.source
  obtain ⟨back, onto, walk⟩ := renames.target
  obtain ⟨back', onto', walk'⟩ := again.target
  obtain ⟨rfl, tail⟩ := List.append_inj' (split.symm.trans split') rfl
  obtain ⟨rfl, tail'⟩ := List.append_inj' (onto.symm.trans onto') rfl
  cases tail
  cases tail'
  cases walked.symm.trans walked'
  cases walk.symm.trans walk'
  cases renames.named.symm.trans again.named
  exact ⟨rfl, rfl, rfl⟩

end Renames

end MonakaFs.FsCore.Fs
