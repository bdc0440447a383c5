import MonakaFs.FsCore.WholeFiles

/-! The directories of a filesystem, by the components of their paths.

Whatever lies on the way to something is a directory. Making the directories of a path
adds the ones on its way and no others.
-/

set_option autoImplicit false

namespace MonakaFs.FsCore.Fs

section
variable {T : Type} {fs : Fs T} {comps : List String}

theorem occupied_root (sane : Sane fs) : fs.Occupied [] := ⟨fs.rootInode, rfl, sane.root⟩

theorem occupied_above {front rest : List String} {v : InodeId} (walked : fs.links.walk fs.rootInode (front ++ rest) = some v)
    (further : rest ≠ []) : fs.Occupied front := by
  obtain ⟨name, rest, rfl⟩ := List.exists_cons_of_ne_nil further
  rw [Links.walk_append] at walked
  obtain ⟨d, reached, onward⟩ := Option.bind_eq_some_iff.mp walked
  refine ⟨d, reached, ?_⟩
  by_contra other
  rw [Links.walk, links_none other] at onward
  cases onward

/-- What blocks a path is a file on it. -/
theorem blocked_iff : fs.Blocked fs.rootInode comps ↔ ∃ front, front <+: comps ∧ fs.files front ≠ none := by
  refine exists_congr fun front => and_congr_right fun _ => ?_
  constructor
  · rintro ⟨v, walked, file⟩
    obtain ⟨stored, found⟩ := kind_node.mp file
    rw [files_walked walked, found]
    exact Option.some_ne_none _
  · intro there
    obtain ⟨data, held⟩ := Option.ne_none_iff_exists'.mp there
    obtain ⟨v, walked, file⟩ := Option.bind_eq_some_iff.mp held
    refine ⟨v, walked, kind_node.mpr ?_⟩
    cases found : fs.node v with
    | none => rw [found] at file; cases file
    | some node =>
      cases node with
      | none => rw [found] at file; cases file
      | some stored => exact ⟨stored, rfl⟩

end

section
variable {T : Type} [TimeProvider T] {fs : Fs T}

/-- An open takes one inode number at most. -/
theorem openPath_next (path : String) (flags : Nat) (sane : Sane fs) : (fs.openPathWithFlags path flags).2.nextInode ≤ fs.nextInode + 1 := by
  have created {d : InodeId} {name : String} {later : Fs T} (made : Created d name false fs later) : later.nextInode ≤ fs.nextInode + 1 := by
    rw [made.next]
    exact Nat.mod_le _ _
  rcases openPath_effect path flags sane with ⟨d, name, -, opening⟩ | ⟨same, -⟩
  · cases opening with
    | refused _ same _ => exact same.next ▸ Nat.le_succ _
    | opened _ same _ => exact same.next ▸ Nat.le_succ _
    | left _ _ made => exact created made
    | created _ _ made same _ => exact same.next ▸ created made
  · exact same.next ▸ Nat.le_succ _

/-- Directories appear on the way only, if at all. -/
theorem mkdirP_adds {path : String} {names : List String} (sane : Sane fs) (room : fs.nextInode + (components path).length < 2 ^ 64)
    (there : (fs.mkdirP path).2.Occupied names) : fs.Occupied names ∨ names <+: components path := by
  by_cases blank : path = ""
  · rw [mkdirP, if_pos blank] at there
    exact .inl there
  have grown := mkdirP_effect path sane room
  rw [mkdirP_root sane blank] at grown there
  have others := @mkdirPath_others T _ fs fs.rootInode [] (components path) names sane sane.root rfl room
  by_cases short : names <+: components path
  · exact .inr short
  · obtain ⟨v, reached, kind⟩ := there
    rw [others short] at reached
    exact .inl ⟨v, reached, by rw [← Grown.kind_stays grown sane (walked_there sane reached)]; exact kind⟩

theorem mkdirP_occupied {path : String} (sane : Sane fs) (spelled : path ≠ "") (free : ¬ fs.Blocked fs.rootInode (components path))
    (room : fs.nextInode + (components path).length < 2 ^ 64) (names : List String) :
    (fs.mkdirP path).2.Occupied names ↔ fs.Occupied names ∨ names <+: components path := by
  refine ⟨mkdirP_adds sane room, ?_⟩
  have grown := mkdirP_effect path sane room
  rw [mkdirP_root sane spelled] at grown ⊢
  rcases mkdirPath_cases sane sane.root .refl room with ⟨blocked, -⟩ | ⟨-, later, result, v, walked, dir⟩
  · exact absurd blocked free
  rw [result] at grown ⊢
  rw [← grown.root] at walked
  rintro (⟨w, reached, kind⟩ | ⟨rest, whole⟩)
  · exact ⟨w, grown.walk reached, by rw [Grown.kind_stays grown sane (walked_there sane reached)]; exact kind⟩
  · by_cases last : rest = []
    · rw [last, List.append_nil] at whole
      exact ⟨v, by rw [whole]; exact walked, dir⟩
    · rw [← whole] at walked
      exact occupied_above walked last

end
end MonakaFs.FsCore.Fs
