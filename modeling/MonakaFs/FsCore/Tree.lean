import MonakaFs.FsCore.Runs

/-! When the filesystem stays a tree.

Two calls do not look at where they put an entry: an open below a descriptor creates
a file also in a directory that was removed, and a rename moves a directory also
below itself. In every run without these the directories and files are a tree, and
the first one of them leaves none.
-/

set_option autoImplicit false

namespace MonakaFs.FsCore

open Fs

section
variable {T : Type} [TimeProvider T] {fs later : Fs T} {d e v : InodeId} {name newName : String} {flags : Nat}

/-- Entries name inodes, and what has an entry is reached from the root in one way. -/
structure IsTree (fs : Fs T) : Prop where
  named : ∀ d n v, fs.links d n = some v → (fs.kind v).isSome
  tree : fs.links.Tree fs.rootInode

/-- The call puts no entry where the root does not reach. -/
def Careful : Call → Fs T → Prop
  | .openAt dirFd path flags, fs =>
      ∀ dir name, fs.holder dirFd = some dir → fs.kind dir = some true → Relative path → relativeComponents path = [name] →
        flags &&& O_CREAT ≠ 0 → fs.links.Below fs.rootInode dir
  | .rename oldPath newPath, fs =>
      ∀ d name e newName v, Renames fs oldPath newPath d name e newName v →
        ¬ components oldPath <+: (components newPath).dropLast
  | _, _ => True

/-! ### Each effect -/

section
omit [TimeProvider T]

theorem isTree_of_same (same : Same fs later) : IsTree later ↔ IsTree fs := by
  constructor
  · rintro ⟨named, tree⟩
    rw [same.links, same.kind] at named
    rw [same.links, same.root] at tree
    exact ⟨named, tree⟩
  · rintro ⟨named, tree⟩
    rw [← same.links, ← same.kind] at named
    rw [← same.links, ← same.root] at tree
    exact ⟨named, tree⟩

theorem isTree_of_created {dir : Bool} (sane : Sane fs) (tree : IsTree fs) (room : fs.nextInode + 1 < 2 ^ 64)
    (made : Created d name dir fs later) : IsTree later ↔ fs.links.Below fs.rootInode d := by
  constructor
  · rintro ⟨-, tree'⟩
    by_contra dead
    rw [made.links, made.root] at tree'
    exact Links.Tree.put_dead dead sane.ne_root sane.next_leaf made.free sane.unlinked tree'
  · intro live
    refine ⟨(made.sane sane room).named, ?_⟩
    rw [made.links, made.root]
    exact tree.tree.put sane.unlinked sane.ne_root sane.next_leaf made.free live

theorem isTree_of_opening (sane : Sane fs) (tree : IsTree fs) (room : fs.nextInode + 1 < 2 ^ 64)
    (opening : Opening d name flags fs later) : IsTree later ↔ (flags &&& O_CREAT ≠ 0 → fs.links.Below fs.rootInode d) := by
  cases opening with
  | refused uncreated same _ =>
    rw [isTree_of_same same]
    refine ⟨fun _ creates => ?_, fun _ => tree⟩
    cases link : fs.links d name with
    | none => exact absurd (uncreated link) creates
    | some v => exact tree.tree.live link
  | opened named same _ =>
    rw [isTree_of_same same]
    exact ⟨fun _ _ => tree.tree.live named, fun _ => tree⟩
  | left creates _ made =>
    rw [isTree_of_created sane tree room made]
    exact ⟨fun live _ => live, fun live => live creates⟩
  | created creates _ made same _ =>
    rw [isTree_of_same same, isTree_of_created sane tree room made]
    exact ⟨fun live _ => live, fun live => live creates⟩

theorem isTree_of_removed (sane : Sane fs) (tree : IsTree fs) (gone : Removed d name v fs later) : IsTree later := by
  refine ⟨(gone.sane sane).named, ?_⟩
  rw [gone.links, gone.root]
  refine tree.tree.take fun w same => ?_
  cases gone.named.symm.trans same
  exact gone.leaf

theorem isTree_of_moved (sane : Sane fs) (tree : IsTree fs) (live : fs.links.Below fs.rootInode e)
    (elsewhere : ¬ (e = d ∧ newName = name)) (moved : Moved d name e newName v fs later) :
    IsTree later ↔ ¬ fs.links.Below v e := by
  constructor
  · rintro ⟨-, tree'⟩ inside
    rw [moved.links, moved.root] at tree'
    exact Links.Forest.move_inside sane.forest moved.named inside tree'
  · intro outside
    refine ⟨(moved.sane sane).named, ?_⟩
    rw [moved.links, moved.root]
    exact tree.tree.move moved.named elsewhere moved.leaf live outside

theorem isTree_of_grown (grown : Grown fs later) (sane : Sane fs) (tree : IsTree fs) : IsTree later := by
  induction grown with
  | done => exact tree
  | more live room made _ ih => exact ih (made.sane sane room) ((isTree_of_created sane tree room made).mpr live)

end

/-! ### One call, and runs -/

theorem new_isTree (clock : T) : IsTree (withTimeProvider clock) := by
  have sane := new_sane clock
  refine ⟨sane.named, sane.forest, ?_⟩
  rintro v ⟨d, n, named⟩
  rw [Fs.links, entries_eq, withTimeProvider] at named
  dsimp only at named
  rw [Table.lookup_insert] at named
  split at named
  · cases named
  · cases named

variable [Target]

theorem perform_isTree (call : Call) (sane : Sane fs) (room : Room call fs) (tree : IsTree fs) :
    IsTree (call.perform fs) ↔ Careful call fs := by
  have unchanged {later : Fs T} {condition : Prop} (same : Same fs later) (met : condition) : IsTree later ↔ condition :=
    ⟨fun _ => met, fun _ => (isTree_of_same same).mpr tree⟩
  cases call with
  | openPathWithFlags path flags =>
    rcases openPath_effect path flags sane with ⟨d, name, live, opening⟩ | ⟨same, -⟩
    · exact ⟨fun _ => trivial, fun _ => (isTree_of_opening sane tree room opening).mpr fun _ => live⟩
    · exact unchanged same trivial
  | openAt dirFd path flags =>
    rcases openAt_effect dirFd path flags sane with
      ⟨dir, d, name, reaches, opening⟩ | ⟨refused, same, -⟩
    · obtain ⟨front, split, walked⟩ := reaches.walked
      refine (isTree_of_opening sane tree room opening).trans ⟨fun live dir' name' held _ _ single creates => ?_, fun careful creates => ?_⟩
      · -- a single component is looked up in the directory of the descriptor
        cases reaches.held.symm.trans held
        obtain ⟨rfl, -⟩ := List.append_inj' (split.symm.trans (single.trans (List.nil_append [name']).symm)) rfl
        cases walked
        exact live creates
      · cases front with
        | nil =>
          cases walked
          exact careful dir name reaches.held reaches.start reaches.relative split creates
        -- A longer path goes through an entry, so that it ends at something live.
        | cons comp comps =>
          obtain ⟨next, named, -⟩ := Option.bind_eq_some_iff.mp walked
          exact (tree.tree.live named).trans (Links.Below.of_walk walked)
    · exact unchanged same fun dir name held start relative single _ =>
        absurd ⟨relative, held, start, ⟨[], single, rfl⟩, start⟩ (refused dir dir name)
  | write fd buf => exact unchanged (writeThrough_effect fs fd _ _ buf).1 trivial
  | writeAt fd offset buf => exact unchanged (writeThrough_effect fs fd _ _ buf).1 trivial
  | appendWrite fd buf => exact unchanged (writeThrough_effect fs fd _ _ buf).1 trivial
  | read fd wanted => exact unchanged (readThrough_effect fs fd _ wanted).1 trivial
  | readAt fd offset wanted => exact unchanged (readThrough_effect fs fd _ wanted).1 trivial
  | ftruncate fd size => exact unchanged (ftruncate_effect fs fd size).1 trivial
  | seek fd offset whence => exact unchanged (seek_effect fs fd offset whence).1 trivial
  | close fd => exact unchanged (close_effect fs fd).1 trivial
  | mkdir path =>
    rcases mkdir_effect path sane with ⟨d, name, live, made⟩ | ⟨same, -⟩
    · exact ⟨fun _ => trivial, fun _ => (isTree_of_created sane tree room made).mpr live⟩
    · exact unchanged same trivial
  | mkdirP path => exact ⟨fun _ => trivial, fun _ => isTree_of_grown (mkdirP_effect path sane room) sane tree⟩
  | unlink path =>
    rcases unlink_effect path sane with ⟨d, name, v, -, -, gone⟩ | ⟨-, same, -⟩
    · exact ⟨fun _ => trivial, fun _ => isTree_of_removed sane tree gone⟩
    · exact unchanged same trivial
  | rmdir path =>
    rcases rmdir_effect path sane with ⟨d, name, v, -, -, gone⟩ | ⟨-, same, -⟩
    · exact ⟨fun _ => trivial, fun _ => isTree_of_removed sane tree gone⟩
    · exact unchanged same trivial
  | rename oldPath newPath =>
    rcases rename_effect oldPath newPath sane with
      ⟨d, name, e, newName, v, renames, moved⟩ | ⟨refused, same, -⟩
    · refine (isTree_of_moved sane tree renames.live (renames.elsewhere sane) moved).trans ?_
      rw [renames.inside_iff sane]
      exact ⟨fun outside _ _ _ _ _ _ => outside, fun careful => careful d name e newName v renames⟩
    · exact unchanged same fun d name e newName v renames => absurd renames (refused d name e newName v)

theorem always_tree_iff {calls : List Call} (clock : T) (room : Along Room calls (withTimeProvider clock)) :
    (∀ front, front <+: calls → IsTree (after front (withTimeProvider clock))) ↔ Along Careful calls (withTimeProvider clock) :=
  always_iff (fun call _ room sane => perform_sane call sane room) (fun call _ => perform_isTree call) (new_sane clock)
    (new_isTree clock) room

end

/-- A directory that is renamed below itself. -/
def swallowed : List Call := [.mkdir "/a", .rename "/a" "/a/b"]

theorem swallowed_links [Target] : (after swallowed Fs.new).links 1 "b" = some 1 ∧
    ((after swallowed Fs.new).entries 0).map (·.entries) = some [] := by
  constructor <;> rfl

/-- The root lost its only entry, and the directory has one for itself. -/
theorem swallowed_no_tree : ¬ IsTree (@after _ _ .wasm32 swallowed Fs.new) := by
  let _ : Target := .wasm32
  rintro ⟨-, tree⟩
  obtain ⟨named, empty⟩ := swallowed_links
  rcases Relation.ReflTransGen.cases_head (tree.live named) with same | ⟨next, ⟨name, link⟩, -⟩
  · cases same
  · obtain ⟨entries, found, none⟩ := Option.map_eq_some_iff.mp empty
    have nothing : (after swallowed Fs.new).links 0 name = .none := by
      rw [links_of_entries found, AList.lookup, none]
      rfl
    cases nothing.symm.trans link

theorem always_tree_swallowed : (∀ front, front <+: swallowed → IsTree (@after _ _ .wasm32 front Fs.new)) ↔
    @Along _ _ .wasm32 Careful swallowed Fs.new :=
  @always_tree_iff MonotonicCounter _ .wasm32 swallowed .new ⟨by decide, by decide, trivial⟩

end MonakaFs.FsCore
