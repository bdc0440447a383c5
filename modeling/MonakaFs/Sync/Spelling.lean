import MonakaFs.FsCore.Paths
import MonakaFs.Sync.ObjectStore

/-! Which spellings of a path share their keys.

The filesystem drops every empty component of a path. A key drops the slashes
at its front only, and a marker key those at both ends.
-/

set_option autoImplicit false

namespace MonakaFs.Sync

open FsCore

/-- A key tells two paths apart exactly if the filesystem does. -/
def Agrees (key : String → String) (path other : String) : Prop :=
  components path = components other ↔ key path = key other

theorem trimmed_of_fileKey {path other : String} (same : fileKey path = fileKey other) :
    Text.trimStartMatches '/' path = Text.trimStartMatches '/' other := by
  have chars := congrArg String.toList same
  simp only [fileKey, String.toList_append] at chars
  exact String.toList_injective (List.append_cancel_left chars)

theorem trimmed_of_lockKey {path other : String} (same : lockKey path = lockKey other) :
    Text.trimStartMatches '/' path = Text.trimStartMatches '/' other := by
  have chars := congrArg String.toList same
  simp only [lockKey, String.toList_append] at chars
  exact String.toList_injective (List.append_cancel_left chars)

theorem trimmed_of_dirMarkerKey {path other : String} (same : dirMarkerKey path = dirMarkerKey other) :
    Text.trimStartMatches '/' (Text.trimEndMatches '/' path) = Text.trimStartMatches '/' (Text.trimEndMatches '/' other) := by
  have chars := congrArg String.toList same
  simp only [dirMarkerKey, String.toList_append] at chars
  exact trimmed_of_fileKey (String.toList_injective (List.append_cancel_right chars))

theorem components_of_trimmed {path other : String}
    (same : Text.trimStartMatches '/' path = Text.trimStartMatches '/' other) : components path = components other := by
  rw [components, components, same]

/-- Behind the same leading part, the same slashes are dropped at the end. -/
theorem dirMarkerKey_of_trimmed {path other : String}
    (same : Text.trimStartMatches '/' path = Text.trimStartMatches '/' other) : dirMarkerKey path = dirMarkerKey other := by
  have chars : path.toList.dropWhile (· == '/') = other.toList.dropWhile (· == '/') := by
    simpa [Text.trimStartMatches] using congrArg String.toList same
  have trimmed : Text.trimStartMatches '/' (Text.trimEndMatches '/' path) =
      Text.trimStartMatches '/' (Text.trimEndMatches '/' other) := by
    simp only [Text.trimStartMatches, Text.trimEndMatches, String.toList_ofList, dropSlashes_rdropSlashes, chars]
  rw [dirMarkerKey, dirMarkerKey, fileKey, fileKey, trimmed]

/-- File, lock and marker keys agree with the filesystem on two paths exactly if the
paths name different files, or have their empty components behind the leading slashes
at the same places. -/
theorem keys_agree (path other : String) :
    (Agrees fileKey path other ∧ Agrees lockKey path other ∧ Agrees dirMarkerKey path other) ↔
      (components path = components other → emptyComponents path = emptyComponents other) := by
  constructor
  · rintro ⟨file, -, -⟩ named
    rw [emptyComponents, emptyComponents, trimmed_of_fileKey (file.mp named)]
  · intro spelled
    have trimmed (named : components path = components other) :
        Text.trimStartMatches '/' path = Text.trimStartMatches '/' other := trimmed_of_components named (spelled named)
    refine ⟨⟨fun named => ?_, fun same => components_of_trimmed (trimmed_of_fileKey same)⟩,
      ⟨fun named => ?_, fun same => components_of_trimmed (trimmed_of_lockKey same)⟩,
      ⟨fun named => dirMarkerKey_of_trimmed (trimmed named), fun same => ?_⟩⟩
    · rw [fileKey, fileKey, trimmed named]
    · rw [lockKey, lockKey, trimmed named]
    · rw [← components_trimEnd path, ← components_trimEnd other]
      exact components_of_trimmed (trimmed_of_dirMarkerKey same)

/-- One file under two keys: the doubled slash stays in the key. -/
theorem doubled_slash_disagrees :
    components "/a//b" ≠ [] ∧ components "/a/b" ≠ [] ∧ components "/a//b" = components "/a/b" ∧
      ¬ Agrees fileKey "/a//b" "/a/b" := by
  have named : components "/a//b" = components "/a/b" := by decide
  have different : fileKey "/a//b" ≠ fileKey "/a/b" := by decide
  exact ⟨by decide, by decide, named, fun agrees => different (agrees.mp named)⟩

end MonakaFs.Sync
