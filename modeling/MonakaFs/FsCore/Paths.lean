import MonakaFs.Data.Text

/-! Paths as the filesystem reads them.

A path is split at its slashes, and empty components are dropped. Slashes may
therefore be doubled and may stand at either end without naming another file.
-/

set_option autoImplicit false

namespace MonakaFs.FsCore

/-- The components that a directory walk follows. -/
def components (path : String) : List String :=
  ((Text.trimStartMatches '/' path).toList.splitOn '/').filter (· ≠ []) |>.map String.ofList

/-- `open_at` splits a relative path as it stands. -/
def relativeComponents (path : String) : List String :=
  (path.toList.splitOn '/').filter (· ≠ []) |>.map String.ofList

/-- Where the empty components stand, behind the leading slashes. -/
def emptyComponents (path : String) : List Bool :=
  ((Text.trimStartMatches '/' path).toList.splitOn '/').map List.isEmpty

/-- The non-empty segments of a text. -/
def segments (text : List Char) : List (List Char) := (text.splitOn '/').filter (· ≠ [])

theorem segments_append (front back : List Char) : segments (front ++ '/' :: back) = segments front ++ segments back := by
  simp only [segments, List.splitOn]
  rw [List.splitOnP_append_cons front back (by decide), List.filter_append]

theorem segments_dropSlashes (text : List Char) : segments (text.dropWhile (· == '/')) = segments text := by
  induction text with
  | nil => rfl
  | cons c text ih =>
    by_cases slash : c = '/'
    · subst slash
      rw [List.dropWhile_cons_of_pos (by decide), ih]
      exact (segments_append [] text).symm
    · rw [List.dropWhile_cons_of_neg (by simpa using slash)]

theorem segments_rdropSlashes (text : List Char) : segments (text.rdropWhile (· == '/')) = segments text := by
  induction text using List.reverseRecOn with
  | nil => rfl
  | append_singleton text c ih =>
    by_cases slash : c = '/'
    · subst slash
      rw [List.rdropWhile_concat_pos _ _ _ (by decide), ih, segments_append]
      exact (List.append_nil _).symm
    · rw [List.rdropWhile_concat_neg _ _ _ (by simpa using slash)]

/-- Slashes can be dropped at both ends in either order. -/
theorem dropSlashes_rdropSlashes (text : List Char) :
    (text.rdropWhile (· == '/')).dropWhile (· == '/') = (text.dropWhile (· == '/')).rdropWhile (· == '/') := by
  induction text using List.reverseRecOn with
  | nil => rfl
  | append_singleton text c ih =>
    rw [List.dropWhile_append]
    by_cases slash : c = '/'
    · subst slash
      rw [List.rdropWhile_concat_pos _ _ _ (by decide), ih]
      split
      · next none => rw [List.isEmpty_iff.mp none]; rfl
      · rw [List.rdropWhile_concat_pos _ _ _ (by decide)]
    · rw [List.rdropWhile_concat_neg _ _ _ (by simpa using slash), List.dropWhile_append]
      split
      · next none => rw [List.dropWhile_cons_of_neg (by simpa using slash), List.rdropWhile_singleton, if_neg (by simpa using slash)]
      · rw [List.rdropWhile_concat_neg _ _ _ (by simpa using slash)]

theorem components_eq (path : String) : components path = (segments path.toList).map String.ofList := by
  rw [← segments_dropSlashes]
  simp [components, segments, Text.trimStartMatches]

theorem components_inj {path other : String} :
    components path = components other ↔ segments path.toList = segments other.toList := by
  rw [components_eq, components_eq, List.map_inj_right fun _ _ same => String.ofList_injective same]

theorem components_trimEnd (path : String) : components (Text.trimEndMatches '/' path) = components path := by
  rw [components_inj, Text.trimEndMatches, String.toList_ofList, segments_rdropSlashes]

/-- Components and the places of the empty ones are a spelling, up to leading slashes. -/
theorem trimmed_of_components {path other : String} (named : components path = components other)
    (spelled : emptyComponents path = emptyComponents other) :
    Text.trimStartMatches '/' path = Text.trimStartMatches '/' other := by
  have rebuilt {all more : List (List Char)} (kept : all.filter (· ≠ []) = more.filter (· ≠ []))
      (empty : all.map List.isEmpty = more.map List.isEmpty) : all = more := by
    induction all generalizing more with
    | nil => exact (List.map_eq_nil_iff.mp empty.symm).symm
    | cons first all ih =>
      obtain ⟨head, rest, rfl⟩ := List.exists_cons_of_ne_nil (l := more) (by rintro rfl; cases empty)
      simp only [List.map_cons, List.cons.injEq] at empty
      by_cases blank : first = []
      · subst blank
        obtain rfl : head = [] := List.isEmpty_iff.mp empty.1.symm
        rw [ih (by simpa using kept) empty.2]
      · have other : head ≠ [] := fun same => blank (List.isEmpty_iff.mp (by rw [empty.1, same]; rfl))
        simp only [List.filter_cons, ne_eq, blank, other, not_false_eq_true, decide_true, if_true, List.cons.injEq] at kept
        rw [kept.1, ih kept.2 empty.2]
  have parts : (Text.trimStartMatches '/' path).toList.splitOn '/' = (Text.trimStartMatches '/' other).toList.splitOn '/' := by
    refine rebuilt ?_ spelled
    simpa only [components, List.map_inj_right fun _ _ same => String.ofList_injective same] using named
  have texts := congrArg (List.intercalate ['/']) parts
  rw [List.intercalate_splitOn, List.intercalate_splitOn] at texts
  exact String.toList_injective texts

end MonakaFs.FsCore
