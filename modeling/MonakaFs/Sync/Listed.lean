import MonakaFs.Sync.Effects

/-! From a listed key to an entry, and from the entry back to a key.

Reading a key drops all slashes at its end, writing one drops all slashes at the
front of the path. A key is written back as it was read unless one of the two
drops more than the encoding adds.
-/

set_option autoImplicit false

namespace MonakaFs.Sync

open Async

/-- The key under which the manager keeps a listed entry. -/
def S3ObjectInfo.key (info : S3ObjectInfo) : String :=
  if info.isDir then dirMarkerKey info.path else fileKey info.path

/-- A request about one object. -/
def Concerns {F : Type} (key : String) : Op F → Prop
  | .request (.head asked) | .request (.get asked) | .request (.put asked _ _) | .request (.delete asked _) => asked = key
  | _ => False

/-- The manager downloads, compares, replaces and deletes an entry under this key. -/
def Served (F : Type) (key : String) (info : S3ObjectInfo) : Prop :=
  if info.isDir then
    (headDirMarker (F := F) info.path).Only (Concerns key) ∧ (putDirMarker (F := F) info.path).Only (Concerns key) ∧
      ∀ cond, (deleteDirMarker (F := F) info.path cond).Only (Concerns key)
  else
    (headFile (F := F) info.path).Only (Concerns key) ∧ (getFile (F := F) info.path).Only (Concerns key) ∧
      (∀ data cond, (putFile (F := F) info.path data cond).Only (Concerns key)) ∧
      ∀ cond, (deleteFile (F := F) info.path cond).Only (Concerns key)

/-- Every listed object is kept under its own key, and no two become one entry. -/
structure RoundTrips (F : Type) (metas : List ObjectMeta) : Prop where
  own : ∀ listed ∈ metas, ∀ info, fileInfo listed = some info → info.key = listed.key ∧ Served F listed.key info
  apart : ∀ first ∈ metas, ∀ second ∈ metas, ∀ info other, fileInfo first = some info → fileInfo second = some other →
    first.key ≠ second.key → (info.path, info.isDir) ≠ (other.path, other.isDir)

/-- No slash directly behind the prefix, and at most one at the end. -/
def Plain (key : String) : Prop :=
  (key.toList.drop filesPrefix.length).head? ≠ some '/' ∧ ¬ ['/', '/'] <:+ key.toList.drop filesPrefix.length

instance (key : String) : Decidable (Plain key) := inferInstanceAs (Decidable (_ ∧ _))

section
variable {key path : String} {isDir : Bool}

/-- What a key is read as. -/
theorem pathFromFileKey_some (named : pathFromFileKey key = some (path, isDir)) :
    ∃ rest, key.toList = filesPrefix.toList ++ rest ∧ rest.rdropWhile (· == '/') ≠ [] ∧
      path.toList = '/' :: rest.rdropWhile (· == '/') ∧ isDir = (rest.getLast? == some '/') := by
  unfold pathFromFileKey at named
  split at named
  · next here =>
    obtain ⟨rest, whole⟩ := List.isPrefixOf_iff_prefix.mp here
    have tail : key.toList.drop filesPrefix.length = rest := by
      rw [← whole, show filesPrefix.length = filesPrefix.toList.length from rfl, List.drop_left]
    simp only [tail] at named
    split at named
    · cases named
    split at named
    · cases named
    · next some =>
      obtain ⟨rfl, rfl⟩ := Prod.mk.inj (Option.some.inj named)
      exact ⟨rest, whole.symm, some, by simp, rfl⟩
  · cases named

theorem fileKey_read {trimmed : List Char} (spelled : path.toList = '/' :: trimmed) :
    (fileKey path).toList = filesPrefix.toList ++ trimmed.dropWhile (· == '/') := by
  simp [fileKey, Text.trimStartMatches, spelled]

theorem dirMarkerKey_read {trimmed : List Char} (spelled : path.toList = '/' :: trimmed)
    (ended : trimmed.rdropWhile (· == '/') = trimmed) (named : trimmed ≠ []) :
    (dirMarkerKey path).toList = filesPrefix.toList ++ trimmed.dropWhile (· == '/') ++ ['/'] := by
  have kept : ('/' :: trimmed).rdropWhile (· == '/') = '/' :: trimmed := by
    rw [List.rdropWhile_eq_self_iff] at ended ⊢
    intro nonempty
    rw [List.getLast_cons named]
    exact ended named
  have front : (Text.trimEndMatches '/' path).toList = '/' :: trimmed := by
    rw [Text.trimEndMatches, String.toList_ofList, spelled, kept]
  simp [dirMarkerKey, fileKey_read front]

theorem dropWhile_slash {text : List Char} : text.dropWhile (· == '/') = text ↔ text.head? ≠ some '/' := by
  cases text with
  | nil => simp
  | cons c rest =>
    by_cases slash : c = '/'
    · subst slash
      simp only [List.dropWhile_cons, beq_self_eq_true, if_true, List.head?_cons, ne_eq, not_true_eq_false, iff_false]
      intro same
      have shorter := (List.dropWhile_sublist (· == '/') (l := rest)).length_le
      rw [same, List.length_cons] at shorter
      omega
    · simp [slash]

theorem plain_append {rest : List Char} (whole : key.toList = filesPrefix.toList ++ rest) :
    Plain key ↔ rest.head? ≠ some '/' ∧ ¬ ['/', '/'] <:+ rest := by
  rw [Plain, whole, show filesPrefix.length = filesPrefix.toList.length from rfl, List.drop_left]

/-- A name with slashes behind it is kept if it does not begin with a slash and at most one is behind it. -/
theorem written_back {name : List Char} (count : Nat) (nonempty : name ≠ []) (ended : name.getLast? ≠ some '/') :
    name.dropWhile (· == '/') ++ (if (name ++ List.replicate count '/').getLast? == some '/' then ['/'] else []) =
        name ++ List.replicate count '/' ↔
      (name ++ List.replicate count '/').head? ≠ some '/' ∧ ¬ ['/', '/'] <:+ name ++ List.replicate count '/' := by
  rw [List.head?_append_of_ne_nil name nonempty, ← dropWhile_slash]
  have single : ¬ ['/'] <:+ name := fun slash => ended (by
    obtain ⟨front, rfl⟩ := slash
    exact List.getLast?_concat)
  rcases count with _ | _ | count
  · have unslashed : ¬ ['/', '/'] <:+ name := fun slash => single ((List.suffix_cons '/' ['/']).trans slash)
    simp [ended, unslashed]
  · have unslashed : ¬ ['/', '/'] <:+ name ++ ['/'] := fun slash => by
      obtain ⟨front, same⟩ := slash
      rw [List.append_cons] at same
      exact single ⟨front, List.append_cancel_right same⟩
    simp [unslashed]
  · have slashed : ['/', '/'] <:+ name ++ List.replicate (count + 2) '/' :=
      ⟨name ++ List.replicate count '/', by
        rw [List.append_assoc, List.replicate_add]
        rfl⟩
    refine ⟨fun same => ?_, fun plain => absurd slashed plain.2⟩
    have shorter := (List.dropWhile_sublist (· == '/') (l := name)).length_le
    have lengths := congrArg List.length same
    simp only [List.length_append, List.length_replicate] at lengths
    split at lengths
    · simp only [List.length_singleton] at lengths
      omega
    · simp only [List.length_nil] at lengths
      omega

theorem key_read {info : S3ObjectInfo} (named : pathFromFileKey key = some (info.path, info.isDir)) :
    info.key = key ↔ Plain key := by
  obtain ⟨rest, whole, nonempty, spelled, dir⟩ := pathFromFileKey_some named
  have slashes : rest.rtakeWhile (· == '/') = List.replicate (rest.rtakeWhile (· == '/')).length '/' :=
    List.eq_replicate_iff.mpr ⟨rfl, fun c member => by simpa using List.mem_rtakeWhile_imp member⟩
  have parts : rest = rest.rdropWhile (· == '/') ++ List.replicate (rest.rtakeWhile (· == '/')).length '/' := by
    rw [← slashes, List.rdropWhile_append_rtakeWhile]
  have last : (rest.rdropWhile (· == '/')).getLast? ≠ some '/' := by
    rw [List.getLast?_eq_getLast_of_ne_nil nonempty]
    simpa using List.rdropWhile_last_not (· == '/') rest nonempty
  have ended : (rest.rdropWhile (· == '/')).rdropWhile (· == '/') = rest.rdropWhile (· == '/') := List.rdropWhile_idempotent ..
  generalize rest.rdropWhile (· == '/') = name at *
  generalize (rest.rtakeWhile (· == '/')).length = count at *
  subst parts
  rw [plain_append whole, ← written_back count nonempty last, ← String.toList_inj, whole, S3ObjectInfo.key, dir]
  split
  · rw [dirMarkerKey_read spelled ended nonempty, List.append_assoc, List.append_cancel_left_eq]
  · rw [fileKey_read spelled, List.append_nil, List.append_cancel_left_eq]

theorem fileInfo_some {listed : ObjectMeta} {info : S3ObjectInfo} (named : fileInfo listed = some info) :
    pathFromFileKey listed.key = some (info.path, info.isDir) := by
  obtain ⟨shown, read, rfl⟩ := Option.map_eq_some_iff.mp named
  exact read

/-- Requests about an entry are requests about its key. -/
theorem served_own (F : Type) (info : S3ObjectInfo) : Served F info.key info := by
  unfold Served S3ObjectInfo.key
  split
  · refine ⟨⟨rfl, fun _ => trivial⟩, ⟨rfl, fun reply => ?_⟩, fun _ => ⟨rfl, fun _ => trivial⟩⟩
    rcases (reply : Except S3Error String) with e | etag
    · simp only [Prog.bind]
      split <;> trivial
    · trivial
  · exact ⟨⟨rfl, fun _ => trivial⟩, ⟨rfl, fun _ => trivial⟩, fun _ _ => ⟨rfl, fun _ => trivial⟩, fun _ => ⟨rfl, fun _ => trivial⟩⟩

/-- A listing can be read and written back exactly if no key that names an entry has a
slash directly behind the prefix or more than one at its end. -/
theorem listing_round_trips (F : Type) (metas : List ObjectMeta) :
    RoundTrips F metas ↔ ∀ listed ∈ metas, pathFromFileKey listed.key ≠ none → Plain listed.key := by
  constructor
  · intro trips listed member named
    obtain ⟨⟨path, isDir⟩, read⟩ := Option.ne_none_iff_exists'.mp named
    have entry : fileInfo listed = some ⟨path, listed.etag, listed.lastModified, listed.size, isDir⟩ := by
      simp only [fileInfo, read, Option.map_some]
    exact (key_read read).mp (trips.own listed member _ entry).1
  · intro plain
    have own (listed : ObjectMeta) (member : listed ∈ metas) (info : S3ObjectInfo) (named : fileInfo listed = some info) :
        info.key = listed.key :=
      (key_read (fileInfo_some named)).mpr (plain listed member (by simp [fileInfo_some named]))
    refine ⟨fun listed member info named => ?_, fun first member second member' info other named named' different same => ?_⟩
    · have kept := own listed member info named
      exact ⟨kept, kept ▸ served_own F info⟩
    · obtain ⟨paths, kinds⟩ := Prod.mk.inj same
      have keys : info.key = other.key := by rw [S3ObjectInfo.key, S3ObjectInfo.key, paths, kinds]
      exact different ((own first member info named).symm.trans (keys.trans (own second member' other named')))

/-- A slash behind the prefix gets lost, and two markers become one directory. -/
theorem slashes_lost : ¬ RoundTrips Unit [⟨"files//a", "1", 0, 1⟩] ∧ ¬ RoundTrips Unit [⟨"files/a/", "1", 0, 0⟩, ⟨"files/a//", "1", 0, 0⟩] ∧
    fileInfo ⟨"files/a/", "1", 0, 0⟩ = fileInfo ⟨"files/a//", "1", 0, 0⟩ ∧
    (fileInfo ⟨"files//a", "1", 0, 1⟩).map (·.key) = some "files/a" := by
  have merged : fileInfo ⟨"files/a/", "1", 0, 0⟩ = fileInfo ⟨"files/a//", "1", 0, 0⟩ := by decide
  have lost : (fileInfo ⟨"files//a", "1", 0, 1⟩).map (·.key) = some "files/a" := by decide
  refine ⟨fun trips => ?_, fun trips => ?_, merged, lost⟩
  · obtain ⟨info, named, moved⟩ := Option.map_eq_some_iff.mp lost
    have kept := (trips.own _ (List.mem_cons_self ..) info named).1
    rw [moved] at kept
    exact absurd kept (by decide)
  · have named : fileInfo ⟨"files/a/", "1", 0, 0⟩ = some ⟨"/a", "1", 0, 0, true⟩ := by decide
    exact trips.apart _ (List.mem_cons_self ..) _ (List.mem_cons_of_mem _ (List.mem_cons_self ..)) _ _ named (merged ▸ named)
      (by decide) rfl

end
end MonakaFs.Sync
