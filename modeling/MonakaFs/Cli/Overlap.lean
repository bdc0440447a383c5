import MonakaFs.Cli.Embed
import MonakaFs.FsCore.Resolving
import MonakaFs.FsCore.Sparse

/-! Mounts that overlap.

What is mapped shows up as a tree as long as no file is put over another entry and nothing
is put below a file. Then every inode has one entry, and every file is found with its
bytes. An entry that is replaced, or that a file got, leaves an inode without a name.
-/

set_option autoImplicit false

namespace MonakaFs.Cli

open FsCore

/-- Where something mapped is entered: under its name, in the directory of its path. -/
def target (path : String) : Option (List String) := (fileName path).map fun name => (components path).dropLast ++ [name]

/-- Places that the mapping of a path needs: the directories on the way, and where it is entered. -/
def Makes (path : String) (place : List String) : Prop :=
  (place ≠ [] ∧ place <+: (components path).dropLast) ∨ target path = some place

instance (path : String) (place : List String) : Decidable (Makes path place) :=
  inferInstanceAs (Decidable ((place ≠ [] ∧ place <+: (components path).dropLast) ∨ target path = some place))

/-- Two mapped things, one after the other, of which the second neither replaces an entry
of the first nor is put below a file. -/
structure Apart (earlier later : String × Option Bytes) : Prop where
  below : ∀ file place, earlier.2.isSome → target earlier.1 = some file → Makes later.1 place → file <+: place → place = file
  free : ∀ file, later.2.isSome → target later.1 = some file → ¬ Makes earlier.1 file

namespace Image

variable {image later : Image} {parent d e v current : InodeId} {name n path : String} {content : Option Bytes}
  {place other parts : List String}

/-- An image in which files have no entries, and every inode is named. -/
structure Clean (image : Image) : Prop extends Sound image where
  leaves : ∀ {v bytes} n, image.stored v = some (some bytes) → image.link v n = none
  linked : ∀ {v}, 0 < v → v < image.nextInode → Links.Linked image.link v

theorem empty_clean : empty.Clean where
  toSound := empty_sound
  leaves n _ := empty_link _ n
  linked some small := by
    exact absurd some (Nat.not_lt.mpr (Nat.lt_succ_iff.mp small))

section
variable (clean : image.Clean)
include clean

theorem add_shown (walked : Links.walk image.link 0 place = some parent) (free : image.link parent name = none) (other : List String) :
    (image.add parent name content).shown other = if other = place ++ [name] then some content else image.shown other := by
  have sound := clean.toSound
  have there := sound.walk_bounded walked
  have walks := sound.forest.walk_put walked free (fun n => sound.unused n (le_refl _)) (Nat.ne_of_gt there) other
  rw [shown, add_link sound there, walks, shown]
  split
  · rw [Option.bind_some, add_stored sound, if_pos rfl]
  · cases found : Links.walk image.link 0 other with
    | none => rfl
    | some v => rw [Option.bind_some, Option.bind_some, add_stored sound, if_neg (Nat.ne_of_lt (sound.walk_bounded found))]

theorem add_clean (dir : image.stored parent = some none) (free : image.link parent name = none) (dots : content.isSome → name ≠ ".") :
    (image.add parent name content).Clean := by
  have there : parent < image.nextInode := clean.stored_some.mp (by rw [dir]; rfl)
  have links := add_link clean.toSound there name content
  refine ⟨add_sound clean.toSound there dots, fun {v bytes} n file => ?_, fun {v} positive within => ?_⟩
  · rw [add_stored clean.toSound] at file
    rw [links]
    split at file
    · next new =>
      have apart : ¬ (v = parent ∧ n = name) := fun both => Nat.ne_of_gt there (new.symm.trans both.1)
      rw [Links.set_other apart, new]
      exact clean.unused n (le_refl _)
    · have apart : ¬ (v = parent ∧ n = name) := by
        rintro ⟨rfl, -⟩
        rw [dir] at file
        cases file
      rw [Links.set_other apart]
      exact clean.leaves n file
  · have within : v < image.nextInode + 1 := within
    rw [links]
    rcases Nat.lt_succ_iff_lt_or_eq.mp within with old | rfl
    · obtain ⟨d, n, named⟩ := clean.linked positive old
      refine ⟨d, n, ?_⟩
      rw [Links.set_other]
      · exact named
      · rintro ⟨rfl, rfl⟩
        rw [free] at named
        cases named
    · exact ⟨parent, name, Links.set_same⟩

theorem shown_there (walked : Links.walk image.link 0 place = some current) : image.shown place ≠ none := by
  intro missing
  rw [clean.shown_none, walked] at missing
  cases missing

theorem walked_dir (walked : Links.walk image.link 0 place = some current) (noFile : ∀ bytes, image.shown place ≠ some (some bytes)) :
    image.stored current = some none := by
  have led : image.shown place = image.stored current := by rw [shown, walked, Option.bind_some]
  cases kind : image.stored current with
  | none => exact absurd (led.trans kind) (shown_there clean walked)
  | some content =>
    cases content with
    | none => rfl
    | some bytes => exact absurd (led.trans kind) (noFile bytes)

omit clean in
/-- On the way below a place, the first step leads to the next place. -/
theorem between_iff {part : String} : place <+: other ∧ other <+: place ++ part :: parts ↔
    other = place ∨ (place ++ [part] <+: other ∧ other <+: place ++ [part] ++ parts) := by
  have whole : place ++ part :: parts = place ++ [part] ++ parts := by simp
  constructor
  · rintro ⟨⟨rest, rfl⟩, within⟩
    cases rest with
    | nil => exact .inl (List.append_nil _)
    | cons first rest =>
      have onward := (List.prefix_append_right_inj place).mp within
      obtain ⟨rfl, onward⟩ := List.cons_prefix_cons.mp onward
      refine .inr ⟨⟨rest, by simp⟩, ?_⟩
      rw [← whole]
      exact within
  · rintro (rfl | ⟨front, within⟩)
    · exact ⟨List.prefix_refl _, List.prefix_append _ _⟩
    · rw [whole]
      exact ⟨(List.prefix_append _ _).trans front, within⟩

omit clean in
theorem missing_iff {part : String} (there : image.shown place ≠ none) :
    image.shown other = none ∧ place <+: other ∧ other <+: place ++ part :: parts ↔
      image.shown other = none ∧ place ++ [part] <+: other ∧ other <+: place ++ [part] ++ parts := by
  rw [between_iff]
  constructor
  · rintro ⟨missing, rfl | between⟩
    · exact absurd missing there
    · exact ⟨missing, between⟩
  · rintro ⟨missing, between⟩
    exact ⟨missing, .inr between⟩

/-- The directories on the way are made where there is nothing yet, if no file is in the way. -/
theorem ensureDirs_clean (walked : Links.walk image.link 0 place = some current)
    (clear : ∀ {middle bytes}, place <+: middle → middle <+: place ++ parts → middle ≠ place ++ parts → image.shown middle ≠ some (some bytes)) :
    (image.ensureDirs current parts).1.Clean ∧ ∀ other, (image.ensureDirs current parts).1.shown other =
      if image.shown other = none ∧ place <+: other ∧ other <+: place ++ parts then some none else image.shown other := by
  induction parts generalizing image current place with
  | nil =>
    refine ⟨clean, fun other => (if_neg ?_).symm⟩
    -- Nothing is left to make, and the place itself is there.
    rintro ⟨none, front, back⟩
    rw [List.append_nil] at back
    obtain rfl := front.eq_of_length_le back.length_le
    exact shown_there clean walked none
  | cons part parts ih =>
    have whole : place ++ [part] ++ parts = place ++ part :: parts := by simp
    have here := shown_there clean walked
    rw [ensureDirs]
    cases found : image.link current part with
    | some existing =>
      have onward : Links.walk image.link 0 (place ++ [part]) = some existing := by
        rw [Links.walk_concat, walked]
        exact found
      obtain ⟨cleaned, shows⟩ := ih clean onward fun front back last => by
        rw [whole] at back last
        exact clear ((List.prefix_append _ _).trans front) back last
      exact ⟨cleaned, fun other => (shows other).trans (if_congr (missing_iff here).symm rfl rfl)⟩
    | none =>
      -- The place is a directory, as no file is on the way.
      have isDir := walked_dir clean walked fun bytes => clear (List.prefix_refl _) (List.prefix_append _ _) (by simp)
      have sound := clean.toSound
      have bounded := sound.walk_bounded walked
      have made : (image.add current part none).Clean := add_clean clean isDir found fun some => (by cases some)
      have shows (other : List String) : (image.add current part none).shown other =
          if other = place ++ [part] then some none else image.shown other := add_shown clean walked found other
      have onward : Links.walk (image.add current part none).link 0 (place ++ [part]) = some image.nextInode := by
        rw [add_link sound bounded, sound.forest.walk_put walked found (fun n => sound.unused n (le_refl _)) (Nat.ne_of_gt bounded), if_pos rfl]
      obtain ⟨cleaned, more⟩ := ih made onward fun {middle bytes} front back last => by
        rw [whole] at back last
        rw [shows]
        split
        · exact fun same => (by cases same)
        · exact clear ((List.prefix_append _ _).trans front) back last
      refine ⟨cleaned, fun other => (more other).trans ?_⟩
      rw [shows]
      by_cases new : other = place ++ [part]
      · subst new
        have nothing : image.shown (place ++ [part]) = none := by
          rw [sound.shown_none, Links.walk_concat, walked]
          exact found
        rw [if_pos rfl, if_neg fun both => (by cases both.1), if_pos ⟨nothing, between_iff.mpr (.inr ⟨List.prefix_refl _, List.prefix_append _ _⟩)⟩]
      -- Elsewhere, what is missing is missing before and after.
      · rw [if_neg new]
        exact if_congr (missing_iff here).symm rfl rfl

/-- What is mapped next is neither put below a file nor over an entry. -/
structure Fits (image : Image) (path : String) (content : Option Bytes) : Prop where
  below : ∀ file place bytes, image.shown file = some (some bytes) → Makes path place → file <+: place → place = file
  free : ∀ file, content.isSome → target path = some file → image.shown file = none

omit clean in
theorem fileName_ne_dot (named : fileName path = some name) : name ≠ "." := by
  unfold fileName at named
  dsimp only at named
  split at named
  · cases named
  · rintro rfl
    have some : (components path).rdropWhile (· == ".") ≠ [] := by
      intro none
      rw [none] at named
      cases named
    have last := List.rdropWhile_last_not (· == ".") (components path) some
    rw [List.getLast?_eq_some_getLast some, Option.some_inj] at named
    rw [named] at last
    exact last rfl

/-- The directories on the way to something that fits. -/
theorem ensureParentDirs_clean (fits : Fits image path content) : (image.ensureParentDirs path).1.Clean ∧
    Links.walk (image.ensureParentDirs path).1.link 0 (components path).dropLast = some (image.ensureParentDirs path).2 ∧
    ∀ other, (image.ensureParentDirs path).1.shown other =
      if image.shown other = none ∧ other <+: (components path).dropLast then some none else image.shown other := by
  obtain ⟨cleaned, shows⟩ := @ensureDirs_clean _ _ [] (components path).dropLast clean rfl fun {middle bytes} _ within last file => by
    rw [List.nil_append] at within last
    have some : (components path).dropLast ≠ [] := by
      intro none
      rw [none] at within last
      exact last (List.prefix_nil.mp within)
    exact last (fits.below middle _ bytes file (.inl ⟨some, List.prefix_refl _⟩) within).symm
  refine ⟨cleaned, (ensureDirs_extends clean.toSound clean.positive).2, fun other => (shows other).trans (if_congr ?_ rfl rfl)⟩
  rw [List.nil_append]
  exact and_congr_right fun _ => and_iff_right List.nil_prefix

theorem missing_makes : image.shown place = none ∧ Makes path place ↔
    image.shown place = none ∧ (place <+: (components path).dropLast ∨ target path = some place) := by
  refine and_congr_right fun missing => or_congr_left (and_iff_right ?_)
  rintro rfl
  have top : Links.walk image.link 0 [] = some 0 := rfl
  exact shown_there clean top missing

theorem mapEntry_clean (fits : Fits image path content) (mapped : image.mapEntry path content = .ok later) :
    later.Clean ∧ ∀ place, later.shown place =
      if image.shown place = none ∧ Makes path place then some (if target path = some place then content else none)
      else image.shown place := by
  obtain ⟨cleaned, walked, shows⟩ := ensureParentDirs_clean clean fits
  unfold mapEntry at mapped
  generalize image.ensureParentDirs path = made at mapped cleaned walked shows
  obtain ⟨middle, parent⟩ := made
  dsimp only at mapped cleaned walked shows
  cases named : fileName path with
  | none =>
    have nowhere : target path = none := by rw [target, named, Option.map_none]
    rw [named] at mapped
    cases content with
    | some bytes => cases mapped
    | none =>
      cases mapped
      -- The parents are all there is to make.
      refine ⟨cleaned, fun place => (shows place).trans ?_⟩
      simp only [missing_makes clean, nowhere, reduceCtorEq, or_false, if_false]
  | some name =>
    have there : target path = some ((components path).dropLast ++ [name]) := by rw [target, named, Option.map_some]
    have apart : ¬ (components path).dropLast ++ [name] <+: (components path).dropLast := Links.concat_beyond _ name
    -- Making the parents does not touch the place itself.
    have same : middle.shown ((components path).dropLast ++ [name]) = image.shown ((components path).dropLast ++ [name]) := by
      rw [shows, if_neg fun both => apart both.2]
    have entry : Links.walk middle.link 0 ((components path).dropLast ++ [name]) = middle.link parent name := by
      rw [Links.walk_concat, walked, Option.bind_some]
    have added (free : middle.link parent name = none) : (middle.add parent name content).Clean ∧ ∀ place,
        (middle.add parent name content).shown place = if image.shown place = none ∧ Makes path place
          then some (if target path = some place then content else none) else image.shown place := by
      have isDir : middle.stored parent = some none := walked_dir cleaned walked fun bytes file => by
        rw [shows] at file
        split at file
        · cases file
        · have same := fits.below _ _ bytes file (.inr there) (List.prefix_append _ _)
          exact apart ⟨[], (List.append_nil _).trans same⟩
      have missing : image.shown ((components path).dropLast ++ [name]) = none := by
        rw [← same, cleaned.shown_none, entry]
        exact free
      refine ⟨add_clean cleaned isDir free fun _ => fileName_ne_dot named, fun place => ?_⟩
      rw [add_shown cleaned walked free, shows]
      simp only [missing_makes clean, there, Option.some_inj]
      by_cases new : place = (components path).dropLast ++ [name]
      · rw [if_pos new, if_pos ⟨new ▸ missing, .inr new.symm⟩, if_pos new.symm]
      · simp only [new, Ne.symm new, or_false, if_false]
    rw [named] at mapped
    cases content with
    | some bytes =>
      cases mapped
      -- That the name of a file is free is asked for.
      refine added ?_
      have missing := fits.free _ rfl there
      rw [← same, cleaned.shown_none, entry] at missing
      exact missing
    | none =>
      dsimp only at mapped
      split at mapped
      · next taken =>
        cases mapped
        refine ⟨cleaned, fun place => (shows place).trans ?_⟩
        have filled : image.shown ((components path).dropLast ++ [name]) ≠ none := by
          rw [← same, ne_eq, cleaned.shown_none, entry]
          exact Option.isSome_iff_ne_none.mp taken
        simp only [missing_makes clean, there, Option.some_inj, ite_self]
        -- There is a directory already, and nothing is missing there.
        refine if_congr (and_congr_right fun missing => (or_iff_left ?_).symm) rfl rfl
        rintro rfl
        exact filled missing
      · next free =>
        cases mapped
        exact added (by simpa using free)

end

/-- What shows up is what was mapped. -/
structure Describes (done : List (String × Option Bytes)) (image : Image) : Prop extends Clean image where
  files : ∀ place bytes, image.shown place = some (some bytes) ↔ ∃ mapped ∈ done, mapped.2 = some bytes ∧ target mapped.1 = some place
  places : ∀ place, image.shown place = none ↔ place ≠ [] ∧ ∀ mapped ∈ done, ¬ Makes mapped.1 place

theorem empty_describes : Describes [] empty where
  toClean := empty_clean
  files place bytes := by
    cases place with
    | nil => simp [shown, Links.walk, stored, all, bytesOf, dirInode]
    | cons => simp [shown, Links.walk, empty_link]
  places place := by
    cases place with
    | nil => simp [shown, Links.walk, stored, all, bytesOf, dirInode]
    | cons => simp [shown, Links.walk, empty_link]

theorem Describes.fits_iff {done : List (String × Option Bytes)} (describes : Describes done image) :
    Fits image path content ↔ ∀ earlier ∈ done, Apart earlier (path, content) := by
  constructor
  · rintro fits ⟨earlierPath, earlierContent⟩ member
    refine ⟨fun file place isFile entered makes within => ?_, fun file some entered makes => ?_⟩
    · obtain ⟨bytes, rfl⟩ := Option.isSome_iff_exists.mp isFile
      exact fits.below file place bytes ((describes.files file bytes).mpr ⟨_, member, rfl, entered⟩) makes within
    · exact ((describes.places file).mp (fits.free file some entered)).2 _ member makes
  · intro apart
    refine ⟨fun file place bytes shown makes within => ?_, fun file some entered => ?_⟩
    · obtain ⟨earlier, member, isFile, entered⟩ := (describes.files file bytes).mp shown
      exact (apart earlier member).below file place (by rw [isFile]; rfl) entered makes within
    · refine (describes.places file).mpr ⟨?_, fun earlier member => (apart earlier member).free file some entered⟩
      rintro rfl
      obtain ⟨name, -, empty⟩ := Option.map_eq_some_iff.mp entered
      simp at empty

theorem Describes.step {done : List (String × Option Bytes)} (describes : Describes done image)
    (apart : ∀ earlier ∈ done, Apart earlier (path, content)) (mapped : image.mapEntry path content = .ok later) :
    Describes (done ++ [(path, content)]) later := by
  have fits := describes.fits_iff.mpr apart
  obtain ⟨cleaned, shows⟩ := mapEntry_clean describes.toClean fits mapped
  refine ⟨cleaned, fun place bytes => ?_, fun place => ?_⟩
  · rw [shows]
    simp only [List.mem_append, List.mem_singleton, or_and_right, exists_or, exists_eq_left]
    -- A place is new if nothing is shown there and the entry makes it.
    by_cases new : image.shown place = none ∧ Makes path place
    · have old : ¬ ∃ earlier ∈ done, earlier.2 = some bytes ∧ target earlier.1 = some place := by
        rw [← describes.files, new.1]
        exact fun same => (by cases same)
      rw [if_pos new, or_iff_right old, Option.some_inj]
      by_cases here : target path = some place
      · rw [if_pos here, and_iff_left here]
      · rw [if_neg here]
        exact ⟨fun same => (by cases same), fun both => absurd both.2 here⟩
    · rw [if_neg new, describes.files, or_iff_left]
      rintro ⟨file, entered⟩
      exact new ⟨fits.free place (by rw [file]; rfl) entered, .inr entered⟩
  · rw [shows]
    simp only [List.mem_append, List.mem_singleton, or_imp, forall_and, forall_eq]
    by_cases new : image.shown place = none ∧ Makes path place
    · rw [if_pos new]
      exact ⟨fun same => (by cases same), fun all => absurd new.2 all.2.2⟩
    · rw [if_neg new]
      constructor
      · intro missing
        obtain ⟨some, unmade⟩ := (describes.places place).mp missing
        exact ⟨some, unmade, fun makes => new ⟨missing, makes⟩⟩
      · rintro ⟨some, unmade, -⟩
        exact (describes.places place).mpr ⟨some, unmade⟩

/-! ### Lost inodes -/

/-- An inode without an entry in a directory. -/
def Lost (image : Image) (v : InodeId) : Prop :=
  0 < v ∧ v < image.nextInode ∧ ∀ d n, image.link d n = some v → image.stored d ≠ some none

theorem Lost.grown (lost : image.Lost v) (sound : image.Sound) (grown : Grown image later) : later.Lost v := by
  obtain ⟨positive, within, unnamed⟩ := lost
  refine ⟨positive, within.trans_le grown.next, fun d n named => ?_⟩
  have old := grown.links named within
  rw [grown.stored (sound.source_bounded old)]
  exact unnamed d n old

/-- The inode that an entry led to before it was replaced. -/
theorem add_lost (sound : image.Sound) (named : image.link parent name = some v) : (image.add parent name content).Lost v := by
  have there := sound.source_bounded named
  have within := sound.bounded named
  refine ⟨?_, within.trans_le (Nat.le_succ _), fun d n again => ?_⟩
  · exact Nat.pos_of_ne_zero (sound.forest.ne_root ⟨parent, name, named⟩)
  · rw [add_link sound there] at again
    rcases Links.set_some again with ⟨-, -, same⟩ | ⟨other, again⟩
    · cases same
      exact absurd within (Nat.lt_irrefl _)
    · exact absurd (sound.forest.unique again named) other

/-- What a file got an entry for. -/
theorem below_lost {bytes : Bytes} (sound : image.Sound) (file : image.stored d = some (some bytes)) (named : image.link d n = some v) :
    image.Lost v := by
  refine ⟨Nat.pos_of_ne_zero (sound.forest.ne_root ⟨d, n, named⟩), sound.bounded named, fun e m again => ?_⟩
  obtain ⟨rfl, -⟩ := sound.forest.unique again named
  rw [file]
  exact fun same => (by cases same)

/-- One step replaces an entry by a file, or it extends the image by the places it needs. -/
theorem mapEntry_cases (sound : image.Sound) (mapped : image.mapEntry path content = .ok later) :
    (∃ middle parent name v, Extends image middle ∧ middle.link parent name = some v ∧ name ≠ "." ∧
      later = middle.add parent name content) ∨
    (Extends image later ∧ (∀ place, Makes path place → ∃ v, Links.walk later.link 0 place = some v) ∧
      ∀ file, content.isSome → target path = some file → image.shown file = none) := by
  obtain ⟨extends', walked⟩ := @ensureDirs_extends _ (components path).dropLast _ sound sound.positive
  unfold mapEntry ensureParentDirs at mapped
  generalize image.ensureDirs 0 (components path).dropLast = made at mapped extends' walked
  obtain ⟨middle, parent⟩ := made
  dsimp only at mapped extends' walked
  have onTheWay {last : Image} (grows : Extends middle last) {place : List String} (within : place <+: (components path).dropLast) :
      ∃ v, Links.walk last.link 0 place = some v := by
    obtain ⟨rest, whole⟩ := within
    rw [← whole, Links.walk_append] at walked
    obtain ⟨v, found, -⟩ := Option.bind_eq_some_iff.mp walked
    exact ⟨v, Links.walk_mono grows.kept found⟩
  have still : Extends middle middle := ⟨.refl middle, extends'.sound, fun _ _ _ named => named⟩
  cases named : fileName path with
  | none =>
    rw [named] at mapped
    cases content with
    -- A file needs a name of its own.
    | some bytes => cases mapped
    | none =>
      cases mapped
      refine .inr ⟨extends', fun place makes => ?_, fun _ some => (by cases some)⟩
      rcases makes with ⟨-, within⟩ | entered
      -- A directory without a name is the parent itself.
      · exact onTheWay still within
      · rw [target, named] at entered
        cases entered
  | some name =>
    have entry {last : Image} (grows : Extends middle last) :
        Links.walk last.link 0 ((components path).dropLast ++ [name]) = last.link parent name := by
      rw [Links.walk_concat, Links.walk_mono grows.kept walked, Option.bind_some]
    have makes {last : Image} (grows : Extends middle last) {v : InodeId} (there : last.link parent name = some v)
        (place : List String) (makes : Makes path place) : ∃ v, Links.walk last.link 0 place = some v := by
      rcases makes with ⟨-, within⟩ | entered
      · exact onTheWay grows within
      · rw [target, named, Option.map_some, Option.some_inj] at entered
        exact ⟨v, by rw [← entered, entry grows, there]⟩
    have proper := fileName_ne_dot named
    rw [named] at mapped
    cases there : middle.link parent name with
    | some v =>
      cases content with
      | some bytes =>
        cases mapped
        -- A file for a name that is taken already.
        exact .inl ⟨middle, parent, name, v, extends', there, proper, rfl⟩
      | none =>
        dsimp only at mapped
        rw [there, Option.isSome_some, if_pos rfl] at mapped
        cases mapped
        -- A directory that is there already is kept.
        exact .inr ⟨extends', makes still there, fun _ some => (by cases some)⟩
    | none =>
      have bounded : parent < middle.nextInode := extends'.sound.walk_bounded walked
      have added : later = middle.add parent name content := by
        cases content with
        | some bytes =>
          cases mapped
          rfl
        | none =>
          dsimp only at mapped
          rw [there] at mapped
          cases mapped
          rfl
      have grows : Extends middle (middle.add parent name content) := add_extends extends'.sound bounded (fun _ => proper) there
      have link : (middle.add parent name content).link parent name = some middle.nextInode := by
        rw [add_link extends'.sound bounded, Links.set_same]
      rw [added]
      refine .inr ⟨extends'.trans grows, makes grows link, fun file _ entered => ?_⟩
      rw [target, named, Option.map_some, Option.some_inj] at entered
      rw [sound.shown_none]
      -- The parents take no name from a file, so that it would be there still.
      by_contra found
      obtain ⟨v, found⟩ := Option.ne_none_iff_exists'.mp found
      have again := Links.walk_mono extends'.kept found
      rw [← entered, entry still, there] at again
      cases again

theorem mapEntry_grown (sound : image.Sound) (mapped : image.mapEntry path content = .ok later) : later.Sound ∧ Grown image later := by
  rcases mapEntry_cases sound mapped with ⟨middle, parent, name, v, extends', named, proper, rfl⟩ | ⟨extends', -, -⟩
  · have there := extends'.sound.source_bounded named
    exact ⟨add_sound extends'.sound there fun _ => proper, extends'.toGrown.trans (add_grown extends'.sound there name content)⟩
  · exact ⟨extends'.sound, extends'.toGrown⟩

theorem mapEntry_loses (clean : image.Clean) (misfit : ¬ Fits image path content) (mapped : image.mapEntry path content = .ok later) :
    ∃ v, later.Lost v := by
  rcases mapEntry_cases clean.toSound mapped with ⟨middle, parent, name, v, extends', named, -, rfl⟩ | ⟨extends', makes, free⟩
  · exact ⟨v, add_lost extends'.sound named⟩
  by_contra none
  refine misfit ⟨fun file place bytes shown needed within => ?_, free⟩
  by_contra longer
  obtain ⟨rest, rfl⟩ := within
  obtain ⟨f, found, isFile⟩ := Option.bind_eq_some_iff.mp shown
  obtain ⟨w, there⟩ := makes _ needed
  rw [Links.walk_append, Links.walk_mono extends'.kept found, Option.bind_some] at there
  cases rest with
  | nil => exact longer (List.append_nil _)
  | cons n rest =>
    obtain ⟨v, named, -⟩ := Option.bind_eq_some_iff.mp there
    have stays : later.stored f = some (some bytes) := by
      rw [extends'.stored (clean.walk_bounded found), isFile]
    exact none ⟨v, below_lost extends'.sound stays named⟩

theorem mapAll_cons {first : String × Option Bytes} {rest : List (String × Option Bytes)} : image.mapAll (first :: rest) = .ok later ↔
    ∃ middle, image.mapEntry first.1 first.2 = .ok middle ∧ middle.mapAll rest = .ok later := by
  rw [mapAll]
  cases image.mapEntry first.1 first.2 <;> simp [Except.bind]

theorem mapAll_grown {rest : List (String × Option Bytes)} (sound : image.Sound) (mapped : image.mapAll rest = .ok later) :
    later.Sound ∧ Grown image later := by
  induction rest generalizing image with
  | nil =>
    cases mapped
    exact ⟨sound, .refl _⟩
  | cons first rest ih =>
    obtain ⟨middle, one, others⟩ := mapAll_cons.mp mapped
    obtain ⟨sound', grown⟩ := mapEntry_grown sound one
    obtain ⟨sound'', grown'⟩ := ih sound' others
    exact ⟨sound'', grown.trans grown'⟩

/-- What all the mounts map shows up, or an inode was lost on the way. -/
theorem mapAll_cases {done rest : List (String × Option Bytes)} (describes : Describes done image) (apart : done.Pairwise Apart)
    (mapped : image.mapAll rest = .ok later) :
    ((done ++ rest).Pairwise Apart ∧ Describes (done ++ rest) later) ∨ (¬ (done ++ rest).Pairwise Apart ∧ ∃ v, later.Lost v) := by
  induction rest generalizing done image with
  | nil =>
    cases mapped
    rw [List.append_nil]
    exact .inl ⟨apart, describes⟩
  | cons first rest ih =>
    obtain ⟨middle, one, others⟩ := mapAll_cons.mp mapped
    have whole : done ++ first :: rest = done ++ [first] ++ rest := by simp
    by_cases fits : ∀ earlier ∈ done, Apart earlier first
    · rw [whole]
      refine ih (describes.step fits one) ?_ others
      rw [List.pairwise_append]
      refine ⟨apart, List.pairwise_singleton _ _, fun earlier member last last' => ?_⟩
      rw [List.mem_singleton.mp last']
      exact fits earlier member
    · refine .inr ⟨fun all => ?_, ?_⟩
      · have parts := (List.pairwise_append.mp all).2.2
        exact fits fun earlier member => parts earlier member first List.mem_cons_self
      · obtain ⟨v, lost⟩ := mapEntry_loses describes.toClean (fun good => fits (describes.fits_iff.mp good)) one
        obtain ⟨sound, -⟩ := mapEntry_grown describes.toSound one
        exact ⟨v, lost.grown sound (mapAll_grown sound others).2⟩

end Image

end MonakaFs.Cli
