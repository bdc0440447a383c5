import MonakaFs.FsCore.Operations

/-! The calls of a filesystem, and runs of them.

Calls that only look (`stat`, `fstat` and the directory listings) are not steps.
-/

set_option autoImplicit false

namespace MonakaFs.FsCore

inductive Call where
  | openPathWithFlags (path : String) (flags : Nat)
  | openAt (dirFd : Fd) (path : String) (flags : Nat)
  | write (fd : Fd) (buf : Bytes)
  | writeAt (fd : Fd) (offset : Nat) (buf : Bytes)
  | appendWrite (fd : Fd) (buf : Bytes)
  | read (fd : Fd) (wanted : Nat)
  | readAt (fd : Fd) (offset wanted : Nat)
  | ftruncate (fd : Fd) (size : Nat)
  | seek (fd : Fd) (offset whence : Int)
  | close (fd : Fd)
  | mkdir (path : String)
  | mkdirP (path : String)
  | unlink (path : String)
  | rmdir (path : String)
  | rename (oldPath newPath : String)

section
variable {T : Type} [TimeProvider T] [Target]

/-- The filesystem after a call. -/
def Call.perform : Call → Fs T → Fs T
  | .openPathWithFlags path flags, fs => (fs.openPathWithFlags path flags).2
  | .openAt dirFd path flags, fs => (fs.openAt dirFd path flags).2
  | .write fd buf, fs => (fs.write fd buf).2
  | .writeAt fd offset buf, fs => (fs.writeAt fd offset buf).2
  | .appendWrite fd buf, fs => (fs.appendWrite fd buf).2
  | .read fd wanted, fs => (fs.read fd wanted).2
  | .readAt fd offset wanted, fs => (fs.readAt fd offset wanted).2
  | .ftruncate fd size, fs => (fs.ftruncate fd size).2
  | .seek fd offset whence, fs => (fs.seek fd offset whence).2
  | .close fd, fs => (fs.close fd).2
  | .mkdir path, fs => (fs.mkdir path).2
  | .mkdirP path, fs => (fs.mkdirP path).2
  | .unlink path, fs => (fs.unlink path).2
  | .rmdir path, fs => (fs.rmdir path).2
  | .rename oldPath newPath, fs => (fs.rename oldPath newPath).2

/-- The filesystem after a run. -/
def after (calls : List Call) (fs : Fs T) : Fs T := calls.foldl (fun fs call => call.perform fs) fs

/-- A condition on every call of a run, in the state before it. -/
def Along (condition : Call → Fs T → Prop) : List Call → Fs T → Prop
  | [], _ => True
  | call :: calls, fs => condition call fs ∧ Along condition calls (call.perform fs)

/-- What one call keeps under a condition, a run keeps whose calls all meet it. -/
theorem after_keeps {condition : Call → Fs T → Prop} {inv : Fs T → Prop}
    (step : ∀ call fs, condition call fs → inv fs → inv (call.perform fs)) {calls : List Call} {fs : Fs T}
    (met : Along condition calls fs) (start : inv fs) : inv (after calls fs) := by
  induction calls generalizing fs with
  | nil => exact start
  | cons call calls ih => exact ih met.2 (step call fs met.1 start)

/-- If one call keeps `inv` exactly under a condition, then `inv` holds all along a run
exactly if all its calls meet the condition. -/
theorem always_iff {space condition : Call → Fs T → Prop} {sound inv : Fs T → Prop}
    (keeps : ∀ call fs, space call fs → sound fs → sound (call.perform fs))
    (step : ∀ call fs, sound fs → space call fs → inv fs → (inv (call.perform fs) ↔ condition call fs))
    {calls : List Call} {fs : Fs T} (good : sound fs) (start : inv fs) (room : Along space calls fs) :
    (∀ front, front <+: calls → inv (after front fs)) ↔ Along condition calls fs := by
  induction calls generalizing fs with
  | nil =>
    refine ⟨fun _ => trivial, fun _ front short => ?_⟩
    rw [List.prefix_nil.mp short]
    exact start
  | cons call calls ih =>
    have good' := keeps call fs room.1 good
    constructor
    · intro always
      have next : inv (call.perform fs) := always [call] ⟨calls, rfl⟩
      refine ⟨(step call fs good room.1 start).mp next, (ih good' next room.2).mp fun front short => ?_⟩
      exact always (call :: front) (List.cons_prefix_cons.mpr ⟨rfl, short⟩)
    · rintro ⟨met, rest⟩ front short
      have next := (step call fs good room.1 start).mpr met
      cases front with
      | nil => exact start
      | cons first front =>
        obtain ⟨rfl, within⟩ := List.cons_prefix_cons.mp short
        exact (ih good' next room.2).mpr rest front within

end

namespace Fs

variable {T : Type} [TimeProvider T] {fs : Fs T} {id d v : InodeId} {name : String} {flags : Nat}

/-! ### Opens -/

theorem openInode_file (flags : Nat) (file : fs.kind id = some false) :
    (flags &&& O_TRUNC ≠ 0 ∧ accessMode flags = O_RDONLY ∧ (fs.openInode id flags).2 = fs) ∨
      (¬ (flags &&& O_TRUNC ≠ 0 ∧ accessMode flags = O_RDONLY) ∧ Same fs (fs.openInode id flags).2 ∧
        (fs.openInode id flags).2.holder = Function.update fs.holder fs.nextFd (some id)) := by
  obtain ⟨⟨metadata, content⟩, stored, kind⟩ := Option.map_eq_some_iff.mp file
  cases content with
  | dir => cases kind
  | file storage =>
    simp only [openInode, stored]
    by_cases truncates : flags &&& O_TRUNC ≠ 0
    · by_cases readOnly : accessMode flags = O_RDONLY
      · exact .inl ⟨truncates, readOnly, by simp only [truncates, readOnly, ne_eq, not_false_eq_true, if_true]⟩
      · simp only [truncates, readOnly, ne_eq, not_false_eq_true, if_true, if_false]
        obtain ⟨same, held⟩ := update_effect stored rfl (storage.truncate 0) 0
        obtain ⟨same', held'⟩ := insertFd_effect (fs.update id (Inode.store ⟨metadata, .file storage⟩ (storage.truncate 0) 0)) id flags
        exact .inr ⟨fun both => both.2, same.trans same', by rw [held', held]; rfl⟩
    · simp only [truncates, if_false]
      exact .inr ⟨fun both => both.1, insertFd_effect fs id flags⟩

theorem openInode_dir (flags : Nat) (dir : fs.kind id = some true) :
    (fs.openInode id flags).2 = fs ∨ (Same fs (fs.openInode id flags).2 ∧
      (fs.openInode id flags).2.holder = Function.update fs.holder fs.nextFd (some id)) := by
  obtain ⟨metadata, entries, stored, -⟩ := stored_dir dir
  simp only [openInode, stored]
  split
  · exact .inl rfl
  split
  · exact .inl rfl
  · exact .inr (insertFd_effect fs id flags)

/-- What an open does once it has reached the directory. -/
inductive Opening (d : InodeId) (name : String) (flags : Nat) (fs later : Fs T) : Prop where
  | refused (uncreated : fs.links d name = none → flags &&& O_CREAT = 0) (same : Same fs later) (held : later.holder = fs.holder)
  | opened {v : InodeId} (named : fs.links d name = some v) (same : Same fs later)
      (held : later.holder = Function.update fs.holder fs.nextFd (some v))
  /-- A new file may not be truncated by a reader, but it stays. -/
  | left (creates : flags &&& O_CREAT ≠ 0) (reader : flags &&& O_TRUNC ≠ 0 ∧ accessMode flags = O_RDONLY)
      (made : Created d name false fs later)
  | created {middle : Fs T} (creates : flags &&& O_CREAT ≠ 0) (writer : ¬ (flags &&& O_TRUNC ≠ 0 ∧ accessMode flags = O_RDONLY))
      (made : Created d name false fs middle) (same : Same middle later)
      (held : later.holder = Function.update fs.holder fs.nextFd (some fs.nextInode))

theorem openEntry_effect (sane : Sane fs) (dir : fs.kind d = some true) : Opening d name flags fs (fs.openEntry d name flags).2 := by
  cases link : fs.links d name with
  | some v =>
    have there := sane.named d name v link
    have found : fs.findOrCreate d name flags = (.ok v, fs) := by rw [findOrCreate, findInode_ok.mpr ⟨link, there⟩]
    simp only [openEntry, found]
    obtain ⟨isDir, kind⟩ := Option.isSome_iff_exists.mp there
    have refused (same : (fs.openInode v flags).2 = fs) : Opening d name flags fs (fs.openInode v flags).2 := by
      rw [same]
      exact .refused (fun free => by rw [link] at free; cases free) (.refl fs) rfl
    -- Which flags an entry refuses depends on its kind.
    cases isDir with
    | true =>
      rcases openInode_dir flags kind with same | ⟨same, held⟩
      · exact refused same
      · exact .opened link same held
    | false =>
      rcases openInode_file flags kind with ⟨-, -, same⟩ | ⟨-, same, held⟩
      · exact refused same
      · exact .opened link same held
  | none =>
    have missing : fs.findInode d name = .error .notFound := by
      cases found : fs.findInode d name with
      | ok v => rw [(findInode_ok.mp found).1] at link; cases link
      | error e => rw [(findInode_error found dir (sane.named d name)).1]
    by_cases creates : flags &&& O_CREAT ≠ 0
    · obtain ⟨middle, result, made, fds⟩ := createInode_free false sane dir link
      have found : fs.findOrCreate d name flags = (.ok fs.nextInode, middle) := by
        simp only [findOrCreate, missing, creates, ne_eq, not_false_eq_true, and_self, if_true, result]
      have file : middle.kind fs.nextInode = some false := by rw [made.kind, Function.update_self]
      simp only [openEntry, found]
      -- The new file may be refused by its own flags, and is left then.
      rcases openInode_file flags file with ⟨truncates, readOnly, same⟩ | ⟨writer, same, held⟩
      · rw [same]
        exact .left creates ⟨truncates, readOnly⟩ made
      · refine .created creates writer made same ?_
        rw [held, made.holder, fds]
    · have found : fs.findOrCreate d name flags = (.error .notFound, fs) := by
        simp only [findOrCreate, missing, creates, and_false, if_false]
      simp only [openEntry, found]
      exact .refused (fun _ => not_not.mp creates) (.refl fs) rfl

/-! ### Paths -/

theorem components_empty : components "" = [] := by decide

section
omit [TimeProvider T]
variable (sane : Sane fs)
include sane

theorem findParent_ok {comps : List String} :
    fs.findParent comps = .ok d ↔ fs.links.walk fs.rootInode comps.dropLast = some d ∧ fs.kind d = some true := by
  have there : (fs.inodeTable.lookup fs.rootInode).isSome := by rw [← kind_some, sane.root]; rfl
  rw [findParent, if_pos there]
  exact descend_ok sane.root sane.named

theorem locate_ok {path : String} : fs.locate path = .ok (d, name) ↔
    ∃ front, components path = front ++ [name] ∧ fs.links.walk fs.rootInode front = some d ∧ fs.kind d = some true := by
  unfold locate
  by_cases empty : path = ""
  · subst empty
    simp [components_empty]
  rw [if_neg empty]
  rcases (components path).eq_nil_or_concat with none | ⟨front, last, split⟩
  · simp [none]
  · simp only [List.concat_eq_append] at split
    rw [split, List.getLast?_concat]
    dsimp only
    cases found : fs.findParent (front ++ [last]) with
    | error e =>
      constructor
      · intro same
        cases same
      · rintro ⟨front', same, walked, dir⟩
        obtain ⟨rfl, -⟩ := List.append_inj' same rfl
        rw [(findParent_ok sane).mpr ⟨by rw [List.dropLast_concat]; exact walked, dir⟩] at found
        cases found
    | ok parent =>
      obtain ⟨walked, dir⟩ := (findParent_ok sane).mp found
      rw [List.dropLast_concat] at walked
      constructor
      · intro same
        cases same
        exact ⟨front, rfl, walked, dir⟩
      · rintro ⟨front', same, walked', -⟩
        obtain ⟨rfl, tail⟩ := List.append_inj' same rfl
        cases tail
        cases walked.symm.trans walked'
        rfl

omit sane in
theorem resolve_concat {path : String} {front : List String} (split : components path = front ++ [name])
    (walked : fs.links.walk fs.rootInode front = some d) : fs.resolve path = fs.links d name := by
  rw [resolve, split, Links.walk_concat, walked]
  rfl

omit sane in
theorem resolve_split {path : String} (found : fs.resolve path = some v) (some : components path ≠ []) :
    ∃ front name d, components path = front ++ [name] ∧ fs.links.walk fs.rootInode front = .some d ∧ fs.links d name = .some v := by
  rcases (components path).eq_nil_or_concat with none | ⟨front, name, split⟩
  · exact absurd none some
  · rw [List.concat_eq_append] at split
    rw [resolve, split, Links.walk_concat] at found
    obtain ⟨d, walked, named⟩ := Option.bind_eq_some_iff.mp found
    exact ⟨front, name, d, split, walked, named⟩

theorem locate_none {path : String} {e : FsError} (failed : fs.locate path = .error e) (some : components path ≠ []) :
    fs.resolve path = none := by
  cases found : fs.resolve path with
  | none => rfl
  | some v =>
    obtain ⟨front, name, d, split, walked, named⟩ := resolve_split found some
    rw [(locate_ok sane).mpr ⟨front, split, walked, kind_of_links named⟩] at failed
    cases failed

end

/-! ### Directories and removals -/

theorem mkdir_effect (path : String) (sane : Sane fs) :
    (∃ d name, fs.links.Below fs.rootInode d ∧ Created d name true fs (fs.mkdir path).2) ∨
      (Same fs (fs.mkdir path).2 ∧ (fs.mkdir path).2.holder = fs.holder) := by
  unfold mkdir
  split
  · exact .inr ⟨.refl fs, rfl⟩
  · next parent name located =>
    obtain ⟨front, -, walked, dir⟩ := (locate_ok sane).mp located
    cases link : fs.links parent name with
    | some v =>
      rw [createInode_taken dir link]
      exact .inr ⟨.refl fs, rfl⟩
    | none =>
      obtain ⟨later, result, made, -⟩ := createInode_free true sane dir link
      rw [result]
      exact .inl ⟨parent, name, .of_walk walked, made⟩

/-- Directories were created, one in the other, below what was there. -/
inductive Grown : Fs T → Fs T → Prop where
  | done {fs : Fs T} : Grown fs fs
  | more {fs middle later : Fs T} {d : InodeId} {name : String} (live : fs.links.Below fs.rootInode d)
      (room : fs.nextInode + 1 < 2 ^ 64) (made : Created d name true fs middle) (rest : Grown middle later) : Grown fs later

omit [TimeProvider T] in
theorem Created.below {later : Fs T} {isDir : Bool} {x : InodeId} (sane : Sane fs) (made : Created d name isDir fs later) :
    later.links.Below later.rootInode x ↔ fs.links.Below fs.rootInode x ∨ (x = fs.nextInode ∧ fs.links.Below fs.rootInode d) := by
  rw [made.links, made.root]
  exact Links.below_put sane.unlinked sane.ne_root sane.next_leaf made.free

/-- Room for one more than so many. -/
theorem room_succ {n k : Nat} (room : n + (k + 1) < 2 ^ 64) : n + k < 2 ^ 64 ∧ n + 1 < 2 ^ 64 ∧ n + 1 + k < 2 ^ 64 := by omega

theorem mkdirPath_effect {comps : List String} (sane : Sane fs) (dir : fs.kind d = some true)
    (live : fs.links.Below fs.rootInode d) (room : fs.nextInode + comps.length < 2 ^ 64) : Grown fs (fs.mkdirPath d comps).2 := by
  induction comps generalizing fs d with
  | nil => exact .done
  | cons comp comps ih =>
    obtain ⟨fewer, space, rest⟩ := room_succ room
    unfold mkdirPath
    cases found : fs.findInode d comp with
    | ok next =>
      obtain ⟨link, there⟩ := findInode_ok.mp found
      dsimp only
      split
      · exact .done
      · next notFile =>
        obtain ⟨isDir, kind⟩ := Option.isSome_iff_exists.mp there
        have directory : fs.kind next = some true := by
          cases isDir with
          | true => exact kind
          | false => exact absurd (isFile_iff.mpr kind) notFile
        exact ih sane directory (live.tail ⟨comp, link⟩) fewer
    | error e =>
      obtain ⟨rfl, free⟩ := findInode_error found dir (sane.named d comp)
      obtain ⟨middle, result, made, -⟩ := createInode_free true sane dir free
      have next : middle.nextInode = fs.nextInode + 1 := by rw [made.next, toU64, Nat.mod_eq_of_lt space]
      simp only [result]
      -- The directory is made, and the rest goes on below it.
      refine .more live space made (ih (made.sane sane space) ?_ ?_ ?_)
      · rw [made.kind, Function.update_self]
      · exact (made.below sane).mpr (.inr ⟨rfl, live⟩)
      · rw [next]
        exact rest

theorem mkdirP_effect (path : String) (sane : Sane fs) (room : fs.nextInode + (components path).length < 2 ^ 64) :
    Grown fs (fs.mkdirP path).2 := by
  unfold mkdirP
  split
  · exact .done
  split
  · exact .done
  split
  · exact mkdirPath_effect sane sane.root .refl room
  · exact .done

theorem unlink_effect (path : String) (sane : Sane fs) :
    (∃ d name v, fs.resolve path = some v ∧ fs.kind v = some false ∧ Removed d name v fs (fs.unlink path).2) ∨
      ((∀ v, fs.resolve path = some v → fs.kind v ≠ some false) ∧ Same fs (fs.unlink path).2 ∧
        (fs.unlink path).2.holder = fs.holder) := by
  unfold unlink
  split
  · next e failed =>
    refine .inr ⟨fun v found file => ?_, .refl fs, rfl⟩
    by_cases none : components path = []
    · rw [resolve, none] at found
      cases found
      exact sane.file_ne_root file rfl
    · rw [locate_none sane failed none] at found
      cases found
  · next parent name located =>
    obtain ⟨front, split, walked, dir⟩ := (locate_ok sane).mp located
    have resolved := resolve_concat split walked
    cases found : fs.findInode parent name with
    | error e =>
      obtain ⟨-, free⟩ := findInode_error found dir (sane.named parent name)
      exact .inr ⟨fun v there => (by rw [resolved, free] at there; cases there), .refl fs, rfl⟩
    | ok target =>
      obtain ⟨link, -⟩ := findInode_ok.mp found
      dsimp only
      split
      · next file =>
        have kind := isFile_iff.mp file
        exact .inl ⟨parent, name, target, resolved.trans link, kind,
          removeEntry_effect link fun m => links_none (by rw [kind]; decide) m⟩
      -- What is found is not a file.
      · next notFile =>
        refine .inr ⟨fun v there file => ?_, .refl fs, rfl⟩
        rw [resolved, link] at there
        cases there
        exact notFile (isFile_iff.mpr file)

theorem rmdir_effect (path : String) (sane : Sane fs) :
    (∃ d name v, fs.resolve path = some v ∧ fs.kind v = some true ∧ Removed d name v fs (fs.rmdir path).2) ∨
      ((∀ v, fs.resolve path = some v → v ≠ fs.rootInode → fs.kind v = some true → ∃ m w, fs.links v m = some w) ∧
        Same fs (fs.rmdir path).2 ∧ (fs.rmdir path).2.holder = fs.holder) := by
  unfold rmdir
  split
  · next e failed =>
    refine .inr ⟨fun v found other _ => ?_, .refl fs, rfl⟩
    by_cases none : components path = []
    · rw [resolve, none] at found
      cases found
      exact absurd rfl other
    · rw [locate_none sane failed none] at found
      cases found
  · next parent name located =>
    obtain ⟨front, split, walked, dir⟩ := (locate_ok sane).mp located
    have resolved := resolve_concat split walked
    cases found : fs.findInode parent name with
    | error e =>
      obtain ⟨-, free⟩ := findInode_error found dir (sane.named parent name)
      exact .inr ⟨fun v there => (by rw [resolved, free] at there; cases there), .refl fs, rfl⟩
    | ok target =>
      obtain ⟨link, -⟩ := findInode_ok.mp found
      dsimp only
      cases inside : fs.entries target with
      -- What is found is not a directory.
      | none =>
        refine .inr ⟨fun v there _ dir => ?_, .refl fs, rfl⟩
        rw [resolved, link] at there
        cases there
        obtain ⟨entries, some⟩ := kind_dir.mp dir
        rw [inside] at some
        cases some
      | some entries =>
        dsimp only
        split
        · next empty =>
          refine .inl ⟨parent, name, target, resolved.trans link, kind_dir.mpr ⟨entries, inside⟩, removeEntry_effect link fun m => ?_⟩
          rw [links_of_entries inside]
          exact Table.keys_eq_nil.mp empty m
        -- There is an entry inside.
        · next full =>
          refine .inr ⟨fun v there _ _ => ?_, .refl fs, rfl⟩
          rw [resolved, link] at there
          cases there
          by_contra nothing
          refine full (Table.keys_eq_nil.mpr fun m => ?_)
          rw [← links_of_entries inside]
          cases entry : fs.links target m with
          | none => rfl
          | some w => exact absurd ⟨m, w, entry⟩ nothing

end Fs
end MonakaFs.FsCore
