import MonakaFs.Sync.AdapterFs

/-! Whole files of the in-memory filesystem, as the sync layer reads and replaces them.

A read gives the bytes of the path's file and a replacement changes this file only. Both
open a descriptor and close it again; what they open is left open where the path leads
to a directory.
-/

set_option autoImplicit false

namespace MonakaFs.Sync

open FsCore

section
variable {T : Type} [TimeProvider T] [target : Target] {fs later : Fs T} {path : String} {data : Bytes}

omit [TimeProvider T] target in
theorem wrapped_ok {A : Type} {call : Fs T → Outcome T A} {value : A} (answer : call fs = (.ok value, later))
    (error : String → S3Error) (action : String) : wrapped call error action fs = (.ok value, later) := by
  simp only [wrapped, answer, Except.mapError]

omit [TimeProvider T] target in
theorem wrapped_error {A : Type} {call : Fs T → Outcome T A} {e : FsError} (answer : call fs = (.error e, later))
    (error : String → S3Error) (action : String) : ∃ e, wrapped call error action fs = (.error e, later) :=
  ⟨_, by simp only [wrapped, answer, Except.mapError]; rfl⟩

/-! Each method, on what the filesystem answers. -/

section
variable {e : FsError} {fd n : Nat} {bytes : Bytes}

theorem AdapterFs.openRead_ok (answer : fs.openPathWithFlags path O_RDONLY = (.ok fd, later)) :
    FsBackend.openRead path fs = (.ok fd, later) := wrapped_ok answer (.read path) "open"

theorem AdapterFs.openRead_error (answer : fs.openPathWithFlags path O_RDONLY = (.error e, later)) :
    ∃ e, FsBackend.openRead path fs = (.error e, later) := wrapped_error answer (.read path) "open"

theorem AdapterFs.openWriteTruncate_ok (answer : fs.openPathWithFlags path replacing = (.ok fd, later)) :
    FsBackend.openWriteTruncate path fs = (.ok fd, later) := wrapped_ok answer (.write path) "open"

theorem AdapterFs.openWriteTruncate_error (answer : fs.openPathWithFlags path replacing = (.error e, later)) :
    ∃ e, FsBackend.openWriteTruncate path fs = (.error e, later) := wrapped_error answer (.write path) "open"

theorem AdapterFs.read_ok (answer : fs.read fd n = (.ok bytes, later)) : FsBackend.read fd n fs = (.ok bytes, later) :=
  wrapped_ok answer (.read s!"fd {fd}") "read"

theorem AdapterFs.read_error (answer : fs.read fd n = (.error e, later)) : ∃ e, FsBackend.read fd n fs = (.error e, later) :=
  wrapped_error answer (.read s!"fd {fd}") "read"

theorem AdapterFs.write_ok (answer : fs.write fd bytes = (.ok n, later)) : FsBackend.write fd bytes fs = (.ok n, later) :=
  wrapped_ok answer (.write s!"fd {fd}") "write"

theorem AdapterFs.write_error (answer : fs.write fd bytes = (.error e, later)) : ∃ e, FsBackend.write fd bytes fs = (.error e, later) :=
  wrapped_error answer (.write s!"fd {fd}") "write"

end

/-- A descriptor was handed out and is left open on a directory. -/
structure LeftOpen (fs later : Fs T) (flags : Nat) : Prop where
  files : later.files = fs.files
  held : ∃ id, later.kind id = some true ∧ later.fdTable = AList.insert fs.nextFd ⟨id, 0, flags⟩ fs.fdTable

/-- A descriptor was handed out and closed again. -/
structure HandedBack (fs later : Fs T) : Prop where
  held : ∀ fd, later.fdTable.lookup fd = if fd = fs.nextFd then none else fs.fdTable.lookup fd

theorem readFileContent_file {id : InodeId} {stored : Stored} (healthy : Healthy fs)
    (opened : fs.openPathWithFlags path O_RDONLY = fs.insertFd id O_RDONLY) (found : fs.node id = some (some stored)) :
    (readFileContent path fs).1 = .ok stored.storage.content ∧ (readFileContent path fs).2.files = fs.files ∧
      HandedBack fs (readFileContent path fs).2 := by
  let middle := (fs.insertFd id O_RDONLY).2
  have opens : fs.openPathWithFlags path O_RDONLY = (.ok fs.nextFd, middle) := opened
  have held : middle.fdTable.lookup fs.nextFd = some ⟨id, 0, O_RDONLY⟩ := AList.lookup_insert _
  have there : middle.node id = some (some stored) := found
  obtain ⟨metadata, inode, size⟩ := node_inode found
  have sized : middle.fstat fs.nextFd = .ok metadata := by
    simp only [Fs.fstat, held]
    rw [show middle.inodeTable.lookup id = some ⟨metadata, .file stored.storage⟩ from inode]
  have agrees : metadata.size = stored.storage.size := size.trans (healthy.sizes id stored found)
  obtain ⟨bytes, read, filled⟩ := Fs.read_whole (healthy.whole id stored found) there held
  have result : readFileContent path fs = (.ok stored.storage.content,
      ((middle.read fs.nextFd stored.storage.size).2.close fs.nextFd).2) := by
    have step : FsBackend.openRead path fs = (.ok fs.nextFd, middle) := AdapterFs.openRead_ok opens
    have step' : FsBackend.fstatSize fs.nextFd middle = (.ok stored.storage.size, middle) :=
      wrapped_ok (by rw [sized, ← agrees]; rfl) _ _
    have answer : middle.read fs.nextFd stored.storage.size = (.ok bytes, (middle.read fs.nextFd stored.storage.size).2) :=
      Prod.ext read rfl
    have step'' : FsBackend.read fs.nextFd stored.storage.size middle = (.ok bytes, (middle.read fs.nextFd stored.storage.size).2) :=
      AdapterFs.read_ok answer
    rw [readFileContent, FsCall.run_bind, step]
    dsimp only
    rw [FsCall.run_bind, step']
    dsimp only
    rw [FsCall.run_bind, step'']
    dsimp only
    rw [FsCall.run_bind, run_closeQuietly]
    dsimp only
    rw [FsCall.run_pure, filled]
    rfl
  rw [result]
  refine ⟨rfl, ?_, ⟨fun fd => ?_⟩⟩
  · rw [Fs.close_files, Fs.read, Fs.files_same (Fs.readThrough_effect middle fs.nextFd _ _).1 (Fs.readThrough_node middle fs.nextFd _ _)]
    exact Fs.files_same (Fs.insertFd_effect fs id O_RDONLY).1 (Fs.insertFd_node fs id O_RDONLY)
  · rw [Fs.close_lookup]
    split
    · rfl
    · next other =>
      rw [Fs.read, Fs.readThrough_lookup _ _ _ _ other]
      exact AList.lookup_insert_ne other

/-- A whole-file read fails on a directory only after it was opened. -/
theorem readFileContent_dir {id : InodeId} (opened : fs.openPathWithFlags path O_RDONLY = fs.insertFd id O_RDONLY)
    (dir : fs.kind id = some true) : ∃ e, readFileContent path fs = (.error e, (fs.insertFd id O_RDONLY).2) := by
  let middle := (fs.insertFd id O_RDONLY).2
  have opens : fs.openPathWithFlags path O_RDONLY = (.ok fs.nextFd, middle) := opened
  have held : middle.fdTable.lookup fs.nextFd = some ⟨id, 0, O_RDONLY⟩ := AList.lookup_insert _
  obtain ⟨metadata, entries, stored, -⟩ := Fs.stored_dir dir
  have sized : middle.fstat fs.nextFd = .ok metadata := by
    simp only [Fs.fstat, held]
    rw [show middle.inodeTable.lookup id = some ⟨metadata, .dir entries⟩ from stored]
  have refused : middle.read fs.nextFd metadata.size = (.error .badFileDescriptor, middle) := Fs.read_dir dir held (by decide)
  have step : FsBackend.openRead path fs = (.ok fs.nextFd, middle) := AdapterFs.openRead_ok opens
  have step' : FsBackend.fstatSize fs.nextFd middle = (.ok metadata.size, middle) := wrapped_ok (by rw [sized]; rfl) _ _
  obtain ⟨e, step''⟩ : ∃ e, FsBackend.read fs.nextFd metadata.size middle = (.error e, middle) := AdapterFs.read_error refused
  refine ⟨e, ?_⟩
  rw [readFileContent, FsCall.run_bind, step]
  dsimp only
  rw [FsCall.run_bind, step']
  dsimp only
  rw [FsCall.run_bind, step'']

theorem readFileContent_cases (healthy : Healthy fs) (path : String) :
    (fs.files (components path) = none ∧ ¬ (path ≠ "" ∧ fs.Occupied (components path)) ∧ ∃ e, readFileContent path fs = (.error e, fs)) ∨
      (fs.files (components path) = none ∧ (path ≠ "" ∧ fs.Occupied (components path)) ∧
        ∃ e later, readFileContent path fs = (.error e, later) ∧ LeftOpen fs later O_RDONLY) ∨
      ∃ data, fs.files (components path) = some data ∧ (readFileContent path fs).1 = .ok data ∧
        (readFileContent path fs).2.files = fs.files ∧ HandedBack fs (readFileContent path fs).2 := by
  rcases Fs.openPath_read healthy.sane path with ⟨missing, e, failed⟩ | ⟨id, spelled, reached, opened⟩
  · obtain ⟨e, step⟩ : ∃ e, FsBackend.openRead path fs = (.error e, fs) := AdapterFs.openRead_error failed
    refine .inl ⟨?_, ?_, e, by rw [readFileContent, FsCall.run_bind, step]⟩
    · rcases missing with nowhere | blank
      · exact Fs.files_missing nowhere
      · rw [blank, Fs.components_empty]
        exact Fs.files_dir rfl healthy.sane.root
    · rintro ⟨spelled, v, there, -⟩
      rcases missing with nowhere | blank
      · cases there.symm.trans nowhere
      · exact spelled blank
  · obtain ⟨isDir, kind⟩ := Option.isSome_iff_exists.mp (Fs.walked_there healthy.sane reached)
    cases isDir with
    | true =>
      obtain ⟨e, failed⟩ := readFileContent_dir opened kind
      refine .inr (.inl ⟨Fs.files_dir reached kind, ⟨spelled, id, reached, kind⟩, e, _, failed, ?_, id, kind, rfl⟩)
      exact Fs.files_same (Fs.insertFd_effect fs id O_RDONLY).1 (Fs.insertFd_node fs id O_RDONLY)
    | false =>
      obtain ⟨stored, found⟩ := Fs.kind_node.mp kind
      obtain ⟨ok, files, back⟩ := readFileContent_file healthy opened found
      refine .inr (.inr ⟨stored.storage.content, ?_, ok, files, back⟩)
      rw [Fs.files_walked reached, found]
      rfl

/-! ### Replacing -/

/-- What was made on the way holds no files and opens nothing. -/
structure Grounded (fs middle : Fs T) : Prop where
  healthy : Healthy middle
  files : middle.files = fs.files
  held : middle.fdTable = fs.fdTable
  nextFd : middle.nextFd = fs.nextFd

theorem makeParent_grounded (word : target.usizeBits ≤ 64) (healthy : Healthy fs)
    (room : fs.nextInode + (components path).length < 2 ^ 64) :
    ∃ middle, makeParent path fs = (.ok (), middle) ∧ Grounded fs middle ∧ (components path ≠ [] → middle.nextInode + 1 < 2 ^ 64) := by
  have kept : ∃ middle, (pure () : FsCall (Fs T) Unit) fs = (.ok (), middle) ∧ Grounded fs middle ∧
      (components path ≠ [] → middle.nextInode + 1 < 2 ^ 64) :=
    ⟨fs, rfl, ⟨healthy, rfl, rfl, rfl⟩, fun some =>
      Nat.lt_of_le_of_lt (Nat.add_le_add_left (List.length_pos_iff.mpr some) _) room⟩
  unfold makeParent
  cases found : parentPath path with
  | none => exact kept
  | some parent =>
    dsimp only
    split
    · obtain ⟨tail, whole, some, -⟩ := parentPath_components found
      rw [whole, List.length_append, ← Nat.add_assoc] at room
      have fewer := Nat.lt_of_le_of_lt (Nat.le_add_right _ tail.length) room
      obtain ⟨held, next⟩ := mkdirP_beside fs parent
      refine ⟨(fs.mkdirP parent).2, rfl, ⟨perform_healthy word (.mkdirP parent) healthy fewer trivial,
        Fs.mkdirP_files parent healthy.sane fewer, held, next⟩, fun _ => ?_⟩
      exact Nat.lt_of_le_of_lt (Nat.add_le_add (Fs.mkdirP_next fs parent) (List.length_pos_iff.mpr some)) room
    · exact kept

omit [TimeProvider T] target in
theorem replacing_flags : replacing &&& O_CREAT ≠ 0 ∧ replacing &&& O_TRUNC ≠ 0 ∧ accessMode replacing = O_RDWR ∧
    replacing &&& O_APPEND = 0 := by decide

/-- One replacement of a file, from the state in which its directories are made. -/
theorem replace_cases {middle : Fs T} (word : target.usizeBits ≤ 64) (healthy : Healthy middle) (path : String)
    (room : components path ≠ [] → middle.nextInode + 1 < 2 ^ 64) (small : data.length < 2 ^ target.usizeBits) :
    (components path = [] ∧ ((path = "" ∧ ∃ e, FsBackend.openWriteTruncate path middle = (.error e, middle)) ∨
        (path ≠ "" ∧ ∃ fd later e, FsBackend.openWriteTruncate path middle = (.ok fd, later) ∧
          FsBackend.write fd data later = (.error e, later) ∧ LeftOpen middle later replacing))) ∨
      (components path ≠ [] ∧ (¬ middle.Housed (components path) ∨ middle.Occupied (components path)) ∧
        ∃ e, FsBackend.openWriteTruncate path middle = (.error e, middle)) ∨
      (components path ≠ [] ∧ middle.Housed (components path) ∧ ¬ middle.Occupied (components path) ∧
        ∃ fd opened n written, FsBackend.openWriteTruncate path middle = (.ok fd, opened) ∧
          FsBackend.write fd data opened = (.ok n, written) ∧ (written.close fd).1 = .ok () ∧
          (written.close fd).2.files = Function.update middle.files (components path) (some data) ∧
          HandedBack middle (written.close fd).2) := by
  obtain ⟨creates, truncates, writer, plain⟩ := replacing_flags
  rcases Fs.openPath_empties healthy.sane path creates truncates writer with
    ⟨root, ⟨blank, failed⟩ | ⟨spelled, result⟩⟩ | ⟨some, blocked, e, failed⟩ | ⟨some, housed, free, opened, id, result, emptied⟩
  · exact .inl ⟨root, .inl ⟨blank, AdapterFs.openWriteTruncate_error failed⟩⟩
  -- The root itself can be opened for replacing, and only the write fails.
  · let later := (middle.insertFd middle.rootInode replacing).2
    have held : later.fdTable.lookup middle.nextFd = .some ⟨middle.rootInode, 0, replacing⟩ := AList.lookup_insert _
    have dir : later.kind middle.rootInode = .some true := healthy.sane.root
    obtain ⟨e, failed⟩ : ∃ e, FsBackend.write middle.nextFd data later = (.error e, later) :=
      AdapterFs.write_error (Fs.write_dir dir held (by rw [writer]; decide))
    refine .inl ⟨root, .inr ⟨spelled, middle.nextFd, later, e, AdapterFs.openWriteTruncate_ok result, failed, ?_, middle.rootInode, dir, rfl⟩⟩
    exact Fs.files_same (Fs.insertFd_effect middle _ replacing).1 (Fs.insertFd_node middle _ replacing)
  · exact .inr (.inl ⟨some, blocked, AdapterFs.openWriteTruncate_error failed⟩)
  · have healthy' := perform_healthy word (.openPathWithFlags path replacing) healthy (room some) trivial
    rw [Call.perform, result] at healthy'
    obtain ⟨stored, found, empty⟩ := emptied.empty
    have held : opened.fdTable.lookup middle.nextFd = .some ⟨id, 0, replacing⟩ := by
      rw [emptied.held]
      exact AList.lookup_insert _
    obtain ⟨ok, files⟩ : (opened.write middle.nextFd data).1 = .ok data.length ∧
        (opened.write middle.nextFd data).2.files = Function.update opened.files (components path) (.some data) :=
      Fs.write_empty healthy'.sane healthy'.whole emptied.walked found empty held writer plain small
    have answer : opened.write middle.nextFd data = (.ok data.length, (opened.write middle.nextFd data).2) := Prod.ext ok rfl
    have still : ((opened.write middle.nextFd data).2.fdTable.lookup middle.nextFd).isSome := by
      have holder : (opened.write middle.nextFd data).2.holder = opened.holder := by
        rw [Fs.write]
        exact (Fs.writeThrough_effect opened middle.nextFd _ _ data).2
      have same := congrArg Option.isSome (congrFun holder middle.nextFd)
      rw [Fs.holder, Fs.holder, Option.isSome_map, Option.isSome_map, held] at same
      exact same
    have step : FsBackend.openWriteTruncate path middle = (.ok middle.nextFd, opened) := AdapterFs.openWriteTruncate_ok result
    have step' : FsBackend.write middle.nextFd data opened = (.ok data.length, (opened.write middle.nextFd data).2) :=
      AdapterFs.write_ok answer
    refine .inr (.inr ⟨some, housed, free, middle.nextFd, opened, data.length, _, step, step', ?_, ?_, ⟨fun fd => ?_⟩⟩)
    · rw [Fs.close, if_pos still]
    · rw [Fs.close_files, files, emptied.files, Function.update_idem]
    · rw [Fs.close_lookup]
      split
      · rfl
      · next other =>
        rw [Fs.write, Fs.writeThrough_lookup _ _ _ _ _ other, emptied.held]
        exact AList.lookup_insert_ne other

/-- A replacement succeeds and changes one file, or fails and changes none. -/
inductive Replaced (fs : Fs T) (path : String) (data : Bytes) : Except S3Error Unit × Fs T → Prop where
  | done {later : Fs T} (filled : components path ≠ []) (files : later.files = Function.update fs.files (components path) (some data))
      (back : HandedBack fs later) : Replaced fs path data (.ok (), later)
  | failed {e : S3Error} {later : Fs T} (elsewhere : ¬ (path ≠ "" ∧ components path = [])) (files : later.files = fs.files)
      (held : later.fdTable = fs.fdTable) :
      Replaced fs path data (.error e, later)
  | root {e : S3Error} {later : Fs T} (root : components path = []) (spelled : path ≠ "") (left : LeftOpen fs later replacing) :
      Replaced fs path data (.error e, later)

theorem replaced (word : target.usizeBits ≤ 64) (healthy : Healthy fs) (room : fs.nextInode + (components path).length < 2 ^ 64)
    (small : data.length < 2 ^ target.usizeBits) :
    Replaced fs path data (writeFileContent path data fs) ∧ loadFile path data fs = writeFileContent path data fs := by
  obtain ⟨middle, made, grounded, further⟩ := makeParent_grounded word healthy room
  rw [writeFileContent, loadFile, FsCall.run_bind, FsCall.run_bind, made]
  dsimp only
  rw [FsCall.run_bind, FsCall.run_bind]
  rcases replace_cases word grounded.healthy path further small with
    ⟨root, ⟨blank, e, step⟩ | ⟨spelled, fd, later, e, step, step', files, id, dir, held⟩⟩ | ⟨filled, -, e, step⟩ |
      ⟨filled, -, -, fd, opened, n, written, step, step', closed, files, back⟩
  · rw [step]
    exact ⟨.failed (fun there => there.1 blank) grounded.files grounded.held, rfl⟩
  · rw [step]
    dsimp only
    rw [FsCall.run_bind, FsCall.run_bind, step']
    refine ⟨.root root spelled ⟨files.trans grounded.files, id, dir, by rw [held, grounded.held, grounded.nextFd]⟩, rfl⟩
  · rw [step]
    exact ⟨.failed (fun there => filled there.2) grounded.files grounded.held, rfl⟩
  · rw [step]
    dsimp only
    rw [FsCall.run_bind, FsCall.run_bind, step']
    dsimp only
    have quiet : closeQuietly fd written = (.ok (), (written.close fd).2) := run_closeQuietly fd written
    have answer : written.close fd = (.ok (), (written.close fd).2) := Prod.ext closed rfl
    have loud : FsBackend.close fd written = (.ok (), (written.close fd).2) := wrapped_ok answer (.write s!"fd {fd}") "close"
    rw [quiet, loud]
    refine ⟨.done filled (by rw [files, grounded.files]) ⟨fun other => ?_⟩, rfl⟩
    rw [back.held, grounded.held, grounded.nextFd]

/-- A replacement needs the directory of its path and no directory in its place. -/
theorem writeFileContent_ok_iff {middle : Fs T} (word : target.usizeBits ≤ 64) (made : makeParent path fs = (.ok (), middle))
    (healthy : Healthy middle) (room : components path ≠ [] → middle.nextInode + 1 < 2 ^ 64) (small : data.length < 2 ^ target.usizeBits) :
    (writeFileContent path data fs).1 = .ok () ↔
      components path ≠ [] ∧ middle.Housed (components path) ∧ ¬ middle.Occupied (components path) := by
  rw [writeFileContent, FsCall.run_bind, made]
  dsimp only
  rw [FsCall.run_bind]
  rcases replace_cases word healthy path room small with
    ⟨root, ⟨-, e, step⟩ | ⟨-, fd, later, e, step, step', -⟩⟩ | ⟨-, refused, e, step⟩ |
      ⟨filled, housed, free, fd, opened, n, written, step, step', -⟩
  · rw [step]
    exact ⟨fun ok => (by cases ok), fun there => absurd root there.1⟩
  · rw [step]
    dsimp only
    rw [FsCall.run_bind, step']
    exact ⟨fun ok => (by cases ok), fun there => absurd root there.1⟩
  · rw [step]
    exact ⟨fun ok => (by cases ok), fun there => absurd there.2.1 (refused.resolve_right there.2.2)⟩
  · rw [step]
    dsimp only
    rw [FsCall.run_bind, step']
    dsimp only
    rw [run_closeQuietly]
    exact ⟨fun _ => ⟨filled, housed, free⟩, fun _ => rfl⟩

/-- For a path without dots, what is made first are the directories of its other components. -/
theorem makeParent_made (fs : Fs T) (filled : components path ≠ []) (plain : "." ∉ components path) :
    ∃ middle, makeParent path fs = (.ok (), middle) ∧
      ((∃ parent, parent ≠ "" ∧ components parent = (components path).dropLast ∧ middle = (fs.mkdirP parent).2) ∨
        ((components path).dropLast = [] ∧ middle = fs)) := by
  unfold makeParent
  cases found : parentPath path with
  | none =>
    refine absurd (List.eq_nil_iff_forall_not_mem.mpr fun name member => plain ?_) filled
    rw [← parentPath_none found name member]
    exact member
  | some parent =>
    obtain ⟨tail, whole, -, single⟩ := parentPath_components found
    obtain ⟨name, rfl⟩ := List.length_eq_one_iff.mp (single plain)
    have parents : components parent = (components path).dropLast := by rw [whole, List.dropLast_concat]
    dsimp only
    split
    · next spelled => exact ⟨(fs.mkdirP parent).2, rfl, .inl ⟨parent, spelled.1, parents, rfl⟩⟩
    · next short =>
      refine ⟨fs, rfl, .inr ⟨?_, rfl⟩⟩
      rw [← parents]
      rcases not_and_or.mp short with blank | slash
      · rw [not_not.mp blank]; decide
      · rw [not_not.mp slash]; decide

/-- The directories of a path without dots are there afterwards, unless a file is in the way. -/
theorem makeParent_housed (sane : Fs.Sane fs) (filled : components path ≠ []) (plain : "." ∉ components path)
    (room : fs.nextInode + (components path).length < 2 ^ 64) :
    ∃ middle, makeParent path fs = (.ok (), middle) ∧
      (middle.Housed (components path) ↔ ¬ fs.Blocked fs.rootInode (components path).dropLast) ∧
      (middle.Occupied (components path) ↔ fs.Occupied (components path)) := by
  obtain ⟨middle, made, ⟨parent, spelled, parents, rfl⟩ | ⟨top, rfl⟩⟩ := makeParent_made fs filled plain
  · refine ⟨_, made, Fs.mkdirP_housed sane parents spelled filled ?_⟩
    rw [parents, List.length_dropLast]
    exact Nat.lt_of_le_of_lt (Nat.add_le_add_left (Nat.sub_le ..) _) room
  · refine ⟨_, made, ?_, Iff.rfl⟩
    rw [top]
    exact ⟨fun _ => Fs.not_blocked_nil sane.root, fun _ => ⟨middle.rootInode, by rw [top]; rfl, sane.root⟩⟩

/-! ### The laws -/

/-- What the sync layer relies on of its filesystem, by the components of the paths. -/
structure Obeys (fs : AdapterFs T) : Prop where
  read : ∀ path, (readFileContent path fs).1.toOption = fs.files (components path)
  read_keeps : ∀ path, (readFileContent path fs).2.files = fs.files
  write_ok : ∀ {path data later}, fs.nextInode + (components path).length < 2 ^ 64 → data.length < 2 ^ target.usizeBits →
    writeFileContent path data fs = (.ok (), later) → later.files = Function.update fs.files (components path) (some data)
  write_error : ∀ {path data e later}, fs.nextInode + (components path).length < 2 ^ 64 → data.length < 2 ^ target.usizeBits →
    writeFileContent path data fs = (.error e, later) → later.files = fs.files
  load : ∀ {path data}, fs.nextInode + (components path).length < 2 ^ 64 → data.length < 2 ^ target.usizeBits →
    loadFile path data fs = writeFileContent path data fs
  unlink_ok : ∀ {path later}, FsBackend.unlink path fs = (.ok (), later) →
    fs.files (components path) ≠ none ∧ later.files = Function.update fs.files (components path) none
  unlink_error : ∀ {path e later}, FsBackend.unlink path fs = (.error e, later) → fs.files (components path) = none ∧ later = fs
  mkdirP_keeps : ∀ path, fs.nextInode + (components path).length < 2 ^ 64 → (FsBackend.mkdirP path fs).files = fs.files
  rmdir_keeps : ∀ path, (FsBackend.rmdir path fs).2.files = fs.files

theorem unlink_run (path : String) (sane : Fs.Sane fs) :
    (FsBackend.unlink path fs = (.ok (), (fs.unlink path).2) ∧ fs.files (components path) ≠ none ∧
        (fs.unlink path).2.files = Function.update fs.files (components path) none) ∨
      ((∃ e, FsBackend.unlink path fs = (.error e, fs)) ∧ fs.files (components path) = none) := by
  rcases Fs.unlink_files path sane with ⟨ok, some, files⟩ | ⟨⟨e, failed⟩, none, same⟩
  · have answer : fs.unlink path = (.ok (), (fs.unlink path).2) := Prod.ext ok rfl
    exact .inl ⟨wrapped_ok answer (.delete path) "unlink", some, files⟩
  · have answer : fs.unlink path = (.error e, fs) := Prod.ext failed same
    exact .inr ⟨wrapped_error answer (.delete path) "unlink", none⟩

/-- What was downloaded can be stored unless a file stands where its path needs a
directory, or a directory where it needs a file. -/
theorem stored_iff (word : target.usizeBits ≤ 64) (working : Working fs) (plain : "." ∉ components path)
    (room : fs.nextInode + (components path).length < 2 ^ 64) (small : data.length < 2 ^ target.usizeBits) :
    (writeFileContent path data fs).1 = .ok () ↔ components path ≠ [] ∧
      ¬ fs.Blocked fs.rootInode (components path).dropLast ∧ ¬ fs.Occupied (components path) := by
  have healthy := working.healthy word
  obtain ⟨middle, made, grounded, further⟩ := makeParent_grounded word healthy room
  rw [writeFileContent_ok_iff word made grounded.healthy further small]
  refine and_congr_right fun filled => ?_
  obtain ⟨middle', made', housed, occupied⟩ := makeParent_housed healthy.sane filled plain room
  cases made.symm.trans made'
  rw [housed, occupied]

/-- The descriptors are as before. -/
def SameDescriptors (fs later : Fs T) : Prop := ∀ fd, later.fdTable.lookup fd = fs.fdTable.lookup fd

omit [TimeProvider T] target in
theorem HandedBack.same (back : HandedBack fs later) (free : fs.fdTable.lookup fs.nextFd = none) : SameDescriptors fs later := by
  intro fd
  rw [back.held]
  split
  · next same => rw [same, free]
  · rfl

omit [TimeProvider T] target in
theorem LeftOpen.other {flags : Nat} (left : LeftOpen fs later flags) (free : fs.fdTable.lookup fs.nextFd = none) : ¬ SameDescriptors fs later := by
  intro same
  obtain ⟨id, -, held⟩ := left.held
  have there := same fs.nextFd
  rw [held, AList.lookup_insert, free] at there
  cases there

end
/-- A directory, a file in it, and a descriptor on the file. -/
def populated [Target] : Fs MonotonicCounter :=
  after [.mkdir "/a", .openPathWithFlags "/a/f" (O_RDWR ||| O_CREAT), .write 3 [7]] Fs.new

theorem populated_working :
    let _ : Target := .wasm32
    Working populated := by
  let _ : Target := .wasm32
  have opened : Working ((FsCore.Call.openPathWithFlags "/a/f" (O_RDWR ||| O_CREAT)).perform ((FsCore.Call.mkdir "/a").perform Fs.new)) :=
    .called (.called (.new MonotonicCounter.new) (.mkdir "/a") (by decide) trivial) _ (by decide) trivial
  refine .called opened (.write 3 [7]) (by decide) ?_
  intro handle stored held found _
  cases held
  cases found
  decide

theorem populated_stored :
    let _ : Target := .wasm32
    (writeFileContent "/a/f/g" [1] populated).1 = .ok () ↔ components "/a/f/g" ≠ [] ∧
      ¬ populated.Blocked populated.rootInode (components "/a/f/g").dropLast ∧ ¬ populated.Occupied (components "/a/f/g") := by
  let _ : Target := .wasm32
  exact stored_iff (by decide) populated_working (by decide) (by decide) (by decide)

end MonakaFs.Sync
