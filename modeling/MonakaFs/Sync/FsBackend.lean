import MonakaFs.Sync.State

/-! The local filesystem behind a sync manager, and an in-memory one.

`FsBackend` has the methods the manager calls. `LawfulBackend` adds what the
manager relies on: whole-file reads and writes act on one file, named by the
path as it is spelled, and a call that reports an error leaves every file alone.
-/

set_option autoImplicit false

namespace MonakaFs.Sync

/-- A filesystem call: it may fail, and the filesystem moves either way. -/
abbrev FsCall (F A : Type) := ExceptT S3Error (StateM F) A

namespace FsCall

variable {F A B : Type}

theorem run_bind (call : FsCall F A) (k : A → FsCall F B) (fs : F) :
    (call >>= k) fs = match call fs with
      | (.ok value, fs) => k value fs
      | (.error e, fs) => (.error e, fs) := by
  simp only [bind, ExceptT.bind, ExceptT.mk, StateT.bind, ExceptT.bindCont]
  rcases call fs with ⟨_ | _, _⟩ <;> rfl

@[simp] theorem run_pure (value : A) (fs : F) : (pure value : FsCall F A) fs = (.ok value, fs) := rfl

@[simp] theorem run_modify (change : F → F) (fs : F) : (modify change : FsCall F Unit) fs = (.ok (), change fs) := rfl

end FsCall

class FsBackend (F : Type) where
  openRead : String → FsCall F Nat
  openWriteTruncate : String → FsCall F Nat
  /-- At most this many bytes from the descriptor's position. -/
  read : Nat → Nat → FsCall F Bytes
  write : Nat → Bytes → FsCall F Nat
  close : Nat → FsCall F Unit
  statModified : String → F → Nat
  fstatSize : Nat → FsCall F Nat
  unlink : String → FsCall F Unit
  mkdirP : String → F → F
  rmdir : String → FsCall F Unit

section
variable {F : Type} [FsBackend F]

def closeQuietly (fd : Nat) : FsCall F Unit :=
  tryCatch (FsBackend.close fd) fun _ => pure ()

theorem run_closeQuietly (fd : Nat) (fs : F) : closeQuietly fd fs = (.ok (), (FsBackend.close fd fs).2) := by
  simp only [closeQuietly, tryCatch, tryCatchThe, MonadExceptOf.tryCatch, ExceptT.tryCatch, ExceptT.mk, bind,
    StateT.bind]
  rcases FsBackend.close fd fs with ⟨_ | _, _⟩ <;> rfl

/-- The whole content of a file, read into a zeroed buffer of the file's size. -/
def readFileContent (path : String) : FsCall F Bytes := do
  let fd ← FsBackend.openRead path
  let size ← FsBackend.fstatSize fd
  let content ← FsBackend.read fd size
  closeQuietly fd
  return content ++ List.replicate (size - content.length) 0

end

/-- Segments that `Path::components` skips at the end of a path. -/
def dropTrailing (segments : List (List Char)) : List (List Char) :=
  segments.rdropWhile fun segment => segment == [] || segment == ['.']

/-- `Path::parent`, on the segments between separators. -/
def parentPath (path : String) : Option String :=
  match path.toList.splitOn '/' with
  | [] => none
  | first :: rest =>
      match dropTrailing rest with
      | [] => if first = [] then none else some ""
      | segment :: segments =>
          let parent := dropTrailing (segment :: segments).dropLast
          if first = [] ∧ parent = [] then some "/"
          else some (String.ofList (['/'].intercalate (first :: parent)))

section
variable {F : Type} [FsBackend F]

def makeParent (path : String) : FsCall F Unit :=
  match parentPath path with
  | some parent => if parent ≠ "" ∧ parent ≠ "/" then modify (FsBackend.mkdirP parent) else pure ()
  | none => pure ()

/-- Replace the content of a file, creating it and its directories as needed. -/
def writeFileContent (path : String) (content : Bytes) : FsCall F Unit := do
  makeParent path
  let fd ← FsBackend.openWriteTruncate path
  let _ ← FsBackend.write fd content
  closeQuietly fd

/-- The same at the initial load, where a failing close counts. -/
def loadFile (path : String) (content : Bytes) : FsCall F Unit := do
  makeParent path
  let fd ← FsBackend.openWriteTruncate path
  let _ ← FsBackend.write fd content
  FsBackend.close fd

end

class LawfulBackend (F : Type) extends FsBackend F where
  /-- The bytes of a file; `none` when the path names no file. -/
  content : F → String → Option Bytes
  read_ok : ∀ {path : String} {fs : F} {data : Bytes},
    (readFileContent path fs).1 = .ok data → content fs path = some data
  read_keeps : ∀ (path : String) (fs : F), content (readFileContent path fs).2 = content fs
  write_ok : ∀ {path : String} {data : Bytes} {fs : F}, (writeFileContent path data fs).1 = .ok () →
    content (writeFileContent path data fs).2 = Function.update (content fs) path (some data)
  write_error : ∀ {path : String} {data : Bytes} {fs : F} {e : S3Error},
    (writeFileContent path data fs).1 = .error e → content (writeFileContent path data fs).2 = content fs
  load_ok : ∀ {path : String} {data : Bytes} {fs : F}, (loadFile path data fs).1 = .ok () →
    content (loadFile path data fs).2 = Function.update (content fs) path (some data)
  unlink_ok : ∀ {path : String} {fs : F}, (FsBackend.unlink path fs).1 = .ok () →
    content (FsBackend.unlink path fs).2 = Function.update (content fs) path none
  unlink_error : ∀ {path : String} {fs : F} {e : S3Error}, (FsBackend.unlink path fs).1 = .error e →
    content (FsBackend.unlink path fs).2 = content fs
  mkdirP_keeps : ∀ (path : String) (fs : F), content (FsBackend.mkdirP path fs) = content fs
  rmdir_keeps : ∀ (path : String) (fs : F), content (FsBackend.rmdir path fs).2 = content fs

/-- The in-memory filesystem of the crate's tests. -/
structure MemFs where
  files : Map Bytes
  mtimes : Map Nat
  dirs : List String
  fds : AList (fun _ : Nat => String × Nat)
  nextFd : Nat
  clock : Nat

namespace MemFs

def empty : MemFs := ⟨∅, ∅, [], ∅, 0, 0⟩

def err (kind key : String) : S3Error := .read key kind

/-- A write as an application does it: replace the content, bump the time. -/
def writeLocal (path : String) (data : Bytes) (fs : MemFs) : MemFs :=
  { fs with
    clock := fs.clock + 1
    files := fs.files.insert path data
    mtimes := fs.mtimes.insert path (fs.clock + 1) }

def removeLocal (path : String) (fs : MemFs) : MemFs := { fs with files := fs.files.erase path }

def openFd (path : String) (fs : MemFs) : Except S3Error Nat × MemFs :=
  (.ok (fs.nextFd + 1), { fs with nextFd := fs.nextFd + 1, fds := fs.fds.insert (fs.nextFd + 1) (path, 0) })

/-- Bytes placed at a position, the gap before it filled with zeros. -/
def overwrite (data : Bytes) (pos : Nat) (buf : Bytes) : Bytes :=
  (data ++ List.replicate (pos - data.length) 0).take pos ++ buf ++ data.drop (pos + buf.length)

/-- Every directory on the way to a path. -/
def ancestors (path : String) : List String :=
  let segments := (path.toList.splitOn '/').filter (· ≠ [])
  segments.inits.tail.map fun front => String.ofList ('/' :: ['/'].intercalate front)

instance : FsBackend MemFs where
  openRead path := fun fs =>
    if (fs.files.lookup path).isSome then openFd path fs else (.error (err "not found" path), fs)
  openWriteTruncate path := fun fs => openFd path (writeLocal path [] fs)
  read fd len := fun fs =>
    match fs.fds.lookup fd with
    | none => (.error (err "bad fd" ""), fs)
    | some (path, pos) =>
        let data := (fs.files.lookup path).getD []
        let bytes := (data.drop pos).take len
        (.ok bytes, { fs with fds := fs.fds.insert fd (path, pos + bytes.length) })
  write fd buf := fun fs =>
    match fs.fds.lookup fd with
    | none => (.error (err "bad fd" ""), fs)
    | some (path, pos) =>
        let data := (fs.files.lookup path).getD []
        (.ok buf.length,
          { fs with
            files := fs.files.insert path (overwrite data pos buf)
            fds := fs.fds.insert fd (path, pos + buf.length) })
  close fd := fun fs => (.ok (), { fs with fds := fs.fds.erase fd })
  statModified path fs := (fs.mtimes.lookup path).getD 0
  fstatSize fd := fun fs =>
    match fs.fds.lookup fd with
    | none => (.error (err "bad fd" ""), fs)
    | some (path, _) => (.ok ((fs.files.lookup path).map List.length |>.getD 0), fs)
  unlink path := fun fs =>
    if (fs.files.lookup path).isSome then (.ok (), { fs with files := fs.files.erase path })
    else (.error (err "not found" path), fs)
  mkdirP path fs := { fs with dirs := ancestors path ++ fs.dirs }
  rmdir path := fun fs =>
    let under (name : String) := (path ++ "/").toList.isPrefixOf name.toList
    if fs.files.keys.any under || fs.dirs.any under then (.error (err "not empty" path), fs)
    else if path ∈ fs.dirs then (.ok (), { fs with dirs := fs.dirs.filter (· ≠ path) })
    else (.error (err "not found" path), fs)

theorem overwrite_empty (buf : Bytes) : overwrite [] 0 buf = buf := by simp [overwrite]

@[simp] theorem lookup_fd (fds : AList (fun _ : Nat => String × Nat)) (fd : Nat) (entry : String × Nat) :
    (fds.insert fd entry).lookup fd = some entry := AList.lookup_insert fds

theorem readFileContent_none {path : String} {fs : MemFs} (missing : fs.files.lookup path = none) :
    readFileContent path fs = (.error (err "not found" path), fs) := by
  simp [readFileContent, FsCall.run_bind, FsBackend.openRead, missing]

theorem readFileContent_some {path : String} {fs : MemFs} {data : Bytes}
    (found : fs.files.lookup path = some data) :
    (readFileContent path fs).1 = .ok data ∧ (readFileContent path fs).2.files = fs.files := by
  simp [readFileContent, FsCall.run_bind, FsBackend.openRead, found, openFd, FsBackend.fstatSize,
    FsBackend.read, run_closeQuietly, FsBackend.close, -bind_pure_comp]

theorem makeParent_eq (path : String) (fs : MemFs) :
    ∃ later : MemFs, makeParent path fs = (.ok (), later) ∧ later.files = fs.files := by
  unfold makeParent
  rcases parentPath path with _ | parent
  · exact ⟨fs, rfl, rfl⟩
  · by_cases named : parent ≠ "" ∧ parent ≠ "/"
    · exact ⟨FsBackend.mkdirP parent fs, by simp [named], rfl⟩
    · exact ⟨fs, by simp only [named, if_false]; rfl, rfl⟩

theorem writeFileContent_eq (path : String) (data : Bytes) (fs : MemFs) :
    (writeFileContent path data fs).1 = .ok () ∧
      (writeFileContent path data fs).2.files = (fs.files.insert path []).insert path data := by
  obtain ⟨later, made, files⟩ := makeParent_eq path fs
  simp [writeFileContent, FsCall.run_bind, made, files, FsBackend.openWriteTruncate, openFd, writeLocal,
    FsBackend.write, overwrite_empty, run_closeQuietly, FsBackend.close]

theorem loadFile_eq (path : String) (data : Bytes) (fs : MemFs) :
    loadFile path data fs = writeFileContent path data fs := by
  obtain ⟨later, made, files⟩ := makeParent_eq path fs
  simp [writeFileContent, loadFile, FsCall.run_bind, made, FsBackend.openWriteTruncate, openFd, writeLocal,
    FsBackend.write, run_closeQuietly, FsBackend.close]

theorem lookup_written (path other : String) (data : Bytes) (fs : MemFs) :
    (writeFileContent path data fs).2.files.lookup other =
      Function.update (fun name => fs.files.lookup name) path (some data) other := by
  simp only [(writeFileContent_eq path data fs).2, Map.lookup_insert_eq, Function.update_apply]
  split <;> rfl

instance : LawfulBackend MemFs where
  content fs path := fs.files.lookup path
  read_ok {path fs data} returned := by
    cases found : fs.files.lookup path with
    | none => rw [readFileContent_none found] at returned; cases returned
    | some stored => rw [(readFileContent_some found).1] at returned; cases returned; rfl
  read_keeps path fs := by
    cases found : fs.files.lookup path with
    | none => rw [readFileContent_none found]
    | some stored => rw [(readFileContent_some found).2]
  write_ok {path data fs} _ := funext fun other => lookup_written path other data fs
  write_error {path data fs e} failed := by rw [(writeFileContent_eq path data fs).1] at failed; cases failed
  load_ok {path data fs} _ := funext fun other => by rw [loadFile_eq]; exact lookup_written path other data fs
  unlink_ok {path fs} removed := by
    simp only [FsBackend.unlink] at removed ⊢
    split at removed
    · next found =>
      funext other
      simp only [found, if_true, Map.lookup_erase_eq, Function.update_apply]
    · cases removed
  unlink_error {path fs e} failed := by
    simp only [FsBackend.unlink] at failed ⊢
    split at failed
    · cases failed
    · next missing => simp [missing]
  mkdirP_keeps _ _ := rfl
  rmdir_keeps path fs := by
    simp only [FsBackend.rmdir]
    split
    · rfl
    · split <;> rfl

end MemFs
end MonakaFs.Sync
