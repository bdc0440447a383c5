import MonakaFs.FsCore.Fs

/-! Directory listings. The order of the names is the hash map's. -/

set_option autoImplicit false

namespace MonakaFs.FsCore.Fs

variable {T : Type}

def readdir (fs : Fs T) (path : String) : Except FsError (List String) :=
  if path = "" then .error .invalidArgument
  else
    match fs.inodeTable.lookup fs.rootInode with
    | none => .error .notFound
    | some _ => do
        let found ← (components path).foldlM (fun current comp => fs.findInode current comp) fs.rootInode
        match fs.entries found with
        | some entries => return entries.keys
        | none => throw .notADirectory

/-- The names with whether each is a directory. -/
def readdirFd (fs : Fs T) (fd : Fd) : Except FsError (List (String × Bool)) :=
  match fs.fdTable.lookup fd with
  | none => .error .badFileDescriptor
  | some handle =>
      match fs.inodeTable.lookup handle.inodeId with
      | none => .error .notFound
      | some inode =>
          match inode.content with
          | .file _ => .error .notADirectory
          | .dir entries => .ok (entries.entries.filterMap fun entry =>
              (fs.inodeTable.lookup entry.2).map fun child => (entry.1, child.metadata.isDir))

end MonakaFs.FsCore.Fs
