import MonakaFs.FsCore.Listing
import MonakaFs.Rpc.Protocol

/-! The server: what it keeps about descriptors, and how it handles a request.

One thread handles the requests of all connections one after the other. With a sync
manager it tells it about opens, writes and closes; what the manager does to the
filesystem meanwhile is a parameter of every request.
-/

set_option autoImplicit false

namespace MonakaFs.Rpc

open FsCore

/-- What the sync manager does when it is called, and what it answers where the server looks at that. -/
structure SyncManager (T : Type) where
  fileLockEnabled : Bool
  isRealtime : Bool
  pending : Bool
  onOpenWrite : String → Fs T → Except Sync.SyncError Unit × Fs T
  checkAndRefresh : String → Fs T → Fs T
  refreshFile : String → Fs T → Fs T
  onClose : String → Fs T → Except Sync.SyncError Unit × Fs T
  onFsync : String → Fs T → Except Sync.SyncError Unit × Fs T
  syncFileNow : String → Fs T → Fs T
  onMkdir : String → Fs T → Fs T
  onRmdir : String → Fs T → Fs T
  maybeSync : Fs T → Fs T
  forceFlush : Fs T → Fs T

/-- The order in which a hash set is gone through. -/
structure Traversal (A : Type) where
  order : List A → List A
  perm : ∀ items, (order items).Perm items

structure ServerContext (T : Type) where
  fs : Fs T
  fdPathMap : Table Fd String
  fdFlagsMap : Table Fd Nat
  /-- Each descriptor with the session that opened it. -/
  sessionFds : List (String × Fd)
  s3RefreshedFds : List Fd
  readFromS3 : Bool
  metadataSync : Bool

/-- Whether open flags request write access. -/
def isWriteAccess (flags : Nat) : Bool := accessMode flags ≠ O_RDONLY

/-- Absolute path of a path opened relative to a directory. -/
def joinDir (dirPath path : String) : String :=
  if dirPath = "/" then "/" ++ Text.trimStartMatches '/' path
  else Text.trimEndMatches '/' dirPath ++ "/" ++ Text.trimStartMatches '/' path

namespace ServerContext

variable {T : Type}

def registerFd (ctx : ServerContext T) (fd : Fd) (path : Option String) (flags : Nat) (session : Option String) : ServerContext T :=
  { ctx with
    fdPathMap :=
      match path with
      | some path => AList.insert fd path ctx.fdPathMap
      | none => ctx.fdPathMap
    fdFlagsMap := AList.insert fd flags ctx.fdFlagsMap
    sessionFds :=
      match session with
      | some sid => ctx.sessionFds.insert (sid, fd)
      | none => ctx.sessionFds }

/-- Forget a descriptor in every map. -/
def unregisterFd (ctx : ServerContext T) (fd : Fd) : ServerContext T :=
  { ctx with
    fdPathMap := AList.erase fd ctx.fdPathMap
    fdFlagsMap := AList.erase fd ctx.fdFlagsMap
    sessionFds := ctx.sessionFds.filter (·.2 ≠ fd)
    s3RefreshedFds := ctx.s3RefreshedFds.filter (· ≠ fd) }

/-- Acquire the lease for a write open, or refresh the file. An error stops the open. -/
def beforeOpen (ctx : ServerContext T) (sync : Option (SyncManager T)) (path : String) (flags : Nat) :
    Option Response × ServerContext T :=
  match sync with
  | none => (none, ctx)
  | some sync =>
      if sync.fileLockEnabled ∧ isWriteAccess flags then
        match sync.onOpenWrite path ctx.fs with
        | (.ok (), fs) => (none, { ctx with fs := fs })
        | (.error e, fs) => (some (mapSyncError e), { ctx with fs := fs })
      else if ctx.metadataSync then (none, { ctx with fs := sync.checkAndRefresh path ctx.fs })
      else (none, ctx)

/-- Close a descriptor locally, and let the sync manager push what was written through it. -/
def closeFd (ctx : ServerContext T) (sync : Option (SyncManager T)) (fd : Fd) : Response × ServerContext T :=
  let path := ctx.fdPathMap.lookup fd
  let flags := (ctx.fdFlagsMap.lookup fd).getD 0
  let closed := ctx.fs.close fd
  let response :=
    match closed.1 with
    | .ok () => Response.ok
    | .error e => mapFsError e
  let ctx := { ctx.unregisterFd fd with fs := closed.2 }
  match path, sync with
  | some path, some sync =>
      if isWriteAccess flags then
        match sync.onClose path ctx.fs with
        | (.ok (), fs) => (response, { ctx with fs := fs })
        | (.error e, fs) => (mapSyncError e, { ctx with fs := fs })
      else (response, ctx)
  | _, _ => (response, ctx)

/-- The descriptors recorded for a session. -/
def fdsOf (ctx : ServerContext T) (sessionId : String) : List Fd := (ctx.sessionFds.filter (·.1 = sessionId)).map (·.2)

/-- Close every descriptor a session left open. -/
def closeSession (ctx : ServerContext T) (sync : Option (SyncManager T)) (traversal : Traversal Fd) (sessionId : String) :
    ServerContext T :=
  (traversal.order (ctx.fdsOf sessionId)).foldl (fun ctx fd => (ctx.closeFd sync fd).2)
    { ctx with sessionFds := ctx.sessionFds.filter (·.1 ≠ sessionId) }

/-- Push everything that waits to be pushed. -/
def flushPending (ctx : ServerContext T) (sync : Option (SyncManager T)) : ServerContext T :=
  match sync with
  | some sync => if sync.pending then { ctx with fs := sync.forceFlush ctx.fs } else ctx
  | none => ctx

/-- Outbound sync after a successful local write. A queued upload does not touch the filesystem. -/
def afterWrite (ctx : ServerContext T) (sync : Option (SyncManager T)) (fd : Fd) : ServerContext T :=
  match sync, ctx.fdPathMap.lookup fd with
  | some sync, some path => if sync.isRealtime then { ctx with fs := sync.syncFileNow path ctx.fs } else ctx
  | _, _ => ctx

/-- A notice that the sync manager answers by acting on the filesystem, if it is there. -/
def notify (ctx : ServerContext T) (sync : Option (SyncManager T)) (path : String) (hook : SyncManager T → String → Fs T → Fs T) :
    ServerContext T :=
  match sync with
  | some sync => { ctx with fs := hook sync path ctx.fs }
  | none => ctx

/-- Read-through before a read, once for each descriptor. -/
def beforeRead (ctx : ServerContext T) (sync : Option (SyncManager T)) (fd : Fd) : ServerContext T :=
  if ctx.readFromS3 ∧ fd ∉ ctx.s3RefreshedFds then
    let fs :=
      match ctx.fdPathMap.lookup fd, sync with
      | some path, some sync => sync.refreshFile path ctx.fs
      | _, _ => ctx.fs
    { ctx with fs := fs, s3RefreshedFds := fd :: ctx.s3RefreshedFds }
  else ctx

/-- The response to a filesystem call. -/
def answer {A : Type} (result : Except FsError A) (response : A → Response) : Response :=
  match result with
  | .ok value => response value
  | .error e => mapFsError e

section
variable [TimeProvider T] [Target]

/-- A call that only changes the filesystem, and what follows when it succeeds. -/
def performing {A : Type} (ctx : ServerContext T) (outcome : Outcome T A) (response : A → Response)
    (after : ServerContext T → ServerContext T) : Response × ServerContext T :=
  match outcome with
  | (.ok value, fs) => (response value, after { ctx with fs := fs })
  | (.error e, fs) => (mapFsError e, { ctx with fs := fs })

/-- An open, once the sync manager let it pass. -/
def opening (ctx : ServerContext T) (outcome : Outcome T Fd) (path : Option String) (flags : Nat) (sessionId : Option String) :
    Response × ServerContext T :=
  match outcome with
  | (.ok fd, fs) => (.fd fd, { ctx with fs := fs }.registerFd fd path flags sessionId)
  | (.error e, fs) => (mapFsError e, { ctx with fs := fs })

def handleRequest (ctx : ServerContext T) (sync : Option (SyncManager T)) (request : Request) (sessionId : Option String)
    (newSessionId : String) : Response × ServerContext T :=
  match request with
  | .connect version =>
      match negotiateVersion version with
      | some negotiated => (.connected newSessionId negotiated, ctx)
      | none => (.error .protocolError s!"Protocol version mismatch: client={version}, server={PROTOCOL_VERSION}", ctx)
  | .openPath path flags =>
      match ctx.beforeOpen sync path flags with
      | (some err, ctx) => (err, ctx)
      | (none, ctx) => ctx.opening (ctx.fs.openPathWithFlags path flags) (some path) flags sessionId
  | .openAt dirFd path flags =>
      let absPath := (ctx.fdPathMap.lookup dirFd).map fun dir => joinDir dir path
      let before :=
        match absPath with
        | some abs => ctx.beforeOpen sync abs flags
        | none => (none, ctx)
      match before with
      | (some err, ctx) => (err, ctx)
      | (none, ctx) => ctx.opening (ctx.fs.openAt dirFd path flags) absPath flags sessionId
  | .read fd length =>
      let ctx := ctx.beforeRead sync fd
      ctx.performing (ctx.fs.read fd length) .data id
  | .write fd data => ctx.performing (ctx.fs.write fd data) .written (·.afterWrite sync fd)
  | .appendWrite fd data => ctx.performing (ctx.fs.appendWrite fd data) .written (·.afterWrite sync fd)
  | .ftruncate fd size => ctx.performing (ctx.fs.ftruncate fd size) (fun _ => .ok) (·.afterWrite sync fd)
  | .close fd => ctx.closeFd sync fd
  | .fsync fd =>
      match ctx.fdFlagsMap.lookup fd with
      | none => (mapFsError .badFileDescriptor, ctx)
      | some flags =>
          match ctx.fdPathMap.lookup fd, sync with
          | some path, some sync =>
              if isWriteAccess flags then
                match sync.onFsync path ctx.fs with
                | (.ok (), fs) => (.ok, { ctx with fs := fs })
                | (.error e, fs) => (mapSyncError e, { ctx with fs := fs })
              else (.ok, ctx)
          | _, _ => (.ok, ctx)
  | .seek fd offset whence => ctx.performing (ctx.fs.seek fd offset whence) .position id
  | .fstat fd => (answer (ctx.fs.fstat fd) fun found => .metadata (fileMetadata found), ctx)
  | .stat path => (answer (ctx.fs.stat path) fun found => .metadata (fileMetadata found), ctx)
  | .mkdir path => ctx.performing (ctx.fs.mkdir path) (fun _ => .ok) (·.notify sync path SyncManager.onMkdir)
  | .mkdirP path => ctx.performing (ctx.fs.mkdirP path) (fun _ => .ok) (·.notify sync path SyncManager.onMkdir)
  | .unlink path => ctx.performing (ctx.fs.unlink path) (fun _ => .ok) id
  | .readdir path =>
      (answer (ctx.fs.readdir path) fun names => .dirEntries (names.map fun name =>
        let fullPath := if path = "/" then "/" ++ name else path ++ "/" ++ name
        (name, (ctx.fs.stat fullPath).toOption.any (·.isDir))), ctx)
  | .readdirFd fd => (answer (ctx.fs.readdirFd fd) .dirEntries, ctx)
  | .rmdir path => ctx.performing (ctx.fs.rmdir path) (fun _ => .ok) (·.notify sync path SyncManager.onRmdir)
  | .rename oldPath newPath => ctx.performing (ctx.fs.rename oldPath newPath) (fun _ => .ok) id

end

end ServerContext

/-! ### Connections -/

/-- A connection over its life. -/
inductive Client where
  | waiting
  | connected (sessionId : Option String)
  | gone
  deriving DecidableEq

structure Server (C T : Type) where
  ctx : ServerContext T
  clients : C → Client

inductive Event (C T : Type) where
  | accept (client : C)
  | request (client : C) (request : Request) (newSessionId : String) (sync : Option (SyncManager T))
  /-- After a response, and every so often. -/
  | maybeSync (sync : SyncManager T)
  /-- The client closed the connection, or a response could not be written. -/
  | disconnect (client : C) (traversal : Traversal Fd) (sync : Option (SyncManager T))

namespace Server

variable {C T : Type} [DecidableEq C] [TimeProvider T] [Target]

/-- The disconnect handling. -/
def disconnected (server : Server C T) (client : C) (sessionId : Option String) (traversal : Traversal Fd)
    (sync : Option (SyncManager T)) : Server C T :=
  let ctx :=
    match sessionId with
    | some sid => server.ctx.closeSession sync traversal sid
    | none => server.ctx
  ⟨ctx.flushPending sync, Function.update server.clients client .gone⟩

def step (server : Server C T) : Event C T → Option Response × Server C T
  | .accept client =>
      match server.clients client with
      | .waiting => (none, { server with clients := Function.update server.clients client (.connected none) })
      | _ => (none, server)
  | .request client request newSessionId sync =>
      match server.clients client with
      | .connected sessionId =>
          match server.ctx.handleRequest sync request sessionId newSessionId with
          | (.connected sid version, ctx) =>
              (some (.connected sid version), ⟨ctx, Function.update server.clients client (.connected (some sid))⟩)
          | (response, ctx) => (some response, { server with ctx := ctx })
      | _ => (none, server)
  | .maybeSync sync => (none, { server with ctx := { server.ctx with fs := sync.maybeSync server.ctx.fs } })
  | .disconnect client traversal sync =>
      match server.clients client with
      | .connected sessionId => (none, server.disconnected client sessionId traversal sync)
      | _ => (none, server)

end Server
end MonakaFs.Rpc
