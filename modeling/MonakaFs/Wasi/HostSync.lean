import MonakaFs.Wasi.Fronts

/-! What the host tells the sync manager about the files it changes.

Content changes through a descriptor, through an output stream, by a truncation and
by an open. Some of these are reported when they happen, some later and some never,
and the resources may be dropped in any order.
-/

set_option autoImplicit false

namespace MonakaFs.Wasi.VfsHost

open FsCore Fs

/-! ### The hooks -/

/-- How a descriptor was opened, as far as the sync layer cares. -/
inductive OpenKind where
  | read
  | write
  deriving DecidableEq

/-- Write access is the low two bits. -/
def OpenKind.fromFsFlags (flags : Nat) : OpenKind := if accessMode flags ≠ O_RDONLY then .write else .read

/-- What the hooks ask of the sync manager. -/
inductive ManagerCall where
  | syncFileNow (path : String)
  | enqueueUpload (path : String)
  | onOpenWrite (path : String)
  | checkAndRefreshFromS3 (path : String)
  | onClose (path : String)
  | onFsync (path : String)
  deriving DecidableEq

structure S3SyncHooks where
  isRealtime : Bool
  fileLockEnabled : Bool
  metadataSync : Bool

namespace S3SyncHooks

def onWrite (hooks : S3SyncHooks) (path : String) : ManagerCall := if hooks.isRealtime then .syncFileNow path else .enqueueUpload path

def onTruncate (hooks : S3SyncHooks) (path : String) : ManagerCall := if hooks.isRealtime then .syncFileNow path else .enqueueUpload path

/-- For write opens this takes the lease. -/
def onOpen (hooks : S3SyncHooks) (path : String) (kind : OpenKind) : List ManagerCall :=
  if hooks.fileLockEnabled ∧ kind = .write then [.onOpenWrite path]
  else if hooks.metadataSync then [.checkAndRefreshFromS3 path]
  else []

def onClose (hooks : S3SyncHooks) (path : String) (kind : OpenKind) : List ManagerCall :=
  if hooks.fileLockEnabled ∧ kind = .write then [.onClose path] else []

def onFsync (_hooks : S3SyncHooks) (path : String) (kind : OpenKind) : List ManagerCall :=
  if kind = .write then [.onFsync path] else []

end S3SyncHooks

/-! ### The host's resources -/

/-- An output stream of a file, and the path it reports. -/
structure SyncedStream where
  stream : FsOutputStreamWrapper
  path : Option String

inductive Resource where
  | descriptor (wrapper : FsDescriptorWrapper)
  | output (stream : SyncedStream)

structure HostState (T : Type) where
  table : Nat → Option Resource
  sharedVfs : Fs T

namespace HostState

variable {T : Type} (state : HostState T)

def descriptor (rep : Nat) : Option FsDescriptorWrapper :=
  match state.table rep with
  | some (.descriptor wrapper) => some wrapper
  | _ => none

def output (rep : Nat) : Option SyncedStream :=
  match state.table rep with
  | some (.output stream) => some stream
  | _ => none

def put (rep : Nat) (resource : Option Resource) : HostState T := { state with table := Function.update state.table rep resource }

/-- The path is open for write. -/
def WriteOpen (path : String) : Prop :=
  ∃ rep wrapper, state.descriptor rep = some wrapper ∧ wrapper.path = some path ∧ OpenKind.fromFsFlags wrapper.flags = .write

end HostState

structure OpenFlags where
  create : Bool
  truncate : Bool

structure DescriptorFlags where
  read : Bool
  write : Bool

/-- The flags that the filesystem is opened with. -/
def fsFlags (openFlags : OpenFlags) (flags : DescriptorFlags) : Nat :=
  (if flags.read ∧ flags.write then O_RDWR else if flags.write then O_WRONLY else O_RDONLY) |||
    (if openFlags.create then O_CREAT else 0) ||| (if openFlags.truncate then O_TRUNC else 0)

/-- A call of the guest. -/
inductive Event where
  | openAt (dir : Nat) (path : String) (openFlags : OpenFlags) (flags : DescriptorFlags)
  | write (rep : Nat) (buffer : Bytes) (offset : Nat)
  | writeViaStream (rep offset : Nat)
  | appendViaStream (rep : Nat)
  | streamWrite (rep : Nat) (bytes : Bytes)
  | setSize (rep size : Nat)
  | sync (rep : Nat)
  | dropStream (rep : Nat)
  | dropDescriptor (rep : Nat)

/-- What a call finds: the number of a new resource, whether a hook that may fail succeeds. -/
structure Turn where
  rep : Nat
  hookOk : Bool

section
variable {T : Type} [TimeProvider T] [Target]

/-- The calls made to the manager, and the state after a call of the guest. -/
def HostState.step (hooks : S3SyncHooks) (turn : Turn) (state : HostState T) : Event → List ManagerCall × HostState T
  | .openAt dir path openFlags flags =>
      match state.descriptor dir with
      | none => ([], state)
      | some d =>
          let fullPath := resolvePath d.path path
          let fsFlags := fsFlags openFlags flags
          let kind := OpenKind.fromFsFlags fsFlags
          -- a busy lease or a conflict aborts the open
          if hooks.fileLockEnabled ∧ kind = .write ∧ turn.hookOk = false then (hooks.onOpen fullPath kind, state)
          else
            match state.sharedVfs.openPathWithFlags fullPath fsFlags with
            | (.error _, fs) => (hooks.onOpen fullPath kind, { state with sharedVfs := fs })
            | (.ok fd, fs) =>
                (hooks.onOpen fullPath kind,
                  { state with sharedVfs := fs }.put turn.rep (some (.descriptor ⟨fd, some fullPath, fsFlags⟩)))
  | .write rep buffer offset =>
      match state.descriptor rep with
      | none => ([], state)
      | some d => ([], { state with sharedVfs := (state.sharedVfs.writeAt d.fd offset buffer).2 })
  | .writeViaStream rep offset =>
      match state.descriptor rep with
      | none => ([], state)
      | some d => ([], state.put turn.rep (some (.output ⟨⟨d.fd, some offset⟩, d.path⟩)))
  | .appendViaStream rep =>
      match state.descriptor rep with
      | none => ([], state)
      | some d => ([], state.put turn.rep (some (.output ⟨VfsHost.appendViaStream d, d.path⟩)))
  | .streamWrite rep bytes =>
      match state.output rep with
      | none => ([], state)
      | some s =>
          match s.stream.write bytes state.sharedVfs with
          | (.error _, fs) => ([], { state with sharedVfs := fs })
          | (.ok stream, fs) => ([], { state with sharedVfs := fs }.put rep (some (.output { s with stream := stream })))
  | .setSize rep size =>
      match state.descriptor rep with
      | none => ([], state)
      | some d =>
          match state.sharedVfs.ftruncate d.fd size with
          | (.error _, fs) => ([], { state with sharedVfs := fs })
          | (.ok (), fs) => (d.path.toList.map hooks.onTruncate, { state with sharedVfs := fs })
  | .sync rep =>
      match state.descriptor rep with
      | none => ([], state)
      | some d =>
          let kind := OpenKind.fromFsFlags d.flags
          (if kind = .write then d.path.toList.flatMap fun path => hooks.onWrite path :: hooks.onFsync path kind else [], state)
  | .dropStream rep =>
      match state.output rep with
      | none => ([], state)
      | some s => (s.path.toList.map hooks.onWrite, state.put rep none)
  | .dropDescriptor rep =>
      match state.descriptor rep with
      | none => ([], state)
      | some d =>
          let kind := OpenKind.fromFsFlags d.flags
          (if kind = .write then d.path.toList.flatMap fun path => hooks.onClose path kind else [],
            { state with sharedVfs := (state.sharedVfs.close d.fd).2 }.put rep none)

/-! ### Runs -/

/-- A call, the state in which it finds its host, and what it leaves. -/
structure Moment (T : Type) where
  event : Event
  before : HostState T
  calls : List ManagerCall
  after : HostState T

/-- Calls of the guest, newest first. Before each of them the sync layer may change the local filesystem. -/
inductive Run (hooks : S3SyncHooks) (start : HostState T) : List (Moment T) → HostState T → Prop where
  | start : Run hooks start [] start
  | call {past : List (Moment T)} {state : HostState T} (fs : Fs T) (turn : Turn) (event : Event) :
      Run hooks start past state → state.table turn.rep = none →
      Run hooks start
        (⟨event, { state with sharedVfs := fs }, (({ state with sharedVfs := fs } : HostState T).step hooks turn event).1,
          (({ state with sharedVfs := fs } : HostState T).step hooks turn event).2⟩ :: past)
        (({ state with sharedVfs := fs } : HostState T).step hooks turn event).2

end

section
variable {T : Type}

/-- The bytes of the file at a path. -/
def contentAt (fs : Fs T) (path : String) : Option Bytes := (fs.resolve path).bind (bytesOf fs)

/-- The call changes what is at the path. -/
def Changes (path : String) (moment : Moment T) : Prop :=
  contentAt moment.after.sharedVfs path ≠ contentAt moment.before.sharedVfs path

/-- A change of the path is reported. -/
def Reports (path : String) (moment : Moment T) : Prop := .enqueueUpload path ∈ moment.calls

/-- The close hook of the last write descriptor runs. -/
def ClosesLast (path : String) (moment : Moment T) : Prop := .onClose path ∈ moment.calls ∧ ¬ moment.after.WriteOpen path

def Pushes (path : String) (moment : Moment T) : Prop := .onFsync path ∈ moment.calls ∨ ClosesLast path moment

/-- A change since the last push is not reported yet. -/
def Owed (path : String) (past : List (Moment T)) : Prop :=
  ∃ newer change older, past = newer ++ change :: older ∧ Changes path change ∧ ¬ Reports path change ∧
    ∀ later ∈ newer, ¬ Reports path later ∧ ¬ Pushes path later

/-- Every change is reported before the last write descriptor is closed, and none afterwards
while the path is not open for write. -/
structure InTime (past : List (Moment T)) : Prop where
  reported : ∀ newer moment older path, past = newer ++ moment :: older → ClosesLast path moment → ¬ Owed path older
  silent : ∀ newer moment older path, past = newer ++ moment :: older → Reports path moment →
    (∃ earlier ∈ older, ClosesLast path earlier) → moment.before.WriteOpen path

end

end MonakaFs.Wasi.VfsHost
