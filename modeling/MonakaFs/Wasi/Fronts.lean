import MonakaFs.Async.Events
import MonakaFs.Data.Ledger
import MonakaFs.FsCore.Offsets
import MonakaFs.Wasi.Streams

/-! Append streams on one file, in each of the front ends.

Streams are made at any time and written in any order. The file then holds what it held
before and, behind it, every chunk that was accepted, once, in the order of its stream,
except for those that a stream still holds back.
-/

set_option autoImplicit false

namespace MonakaFs.Wasi

open FsCore Fs Async

/-! ### Front ends with streams -/

/-- What is done with append streams, and anything else that is done besides. -/
inductive StreamEvent (D O : Type) where
  | appendViaStream (d : D)
  | write (k : Nat) (chunk : Bytes)
  | flush (k : Nat)
  | sync (d : D)
  | drop (k : Nat)
  | aside (other : O)

/-- A chunk whose write succeeded. -/
def StreamEvent.accepted {D O : Type} : StreamEvent D O → Bool → List (Nat × Bytes)
  | .write k chunk, true => [(k, chunk)]
  | _, _ => []

/-- A front end, and what can be seen of its streams. -/
structure Front (T : Type) where
  State : Type
  Descriptor : Type
  Other : Type
  Stream : Type
  fs : State → Fs T
  act : State → StreamEvent Descriptor Other → Bool × State
  output : State → Nat → Option Stream
  buffer : Stream → Bytes
  /-- The file behind a descriptor, and the one behind a stream. -/
  refers : State → Descriptor → Option InodeId
  inode : State → Stream → Option InodeId

namespace Front

variable {T : Type}

/-- The front end between two events, and the chunks it has accepted. -/
structure Session (front : Front T) where
  state : front.State
  taken : List (Nat × Bytes)

variable (front : Front T)

def held (state : front.State) (k : Nat) : Bytes := ((front.output state k).map front.buffer).getD []

def step (session : front.Session) (event : StreamEvent front.Descriptor front.Other) : front.Session :=
  let done := front.act session.state event
  ⟨done.2, session.taken ++ event.accepted done.1⟩

end Front

/-- The bytes of a file. -/
def bytesOf {T : Type} (fs : Fs T) (id : InodeId) : Option Bytes := (fs.node id).join.map (·.storage.content)

section
variable {T : Type} [TimeProvider T] [target : Target]

/-- Streams that write to the filesystem at once. -/
abbrev Front.direct {D S : Type} (fdOf : D → Fd) (make : D → Fs T → Except FsError S × Fs T)
    (write : S → Bytes → Fs T → Except StreamError S × Fs T) (fd : S → Fd) : Front T where
  State := Fs T × List (Option S)
  Descriptor := D
  Other := Fs T
  Stream := S
  fs state := state.1
  act state event :=
    match event with
    | .appendViaStream d =>
        match make d state.1 with
        | (.ok stream, fs) => (true, fs, state.2 ++ [some stream])
        | (.error _, fs) => (false, fs, state.2)
    | .write k chunk =>
        match state.2[k]?.join with
        | none => (false, state)
        | some stream =>
            match write stream chunk state.1 with
            | (.ok stream, fs) => (true, fs, state.2.set k (some stream))
            | (.error _, fs) => (false, fs, state.2)
    | .flush _ => (true, state)
    | .sync _ => (true, state)
    | .drop k => (true, state.1, state.2.set k none)
    | .aside fs => (true, fs, state.2)
  output state k := state.2[k]?.join
  buffer _ := []
  refers state d := state.1.holder (fdOf d)
  inode state stream := state.1.holder (fd stream)

def VfsAdapter.front : Front T := .direct (fun fd => fd) VfsAdapter.appendViaStream VfsAdapter.VfsOutputStream.write (·.fd)

def VfsHost.front : Front T :=
  .direct (·.fd) (fun d fs => (.ok (VfsHost.appendViaStream d), fs)) VfsHost.FsOutputStreamWrapper.write (·.fd)

/-- A descriptor is dropped, or the server and the client's table of descriptors go on to something else. -/
inductive RpcAdapter.Other (T : Type) where
  | descriptorDropped (d : Nat)
  | others (server : Rpc.ServerContext T) (descriptorToFd : Table Nat Fd)

def RpcAdapter.front (sync : Option (Rpc.SyncManager T)) : Front T where
  State := Client T
  Descriptor := Descriptor
  Other := Other T
  Stream := FileOutputStream
  fs client := client.server.fs
  act client event :=
    match event with
    | .appendViaStream d => ((client.appendViaStream d).1.isOk, (client.appendViaStream d).2)
    | .write k chunk => ((client.blockingWriteAndFlush k chunk).1.isOk, (client.blockingWriteAndFlush k chunk).2)
    | .flush k => ((client.blockingFlush k).1.isOk, (client.blockingFlush k).2)
    | .sync d => ((client.fsync sync d).1.isOk, (client.fsync sync d).2)
    | .drop k => (true, client.streamDropped sync k)
    | .aside (.descriptorDropped d) => (true, client.descriptorDropped sync d)
    | .aside (.others server descriptorToFd) => (true, { client with server := server, descriptorToFd := descriptorToFd })
  output := Client.output
  buffer := (·.buffer)
  refers client d := (client.descriptorToFd.lookup d.handle).bind client.server.fs.holder
  inode client stream := (client.descriptorToFd.lookup stream.handle).bind client.server.fs.holder

/-! ### What is meant by appending -/

namespace Front

variable (front : Front T) (id : InodeId) (initial : Bytes)

/-- The file has its initial content, and no stream was made. -/
structure Starts (session : front.Session) : Prop where
  reachable : Reachable (front.fs session.state)
  content : bytesOf (front.fs session.state) id = some initial
  streams : ∀ k, front.output session.state k = none
  taken : session.taken = []

/-- Streams are made on the file, and anything else leaves the file as it is and the
descriptor of no stream to another file. -/
def NoOtherWrites (session : front.Session) : StreamEvent front.Descriptor front.Other → Prop
  | .appendViaStream d => ∀ other, front.refers session.state d = some other → other = id
  | .aside other =>
      let later := (front.act session.state (.aside other)).2
      (front.fs later).node id = (front.fs session.state).node id ∧
        ∀ k stream other, front.output later k = some stream → front.inode later stream = some other →
          front.inode session.state stream = some other
  | _ => True

/-- The event overwrites nothing, and after it the chunks that were accepted are in the
file behind its initial content, or held back by their streams. -/
def Appended (session : front.Session) (event : StreamEvent front.Descriptor front.Other) : Prop :=
  let later := front.step session event
  ∃ content more, bytesOf (front.fs session.state) id = some content ∧ bytesOf (front.fs later.state) id = some (content ++ more) ∧
    Ledger.Accounts initial ⟨content ++ more, front.held later.state, later.taken⟩

end Front

/-! ### When they append -/

/-- A chunk that can be written finds the end of the file where its stream looks for it,
and has room there. -/
def Front.DirectFits {D S : Type} (fd : S → Fd) (ends : S → FileHandle → BlockStorage → Prop) (state : Fs T × List (Option S)) :
    StreamEvent D (Fs T) → Prop
  | .write k chunk => ∀ stream handle stored, state.2[k]?.join = some stream → state.1.fdTable.lookup (fd stream) = some handle →
      state.1.node handle.inodeId = some (some stored) → accessMode handle.flags ≠ O_RDONLY → chunk ≠ [] →
        ends stream handle stored.storage ∧ stored.storage.size + chunk.length < 2 ^ target.usizeBits
  | _ => True

/-- The offset of the stream is the end of the file, or the descriptor appends by itself. -/
def VfsAdapter.Ends (stream : VfsOutputStream) (handle : FileHandle) (storage : BlockStorage) : Prop :=
  handle.flags &&& O_APPEND ≠ 0 ∨ stream.offset = storage.size

/-- What the streams hold back can be written, and has room behind the end of the file. -/
def RpcAdapter.Pushable (client : Client T) (ks : List Nat) : Prop :=
  ∀ k ∈ ks, ∀ stream, client.output k = some stream → stream.buffer ≠ [] →
    ∃ fd handle stored, client.descriptorToFd.lookup stream.handle = some fd ∧ client.server.fs.fdTable.lookup fd = some handle ∧
      client.server.fs.node handle.inodeId = some (some stored) ∧ accessMode handle.flags ≠ O_RDONLY ∧
        stored.storage.size + (ks.map fun k => ((client.output k).map (·.buffer.length)).getD 0).sum < 2 ^ target.usizeBits

def RpcAdapter.Fits (client : Client T) : StreamEvent Descriptor (Other T) → Prop
  | .sync d => d.handle ≠ 0 → Client.isWrite d → Pushable client (client.liveStreamsFor d.handle)
  | .drop k => Pushable client [k]
  | _ => True

inductive FrontEnd where
  | vfsAdapter
  | vfsHost
  | rpcAdapter

namespace FrontEnd

variable (sync : Option (Rpc.SyncManager T))

def front : FrontEnd → Front T
  | .vfsAdapter => VfsAdapter.front
  | .vfsHost => VfsHost.front
  | .rpcAdapter => RpcAdapter.front sync

def Fits : (kind : FrontEnd) → (kind.front sync).Session → StreamEvent (kind.front sync).Descriptor (kind.front sync).Other → Prop
  | .vfsAdapter => fun session event => Front.DirectFits VfsAdapter.VfsOutputStream.fd VfsAdapter.Ends session.state event
  | .vfsHost => fun session event => Front.DirectFits VfsHost.FsOutputStreamWrapper.fd (fun _ _ _ => True) session.state event
  | .rpcAdapter => fun session event => RpcAdapter.Fits session.state event

end FrontEnd

/-- The sync manager does not touch the filesystem of the server. -/
structure Inert (manager : Rpc.SyncManager T) : Prop where
  syncFileNow : ∀ path fs, manager.syncFileNow path fs = fs
  refreshFile : ∀ path fs, manager.refreshFile path fs = fs
  onFsync : ∀ path fs, (manager.onFsync path fs).2 = fs
  onClose : ∀ path fs, (manager.onClose path fs).2 = fs

end

end MonakaFs.Wasi
