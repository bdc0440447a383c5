import MonakaFs.Rpc.Server
import MonakaFs.Wasi.Relative

/-! The output streams of the three front ends.

The adapter with the filesystem inside seeks and writes at the stream's own offset,
which for an append stream is the end that the file had when the stream was made. The
host finds the end at every write. The client of the server keeps what is written in a
buffer until the stream is dropped or the descriptor synced, and the server finds the
end then.
-/

set_option autoImplicit false

namespace MonakaFs.Wasi

open FsCore Fs

inductive StreamError where
  | lastOperationFailed
  | closed
  deriving DecidableEq

inductive ErrorCode where
  | access
  | badDescriptor
  | busy
  | exist
  | invalid
  | io
  | isDirectory
  | noEntry
  | notDirectory
  | notEmpty
  | notRecoverable
  deriving DecidableEq

section
variable {T : Type} [TimeProvider T] [Target]

/-! ### The adapter with the filesystem inside -/

namespace VfsAdapter

structure VfsOutputStream where
  fd : Fd
  offset : Nat

def appendViaStream (fd : Fd) (fs : Fs T) : Except FsError VfsOutputStream × Fs T :=
  match fs.seek fd 0 2 with
  | (.ok offset, fs) => (.ok ⟨fd, offset⟩, fs)
  | (.error e, fs) => (.error e, fs)

namespace VfsOutputStream

def write (stream : VfsOutputStream) (contents : Bytes) (fs : Fs T) : Except StreamError VfsOutputStream × Fs T :=
  match fs.seek stream.fd (toI64 stream.offset) 0 with
  | (.error _, fs) => (.error .lastOperationFailed, fs)
  | (.ok _, fs) =>
      match fs.write stream.fd contents with
      | (.error _, fs) => (.error .lastOperationFailed, fs)
      | (.ok n, fs) => (.ok { stream with offset := toU64 (stream.offset + n) }, fs)

end VfsOutputStream
end VfsAdapter

/-! ### The host -/

namespace VfsHost

/-- No offset means append mode. -/
structure FsOutputStreamWrapper where
  fd : Fd
  offset : Option Nat

def appendViaStream (d : FsDescriptorWrapper) : FsOutputStreamWrapper := ⟨d.fd, none⟩

namespace FsOutputStreamWrapper

def write (stream : FsOutputStreamWrapper) (bytes : Bytes) (fs : Fs T) : Except StreamError FsOutputStreamWrapper × Fs T :=
  match stream.offset with
  | some offset =>
      match fs.writeAt stream.fd offset bytes with
      | (.error _, fs) => (.error .lastOperationFailed, fs)
      | (.ok n, fs) => (.ok { stream with offset := some (toU64 (offset + n)) }, fs)
  | none =>
      match fs.appendWrite stream.fd bytes with
      | (.error _, fs) => (.error .lastOperationFailed, fs)
      | (.ok _, fs) => (.ok stream, fs)

end FsOutputStreamWrapper
end VfsHost

/-! ### The client of the server -/

namespace RpcAdapter

def rpcErrorToWasi : Rpc.ErrorCode → ErrorCode
  | .notFound => .noEntry
  | .notADirectory => .notDirectory
  | .isADirectory => .isDirectory
  | .invalidArgument => .invalid
  | .badFileDescriptor => .badDescriptor
  | .permissionDenied => .access
  | .alreadyExists => .exist
  | .notEmpty => .notEmpty
  | .busy => .busy
  | .conflict => .notRecoverable
  | .networkError | .protocolError | .serializationError | .io => .io

/-- What is written stays in the buffer until it is flushed. -/
structure FileOutputStream where
  handle : Nat
  offset : Nat
  append : Bool
  buffer : Bytes

/-- A client and its server. Output streams are known by number, and a dropped one is gone. -/
structure Client (T : Type) where
  server : Rpc.ServerContext T
  sessionId : String
  version : Nat
  descriptorToFd : Table Nat Fd
  closePending : List Nat
  outputs : List (Option FileOutputStream)

/-- Any response but the expected one is an error. -/
def expect {A : Type} (expected : Rpc.Response → Option A) (answer : Rpc.Response × Client T) : Except ErrorCode A × Client T :=
  match expected answer.1 with
  | some value => (.ok value, answer.2)
  | none =>
      match answer.1 with
      | .error code _ => (.error (rpcErrorToWasi code), answer.2)
      | _ => (.error .io, answer.2)

def isOk : Rpc.Response → Option Unit
  | .ok => some ()
  | _ => none

def isPosition : Rpc.Response → Option Unit
  | .position _ => some ()
  | _ => none

def isWritten : Rpc.Response → Option Nat
  | .written count => some count
  | _ => none

def isData : Rpc.Response → Option Bytes
  | .data bytes => some bytes
  | _ => none

namespace Client

/-- The stream of a number, unless it was dropped. -/
def output (client : Client T) (k : Nat) : Option FileOutputStream := client.outputs[k]?.join

def setOutput (client : Client T) (k : Nat) (stream : Option FileOutputStream) : Client T :=
  { client with outputs := client.outputs.set k stream }

def streamOpened (client : Client T) (stream : FileOutputStream) : Client T :=
  { client with outputs := client.outputs ++ [some stream] }

def liveStreamsFor (client : Client T) (d : Nat) : List Nat :=
  (List.range client.outputs.length).filter fun k => (client.output k).any (·.handle = d)

def getServerFd (client : Client T) (d : Nat) : Except ErrorCode Fd :=
  match client.descriptorToFd.lookup d with
  | some fd => .ok fd
  | none => .error .badDescriptor

variable (sync : Option (Rpc.SyncManager T))

def call (client : Client T) (request : Rpc.Request) : Rpc.Response × Client T :=
  let handled := client.server.handleRequest sync request (some client.sessionId) ""
  (handled.1, { client with server := handled.2 })

def seekViaConn (client : Client T) (fd : Fd) (offset : Nat) : Except ErrorCode Unit × Client T :=
  expect isPosition (client.call sync (.seek fd (toI64 offset) 0))

/-- What follows a seek that succeeded. -/
def seekAnd {A : Type} (client : Client T) (fd : Fd) (offset : Nat) (next : Client T → Except ErrorCode A × Client T) :
    Except ErrorCode A × Client T :=
  match client.seekViaConn sync fd offset with
  | (.error e, client) => (.error e, client)
  | (.ok (), client) => next client

/-- Send a stream's buffer. It is empty afterwards, whatever the server answers. -/
def flushBuffer (client : Client T) (k : Nat) : Except ErrorCode Unit × Client T :=
  match client.output k with
  | none => (.ok (), client)
  | some stream =>
      if stream.buffer = [] then (.ok (), client)
      else
        let drained := { stream with buffer := [] }
        let client := client.setOutput k (some drained)
        match client.getServerFd stream.handle with
        | .error e => (.error e, client)
        | .ok fd =>
            if stream.append then
              match expect isWritten (client.call sync (.appendWrite fd stream.buffer)) with
              | (.error e, client) => (.error e, client)
              | (.ok _, client) => (.ok (), client)
            else
              match client.seekAnd sync fd stream.offset fun client =>
                expect isWritten (client.call sync (.write fd stream.buffer)) with
              | (.error e, client) => (.error e, client)
              | (.ok _, client) =>
                  (.ok (), client.setOutput k (some { drained with offset := toU64 (stream.offset + stream.buffer.length) }))

/-- Flush streams up to the first that fails. -/
def flushAll (client : Client T) : List Nat → Except ErrorCode Unit × Client T
  | [] => (.ok (), client)
  | k :: ks =>
      match client.flushBuffer sync k with
      | (.error e, client) => (.error e, client)
      | (.ok (), client) => flushAll client ks

def appendViaStream (client : Client T) (d : Descriptor) : Except ErrorCode Unit × Client T :=
  match client.getServerFd d.handle with
  | .error e => (.error e, client)
  | .ok _ => (.ok (), client.streamOpened ⟨d.handle, 0, true, []⟩)

def writeViaStream (client : Client T) (d : Descriptor) (offset : Nat) : Except ErrorCode Unit × Client T :=
  match client.getServerFd d.handle with
  | .error e => (.error e, client)
  | .ok _ => (.ok (), client.streamOpened ⟨d.handle, offset, false, []⟩)

/-- Writing to a stream only fills the buffer. -/
def blockingWriteAndFlush (client : Client T) (k : Nat) (contents : Bytes) : Except StreamError Unit × Client T :=
  match client.output k with
  | none => (.error .closed, client)
  | some stream => (.ok (), client.setOutput k (some { stream with buffer := stream.buffer ++ contents }))

/-- Neither flush pushes anything. -/
def blockingFlush (client : Client T) (_k : Nat) : Except StreamError Unit × Client T := (.ok (), client)

def isWrite (d : Descriptor) : Bool := d.flags &&& 3 ≠ 0

def fsync (client : Client T) (d : Descriptor) : Except ErrorCode Unit × Client T :=
  if d.handle = 0 ∨ ¬ isWrite d then (.ok (), client)
  else
    match client.flushAll sync (client.liveStreamsFor d.handle) with
    | (.error e, client) => (.error e, client)
    | (.ok (), client) =>
        match client.getServerFd d.handle with
        | .error e => (.error e, client)
        | .ok fd =>
            if client.version < 2 then (.ok (), client)
            else expect isOk (client.call sync (.fsync fd))

/-- Forget a descriptor and close its server descriptor, whatever the server answers. -/
def release (client : Client T) (d : Nat) : Client T :=
  match client.descriptorToFd.lookup d with
  | none => client
  | some fd =>
      (Client.call sync { client with
        descriptorToFd := AList.erase d client.descriptorToFd
        closePending := client.closePending.filter (· ≠ d) } (.close fd)).2

/-- A descriptor is kept on the server as long as it has streams. -/
def descriptorDropped (client : Client T) (d : Nat) : Client T :=
  if d = 0 then client
  else if client.liveStreamsFor d = [] then client.release sync d
  else { client with closePending := d :: client.closePending }

def streamClosed (client : Client T) (d : Nat) : Client T :=
  if client.liveStreamsFor d = [] ∧ d ∈ client.closePending then client.release sync d else client

/-- Errors are ignored when a stream is dropped. -/
def streamDropped (client : Client T) (k : Nat) : Client T :=
  match client.output k with
  | none => client
  | some stream => ((client.flushBuffer sync k).2.setOutput k none).streamClosed sync stream.handle

end Client
end RpcAdapter

end

end MonakaFs.Wasi
