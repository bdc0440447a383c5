import MonakaFs.Wasi.Streams

/-! The client's registry of descriptors and of the streams that are open on them.

A descriptor is closed on the server when it is dropped, or later, with the last of its
streams. The registry knows the streams by weak references, and a sync holds strong ones
for a while. What the server answers is left open.
-/

set_option autoImplicit false

namespace MonakaFs.Wasi.RpcAdapter

open FsCore Fs

/-! ### The registry -/

/-- An output stream, with the strong references to it. The descriptor it was opened on and
whether its owner still holds it are for the record. -/
structure StreamCell where
  stream : FileOutputStream
  strong : Nat
  opener : Nat
  held : Bool

abbrev Streams := Nat → Option StreamCell

def Streams.strongCount (streams : Streams) (k : Nat) : Nat := ((streams k).map (·.strong)).getD 0

structure RpcState where
  descriptorToFd : Nat → Option Fd
  fdToDescriptor : Fd → Option Nat
  descriptorFlags : Nat → Option Nat
  liveStreams : Nat → Option (List Nat)
  closePending : Finset Nat
  nextDescriptor : Nat

namespace RpcState

/-- The root is descriptor 0. -/
def new : RpcState where
  descriptorToFd := Function.update (fun _ => none) 0 (some 0)
  fdToDescriptor := Function.update (fun _ => none) 0 (some 0)
  descriptorFlags _ := none
  liveStreams _ := none
  closePending := ∅
  nextDescriptor := 1

variable (state : RpcState)

/-- Numbers are 32-bit words. -/
def allocateDescriptor (serverFd : Fd) (flags : Nat) : Nat × RpcState :=
  let desc := state.nextDescriptor
  (desc, { state with
    nextDescriptor := (desc + 1) % 2 ^ 32
    descriptorToFd := Function.update state.descriptorToFd desc (some serverFd)
    fdToDescriptor := Function.update state.fdToDescriptor serverFd (some desc)
    descriptorFlags := Function.update state.descriptorFlags desc (some flags) })

/-- Forget a descriptor. -/
def release (d : Nat) : Option Fd × RpcState :=
  match state.descriptorToFd d with
  | none => (none, state)
  | some fd =>
      (some fd, { state with
        descriptorToFd := Function.update state.descriptorToFd d none
        fdToDescriptor := Function.update state.fdToDescriptor fd none
        descriptorFlags := Function.update state.descriptorFlags d none
        liveStreams := Function.update state.liveStreams d none
        closePending := state.closePending.erase d })

def streamOpened (d k : Nat) : RpcState :=
  { state with liveStreams := Function.update state.liveStreams d (some ((state.liveStreams d).getD [] ++ [k])) }

def liveStreamsFor (streams : Streams) (d : Nat) : List Nat :=
  ((state.liveStreams d).getD []).filter fun k => 0 < streams.strongCount k

def liveStreamCount (streams : Streams) (d : Nat) : Nat := (state.liveStreamsFor streams d).length

/-- Forget the streams of a descriptor that are gone. -/
def retainLive (streams : Streams) (d : Nat) : RpcState :=
  match state.liveStreams d with
  | some v => { state with liveStreams := Function.update state.liveStreams d (some (v.filter fun k => 0 < streams.strongCount k)) }
  | none => state

def streamClosed (streams : Streams) (d : Nat) : Option Fd × RpcState :=
  let state := state.retainLive streams d
  if state.liveStreamCount streams d = 0 ∧ d ∈ state.closePending then state.release d else (none, state)

def descriptorDropped (streams : Streams) (d : Nat) : Option Fd × RpcState :=
  if 0 < state.liveStreamCount streams d then (none, { state with closePending := insert d state.closePending }) else state.release d

/-- A map of the registry mentions a descriptor. -/
def Mentions (d : Nat) : Prop :=
  (state.descriptorToFd d).isSome ∨ (∃ fd, state.fdToDescriptor fd = some d) ∨ (state.descriptorFlags d).isSome ∨
    (state.liveStreams d).isSome ∨ d ∈ state.closePending

end RpcState

/-! ### The adapter -/

/-- A descriptor that was given out. What its open returned, if it is not the root, and
whether its owner still holds it are for the record. -/
structure OpenDescriptor where
  handle : Nat
  flags : Nat
  fd : Option Fd
  held : Bool

structure Adapter where
  state : RpcState
  streams : Streams
  streamCount : Nat
  descriptors : Nat → Option OpenDescriptor
  descriptorCount : Nat
  version : Nat
  sent : List Rpc.Request

/-- What the server answers to a request, after those before it. -/
abbrev Answers := List Rpc.Request → Except ErrorCode Rpc.Response

namespace Adapter

def start (version : Nat) : Adapter := ⟨.new, fun _ => none, 0, fun _ => none, 0, version, []⟩

variable (server : Answers) (adapter : Adapter)

def call (request : Rpc.Request) : Except ErrorCode Rpc.Response × Adapter :=
  let sent := adapter.sent ++ [request]
  (server sent, { adapter with sent := sent })

/-- Any response but the expected one is an error. -/
def expecting {A : Type} (expected : Rpc.Response → Option A) (answer : Except ErrorCode Rpc.Response × Adapter) :
    Except ErrorCode A × Adapter :=
  match answer.1 with
  | .error e => (.error e, answer.2)
  | .ok response =>
      match expected response, response with
      | some value, _ => (.ok value, answer.2)
      | none, .error code _ => (.error (rpcErrorToWasi code), answer.2)
      | none, _ => (.error .io, answer.2)

def sendClose (fd : Option Fd) : Adapter :=
  match fd with
  | some fd => (adapter.call server (.close fd)).2
  | none => adapter

def setStream (k : Nat) (cell : StreamCell) : Adapter := { adapter with streams := Function.update adapter.streams k (some cell) }

/-- Send a stream's buffer. It is empty afterwards, whatever the server answers. -/
def flushBuffer (k : Nat) : Except ErrorCode Unit × Adapter :=
  match adapter.streams k with
  | none => (.ok (), adapter)
  | some cell =>
      let stream := cell.stream
      if stream.buffer = [] then (.ok (), adapter)
      else
        let drained := { stream with buffer := [] }
        let adapter := adapter.setStream k { cell with stream := drained }
        match adapter.state.descriptorToFd stream.handle with
        | none => (.error .badDescriptor, adapter)
        | some fd =>
            if stream.append then
              match expecting isWritten (adapter.call server (.appendWrite fd stream.buffer)) with
              | (.error e, adapter) => (.error e, adapter)
              | (.ok _, adapter) => (.ok (), adapter)
            else
              match expecting isPosition (adapter.call server (.seek fd (toI64 stream.offset) 0)) with
              | (.error e, adapter) => (.error e, adapter)
              | (.ok (), adapter) =>
                  match expecting isWritten (adapter.call server (.write fd stream.buffer)) with
                  | (.error e, adapter) => (.error e, adapter)
                  | (.ok _, adapter) =>
                      (.ok (), adapter.setStream k { cell with stream := { drained with offset := toU64 (stream.offset + stream.buffer.length) } })

/-- What `Drop` does for a stream without strong references. -/
def streamGone (k handle : Nat) : Adapter :=
  let flushed := (adapter.flushBuffer server k).2
  let done := flushed.state.streamClosed flushed.streams handle
  { flushed with state := done.2 }.sendClose server done.1

/-- Give back a strong reference. -/
def dropRc (k : Nat) : Adapter :=
  match adapter.streams k with
  | none => adapter
  | some cell =>
      let fewer := adapter.setStream k { cell with strong := cell.strong - 1 }
      if cell.strong - 1 = 0 then fewer.streamGone server k cell.stream.handle else fewer

/-- Take a strong reference to each of the streams. -/
def upgrade (ks : List Nat) : Adapter :=
  { adapter with streams := fun k => (adapter.streams k).map fun cell => { cell with strong := cell.strong + ks.count k } }

/-- Flush streams up to the first that fails, and give their references back. -/
def flushStreams (adapter : Adapter) : List Nat → Except ErrorCode Unit × Adapter
  | [] => (.ok (), adapter)
  | k :: ks =>
      match adapter.flushBuffer server k with
      | (.error e, adapter) => (.error e, (k :: ks).foldl (dropRc server) adapter)
      | (.ok (), adapter) => flushStreams (adapter.dropRc server k) ks

def fsync (d : OpenDescriptor) : Except ErrorCode Unit × Adapter :=
  if d.handle = 0 ∨ d.flags &&& 3 = 0 then (.ok (), adapter)
  else
    let streams := adapter.state.liveStreamsFor adapter.streams d.handle
    match flushStreams server (adapter.upgrade streams) streams with
    | (.error e, adapter) => (.error e, adapter)
    | (.ok (), adapter) =>
        match adapter.state.descriptorToFd d.handle with
        | none => (.error .badDescriptor, adapter)
        | some fd => if adapter.version < 2 then (.ok (), adapter) else expecting isOk (adapter.call server (.fsync fd))

def isFd : Rpc.Response → Option Fd
  | .fd fd => some fd
  | _ => none

/-- An open, which is tried again while the server is busy. -/
def openLoop (path : String) (flags : Nat) : Nat → Adapter → Except ErrorCode Fd × Adapter
  | 0, adapter => expecting isFd (adapter.call server (.openPath path flags))
  | retries + 1, adapter =>
      match adapter.call server (.openPath path flags) with
      | (.ok (.error .busy _), adapter) => openLoop path flags retries adapter
      | answer => expecting isFd answer

def give (d : OpenDescriptor) : Adapter :=
  { adapter with
    descriptors := Function.update adapter.descriptors adapter.descriptorCount (some d), descriptorCount := adapter.descriptorCount + 1 }

def addStream (cell : StreamCell) : Adapter :=
  { adapter.setStream adapter.streamCount cell with
    state := adapter.state.streamOpened cell.stream.handle adapter.streamCount, streamCount := adapter.streamCount + 1 }

/-- A stream on a descriptor that the registry knows. -/
def openStream (i : Nat) (d : OpenDescriptor) (offset : Nat) (append : Bool) : Adapter :=
  match adapter.state.descriptorToFd d.handle with
  | none => adapter
  | some _ => adapter.addStream ⟨⟨d.handle, offset, append, []⟩, 1, i, true⟩

end Adapter

/-- What the owner of descriptors and streams does with them. -/
inductive AdapterEvent where
  | getDirectories
  | openAt (i : Nat) (path : String) (flags : Nat)
  | writeViaStream (i offset : Nat)
  | appendViaStream (i : Nat)
  | streamWrite (k : Nat) (contents : Bytes)
  | sync (i : Nat)
  | dropDescriptor (i : Nat)
  | dropStream (k : Nat)

namespace Adapter

variable (server : Answers) (retries : Nat) (adapter : Adapter)

/-- A descriptor that its owner holds. -/
def descriptor (i : Nat) : Option OpenDescriptor := (adapter.descriptors i).filter (·.held)

def stream (k : Nat) : Option StreamCell := (adapter.streams k).filter (·.held)

def openAt (i : Nat) (path : String) (flags : Nat) : Adapter :=
  match adapter.descriptor i with
  | none => adapter
  | some d =>
      match openLoop server (if d.handle = 0 then normalizePath path else path) flags retries adapter with
      | (.error _, adapter) => adapter
      | (.ok fd, adapter) =>
          let allocated := adapter.state.allocateDescriptor fd flags
          { adapter with state := allocated.2 }.give ⟨allocated.1, flags, some fd, true⟩

def letGo (i : Nat) (d : OpenDescriptor) : Adapter :=
  { adapter with descriptors := Function.update adapter.descriptors i (some { d with held := false }) }

def dropDescriptor (i : Nat) : Adapter :=
  match adapter.descriptor i with
  | none => adapter
  | some d =>
      let adapter := adapter.letGo i d
      if d.handle = 0 then adapter
      else
        let done := adapter.state.descriptorDropped adapter.streams d.handle
        { adapter with state := done.2 }.sendClose server done.1

def dropStream (k : Nat) : Adapter :=
  match adapter.stream k with
  | none => adapter
  | some cell => (adapter.setStream k { cell with held := false }).dropRc server k

def step : AdapterEvent → Adapter
  | .getDirectories => if (adapter.state.descriptorToFd 0).isSome then adapter.give ⟨0, 0, none, true⟩ else adapter
  | .openAt i path flags => adapter.openAt server retries i path flags
  | .writeViaStream i offset =>
      match adapter.descriptor i with
      | none => adapter
      | some d => adapter.openStream i d offset false
  | .appendViaStream i =>
      match adapter.descriptor i with
      | none => adapter
      | some d => adapter.openStream i d 0 true
  | .streamWrite k contents =>
      match adapter.stream k with
      | none => adapter
      | some cell => adapter.setStream k { cell with stream := { cell.stream with buffer := cell.stream.buffer ++ contents } }
  | .sync i =>
      match adapter.descriptor i with
      | none => adapter
      | some d => (adapter.fsync server d).2
  | .dropDescriptor i => adapter.dropDescriptor server i
  | .dropStream k => adapter.dropStream server k

end Adapter

end MonakaFs.Wasi.RpcAdapter
