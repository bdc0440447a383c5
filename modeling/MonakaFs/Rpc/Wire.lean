import MonakaFs.Rpc.Protocol

/-! Requests and responses on the wire.

The messages are those of the protocol file; the code that encodes and decodes them
is generated from it and a parameter here. A length and a count cross the wire as 64
bits, error codes as integers, and every other field as it is.
-/

set_option autoImplicit false

namespace MonakaFs.Rpc

open FsCore

/-- What the generated code does for one message type. -/
structure Message (M : Type) where
  encodeToVec : M → Bytes
  decode : Bytes → Option M

namespace Message

variable {M : Type}

/-- The generated code decodes what it encoded. -/
def Restores (message : Message M) (value : M) : Prop := message.decode (message.encodeToVec value) = some value

end Message

namespace ErrorCode

/-- The discriminant. -/
def toI32 : ErrorCode → Int
  | .notFound => 1
  | .notADirectory => 2
  | .isADirectory => 3
  | .invalidArgument => 4
  | .badFileDescriptor => 5
  | .permissionDenied => 6
  | .alreadyExists => 7
  | .notEmpty => 8
  | .networkError => 9
  | .protocolError => 10
  | .serializationError => 11
  | .io => 12
  | .busy => 13
  | .conflict => 14

def fromI32 : Int → Option ErrorCode
  | 1 => some .notFound
  | 2 => some .notADirectory
  | 3 => some .isADirectory
  | 4 => some .invalidArgument
  | 5 => some .badFileDescriptor
  | 6 => some .permissionDenied
  | 7 => some .alreadyExists
  | 8 => some .notEmpty
  | 9 => some .networkError
  | 10 => some .protocolError
  | 11 => some .serializationError
  | 12 => some .io
  | 13 => some .busy
  | 14 => some .conflict
  | _ => none

@[simp] theorem fromI32_toI32 (code : ErrorCode) : fromI32 code.toI32 = some code := by
  cases code <;> rfl

end ErrorCode

namespace Vfs

inductive RequestKind where
  | connect (version : Nat)
  | openPath (path : String) (flags : Nat)
  | openAt (dirFd : Fd) (path : String) (flags : Nat)
  | read (fd : Fd) (length : Nat)
  | write (fd : Fd) (data : Bytes)
  | close (fd : Fd)
  | seek (fd : Fd) (offset whence : Int)
  | ftruncate (fd : Fd) (size : Nat)
  | stat (path : String)
  | fstat (fd : Fd)
  | mkdir (path : String)
  | mkdirP (path : String)
  | unlink (path : String)
  | readdir (path : String)
  | readdirFd (fd : Fd)
  | rmdir (path : String)
  | appendWrite (fd : Fd) (data : Bytes)
  | rename (oldPath newPath : String)
  | fsync (fd : Fd)
  deriving DecidableEq

structure RpcRequest where
  sessionId : Option String
  request : Option RequestKind
  deriving DecidableEq

structure DirEntry where
  name : String
  isDir : Bool
  deriving DecidableEq

inductive ResponseKind where
  | connected (sessionId : String) (version : Nat)
  | ok
  | fd (fd : Fd)
  | data (bytes : Bytes)
  | written (count : Nat)
  | position (pos : Nat)
  | metadata (size created modified : Nat) (isDir : Bool)
  | dirEntries (entries : List DirEntry)
  | error (code : Int) (message : String)
  deriving DecidableEq

structure RpcResponse where
  response : Option ResponseKind
  deriving DecidableEq

end Vfs

structure RpcRequestMessage where
  sessionId : Option String
  request : Request

/-- The error of a request that names none of the known kinds. -/
def missingRequest : String := "Missing request"

section
variable [target : Target]

def fromProtoRequest (proto : Vfs.RpcRequest) : Except String RpcRequestMessage :=
  match proto.request with
  | some (.connect version) => .ok ⟨proto.sessionId, .connect version⟩
  | some (.openPath path flags) => .ok ⟨proto.sessionId, .openPath path flags⟩
  | some (.openAt dirFd path flags) => .ok ⟨proto.sessionId, .openAt dirFd path flags⟩
  | some (.read fd length) => .ok ⟨proto.sessionId, .read fd (toUsize length)⟩
  | some (.write fd data) => .ok ⟨proto.sessionId, .write fd data⟩
  | some (.close fd) => .ok ⟨proto.sessionId, .close fd⟩
  | some (.seek fd offset whence) => .ok ⟨proto.sessionId, .seek fd offset whence⟩
  | some (.ftruncate fd size) => .ok ⟨proto.sessionId, .ftruncate fd size⟩
  | some (.stat path) => .ok ⟨proto.sessionId, .stat path⟩
  | some (.fstat fd) => .ok ⟨proto.sessionId, .fstat fd⟩
  | some (.mkdir path) => .ok ⟨proto.sessionId, .mkdir path⟩
  | some (.mkdirP path) => .ok ⟨proto.sessionId, .mkdirP path⟩
  | some (.unlink path) => .ok ⟨proto.sessionId, .unlink path⟩
  | some (.readdir path) => .ok ⟨proto.sessionId, .readdir path⟩
  | some (.readdirFd fd) => .ok ⟨proto.sessionId, .readdirFd fd⟩
  | some (.rmdir path) => .ok ⟨proto.sessionId, .rmdir path⟩
  | some (.appendWrite fd data) => .ok ⟨proto.sessionId, .appendWrite fd data⟩
  | some (.rename oldPath newPath) => .ok ⟨proto.sessionId, .rename oldPath newPath⟩
  | some (.fsync fd) => .ok ⟨proto.sessionId, .fsync fd⟩
  | none => .error missingRequest

def toProtoResponse (response : Response) : Vfs.RpcResponse :=
  match response with
  | .connected sessionId version => ⟨some (.connected sessionId version)⟩
  | .ok => ⟨some .ok⟩
  | .fd fd => ⟨some (.fd fd)⟩
  | .data bytes => ⟨some (.data bytes)⟩
  | .written count => ⟨some (.written (toU64 count))⟩
  | .position pos => ⟨some (.position pos)⟩
  | .metadata metadata => ⟨some (.metadata metadata.size metadata.created metadata.modified metadata.isDir)⟩
  | .dirEntries entries => ⟨some (.dirEntries (entries.map fun entry => ⟨entry.1, entry.2⟩))⟩
  | .error code message => ⟨some (.error code.toI32 message)⟩

/-- The message that `toProtoRequestBytes` encodes. -/
def toProtoRequest (message : RpcRequestMessage) : Vfs.RpcRequest :=
  match message.request with
  | .connect version => ⟨message.sessionId, some (.connect version)⟩
  | .openPath path flags => ⟨message.sessionId, some (.openPath path flags)⟩
  | .openAt dirFd path flags => ⟨message.sessionId, some (.openAt dirFd path flags)⟩
  | .read fd length => ⟨message.sessionId, some (.read fd (toU64 length))⟩
  | .write fd data => ⟨message.sessionId, some (.write fd data)⟩
  | .close fd => ⟨message.sessionId, some (.close fd)⟩
  | .seek fd offset whence => ⟨message.sessionId, some (.seek fd offset whence)⟩
  | .ftruncate fd size => ⟨message.sessionId, some (.ftruncate fd size)⟩
  | .stat path => ⟨message.sessionId, some (.stat path)⟩
  | .fstat fd => ⟨message.sessionId, some (.fstat fd)⟩
  | .mkdir path => ⟨message.sessionId, some (.mkdir path)⟩
  | .mkdirP path => ⟨message.sessionId, some (.mkdirP path)⟩
  | .unlink path => ⟨message.sessionId, some (.unlink path)⟩
  | .readdir path => ⟨message.sessionId, some (.readdir path)⟩
  | .readdirFd fd => ⟨message.sessionId, some (.readdirFd fd)⟩
  | .rmdir path => ⟨message.sessionId, some (.rmdir path)⟩
  | .appendWrite fd data => ⟨message.sessionId, some (.appendWrite fd data)⟩
  | .rename oldPath newPath => ⟨message.sessionId, some (.rename oldPath newPath)⟩
  | .fsync fd => ⟨message.sessionId, some (.fsync fd)⟩

def toProtoRequestBytes (prost : Message Vfs.RpcRequest) (message : RpcRequestMessage) : Bytes :=
  prost.encodeToVec (toProtoRequest message)

def fromProtoResponse (proto : Vfs.RpcResponse) : Except ErrorCode Response :=
  match proto.response with
  | some (.connected sessionId version) => .ok (.connected sessionId version)
  | some .ok => .ok .ok
  | some (.fd fd) => .ok (.fd fd)
  | some (.data bytes) => .ok (.data bytes)
  | some (.written count) => .ok (.written (toUsize count))
  | some (.position pos) => .ok (.position pos)
  | some (.metadata size created modified isDir) => .ok (.metadata ⟨size, created, modified, isDir⟩)
  | some (.dirEntries entries) => .ok (.dirEntries (entries.map fun entry => (entry.name, entry.isDir)))
  | some (.error code message) => .ok (.error ((ErrorCode.fromI32 code).getD .io) message)
  | none => .error .serializationError

def fromProtoResponseBytes (prost : Message Vfs.RpcResponse) (data : Bytes) : Except ErrorCode Response :=
  match prost.decode data with
  | some proto => fromProtoResponse proto
  | none => .error .serializationError

/-- Lengths and counts are machine words; no other field changes its width. -/
def Request.IsWord : Request → Prop
  | .read _ length => length < 2 ^ target.usizeBits
  | _ => True

def Response.IsWord : Response → Prop
  | .written count => count < 2 ^ target.usizeBits
  | _ => True

/-- A machine word survives the 64 bits on the wire. -/
theorem toUsize_toU64 (wide : target.usizeBits ≤ 64) {n : Nat} (word : n < 2 ^ target.usizeBits) : toUsize (toU64 n) = n := by
  have fits : n < 2 ^ 64 := lt_of_lt_of_le word (Nat.pow_le_pow_right (by decide) wide)
  rw [toU64, Nat.mod_eq_of_lt fits, toUsize, Nat.mod_eq_of_lt word]

theorem fromProtoRequest_toProtoRequest (wide : target.usizeBits ≤ 64) (message : RpcRequestMessage) (word : message.request.IsWord) :
    fromProtoRequest (toProtoRequest message) = .ok message := by
  obtain ⟨sessionId, request⟩ := message
  cases request with
  | read fd length =>
    have same : toUsize (toU64 length) = length := toUsize_toU64 wide word
    simp only [toProtoRequest, fromProtoRequest, same]
  | _ => rfl

theorem fromProtoResponse_toProtoResponse (wide : target.usizeBits ≤ 64) (response : Response) (word : response.IsWord) :
    fromProtoResponse (toProtoResponse response) = .ok response := by
  cases response with
  | written count =>
    have same : toUsize (toU64 count) = count := toUsize_toU64 wide word
    simp only [toProtoResponse, fromProtoResponse, same]
  | dirEntries entries =>
    have same : (entries.map fun entry => (⟨entry.1, entry.2⟩ : Vfs.DirEntry)).map (fun entry => (entry.name, entry.isDir)) = entries := by
      rw [List.map_map]
      exact List.map_id _
    simp only [toProtoResponse, fromProtoResponse, same]
  | error code message => simp only [toProtoResponse, fromProtoResponse, ErrorCode.fromI32_toI32, Option.getD_some]
  | _ => rfl

/-- The server reads the request that the client sent, and the client the response. -/
theorem wire_restores (wide : target.usizeBits ≤ 64) (requests : Message Vfs.RpcRequest) (responses : Message Vfs.RpcResponse)
    (message : RpcRequestMessage) (response : Response) (asked : message.request.IsWord) (answered : response.IsWord)
    (sent : requests.Restores (toProtoRequest message)) (returned : responses.Restores (toProtoResponse response)) :
    (requests.decode (toProtoRequestBytes requests message)).map fromProtoRequest = some (.ok message) ∧
      fromProtoResponseBytes responses (responses.encodeToVec (toProtoResponse response)) = .ok response := by
  constructor
  · rw [toProtoRequestBytes, show requests.decode _ = _ from sent, Option.map_some,
      fromProtoRequest_toProtoRequest wide message asked]
  · rw [fromProtoResponseBytes, show responses.decode _ = _ from returned]
    exact fromProtoResponse_toProtoResponse wide response answered

end

/-- Bytes `fd` and `length` of a read request without a session, as the generated code writes them. -/
def readBytes : Bytes := [42, 4, 8, 7, 16, 5]

def writtenBytes : Bytes := [42, 2, 8, 3]

theorem read_restores :
    let _ : Target := ⟨32⟩
    let requests : Message Vfs.RpcRequest := ⟨fun _ => readBytes, fun _ => some ⟨none, some (.read 7 5)⟩⟩
    let responses : Message Vfs.RpcResponse := ⟨fun _ => writtenBytes, fun _ => some ⟨some (.written 3)⟩⟩
    (requests.decode (toProtoRequestBytes requests ⟨none, .read 7 5⟩)).map fromProtoRequest = some (.ok ⟨none, .read 7 5⟩) ∧
      fromProtoResponseBytes responses (responses.encodeToVec (toProtoResponse (.written 3))) = .ok (.written 3) := by
  let _ : Target := ⟨32⟩
  exact wire_restores (by decide) _ _ ⟨none, .read 7 5⟩ (.written 3) (by decide : 5 < 2 ^ 32) (by decide : 3 < 2 ^ 32) rfl rfl

end MonakaFs.Rpc
