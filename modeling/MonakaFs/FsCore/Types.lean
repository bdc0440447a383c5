import MonakaFs.Data.Table

/-! Types of the in-memory filesystem. -/

set_option autoImplicit false

namespace MonakaFs.FsCore

abbrev Bytes := List UInt8

abbrev Fd := Nat

abbrev InodeId := Nat

def O_RDONLY : Nat := 0
def O_WRONLY : Nat := 1
def O_RDWR : Nat := 2
def O_CREAT : Nat := 0x40
def O_EXCL : Nat := 0x80
def O_TRUNC : Nat := 0x200
def O_APPEND : Nat := 0x400

/-- Block size for storage. -/
def BLOCK_SIZE : Nat := 4096

inductive FsError where
  | notFound
  | notADirectory
  | isADirectory
  | invalidArgument
  | badFileDescriptor
  | permissionDenied
  | alreadyExists
  | notEmpty
  deriving DecidableEq, Repr

/-- The machine the filesystem is compiled for. -/
class Target where
  usizeBits : Nat

abbrev Target.wasm32 : Target := ⟨32⟩

/-- A conversion to `usize`, or an operation on it, which wraps. -/
def toUsize [target : Target] (n : Nat) : Nat := n % 2 ^ target.usizeBits

/-- A conversion to `u64`, or an operation on it, which wraps. -/
def toU64 (n : Nat) : Nat := n % 2 ^ 64

structure Metadata where
  size : Nat
  created : Nat
  modified : Nat
  permissions : Nat
  isDir : Bool
  deriving DecidableEq, Repr

class TimeProvider (T : Type) where
  now : T → Nat × T

structure MonotonicCounter where
  counter : Nat
  deriving DecidableEq, Repr

namespace MonotonicCounter

def new : MonotonicCounter := ⟨0⟩

instance : TimeProvider MonotonicCounter where
  now clock := (clock.counter, ⟨toU64 (clock.counter + 1)⟩)

end MonotonicCounter

/-- An open descriptor. -/
structure FileHandle where
  inodeId : InodeId
  position : Nat
  flags : Nat
  deriving DecidableEq, Repr

end MonakaFs.FsCore
