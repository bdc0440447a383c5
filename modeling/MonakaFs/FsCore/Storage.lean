import MonakaFs.FsCore.Types

/-! Sparse file content in blocks.

A block that was never written is absent and reads as zeros. Offsets are machine
words: they wrap where the program's own arithmetic does.
-/

set_option autoImplicit false

namespace MonakaFs.FsCore

structure BlockStorage where
  blocks : List (Option Bytes)
  size : Nat
  deriving DecidableEq, Repr

namespace BlockStorage

def new : BlockStorage := ⟨[], 0⟩

def zeroBlock : Bytes := List.replicate BLOCK_SIZE 0

/-- Copy data over a part of a block. -/
def patch (block : Bytes) (offset : Nat) (data : Bytes) : Bytes :=
  block.take offset ++ data ++ block.drop (offset + data.length)

/-- Push absent blocks until there is one with this index. -/
def reach (blocks : List (Option Bytes)) (index : Nat) : List (Option Bytes) :=
  blocks ++ List.replicate (index + 1 - blocks.length) none

section
variable [Target]

/-- The read loop: what is read, with so many bytes of the buffer left. Each round
reads at least one byte, which bounds the rounds. -/
def readLoop (storage : BlockStorage) : Nat → Nat → Nat → Bytes
  | 0, _, _ => []
  | rounds + 1, wanted, currentOffset =>
      if wanted = 0 ∨ storage.size ≤ currentOffset then []
      else
        let blockIndex := currentOffset / BLOCK_SIZE
        let blockOffset := currentOffset % BLOCK_SIZE
        match storage.blocks[blockIndex]? with
        | none => []
        | some block =>
            let bytesToCopy := min (BLOCK_SIZE - blockOffset) (min wanted (storage.size - currentOffset))
            (((block.getD zeroBlock).drop blockOffset).take bytesToCopy) ++
              readLoop storage rounds (wanted - bytesToCopy) (toUsize (currentOffset + bytesToCopy))

/-- The bytes read into the front of a buffer. -/
def read (storage : BlockStorage) (offset wanted : Nat) : Bytes :=
  if storage.size ≤ offset then [] else storage.readLoop wanted wanted offset

/-- The write loop: the blocks and the offset behind the last byte. Each round writes
at least one byte, which bounds the rounds. -/
def writeLoop : Nat → List (Option Bytes) → Nat → Bytes → List (Option Bytes) × Nat
  | 0, blocks, currentOffset, _ => (blocks, currentOffset)
  | _ + 1, blocks, currentOffset, [] => (blocks, currentOffset)
  | rounds + 1, blocks, currentOffset, byte :: data =>
      let blockIndex := currentOffset / BLOCK_SIZE
      let blockOffset := currentOffset % BLOCK_SIZE
      let blocks := reach blocks blockIndex
      let block := ((blocks[blockIndex]?).join).getD zeroBlock
      let bytesToCopy := min (BLOCK_SIZE - blockOffset) (data.length + 1)
      writeLoop rounds (blocks.set blockIndex (some (patch block blockOffset ((byte :: data).take bytesToCopy))))
        (toUsize (currentOffset + bytesToCopy)) ((byte :: data).drop bytesToCopy)

/-- Write bytes at an offset; every byte is written. -/
def write (storage : BlockStorage) (offset : Nat) (data : Bytes) : BlockStorage :=
  if data = [] then storage
  else
    let written := writeLoop data.length storage.blocks offset data
    ⟨written.1, max storage.size written.2⟩

end

/-- Zero the rest of a block that is kept in part. -/
def clearTail (block : Bytes) (offset : Nat) : Bytes := block.take offset ++ List.replicate (block.length - offset) 0

def truncate (storage : BlockStorage) (newSize : Nat) : BlockStorage :=
  if newSize < storage.size then
    let newBlockCount := (newSize + BLOCK_SIZE - 1) / BLOCK_SIZE
    let blocks := storage.blocks.take newBlockCount
    let offsetInLastBlock := newSize % BLOCK_SIZE
    let blocks :=
      if 0 < newSize ∧ 0 < newBlockCount ∧ 0 < offsetInLastBlock then
        blocks.modify (newBlockCount - 1) fun block => block.map (clearTail · offsetInLastBlock)
      else blocks
    ⟨blocks, newSize⟩
  else if storage.size < newSize then { storage with size := newSize }
  else storage

end BlockStorage
end MonakaFs.FsCore
