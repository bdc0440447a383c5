import MonakaFs.FsCore.Snapshots

/-! Offsets and sizes on their way into machine words.

Calls take 64-bit offsets and sizes, and the storage counts in words of the machine.
The conversions are unchecked: what fits a word arrives as it is, and what does not
arrives as something smaller.
-/

set_option autoImplicit false

namespace MonakaFs.FsCore

open Fs BlockStorage

section
variable {T : Type} [TimeProvider T] [target : Target] {fs : Fs T} {call : Call} {id : InodeId} {fd : Fd}

/-! ### What is asked for -/

/-- The bytes are at the offset and nowhere else. -/
structure Overlaid (storage later : BlockStorage) (offset : Nat) (data : Bytes) : Prop where
  byte : ∀ i, later.byteAt i = if offset ≤ i ∧ i < offset + data.length then data.getD (i - offset) 0 else storage.byteAt i
  size : later.size = if data = [] then storage.size else max storage.size (offset + data.length)

/-- A write that reports success has put the bytes at its offset, and one that cannot be
represented is refused. -/
def ExactWrite (fs : Fs T) (outcome : Outcome T Nat) (fd : Fd) (position : FileHandle → BlockStorage → Nat) (buf : Bytes) : Prop :=
  ∀ handle stored, fs.fdTable.lookup fd = some handle → fs.node handle.inodeId = some (some stored) →
    let offset := position handle stored.storage
    if offset + buf.length < 2 ^ target.usizeBits then
      ∀ n, outcome.1 = .ok n → n = buf.length ∧ ∃ later, Overlaid stored.storage later offset buf ∧
        outcome.2.node = Function.update fs.node handle.inodeId (some (some ⟨later, later.size⟩))
    else ∃ e, outcome = (.error e, fs)

/-- A read that reports success gives the bytes from its offset on. -/
def ExactRead (fs : Fs T) (outcome : Outcome T Bytes) (fd : Fd) (position : FileHandle → Nat) (wanted : Nat) : Prop :=
  ∀ handle stored, fs.fdTable.lookup fd = some handle → fs.node handle.inodeId = some (some stored) →
    let offset := position handle
    if offset < 2 ^ target.usizeBits then
      ∀ bytes, outcome.1 = .ok bytes → outcome.2.node = fs.node ∧
        bytes = (List.range (min wanted (stored.storage.readable - offset))).map fun i => stored.storage.byteAt (offset + i)
    else ∃ e, outcome = (.error e, fs)

/-- A truncation that reports success leaves exactly this size. -/
def ExactCut (fs : Fs T) (outcome : Outcome T Unit) (fd : Fd) (size : Nat) : Prop :=
  ∀ handle stored, fs.fdTable.lookup fd = some handle → fs.node handle.inodeId = some (some stored) →
    if size < 2 ^ target.usizeBits then
      outcome.1 = .ok () → ∃ later, later.size = size ∧ (∀ i, i < size → later.byteAt i = stored.storage.byteAt i) ∧
        outcome.2.node = Function.update fs.node handle.inodeId (some (some ⟨later, size⟩))
    else ∃ e, outcome = (.error e, fs)

/-- Where a write through a descriptor goes. -/
def writeOffset (handle : FileHandle) (storage : BlockStorage) : Nat :=
  if handle.flags &&& O_APPEND ≠ 0 then storage.size else handle.position

/-- The call does what it was asked at exactly the offset or with exactly the size it was given. -/
def Exact : Call → Fs T → Prop
  | .write fd buf, fs => ExactWrite fs (fs.write fd buf) fd writeOffset buf
  | .writeAt fd offset buf, fs => ExactWrite fs (fs.writeAt fd offset buf) fd (fun _ _ => offset) buf
  | .appendWrite fd buf, fs => ExactWrite fs (fs.appendWrite fd buf) fd (fun _ storage => storage.size) buf
  | .read fd wanted, fs => ExactRead fs (fs.read fd wanted) fd (·.position) wanted
  | .readAt fd offset wanted, fs => ExactRead fs (fs.readAt fd offset wanted) fd (fun _ => offset) wanted
  | .ftruncate fd size, fs => ExactCut fs (fs.ftruncate fd size) fd size
  | _, _ => True

/-! ### What fits -/

/-- The descriptor may be written through, and the write would go here. -/
def FitsWrite (fs : Fs T) (fd : Fd) (position : FileHandle → BlockStorage → Nat) (buf : Bytes) : Prop :=
  ∀ handle stored, fs.fdTable.lookup fd = some handle → fs.node handle.inodeId = some (some stored) →
    accessMode handle.flags ≠ O_RDONLY → position handle stored.storage + buf.length < 2 ^ target.usizeBits

def FitsRead (fs : Fs T) (fd : Fd) (position : FileHandle → Nat) : Prop :=
  ∀ handle stored, fs.fdTable.lookup fd = some handle → fs.node handle.inodeId = some (some stored) →
    accessMode handle.flags ≠ O_WRONLY → position handle < 2 ^ target.usizeBits

def FitsCut (fs : Fs T) (fd : Fd) (size : Nat) : Prop :=
  ∀ handle stored, fs.fdTable.lookup fd = some handle → fs.node handle.inodeId = some (some stored) →
    accessMode handle.flags ≠ O_RDONLY → size < 2 ^ target.usizeBits

/-- The call is refused for another reason, or can be represented in words of the machine. -/
def Fits : Call → Fs T → Prop
  | .write fd buf, fs => FitsWrite fs fd writeOffset buf
  | .writeAt fd offset buf, fs => FitsWrite fs fd (fun _ _ => offset) buf
  | .appendWrite fd buf, fs => FitsWrite fs fd (fun _ storage => storage.size) buf
  | .read fd _, fs => FitsRead fs fd (·.position)
  | .readAt fd offset _, fs => FitsRead fs fd (fun _ => offset)
  | .ftruncate fd size, fs => FitsCut fs fd size
  | _, _ => True

/-! ### One call -/

omit [TimeProvider T] target in
theorem node_inode {inode : Option Inode} {stored : Stored} (found : inode.map Inode.stored = some (some stored)) :
    ∃ metadata, inode = some ⟨metadata, .file stored.storage⟩ ∧ metadata.size = stored.size := by
  obtain ⟨⟨metadata, content⟩, rfl, same⟩ := Option.map_eq_some_iff.mp found
  cases content with
  | dir => cases same
  | file storage =>
    cases same
    exact ⟨metadata, rfl, rfl⟩

theorem word_same {n : Nat} (fits : n < 2 ^ target.usizeBits) : toUsize n = n := Nat.mod_eq_of_lt fits

/-- Sizes of files are 64-bit words. -/
theorem size_word {storage : BlockStorage} (whole : Whole storage) (word : target.usizeBits ≤ 64) : toU64 storage.size = storage.size :=
  Nat.mod_eq_of_lt (lt_of_lt_of_le whole.small (Nat.pow_le_pow_right (by decide) word))

theorem writeThrough_done {position : FileHandle → BlockStorage → Nat} {after : Nat → Nat → Nat} {buf : Bytes} {handle : FileHandle}
    {stored : Stored} (held : fs.fdTable.lookup fd = some handle) (found : fs.node handle.inodeId = some (some stored))
    (open' : accessMode handle.flags ≠ O_RDONLY) :
    let written := stored.storage.write (toUsize (position handle stored.storage)) buf
    (fs.writeThrough fd position after buf).1 = .ok buf.length ∧ (fs.writeThrough fd position after buf).2.node =
      Function.update fs.node handle.inodeId (some (some ⟨written, toU64 written.size⟩)) := by
  intro written
  obtain ⟨metadata, present, -⟩ := node_inode found
  have result : fs.writeThrough fd position after buf = (.ok buf.length,
      (fs.update handle.inodeId (Inode.store ⟨metadata, .file stored.storage⟩ written (toU64 written.size))).setPosition fd
        (after (position handle stored.storage) buf.length)) := by
    simp only [writeThrough, held, open', if_false, present, written]
  exact ⟨by rw [result], by rw [result, setPosition_node, update_node]⟩

omit [TimeProvider T] in
theorem readThrough_done {position : FileHandle → Nat} {wanted : Nat} {handle : FileHandle} {stored : Stored}
    (held : fs.fdTable.lookup fd = some handle) (found : fs.node handle.inodeId = some (some stored))
    (open' : accessMode handle.flags ≠ O_WRONLY) :
    (fs.readThrough fd position wanted).1 = .ok (stored.storage.read (toUsize (position handle)) wanted) := by
  obtain ⟨metadata, present, -⟩ := node_inode found
  simp only [readThrough, held, open', if_false, present]

theorem ftruncate_done {size : Nat} {handle : FileHandle} {stored : Stored} (held : fs.fdTable.lookup fd = some handle)
    (found : fs.node handle.inodeId = some (some stored)) (open' : accessMode handle.flags ≠ O_RDONLY) :
    (fs.ftruncate fd size).1 = .ok () ∧ (fs.ftruncate fd size).2.node =
      Function.update fs.node handle.inodeId (some (some ⟨stored.storage.truncate (toUsize size), size⟩)) := by
  obtain ⟨metadata, present, -⟩ := node_inode found
  have result : fs.ftruncate fd size = (.ok (), fs.update handle.inodeId
      (Inode.store ⟨metadata, .file stored.storage⟩ (stored.storage.truncate (toUsize size)) size)) := by
    simp only [ftruncate, held, open', if_false, present]
  exact ⟨by rw [result], by rw [result, update_node]⟩

theorem exactWrite_iff {code position : FileHandle → BlockStorage → Nat} {after : Nat → Nat → Nat} {buf : Bytes}
    (whole : AllWhole fs) (word : target.usizeBits ≤ 64)
    (same : ∀ handle storage, toUsize (code handle storage) = toUsize (position handle storage)) :
    ExactWrite fs (fs.writeThrough fd code after buf) fd position buf ↔ FitsWrite fs fd position buf := by
  constructor
  -- Where the write does not fit, it succeeds all the same.
  · intro exact' handle stored held found open'
    by_contra large
    have refused := exact' handle stored held found
    dsimp only at refused
    rw [if_neg large] at refused
    obtain ⟨e, failed⟩ := refused
    have ok := (@writeThrough_done T _ _ fs fd code after buf handle stored held found open').1
    rw [failed] at ok
    cases ok
  · intro fits handle stored held found
    dsimp only
    by_cases refused : accessMode handle.flags = O_RDONLY
    · have result : fs.writeThrough fd code after buf = (.error .permissionDenied, fs) := by
        simp only [writeThrough, held, refused, if_true]
      rw [result]
      split
      · exact fun n ok => (by cases ok)
      · exact ⟨_, rfl⟩
    · have small := fits handle stored held found refused
      obtain ⟨ok, nodes⟩ := @writeThrough_done T _ _ fs fd code after buf handle stored held found refused
      rw [if_pos small]
      intro n answer
      rw [same, word_same (lt_of_le_of_lt (Nat.le_add_right ..) small)] at nodes
      have before := whole handle.inodeId stored found
      refine ⟨Except.ok.inj (answer.symm.trans ok), _, ⟨write_byte before small, ?_⟩, ?_⟩
      · split
        · next none => rw [BlockStorage.write, if_pos none]
        · next some => exact write_size before small some
      · rw [nodes, size_word (write_whole before (lt_of_le_of_lt (Nat.le_add_right ..) small)) word]

omit [TimeProvider T] in
theorem exactRead_iff {position : FileHandle → Nat} {wanted : Nat} (whole : AllWhole fs) :
    ExactRead fs (fs.readThrough fd position wanted) fd position wanted ↔ FitsRead fs fd position := by
  constructor
  · intro exact' handle stored held found open'
    by_contra large
    have refused := exact' handle stored held found
    dsimp only at refused
    rw [if_neg large] at refused
    obtain ⟨e, failed⟩ := refused
    have ok := @readThrough_done T _ fs fd position wanted handle stored held found open'
    rw [failed] at ok
    cases ok
  · intro fits handle stored held found
    dsimp only
    by_cases refused : accessMode handle.flags = O_WRONLY
    · have result : fs.readThrough fd position wanted = (.error .permissionDenied, fs) := by
        simp only [readThrough, held, refused, if_true]
      rw [result]
      split
      · exact fun bytes ok => (by cases ok)
      · exact ⟨_, rfl⟩
    · have small := fits handle stored held found refused
      have ok := @readThrough_done T _ fs fd position wanted handle stored held found refused
      rw [word_same small] at ok
      rw [if_pos small]
      intro bytes answer
      refine ⟨readThrough_node fs fd position wanted, ?_⟩
      rw [← read_eq (whole handle.inodeId stored found)]
      exact Except.ok.inj (answer.symm.trans ok)

theorem exactCut_iff {size : Nat} : ExactCut fs (fs.ftruncate fd size) fd size ↔ FitsCut fs fd size := by
  constructor
  · intro exact' handle stored held found open'
    by_contra large
    have refused := exact' handle stored held found
    rw [if_neg large] at refused
    obtain ⟨e, failed⟩ := refused
    have ok := (@ftruncate_done T _ _ fs fd size handle stored held found open').1
    rw [failed] at ok
    cases ok
  · intro fits handle stored held found
    by_cases refused : accessMode handle.flags = O_RDONLY
    · have result : fs.ftruncate fd size = (.error .permissionDenied, fs) := by
        simp only [ftruncate, held, refused, if_true]
      rw [result]
      split
      · exact fun ok => (by cases ok)
      · exact ⟨_, rfl⟩
    · have small := fits handle stored held found refused
      obtain ⟨-, nodes⟩ := @ftruncate_done T _ _ fs fd size handle stored held found refused
      rw [word_same small] at nodes
      rw [if_pos small]
      refine fun _ => ⟨_, truncate_size .., fun i within => ?_, nodes⟩
      rw [truncate_byte, if_neg fun behind => Nat.not_le.mpr within behind.2]

/-- A call is exact exactly if what it is asked for fits. -/
theorem exact_iff (whole : AllWhole fs) (word : target.usizeBits ≤ 64) : Exact call fs ↔ Fits call fs := by
  have twice (n : Nat) : toUsize (toUsize n) = toUsize n := Nat.mod_mod _ _
  cases call with
  | write fd buf =>
    refine exactWrite_iff whole word fun handle storage => ?_
    unfold writeOffset
    split
    · rfl
    · exact twice _
  | writeAt fd offset buf =>
    have written {after : Nat → Nat → Nat} : ExactWrite fs (fs.writeThrough fd (fun _ _ => offset) after buf) fd
        (fun _ _ => offset) buf ↔ FitsWrite fs fd (fun _ _ => offset) buf := exactWrite_iff whole word fun _ _ => rfl
    exact written
  | appendWrite fd buf => exact exactWrite_iff whole word fun _ _ => rfl
  | read fd wanted => exact exactRead_iff whole
  | readAt fd offset wanted => exact exactRead_iff whole
  | ftruncate fd size => exact exactCut_iff
  | _ => exact Iff.rfl

/-! ### Runs -/

/-- The recorded sizes are those of the storage. -/
def SizesAgree (fs : Fs T) : Prop := ∀ id stored, fs.node id = some (some stored) → stored.size = stored.storage.size

/-- Filesystems as they come to be by calls that fit, and by being restored. -/
inductive Fitting : Fs T → Prop where
  | new (clock : T) : Fitting (withTimeProvider clock)
  | called {fs : Fs T} (fitting : Fitting fs) (call : Call) (fits : Fits call fs) : Fitting (call.perform fs)
  | restored {fs : Fs T} {inodes : List (Sigma fun _ : InodeId => Inode)} (fitting : Fitting fs) (visits : Visits fs inodes)
      (clock : T) : Fitting (fromSnapshot (fs.toSnapshot inodes) clock)

theorem Fitting.reachable (fitting : Fitting fs) : Reachable fs := by
  induction fitting with
  | new clock => exact .new clock
  | called _ call _ ih => exact .called ih call
  | restored _ visits clock ih => exact .restored ih visits clock

omit [TimeProvider T] target in
theorem sizes_updated {later : Fs T} {stored : Option Stored} (agree : SizesAgree fs)
    (same : ∀ file, stored = some file → file.size = file.storage.size)
    (nodes : later.node = Function.update fs.node id (some stored)) : SizesAgree later := by
  intro other file found
  rw [nodes, Function.update_apply] at found
  split at found
  · exact same file (Option.some.inj found)
  · exact agree other file found

omit target in
theorem openEntry_sizes (agree : SizesAgree fs) (d : InodeId) (name : String) (flags : Nat) :
    SizesAgree (fs.openEntry d name flags).2 := by
  rcases openEntry_node fs d name flags with ⟨same, -⟩ | ⟨v, stored, -, -, -, nodes, -⟩ | ⟨nodes, -⟩
  · intro id stored found
    exact agree id stored (same ▸ found)
  · refine sizes_updated agree (fun file same => ?_) nodes
    cases same
    exact (truncate_size ..).symm
  · refine sizes_updated agree (fun file same => ?_) nodes
    cases same
    rfl

theorem writeThrough_sizes (whole : AllWhole fs) (word : target.usizeBits ≤ 64) (agree : SizesAgree fs)
    (position : FileHandle → BlockStorage → Nat) (after : Nat → Nat → Nat) (buf : Bytes) :
    SizesAgree (fs.writeThrough fd position after buf).2 := by
  rcases writeThrough_node fs fd position after buf with same | ⟨handle, stored, -, found, nodes⟩
  · intro id stored found
    exact agree id stored (same ▸ found)
  · refine sizes_updated agree (fun file same => ?_) nodes
    cases same
    exact size_word (write_whole (whole handle.inodeId stored found) (Nat.mod_lt _ (Nat.two_pow_pos _))) word

theorem ftruncate_sizes {size : Nat} (fits : FitsCut fs fd size) (agree : SizesAgree fs) : SizesAgree (fs.ftruncate fd size).2 := by
  rcases ftruncate_node fs fd size with same | ⟨handle, stored, held, found, nodes⟩
  · intro id stored found
    exact agree id stored (same ▸ found)
  · by_cases refused : accessMode handle.flags = O_RDONLY
    · have result : fs.ftruncate fd size = (.error .permissionDenied, fs) := by
        simp only [ftruncate, held, refused, if_true]
      rw [result]
      exact agree
    · rw [word_same (fits handle stored held found refused)] at nodes
      refine sizes_updated agree (fun file same => ?_) nodes
      cases same
      exact (truncate_size ..).symm

theorem perform_sizes (whole : AllWhole fs) (word : target.usizeBits ≤ 64) (fits : Fits call fs) (agree : SizesAgree fs) :
    SizesAgree (call.perform fs) := by
  have unchanged {later : Fs T} (same : later.node = fs.node) : SizesAgree later := fun id stored found =>
    agree id stored (same ▸ found)
  cases call with
  | openPathWithFlags path flags =>
    rcases openPath_cases fs path flags with ⟨⟨e, result⟩, -⟩ | ⟨result, -⟩ | ⟨d, name, -, result⟩
    · exact unchanged (by rw [Call.perform, result])
    · exact unchanged (by rw [Call.perform, result, insertFd_node])
    · rw [Call.perform, result]
      exact openEntry_sizes agree d name flags
  | openAt dirFd path flags =>
    rcases openAt_cases fs dirFd path flags with ⟨⟨e, result⟩, -⟩ | ⟨d, name, -, result⟩
    · exact unchanged (by rw [Call.perform, result])
    · rw [Call.perform, result]
      exact openEntry_sizes agree d name flags
  | write fd buf => exact writeThrough_sizes whole word agree _ _ buf
  | writeAt fd offset buf => exact writeThrough_sizes whole word agree _ _ buf
  | appendWrite fd buf => exact writeThrough_sizes whole word agree _ _ buf
  | read fd wanted => exact unchanged (readThrough_node fs fd _ wanted)
  | readAt fd offset wanted => exact unchanged (readThrough_node fs fd _ wanted)
  | ftruncate fd size => exact ftruncate_sizes fits agree
  | seek fd offset whence => exact unchanged (seek_node fs fd offset whence)
  | close fd => exact unchanged (close_node fs fd)
  | mkdir path =>
    rcases mkdir_node fs path with same | ⟨nodes, -⟩
    · exact unchanged (by rw [Call.perform, same])
    · exact sizes_updated agree (fun _ same => by cases same) nodes
  | mkdirP path =>
    intro id stored found
    rcases (mkdirP_numbered fs path).nodes id with same | ⟨dir, -⟩
    · exact agree id stored (same ▸ found)
    · cases dir.symm.trans found
  | unlink path => exact unchanged (unlink_node fs path)
  | rmdir path => exact unchanged (rmdir_node fs path)
  | rename oldPath newPath => exact unchanged (rename_node fs oldPath newPath)

omit [TimeProvider T] in
theorem restored_sizes {inodes : List (Sigma fun _ : InodeId => Inode)} (whole : AllWhole fs) (visits : Visits fs inodes) (clock : T)
    (agree : SizesAgree fs) : SizesAgree (fromSnapshot (fs.toSnapshot inodes) clock) := by
  intro id stored found
  obtain ⟨metadata, present, size⟩ := node_inode found
  have alike := restored_alike whole visits clock id
  rw [present] at alike
  cases before : fs.inodeTable.lookup id with
  | none =>
    rw [before] at alike
    cases alike
  | some inode =>
    rw [before] at alike
    cases alike with
    | some alike =>
      cases alike with
      | @file _ storage _ same =>
        have recorded := agree id ⟨storage, metadata.size⟩ (by rw [Fs.node, before]; rfl)
        rw [← size, ← content_length, same, content_length]
        exact recorded

/-- In every state that comes to be by calls that fit, the recorded size of every file is
the size of its storage, and a call acts on exactly the offset or size it is given, or
is refused where that cannot be represented, exactly if it fits. -/
theorem offsets_exact (fitting : Fitting fs) (word : target.usizeBits ≤ 64) : SizesAgree fs ∧ ∀ call, Exact call fs ↔ Fits call fs := by
  refine ⟨?_, fun call => exact_iff (reachable_whole fitting.reachable) word⟩
  induction fitting with
  | new clock =>
    intro id stored found
    rw [Fs.node, withTimeProvider] at found
    dsimp only at found
    rw [Table.lookup_insert] at found
    split at found
    · cases found
    · cases found
  | called fitting call fits ih => exact perform_sizes (reachable_whole fitting.reachable) word fits ih
  | restored fitting visits clock ih => exact restored_sizes (reachable_whole fitting.reachable) visits clock ih

end

/-- A file with a byte in it. -/
def small [Target] : Fs MonotonicCounter :=
  after [.openPathWithFlags "/f" (O_RDWR ||| O_CREAT), .write 3 [7]] Fs.new

theorem small_exact :
    let _ : Target := .wasm32
    SizesAgree small ∧ ∀ call, Exact call small ↔ Fits call small := by
  let _ : Target := .wasm32
  have opened : Fitting ((Call.openPathWithFlags "/f" (O_RDWR ||| O_CREAT)).perform Fs.new) :=
    .called (.new MonotonicCounter.new) _ trivial
  refine offsets_exact (.called opened (.write 3 [7]) ?_) (by decide)
  intro handle stored held found _
  cases held
  cases found
  decide

/-- A write at 2^32 goes to the start of the file. -/
theorem wrapped_inexact :
    let _ : Target := .wasm32
    Reachable small ∧ ¬ Exact (.writeAt 3 (2 ^ 32) [9]) small := by
  let _ : Target := .wasm32
  refine ⟨reachable_after (.new MonotonicCounter.new), fun exact' => ?_⟩
  obtain ⟨e, failed⟩ := exact' ⟨1, 1, O_RDWR ||| O_CREAT⟩ ⟨BlockStorage.new.write 0 [7], 1⟩ rfl rfl
  cases failed

end MonakaFs.FsCore
