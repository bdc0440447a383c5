import MonakaFs.Async.Interleaving
import MonakaFs.FsCore.Snapshots

/-! Threads that append to one file at once.

A write reads the flags of its descriptor, takes the inode's lock for the content, and
sets the position of the descriptor afterwards. An append finds the end of the file and
writes behind it under one lock, so appends of any threads come one behind the other,
as long as the file does not grow beyond what a machine word counts.
-/

set_option autoImplicit false

namespace MonakaFs.FsCore

open Async Fs

/-- The two ways to append. -/
inductive Way where
  | write
  | appendWrite
  deriving DecidableEq

structure Append where
  way : Way
  fd : Fd
  buf : Bytes

/-- Where the bytes go. -/
def Way.position [Target] (way : Way) (handle : FileHandle) (storage : BlockStorage) : Nat :=
  match way with
  | .write => if handle.flags &&& O_APPEND ≠ 0 then storage.size else toUsize handle.position
  | .appendWrite => storage.size

/-- Where a thread stands before its next section, with what it still has to append and what it was answered. -/
inductive Appending where
  | ready (plan : List Append) (answers : List (Except FsError Nat))
  | present (handle : FileHandle) (append : Append) (plan : List Append) (answers : List (Except FsError Nat))
  | store (handle : FileHandle) (append : Append) (plan : List Append) (answers : List (Except FsError Nat))
  | position (fd : Fd) (pos : Nat) (plan : List Append) (answers : List (Except FsError Nat))

section
variable {T : Type} [TimeProvider T] [Target]

def Append.run (append : Append) (fs : Fs T) : Outcome T Nat :=
  match append.way with
  | .write => fs.write append.fd append.buf
  | .appendWrite => fs.appendWrite append.fd append.buf

def Appending.step : Appending → Fs T → Appending × Fs T
  | .ready [] answers, fs => (.ready [] answers, fs)
  | .ready (append :: plan) answers, fs =>
      match fs.fdTable.lookup append.fd with
      | none => (.ready plan (answers ++ [.error .badFileDescriptor]), fs)
      | some handle =>
          if accessMode handle.flags = O_RDONLY then (.ready plan (answers ++ [.error .permissionDenied]), fs)
          else (.present handle append plan answers, fs)
  | .present handle append plan answers, fs =>
      if (fs.inodeTable.lookup handle.inodeId).isSome then (.store handle append plan answers, fs)
      else (.ready plan (answers ++ [.error .notFound]), fs)
  | .store handle append plan answers, fs =>
      match fs.inodeTable.lookup handle.inodeId with
      | none => (.ready plan (answers ++ [.error .notFound]), fs)
      | some inode =>
          match inode.content with
          | .dir _ => (.ready plan (answers ++ [.error .badFileDescriptor]), fs)
          | .file storage =>
              let pos := append.way.position handle storage
              let written := storage.write (toUsize pos) append.buf
              (.position append.fd (toU64 (toUsize (pos + append.buf.length))) plan (answers ++ [.ok append.buf.length]),
                fs.update handle.inodeId (inode.store written (toU64 written.size)))
  | .position fd pos plan answers, fs => (.ready plan answers, fs.setPosition fd pos)

/-- A thread that nobody interrupts appends as the operation in one piece does. -/
theorem append_alone (append : Append) (plan : List Append) (answers : List (Except FsError Nat)) (fs : Fs T) :
    Leads Appending.step (.ready (append :: plan) answers, fs) (.ready plan (answers ++ [(append.run fs).1]), (append.run fs).2) := by
  have same : append.run fs = fs.writeThrough append.fd append.way.position (fun pos n => toU64 (toUsize (pos + n))) append.buf := by
    obtain ⟨way, fd, buf⟩ := append
    cases way <;> rfl
  rw [same, writeThrough]
  refine .turn ?_
  rw [Appending.step]
  cases fs.fdTable.lookup append.fd with
  | none => exact .refl _
  | some handle =>
    dsimp only
    split
    · exact .refl _
    refine .turn ?_
    rw [Appending.step]
    cases stored : fs.inodeTable.lookup handle.inodeId with
    | none => exact .refl _
    | some inode =>
      refine .turn ?_
      simp only [Appending.step, stored]
      cases inode.content with
      | dir entries => exact .refl _
      | file storage => exact .turn (.refl _)

/-! ### What is still to be appended -/

/-- The buffers of a plan. -/
def buffers (plan : List Append) : List Bytes := plan.map (·.buf)

def Appending.pending : Appending → List Bytes
  | .ready plan _ => buffers plan
  | .present _ append plan _ => append.buf :: buffers plan
  | .store _ append plan _ => append.buf :: buffers plan
  | .position _ _ plan _ => buffers plan

/-- The descriptor is open on the file for appending. -/
def Append.Opened (append : Append) (handle : FileHandle) (id : InodeId) : Prop :=
  handle.inodeId = id ∧ accessMode handle.flags ≠ O_RDONLY ∧ (append.way = .write → handle.flags &&& O_APPEND ≠ 0)

def Append.Fits (append : Append) (id : InodeId) (fs : Fs T) : Prop :=
  ∃ handle, fs.fdTable.lookup append.fd = some handle ∧ append.Opened handle id

/-- The descriptors of everything that is still to be appended are open on the file. -/
def Appending.Fits (id : InodeId) (fs : Fs T) : Appending → Prop
  | .ready plan _ => ∀ append ∈ plan, append.Fits id fs
  | .present handle append plan _ => append.Opened handle id ∧ ∀ append ∈ plan, append.Fits id fs
  | .store handle append plan _ => append.Opened handle id ∧ ∀ append ∈ plan, append.Fits id fs
  | .position _ _ plan _ => ∀ append ∈ plan, append.Fits id fs

/-! ### One section -/

/-- Descriptors stay open on their inodes with their flags. -/
def Reopened (fs later : Fs T) : Prop := ∀ fd handle, fs.fdTable.lookup fd = some handle →
  ∃ handle', later.fdTable.lookup fd = some handle' ∧ handle'.inodeId = handle.inodeId ∧ handle'.flags = handle.flags

variable {fs later : Fs T} {id : InodeId} {stored : Stored} {point : Appending}

omit [TimeProvider T] [Target] in
theorem Reopened.of_table (same : later.fdTable = fs.fdTable) : Reopened fs later :=
  fun _ handle found => ⟨handle, by rw [same]; exact found, rfl, rfl⟩

omit [TimeProvider T] [Target] in
theorem setPosition_reopened (fs : Fs T) (fd : Fd) (pos : Nat) : Reopened fs (fs.setPosition fd pos) := by
  unfold setPosition
  cases held : fs.fdTable.lookup fd with
  | none => exact .of_table rfl
  | some handle =>
    intro other handle' found
    by_cases same : other = fd
    · subst same
      cases held.symm.trans found
      exact ⟨{ handle with position := pos }, by rw [Table.lookup_insert, if_pos rfl], rfl, rfl⟩
    · exact ⟨handle', by rw [Table.lookup_insert, if_neg same]; exact found, rfl, rfl⟩

omit [TimeProvider T] [Target] in
theorem Reopened.append {append : Append} (reopened : Reopened fs later) (fits : append.Fits id fs) : append.Fits id later := by
  obtain ⟨handle, found, file, writable, appends⟩ := fits
  obtain ⟨handle', found', inode, flags⟩ := reopened _ handle found
  exact ⟨handle', found', inode.trans file, by rw [flags]; exact writable, by rw [flags]; exact appends⟩

omit [TimeProvider T] [Target] in
theorem Reopened.kept (reopened : Reopened fs later) (fits : point.Fits id fs) : point.Fits id later := by
  cases point with
  | ready plan answers => exact fun append member => reopened.append (fits append member)
  | present handle append plan answers => exact ⟨fits.1, fun append member => reopened.append (fits.2 append member)⟩
  | store handle append plan answers => exact ⟨fits.1, fun append member => reopened.append (fits.2 append member)⟩
  | position fd pos plan answers => exact fun append member => reopened.append (fits append member)

omit [Target] in
theorem update_written (inode : Inode) (written : BlockStorage) (size : Nat) :
    (fs.update id (inode.store written size)).node id = some (some ⟨written, size⟩) := by
  rw [node, update, Table.lookup_insert, if_pos rfl]
  rfl

/-- A section appends the next buffer to the file, or leaves the file as it is. -/
theorem step_appends (fits : point.Fits id fs) (file : fs.node id = some (some stored)) :
    (point.step fs).1.Fits id (point.step fs).2 ∧ Reopened fs (point.step fs).2 ∧
    (((point.step fs).2.node id = some (some stored) ∧ (point.step fs).1.pending = point.pending) ∨
      ∃ buf, point.pending = buf :: (point.step fs).1.pending ∧
        let written := stored.storage.write (toUsize stored.storage.size) buf
        (point.step fs).2.node id = some (some ⟨written, toU64 written.size⟩)) := by
  cases point with
  | ready plan answers =>
    cases plan with
    | nil => exact ⟨fits, .of_table rfl, .inl ⟨file, rfl⟩⟩
    | cons append plan =>
      obtain ⟨handle, found, opened⟩ := fits append List.mem_cons_self
      have rest (other : Append) (member : other ∈ plan) : other.Fits id fs := fits other (List.mem_cons_of_mem append member)
      have next : (Appending.ready (append :: plan) answers).step fs = (.present handle append plan answers, fs) := by
        simp only [Appending.step, found, if_neg opened.2.1]
      rw [next]
      exact ⟨⟨opened, rest⟩, .of_table rfl, .inl ⟨file, rfl⟩⟩
  | present handle append plan answers =>
    obtain ⟨inode, there, -⟩ := Option.map_eq_some_iff.mp file
    have next : (Appending.present handle append plan answers).step fs = (.store handle append plan answers, fs) := by
      rw [Appending.step, fits.1.1, there]
      rfl
    rw [next]
    exact ⟨fits, .of_table rfl, .inl ⟨file, rfl⟩⟩
  | store handle append plan answers =>
    obtain ⟨⟨rfl, -, appends⟩, rest⟩ := fits
    obtain ⟨⟨metadata, content⟩, there, same⟩ := Option.map_eq_some_iff.mp file
    cases content with
    | dir entries => cases same
    | file storage =>
      cases same
      -- Both kinds of an append store at the end of the file.
      have position : append.way.position handle storage = storage.size := by
        obtain ⟨way, fd, buf⟩ := append
        cases way with
        | write => exact if_pos (appends rfl)
        | appendWrite => rfl
      simp only [Appending.step, there, position]
      have reopened : Reopened fs (fs.update handle.inodeId (Inode.store ⟨metadata, .file storage⟩
          (storage.write (toUsize storage.size) append.buf) (toU64 (storage.write (toUsize storage.size) append.buf).size))) :=
        .of_table rfl
      exact ⟨fun other member => reopened.append (rest other member), reopened, .inr ⟨append.buf, rfl, update_written _ _ _⟩⟩
  -- The content is stored already. Only the position of the descriptor is left.
  | position fd pos plan answers =>
    have reopened := setPosition_reopened fs fd pos
    refine ⟨fun other member => reopened.append (fits other member), reopened, .inl ⟨?_, rfl⟩⟩
    rw [Appending.step, ← file]
    unfold setPosition
    split <;> rfl

end

/-! ### Every order of turns -/

section
variable {T U : Type} [TimeProvider T] [Target] [DecidableEq U] {id : InodeId} {start : Stored} {plan : U → List Append}
  {threads : Threads U Appending (Fs T)}

/-- The buffers that one thread has appended, in its order. -/
def appended (order : List (U × Bytes)) (thread : U) : List Bytes := (order.filter (·.1 = thread)).map (·.2)

/-- The bytes of buffers. -/
def weight (buffers : List Bytes) : Nat := (buffers.map List.length).sum

/-- What was appended stands in the file behind its first content, in the order of the appends. -/
structure Sequenced (id : InodeId) (start : Stored) (plan : U → List Append) (threads : Threads U Appending (Fs T))
    (order : List (U × Bytes)) (stored : Stored) : Prop where
  file : threads.shared.node id = some (some stored)
  content : stored.storage.content = start.storage.content ++ (order.map (·.2)).flatten
  whole : BlockStorage.Whole stored.storage
  recorded : order ≠ [] ∨ start.size = start.storage.size → stored.size = stored.storage.size
  fits : ∀ thread, (threads.point thread).Fits id threads.shared
  own : ∀ thread, appended order thread ++ (threads.point thread).pending = buffers (plan thread)

omit [TimeProvider T] [Target] in
theorem weight_append (front back : List Bytes) : weight (front ++ back) = weight front + weight back := by
  simp [weight]

omit [TimeProvider T] [Target] [DecidableEq U] in
theorem flatten_length (order : List (U × Bytes)) : (order.map (·.2)).flatten.length = weight (order.map (·.2)) := by
  rw [List.length_flatten, weight]

omit [TimeProvider T] [Target] in
theorem weight_by_thread [Fintype U] (order : List (U × Bytes)) : weight (order.map (·.2)) = ∑ thread, weight (appended order thread) := by
  induction order with
  | nil => simp [weight, appended]
  | cons entry order ih =>
    have split (thread : U) : weight (appended (entry :: order) thread) =
        (if thread = entry.1 then entry.2.length else 0) + weight (appended order thread) := by
      unfold appended
      by_cases same : entry.1 = thread
      · subst same
        simp [weight]
      · have other : ¬ thread = entry.1 := fun back => same back.symm
        simp [weight, same, other]
    rw [Finset.sum_congr rfl fun thread _ => split thread, Finset.sum_add_distrib, ← ih]
    simp [weight]

omit [TimeProvider T] in
/-- What is appended next has room, if all plans have. -/
theorem room_left [Fintype U] {order : List (U × Bytes)} {stored : Stored} {thread : U} {buf : Bytes} {rest : List Bytes}
    (sequenced : Sequenced id start plan threads order stored) (pending : (threads.point thread).pending = buf :: rest)
    (room : start.storage.size + ∑ thread, weight (buffers (plan thread)) < 2 ^ Target.usizeBits) :
    stored.storage.size + buf.length < 2 ^ Target.usizeBits := by
  have size : stored.storage.size = start.storage.size + weight (order.map (·.2)) := by
    rw [← BlockStorage.content_length, sequenced.content, List.length_append, BlockStorage.content_length, flatten_length]
  have bound (other : U) : weight (appended order other) + (if other = thread then buf.length else 0) ≤ weight (buffers (plan other)) := by
    rw [← sequenced.own other, weight_append]
    by_cases same : other = thread
    · subst same
      rw [pending, if_pos rfl]
      simp only [weight, List.map_cons, List.sum_cons]
      omega
    · rw [if_neg same]
      omega
  have total := Finset.sum_le_sum fun other (_ : other ∈ Finset.univ) => bound other
  rw [Finset.sum_add_distrib, ← weight_by_thread, Finset.sum_ite_eq' Finset.univ thread, if_pos (Finset.mem_univ thread)] at total
  omega

theorem turn_sequenced [Fintype U] (room : start.storage.size + ∑ thread, weight (buffers (plan thread)) < 2 ^ Target.usizeBits)
    (word : Target.usizeBits ≤ 64) {order : List (U × Bytes)} {stored : Stored} (thread : U)
    (sequenced : Sequenced id start plan threads order stored) :
    ∃ order' stored', Sequenced id start plan (threads.turn Appending.step (.thread thread)) order' stored' := by
  obtain ⟨own, reopened, changed⟩ := step_appends (sequenced.fits thread) sequenced.file
  have fits (other : U) : ((threads.turn Appending.step (.thread thread)).point other).Fits id
      (threads.turn Appending.step (.thread thread)).shared := by
    by_cases same : other = thread
    · subst same
      rw [turn_own]
      exact own
    · rw [turn_other same]
      exact reopened.kept (sequenced.fits other)
  -- Either the turn stores nothing, or it stores the next buffer of this thread.
  rcases changed with ⟨file, pending⟩ | ⟨buf, pending, file⟩
  · refine ⟨order, stored, file, sequenced.content, sequenced.whole, sequenced.recorded, fits, fun other => ?_⟩
    rw [← sequenced.own other]
    by_cases same : other = thread
    · subst same
      rw [turn_own, pending]
    · rw [turn_other same]
  -- The buffer goes to the end of the content, and of the order.
  · have enough := room_left sequenced pending room
    rw [toUsize, Nat.mod_eq_of_lt (by omega)] at file
    have whole : BlockStorage.Whole (stored.storage.write stored.storage.size buf) :=
      BlockStorage.write_whole sequenced.whole sequenced.whole.small
    refine ⟨order ++ [(thread, buf)], _, file, ?_, whole, fun _ => ?_, fits, fun other => ?_⟩
    · rw [BlockStorage.append_content sequenced.whole enough, sequenced.content, List.append_assoc]
      simp
    · exact Nat.mod_eq_of_lt (lt_of_lt_of_le whole.small (Nat.pow_le_pow_right (by decide) word))
    · rw [← sequenced.own other]
      by_cases same : other = thread
      · subst same
        rw [turn_own, pending]
        simp [appended]
      · have different : ¬ thread = other := fun back => same back.symm
        rw [turn_other same]
        simp [appended, different]

theorem run_sequenced [Fintype U] (room : start.storage.size + ∑ thread, weight (buffers (plan thread)) < 2 ^ Target.usizeBits)
    (word : Target.usizeBits ≤ 64) {order : List (U × Bytes)} {stored : Stored} (schedule : List U)
    (sequenced : Sequenced id start plan threads order stored) :
    ∃ order' stored', Sequenced id start plan (interleave Appending.step (schedule.map .thread) threads) order' stored' := by
  induction schedule generalizing threads order stored with
  | nil => exact ⟨order, stored, sequenced⟩
  | cons thread schedule ih =>
    obtain ⟨order', stored', sequenced⟩ := turn_sequenced room word thread sequenced
    exact ih sequenced

omit [TimeProvider T] [Target] in
/-- The file is its first content with every buffer behind it, each thread's in its own order, and the recorded size is
the length of the content. -/
def Concatenated (id : InodeId) (start : Stored) (plan : U → List Append) (fs : Fs T) : Prop :=
  ∃ (order : List (U × Bytes)) (last : Stored), fs.node id = some (some last) ∧
    last.storage.content = start.storage.content ++ (order.map (·.2)).flatten ∧
    (∀ thread, appended order thread = buffers (plan thread)) ∧
    (order ≠ [] ∨ start.size = start.storage.size → last.size = last.storage.content.length)

end

/-- A file that is as large as a machine word counts. -/
def fullFile [Target] : List Call := [.openPathWithFlags "/f" (O_CREAT ||| O_RDWR ||| O_APPEND), .ftruncate 3 (2 ^ 32 - 1)]

def twoBytes : List Append := [⟨.write, 3, [1, 2]⟩]

def overflowing [Target] : Threads Unit Appending (Fs MonotonicCounter) := ⟨after fullFile Fs.new, fun _ => .ready twoBytes []⟩

theorem overflowing_sizes : let _ : Target := .wasm32
    ((overflowing.shared.node 1).map fun node => node.map (·.storage.size)) = some (some (2 ^ 32 - 1)) ∧
      (((interleave Appending.step ([(), (), (), ()].map .thread) overflowing).shared.node 1).map fun node =>
        node.map (·.storage.size)) = some (some (2 ^ 32 - 1)) := ⟨rfl, rfl⟩

/-- One file that is open twice, once for appending. -/
def openTwice : List Call := [.openPathWithFlags "/f" (O_CREAT ||| O_RDWR ||| O_APPEND), .openPathWithFlags "/f" O_RDWR]

def twoPlans : Bool → List Append
  | true => [⟨.write, 3, [1, 2]⟩]
  | false => [⟨.appendWrite, 4, [3]⟩]

def twoWriters [Target] : Threads Bool Appending (Fs MonotonicCounter) :=
  ⟨after openTwice Fs.new, fun thread => .ready (twoPlans thread) []⟩

end MonakaFs.FsCore
