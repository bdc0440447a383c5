import MonakaFs.Wasi.RpcState

/-! What changes only the buffers of streams.

A flush sends a buffer and empties it. A sync holds references to the streams of its
descriptor while it flushes them, and gives all of them back.
-/

set_option autoImplicit false

namespace MonakaFs.Wasi.RpcAdapter

open FsCore Fs

def closesOf (requests : List Rpc.Request) : List Fd :=
  requests.filterMap fun
    | .close fd => some fd
    | _ => none

/-- The requests that send a stream's buffer. -/
inductive Flushes (stream : FileOutputStream) (fd : Fd) : List Rpc.Request → Prop where
  | nothing : stream.buffer = [] → Flushes stream fd []
  | append : stream.buffer ≠ [] → stream.append = true → Flushes stream fd [.appendWrite fd stream.buffer]
  | refused : stream.buffer ≠ [] → stream.append = false → Flushes stream fd [.seek fd (toI64 stream.offset) 0]
  | write : stream.buffer ≠ [] → stream.append = false → Flushes stream fd [.seek fd (toI64 stream.offset) 0, .write fd stream.buffer]

/-- The stream is the same but for its buffer, with more strong references. -/
structure StreamCell.Same (more : Nat) (cell cell' : StreamCell) : Prop where
  handle : cell'.stream.handle = cell.stream.handle
  strong : cell'.strong = cell.strong + more
  opener : cell'.opener = cell.opener
  held : cell'.held = cell.held

/-- Buffers have changed, requests were sent, and strong references are held besides. -/
structure Borrowed (ks : List Nat) (before after : Adapter) : Prop where
  state : after.state = before.state
  descriptors : after.descriptors = before.descriptors
  descriptorCount : after.descriptorCount = before.descriptorCount
  streamCount : after.streamCount = before.streamCount
  kept : ∀ k cell, before.streams k = some cell → ∃ cell', after.streams k = some cell' ∧ StreamCell.Same (ks.count k) cell cell'
  known : ∀ k cell', after.streams k = some cell' → ∃ cell, before.streams k = some cell ∧ StreamCell.Same (ks.count k) cell cell'
  sent : ∃ newly, after.sent = before.sent ++ newly ∧ closesOf newly = []

section
variable {server : Answers} {adapter before after later : Adapter} {k : Nat} {ks ls : List Nat} {cell : StreamCell}

theorem StreamCell.Same.refl (cell : StreamCell) : StreamCell.Same 0 cell cell := ⟨rfl, rfl, rfl, rfl⟩

theorem StreamCell.Same.trans {n m : Nat} {first second third : StreamCell} (one : StreamCell.Same n first second)
    (two : StreamCell.Same m second third) : StreamCell.Same (n + m) first third :=
  ⟨two.handle.trans one.handle, by rw [two.strong, one.strong, Nat.add_assoc], two.opener.trans one.opener, two.held.trans one.held⟩

theorem Borrowed.refl (adapter : Adapter) : Borrowed [] adapter adapter :=
  ⟨rfl, rfl, rfl, rfl, fun _ cell there => ⟨cell, there, .refl cell⟩, fun _ cell there => ⟨cell, there, .refl cell⟩, [],
    (List.append_nil _).symm, rfl⟩

theorem closesOf_append (newly more : List Rpc.Request) : closesOf (newly ++ more) = closesOf newly ++ closesOf more :=
  List.filterMap_append

theorem Borrowed.trans (first : Borrowed ks before after) (second : Borrowed ls after later) : Borrowed (ks ++ ls) before later where
  state := second.state.trans first.state
  descriptors := second.descriptors.trans first.descriptors
  descriptorCount := second.descriptorCount.trans first.descriptorCount
  streamCount := second.streamCount.trans first.streamCount
  kept k cell there := by
    obtain ⟨middle, found, one⟩ := first.kept k cell there
    obtain ⟨last, still, two⟩ := second.kept k middle found
    exact ⟨last, still, by rw [List.count_append]; exact one.trans two⟩
  known k last there := by
    obtain ⟨middle, found, two⟩ := second.known k last there
    obtain ⟨cell, still, one⟩ := first.known k middle found
    exact ⟨cell, still, by rw [List.count_append]; exact one.trans two⟩
  sent := by
    obtain ⟨newly, sent, none⟩ := first.sent
    obtain ⟨more, again, still⟩ := second.sent
    exact ⟨newly ++ more, by rw [again, sent, List.append_assoc], by rw [closesOf_append, none, still, List.append_nil]⟩

theorem call_borrowed (adapter : Adapter) {request : Rpc.Request} (other : closesOf [request] = []) :
    Borrowed [] adapter (adapter.call server request).2 :=
  { Borrowed.refl adapter with sent := ⟨[request], rfl, other⟩ }

theorem setStream_borrowed {cell' : StreamCell} (there : adapter.streams k = some cell) (same : StreamCell.Same 0 cell cell') :
    Borrowed [] adapter (adapter.setStream k cell') := by
  refine { Borrowed.refl adapter with kept := fun j found here => ?_, known := fun j found here => ?_ }
  · by_cases this : j = k
    · subst this
      cases there.symm.trans here
      exact ⟨cell', Function.update_self .., same⟩
    · exact ⟨found, (Function.update_of_ne this ..).trans here, .refl found⟩
  · by_cases this : j = k
    · subst this
      cases (Function.update_self ..).symm.trans here
      exact ⟨cell, there, same⟩
    · exact ⟨found, (Function.update_of_ne this ..).symm.trans here, .refl found⟩

/-- Whatever the answer is taken for, the request was sent. -/
theorem expecting_snd {A : Type} (expected : Rpc.Response → Option A) (answer : Except ErrorCode Rpc.Response × Adapter) :
    (Adapter.expecting expected answer).2 = answer.2 := by
  unfold Adapter.expecting
  split
  · rfl
  split <;> rfl

theorem expecting_sent {A : Type} {expected : Rpc.Response → Option A} {request : Rpc.Request} {result : Except ErrorCode A}
    (asked : Adapter.expecting expected (adapter.call server request) = (result, later)) : later = (adapter.call server request).2 := by
  rw [← expecting_snd expected, asked]

/-- A flush sends the buffer to the server descriptor, if it can be sent. -/
theorem flushBuffer_spec (there : adapter.streams k = some cell) : Borrowed [] adapter (adapter.flushBuffer server k).2 ∧
    ∀ fd, adapter.state.descriptorToFd cell.stream.handle = some fd →
      ∃ newly, (adapter.flushBuffer server k).2.sent = adapter.sent ++ newly ∧ Flushes cell.stream fd newly := by
  unfold Adapter.flushBuffer
  rw [there]
  dsimp only
  split
  · next empty => exact ⟨.refl adapter, fun fd _ => ⟨[], (List.append_nil _).symm, .nothing empty⟩⟩
  next filled =>
  -- The buffer is emptied first. What comes then goes to the server.
  have drained : Borrowed [] adapter (adapter.setStream k { cell with stream := { cell.stream with buffer := [] } }) :=
    setStream_borrowed there ⟨rfl, rfl, rfl, rfl⟩
  split
  · next unknown => exact ⟨drained, fun fd known => by cases unknown.symm.trans known⟩
  next fd known =>
  have only {newly : List Rpc.Request} {done : Adapter} (sent : done.sent = adapter.sent ++ newly) (flushes : Flushes cell.stream fd newly) :
      ∀ fd', adapter.state.descriptorToFd cell.stream.handle = some fd' → ∃ newly, done.sent = adapter.sent ++ newly ∧ Flushes cell.stream fd' newly := by
    intro fd' same
    cases known.symm.trans same
    exact ⟨newly, sent, flushes⟩
  split
  · next append =>
    split <;> next asked =>
      rw [expecting_sent asked]
      exact ⟨drained.trans (@call_borrowed server _ _ rfl), only rfl (.append filled append)⟩
  -- A stream at a position seeks to it before it writes.
  next positioned =>
  have positioned := Bool.eq_false_iff.mpr positioned
  split
  · next asked =>
    rw [expecting_sent asked]
    exact ⟨drained.trans (@call_borrowed server _ _ rfl), only rfl (.refused filled positioned)⟩
  next sought asked =>
  cases expecting_sent asked
  have written := (drained.trans (@call_borrowed server _ (.seek fd (toI64 cell.stream.offset) 0) rfl)).trans
    (@call_borrowed server _ (.write fd cell.stream.buffer) rfl)
  have both : adapter.sent ++ [.seek fd (toI64 cell.stream.offset) 0] ++ [.write fd cell.stream.buffer] =
      adapter.sent ++ [.seek fd (toI64 cell.stream.offset) 0, .write fd cell.stream.buffer] := List.append_assoc ..
  split
  · next asked =>
    rw [expecting_sent asked]
    exact ⟨written, only both (.write filled positioned)⟩
  · next asked =>
    rw [expecting_sent asked]
    refine ⟨written.trans (setStream_borrowed (Function.update_self ..) ⟨rfl, rfl, rfl, rfl⟩), only both (.write filled positioned)⟩

theorem flushBuffer_borrowed (adapter : Adapter) (k : Nat) : Borrowed [] adapter (adapter.flushBuffer server k).2 := by
  cases there : adapter.streams k with
  | none =>
    have idle : adapter.flushBuffer server k = (.ok (), adapter) := by
      unfold Adapter.flushBuffer
      rw [there]
    rw [idle]
    exact .refl adapter
  | some cell => exact (flushBuffer_spec there).1

/-! ### Syncs -/

theorem upgrade_borrowed (adapter : Adapter) (ks : List Nat) : Borrowed ks adapter (adapter.upgrade ks) where
  state := rfl
  descriptors := rfl
  descriptorCount := rfl
  streamCount := rfl
  kept k cell there := ⟨_, congrArg (Option.map _) there, rfl, rfl, rfl, rfl⟩
  known k cell' there := by
    obtain ⟨cell, found, rfl⟩ := Option.map_eq_some_iff.mp there
    exact ⟨cell, found, rfl, rfl, rfl, rfl⟩
  sent := ⟨[], (List.append_nil _).symm, rfl⟩

/-- A borrowed reference is not the last one. -/
theorem dropRc_borrowed (borrowed : Borrowed (k :: ks) before after) (there : before.streams k = some cell) (owned : 0 < cell.strong) :
    Borrowed ks before (after.dropRc server k) := by
  obtain ⟨cell', found, same⟩ := borrowed.kept k cell there
  have count := same.strong
  rw [List.count_cons_self] at count
  have dropped : after.dropRc server k = after.setStream k { cell' with strong := cell'.strong - 1 } := by
    unfold Adapter.dropRc
    rw [found]
    dsimp only
    rw [if_neg (by omega)]
  rw [dropped]
  have fewer : StreamCell.Same (ks.count k) cell { cell' with strong := cell'.strong - 1 } :=
    ⟨same.handle, by dsimp only; omega, same.opener, same.held⟩
  have other {j : Nat} (apart : j ≠ k) : (k :: ks).count j = ks.count j := List.count_cons_of_ne (Ne.symm apart)
  refine { borrowed with kept := fun j one here => ?_, known := fun j one here => ?_ }
  · by_cases this : j = k
    · subst this
      cases there.symm.trans here
      exact ⟨_, Function.update_self .., fewer⟩
    · rw [← other this]
      obtain ⟨last, still, same⟩ := borrowed.kept j one here
      exact ⟨last, (Function.update_of_ne this ..).trans still, same⟩
  · by_cases this : j = k
    · subst this
      cases (Function.update_self ..).symm.trans here
      exact ⟨cell, there, fewer⟩
    · rw [← other this]
      exact borrowed.known j one ((Function.update_of_ne this ..).symm.trans here)

/-- All streams hold a reference of their owner, which is not borrowed. -/
def Owned (adapter : Adapter) (ks : List Nat) : Prop := ∀ k ∈ ks, ∃ cell, adapter.streams k = some cell ∧ 0 < cell.strong

theorem dropAll_borrowed (borrowed : Borrowed ks before after) (owned : Owned before ks) :
    Borrowed [] before (ks.foldl (Adapter.dropRc server) after) := by
  induction ks generalizing after with
  | nil => exact borrowed
  | cons k ks ih =>
    obtain ⟨cell, there, strong⟩ := owned k List.mem_cons_self
    exact ih (dropRc_borrowed borrowed there strong) fun j within => owned j (List.mem_cons_of_mem _ within)

theorem flushStreams_borrowed (borrowed : Borrowed ks before after) (owned : Owned before ks) :
    Borrowed [] before (Adapter.flushStreams server after ks).2 := by
  induction ks generalizing after with
  | nil => exact borrowed
  | cons k ks ih =>
    have flushed := borrowed.trans (@flushBuffer_borrowed server after k)
    rw [List.append_nil] at flushed
    unfold Adapter.flushStreams
    split
    · next failed =>
      rw [failed] at flushed
      exact dropAll_borrowed flushed owned
    · next done =>
      rw [done] at flushed
      obtain ⟨cell, there, strong⟩ := owned k List.mem_cons_self
      exact ih (dropRc_borrowed flushed there strong) fun j within => owned j (List.mem_cons_of_mem _ within)

/-- A sync changes buffers and nothing else. -/
theorem fsync_borrowed (adapter : Adapter) (d : OpenDescriptor) : Borrowed [] adapter (adapter.fsync server d).2 := by
  unfold Adapter.fsync
  split
  · exact .refl adapter
  dsimp only
  -- Only streams that somebody holds are flushed.
  have owned : Owned adapter (adapter.state.liveStreamsFor adapter.streams d.handle) := by
    intro k within
    have strong := of_decide_eq_true (List.mem_filter.mp within).2
    unfold Streams.strongCount at strong
    cases there : adapter.streams k with
    | none =>
      rw [there] at strong
      exact absurd strong (Nat.lt_irrefl 0)
    | some cell =>
      rw [there] at strong
      exact ⟨cell, rfl, strong⟩
  have flushed := @flushStreams_borrowed server _ _ _ (upgrade_borrowed adapter _) owned
  split
  · next failed =>
    rw [failed] at flushed
    exact flushed
  next done =>
  rw [done] at flushed
  split
  · exact flushed
  split
  · exact flushed
  · rw [expecting_snd]
    exact flushed.trans (@call_borrowed server _ _ rfl)

end

end MonakaFs.Wasi.RpcAdapter
