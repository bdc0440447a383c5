import MonakaFs.FsCore.Types

/-! Messages on a connection: a length of four bytes, and as many bytes as it says.

How much a stream takes and how much it gives at a time is up to the host. The answers of
the host are lists here, and after the last of its answers an input stream is closed.
-/

set_option autoImplicit false

namespace MonakaFs.Rpc.Framing

open FsCore

variable [target : Target]

/-- The largest capacity of a vector. -/
def isizeMax : Nat := 2 ^ (target.usizeBits - 1) - 1

def toBeBytes (n : Nat) : Bytes := [UInt8.ofNat (n / 2 ^ 24), UInt8.ofNat (n / 2 ^ 16), UInt8.ofNat (n / 2 ^ 8), UInt8.ofNat n]

def fromBeBytes (bytes : Bytes) : Nat := bytes.foldl (fun n byte => n * 2 ^ 8 + byte.toNat) 0

/-! ### Writing -/

/-- What `check_write` answers, and whether the write that follows is accepted. -/
inductive Budget where
  | permits (n : Nat) (accepted : Bool)
  | failed

structure OutputStream where
  taken : Bytes
  budgets : List Budget
  flushes : List Bool

inductive Sending where
  | sent
  | failed
  | panicked
  | waits
  deriving DecidableEq

/-- Write from an offset on. -/
def writeRest (payload : Bytes) (offset : Nat) (taken : Bytes) : List Budget → Sending × Bytes × List Budget
  | [] => if offset < payload.length then (.waits, taken, []) else (.sent, taken, [])
  | budget :: budgets =>
      if offset < payload.length then
        match budget with
        | .failed => writeRest payload offset taken budgets
        | .permits n accepted =>
            let available := toUsize n
            if available = 0 then writeRest payload offset taken budgets
            else
              let stop := min (toUsize (offset + available)) payload.length
              -- A slice that ends before it starts.
              if stop < offset then (.panicked, taken, budgets)
              else if accepted then writeRest payload stop (taken ++ (payload.drop offset).take (stop - offset)) budgets
              else (.failed, taken, budgets)
      else (.sent, taken, budget :: budgets)

def flush : List Bool → Sending × List Bool
  | [] => (.waits, [])
  | true :: flushes => (.sent, flushes)
  | false :: flushes => flush flushes

def writeMessage (stream : OutputStream) (data : Bytes) : Sending × OutputStream :=
  let len := data.length % 2 ^ 32
  if isizeMax < 4 + data.length then (.panicked, stream)
  else
    match writeRest (toBeBytes len ++ data) 0 stream.taken stream.budgets with
    | (.sent, taken, budgets) => ((flush stream.flushes).1, ⟨taken, budgets, (flush stream.flushes).2⟩)
    | (sending, taken, budgets) => (sending, { stream with taken := taken, budgets := budgets })

/-- Write one message after the other, up to the first that is not sent. -/
def writeAll (stream : OutputStream) : List Bytes → Sending × OutputStream
  | [] => (.sent, stream)
  | data :: rest =>
      match writeMessage stream data with
      | (.sent, stream) => writeAll stream rest
      | other => other

/-! ### Reading -/

/-- What `blocking_read` answers: some bytes, as many as were asked for at most, or an error
that does not close the stream. -/
inductive Answer where
  | bytes (n : Nat)
  | failed

structure InputStream where
  coming : Bytes
  answers : List Answer

/-- The bytes that are read, and those that are still to come. -/
def Answer.read (len : Nat) (coming : Bytes) : Answer → Option (Bytes × Bytes)
  | .bytes n => some (coming.take (min n len), coming.drop (min n len))
  | .failed => none

/-- Read until there are `len` bytes, if the stream is not closed before. -/
def fill (len : Nat) (buf coming : Bytes) : List Answer → Option Bytes × InputStream
  | [] => if buf.length < len then (none, ⟨coming, []⟩) else (some buf, ⟨coming, []⟩)
  | answer :: answers =>
      if buf.length < len then
        match answer.read (len - buf.length) coming with
        | some (bytes, coming) => fill len (buf ++ bytes) coming answers
        | none => fill len buf coming answers
      else (some buf, ⟨coming, answer :: answers⟩)

inductive ReadResult where
  | message (bytes : Bytes)
  | disconnected
  | panicked
  deriving DecidableEq

def readMessageBlocking (stream : InputStream) (firstBytes : Bytes) : ReadResult × InputStream :=
  match fill 4 firstBytes stream.coming stream.answers with
  | (none, stream) => (.disconnected, stream)
  | (some lenBuf, stream) =>
      let len := fromBeBytes (lenBuf.take 4)
      if isizeMax < toUsize len then (.panicked, stream)
      else
        match fill len [] stream.coming stream.answers with
        | (none, stream) => (.disconnected, stream)
        | (some bytes, stream) => (.message bytes, stream)

/-- The first byte of a request has a read of its own. -/
def readRequest (stream : InputStream) : ReadResult × InputStream :=
  match stream.answers with
  | [] => (.disconnected, stream)
  | answer :: answers =>
      match answer.read 1 stream.coming with
      | none => (.disconnected, ⟨stream.coming, answers⟩)
      | some ([], coming) => (.disconnected, ⟨coming, answers⟩)
      | some (bytes, coming) => readMessageBlocking ⟨coming, answers⟩ bytes

/-- Some rounds of reading, up to the first that does not give a message. -/
def readAll : Nat → InputStream → List ReadResult × InputStream
  | 0, stream => ([], stream)
  | rounds + 1, stream =>
      match readRequest stream with
      | (.message bytes, stream) => (.message bytes :: (readAll rounds stream).1, (readAll rounds stream).2)
      | (result, stream) => ([result], stream)

/-- The next read gives something, unless the stream is closed. -/
def Punctual (answers : List Answer) : Prop := ∀ answer left, answers = answer :: left → ∃ n, answer = .bytes (n + 1)

/-- No read of a first byte gives nothing, unless nothing comes any more. -/
def Prompt : Nat → InputStream → Prop
  | 0, _ => True
  | rounds + 1, stream =>
      (stream.coming ≠ [] → Punctual stream.answers) ∧
        match readRequest stream with
        | (.message _, stream) => Prompt rounds stream
        | _ => True

/-! ### What is written -/

def frame (data : Bytes) : Bytes := toBeBytes data.length ++ data

omit target in
theorem fromBeBytes_toBeBytes {n : Nat} (word : n < 2 ^ 32) : fromBeBytes (toBeBytes n) = n := by
  unfold fromBeBytes toBeBytes
  simp only [List.foldl_cons, List.foldl_nil, UInt8.toNat_ofNat']
  omega

omit target in
theorem take_append_drop_between {offset stop : Nat} (ordered : offset ≤ stop) (payload : Bytes) :
    (payload.drop offset).take (stop - offset) ++ payload.drop stop = payload.drop offset := by
  have whole := List.take_append_drop (stop - offset) (payload.drop offset)
  rw [List.drop_drop, Nat.add_sub_cancel' ordered] at whole
  exact whole

theorem writeRest_sent {payload taken after : Bytes} {offset : Nat} {budgets left : List Budget} (within : offset ≤ payload.length)
    (sent : writeRest payload offset taken budgets = (.sent, after, left)) : after = taken ++ payload.drop offset := by
  induction budgets generalizing offset taken with
  | nil =>
    unfold writeRest at sent
    split at sent
    · cases sent
    · next done =>
      cases sent
      rw [List.drop_eq_nil_of_le (Nat.le_of_not_lt done), List.append_nil]
  | cons budget budgets ih =>
    unfold writeRest at sent
    split at sent
    swap
    · next done =>
      cases sent
      rw [List.drop_eq_nil_of_le (Nat.le_of_not_lt done), List.append_nil]
    split at sent
    · exact ih within sent
    dsimp only at sent
    split at sent
    · exact ih within sent
    split at sent
    · cases sent
    next ordered =>
    split at sent
    · -- A piece is written, and the rest follows it.
      rw [ih (Nat.min_le_right _ _) sent, List.append_assoc, take_append_drop_between (Nat.le_of_not_lt ordered)]
    · cases sent

/-- A message that is sent is on the stream as a frame. -/
theorem writeMessage_sent {stream after : OutputStream} {data : Bytes} (short : data.length < 2 ^ 32)
    (sent : writeMessage stream data = (.sent, after)) : after.taken = stream.taken ++ frame data ∧ 4 + data.length ≤ isizeMax := by
  unfold writeMessage at sent
  dsimp only at sent
  split at sent
  · cases sent
  next room =>
  rw [Nat.mod_eq_of_lt short] at sent
  split at sent
  · next written =>
    obtain ⟨-, rfl⟩ := Prod.mk.inj sent
    exact ⟨writeRest_sent (Nat.zero_le _) written, Nat.le_of_not_lt room⟩
  · next other _ =>
    obtain ⟨rfl, -⟩ := Prod.mk.inj sent
    exact absurd rfl other

theorem writeAll_sent {messages : List Bytes} {stream after : OutputStream} (short : ∀ data ∈ messages, data.length < 2 ^ 32)
    (sent : writeAll stream messages = (.sent, after)) :
    after.taken = stream.taken ++ messages.flatMap frame ∧ ∀ data ∈ messages, 4 + data.length ≤ isizeMax := by
  induction messages generalizing stream with
  | nil =>
    cases sent
    exact ⟨(List.append_nil _).symm, fun data none => absurd none List.not_mem_nil⟩
  | cons data messages ih =>
    unfold writeAll at sent
    split at sent
    · next middle written =>
      obtain ⟨taken, fits⟩ := writeMessage_sent (short data List.mem_cons_self) written
      obtain ⟨rest, room⟩ := ih (fun data within => short data (List.mem_cons_of_mem _ within)) sent
      refine ⟨by rw [rest, taken, List.flatMap_cons, List.append_assoc], fun other within => ?_⟩
      rcases List.mem_cons.mp within with rfl | within
      · exact fits
      · exact room other within
    · next other =>
      exact absurd sent (other after)

/-! ### What is read -/

/-- The answers that give something. -/
def productive (answers : List Answer) : Nat := answers.countP fun
  | .bytes (_ + 1) => true
  | _ => false

omit target in
/-- All bytes that are missing are read, whatever they are cut into, or the stream is closed before. -/
theorem fill_spec {len : Nat} {buf coming : Bytes} (answers : List Answer) (within : buf.length ≤ len) (enough : len - buf.length ≤ coming.length) :
    (∃ left, fill len buf coming answers = (some (buf ++ coming.take (len - buf.length)), ⟨coming.drop (len - buf.length), left⟩) ∧
        productive answers ≤ productive left + (len - buf.length)) ∨
      ∃ d < len - buf.length, fill len buf coming answers = (none, ⟨coming.drop d, []⟩) ∧ productive answers ≤ d := by
  -- The induction is on the answers. Each gives a piece, or ends the connection.
  induction answers generalizing buf coming with
  | nil =>
    unfold fill
    split
    · next short => exact .inr ⟨0, by omega, rfl, Nat.le_refl 0⟩
    · next full =>
      refine .inl ⟨[], ?_, by omega⟩
      have none : len - buf.length = 0 := by omega
      rw [none, List.take_zero, List.append_nil, List.drop_zero]
  | cons answer answers ih =>
    unfold fill
    split
    swap
    · next full =>
      refine .inl ⟨answer :: answers, ?_, by omega⟩
      have none : len - buf.length = 0 := by omega
      rw [none, List.take_zero, List.append_nil, List.drop_zero]
    next short =>
    cases answer with
    | failed => exact ih within enough
    | bytes n =>
      have read : Answer.read (len - buf.length) coming (.bytes n) =
        some (coming.take (min n (len - buf.length)), coming.drop (min n (len - buf.length))) := rfl
      rw [read]
      dsimp only
      generalize less : min n (len - buf.length) = piece
      have length : (buf ++ coming.take piece).length = buf.length + piece := by
        rw [List.length_append, List.length_take]
        omega
      -- An empty answer is not counted, but a round of its own.
      have gives : productive (.bytes n :: answers) ≤ productive answers + piece := by
        cases n with
        | zero => exact Nat.le_add_right _ _
        | succ n =>
          have counted : productive (.bytes (n + 1) :: answers) = productive answers + 1 := List.countP_cons_of_pos rfl
          omega
      have missing : len - buf.length = piece + (len - (buf ++ coming.take piece).length) := by omega
      rcases @ih (buf ++ coming.take piece) (coming.drop piece) (by omega) (by rw [List.length_drop]; omega) with ⟨left, filled, count⟩ | ⟨d, few, closed, count⟩
      · refine .inl ⟨left, ?_, by omega⟩
        rw [filled, missing, List.take_add, List.append_assoc, List.drop_drop]
      · refine .inr ⟨piece + d, by omega, ?_, by omega⟩
        rw [closed, List.drop_drop]

/-- After the first byte, what is left of a frame is read whole, or the stream is closed in the middle of it. -/
theorem readMessageBlocking_frame {data more : Bytes} {first : UInt8} (rest : Bytes) (answers : List Answer) (three : more.length = 3)
    (same : toBeBytes data.length = first :: more) (short : data.length < 2 ^ 32) (room : 4 + data.length ≤ isizeMax) :
    (∃ left, readMessageBlocking ⟨more ++ data ++ rest, answers⟩ [first] = (.message data, ⟨rest, left⟩) ∧
        productive answers ≤ productive left + (data.length + 3)) ∨
      ∃ d < data.length + 3, readMessageBlocking ⟨more ++ data ++ rest, answers⟩ [first] = (.disconnected, ⟨(more ++ data ++ rest).drop d, []⟩) ∧
        productive answers ≤ d := by
  unfold readMessageBlocking
  dsimp only
  have enough : 3 ≤ (more ++ data ++ rest).length := by
    rw [List.append_assoc, List.length_append, three]
    exact Nat.le_add_right _ _
  have cut : (more ++ data ++ rest).take 3 = more ∧ (more ++ data ++ rest).drop 3 = data ++ rest := by
    rw [List.append_assoc, ← three]
    exact ⟨List.take_left, List.drop_left⟩
  rcases @fill_spec 4 [first] (more ++ data ++ rest) answers (Nat.succ_le_succ (Nat.zero_le 3)) enough with ⟨left, filled, count⟩ | ⟨d, few, closed, count⟩
  · rw [List.length_singleton] at filled count
    rw [filled, cut.1, cut.2]
    dsimp only
    -- The four bytes of the length are there.
    have length : fromBeBytes ((([first] ++ more) : Bytes).take 4) = data.length := by
      rw [List.singleton_append, ← same, List.take_of_length_le (Nat.le_refl 4), fromBeBytes_toBeBytes short]
    rw [length, if_neg (by have := Nat.mod_le data.length (2 ^ target.usizeBits); unfold toUsize; omega)]
    rcases @fill_spec data.length [] (data ++ rest) left (Nat.zero_le _) (by rw [List.length_append]; exact Nat.le_add_right _ _) with
      ⟨last, filled, also⟩ | ⟨d, few, closed, also⟩
    · rw [filled, List.length_nil, Nat.sub_zero, List.take_left, List.drop_left]
      rw [List.length_nil] at also
      exact .inl ⟨last, rfl, by omega⟩
    · rw [closed]
      rw [List.length_nil] at few
      refine .inr ⟨3 + d, by omega, ?_, by omega⟩
      rw [← List.drop_drop, cut.2]
  · rw [closed]
    rw [List.length_singleton] at few
    exact .inr ⟨d, by omega, rfl, count⟩

/-- A frame is read whole, or the stream is closed in the middle of it, or its first byte is not there. -/
theorem readRequest_frame {data : Bytes} (rest : Bytes) (answers : List Answer) (short : data.length < 2 ^ 32) (room : 4 + data.length ≤ isizeMax) :
    (∃ left, readRequest ⟨frame data ++ rest, answers⟩ = (.message data, ⟨rest, left⟩) ∧
        productive answers ≤ productive left + (frame data).length) ∨
      ∃ d left, d < (frame data).length ∧ readRequest ⟨frame data ++ rest, answers⟩ = (.disconnected, ⟨(frame data ++ rest).drop d, left⟩) ∧
        (Punctual answers → left = [] ∧ productive answers ≤ d) := by
  obtain ⟨first, more, three, same⟩ : ∃ first more, more.length = 3 ∧ toBeBytes data.length = first :: more := ⟨_, _, rfl, rfl⟩
  have whole : frame data = first :: (more ++ data) := by rw [frame, same, List.cons_append]
  have size : (frame data).length = data.length + 4 := by
    rw [whole, List.length_cons, List.length_append]
    omega
  rw [size]
  cases answers with
  -- The first read may already end the connection, and then no byte is taken.
  | nil => exact .inr ⟨0, [], by omega, rfl, fun _ => ⟨rfl, Nat.le_refl 0⟩⟩
  | cons answer answers =>
  cases answer with
  | failed => exact .inr ⟨0, answers, by omega, rfl, fun punctual => by obtain ⟨n, none⟩ := punctual _ _ rfl; cases none⟩
  | bytes n =>
  cases n with
  | zero => exact .inr ⟨0, answers, by omega, by rw [whole]; rfl, fun punctual => by obtain ⟨n, none⟩ := punctual _ _ rfl; cases none⟩
  | succ n =>
    have counted : productive (.bytes (n + 1) :: answers) = productive answers + 1 := List.countP_cons_of_pos rfl
    have begun : readRequest ⟨frame data ++ rest, .bytes (n + 1) :: answers⟩ = readMessageBlocking ⟨more ++ data ++ rest, answers⟩ [first] := by
      rw [whole]
      unfold readRequest
      dsimp only [Answer.read]
      rw [Nat.min_eq_right (Nat.succ_le_succ (Nat.zero_le n))]
      rfl
    rw [begun, counted]
    rcases readMessageBlocking_frame rest answers three same short room with ⟨left, read, count⟩ | ⟨d, few, closed, count⟩
    · exact .inl ⟨left, read, by omega⟩
    · exact .inr ⟨d + 1, [], by omega, by rw [closed, whole]; rfl, fun _ => ⟨rfl, by omega⟩⟩

/-! ### Runs -/

/-- The first messages are read as they were written, and the connection ends before the next.
If no first byte is missed, that is only where the stream is closed with bytes still to come. -/
structure Recovers (messages : List Bytes) (rounds : Nat) (stream : InputStream) (k : Nat) : Prop where
  within : k ≤ rounds ∧ k ≤ messages.length
  results : (readAll rounds stream).1 = (messages.take k).map .message ++ if k = rounds then [] else [.disconnected]
  closed : k < rounds → k < messages.length → Prompt rounds stream →
    (readAll rounds stream).2.answers = [] ∧ (readAll rounds stream).2.coming ≠ [] ∧ productive stream.answers < stream.coming.length

theorem readAll_message {rounds : Nat} {stream after : InputStream} {bytes : Bytes} (read : readRequest stream = (.message bytes, after)) :
    readAll (rounds + 1) stream = (.message bytes :: (readAll rounds after).1, (readAll rounds after).2) := by
  rw [readAll, read]

theorem readAll_disconnected {rounds : Nat} {stream after : InputStream} (read : readRequest stream = (.disconnected, after)) :
    readAll (rounds + 1) stream = ([.disconnected], after) := by
  rw [readAll, read]

theorem readRequest_nothing (answers : List Answer) : ∃ left, readRequest ⟨[], answers⟩ = (.disconnected, left) := by
  cases answers with
  | nil => exact ⟨_, rfl⟩
  | cons answer answers =>
    cases answer with
    | failed => exact ⟨_, rfl⟩
    | bytes n =>
      unfold readRequest
      dsimp only [Answer.read]
      rw [List.take_nil]
      exact ⟨_, rfl⟩

theorem readAll_frames {messages : List Bytes} (short : ∀ data ∈ messages, data.length < 2 ^ 32) (room : ∀ data ∈ messages, 4 + data.length ≤ isizeMax)
    (rounds : Nat) (answers : List Answer) : ∃ k, Recovers messages rounds ⟨messages.flatMap frame, answers⟩ k := by
  induction rounds generalizing messages answers with
  | zero => exact ⟨0, ⟨Nat.le_refl 0, Nat.zero_le _⟩, rfl, fun none => absurd none (Nat.lt_irrefl 0)⟩
  | succ rounds ih =>
  cases messages with
  | nil =>
    obtain ⟨left, read⟩ := readRequest_nothing answers
    refine ⟨0, ⟨Nat.zero_le _, Nat.le_refl 0⟩, ?_, fun _ none => absurd none (Nat.lt_irrefl 0)⟩
    rw [List.flatMap_nil, readAll_disconnected read, if_neg (Nat.succ_ne_zero rounds).symm]
    rfl
  | cons data messages =>
    rw [List.flatMap_cons]
    rcases readRequest_frame (messages.flatMap frame) answers (short data List.mem_cons_self) (room data List.mem_cons_self) with
      ⟨left, read, count⟩ | ⟨d, left, few, read, closed⟩
    · obtain ⟨k, within, results, ends⟩ :=
        ih (fun other here => short other (List.mem_cons_of_mem _ here)) (fun other here => room other (List.mem_cons_of_mem _ here)) left
      refine ⟨k + 1, ⟨Nat.succ_le_succ within.1, Nat.succ_le_succ within.2⟩, ?_, fun more also prompt => ?_⟩
      · rw [readAll_message read, results, List.take_succ_cons, List.map_cons, List.cons_append]
        simp only [Nat.add_right_cancel_iff]
      · have next := prompt.2
        rw [read] at next
        rw [readAll_message read]
        obtain ⟨answers, coming, owed⟩ := ends (Nat.lt_of_succ_lt_succ more) (Nat.lt_of_succ_lt_succ also) next
        refine ⟨answers, coming, ?_⟩
        dsimp only at owed ⊢
        rw [List.length_append]
        omega
    · refine ⟨0, ⟨Nat.zero_le _, Nat.zero_le _⟩, ?_, fun _ _ prompt => ?_⟩
      · rw [readAll_disconnected read, if_neg (Nat.succ_ne_zero rounds).symm]
        rfl
      -- The connection ends within the message, and the rest is lost.
      · rw [readAll_disconnected read]
        have there : d < (frame data ++ messages.flatMap frame).length := by
          rw [List.length_append]
          omega
        obtain ⟨none, owed⟩ := closed (prompt.1 fun nothing => by rw [show frame data ++ messages.flatMap frame = [] from nothing] at there; cases there)
        exact ⟨none, fun nothing => absurd (List.drop_eq_nil_iff.mp nothing) (Nat.not_le_of_lt there), Nat.lt_of_le_of_lt owed there⟩

/-- The answers up to a point of time, at which the stream is closed. -/
def answersUntil (schedule : Nat → Answer) (time : Nat) : List Answer := (List.range time).map schedule

omit target in
theorem productive_unbounded {schedule : Nat → Answer} (goesOn : ∀ time, ∃ later ≥ time, ∃ n, schedule later = .bytes (n + 1)) (count : Nat) :
    ∃ time, ∀ later ≥ time, count ≤ productive (answersUntil schedule later) := by
  have grows {time later : Nat} (ordered : time ≤ later) : productive (answersUntil schedule time) ≤ productive (answersUntil schedule later) :=
    ((List.range_sublist.mpr ordered).map schedule).countP_le
  have next {time : Nat} {n : Nat} (gives : schedule time = .bytes (n + 1)) :
      productive (answersUntil schedule (time + 1)) = productive (answersUntil schedule time) + 1 := by
    unfold answersUntil productive
    rw [List.range_succ, List.map_append, List.countP_append, List.map_singleton, gives]
    rfl
  induction count with
  | zero => exact ⟨0, fun _ _ => Nat.zero_le _⟩
  | succ count ih =>
    obtain ⟨time, enough⟩ := ih
    obtain ⟨later, after, n, gives⟩ := goesOn time
    refine ⟨later + 1, fun last ordered => ?_⟩
    have := enough later after
    have := grows ordered
    rw [next gives] at this
    omega

/-- However messages are written and cut into reads, they are read as they were written. A
stream that is closed too early ends the connection and changes no message. -/
theorem messages_recovered {messages : List Bytes} {output after : OutputStream} (short : ∀ data ∈ messages, data.length < 2 ^ 32)
    (sent : writeAll output messages = (.sent, after)) : ∃ written, after.taken = output.taken ++ written ∧
      (∀ rounds answers, ∃ k, Recovers messages rounds ⟨written, answers⟩ k) ∧
      ∀ schedule : Nat → Answer, (∀ time, ∃ later ≥ time, ∃ n, schedule later = .bytes (n + 1)) →
        (∀ time, Prompt messages.length ⟨written, answersUntil schedule time⟩) →
        ∃ time, ∀ later ≥ time, (readAll messages.length ⟨written, answersUntil schedule later⟩).1 = messages.map .message := by
  obtain ⟨taken, room⟩ := writeAll_sent short sent
  refine ⟨messages.flatMap frame, taken, readAll_frames short room, fun schedule goesOn prompt => ?_⟩
  obtain ⟨time, enough⟩ := productive_unbounded goesOn (messages.flatMap frame).length
  refine ⟨time, fun later ordered => ?_⟩
  obtain ⟨k, within, results, closed⟩ := readAll_frames short room messages.length (answersUntil schedule later)
  have all : k = messages.length := by
    by_contra less
    have few : k < messages.length := Nat.lt_of_le_of_ne within.1 less
    exact absurd (closed few few (prompt later)).2.2 (Nat.not_lt_of_le (enough later ordered))
  rw [results, all, if_pos rfl, List.append_nil, List.take_length]

omit target in
/-- On a machine with 32-bit words, with an empty message between two others. -/
theorem threeMessages_recovered : ∃ written, ([0, 0, 0, 2, 7, 8, 0, 0, 0, 0, 0, 0, 0, 1, 9] : Bytes) = [] ++ written ∧
    (∀ rounds answers, ∃ k, @Recovers .wasm32 [[7, 8], [], [9]] rounds ⟨written, answers⟩ k) ∧
    ∀ schedule : Nat → Answer, (∀ time, ∃ later ≥ time, ∃ n, schedule later = .bytes (n + 1)) →
      (∀ time, @Prompt .wasm32 3 ⟨written, answersUntil schedule time⟩) →
      ∃ time, ∀ later ≥ time, (@readAll .wasm32 3 ⟨written, answersUntil schedule later⟩).1 = [.message [7, 8], .message [], .message [9]] :=
  @messages_recovered .wasm32 [[7, 8], [], [9]]
    ⟨[], [.permits 3 true, .failed, .permits 0 true, .permits 4 true, .permits 100 true, .permits (2 ^ 31) true], [true, false, true, true]⟩ _
    (by decide) rfl

end MonakaFs.Rpc.Framing
