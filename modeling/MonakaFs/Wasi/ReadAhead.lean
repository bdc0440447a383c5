import MonakaFs.Async.Events
import MonakaFs.FsCore.Offsets
import MonakaFs.FsCore.Seeking
import MonakaFs.Wasi.Buffered

/-! The input streams of the client, which read ahead.

A read is answered from what was fetched last, or it fetches what it asks for, or more where
it goes on at the end of what was fetched last. A skip moves the position and nothing else.
-/

set_option autoImplicit false

namespace MonakaFs.Wasi.RpcAdapter

open FsCore Fs Async BlockStorage

/-- The client is a 32-bit component. -/
def asUsize (n : Nat) : Nat := n % 2 ^ 32

theorem asUsize_le (n : Nat) : asUsize n ≤ n := Nat.mod_le _ _

/-! ### Input streams -/

def READ_AHEAD_SIZE : Nat := 256 * 1024

/-- What was fetched last stays in the buffer. -/
structure FileInputStream where
  handle : Nat
  offset : Nat
  buf : Bytes
  bufOffset : Nat

namespace FileInputStream

variable (stream : FileInputStream) (len : Nat)

def bufEnd : Nat := toU64 (stream.bufOffset + stream.buf.length)

/-- The buffer has what is asked for. -/
def Cached : Prop := stream.bufOffset ≤ stream.offset ∧ toU64 (stream.offset + asUsize len) ≤ stream.bufEnd

instance : Decidable (stream.Cached len) :=
  inferInstanceAs (Decidable (stream.bufOffset ≤ stream.offset ∧ toU64 (stream.offset + asUsize len) ≤ stream.bufEnd))

/-- The request goes on where the buffer ends. -/
def IsSequential : Prop := stream.buf ≠ [] ∧ stream.offset = stream.bufEnd

instance : Decidable stream.IsSequential := inferInstanceAs (Decidable (stream.buf ≠ [] ∧ stream.offset = stream.bufEnd))

def fetchLen : Nat := if stream.IsSequential then max (asUsize len) READ_AHEAD_SIZE else asUsize len

def cached : Bytes := (stream.buf.drop (stream.offset - stream.bufOffset)).take (asUsize len)

def advance : FileInputStream := { stream with offset := toU64 (stream.offset + len) }

def blockingSkip : Nat × FileInputStream := (len, stream.advance len)

end FileInputStream

section
variable {T : Type} [TimeProvider T] [target : Target]

namespace Client

variable (sync : Option (Rpc.SyncManager T)) (client : Client T)

def readViaStream (d : Descriptor) (offset : Nat) : Except ErrorCode FileInputStream :=
  (client.getServerFd d.handle).map fun _ => ⟨d.handle, offset, [], 0⟩

/-- A seek and a read. -/
def readFrom (fd : Fd) (offset length : Nat) : Except ErrorCode Bytes × Client T :=
  client.seekAnd sync fd offset fun client => expect isData (client.call sync (.read fd length))

def blockingRead (stream : FileInputStream) (len : Nat) : Except StreamError Bytes × FileInputStream × Client T :=
  if stream.Cached len then (.ok (stream.cached len), stream.advance (stream.cached len).length, client)
  else
    match client.getServerFd stream.handle with
    | .error _ => (.error .closed, stream, client)
    | .ok fd =>
        match client.readFrom sync fd stream.offset (stream.fetchLen len) with
        | (.error _, client) => (.error .closed, stream, client)
        | (.ok bytes, client) =>
            if bytes = [] then (.error .closed, stream, client)
            else
              let data := bytes.take (asUsize len)
              (.ok data, { stream.advance data.length with buf := bytes, bufOffset := stream.offset }, client)

end Client

/-! ### Runs of one stream -/

inductive ReadOp where
  | read (len : Nat)
  | skip (n : Nat)

def ReadOp.amount : ReadOp → Nat
  | .read len => len
  | .skip n => n

/-- An operation on the stream, and the client and sync manager that it finds. -/
structure Turn (T : Type) where
  client : Client T
  sync : Option (Rpc.SyncManager T)
  op : ReadOp

/-- The stream, and the position that the bytes returned and skipped have led to. -/
structure Reader where
  stream : FileInputStream
  position : Nat

def Reader.step (reader : Reader) (turn : Turn T) : Reader :=
  match turn.op with
  | .read len =>
      let done := turn.client.blockingRead turn.sync reader.stream len
      ⟨done.2.1, reader.position + (done.1.toOption.getD []).length⟩
  | .skip n => ⟨(reader.stream.blockingSkip n).2, reader.position + (reader.stream.blockingSkip n).1⟩

/-! ### What is meant by a file that does not change -/

/-- The descriptor reads from a file with this storage, at this position. -/
def Shows (fs : Fs T) (fd : Fd) (storage : BlockStorage) (position : Nat) : Prop :=
  ∃ handle size, fs.fdTable.lookup fd = some handle ∧ handle.position = position ∧ accessMode handle.flags ≠ O_WRONLY ∧
    fs.node handle.inodeId = some (some ⟨storage, size⟩)

/-- The file is open on the server, and a refresh of other files leaves it alone. -/
structure Serves (handle : Nat) (storage : BlockStorage) (turn : Turn T) : Prop where
  reachable : Reachable turn.client.server.fs
  shown : ∃ fd position, turn.client.descriptorToFd.lookup handle = some fd ∧ Shows turn.client.server.fs fd storage position
  steady : ∀ manager ∈ turn.sync, ∀ path fs fd position, Shows fs fd storage position →
    Shows (manager.refreshFile path fs) fd storage position

/-- The answer to a read at a position of the file. -/
structure Transparent (content : Bytes) (position len : Nat) (answer : Except StreamError Bytes) : Prop where
  bytes : ∀ data, answer = .ok data → data = (content.drop position).take data.length
  some : 0 < len → position < content.length → ∃ data, answer = .ok data ∧ 1 ≤ data.length ∧ data.length ≤ len
  nothing : len = 0 → answer = .ok []
  closed : answer = .error .closed ↔ 0 < len ∧ content.length ≤ position

def Reader.Transparent (storage : BlockStorage) (reader : Reader) (turn : Turn T) : Prop :=
  match turn.op with
  | .read len => RpcAdapter.Transparent storage.content reader.position len (turn.client.blockingRead turn.sync reader.stream len).1
  | .skip _ => True

/-- A read of nothing stays within what was fetched last. Any other read asks for something
in words of the client, and its position means the same in words of the server. -/
def CarefulRead (storage : BlockStorage) (stream : FileInputStream) (len : Nat) : Prop :=
  if stream.Cached len then 0 < asUsize len ∨ len = 0
  else if asUsize len = 0 then 0 < len ∧ storage.size ≤ stream.offset
  else if stream.offset < storage.size then stream.offset < storage.readable
  else storage.readable ≤ toUsize stream.offset

instance (storage : BlockStorage) (stream : FileInputStream) (len : Nat) : Decidable (CarefulRead storage stream len) :=
  inferInstanceAs (Decidable (if stream.Cached len then 0 < asUsize len ∨ len = 0
    else if asUsize len = 0 then 0 < len ∧ storage.size ≤ stream.offset
    else if stream.offset < storage.size then stream.offset < storage.readable
    else storage.readable ≤ toUsize stream.offset))

def Reader.Careful (storage : BlockStorage) (reader : Reader) (turn : Turn T) : Prop :=
  match turn.op with
  | .read len => CarefulRead storage reader.stream len
  | .skip _ => True

/-! ### The server -/

section
variable {sync : Option (Rpc.SyncManager T)} {client : Client T} {fs : Fs T} {fd : Fd} {storage : BlockStorage} {position offset wanted : Nat}

omit [TimeProvider T] in
/-- What is read lies in front of the end of the blocks. -/
theorem read_content (whole : Whole storage) : storage.read offset wanted =
    (storage.content.drop offset).take (min wanted (storage.readable - offset)) := by
  have least : storage.readable ≤ storage.size := Nat.min_le_left _ _
  rw [read_eq whole]
  refine List.ext_getElem ?_ fun i within there => ?_
  · rw [List.length_map, List.length_range, List.length_take, List.length_drop, content_length]
    omega
  · simp only [content, List.getElem_map, List.getElem_range, List.getElem_take, List.getElem_drop]

omit [TimeProvider T] in
theorem read_length (whole : Whole storage) : (storage.read offset wanted).length = min wanted (storage.readable - offset) := by
  rw [read_eq whole, List.length_map, List.length_range]

omit [TimeProvider T] target in
theorem shows_setPosition (shown : Shows fs fd storage position) (offset : Nat) : Shows (fs.setPosition fd offset) fd storage offset := by
  obtain ⟨handle, size, held, -, readable, node⟩ := shown
  refine ⟨{ handle with position := offset }, size, ?_, rfl, readable, ?_⟩
  · simp only [setPosition, held, AList.lookup_insert]
  · rw [setPosition_node]
    exact node

omit [TimeProvider T] target in
/-- A seek from the start arrives where it was told to. -/
theorem seek_shows (shown : Shows fs fd storage position) (small : offset < 2 ^ 63) :
    (fs.seek fd (toI64 offset) 0).1 = .ok offset ∧ Shows (fs.seek fd (toI64 offset) 0).2 fd storage offset := by
  have moved := shows_setPosition shown offset
  obtain ⟨handle, size, held, -, -, node⟩ := shown
  obtain ⟨metadata, present, -⟩ := node_inode node
  have word : toI64 (offset : Int) = offset := toI64_eq ⟨by omega, by omega⟩
  have done : fs.seek fd (toI64 offset) 0 = (.ok offset, fs.setPosition fd offset) := by
    simp only [Fs.seek, held, present, if_true, word, Int.zero_add, Int.toNat_natCast]
    rw [if_neg (by omega)]
  rw [done]
  exact ⟨rfl, moved⟩

omit [TimeProvider T] in
theorem read_shows (shown : Shows fs fd storage position) : (fs.read fd wanted).1 = .ok (storage.read (toUsize position) wanted) := by
  obtain ⟨handle, size, held, rfl, readable, node⟩ := shown
  exact readThrough_done held node readable

/-- A seek and a read return what the file has at the offset. -/
theorem readFrom_answer (shown : Shows client.server.fs fd storage position) (small : offset < 2 ^ 63)
    (steady : ∀ manager ∈ sync, ∀ path fs position, Shows fs fd storage position → Shows (manager.refreshFile path fs) fd storage position) :
    (client.readFrom sync fd offset wanted).1 = .ok (storage.read (toUsize offset) wanted) := by
  obtain ⟨sought, moved⟩ := seek_shows shown small
  have seek : client.seekViaConn sync fd offset = (.ok (), client.onServer (client.server.fs.seek fd (toI64 offset) 0).2) := by
    rw [Client.seekViaConn, Client.call, Rpc.ServerContext.handleRequest, @performing_eq _ _ _ _ _ id fun _ => rfl, sought]
    rfl
  rw [Client.readFrom, Client.seekAnd, seek]
  dsimp only
  have refreshed : Shows ((client.onServer (client.server.fs.seek fd (toI64 offset) 0).2).server.beforeRead sync fd).fs fd storage offset := by
    unfold Rpc.ServerContext.beforeRead
    split
    · dsimp only
      split
      · exact steady _ rfl _ _ _ moved
      · exact moved
    · exact moved
  rw [Client.call, Rpc.ServerContext.handleRequest, @performing_eq _ _ _ _ _ id fun _ => rfl, read_shows refreshed]
  rfl

end

/-! ### One read -/

/-- The buffer is a part of the file, and the stream is at its position. -/
structure Windowed (handle : Nat) (storage : BlockStorage) (reader : Reader) : Prop where
  handle : reader.stream.handle = handle
  offset : reader.stream.offset = reader.position
  within : reader.stream.bufOffset + reader.stream.buf.length ≤ storage.readable
  buf : reader.stream.buf = (storage.content.drop reader.stream.bufOffset).take reader.stream.buf.length

section
variable {storage : BlockStorage} {reader : Reader} {turn : Turn T} {handle len : Nat}

omit [TimeProvider T] in
theorem readable_word (whole : Whole storage) (word : target.usizeBits ≤ 64) : storage.readable ≤ storage.size ∧ storage.size < 2 ^ 64 :=
  ⟨Nat.min_le_left _ _, lt_of_lt_of_le whole.small (Nat.pow_le_pow_right (by decide) word)⟩

namespace Windowed

variable (windowed : Windowed handle storage reader) (whole : Whole storage) (word : target.usizeBits ≤ 64)
include windowed whole word

omit [TimeProvider T] in
theorem bufEnd_eq : reader.stream.bufEnd = reader.stream.bufOffset + reader.stream.buf.length := by
  have bounds := readable_word whole word
  have within := windowed.within
  exact Nat.mod_eq_of_lt (by omega)

omit [TimeProvider T] in
theorem cached_iff (room : reader.position + len < 2 ^ 63) : reader.stream.Cached len ↔
    reader.stream.bufOffset ≤ reader.position ∧ reader.position + asUsize len ≤ reader.stream.bufOffset + reader.stream.buf.length := by
  have small := asUsize_le len
  have same : toU64 (reader.position + asUsize len) = reader.position + asUsize len := Nat.mod_eq_of_lt (by omega)
  rw [FileInputStream.Cached, windowed.bufEnd_eq whole word, windowed.offset, same]

/-- What is cached is what the file has. -/
theorem cached_eq (room : reader.position + len < 2 ^ 63) (cached : reader.stream.Cached len) :
    reader.stream.cached len = (storage.content.drop reader.position).take (asUsize len) ∧
      (reader.stream.cached len).length = asUsize len := by
  obtain ⟨low, high⟩ := (windowed.cached_iff whole word room).mp cached
  have bounds := readable_word whole word
  have within := windowed.within
  have same : reader.stream.cached len = (storage.content.drop reader.position).take (asUsize len) := by
    have count : min (asUsize len) (reader.stream.buf.length - (reader.position - reader.stream.bufOffset)) = asUsize len := by omega
    rw [FileInputStream.cached, windowed.offset]
    conv_lhs => rw [windowed.buf]
    rw [List.drop_take, List.take_take, List.drop_drop, count, Nat.add_sub_cancel' low]
  refine ⟨same, ?_⟩
  rw [same, List.length_take, List.length_drop, content_length]
  omega

/-- A read that goes on where the buffer ends asks for something. -/
theorem fetchLen_eq_zero (room : reader.position + len < 2 ^ 63) (missed : ¬ reader.stream.Cached len) :
    reader.stream.fetchLen len = 0 ↔ asUsize len = 0 := by
  unfold FileInputStream.fetchLen
  split
  · next sequential =>
    refine ⟨fun none => by simp only [READ_AHEAD_SIZE] at none; omega, fun none => absurd ?_ missed⟩
    rw [windowed.cached_iff whole word room, none]
    have last := sequential.2
    rw [windowed.bufEnd_eq whole word, windowed.offset] at last
    omega
  · rfl

end Windowed

/-- What is fetched from a file, and what becomes of the stream. -/
inductive Fetched (storage : BlockStorage) (stream : FileInputStream) (len : Nat) : Except StreamError Bytes × FileInputStream → Prop where
  | nothing : storage.read (toUsize stream.offset) (stream.fetchLen len) = [] → Fetched storage stream len (.error .closed, stream)
  | some {bytes : Bytes} : bytes = storage.read (toUsize stream.offset) (stream.fetchLen len) → bytes ≠ [] →
      Fetched storage stream len (.ok (bytes.take (asUsize len)),
        { stream.advance (bytes.take (asUsize len)).length with buf := bytes, bufOffset := stream.offset })

theorem blockingRead_missed {stream : FileInputStream} (serves : Serves stream.handle storage turn) (small : stream.offset < 2 ^ 63)
    (missed : ¬ stream.Cached len) :
    Fetched storage stream len ((turn.client.blockingRead turn.sync stream len).1, (turn.client.blockingRead turn.sync stream len).2.1) := by
  obtain ⟨fd, position, known, shown⟩ := serves.shown
  have answer := @readFrom_answer _ _ _ turn.sync turn.client fd storage position stream.offset (stream.fetchLen len) shown small
    fun manager member path fs position => serves.steady manager member path fs fd position
  have server : turn.client.getServerFd stream.handle = .ok fd := by rw [Client.getServerFd, known]
  unfold Client.blockingRead
  rw [if_neg missed, server]
  dsimp only
  cases result : turn.client.readFrom turn.sync fd stream.offset (stream.fetchLen len) with
  | mk found client =>
    rw [result] at answer
    dsimp only at answer
    subst answer
    dsimp only
    split
    · next none => exact .nothing none
    · next some => exact .some rfl some

omit [TimeProvider T] target in
theorem transparent_closed {content : Bytes} {position : Nat} :
    Transparent content position len (.error .closed) ↔ 0 < len ∧ content.length ≤ position := by
  refine ⟨fun right => right.closed.mp rfl, fun ended => ⟨fun data same => (by cases same), ?_, ?_, iff_of_true rfl ended⟩⟩
  · intro _ within
    omega
  · intro none
    omega

omit [TimeProvider T] target in
theorem transparent_ok {content data : Bytes} {position : Nat} : Transparent content position len (.ok data) ↔
    data = (content.drop position).take data.length ∧
      (0 < len → position < content.length ∧ 1 ≤ data.length ∧ data.length ≤ len) ∧ (len = 0 → data = []) := by
  constructor
  · intro right
    refine ⟨right.bytes data rfl, fun asks => ?_, fun none => Except.ok.inj (right.nothing none)⟩
    have within : position < content.length := by
      by_contra ended
      cases right.closed.mpr ⟨asks, Nat.le_of_not_lt ended⟩
    obtain ⟨found, same, counts⟩ := right.some asks within
    cases same
    exact ⟨within, counts⟩
  · rintro ⟨slice, asks, none⟩
    refine ⟨fun found same => ?_, fun more _ => ⟨data, rfl, (asks more).2⟩, fun zero => (by rw [none zero]), ?_⟩
    · cases same
      exact slice
    · refine iff_of_false (fun same => by cases same) fun ended => ?_
      have within := (asks ended.1).1
      omega

/-- A read is answered as the file has it if and only if it is careful. -/
theorem transparent_iff (windowed : Windowed handle storage reader) (serves : Serves handle storage turn) (word : target.usizeBits ≤ 64)
    (whole : Whole storage) (room : reader.position + len < 2 ^ 63) :
    Transparent storage.content reader.position len (turn.client.blockingRead turn.sync reader.stream len).1 ↔
      CarefulRead storage reader.stream len := by
  have same := windowed.offset
  have fewer := asUsize_le len
  have bounds := readable_word whole word
  unfold CarefulRead
  by_cases cached : reader.stream.Cached len
  · obtain ⟨data, length⟩ := windowed.cached_eq whole word room cached
    obtain ⟨low, high⟩ := (windowed.cached_iff whole word room).mp cached
    have within := windowed.within
    have answer : (turn.client.blockingRead turn.sync reader.stream len).1 = .ok (reader.stream.cached len) := by
      rw [Client.blockingRead, if_pos cached]
    rw [if_pos cached, answer, transparent_ok, content_length, ← List.length_eq_zero_iff, length]
    refine ⟨fun ⟨_, asks, _⟩ => ?_, fun asks => ⟨data, fun more => ?_, fun none => ?_⟩⟩ <;> omega
  · have missed := blockingRead_missed (windowed.handle ▸ serves) (by omega) cached
    have asks := windowed.fetchLen_eq_zero whole word room cached
    rw [if_neg cached, same]
    generalize (turn.client.blockingRead turn.sync reader.stream len).1 = answer at missed ⊢
    generalize (turn.client.blockingRead turn.sync reader.stream len).2.1 = stream at missed
    -- in front of the end, the server's words are large enough for the position
    have place : reader.position < storage.size → toUsize reader.position = reader.position := fun before =>
      Nat.mod_eq_of_lt (before.trans whole.small)
    cases missed with
    | nothing none =>
      have length := congrArg List.length none
      rw [read_length whole, same, List.length_nil] at length
      rw [transparent_closed, content_length]
      split
      · rfl
      next some =>
      split
      · next before =>
        rw [place before] at length
        omega
      · omega
    | some found some =>
      have length := congrArg List.length found
      have more := List.length_pos_iff.mpr some
      rw [read_length whole, same] at length
      have asked : asUsize len ≠ 0 := fun none => by
        rw [asks.mpr none] at length
        omega
      rw [if_neg asked, transparent_ok, content_length, List.length_take]
      split
      · next before =>
        rw [place before] at length
        refine iff_of_true ⟨?_, fun _ => by omega, fun none => by omega⟩ (by omega)
        rw [found, read_content whole, same, place before, List.take_take, List.length_take, List.length_drop, content_length]
        congr 1
        omega
      · next ended => exact iff_of_false (fun right => ended (right.2.1 (by omega)).1) (by omega)

/-- After a careful read the buffer is a part of the file again. -/
theorem read_windowed (windowed : Windowed handle storage reader) (serves : Serves handle storage turn) (word : target.usizeBits ≤ 64)
    (whole : Whole storage) (room : reader.position + len < 2 ^ 63) (read : turn.op = .read len)
    (careful : CarefulRead storage reader.stream len) : Windowed handle storage (reader.step turn) := by
  have same := windowed.offset
  have fewer := asUsize_le len
  have bounds := readable_word whole word
  have onward {count : Nat} (small : count ≤ len) : toU64 (reader.position + count) = reader.position + count := Nat.mod_eq_of_lt (by omega)
  rw [Reader.step, read]
  dsimp only
  by_cases cached : reader.stream.Cached len
  · obtain ⟨-, length⟩ := windowed.cached_eq whole word room cached
    rw [Client.blockingRead, if_pos cached]
    refine ⟨windowed.handle, ?_, windowed.within, windowed.buf⟩
    rw [Except.toOption, Option.getD_some, FileInputStream.advance, same, length, onward fewer]
  · have missed := blockingRead_missed (windowed.handle ▸ serves) (by omega) cached
    generalize (turn.client.blockingRead turn.sync reader.stream len).1 = answer at missed ⊢
    generalize (turn.client.blockingRead turn.sync reader.stream len).2.1 = stream at missed ⊢
    cases missed with
    | nothing none => exact windowed
    | @some bytes found some =>
      have length := congrArg List.length found
      have more := List.length_pos_iff.mpr some
      rw [read_length whole] at length
      have asked : asUsize len ≠ 0 := fun none => by
        rw [(windowed.fetchLen_eq_zero whole word room cached).mpr none] at length
        omega
      rw [CarefulRead, if_neg cached, if_neg asked] at careful
      -- behind the end nothing would have been fetched
      have before : reader.stream.offset < storage.size := by
        by_contra ended
        rw [if_neg ended] at careful
        omega
      have place : toUsize reader.stream.offset = reader.stream.offset := Nat.mod_eq_of_lt (before.trans whole.small)
      rw [place] at length found
      rw [if_pos before] at careful
      refine ⟨windowed.handle, ?_, ?_, ?_⟩
      · have count : (bytes.take (asUsize len)).length ≤ len := (List.length_take_le ..).trans fewer
        rw [Except.toOption, Option.getD_some, FileInputStream.advance, same]
        exact onward count
      · dsimp only
        omega
      · dsimp only
        rw [length, found, read_content whole]

theorem step_position (reader : Reader) (turn : Turn T) : (reader.step turn).position ≤ reader.position + turn.op.amount := by
  unfold Reader.step ReadOp.amount
  cases turn.op with
  | skip n => exact le_rfl
  | read len =>
    refine Nat.add_le_add_left (le_trans ?_ (asUsize_le len)) _
    unfold Client.blockingRead
    split
    · exact List.length_take_le ..
    split
    · exact Nat.zero_le _
    split
    · exact Nat.zero_le _
    split
    · exact Nat.zero_le _
    · exact List.length_take_le ..

/-! ### Runs -/

omit [TimeProvider T] target in
theorem opened_windowed {opener : Client T} {d : Descriptor} {stream : FileInputStream} {start : Nat}
    (opened : opener.readViaStream d start = .ok stream) : Windowed d.handle storage ⟨stream, start⟩ := by
  unfold Client.readViaStream at opened
  cases there : opener.getServerFd d.handle with
  | error e =>
    rw [there] at opened
    cases opened
  | ok fd =>
    rw [there] at opened
    cases opened
    exact ⟨rfl, rfl, Nat.zero_le _, rfl⟩

theorem Serves.whole (serves : Serves handle storage turn) : Whole storage := by
  obtain ⟨fd, position, -, held, size, -, -, -, node⟩ := serves.shown
  exact reachable_whole serves.reachable _ _ node

theorem step_iff (windowed : Windowed handle storage reader) (serves : Serves handle storage turn) (word : target.usizeBits ≤ 64)
    (room : reader.position + turn.op.amount < 2 ^ 63) :
    (reader.Transparent storage turn ↔ reader.Careful storage turn) ∧
      (reader.Careful storage turn → Windowed handle storage (reader.step turn)) := by
  have whole := serves.whole
  unfold Reader.Transparent Reader.Careful
  cases op : turn.op with
  | read len =>
    rw [op] at room
    exact ⟨transparent_iff windowed serves word whole room, read_windowed windowed serves word whole room op⟩
  | skip n =>
    rw [op, ReadOp.amount] at room
    refine ⟨.rfl, fun _ => ?_⟩
    rw [Reader.step, op]
    refine ⟨windowed.handle, ?_, windowed.within, windowed.buf⟩
    dsimp only [FileInputStream.blockingSkip, FileInputStream.advance]
    rw [windowed.offset]
    exact Nat.mod_eq_of_lt (by omega)

theorem run_iff {turns : List (Turn T)} (windowed : Windowed handle storage reader) (serves : ∀ turn ∈ turns, Serves handle storage turn)
    (word : target.usizeBits ≤ 64) (room : reader.position + (turns.map (·.op.amount)).sum < 2 ^ 63) :
    AtEveryEvent Reader.step (Reader.Transparent storage) turns reader ↔ AtEveryEvent Reader.step (Reader.Careful storage) turns reader := by
  induction turns generalizing reader with
  | nil => rfl
  | cons turn turns ih =>
    rw [List.map_cons, List.sum_cons] at room
    obtain ⟨here, keeps⟩ := step_iff windowed (serves turn List.mem_cons_self) word (by omega)
    have next := step_position reader turn
    rw [AtEveryEvent, AtEveryEvent, here]
    exact and_congr_right fun careful =>
      ih (keeps careful) (fun later within => serves later (List.mem_cons_of_mem _ within)) (by omega)

end

end

/-- A client of a server with one file, which is open. -/
def oneFile [Target] : Client MonotonicCounter where
  server := ⟨small, ∅, ∅, ∅, [], false, false⟩
  sessionId := "s"
  version := 2
  descriptorToFd := AList.insert 1 3 ∅
  closePending := []
  outputs := []

def oneFileTurn [Target] (op : ReadOp) : Turn MonotonicCounter := ⟨oneFile, none, op⟩

theorem oneFile_serves (op : ReadOp) :
    let _ : Target := ⟨64⟩
    Serves 1 (BlockStorage.new.write 0 [7]) (oneFileTurn op) := by
  let _ : Target := ⟨64⟩
  refine ⟨reachable_after (.new MonotonicCounter.new), ⟨3, 1, rfl, ⟨1, 1, O_RDWR ||| O_CREAT⟩, 1, rfl, rfl, by decide, rfl⟩, ?_⟩
  intro manager none
  cases none

end MonakaFs.Wasi.RpcAdapter
