import MonakaFs.FsCore.Seeking
import MonakaFs.Wasi.Fronts

/-! Under the front ends' conditions, append streams append.

Every event moves a ledger: a chunk is taken, or what a stream holds back is put behind
the end of the file. The front ends differ in when they do the second.
-/

set_option autoImplicit false

namespace MonakaFs.Wasi

open FsCore Fs BlockStorage Async

section
variable {T : Type} [TimeProvider T] [target : Target] {fs later : Fs T} {id : InodeId} {content chunk initial : Bytes}

/-! ### The file -/

/-- The file's storage is whole and holds these bytes. -/
def HasBytes (fs : Fs T) (id : InodeId) (content : Bytes) : Prop :=
  ∃ stored, fs.node id = some (some stored) ∧ Whole stored.storage ∧ stored.storage.content = content

omit [TimeProvider T] in
theorem HasBytes.bytes (file : HasBytes fs id content) : bytesOf fs id = some content := by
  obtain ⟨stored, found, -, bytes⟩ := file
  rw [bytesOf, found, ← bytes]
  rfl

omit [TimeProvider T] in
theorem HasBytes.of_node (file : HasBytes fs id content) (same : later.node id = fs.node id) : HasBytes later id content := by
  rw [HasBytes, same]
  exact file

omit [TimeProvider T] in
theorem HasBytes.of_update {stored : Stored} (nodes : later.node = Function.update fs.node id (some (some stored)))
    (whole : Whole stored.storage) : HasBytes later id stored.storage.content :=
  ⟨stored, by rw [nodes, Function.update_self], whole, rfl⟩

theorem hasBytes_of_reachable (reachable : Reachable fs) (bytes : bytesOf fs id = some content) : HasBytes fs id content := by
  obtain ⟨stored, found, bytes⟩ := Option.map_eq_some_iff.mp bytes
  have found := Option.join_eq_some_iff.mp found
  exact ⟨stored, found, reachable_whole reachable id stored found, bytes⟩

omit [TimeProvider T] in
/-- What a descriptor of the file shows is the file. -/
theorem HasBytes.whole {fd : Fd} {handle : FileHandle} {stored : Stored} (file : HasBytes fs id content)
    (own : ∀ other, fs.holder fd = some other → other = id) (held : fs.fdTable.lookup fd = some handle)
    (found : fs.node handle.inodeId = some (some stored)) : Whole stored.storage := by
  have same : handle.inodeId = id := own _ (by rw [holder, held, Option.map_some])
  obtain ⟨stored', found', whole, -⟩ := file
  rw [← same] at found'
  cases found.symm.trans found'
  exact whole

/-- A write that fails without a change, or appends. -/
def Appends (fs : Fs T) (id : InodeId) (content chunk : Bytes) (outcome : Outcome T Nat) : Prop :=
  (∃ e, outcome = (.error e, fs)) ∨
    (outcome.1 = .ok chunk.length ∧ outcome.2.holder = fs.holder ∧ HasBytes outcome.2 id (content ++ chunk))

/-- A write at the end of the file puts its bytes behind it. -/
theorem writeThrough_appends {fd : Fd} {position : FileHandle → BlockStorage → Nat} {after : Nat → Nat → Nat}
    (file : HasBytes fs id content) (own : ∀ other, fs.holder fd = some other → other = id)
    (fits : ∀ handle stored, fs.fdTable.lookup fd = some handle → fs.node handle.inodeId = some (some stored) →
      accessMode handle.flags ≠ O_RDONLY → chunk ≠ [] →
        toUsize (position handle stored.storage) = stored.storage.size ∧ stored.storage.size + chunk.length < 2 ^ target.usizeBits) :
    Appends fs id content chunk (fs.writeThrough fd position after chunk) := by
  cases held : fs.fdTable.lookup fd with
  | none => exact .inl ⟨.badFileDescriptor, by simp only [writeThrough, held]⟩
  | some handle =>
    by_cases refused : accessMode handle.flags = O_RDONLY
    · exact .inl ⟨.permissionDenied, by simp only [writeThrough, held, refused, if_true]⟩
    have same : handle.inodeId = id := own _ (by rw [holder, held, Option.map_some])
    obtain ⟨stored, found, whole, bytes⟩ := file
    rw [← same] at found
    obtain ⟨ok, nodes⟩ := @writeThrough_done T _ _ fs fd position after chunk handle stored held found refused
    have written := HasBytes.of_update (same ▸ nodes)
    refine .inr ⟨ok, (writeThrough_effect fs fd position after chunk).2, ?_⟩
    by_cases none : chunk = []
    · subst none
      have still (offset : Nat) : stored.storage.write offset [] = stored.storage := by rw [BlockStorage.write, if_pos rfl]
      rw [still] at written
      rw [List.append_nil, ← bytes]
      exact written whole
    · obtain ⟨ends, room⟩ := fits handle stored held found refused none
      rw [ends] at written
      rw [← bytes, ← append_content whole room]
      exact written (write_whole whole whole.small)

/-! ### Runs -/

namespace Front

variable {front : Front T} {keeps : front.Stream → Prop} {condition : front.Session → StreamEvent front.Descriptor front.Other → Prop}

/-- The file has these bytes, and every stream is on it or on a closed descriptor. -/
structure Sound (front : Front T) (keeps : front.Stream → Prop) (id : InodeId) (content : Bytes) (state : front.State) : Prop where
  file : HasBytes (front.fs state) id content
  own : ∀ k stream, front.output state k = some stream →
    keeps stream ∧ ∀ other, front.inode state stream = some other → other = id

/-- The ledger moves from one session to another. -/
def Moved (front : Front T) (keeps : front.Stream → Prop) (id : InodeId) (content : Bytes) (session later : front.Session) : Prop :=
  ∃ more, front.Sound keeps id (content ++ more) later.state ∧
    Ledger.Moves ⟨content, front.held session.state, session.taken⟩ ⟨content ++ more, front.held later.state, later.taken⟩

/-- Where events meet the condition, they move the ledger. -/
def Moves (front : Front T) (keeps : front.Stream → Prop)
    (condition : front.Session → StreamEvent front.Descriptor front.Other → Prop) : Prop :=
  ∀ id content session event, front.NoOtherWrites id session event → condition session event →
    front.Sound keeps id content session.state → front.Moved keeps id content session (front.step session event)

omit [TimeProvider T] in
theorem moved_still {session later : front.Session} (sound : front.Sound keeps id content later.state)
    (held : front.held later.state = front.held session.state) (taken : later.taken = session.taken) :
    front.Moved keeps id content session later := by
  refine ⟨[], ?_⟩
  rw [List.append_nil, held, taken]
  exact ⟨sound, .refl⟩

omit [TimeProvider T] target in
theorem held_none {state : front.State} {k : Nat} (none : front.output state k = none) : front.held state k = [] := by
  rw [held, none, Option.map_none, Option.getD_none]

/-- All along a run whose events meet the condition, streams append. -/
theorem Moves.appended (moves : front.Moves keeps condition) {session : front.Session}
    {events : List (StreamEvent front.Descriptor front.Other)} (starts : front.Starts id initial session)
    (others : AtEveryEvent front.step (front.NoOtherWrites id) events session)
    (fits : AtEveryEvent front.step condition events session) :
    AtEveryEvent front.step (front.Appended id initial) events session := by
  let inv (session : front.Session) : Prop := ∃ content, front.Sound keeps id content session.state ∧
    Ledger.Accounts initial ⟨content, front.held session.state, session.taken⟩
  have start : inv session := by
    refine ⟨initial, ⟨hasBytes_of_reachable starts.reachable starts.content, fun k stream found => ?_⟩, ?_⟩
    · rw [starts.streams k] at found
      cases found
    · have held : front.held session.state = fun _ => [] := funext fun k => held_none (starts.streams k)
      rw [held, starts.taken]
      exact Ledger.accounts_start initial
  have both := (others.and fits).holds (fun session event met known => by
    obtain ⟨content, sound, accounts⟩ := known
    obtain ⟨more, sound', moved⟩ := moves id content session event met.1 met.2 sound
    exact ⟨content ++ more, sound', moved.accounts accounts⟩) start
  refine both.mono fun session event met => ?_
  obtain ⟨⟨content, sound, accounts⟩, others, fits⟩ := met
  obtain ⟨more, sound', moved⟩ := moves id content session event others fits sound
  exact ⟨content, more, sound.file.bytes, sound'.file.bytes, moved.accounts accounts⟩

end Front

/-! ### Streams that write at once -/

omit target in
theorem join_set {S : Type} (streams : List (Option S)) (k j : Nat) (stream : Option S) :
    (streams.set k stream)[j]?.join = if j = k ∧ k < streams.length then stream else streams[j]?.join := by
  rw [List.getElem?_set]
  by_cases same : k = j
  · subst same
    by_cases within : k < streams.length
    · rw [if_pos rfl, if_pos within, if_pos ⟨rfl, within⟩, Option.join_some]
    · rw [if_pos rfl, if_neg within, if_neg fun both => within both.2, List.getElem?_eq_none (Nat.not_lt.mp within)]
  · rw [if_neg same, if_neg fun both => same both.1.symm]

omit target in
theorem join_concat {S : Type} (streams : List (Option S)) (j : Nat) (stream : Option S) :
    (streams ++ [stream])[j]?.join = if j = streams.length then stream else streams[j]?.join := by
  rw [List.getElem?_append]
  split
  · next within => rw [if_neg (by omega)]
  · next behind =>
    split
    · next last => rw [last, Nat.sub_self, List.getElem?_cons_zero, Option.join_some]
    · rw [List.getElem?_eq_none (by simp; omega), List.getElem?_eq_none (by omega)]

section
variable {D S : Type} {fdOf : D → Fd} {make : D → Fs T → Except FsError S × Fs T}
  {write : S → Bytes → Fs T → Except StreamError S × Fs T} {fd : S → Fd} {keeps : S → Prop}
  {ends : S → FileHandle → BlockStorage → Prop}

/-- Making a stream touches no file. -/
structure Makes (fdOf : D → Fd) (fd : S → Fd) (keeps : S → Prop) (d : D) (fs : Fs T) (made : Except FsError S × Fs T) : Prop where
  node : made.2.node = fs.node
  holder : made.2.holder = fs.holder
  stream : ∀ stream, made.1 = .ok stream → keeps stream ∧ fd stream = fdOf d

/-- A write fails without a change, or appends. -/
structure Writes (fd : S → Fd) (keeps : S → Prop) (id : InodeId) (content chunk : Bytes) (stream : S) (fs : Fs T)
    (wrote : Except StreamError S × Fs T) : Prop where
  holder : wrote.2.holder = fs.holder
  failed : ∀ e, wrote.1 = .error e → HasBytes wrote.2 id content
  done : ∀ later, wrote.1 = .ok later → (keeps later ∧ fd later = fd stream) ∧ HasBytes wrote.2 id (content ++ chunk)

omit [TimeProvider T] target in
theorem direct_held (state : (Front.direct fdOf make write fd).State) : (Front.direct fdOf make write fd).held state = fun _ => [] := by
  funext k
  unfold Front.held
  cases (Front.direct fdOf make write fd).output state k with
  | none => rfl
  | some stream => rfl

omit [TimeProvider T] in
/-- The file and the streams of a front end that writes at once. -/
theorem direct_sound {streams : List (Option S)} (file : HasBytes fs id content)
    (own : ∀ (k : Nat) stream, streams[k]?.join = some stream → keeps stream ∧ ∀ other, fs.holder (fd stream) = some other → other = id) :
    (Front.direct fdOf make write fd).Sound keeps id content (fs, streams) := ⟨file, own⟩

omit [TimeProvider T] in
theorem direct_still {streams streams' : List (Option S)} {taken taken' : List (Nat × Bytes)}
    (sound : (Front.direct fdOf make write fd).Sound keeps id content (later, streams')) (same : taken' = taken) :
    (Front.direct fdOf make write fd).Moved keeps id content ⟨(fs, streams), taken⟩ ⟨(later, streams'), taken'⟩ :=
  Front.moved_still sound ((direct_held _).trans (direct_held _).symm) same

variable {streams : List (Option S)} {taken : List (Nat × Bytes)} (sound : (Front.direct fdOf make write fd).Sound keeps id content (fs, streams))
include sound

omit [TimeProvider T] in
/-- The streams there were are still on the file. -/
theorem own_of_holder (holder : later.holder = fs.holder) (k : Nat) (stream : S) (found : streams[k]?.join = some stream) :
    keeps stream ∧ ∀ other, later.holder (fd stream) = some other → other = id := by
  rw [holder]
  exact sound.own k stream found

omit [TimeProvider T] in
theorem direct_made {d : D} (makes : Makes fdOf fd keeps d fs (make d fs)) (own : ∀ other, fs.holder (fdOf d) = some other → other = id) :
    (Front.direct fdOf make write fd).Moved keeps id content ⟨(fs, streams), taken⟩
      ((Front.direct fdOf make write fd).step ⟨(fs, streams), taken⟩ (.appendViaStream d)) := by
  cases result : make d fs with
  | mk made later =>
    rw [result] at makes
    obtain ⟨node, holder, kept⟩ := makes
    have file := sound.file.of_node (congrFun node id)
    cases made with
    | error e =>
      have step : (Front.direct fdOf make write fd).step ⟨(fs, streams), taken⟩ (.appendViaStream d) =
          ⟨(later, streams), taken ++ []⟩ := by
        simp only [Front.step, result, StreamEvent.accepted]
      rw [step]
      exact direct_still (direct_sound file (own_of_holder sound holder)) (List.append_nil _)
    | ok stream =>
      have step : (Front.direct fdOf make write fd).step ⟨(fs, streams), taken⟩ (.appendViaStream d) =
          ⟨(later, streams ++ [some stream]), taken ++ []⟩ := by
        simp only [Front.step, result, StreamEvent.accepted]
      rw [step]
      refine direct_still (direct_sound file fun k other found => ?_) (List.append_nil _)
      rw [join_concat] at found
      split at found
      · cases found
        obtain ⟨keeps, same⟩ := kept stream rfl
        refine ⟨keeps, fun other refers => own other ?_⟩
        rw [same, holder] at refers
        exact refers
      · exact own_of_holder sound holder k other found

omit [TimeProvider T] in
theorem direct_wrote {k : Nat} {stream : S} (found : streams[k]?.join = some stream)
    (writes : Writes fd keeps id content chunk stream fs (write stream chunk fs)) :
    (Front.direct fdOf make write fd).Moved keeps id content ⟨(fs, streams), taken⟩
      ((Front.direct fdOf make write fd).step ⟨(fs, streams), taken⟩ (.write k chunk)) := by
  cases result : write stream chunk fs with
  | mk wrote later =>
    rw [result] at writes
    obtain ⟨holder, failed, done⟩ := writes
    cases wrote with
    | error e =>
      have step : (Front.direct fdOf make write fd).step ⟨(fs, streams), taken⟩ (.write k chunk) = ⟨(later, streams), taken ++ []⟩ := by
        simp only [Front.step, found, result, StreamEvent.accepted]
      rw [step]
      exact direct_still (direct_sound (failed e rfl) (own_of_holder sound holder)) (List.append_nil _)
    | ok next =>
      have step : (Front.direct fdOf make write fd).step ⟨(fs, streams), taken⟩ (.write k chunk) =
          ⟨(later, streams.set k (some next)), taken ++ [(k, chunk)]⟩ := by
        simp only [Front.step, found, result, StreamEvent.accepted]
      obtain ⟨⟨kept, same⟩, file⟩ := done next rfl
      rw [step]
      refine ⟨chunk, direct_sound file fun j other at' => ?_, ?_⟩
      · rw [join_set] at at'
        split at at'
        · cases at'
          refine ⟨kept, fun other refers => (sound.own k stream found).2 other ?_⟩
          rw [same, holder] at refers
          exact refers
        · exact own_of_holder sound holder j other at'
      · rw [direct_held, direct_held]
        exact Ledger.moves_through rfl

omit sound in
omit [TimeProvider T] in
theorem direct_moves (makes : ∀ d fs, Makes fdOf fd keeps d fs (make d fs))
    (writes : ∀ (fs : Fs T) (stream : S) (chunk : Bytes) id content, HasBytes fs id content → keeps stream →
      (∀ other, fs.holder (fd stream) = some other → other = id) →
      (∀ handle stored, fs.fdTable.lookup (fd stream) = some handle → fs.node handle.inodeId = some (some stored) →
        accessMode handle.flags ≠ O_RDONLY → chunk ≠ [] →
          ends stream handle stored.storage ∧ stored.storage.size + chunk.length < 2 ^ target.usizeBits) →
      Writes fd keeps id content chunk stream fs (write stream chunk fs)) :
    (Front.direct fdOf make write fd).Moves keeps fun session event => Front.DirectFits fd ends session.state event := by
  rintro id content ⟨⟨fs, streams⟩, taken⟩ event others fits sound
  cases event with
  | appendViaStream d => exact direct_made sound (makes d fs) others
  | write k chunk =>
    cases found : streams[k]?.join with
    | none =>
      have step : (Front.direct fdOf make write fd).step ⟨(fs, streams), taken⟩ (.write k chunk) = ⟨(fs, streams), taken ++ []⟩ := by
        simp only [Front.step, found, StreamEvent.accepted]
      rw [step]
      exact direct_still sound (List.append_nil _)
    | some stream =>
      obtain ⟨kept, refers⟩ := sound.own k stream found
      exact direct_wrote sound found
        (writes fs stream chunk id content sound.file kept refers fun handle stored => fits stream handle stored found)
  | flush k => exact direct_still sound (List.append_nil _)
  | sync d => exact direct_still sound (List.append_nil _)
  | drop k =>
    refine direct_still (direct_sound sound.file fun j stream found => ?_) (List.append_nil _)
    rw [join_set] at found
    split at found
    · cases found
    · exact sound.own j stream found
  -- What others do keeps the file, and no stream refers to another inode after it.
  | aside later =>
    obtain ⟨node, kept⟩ := others
    refine direct_still (direct_sound (sound.file.of_node node) fun k stream found => ?_) (List.append_nil _)
    exact ⟨(sound.own k stream found).1, fun other refers => (sound.own k stream found).2 other (kept k stream other found refers)⟩

end

omit [TimeProvider T] in
/-- The stream's write does what the write to the filesystem does. -/
theorem writes_of_appends {S : Type} {fd : S → Fd} {keeps : S → Prop} {stream next : S} {outcome : Outcome T Nat}
    {wrote : Except StreamError S × Fs T} (appends : Appends later id content chunk outcome) (file : HasBytes later id content)
    (holder : later.holder = fs.holder) (kept : keeps next ∧ fd next = fd stream)
    (failed : ∀ e, outcome = (.error e, later) → wrote = (.error .lastOperationFailed, later))
    (done : ∀ last, outcome = (.ok chunk.length, last) → wrote = (.ok next, last)) :
    Writes fd keeps id content chunk stream fs wrote := by
  rcases appends with ⟨e, result⟩ | ⟨ok, held, file'⟩
  · rw [failed e result]
    exact ⟨holder, fun _ _ => file, fun _ ok => by cases ok⟩
  · rw [done _ (Prod.ext ok rfl)]
    refine ⟨held.trans holder, fun _ failed => (by cases failed), fun last ok => ?_⟩
    cases ok
    exact ⟨kept, file'⟩

omit [TimeProvider T] target in
theorem vfsAdapter_makes (fd : Fd) (fs : Fs T) :
    Makes (fun fd => fd) VfsAdapter.VfsOutputStream.fd (fun _ => True) fd fs (VfsAdapter.appendViaStream fd fs) := by
  have node := seek_node fs fd 0 2
  have holder := (seek_effect fs fd 0 2).2
  unfold VfsAdapter.appendViaStream
  split
  · next offset later result =>
    rw [result] at node holder
    exact ⟨node, holder, fun stream made => by cases made; exact ⟨trivial, rfl⟩⟩
  · next e later result =>
    rw [result] at node holder
    exact ⟨node, holder, fun stream made => by cases made⟩

omit [TimeProvider T] in
/-- After a seek to where a stream ends, writing goes to the end of the file. -/
theorem seeked_ends (word : target.usizeBits ≤ 64) {fd : Fd} {before handle : FileHandle} {storage : BlockStorage} {offset : Nat}
    (whole : Whole storage) (positive : ¬ toI64 offset < 0) (found : fs.fdTable.lookup fd = some before)
    (held : (fs.setPosition fd (toI64 offset).toNat).fdTable.lookup fd = some handle)
    (ends : before.flags &&& O_APPEND ≠ 0 ∨ offset = storage.size) :
    toUsize (if handle.flags &&& O_APPEND ≠ 0 then storage.size else toUsize handle.position) = storage.size := by
  have small : toUsize storage.size = storage.size := word_same whole.small
  rw [setPosition_table found, Table.lookup_insert, if_pos rfl] at held
  cases held
  split
  · exact small
  · next plain =>
    have same := ends.resolve_left plain
    have below : storage.size < 2 ^ 64 := lt_of_lt_of_le whole.small (Nat.pow_le_pow_right (by decide) word)
    dsimp only
    rw [toI64_toNat (same ▸ below) positive, same, small, small]

theorem vfsAdapter_moves (word : target.usizeBits ≤ 64) : (VfsAdapter.front : Front T).Moves (fun _ => True)
    fun session event => Front.DirectFits VfsAdapter.VfsOutputStream.fd VfsAdapter.Ends session.state event := by
  refine direct_moves vfsAdapter_makes fun fs stream chunk id content file _ own fits => ?_
  rcases seek_start_cases fs stream.fd stream.offset with ⟨e, failed⟩ | ⟨positive, there, moved⟩
  · have wrote : stream.write chunk fs = (.error .lastOperationFailed, fs) := by
      simp only [VfsAdapter.VfsOutputStream.write, failed]
    rw [wrote]
    exact ⟨rfl, fun _ _ => file, fun _ ok => by cases ok⟩
  · have holder := (setPosition_effect fs stream.fd (toI64 stream.offset).toNat).2
    have node := setPosition_node fs stream.fd (toI64 stream.offset).toNat
    have file' : HasBytes (fs.setPosition stream.fd (toI64 stream.offset).toNat) id content := file.of_node (congrFun node id)
    have appends : Appends (fs.setPosition stream.fd (toI64 stream.offset).toNat) id content chunk
        ((fs.setPosition stream.fd (toI64 stream.offset).toNat).write stream.fd chunk) := by
      refine writeThrough_appends file' (holder ▸ own) fun handle stored held found writable some => ?_
      obtain ⟨before, known⟩ := Option.isSome_iff_exists.mp there
      have moved := held
      rw [setPosition_table known, Table.lookup_insert, if_pos rfl] at moved
      cases moved
      rw [node] at found
      obtain ⟨ends, room⟩ := fits before stored known found writable some
      exact ⟨seeked_ends word (file.whole own known found) positive known held ends, room⟩
    have next : (fun _ : VfsAdapter.VfsOutputStream => True) { stream with offset := toU64 (stream.offset + chunk.length) } ∧
      VfsAdapter.VfsOutputStream.fd { stream with offset := toU64 (stream.offset + chunk.length) } = stream.fd := ⟨trivial, rfl⟩
    refine writes_of_appends appends file' holder next (fun e result => ?_) fun last result => ?_
    · simp only [VfsAdapter.VfsOutputStream.write, moved, result]
    · simp only [VfsAdapter.VfsOutputStream.write, moved, result]

/-- The end of the file is looked up for the write. -/
theorem appendWrite_appends {fd : Fd} (file : HasBytes fs id content) (own : ∀ other, fs.holder fd = some other → other = id)
    (room : ∀ handle stored, fs.fdTable.lookup fd = some handle → fs.node handle.inodeId = some (some stored) →
      accessMode handle.flags ≠ O_RDONLY → chunk ≠ [] → stored.storage.size + chunk.length < 2 ^ target.usizeBits) :
    Appends fs id content chunk (fs.appendWrite fd chunk) :=
  writeThrough_appends file own fun handle stored held found writable some =>
    ⟨word_same (file.whole own held found).small, room handle stored held found writable some⟩

theorem vfsHost_moves : (VfsHost.front : Front T).Moves (fun stream : VfsHost.FsOutputStreamWrapper => stream.offset = none)
    fun session event => Front.DirectFits VfsHost.FsOutputStreamWrapper.fd (fun _ _ _ => True) session.state event := by
  have makes (d : VfsHost.FsDescriptorWrapper) (fs : Fs T) : Makes VfsHost.FsDescriptorWrapper.fd VfsHost.FsOutputStreamWrapper.fd
      (fun stream => stream.offset = none) d fs (.ok (VfsHost.appendViaStream d), fs) :=
    ⟨rfl, rfl, fun stream made => by cases made; exact ⟨rfl, rfl⟩⟩
  refine direct_moves makes fun fs stream chunk id content file kept own fits => ?_
  have appends : Appends fs id content chunk (fs.appendWrite stream.fd chunk) :=
    appendWrite_appends file own fun handle stored held found writable some => (fits handle stored held found writable some).2
  have next : stream.offset = none ∧ stream.fd = stream.fd := ⟨kept, rfl⟩
  refine writes_of_appends appends file rfl next (fun e result => ?_) fun last result => ?_
  · simp only [VfsHost.FsOutputStreamWrapper.write, kept, result]
  · simp only [VfsHost.FsOutputStreamWrapper.write, kept, result]

end

end MonakaFs.Wasi
