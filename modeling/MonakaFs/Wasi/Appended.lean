import MonakaFs.Wasi.Buffered

/-! Append streams of the client append too, and so does every front end under its condition. -/

set_option autoImplicit false

namespace MonakaFs.Wasi

open FsCore Fs BlockStorage Async RpcAdapter

section
variable {T : Type} [TimeProvider T] [target : Target] {sync : Option (Rpc.SyncManager T)} {id : InodeId} {content initial more : Bytes}
  {client later : Client T} {k : Nat} {stream : FileOutputStream}

/-! ### The client's streams -/

/-- All streams append, and are on the file. -/
abbrev PushesTo (sync : Option (Rpc.SyncManager T)) (id : InodeId) (content : Bytes) (client : Client T) : Prop :=
  (RpcAdapter.front sync).Sound (fun stream : FileOutputStream => stream.append = true) id content client

theorem PushesTo.fewer (pushes : PushesTo sync id content client) (fewer : Fewer client later) : PushesTo sync id content later := by
  refine ⟨pushes.file.of_node (congrFun fewer.node id), fun k stream found => ?_⟩
  have before : client.output k = some stream := by rw [Client.output, ← fewer.outputs]; exact found
  refine ⟨(pushes.own k stream before).1, fun other refers => (pushes.own k stream before).2 other ?_⟩
  obtain ⟨fd, known, held⟩ := Option.bind_eq_some_iff.mp refers
  exact Option.bind_eq_some_iff.mpr ⟨fd, fewer.table _ _ known, fewer.holder _ _ held⟩

theorem held_eq (client : Client T) (k : Nat) : (RpcAdapter.front sync).held client k = ((client.output k).map (·.buffer)).getD [] := rfl

theorem held_set {replaced : Option FileOutputStream} (found : client.output k = some stream) :
    (RpcAdapter.front sync).held (client.setOutput k replaced) =
      Function.update ((RpcAdapter.front sync).held client) k ((replaced.map (·.buffer)).getD []) := by
  funext j
  rw [held_eq, setOutput_output found, Function.update_apply, Function.update_apply]
  split
  · rfl
  · rfl

/-- Another state of one stream. -/
theorem PushesTo.set {replaced : Option FileOutputStream} (pushes : PushesTo sync id content client) (found : client.output k = some stream)
    (same : ∀ next, replaced = some next → next.handle = stream.handle ∧ next.append = stream.append) :
    PushesTo sync id content (client.setOutput k replaced) := by
  refine ⟨pushes.file, fun j next at' => ?_⟩
  have at' : (client.setOutput k replaced).output j = some next := at'
  rw [setOutput_output found, Function.update_apply] at at'
  split at at'
  · obtain ⟨handle, append⟩ := same next at'
    obtain ⟨appends, own⟩ := pushes.own k stream found
    refine ⟨append.trans appends, fun other refers => own other ?_⟩
    obtain ⟨fd, known, held⟩ := Option.bind_eq_some_iff.mp refers
    exact Option.bind_eq_some_iff.mpr ⟨fd, handle ▸ known, held⟩
  · exact pushes.own j next at'

theorem PushesTo.onServer {fs : Fs T} (pushes : PushesTo sync id content client) (file : HasBytes fs id more)
    (holder : fs.holder = client.server.fs.holder) : PushesTo sync id more (client.onServer fs) := by
  refine ⟨file, fun k stream found => ⟨(pushes.own k stream found).1, fun other refers => (pushes.own k stream found).2 other ?_⟩⟩
  obtain ⟨fd, known, held⟩ := Option.bind_eq_some_iff.mp refers
  exact Option.bind_eq_some_iff.mpr ⟨fd, known, holder ▸ held⟩

/-- The descriptor of one of the streams shows the file. -/
theorem PushesTo.shown {fd : Fd} {handle : FileHandle} (pushes : PushesTo sync id content client) (found : client.output k = some stream)
    (known : client.descriptorToFd.lookup stream.handle = some fd) (held : client.server.fs.fdTable.lookup fd = some handle) :
    handle.inodeId = id :=
  (pushes.own k stream found).2 _ (Option.bind_eq_some_iff.mpr ⟨fd, known, by rw [holder, held, Option.map_some]⟩)

/-- A stream was flushed, and those of a list can be flushed after it. -/
structure Flushed (sync : Option (Rpc.SyncManager T)) (id : InodeId) (content : Bytes) (k : Nat) (ks : List Nat) (client : Client T)
    (done : Except ErrorCode Unit × Client T) : Prop where
  ok : done.1 = .ok ()
  pushes : PushesTo sync id (content ++ (RpcAdapter.front sync).held client k) done.2
  held : (RpcAdapter.front sync).held done.2 = Function.update ((RpcAdapter.front sync).held client) k []
  stream : ∀ stream, client.output k = some stream → done.2.output k = some { stream with buffer := [] }
  pushable : Pushable done.2 ks

theorem flushed_idle {ks : List Nat} (pushes : PushesTo sync id content client) (pushable : Pushable client (k :: ks))
    (idle : client.flushBuffer sync k = (.ok (), client)) (none : (RpcAdapter.front sync).held client k = [])
    (empty : ∀ stream, client.output k = some stream → stream.buffer = []) :
    Flushed sync id content k ks client (client.flushBuffer sync k) := by
  rw [idle]
  refine ⟨rfl, ?_, ?_, fun stream found => ?_, fun j member stream found some => ?_⟩
  · rw [none, List.append_nil]
    exact pushes
  · rw [← none, Function.update_eq_self]
  · rw [found, ← empty stream found]
  · obtain ⟨fd, handle, stored, known, held, file, writable, room⟩ := pushable j (List.mem_cons_of_mem _ member) stream found some
    exact ⟨fd, handle, stored, known, held, file, writable,
      lt_of_le_of_lt (Nat.add_le_add_left (Nat.le_add_left _ _) _) room⟩

/-- After one of the streams was pushed, there is still room for the others. -/
theorem pushable_after {fs : Fs T} {ks : List Nat} (pushes : PushesTo sync id content client) (pushable : Pushable client (k :: ks))
    (found : client.output k = some stream) (holder : fs.holder = client.server.fs.holder) (carried : Carried client.server.fs fs)
    (file : HasBytes fs id (content ++ stream.buffer)) :
    Pushable ((client.setOutput k (some { stream with buffer := [] })).onServer fs) ks := by
  intro j member other found' some
  have left : (client.setOutput k (Option.some { stream with buffer := [] })).output j = Option.some other := found'
  rw [setOutput_output found, Function.update_apply] at left
  split at left
  · cases left
    exact absurd rfl some
  -- What another stream has buffered still fits, because this one's buffer is in the file now.
  next different =>
  obtain ⟨fd, handle, stored, known, held, node, writable, room⟩ := pushable j (List.mem_cons_of_mem _ member) other left some
  have shown := pushes.shown left known held
  obtain ⟨before, node', -, bytes⟩ := pushes.file
  rw [shown] at node
  cases node.symm.trans node'
  obtain ⟨later, written, -, bytes'⟩ := file
  have still := congrFun holder fd
  rw [Fs.holder, Fs.holder, held, Option.map_some] at still
  obtain ⟨handle', held', same⟩ := Option.map_eq_some_iff.mp still
  obtain ⟨position, before', -⟩ := carried fd handle' held'
  cases held.symm.trans before'
  refine ⟨fd, handle', later, known, held', by rw [same, shown]; exact written, writable, lt_of_le_of_lt ?_ room⟩
  have size : later.storage.size = stored.storage.size + stream.buffer.length := by
    rw [← content_length, bytes', List.length_append, ← bytes, content_length]
  have smaller : (ks.map fun j => ((((client.setOutput k (Option.some { stream with buffer := [] })).onServer fs).output j).map
      (·.buffer.length)).getD 0).sum ≤ (ks.map fun j => ((client.output j).map (·.buffer.length)).getD 0).sum := by
    refine List.sum_le_sum fun i _ => ?_
    have output : ((client.setOutput k (Option.some { stream with buffer := [] })).onServer fs).output i =
      (client.setOutput k (Option.some { stream with buffer := [] })).output i := rfl
    rw [output, setOutput_output found, Function.update_apply]
    split
    · exact Nat.zero_le _
    · exact le_rfl
  rw [List.map_cons, List.sum_cons, found, Option.map_some, Option.getD_some, size]
  omega

theorem flushed (inert : ∀ manager ∈ sync, Inert manager) {ks : List Nat} (pushes : PushesTo sync id content client)
    (pushable : Pushable client (k :: ks)) : Flushed sync id content k ks client (client.flushBuffer sync k) := by
  cases found : client.output k with
  | none =>
    refine flushed_idle pushes pushable (flushBuffer_none found) ?_ fun stream found' => ?_
    · rw [held_eq, found, Option.map_none, Option.getD_none]
    · cases found.symm.trans found'
  | some stream =>
    have buffer : (RpcAdapter.front sync).held client k = stream.buffer := by rw [held_eq, found, Option.map_some, Option.getD_some]
    by_cases empty : stream.buffer = []
    · refine flushed_idle pushes pushable (flushBuffer_empty found empty) (buffer.trans empty) fun other found' => ?_
      cases found.symm.trans found'
      exact empty
    obtain ⟨append, own⟩ := pushes.own k stream found
    -- What is buffered is flushed to the descriptor of the stream, which is open for it.
    obtain ⟨fd, handle, stored, known, held, node, writable, room⟩ := pushable k List.mem_cons_self stream found empty
    have fits : stored.storage.size + stream.buffer.length < 2 ^ target.usizeBits := by
      rw [List.map_cons, List.sum_cons, found, Option.map_some, Option.getD_some] at room
      omega
    have own' (other : InodeId) (refers : client.server.fs.holder fd = some other) : other = id :=
      own other (Option.bind_eq_some_iff.mpr ⟨fd, known, refers⟩)
    have appends : Appends client.server.fs id content stream.buffer (client.server.fs.appendWrite fd stream.buffer) := by
      refine appendWrite_appends pushes.file own' fun handle' stored' held' node' _ _ => ?_
      cases held.symm.trans held'
      cases node.symm.trans node'
      exact fits
    have ok : (client.server.fs.appendWrite fd stream.buffer).1 = .ok stream.buffer.length := (writeThrough_done held node writable).1
    have carried : Carried client.server.fs (client.server.fs.appendWrite fd stream.buffer).2 :=
      writeThrough_carried _ fd _ (fun _ _ => toU64_lt _) stream.buffer
    rcases appends with ⟨e, failed⟩ | ⟨-, holder, file⟩
    · rw [failed] at ok
      cases ok
    · rw [flushBuffer_append inert found empty append known ok]
      have drained : PushesTo sync id content (client.setOutput k (some { stream with buffer := [] })) :=
        pushes.set found fun next same => by cases same; exact ⟨rfl, rfl⟩
      refine ⟨rfl, ?_, ?_, fun other found' => ?_, pushable_after pushes pushable found holder carried file⟩
      · rw [buffer]
        exact drained.onServer file holder
      · exact held_set found
      · cases found.symm.trans found'
        exact (congrFun (setOutput_output found) k).trans (Function.update_self ..)

/-! ### The client's events -/

section
variable {taken : List (Nat × Bytes)}

/-- The client went on, and the ledger moved. -/
abbrev Client.Moved (sync : Option (Rpc.SyncManager T)) (id : InodeId) (content : Bytes) (taken taken' : List (Nat × Bytes))
    (client later : Client T) : Prop :=
  (RpcAdapter.front sync).Moved (fun stream : FileOutputStream => stream.append = true) id content ⟨client, taken⟩ ⟨later, taken'⟩

theorem Flushed.moved {ks : List Nat} {done : Except ErrorCode Unit × Client T} (flushed : Flushed sync id content k ks client done)
    (taken : List (Nat × Bytes)) :
    Ledger.Moves ⟨content, (RpcAdapter.front sync).held client, taken⟩
      ⟨content ++ (RpcAdapter.front sync).held client k, (RpcAdapter.front sync).held done.2, taken⟩ := by
  rw [flushed.held]
  exact .single (.push ..)

theorem flushAll_moved (inert : ∀ manager ∈ sync, Inert manager) {ks : List Nat} (pushes : PushesTo sync id content client)
    (pushable : Pushable client ks) (taken : List (Nat × Bytes)) : (client.flushAll sync ks).1 = .ok () ∧
      Client.Moved sync id content taken taken client (client.flushAll sync ks).2 := by
  induction ks generalizing client content with
  | nil => exact ⟨rfl, Front.moved_still pushes rfl rfl⟩
  | cons k ks ih =>
    have flushed := flushed inert pushes pushable
    have moved := flushed.moved taken
    cases result : client.flushBuffer sync k with
    | mk answer later =>
      rw [result] at flushed moved
      obtain ⟨ok, more, pushes', moved'⟩ := ih flushed.pushes flushed.pushable
      have first : answer = .ok () := flushed.ok
      subst first
      have all : client.flushAll sync (k :: ks) = later.flushAll sync ks := by rw [Client.flushAll, result]
      rw [all]
      refine ⟨ok, (RpcAdapter.front sync).held client k ++ more, ?_, ?_⟩
      · rw [← List.append_assoc]
        exact pushes'
      · rw [← List.append_assoc]
        exact moved.trans moved'

theorem held_fewer (fewer : Fewer client later) : (RpcAdapter.front sync).held later = (RpcAdapter.front sync).held client := by
  funext k
  rw [held_eq, held_eq, Client.output, Client.output, fewer.outputs]

theorem Client.Moved.fewer {taken' : List (Nat × Bytes)} {last : Client T} (moved : Client.Moved sync id content taken taken' client later)
    (fewer : Fewer later last) : Client.Moved sync id content taken taken' client last := by
  obtain ⟨more, pushes, moves⟩ := moved
  refine ⟨more, PushesTo.fewer pushes fewer, ?_⟩
  rw [held_fewer fewer]
  exact moves

theorem fsync_moved (inert : ∀ manager ∈ sync, Inert manager) {d : Descriptor} (pushes : PushesTo sync id content client)
    (fits : d.handle ≠ 0 → Client.isWrite d → Pushable client (client.liveStreamsFor d.handle)) :
    Client.Moved sync id content taken taken client (client.fsync sync d).2 := by
  unfold Client.fsync
  split
  · exact Front.moved_still pushes rfl rfl
  · next asked =>
    rw [not_or, not_not] at asked
    have moved := (flushAll_moved inert pushes (fits asked.1 asked.2) taken).2
    split
    · next e later result =>
      rw [result] at moved
      exact moved
    · next later result =>
      rw [result] at moved
      split
      · exact moved
      · split
        · exact moved
        · rw [expect_client]
          exact moved.fewer (call_fsync_fewer inert later _)

theorem streamDropped_moved (inert : ∀ manager ∈ sync, Inert manager) (pushes : PushesTo sync id content client)
    (fits : Pushable client [k]) : Client.Moved sync id content taken taken client (client.streamDropped sync k) := by
  unfold Client.streamDropped
  split
  · exact Front.moved_still pushes rfl rfl
  · next stream found =>
    have flushed := flushed inert pushes fits
    have moved := flushed.moved taken
    have drained := flushed.stream stream found
    have gone : Client.Moved sync id content taken taken client ((client.flushBuffer sync k).2.setOutput k none) := by
      refine ⟨(RpcAdapter.front sync).held client k, flushed.pushes.set drained fun next none => (by cases none), ?_⟩
      have held : (RpcAdapter.front sync).held ((client.flushBuffer sync k).2.setOutput k none) =
          (RpcAdapter.front sync).held (client.flushBuffer sync k).2 := by
        rw [held_set drained, flushed.held, Function.update_idem]
        rfl
      rw [held]
      exact moved
    exact gone.fewer (streamClosed_fewer inert _ _)

theorem streamOpened_moved {d : Descriptor} (pushes : PushesTo sync id content client)
    (own : ∀ other, (client.descriptorToFd.lookup d.handle).bind client.server.fs.holder = some other → other = id) :
    Client.Moved sync id content taken taken client (client.streamOpened ⟨d.handle, 0, true, []⟩) := by
  refine Front.moved_still ⟨pushes.file, fun k stream found => ?_⟩ ?_ rfl
  · have found := (streamOpened_output client ⟨d.handle, 0, true, []⟩ k).symm.trans found
    split at found
    · cases found
      exact ⟨rfl, own⟩
    · exact pushes.own k stream found
  · funext k
    rw [held_eq, streamOpened_output]
    split
    · next last =>
      have none : client.output k = none := by rw [Client.output, last, List.getElem?_eq_none le_rfl, Option.join_none]
      rw [held_eq, none]
      rfl
    · rfl

theorem wrote_moved {chunk : Bytes} (pushes : PushesTo sync id content client) (found : client.output k = some stream) :
    Client.Moved sync id content taken (taken ++ [(k, chunk)]) client
      (client.setOutput k (some { stream with buffer := stream.buffer ++ chunk })) := by
  have held : (RpcAdapter.front sync).held client k = stream.buffer := by rw [held_eq, found, Option.map_some, Option.getD_some]
  refine ⟨[], ?_⟩
  rw [List.append_nil, held_set found]
  refine ⟨pushes.set found fun next same => by cases same; exact ⟨rfl, rfl⟩, .single ?_⟩
  have take := Ledger.Move.take content ((RpcAdapter.front sync).held client) taken k chunk
  rw [held] at take
  exact take

end

theorem rpcAdapter_moves (inert : ∀ manager ∈ sync, Inert manager) :
    (RpcAdapter.front sync).Moves (fun stream : FileOutputStream => stream.append = true)
      fun session event => RpcAdapter.Fits session.state event := by
  rintro id content ⟨(client : Client T), taken⟩ event others fits pushes
  have still (later : Client T) (moved : Client.Moved sync id content taken taken client later) :
      Client.Moved sync id content taken (taken ++ []) client later := by
    rw [List.append_nil]
    exact moved
  cases event with
  | appendViaStream d =>
    have made : Client.Moved sync id content taken taken client (client.appendViaStream d).2 := by
      unfold Client.appendViaStream
      split
      · exact Front.moved_still pushes rfl rfl
      · exact streamOpened_moved pushes others
    exact still _ made
  | write k chunk =>
    cases found : client.output k with
    -- Without the stream nothing is taken.
    | none =>
      have refused : client.blockingWriteAndFlush k chunk = (.error .closed, client) := by
        simp only [Client.blockingWriteAndFlush, found]
      have step : (RpcAdapter.front sync).step ⟨client, taken⟩ (.write k chunk) = ⟨client, taken ++ []⟩ := by
        unfold Front.step RpcAdapter.front
        dsimp only
        rw [refused]
        rfl
      rw [step]
      exact still _ (Front.moved_still pushes rfl rfl)
    | some stream =>
      -- The chunk is taken into the buffer of the stream.
      have wrote : client.blockingWriteAndFlush k chunk =
          (.ok (), client.setOutput k (some { stream with buffer := stream.buffer ++ chunk })) := by
        simp only [Client.blockingWriteAndFlush, found]
      have step : (RpcAdapter.front sync).step ⟨client, taken⟩ (.write k chunk) =
          ⟨client.setOutput k (some { stream with buffer := stream.buffer ++ chunk }), taken ++ [(k, chunk)]⟩ := by
        unfold Front.step RpcAdapter.front
        dsimp only
        rw [wrote]
        rfl
      rw [step]
      exact wrote_moved pushes found
  | flush k => exact still _ (Front.moved_still pushes rfl rfl)
  | sync d => exact still _ (fsync_moved inert pushes fits)
  | drop k => exact still _ (streamDropped_moved inert pushes fits)
  | aside other =>
    refine still _ ?_
    cases other with
    | descriptorDropped d =>
      have unmoved : Client.Moved sync id content taken taken client client := Front.moved_still pushes rfl rfl
      exact unmoved.fewer (descriptorDropped_fewer inert client d)
    -- What other clients do to the server keeps the file and the descriptors.
    | others server descriptorToFd =>
      obtain ⟨node, kept⟩ := others
      refine Front.moved_still ⟨pushes.file.of_node node, fun k stream found => ⟨(pushes.own k stream found).1, ?_⟩⟩ rfl rfl
      exact fun other refers => (pushes.own k stream found).2 other (kept k stream other found refers)

/-! ### All front ends -/

/-- In a run without other writes in which every event meets the condition of the front end,
no event overwrites anything, and after each the accepted chunks are in the file behind
its initial content or held back by their streams. -/
theorem append_streams {kind : FrontEnd} {session : (kind.front sync).Session}
    {events : List (StreamEvent (kind.front sync).Descriptor (kind.front sync).Other)} (word : target.usizeBits ≤ 64)
    (inert : ∀ manager ∈ sync, Inert manager) (starts : (kind.front sync).Starts id initial session)
    (others : AtEveryEvent (kind.front sync).step ((kind.front sync).NoOtherWrites id) events session)
    (fits : AtEveryEvent (kind.front sync).step (kind.Fits sync) events session) :
    AtEveryEvent (kind.front sync).step ((kind.front sync).Appended id initial) events session := by
  cases kind with
  | vfsAdapter => exact (vfsAdapter_moves word).appended starts others fits
  | vfsHost => exact vfsHost_moves.appended starts others fits
  | rpcAdapter => exact (rpcAdapter_moves inert).appended starts others fits

end

/-- Two streams are made on the descriptor of a file, and each is written once. -/
def interleaved {D O : Type} (d : D) : List (StreamEvent D O) := [.appendViaStream d, .appendViaStream d, .write 0 [1], .write 1 [2]]

theorem host_appends :
    let _ : Target := ⟨64⟩
    AtEveryEvent (FrontEnd.vfsHost.front none).step ((FrontEnd.vfsHost.front none).Appended 1 [7])
      (interleaved (⟨3, some "/f", O_RDWR⟩ : VfsHost.FsDescriptorWrapper)) (⟨(small, []), []⟩ : (FrontEnd.vfsHost.front none).Session) := by
  let _ : Target := ⟨64⟩
  have nobody : ∀ manager ∈ (none : Option (Rpc.SyncManager MonotonicCounter)), Inert manager := fun manager none => (by cases none)
  refine @append_streams _ _ _ none _ _ .vfsHost _ _ (by decide) nobody
    ⟨reachable_after (.new MonotonicCounter.new), rfl, fun k => rfl, rfl⟩ ⟨?_, ?_, trivial, trivial, trivial⟩
    ⟨trivial, trivial, ?_, ?_, trivial⟩
  · intro other refers
    cases refers
    rfl
  · intro other refers
    cases refers
    rfl
  · intro stream handle stored found held node _ _
    cases found
    cases held
    cases node
    exact ⟨trivial, by decide⟩
  · intro stream handle stored found held node _ _
    cases found
    cases held
    cases node
    exact ⟨trivial, by decide⟩

/-- The second stream of the adapter still writes where the file ended before the first wrote. -/
theorem adapter_overwrites :
    let _ : Target := ⟨64⟩
    let session : (VfsAdapter.front : Front MonotonicCounter).Session := ⟨(small, []), []⟩
    VfsAdapter.front.Starts 1 [7] session ∧ AtEveryEvent VfsAdapter.front.step (VfsAdapter.front.NoOtherWrites 1) (interleaved (3 : Fd)) session ∧
      ¬ AtEveryEvent VfsAdapter.front.step (VfsAdapter.front.Appended 1 [7]) (interleaved (3 : Fd)) session := by
  let _ : Target := ⟨64⟩
  refine ⟨⟨reachable_after (.new MonotonicCounter.new), rfl, fun k => rfl, rfl⟩, ⟨?_, ?_, trivial, trivial, trivial⟩, ?_⟩
  · intro other refers
    cases refers
    rfl
  · intro other refers
    cases refers
    rfl
  · rintro ⟨-, -, -, ⟨content, more, before, after, -⟩, -⟩
    cases before
    cases after

end MonakaFs.Wasi
