import MonakaFs.Wasi.Appending

/-! The client of the server: what its requests do, and what flushing a stream does. -/

set_option autoImplicit false

namespace MonakaFs.Wasi.RpcAdapter

open FsCore Fs BlockStorage

variable {T : Type} [TimeProvider T] [target : Target] {sync : Option (Rpc.SyncManager T)} {client later : Client T}
  {k d : Nat} {fd : Fd} {stream : FileOutputStream}

/-! ### Requests -/

section
variable {A : Type}

/-- The client once the server's filesystem has changed. -/
def Client.onServer (client : Client T) (fs : Fs T) : Client T := { client with server := { client.server with fs := fs } }

omit [TimeProvider T] target in
theorem performing_eq (ctx : Rpc.ServerContext T) (outcome : Outcome T A) (response : A → Rpc.Response)
    {after : Rpc.ServerContext T → Rpc.ServerContext T} (idle : ∀ ctx, after ctx = ctx) :
    ctx.performing outcome response after = (Rpc.ServerContext.answer outcome.1 response, { ctx with fs := outcome.2 }) := by
  obtain ⟨result, fs⟩ := outcome
  cases result with
  | ok value => exact congrArg (Prod.mk _) (idle _)
  | error e => rfl

omit [TimeProvider T] target in
theorem expect_client (expected : Rpc.Response → Option A) (answer : Rpc.Response × Client T) : (expect expected answer).2 = answer.2 := by
  unfold expect
  split
  · rfl
  · split
    · rfl
    · rfl

variable (inert : ∀ manager ∈ sync, Inert manager)
include inert

omit [TimeProvider T] target in
theorem afterWrite_inert (ctx : Rpc.ServerContext T) (fd : Fd) : ctx.afterWrite sync fd = ctx := by
  unfold Rpc.ServerContext.afterWrite
  cases sync with
  | none => rfl
  | some manager =>
    cases ctx.fdPathMap.lookup fd with
    | none => rfl
    | some path =>
      dsimp only
      rw [(inert manager rfl).syncFileNow]
      split
      · rfl
      · rfl

theorem call_appendWrite (client : Client T) (fd : Fd) (data : Bytes) : client.call sync (.appendWrite fd data) =
    (Rpc.ServerContext.answer (client.server.fs.appendWrite fd data).1 .written,
      client.onServer (client.server.fs.appendWrite fd data).2) := by
  have performed := performing_eq client.server (client.server.fs.appendWrite fd data) .written fun ctx => afterWrite_inert inert ctx fd
  rw [Client.call, Rpc.ServerContext.handleRequest, performed]
  rfl

theorem call_close (client : Client T) (fd : Fd) : (client.call sync (.close fd)).2.server.fs = (client.server.fs.close fd).2 := by
  rw [Client.call, Rpc.ServerContext.handleRequest]
  unfold Rpc.ServerContext.closeFd
  dsimp only
  cases client.server.fdPathMap.lookup fd with
  | none => rfl
  | some path =>
    cases sync with
    | none => rfl
    | some manager =>
      dsimp only
      split
      · have kept := (inert manager rfl).onClose path (client.server.fs.close fd).2
        split
        · next result => exact (congrArg Prod.snd result).symm.trans kept
        · next result => exact (congrArg Prod.snd result).symm.trans kept
      · rfl

theorem call_fsync (client : Client T) (fd : Fd) : (client.call sync (.fsync fd)).2.server.fs = client.server.fs := by
  rw [Client.call, Rpc.ServerContext.handleRequest]
  dsimp only
  cases client.server.fdFlagsMap.lookup fd with
  | none => rfl
  | some flags =>
    cases client.server.fdPathMap.lookup fd with
    | none => rfl
    | some path =>
      cases sync with
      | none => rfl
      | some manager =>
        dsimp only
        split
        · have kept := (inert manager rfl).onFsync path client.server.fs
          split
          · next result => exact (congrArg Prod.snd result).symm.trans kept
          · next result => exact (congrArg Prod.snd result).symm.trans kept
        · rfl

end

/-! ### Streams by number -/

section
omit [TimeProvider T] target

theorem output_lt (found : client.output k = some stream) : k < client.outputs.length := by
  by_contra behind
  rw [Client.output, List.getElem?_eq_none (Nat.not_lt.mp behind)] at found
  cases found

theorem setOutput_output {replaced : Option FileOutputStream} (found : client.output k = some stream) :
    (client.setOutput k replaced).output = Function.update client.output k replaced := by
  funext j
  rw [Function.update_apply, Client.output, Client.setOutput, join_set]
  simp only [output_lt found, and_true]
  rfl

theorem streamOpened_output (client : Client T) (stream : FileOutputStream) (j : Nat) :
    (client.streamOpened stream).output j = if j = client.outputs.length then some stream else client.output j := by
  rw [Client.output, Client.streamOpened, join_concat]
  rfl

end

/-! ### Flushing and closing -/

theorem flushBuffer_none (none : client.output k = none) : client.flushBuffer sync k = (.ok (), client) := by
  simp only [Client.flushBuffer, none]

theorem flushBuffer_empty (found : client.output k = some stream) (empty : stream.buffer = []) :
    client.flushBuffer sync k = (.ok (), client) := by
  simp only [Client.flushBuffer, found, empty, if_true]

variable (inert : ∀ manager ∈ sync, Inert manager)
include inert

theorem flushBuffer_append {n : Nat} (found : client.output k = some stream) (some : stream.buffer ≠ []) (append : stream.append = true)
    (known : client.descriptorToFd.lookup stream.handle = Option.some fd)
    (ok : (client.server.fs.appendWrite fd stream.buffer).1 = .ok n) : client.flushBuffer sync k =
      (.ok (), (client.setOutput k (Option.some { stream with buffer := [] })).onServer (client.server.fs.appendWrite fd stream.buffer).2) := by
  have called := call_appendWrite inert (client.setOutput k (Option.some { stream with buffer := [] })) fd stream.buffer
  have answered : (client.setOutput k (Option.some { stream with buffer := [] })).server = client.server := rfl
  rw [answered, ok] at called
  have server : (client.setOutput k (Option.some { stream with buffer := [] })).getServerFd stream.handle = .ok fd := by
    rw [Client.getServerFd, Client.setOutput, known]
  unfold Client.flushBuffer
  rw [found]
  dsimp only
  rw [if_neg some, server]
  dsimp only
  rw [if_pos append, called]
  rfl

/-- A client that lost descriptors, and nothing else. -/
structure Fewer (client later : Client T) : Prop where
  outputs : later.outputs = client.outputs
  node : later.server.fs.node = client.server.fs.node
  holder : ∀ fd other, later.server.fs.holder fd = some other → client.server.fs.holder fd = some other
  table : ∀ d fd, later.descriptorToFd.lookup d = some fd → client.descriptorToFd.lookup d = some fd

omit [TimeProvider T] target inert in
theorem Fewer.refl (client : Client T) : Fewer client client := ⟨rfl, rfl, fun _ _ held => held, fun _ _ known => known⟩

theorem release_fewer (client : Client T) (d : Nat) : Fewer client (client.release sync d) := by
  unfold Client.release
  split
  · exact .refl client
  · next fd known =>
    have closed := call_close inert { client with
      descriptorToFd := AList.erase d client.descriptorToFd
      closePending := client.closePending.filter (· ≠ d) } fd
    refine ⟨rfl, by rw [closed, close_node], fun n other held => ?_, fun e n found => ?_⟩
    · rw [closed, (close_effect _ fd).2, Function.update_apply] at held
      split at held
      · cases held
      · exact held
    · have erased : (AList.erase d client.descriptorToFd).lookup e = some n := found
      rw [Table.lookup_erase] at erased
      split at erased
      · cases erased
      · exact erased

theorem call_fsync_fewer (client : Client T) (fd : Fd) : Fewer client (client.call sync (.fsync fd)).2 := by
  have same := call_fsync inert client fd
  exact ⟨rfl, by rw [same], fun _ _ held => by rw [same] at held; exact held, fun _ _ known => known⟩

theorem streamClosed_fewer (client : Client T) (d : Nat) : Fewer client (client.streamClosed sync d) := by
  unfold Client.streamClosed
  split
  · exact release_fewer inert client d
  · exact .refl client

theorem descriptorDropped_fewer (client : Client T) (d : Nat) : Fewer client (client.descriptorDropped sync d) := by
  unfold Client.descriptorDropped
  split
  · exact .refl client
  split
  · exact release_fewer inert client d
  · exact ⟨rfl, rfl, fun _ _ held => held, fun _ _ known => known⟩

end MonakaFs.Wasi.RpcAdapter
