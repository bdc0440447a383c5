import MonakaFs.Sync.Agreement

/-! Closes and fsyncs in realtime mode.

A write pushes at once, and nothing marks the lease: a later close or fsync has
nothing to push. What they report is right as long as the local copy and the object
agree, and everything but a write keeps that.
-/

set_option autoImplicit false

namespace MonakaFs.Sync.Realtime

open Async SyncManager LawfulBackend

/-- The path is not leased as unlinked. -/
def Intact (path : String) (table : LeaseTable) : Prop :=
  ∀ lease, table.lookup path = some lease → lease.pendingDelete = false

theorem Intact.alter {path name : String} {table : LeaseTable} (intact : Intact path table) {change : WriteLease → WriteLease}
    (same : ∀ lease, (change lease).pendingDelete = lease.pendingDelete) : Intact path (table.alter name change) := by
  intro lease found
  rw [Map.lookup_alter] at found
  split at found
  · next equal =>
    subst equal
    obtain ⟨before, present, rfl⟩ := Option.map_eq_some_iff.mp found
    exact (same before).trans (intact before present)
  · exact intact lease found

section
variable [EtagScheme] {F : Type} [LawfulBackend F]

/-- Nobody else writes the object, and the instance waits. -/
structure Unwritten (path : String) (s t : Snapshot F) : Prop where
  object : object path t = object path s
  manager : t.manager = s.manager
  fs : t.fs = s.fs

def unwritten (path : String) : Surroundings F where
  moves := Unwritten path
  refl _ := ⟨rfl, rfl, rfl⟩
  trans first second := ⟨second.object.trans first.object, second.manager.trans first.manager, second.fs.trans first.fs⟩

/-- The local file and the object have these bytes, if that is known. -/
structure Both (known : Prop) (path : String) (data : Option Bytes) (s : Snapshot F) : Prop where
  bytes : known → content s.fs path = data
  stored : known → (object path s).map (·.data) = data
  intact : Intact path s.manager.leases

theorem Both.moves {known : Prop} {path : String} {data : Option Bytes} {s t : Snapshot F} (both : Both known path data s)
    (moves : Unwritten path s t) : Both known path data t where
  bytes := by rw [moves.fs]; exact both.bytes
  stored := by rw [moves.object]; exact both.stored
  intact := by rw [moves.manager]; exact both.intact

end

/-- An operation that stores nothing but these bytes, here or there. -/
inductive Keeping {F : Type} (known : Prop) (path : String) (data : Option Bytes) : Op F → Prop where
  | aside {op : Op F} : op.Aside → Keeping known path data op
  | leases {change : LeaseTable → LeaseTable} : (∀ table, Intact path table → Intact path (change table)) →
      Keeping known path data (.leases change)
  | read : Keeping known path data (.fs (.readFileContent path))
  | put {body : Bytes} {cond : Precondition} : (known → data = some body) → Keeping known path data (.request (.put (fileKey path) body cond))
  | change {change : F → F} : ¬ known → Keeping known path data (.app change)
  | write {body : Bytes} : (known → data = some body) → Keeping known path data (.fs (.writeFileContent path body))

section
variable [EtagScheme] {F A : Type} [LawfulBackend F] {known : Prop} {path : String} {data : Option Bytes} {s : Node F}
  {post : A → Node F → Prop}

theorem keeping_step {op : Op F} (keeping : Keeping known path data op) (turn : Turn) {t : Snapshot F} (both : Both known path data t) :
    Both known path data (t.act turn op).2 := by
  cases keeping with
  | aside aside =>
    have still : Still path t (t.act turn op).2 := aside_still aside turn t
    refine ⟨fun sure => still.bytes.trans (both.bytes sure), by rw [still.object]; exact both.stored, fun lease found => ?_⟩
    rw [still.lease] at found
    exact both.intact lease found
  | leases keeps => exact ⟨both.bytes, both.stored, keeps _ both.intact⟩
  | read =>
    have still : Still path t _ := read_still turn t
    exact ⟨fun sure => still.bytes.trans (both.bytes sure), both.stored, both.intact⟩
  | change unknown => exact ⟨fun sure => (unknown sure).elim, fun sure => (unknown sure).elim, both.intact⟩
  | @put body cond same =>
    refine ⟨both.bytes, fun sure => ?_, both.intact⟩
    rcases put_either t.store turn.fault (fileKey path) body cond with unchanged | ⟨version, stored, bytes⟩
    · exact (congrArg _ unchanged).trans (both.stored sure)
    · rw [same sure]
      exact (congrArg (fun found : Option MemObject => found.map (·.data)) stored).trans (congrArg some bytes)
  | @write body same =>
    refine ⟨fun sure => ?_, both.stored, both.intact⟩
    show content (writeFileContent path body t.fs).2 path = data
    cases written : (writeFileContent path body t.fs).1 with
    | ok => rw [write_ok written, Function.update_self, same sure]
    | error e => rw [write_error written]; exact both.bytes sure

abbrev honest (path : String) : Contract (syncSignature F) (Node F) := runs Faulty (unwritten path)

theorem keeps_both : (honest (F := F) path).Keeps (fun t => Both known path data t.state) (Keeping known path data) where
  stable both moves := both.moves moves.2
  waits _ := trivial
  step keeping both effect := by
    obtain ⟨⟨turn, -, -, later⟩, -⟩ := node_effect effect
    exact ⟨trivial, later ▸ keeping_step keeping turn both⟩

/-- One operation that keeps file and object as they are. -/
theorem both_next {op : Op F} {k : op.Reply → Task F A} (keeping : Keeping known path data op) (both : Both known path data s.state)
    (rest : ∀ t turn u, Both known path data t → Both known path data u.state →
      (honest path).Safe post (k (Snapshot.act turn op t).1) u) : (honest path).Safe post (next op k) s := by
  refine safe_next ?_
  rintro t reply u moves ⟨turn, _, answer, later⟩
  have here := both.moves moves
  rw [answer]
  exact rest t turn ⟨u, _⟩ here (later ▸ keeping_step keeping turn here)

/-- A program that keeps file and object as they are. -/
abbrev Keeps (known : Prop) (path : String) (data : Option Bytes) (task : Task F A) : Prop :=
  ∀ s : Node F, Both known path data s.state → (honest path).Safe (fun _ t => Both known path data t.state) task s

omit [EtagScheme] [LawfulBackend F] in
theorem alter_keeping {name : String} {change : WriteLease → WriteLease}
    (same : ∀ lease, (change lease).pendingDelete = lease.pendingDelete) :
    Keeping (F := F) known path data (.leases (·.alter name change)) :=
  .leases fun _ intact => intact.alter same

theorem Keeps.of_only {task : Task F A} (only : task.Only (I := syncSignature F) (Keeping known path data)) : Keeps known path data task :=
  fun _ both => keeps_both.safe only both

theorem Keeps.bind {B : Type} {task : Task F B} {k : B → Task F A} (first : Keeps known path data task)
    (rest : ∀ value, Keeps known path data (k value)) : Keeps known path data (task >>= k) :=
  fun s both => (first s both).bind fun value t both => rest value t both

theorem keep_next {op : Op F} {k : op.Reply → Task F A} (keeping : Keeping known path data op)
    (rest : ∀ reply, Keeps known path data (k reply)) : Keeps known path data (next op k) :=
  fun _ both => both_next keeping both fun _ _ u _ both => rest _ u both

theorem Keeps.done (value : A) : Keeps known path data (.done value : Task F A) :=
  fun _ both _ moves => both.moves moves.2

/-! ### The calls -/

section
variable (manager : SyncManager) (path : String)

omit [EtagScheme] [LawfulBackend F] in
theorem putUpload_keeping {body : Bytes} (same : known → data = some body) (cond : Precondition) :
    (putUpload (F := F) path body cond).Only (I := syncSignature F) (Keeping known path data) := by
  have look : Keeping (F := F) known path data (.request (.head (fileKey path))) := .aside trivial
  simp only [putUpload, putFile_bind, only_next]
  refine ⟨.put same, fun reply => ?_⟩
  split
  · trivial
  split
  · exact ⟨.put same, fun _ => trivial⟩
  split
  · simp only [headFile_bind, only_next]
    refine ⟨look, fun found => ?_⟩
    split
    · trivial
    · trivial
    · exact ⟨.put same, fun _ => trivial⟩
  split
  · refine ((verifyUploadLanded_silent path cond).mono fun op quiet => .aside (quiet_aside op quiet)).bind fun landed => ?_
    cases landed <;> trivial
  · trivial

omit [EtagScheme] [LawfulBackend F] in
theorem recordUpload_keeping (etag : String) (size modified : Nat) :
    (recordUpload (F := F) path etag size modified).Only (I := syncSignature F) (Keeping known path data) :=
  ⟨.aside trivial, fun _ => ⟨.aside trivial, fun _ => ⟨alter_keeping fun _ => rfl, fun _ => trivial⟩⟩⟩

omit [EtagScheme] [LawfulBackend F] in
theorem passthroughChecks_keeping :
    (manager.passthroughChecks (F := F) path).Only (I := syncSignature F) (Keeping known path data) :=
  (passthroughChecks_looks manager path).mono fun op looks => .aside (looks_aside op looks)

/-- The local file is read as it is. -/
theorem read_next {k : Except S3Error Bytes → Task F A} (both : Both known path data s.state)
    (failed : ∀ e (u : Node F), Both known path data u.state → (honest path).Safe post (k (.error e)) u)
    (read : ∀ body (u : Node F), (known → data = some body) → Both known path data u.state → (honest path).Safe post (k (.ok body)) u) :
    (honest path).Safe post (next (.fs (.readFileContent path)) k) s := by
  refine both_next .read both fun t turn u here both => ?_
  show (honest path).Safe post (k (readFileContent path t.fs).1) u
  cases returned : (readFileContent path t.fs).1 with
  | error e => exact failed e u both
  | ok body => exact read body u (fun sure => (here.bytes sure).symm.trans (read_ok returned)) both

/-- The object is downloaded as it is. -/
theorem get_next {k : Except S3Error (Option (Bytes × ObjectMeta)) → Task F A} (both : Both known path data s.state)
    (failed : ∀ e (u : Node F), Both known path data u.state → (honest path).Safe post (k (.error e)) u)
    (missing : ∀ u : Node F, Both known path data u.state → (honest path).Safe post (k (.ok none)) u)
    (found : ∀ body info (u : Node F), (known → data = some body) → Both known path data u.state →
      (honest path).Safe post (k (.ok (some (body, info)))) u) :
    (honest path).Safe post (next (.request (.get (fileKey path))) k) s := by
  refine both_next (.aside trivial) both fun t turn u here both => ?_
  show (honest path).Safe post (k (t.store.serveWith turn.fault (.get (fileKey path))).1) u
  rcases answered : (t.store.serveWith turn.fault (.get (fileKey path))).1 with e | _ | ⟨body, info⟩
  · exact failed e u both
  · exact missing u both
  · obtain ⟨version, stored, bytes, -⟩ := get_found answered
    refine found body info u (fun sure => ?_) both
    rw [← here.stored sure, object, stored, ← bytes]
    rfl

theorem uploadWithCond_keeps (cond : Precondition) : Keeps (F := F) known path data (manager.uploadWithCond path cond) := by
  intro s both
  simp only [uploadWithCond, onFs_bind]
  refine read_next path both (fun e u both => Keeps.done _ u both) fun body u same both => ?_
  refine both_next (.aside trivial) both fun t turn v _ both => ?_
  refine Keeps.bind (.of_only (passthroughChecks_keeping manager path)) (fun passed => ?_) v both
  rcases passed with e | _
  · exact .done _
  refine Keeps.bind (.of_only (putUpload_keeping path same cond)) fun result => ?_
  rcases result with e | etag
  · exact .done _
  · exact .bind (.of_only (recordUpload_keeping path etag _ _)) fun _ => .done _

omit [EtagScheme] [LawfulBackend F] in
theorem storeDownload_keeping {body : Bytes} (same : known → data = some body) (info : ObjectMeta) :
    (storeDownload (F := F) path body info).Only (I := syncSignature F) (Keeping known path data) := by
  simp only [storeDownload, onFs_bind, withCache_bind, only_next]
  refine ⟨.write same, fun stored => ?_⟩
  split
  · trivial
  · exact ⟨.aside trivial, fun _ => trivial⟩

theorem conflict_keeps : Keeps (F := F) known path data (conflict path) := by
  refine Keeps.bind (fun s both => ?_) fun _ => .done _
  simp only [refreshLocalFromRemote, getFile_bind, withCache_bind, withLeases_bind]
  refine get_next path both (fun e u both => Keeps.done _ u both) (fun u both => ?_) fun body info u same both => ?_
  · refine both_next (.aside trivial) both fun t turn v _ both => ?_
    exact both_next (alter_keeping fun _ => rfl) both fun t turn w _ both => Keeps.done _ w both
  · refine Keeps.bind (.of_only (storeDownload_keeping path same info)) (fun stored => ?_) u both
    rcases stored with e | _
    · exact .done _
    · exact keep_next (alter_keeping fun _ => rfl) fun _ => .done _

theorem condForUpload_keeps : Keeps (F := F) known path data (condForUpload path) := by
  simp only [condForUpload, withLeases_bind]
  refine keep_next (.leases fun _ intact => intact) fun leases => ?_
  split
  · exact .done _
  · exact keep_next (.aside trivial) fun _ => .done _

theorem syncFileNow_keeps : Keeps (F := F) known path data (manager.syncFileNow path) := by
  refine Keeps.bind (condForUpload_keeps path) fun cond => ?_
  refine Keeps.bind (uploadWithCond_keeps manager path cond) fun result => ?_
  rcases result with e | etag
  · dsimp only
    split
    · unfold handleUploadConflict
      split
      · refine Keeps.bind (uploadWithCond_keeps manager path .none) fun result => ?_
        rcases result with e | etag <;> exact .done _
      · exact Keeps.bind (conflict_keeps path) fun _ => .done _
    · exact .done _
  · exact .done _

theorem writeNow_keeps (change : F → F) : Keeps (F := F) False path data ((Call.writeNow path change).task manager) := by
  have push : Keeps (F := F) False path data (manager.syncFileNow path >>= fun _ => .done ()) :=
    Keeps.bind (syncFileNow_keeps manager path) fun _ => .done _
  exact keep_next (.change id) fun _ => push

theorem flushLease_keeps {lease : WriteLease} (intact : lease.pendingDelete = false) :
    Keeps (F := F) known path data (manager.flushLease path lease) := by
  unfold flushLease
  rw [if_neg (by simp [intact])]
  split
  · exact .done _
  refine Keeps.bind (uploadWithCond_keeps manager path _) fun result => ?_
  rcases result with e | etag
  · dsimp only
    split
    · exact Keeps.bind (conflict_keeps path) fun _ => .done _
    · exact .done _
  · exact .done _

/-- A look at the entry, which is intact. -/
theorem leases_next {change : LeaseTable → LeaseTable} {k : LeaseTable → Task F A}
    (keeps : ∀ table, Intact path table → Intact path (change table))
    (rest : ∀ table, Intact path table → Keeps known path data (k table)) : Keeps known path data (next (.leases change) k) :=
  fun _ both => both_next (.leases keeps) both fun t _ u here both => rest t.manager.leases here.intact u both

theorem onFsync_keeps : Keeps (F := F) known path data (manager.onFsync path) := by
  simp only [onFsync, withLeases_bind]
  refine leases_next path (fun _ intact => intact) fun table intact => ?_
  cases found : table.lookup path with
  | none => exact syncFileNow_keeps manager path
  | some lease =>
    dsimp only
    split
    · exact flushLease_keeps manager path (intact lease found)
    · exact .done _

theorem finishRelease_keeps {lease : WriteLease} (intact : lease.pendingDelete = false) :
    Keeps (F := F) known path data (manager.finishRelease path lease) := by
  refine Keeps.bind (flushLease_keeps manager path intact) fun result => ?_
  refine Keeps.bind (.of_only ((release_silent path lease.lockEtag).mono fun op quiet => .aside (quiet_aside op quiet))) fun _ => ?_
  simp only [withLeases_bind]
  refine keep_next (.leases fun table whole lease found => whole lease ?_) fun _ => .done _
  rw [Map.lookup_erase_eq, if_pos rfl] at found
  cases found

theorem onClose_keeps : Keeps (F := F) known path data (manager.onClose path) := by
  simp only [onClose, withLeases_bind]
  refine leases_next path (fun table intact => intact.alter fun lease => ?_) fun table intact => ?_
  · unfold closeEntry
    split <;> rfl
  cases found : table.lookup path with
  | none => exact .done _
  | some lease =>
    dsimp only
    split
    · exact .done _
    · exact finishRelease_keeps manager path (intact lease found)

theorem headAndRefresh_keeps : Keeps (F := F) known path data (headAndRefresh path) := by
  intro s both
  simp only [headAndRefresh, headFile_bind, withCache_bind]
  refine both_next (.aside trivial) both fun t turn u _ both => ?_
  rcases (Snapshot.act turn (.request (.head (fileKey path))) t).1 with e | _ | info
  · exact Keeps.done _ u both
  · exact Keeps.done _ u both
  refine both_next (.aside trivial) both fun t turn u _ both => ?_
  split
  · exact Keeps.done _ u both
  simp only [getFile_bind]
  refine get_next path both (fun e u both => Keeps.done _ u both) (fun u both => Keeps.done _ u both) fun body info u same both => ?_
  refine Keeps.bind (.of_only (storeDownload_keeping path same info)) (fun stored => ?_) u both
  rcases stored with e | _ <;> exact .done _

theorem leaseBase_keeps : Keeps (F := F) known path data (manager.leaseBase path) := by
  have take : Keeps (F := F) known path data (takePending path) := keep_next (.aside trivial) fun _ => .done _
  refine Keeps.bind take fun queued => ?_
  split
  · refine Keeps.bind (condForUpload_keeps path) fun cond => ?_
    refine Keeps.bind (uploadWithCond_keeps manager path cond) fun result => ?_
    rcases result with e | etag
    · dsimp only
      split
      · exact Keeps.bind (conflict_keeps path) fun _ => .done _
      · exact .done _
    · exact .done _
  · exact Keeps.bind (headAndRefresh_keeps path) fun _ => .done _

theorem joinHeld_keeps (rounds : Nat) : Keeps (F := F) known path data (joinHeld path rounds) := by
  induction rounds with
  | zero => exact fun _ _ _ _ => trivial
  | succ rounds ih =>
    simp only [joinHeld, withLeases_bind]
    refine keep_next (alter_keeping fun lease => by split <;> rfl) fun table => ?_
    split
    · exact .done _
    · split
      · exact keep_next (.aside trivial) fun _ => keep_next (.aside trivial) fun _ => ih
      · exact .done _

theorem onOpenWrite_keeps (rounds : Nat) : Keeps (F := F) known path data (manager.onOpenWrite rounds path) := by
  have silent {B : Type} {task : Task F B} (silent : Silent task) : Keeps known path data task :=
    .of_only (silent.mono fun op quiet => .aside (quiet_aside op quiet))
  unfold onOpenWrite
  split
  · exact .done _
  refine Keeps.bind (joinHeld_keeps path rounds) fun joined => ?_
  split
  · exact .done _
  refine Keeps.bind (silent (acquire_silent _ _ _ _)) fun result => ?_
  rcases result with e | acquired
  · exact .done _
  simp only [pinLease, withLeases_bind]
  refine keep_next (alter_keeping fun _ => rfl) fun table => ?_
  split
  · exact Keeps.bind (silent (release_silent _ _)) fun _ => .done _
  refine Keeps.bind (leaseBase_keeps manager path) fun base => ?_
  rcases base with e | base
  · exact Keeps.bind (silent (release_silent _ _)) fun _ => .done _
  · refine keep_next (.leases fun table intact lease found => ?_) fun _ => .done _
    rw [Map.lookup_insert_eq, if_pos rfl] at found
    cases found
    rfl

end

end
end MonakaFs.Sync.Realtime
