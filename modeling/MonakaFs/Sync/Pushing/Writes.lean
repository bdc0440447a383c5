import MonakaFs.Sync.Footprint
import MonakaFs.Sync.Pushing.Desk

/-! A write that lands during a push.

The push takes the mark back after its PUT, whatever was written in between. As
long as no write lands in that window and no PUT is rejected, what is not marked
has been pushed, and the last close leaves the object with the local content.
-/

set_option autoImplicit false

namespace MonakaFs.Sync.Pushing

open Async SyncManager LawfulBackend

section
variable [EtagScheme] {T F A : Type} [DecidableEq T] [LawfulBackend F] {path : String} {member : T} {s : Desk T F}
  {post : A → Desk T F → Prop} {stage : Stage} {pushed : Prop}

omit [EtagScheme] [LawfulBackend F] in
theorem aside_stage {op : Op F} (aside : op.Aside) (reply : op.Reply) : stage.next path op reply = stage := by
  cases op with
  | fs call =>
    cases call with
    | statModified name => rfl
    | readFileContent | writeFileContent | loadFile | unlink | mkdirP | rmdir => exact aside.elim
  | request | queue | cache | schedule | now | wake | jitter | arrange => rfl
  | leases | app => exact aside.elim

theorem keeps_aside : (contract (F := F) path member).Keeps (At path member stage pushed) Op.Aside where
  stable known moves := known.rely moves
  waits _ := trivial
  step {op s reply u} aside known effect := by
    obtain ⟨turn, -, -, later, stages⟩ := desk_effect effect.1
    have still : Still path s.state u.state := later ▸ aside_still aside turn s.state
    have same : u.stages = s.stages := by rw [stages, aside_stage aside, Function.update_eq_self]
    have inv := known.inv.still still same
    refine ⟨fun _ => ⟨inv, fun _ _ _ _ agree => still.agree.mpr agree⟩, inv, by rw [same]; exact known.seated, fun so => ?_⟩
    exact ⟨still.agree.mpr (known.agree so).1, (known.agree so).2⟩

theorem aside_next {op : Op F} {k : op.Reply → Task F A} (aside : op.Aside) (known : At path member stage pushed s)
    (rest : ∀ reply u, (∃ t turn, Truthful turn ∧ reply = (Snapshot.act turn op t).1) → At path member stage pushed u →
      (contract path member).Safe post (k reply) u) :
    (contract path member).Safe post (next op k) s := by
  refine Contract.safe_call fun t moves => ⟨trivial, fun reply u effect => ?_⟩
  obtain ⟨guarantee, after⟩ := keeps_aside.step aside (known.rely moves) effect
  obtain ⟨turn, truthful, answer, -⟩ := desk_effect effect.1
  exact ⟨guarantee, rest reply u ⟨t.state, turn, truthful, answer⟩ after⟩

theorem at_return {value : A} (known : At path member stage pushed s) :
    (contract path member).Safe (fun _ u => At path member stage pushed u) (.done value) s :=
  fun _ moves => known.rely moves

theorem write_next {change : F → F} {k : F → Task F A} (known : At path member stage pushed s)
    (rest : ∀ before u, At path member .unmarked False u → (contract path member).Safe post (k before) u) :
    (contract path member).Safe post (next (.app change) k) s := by
  refine desk_next known fun t reply u turn known free _ _ later stages => ?_
  have seated : u.stages member = .unmarked := by rw [stages, Function.update_self]; rfl
  have inv : Inv path u := by
    constructor
    · rw [later]
      exact known.inv.leased
    · exact fun _ _ _ => .inr ⟨member, seated⟩
    · intro other read pushing
      by_cases same : other = member
      · rw [same, seated] at pushing
        cases pushing
      · rw [stages, Function.update_of_ne same] at pushing
        exact absurd pushing (free other read)
  exact ⟨⟨inv, fun other read _ pushing => absurd pushing (free other read)⟩,
    rest reply u ⟨inv, seated, fun none => none.elim⟩⟩

/-- A section under the lock of the lease table. It may take the mark back only after a PUT. -/
theorem section_next {change : LeaseTable → LeaseTable} {k : LeaseTable → Task F A} (known : At path member stage pushed s)
    (entry : ∀ table lease, table.lookup path = some lease → lease.pendingDelete = false →
      ∃ after, (change table).lookup path = some after ∧ after.pendingDelete = false ∧
        (after.dirty = false → pushed ∨ (lease.dirty = false ∧ stage ≠ .unmarked)))
    (rest : ∀ table u lease, table.lookup path = some lease → lease.pendingDelete = false → At path member .out False u →
      (contract path member).Safe post (k table) u) :
    (contract path member).Safe post (next (.leases change) k) s := by
  refine desk_next known fun t reply u turn known _ _ answer later stages => ?_
  obtain ⟨lease, found, pending⟩ := known.inv.leased
  obtain ⟨after, changed, kept, clean⟩ := entry _ lease found pending
  have agree : Agree path u.state ↔ Agree path t.state := by rw [later]; rfl
  have bytes : content u.state.fs path = content t.state.fs path := by rw [later]; rfl
  have lookup : u.state.manager.leases.lookup path = some after := by rw [later]; exact changed
  have seated : u.stages member = .out := by rw [stages, Function.update_self]; rfl
  have inv : Inv path u := by
    refine ⟨⟨after, lookup, kept⟩, fun now present unmarked => ?_, fun other read pushing => ?_⟩
    · rw [lookup] at present
      cases present
      rw [agree]
      -- A clean entry was pushed just now, or was clean before.
      rcases clean unmarked with so | ⟨before, marked⟩
      · exact .inl (known.agree so).1
      rcases known.inv.clean lease found before with same | ⟨other, waiting⟩
      · exact .inl same
      · refine .inr ⟨other, ?_⟩
        have different : other ≠ member := fun same => marked (by rw [← known.seated, ← same]; exact waiting)
        rw [stages, Function.update_of_ne different]
        exact waiting
    · rw [bytes]
      by_cases same : other = member
      · rw [same, seated] at pushing
        cases pushing
      · rw [stages, Function.update_of_ne same] at pushing
        exact known.inv.reads other read pushing
  refine ⟨⟨inv, fun _ _ _ _ same => agree.mpr same⟩, ?_⟩
  cases answer
  exact rest _ u lease found pending ⟨inv, seated, fun none => none.elim⟩

theorem read_next {k : Except S3Error Bytes → Task F A} (known : At path member .out False s)
    (rest : ∀ reply u, (∀ read, reply = .ok read → At path member (.pushing read) False u) →
      (∀ e, reply = .error e → At path member .out False u) → (contract path member).Safe post (k reply) u) :
    (contract path member).Safe post (next (.fs (.readFileContent path)) k) s := by
  refine desk_next known fun t reply u turn known _ _ answer later stages => ?_
  have state : u.state = { t.state with fs := (readFileContent path t.state.fs).2 } := later
  have bytes : content u.state.fs path = content t.state.fs path := by
    rw [state]
    exact congrFun (read_keeps path t.state.fs) path
  have agree : Agree path u.state ↔ Agree path t.state := by
    unfold Agree
    rw [bytes, state]
    rfl
  have lease : u.state.manager.leases = t.state.manager.leases := by rw [state]
  have waiting (other : T) (unmarked : t.stages other = .unmarked) : u.stages other = .unmarked := by
    have different : other ≠ member := by
      rintro rfl
      rw [known.seated] at unmarked
      cases unmarked
    rw [stages, Function.update_of_ne different]
    exact unmarked
  -- Only this member's stage changes: it has read, and pushes what it has read.
  have inv (own : ∀ read, u.stages member = .pushing read → content t.state.fs path = some read) : Inv path u := by
    refine ⟨by rw [lease]; exact known.inv.leased, fun now present clean => ?_, fun other read pushing => ?_⟩
    · rw [lease] at present
      rw [agree]
      exact (known.inv.clean now present clean).imp_right fun ⟨other, unmarked⟩ => ⟨other, waiting other unmarked⟩
    · rw [bytes]
      by_cases same : other = member
      · exact own read (same ▸ pushing)
      · rw [stages, Function.update_of_ne same] at pushing
        exact known.inv.reads other read pushing
  have kept (other : T) (read : Bytes) (_ : other ≠ member) (_ : t.stages other = .pushing read)
      (same : Agree path t.state) : Agree path u.state := agree.mpr same
  rcases reply with e | data
  · have seated : u.stages member = .out := by rw [stages, Function.update_self]; rfl
    have inv := inv fun read pushing => by rw [seated] at pushing; cases pushing
    exact ⟨⟨inv, kept⟩, rest _ u (fun read ok => by cases ok) fun _ _ => ⟨inv, seated, fun none => none.elim⟩⟩
  · have seated : u.stages member = .pushing data := by
      rw [stages, Function.update_self]
      exact if_pos rfl
    have inv := inv fun read pushing => by
      rw [seated] at pushing
      cases pushing
      exact read_ok answer.symm
    exact ⟨⟨inv, kept⟩, rest _ u (fun read ok => by cases ok; exact ⟨inv, seated, fun none => none.elim⟩) fun _ ok => by cases ok⟩

/-- The PUT of what was read. -/
theorem put_next {read : Bytes} {cond : Precondition} {k : Except S3Error String → Task F A}
    (known : At path member (.pushing read) pushed s)
    (rest : ∀ etag u, At path member (.pushing read) True u → (contract path member).Safe post (k (.ok etag)) u) :
    (contract path member).Safe post (next (.request (.put (fileKey path) read cond)) k) s := by
  refine desk_next known fun t reply u turn known passes truthful answer later stages => ?_
  rw [act_request truthful] at answer later
  rcases t.state.store.put_cases (fileKey path) read cond with ⟨-, stored⟩ | ⟨fails, -⟩
  · have same : u.stages = t.stages := by rw [stages]; exact known.seated ▸ Function.update_eq_self ..
    have bytes : content u.state.fs path = content t.state.fs path := by rw [later]
    have lease : u.state.manager.leases = t.state.manager.leases := by rw [later]
    have agree : Agree path u.state := by
      unfold Agree
      rw [bytes, known.inv.reads member read known.seated, object, later]
      show Option.map _ ((t.state.store.put (fileKey path) read cond).2.objects.lookup (fileKey path)) = _
      rw [stored]
      simp only [Map.lookup_insert_eq, if_true, Option.map_some]
    have inv : Inv path u := by
      refine ⟨by rw [lease]; exact known.inv.leased, fun _ _ _ => .inl agree, ?_⟩
      rw [bytes, same]
      exact known.inv.reads
    refine ⟨⟨inv, fun _ _ _ _ _ => agree⟩, ?_⟩
    rw [answer, show (t.state.store.serve (.put (fileKey path) read cond)).1 = .ok (etagFor read) from congrArg Prod.fst stored]
    exact rest _ u ⟨inv, by rw [same]; exact known.seated, fun _ => ⟨agree, read, rfl⟩⟩
  · exact absurd (passes rfl) fails

/-! ### The calls -/

variable (manager : SyncManager)

/-- A request that looks is answered by a store that never fails. -/
theorem look_next {r : Request} {k : r.Answer → Task F A} (looks : r.writes = none) (known : At path member stage pushed s)
    (rest : ∀ value u, At path member stage pushed u → (contract path member).Safe post (k (.ok value)) u) :
    (contract path member).Safe post (next (.request r) k) s := by
  refine aside_next (looks_aside (.request r) looks) known ?_
  rintro reply u ⟨t, turn, truthful, answer⟩ known
  rw [act_request truthful] at answer
  cases r with
  | put | delete => cases looks
  | list | head | get =>
    rw [answer]
    exact rest _ u known

theorem passthroughChecks_safe (known : At path member stage pushed s) :
    (contract path member).Safe (fun result u => result = .ok () ∧ At path member stage pushed u)
      (manager.passthroughChecks (F := F) path) s := by
  have passes {s : Desk T F} (known : At path member stage pushed s) : (contract path member).Safe
      (fun result u => result = .ok () ∧ At path member stage pushed u) (.done (.ok ()) : Task F (Except S3Error Unit)) s :=
    fun _ moves => ⟨rfl, known.rely moves⟩
  unfold passthroughChecks
  split
  · simp only [headFile_bind, headDirMarker_bind, hasChildren_bind]
    exact look_next rfl known fun file u known => look_next rfl known fun dir v known =>
      look_next rfl known fun children w known => passes known
  · exact passes known

theorem putUpload_safe {read : Bytes} (cond : Precondition)
    (known : At path member (.pushing read) pushed s) :
    (contract path member).Safe (fun result u => ∃ etag, result = .ok etag ∧ At path member (.pushing read) True u)
      (putUpload (F := F) path read cond) s := by
  simp only [putUpload, putFile_bind]
  exact put_next known fun etag u known v moves => ⟨etag, rfl, known.rely moves⟩

/-- An upload in a window without writes. It fails only if the local file cannot be read. -/
theorem uploadWithCond_safe (cond : Precondition) (known : At path member .out False s) :
    (contract path member).Safe
      (fun result u => At path member .out False u ∧ ∀ e, result = .error e → isRejection e = false)
      (manager.uploadWithCond (F := F) path cond) s := by
  simp only [uploadWithCond, onFs_bind]
  refine read_next known fun reply u landed failed => ?_
  rcases reply with e | data
  · exact fun _ moves => ⟨(failed e rfl).rely moves, fun _ same => by cases same; rfl⟩
  refine aside_next trivial (landed data rfl) fun modified v _ known => ?_
  refine (passthroughChecks_safe manager known).bind ?_
  rintro passed w ⟨passes, known⟩
  subst passes
  refine (putUpload_safe cond known).bind ?_
  rintro result x ⟨etag, same, known⟩
  subst same
  simp only [recordUpload, withCache_bind, withLeases_bind, instant_bind]
  refine aside_next trivial known fun now u _ known => aside_next trivial known fun cache v _ known => ?_
  refine section_next known (fun table lease found kept => ⟨{ lease with baseEtag := some etag, dirty := false }, ?_, kept,
    fun _ => .inl trivial⟩) fun table w lease _ _ known => fun _ moves => ⟨known.rely moves, fun _ same => by cases same⟩
  rw [Map.lookup_alter, if_pos rfl, found, Option.map_some]

theorem onFsync_safe (known : At path member .out False s) :
    (contract path member).Safe (fun _ u => At path member .out False u) (manager.onFsync (F := F) path) s := by
  simp only [onFsync, withLeases_bind]
  refine section_next known (fun table lease found kept => ⟨lease, found, kept, fun clean => .inr ⟨clean, fun same => by cases same⟩⟩)
    fun table u lease found kept known => ?_
  rw [found]
  dsimp only
  split
  · unfold flushLease
    rw [if_neg (by simp [kept])]
    split
    · exact at_return known
    · refine (uploadWithCond_safe manager _ known).bind ?_
      rintro result v ⟨known, accepted⟩
      rcases result with e | etag
      · simp only [accepted e rfl, Bool.false_eq_true, if_false]
        exact at_return known
      · exact at_return known
  · exact at_return known

theorem write_safe (change : F → F) (known : At path member .out False s) :
    (contract path member).Safe (fun _ u => At path member .out False u) ((Call.write path change).task manager) s := by
  simp only [Call.task, app_bind, enqueueUpload, withLeases_bind]
  refine write_next known fun before u known => ?_
  refine section_next known (fun table lease found kept => ⟨{ lease with dirty := true, pendingDelete := false }, ?_, rfl, fun same => by cases same⟩)
    fun table v lease found kept known => ?_
  · rw [Map.lookup_alter, if_pos rfl, found, Option.map_some]
  · rw [found, Option.isSome_some, if_pos rfl]
    exact at_return known

omit manager in
theorem desk_fits (manager : SyncManager) : tasks.Fits ((deskRules path manager).restrict (Unhindered (T := T) (F := F) path)) (Inv path)
    (contract path) (fun member _ s => At path member .out False s) where
  effect _ := rfl
  kept member op s reply u inv _ guarantee := (guarantee inv).1
  others member op s reply u inv effect guarantee other different := by
    obtain ⟨turn, -, -, -, stages⟩ := desk_effect effect.1
    refine ⟨(congrFun stages other).trans (Function.update_of_ne different _ _), fun _ => ⟨(guarantee inv).1, fun read pushing agree => ?_⟩⟩
    exact (guarantee inv).2 other read different pushing agree
  ambient_kept s t inv moved := inv.still moved.2 moved.1
  ambient s t inv moved member := ⟨congrFun moved.1 member, fun inv => ⟨inv.still moved.2 moved.1, fun _ _ agree => moved.2.agree.mpr agree⟩⟩
  starts member value s p t known starts := by
    obtain ⟨rfl, ⟨change, rfl⟩ | rfl⟩ := starts
    · exact write_safe manager change known
    · exact (onFsync_safe manager known).bind fun _ _ known => at_return known
  starts_kept member value s p t inv _ starts := by
    obtain ⟨rfl, -⟩ := starts
    exact inv
  starts_others member value s p t inv starts other different := by
    obtain ⟨rfl, -⟩ := starts
    exact .refl path other _

/-- No thread has begun, the file is open for write, and what differs from its object is marked. -/
structure Opened (path : String) (config : DeskConfig T F) : Prop where
  idle : ∀ member, config.prog member = .done () ∧ config.shared.stages member = .out
  leased : ∃ lease, config.shared.state.manager.leases.lookup path = some lease ∧ lease.pendingDelete = false ∧
    (lease.dirty = false → Agree path config.shared.state)

theorem settled {first last : DeskConfig T F} (opened : Opened path first)
    (reached : tasks.Reachable ((deskRules path manager).restrict (Unhindered path)) first last)
    (quiet : ∀ member, last.prog member = .done ()) {lease : WriteLease}
    (found : last.shared.state.manager.leases.lookup path = some lease) :
    lease.pendingDelete = false ∧ (lease.dirty = false → Agree path last.shared.state) := by
  obtain ⟨entry, present, kept, clean⟩ := opened.leased
  have start : Inv path first.shared := by
    refine ⟨⟨entry, present, kept⟩, fun now found unmarked => ?_, fun member read pushing => ?_⟩
    · rw [present] at found
      cases found
      exact .inl (clean unmarked)
    · rw [(opened.idle member).2] at pushing
      cases pushing
  have sound := (desk_fits manager).reachable ⟨start, fun member => by
    rw [(opened.idle member).1]
    exact at_return ⟨start, (opened.idle member).2, fun none => none.elim⟩⟩ reached
  have out (member : T) : last.shared.stages member = .out := by
    have safe := sound.2 member
    rw [quiet member] at safe
    exact (safe _ (.refl path member _)).seated
  obtain ⟨before, same, kept⟩ := sound.1.leased
  rw [found] at same
  cases same
  refine ⟨kept, fun unmarked => (sound.1.clean lease found unmarked).resolve_right ?_⟩
  rintro ⟨member, waiting⟩
  rw [out member] at waiting
  cases waiting

end
end MonakaFs.Sync.Pushing
