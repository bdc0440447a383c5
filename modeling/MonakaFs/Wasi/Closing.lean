import MonakaFs.Wasi.Borrowed
import MonakaFs.Wasi.Registered

/-! How descriptors end.

A descriptor lives as long as it or one of its streams is held. When it or a stream is
dropped, the registry counts the streams that are left, and gives the server descriptor to
be closed exactly when nobody holds any of them.
-/

set_option autoImplicit false

namespace MonakaFs.Wasi.RpcAdapter

open FsCore Fs

namespace Adapter

variable (adapter : Adapter)

def number (i : Nat) : Nat := ((adapter.descriptors i).map (·.handle)).getD 0

def fdOf (i : Nat) : Fd := ((adapter.descriptors i).bind (·.fd)).getD 0

/-- Somebody holds an opened descriptor, or one of its streams. -/
def Lives (i : Nat) : Prop := ∃ d, adapter.descriptors i = some d ∧ d.fd.isSome ∧
  (d.held = true ∨ ∃ k cell, adapter.streams k = some cell ∧ cell.opener = i ∧ cell.held = true)

def Waits (i : Nat) : Prop := ∃ d, adapter.descriptors i = some d ∧ d.held = false

end Adapter

/-- A stream is flushed to the server descriptor that the registry knows, and only then something is closed. -/
def FlushesBefore (before : Adapter) (cell : StreamCell) (after : Adapter) : Prop :=
  ∃ fd flushes closes, before.state.descriptorToFd cell.stream.handle = some fd ∧ (before.Lives cell.opener → fd = before.fdOf cell.opener) ∧
    after.sent = before.sent ++ flushes ++ closes ∧ Flushes cell.stream fd flushes ∧ ∀ request ∈ closes, ∃ fd, request = .close fd

/-! ### What holds between events -/

/-- The registry lists the streams that are held under the number of their descriptor. -/
structure Listed (adapter : Adapter) : Prop where
  opened : ∀ k cell, adapter.streams k = some cell → ∃ d, adapter.descriptors cell.opener = some d ∧ d.handle = cell.stream.handle
  strong : ∀ k cell, adapter.streams k = some cell → cell.strong = if cell.held then 1 else 0
  listed : ∀ k cell, adapter.streams k = some cell → cell.held = true →
    ∃ v, adapter.state.liveStreams cell.stream.handle = some v ∧ k ∈ v
  refers : ∀ d v k, adapter.state.liveStreams d = some v → k ∈ v → ∃ cell, adapter.streams k = some cell ∧ cell.stream.handle = d
  roots : ∀ i d, adapter.descriptors i = some d → d.fd = none → d.handle = 0
  streamsMade : ∀ k, adapter.streamCount ≤ k → adapter.streams k = none
  descriptorsMade : ∀ i, adapter.descriptorCount ≤ i → adapter.descriptors i = none

structure Tracked (adapter : Adapter) : Prop where
  registered : Registered adapter.state adapter.number adapter.fdOf adapter.Lives adapter.Waits
  listed : Listed adapter

section
variable {server : Answers} {adapter before after : Adapter} {i k : Nat} {cell : StreamCell}

theorem start_tracked (version : Nat) : Tracked (.start version) where
  registered := by
    refine ⟨fun i lives => ?_, fun i j lives => ?_, fun d => ?_, fun d apart mentions => ?_, fun fd d there => ?_, rfl⟩
    · obtain ⟨d, none, -⟩ := lives
      cases none
    · obtain ⟨d, none, -⟩ := lives
      cases none
    · refine iff_of_false (Finset.notMem_empty d) ?_
      rintro ⟨i, ⟨d, none, -⟩, -⟩
      cases none
    · rcases mentions with known | ⟨fd, back⟩ | flags | streams | waits
      · simp [Adapter.start, RpcState.new, Function.update_of_ne apart] at known
      · simp only [Adapter.start, RpcState.new, Function.update_apply] at back
        split at back
        · exact absurd (Option.some.inj back).symm apart
        · cases back
      · cases flags
      · cases streams
      · exact absurd waits (Finset.notMem_empty d)
    · simp only [Adapter.start, RpcState.new, Function.update_apply] at there ⊢
      split at there
      · next same =>
        rw [← Option.some.inj there, if_pos rfl, same]
      · cases there
  listed := by
    constructor
    · intro k cell none
      cases none
    · intro k cell none
      cases none
    · intro k cell none
      cases none
    · intro d v k none
      cases none
    · intro i d none
      cases none
    · exact fun _ _ => rfl
    · exact fun _ _ => rfl

/-- Nothing that the registry is about has changed. -/
theorem Borrowed.lives (borrowed : Borrowed [] before after) (i : Nat) : after.Lives i ↔ before.Lives i := by
  unfold Adapter.Lives
  rw [borrowed.descriptors]
  refine exists_congr fun d => and_congr_right fun _ => and_congr_right fun _ => or_congr_right ?_
  constructor
  · rintro ⟨k, cell', there, rfl, held⟩
    obtain ⟨cell, found, same⟩ := borrowed.known k cell' there
    exact ⟨k, cell, found, same.opener.symm, same.held.symm.trans held⟩
  · rintro ⟨k, cell, there, rfl, held⟩
    obtain ⟨cell', found, same⟩ := borrowed.kept k cell there
    exact ⟨k, cell', found, same.opener, same.held.trans held⟩

theorem Borrowed.names (borrowed : Borrowed [] before after) :
    after.number = before.number ∧ after.fdOf = before.fdOf ∧ after.Waits = before.Waits := by
  refine ⟨?_, ?_, ?_⟩ <;> funext i
  · rw [Adapter.number, Adapter.number, borrowed.descriptors]
  · rw [Adapter.fdOf, Adapter.fdOf, borrowed.descriptors]
  · rw [Adapter.Waits, Adapter.Waits, borrowed.descriptors]

theorem Listed.borrowed (listed : Listed before) (borrowed : Borrowed [] before after) : Listed after where
  opened k cell' there := by
    obtain ⟨cell, found, same⟩ := borrowed.known k cell' there
    rw [borrowed.descriptors, same.opener, same.handle]
    exact listed.opened k cell found
  strong k cell' there := by
    obtain ⟨cell, found, same⟩ := borrowed.known k cell' there
    rw [same.strong, same.held]
    exact listed.strong k cell found
  listed k cell' there held := by
    obtain ⟨cell, found, same⟩ := borrowed.known k cell' there
    rw [borrowed.state, same.handle]
    exact listed.listed k cell found (same.held.symm.trans held)
  refers d v k there within := by
    rw [borrowed.state] at there
    obtain ⟨cell, found, handle⟩ := listed.refers d v k there within
    obtain ⟨cell', still, same⟩ := borrowed.kept k cell found
    exact ⟨cell', still, same.handle.trans handle⟩
  roots := by
    rw [borrowed.descriptors]
    exact listed.roots
  streamsMade k beyond := by
    rw [borrowed.streamCount] at beyond
    cases there : after.streams k with
    | none => rfl
    | some cell' =>
      obtain ⟨cell, found, -⟩ := borrowed.known k cell' there
      rw [listed.streamsMade k beyond] at found
      cases found
  descriptorsMade := by
    rw [borrowed.descriptorCount, borrowed.descriptors]
    exact listed.descriptorsMade

theorem Tracked.borrowed (tracked : Tracked before) (borrowed : Borrowed [] before after) : Tracked after where
  registered := by
    obtain ⟨numbers, fds, waits⟩ := borrowed.names
    rw [borrowed.state, numbers, fds, waits, show after.Lives = before.Lives from funext fun i => propext (borrowed.lives i)]
    exact tracked.registered
  listed := tracked.listed.borrowed borrowed

/-! ### Streams of a descriptor -/

theorem number_eq {d : OpenDescriptor} (there : adapter.descriptors i = some d) : adapter.number i = d.handle := by
  rw [Adapter.number, there]
  rfl

/-- The streams that the registry counts for a descriptor are its own. -/
theorem count_pos_iff {kept waits : Nat → Prop} (listed : Listed adapter)
    (registered : Registered adapter.state adapter.number adapter.fdOf kept waits) (covers : ∀ j, adapter.Lives j → kept j) (here : kept i) :
    0 < adapter.state.liveStreamCount adapter.streams (adapter.number i) ↔
      ∃ k cell, adapter.streams k = some cell ∧ cell.opener = i ∧ cell.held = true := by
  unfold RpcState.liveStreamCount RpcState.liveStreamsFor
  rw [List.length_pos_iff_exists_mem]
  constructor
  · rintro ⟨k, within⟩
    obtain ⟨within, strong⟩ := List.mem_filter.mp within
    have strong := of_decide_eq_true strong
    cases known : adapter.state.liveStreams (adapter.number i) with
    | none =>
      rw [known] at within
      cases within
    | some v =>
      rw [known] at within
      obtain ⟨cell, there, handle⟩ := listed.refers _ v k known within
      have held : cell.held = true := by
        rw [Streams.strongCount, there, Option.map_some, Option.getD_some, listed.strong k cell there] at strong
        by_contra gone
        rw [if_neg gone] at strong
        exact Nat.lt_irrefl 0 strong
      obtain ⟨d, opener, same⟩ := listed.opened k cell there
      have fd : d.fd.isSome := by
        cases none : d.fd with
        | some fd => rfl
        | none => exact absurd (handle.symm.trans (same.symm.trans (listed.roots _ d opener none))) (registered.known i here).1
      have lives : adapter.Lives cell.opener := ⟨d, opener, fd, .inr ⟨k, cell, there, rfl, held⟩⟩
      -- The opener of the stream has the same number, and numbers are unique while they live.
      exact ⟨k, cell, there, registered.apart _ i (covers _ lives) here ((number_eq opener).trans (same.trans handle)), held⟩
  · rintro ⟨k, cell, there, rfl, held⟩
    obtain ⟨d, opener, same⟩ := listed.opened k cell there
    obtain ⟨v, known, within⟩ := listed.listed k cell there held
    rw [number_eq opener, same, known]
    refine ⟨k, List.mem_filter.mpr ⟨within, decide_eq_true ?_⟩⟩
    rw [Streams.strongCount, there, Option.map_some, Option.getD_some, listed.strong k cell there, if_pos held]
    exact Nat.one_pos

theorem retainLive_count (state : RpcState) (streams : Streams) (d : Nat) :
    (state.retainLive streams d).liveStreamCount streams d = state.liveStreamCount streams d := by
  unfold RpcState.retainLive RpcState.liveStreamCount RpcState.liveStreamsFor
  cases known : state.liveStreams d with
  | none => rw [known]
  | some v =>
    dsimp only
    rw [Function.update_self, Option.getD_some, Option.getD_some, List.filter_filter]
    simp only [Bool.and_self]

/-- Descriptors and streams are listed as before, if no list loses a stream that is held. -/
theorem Listed.relist (listed : Listed adapter) {state : RpcState}
    (fewer : ∀ d v, state.liveStreams d = some v → ∃ w, adapter.state.liveStreams d = some w ∧ ∀ k ∈ v, k ∈ w)
    (enough : ∀ k cell w, adapter.streams k = some cell → cell.held = true → adapter.state.liveStreams cell.stream.handle = some w → k ∈ w →
      ∃ v, state.liveStreams cell.stream.handle = some v ∧ k ∈ v) : Listed { adapter with state := state } := by
  refine { listed with listed := fun k cell there held => ?_, refers := fun d v k there within => ?_ }
  · obtain ⟨w, known, within⟩ := listed.listed k cell there held
    exact enough k cell w there held known within
  · obtain ⟨w, known, more⟩ := fewer d v there
    exact listed.refers d w k known (more k within)

theorem retainLive_listed (listed : Listed adapter) (d : Nat) :
    Listed { adapter with state := adapter.state.retainLive adapter.streams d } := by
  unfold RpcState.retainLive
  cases known : adapter.state.liveStreams d with
  | none => exact listed
  | some w =>
    refine listed.relist (fun e v there => ?_) fun k cell v there held found within => ?_
    · dsimp only at there
      by_cases same : e = d
      · rw [same, Function.update_self] at there
        cases there
        exact ⟨w, by rw [same]; exact known, fun k within => List.mem_of_mem_filter within⟩
      · rw [Function.update_of_ne same] at there
        exact ⟨v, there, fun k within => within⟩
    · dsimp only
      by_cases same : cell.stream.handle = d
      · rw [same, known] at found
        cases found
        refine ⟨_, by rw [same, Function.update_self], List.mem_filter.mpr ⟨within, decide_eq_true ?_⟩⟩
        rw [Streams.strongCount, there, Option.map_some, Option.getD_some, listed.strong k cell there, if_pos held]
        exact Nat.one_pos
      · exact ⟨v, by rw [Function.update_of_ne same]; exact found, within⟩

/-- A descriptor that has no streams is forgotten with its list. -/
theorem release_listed (listed : Listed adapter) {d : Nat} (alone : ∀ k cell, adapter.streams k = some cell → cell.held = true → cell.stream.handle ≠ d) :
    Listed { adapter with state := (adapter.state.release d).2 } := by
  unfold RpcState.release
  cases adapter.state.descriptorToFd d with
  | none => exact listed
  | some fd =>
    refine listed.relist (fun e v there => ?_) fun k cell v there held found within => ?_
    · dsimp only at there
      by_cases same : e = d
      · rw [same, Function.update_self] at there
        cases there
      · rw [Function.update_of_ne same] at there
        exact ⟨v, there, fun k within => within⟩
    · exact ⟨v, by dsimp only; rw [Function.update_of_ne (alone k cell there held)]; exact found, within⟩

/-! ### The end of a descriptor -/

/-- What an event has done, and the descriptor that it ended. -/
structure Ended (before : Adapter) (ended : Option Nat) (after : Adapter) : Prop where
  tracked : Tracked after
  sent : ∃ newly, after.sent = before.sent ++ newly ∧ closesOf newly = ended.toList.map before.fdOf
  ends : ∀ i, before.Lives i ∧ ¬ after.Lives i ↔ ended = some i

/-- An adapter in which one descriptor may have ended, and the registry does not know yet. -/
structure Closing (i : Nat) (kept waits : Nat → Prop) (adapter : Adapter) : Prop where
  listed : Listed adapter
  registered : Registered adapter.state adapter.number adapter.fdOf kept waits
  here : kept i
  covers : ∀ j, adapter.Lives j → kept j
  only : ∀ j, kept j → j ≠ i → adapter.Lives j ∧ (waits j ↔ adapter.Waits j)

namespace Closing

variable {kept waits : Nat → Prop} (closing : Closing i kept waits adapter)
include closing

theorem count_pos_iff : 0 < adapter.state.liveStreamCount adapter.streams (adapter.number i) ↔
    ∃ k cell, adapter.streams k = some cell ∧ cell.opener = i ∧ cell.held = true :=
  RpcAdapter.count_pos_iff closing.listed closing.registered closing.covers closing.here

/-- The descriptor has ended, and is released. -/
theorem release (over' : ¬ adapter.Lives i) : (adapter.state.release (adapter.number i)).1 = some (adapter.fdOf i) ∧
    Tracked { adapter with state := (adapter.state.release (adapter.number i)).2 } := by
  have fewer (j : Nat) : adapter.Lives j ↔ kept j ∧ j ≠ i :=
    ⟨fun lives => ⟨closing.covers j lives, fun same => over' (same ▸ lives)⟩, fun both => (closing.only j both.1 both.2).1⟩
  obtain ⟨fd, registered⟩ := closing.registered.release closing.here fewer
  have agreed : Registered (adapter.state.release (adapter.number i)).2 adapter.number adapter.fdOf adapter.Lives adapter.Waits :=
    registered.congr (fun _ => .rfl) fun j lives => ⟨rfl, rfl, (closing.only j ((fewer j).mp lives).1 ((fewer j).mp lives).2).2.symm⟩
  refine ⟨fd, agreed, release_listed closing.listed fun k cell there held same => over' ?_⟩
  obtain ⟨d, opener, handle⟩ := closing.listed.opened k cell there
  have some : d.fd.isSome := by
    cases none : d.fd with
    | some fd => rfl
    | none => exact absurd (same.symm.trans (handle.symm.trans (closing.listed.roots _ d opener none))) (closing.registered.known i closing.here).1
  have lives : adapter.Lives cell.opener := ⟨d, opener, some, .inr ⟨k, cell, there, rfl, held⟩⟩
  have this := closing.registered.apart _ i (closing.covers _ lives) closing.here ((number_eq opener).trans (handle.trans same))
  exact this ▸ lives

/-- The descriptor goes on. -/
theorem goesOn (on : adapter.Lives i) (agree : waits i ↔ adapter.Waits i) : Tracked adapter where
  listed := closing.listed
  registered := by
    refine closing.registered.congr (fun j => ⟨closing.covers j, fun kept => ?_⟩) fun j kept => ⟨rfl, rfl, ?_⟩
    · by_cases same : j = i
      · exact same ▸ on
      · exact (closing.only j kept same).1
    · by_cases same : j = i
      · subst same
        exact agree.symm
      · exact (closing.only j kept same).2.symm

end Closing

/-- What a drop leaves of the descriptors: the one that may have ended, or has not. -/
theorem ended_of_only {after : Adapter} (only : ∀ j, before.Lives j → j ≠ i → after.Lives j)
    (here : before.Lives i) : (¬ after.Lives i → ∀ j, before.Lives j ∧ ¬ after.Lives j ↔ some i = some j) ∧
      (after.Lives i → ∀ j, before.Lives j ∧ ¬ after.Lives j ↔ (none : Option Nat) = some j) := by
  constructor
  · intro over' j
    constructor
    · rintro ⟨lived, gone⟩
      by_contra apart
      exact gone (only j lived fun same => apart (congrArg some same.symm))
    · intro same
      cases same
      exact ⟨here, over'⟩
  · intro on j
    refine iff_of_false ?_ fun none => (by cases none)
    rintro ⟨lived, gone⟩
    by_cases same : j = i
    · exact gone (same ▸ on)
    · exact gone (only j lived same)

theorem closesOf_close (fd : Fd) : closesOf [.close fd] = [fd] := rfl

/-! ### The drop of a descriptor -/

/-- Everybody lives on. -/
theorem Ended.nobody (tracked : Tracked after) (sent : ∃ newly, after.sent = before.sent ++ newly ∧ closesOf newly = [])
    (lives : ∀ j, before.Lives j → after.Lives j) : Ended before none after where
  tracked := tracked
  sent := sent
  ends j := iff_of_false (fun both => both.2 (lives j both.1)) fun none => by cases none

theorem Ended.of_borrowed (tracked : Tracked before) (borrowed : Borrowed [] before after) : Ended before none after :=
  .nobody (tracked.borrowed borrowed) borrowed.sent fun j => (borrowed.lives j).mpr

theorem descriptor_eq {d : OpenDescriptor} (held : adapter.descriptor i = some d) : adapter.descriptors i = some d ∧ d.held = true := by
  obtain ⟨there, held⟩ := Option.filter_eq_some_iff.mp held
  exact ⟨there, held⟩

theorem stream_eq (held : adapter.stream k = some cell) : adapter.streams k = some cell ∧ cell.held = true := by
  obtain ⟨there, held⟩ := Option.filter_eq_some_iff.mp held
  exact ⟨there, held⟩

theorem letGo_self (adapter : Adapter) (i : Nat) (d : OpenDescriptor) : (adapter.letGo i d).descriptors i = some { d with held := false } :=
  Function.update_self ..

theorem letGo_of_ne {j : Nat} (d : OpenDescriptor) (apart : j ≠ i) : (adapter.letGo i d).descriptors j = adapter.descriptors j :=
  Function.update_of_ne apart ..

theorem letGo_names {d : OpenDescriptor} (there : adapter.descriptors i = some d) :
    (adapter.letGo i d).number = adapter.number ∧ (adapter.letGo i d).fdOf = adapter.fdOf := by
  refine ⟨?_, ?_⟩ <;> funext j
  · unfold Adapter.number
    by_cases same : j = i
    · rw [same, letGo_self, there]
      rfl
    · rw [letGo_of_ne d same]
  · unfold Adapter.fdOf
    by_cases same : j = i
    · rw [same, letGo_self, there]
      rfl
    · rw [letGo_of_ne d same]

theorem letGo_waits (adapter : Adapter) (i : Nat) (d : OpenDescriptor) (j : Nat) :
    (adapter.letGo i d).Waits j ↔ adapter.Waits j ∨ j = i := by
  unfold Adapter.Waits
  by_cases same : j = i
  · rw [same, letGo_self]
    exact iff_of_true ⟨_, rfl, rfl⟩ (.inr rfl)
  · rw [letGo_of_ne d same, or_iff_left same]

/-- A descriptor that is let go lives on with its streams, and the others as before. -/
theorem letGo_lives {d : OpenDescriptor} (there : adapter.descriptors i = some d) :
    (∀ j, (adapter.letGo i d).Lives j → adapter.Lives j) ∧ (∀ j, adapter.Lives j → j ≠ i → (adapter.letGo i d).Lives j) ∧
      ((adapter.letGo i d).Lives i ↔ d.fd.isSome ∧ ∃ k cell, adapter.streams k = some cell ∧ cell.opener = i ∧ cell.held = true) := by
  have ends : (adapter.letGo i d).Lives i ↔ d.fd.isSome ∧ ∃ k cell, adapter.streams k = some cell ∧ cell.opener = i ∧ cell.held = true := by
    constructor
    · rintro ⟨d', found, fd, held⟩
      cases (letGo_self adapter i d).symm.trans found
      exact ⟨fd, held.resolve_left fun held => by cases held⟩
    · rintro ⟨fd, streams⟩
      exact ⟨_, letGo_self adapter i d, fd, .inr streams⟩
  refine ⟨fun j lives => ?_, fun j lives apart => ?_, ends⟩
  · by_cases same : j = i
    · subst same
      obtain ⟨fd, streams⟩ := ends.mp lives
      exact ⟨d, there, fd, .inr streams⟩
    · obtain ⟨d', found, rest⟩ := lives
      exact ⟨d', (letGo_of_ne d same).symm.trans found, rest⟩
  · obtain ⟨d', found, rest⟩ := lives
    exact ⟨d', (letGo_of_ne d apart).trans found, rest⟩

theorem letGo_listed {d : OpenDescriptor} (listed : Listed adapter) (there : adapter.descriptors i = some d) : Listed (adapter.letGo i d) := by
  refine { listed with opened := fun k cell found => ?_, roots := fun j d' found none => ?_, descriptorsMade := fun j beyond => ?_ }
  · obtain ⟨d', opener, same⟩ := listed.opened k cell found
    by_cases this : cell.opener = i
    · cases there.symm.trans (this ▸ opener)
      exact ⟨{ d with held := false }, this ▸ letGo_self adapter i d, same⟩
    · exact ⟨d', (letGo_of_ne d this).trans opener, same⟩
  · by_cases this : j = i
    · subst this
      cases (letGo_self adapter j d).symm.trans found
      exact listed.roots j d there none
    · exact listed.roots j d' ((letGo_of_ne d this).symm.trans found) none
  · have apart : j ≠ i := by
      rintro rfl
      cases there.symm.trans (listed.descriptorsMade j beyond)
    exact (letGo_of_ne d apart).trans (listed.descriptorsMade j beyond)

/-- A descriptor that was opened has a number other than the root's, as long as it lives. -/
theorem Tracked.opened {d : OpenDescriptor} (tracked : Tracked adapter) (there : adapter.descriptors i = some d) (apart : d.handle ≠ 0) :
    d.fd.isSome := by
  cases none : d.fd with
  | some fd => rfl
  | none => exact absurd (tracked.listed.roots i d there none) apart

theorem Tracked.sendClose (tracked : Tracked adapter) (server : Answers) (fd : Fd) : Tracked (adapter.sendClose server (some fd)) where
  registered := tracked.registered
  listed := { tracked.listed with }

theorem dropDescriptor_ended (tracked : Tracked adapter) (i : Nat) : ∃ ended, Ended adapter ended (adapter.dropDescriptor server i) := by
  unfold Adapter.dropDescriptor
  cases held : adapter.descriptor i with
  | none => exact ⟨none, .of_borrowed tracked (.refl adapter)⟩
  | some d =>
  obtain ⟨there, held⟩ := descriptor_eq held
  obtain ⟨numbers, fds⟩ := letGo_names there
  obtain ⟨covers, only, ends⟩ := letGo_lives there
  have waits := letGo_waits adapter i d
  have listed := letGo_listed tracked.listed there
  dsimp only
  split
  · next root =>
    -- The root has no server descriptor of its own, so that nothing ends.
    have rootless : ¬ adapter.Lives i := fun lives => (tracked.registered.known i lives).1 ((number_eq there).trans root)
    have lives (j : Nat) : (adapter.letGo i d).Lives j ↔ adapter.Lives j :=
      ⟨covers j, fun lives => only j lives fun same => rootless (same ▸ lives)⟩
    have registered := tracked.registered.congr lives fun j lives =>
      ⟨congrFun numbers j, congrFun fds j, (waits j).trans (or_iff_left fun same => rootless (same ▸ lives))⟩
    exact ⟨none, .nobody ⟨registered, listed⟩ ⟨[], (List.append_nil _).symm, rfl⟩ fun j => (lives j).mpr⟩
  next apart =>
  have lives : adapter.Lives i := ⟨d, there, tracked.opened there apart, .inl held⟩
  have closing : Closing i adapter.Lives adapter.Waits (adapter.letGo i d) := by
    refine ⟨listed, ?_, lives, covers, fun j lives apart => ⟨only j lives apart, ?_⟩⟩
    · rw [numbers, fds]
      exact tracked.registered
    · rw [waits, or_iff_left apart]
  have count := closing.count_pos_iff
  obtain ⟨ended, goesOn⟩ := ended_of_only only lives
  rw [← number_eq there, show adapter.number i = (adapter.letGo i d).number i by rw [numbers]]
  unfold RpcState.descriptorDropped
  split
  · next streams =>
    have on := ends.mpr ⟨tracked.opened there apart, count.mp streams⟩
    have waiting : Closing i adapter.Lives (fun j => adapter.Waits j ∨ j = i)
        { adapter.letGo i d with state := { adapter.state with closePending := insert ((adapter.letGo i d).number i) adapter.state.closePending } } :=
      ⟨{ listed with }, closing.registered.wait lives fun _ => .rfl, lives, covers, fun j lives apart => ⟨only j lives apart, (waits j).symm⟩⟩
    exact ⟨none, waiting.goesOn on (waits i).symm, ⟨[], (List.append_nil _).symm, rfl⟩, goesOn on⟩
  · next alone =>
    have gone : ¬ (adapter.letGo i d).Lives i := fun lives => alone (count.mpr (ends.mp lives).2)
    obtain ⟨closed, tracked⟩ := closing.release gone
    rw [closed]
    exact ⟨some i, tracked.sendClose server _, ⟨[.close _], rfl, by rw [closesOf_close, fds]; rfl⟩, ended gone⟩

/-! ### The drop of a stream -/

/-- A stream without an owner and without references. -/
def Adapter.dropped (adapter : Adapter) (k : Nat) (cell : StreamCell) : Adapter := adapter.setStream k { cell with strong := 0, held := false }

theorem setStream_self (adapter : Adapter) (k : Nat) (cell : StreamCell) : (adapter.setStream k cell).streams k = some cell :=
  Function.update_self ..

theorem setStream_twice (adapter : Adapter) (k : Nat) (cell cell' : StreamCell) :
    (adapter.setStream k cell).setStream k cell' = adapter.setStream k cell' := by
  unfold Adapter.setStream
  dsimp only
  rw [Function.update_idem]

theorem dropped_self (adapter : Adapter) (k : Nat) (cell : StreamCell) :
    (adapter.dropped k cell).streams k = some { cell with strong := 0, held := false } := Function.update_self ..

theorem dropped_of_ne {j : Nat} (cell : StreamCell) (apart : j ≠ k) : (adapter.dropped k cell).streams j = adapter.streams j :=
  Function.update_of_ne apart ..

theorem dropped_listed (listed : Listed adapter) (there : adapter.streams k = some cell) : Listed (adapter.dropped k cell) := by
  refine { listed with opened := fun j cell' found => ?_, strong := fun j cell' found => ?_, listed := fun j cell' found held => ?_, refers := fun d v j known within => ?_, streamsMade := fun j beyond => ?_ }
  · by_cases same : j = k
    · subst same
      cases (dropped_self adapter j cell).symm.trans found
      exact listed.opened j cell there
    · exact listed.opened j cell' ((dropped_of_ne cell same).symm.trans found)
  · by_cases same : j = k
    · subst same
      cases (dropped_self adapter j cell).symm.trans found
      rfl
    · exact listed.strong j cell' ((dropped_of_ne cell same).symm.trans found)
  · by_cases same : j = k
    · subst same
      cases (dropped_self adapter j cell).symm.trans found
      cases held
    · exact listed.listed j cell' ((dropped_of_ne cell same).symm.trans found) held
  · obtain ⟨cell', found, handle⟩ := listed.refers d v j known within
    by_cases same : j = k
    · subst same
      cases there.symm.trans found
      exact ⟨_, dropped_self adapter j cell, handle⟩
    · exact ⟨cell', (dropped_of_ne cell same).trans found, handle⟩
  · have apart : j ≠ k := by
      rintro rfl
      cases there.symm.trans (listed.streamsMade j beyond)
    exact (dropped_of_ne cell apart).trans (listed.streamsMade j beyond)

/-- Only the descriptor of the stream may end with it. -/
theorem dropped_lives (there : adapter.streams k = some cell) :
    (∀ j, (adapter.dropped k cell).Lives j → adapter.Lives j) ∧ (∀ j, adapter.Lives j → j ≠ cell.opener → (adapter.dropped k cell).Lives j) := by
  constructor
  · rintro j ⟨d, opened, fd, held | ⟨l, cell', found, rfl, held⟩⟩
    · exact ⟨d, opened, fd, .inl held⟩
    refine ⟨d, opened, fd, .inr ?_⟩
    by_cases same : l = k
    · subst same
      cases (dropped_self adapter l cell).symm.trans found
      cases held
    · exact ⟨l, cell', (dropped_of_ne cell same).symm.trans found, rfl, held⟩
  · rintro j ⟨d, opened, fd, held | ⟨l, cell', found, rfl, held⟩⟩ apart
    · exact ⟨d, opened, fd, .inl held⟩
    refine ⟨d, opened, fd, .inr ⟨l, cell', (dropped_of_ne cell fun same => apart ?_).trans found, rfl, held⟩⟩
    subst same
    cases there.symm.trans found
    rfl

theorem Listed.dropStream_eq (listed : Listed adapter) (held : adapter.stream k = some cell) :
    adapter.dropStream server k = (adapter.dropped k cell).streamGone server k cell.stream.handle := by
  obtain ⟨there, owned⟩ := stream_eq held
  have strong := listed.strong k cell there
  rw [if_pos owned] at strong
  unfold Adapter.dropStream Adapter.dropRc
  rw [held]
  dsimp only
  rw [setStream_self]
  dsimp only
  rw [strong, if_pos rfl, setStream_twice]
  rfl

theorem Flushes.closes {fd : Fd} {stream : FileOutputStream} {requests : List Rpc.Request} (flushes : Flushes stream fd requests) :
    closesOf requests = [] := by
  cases flushes <;> rfl

/-- The streams of the others are not touched, and nothing else of the registry. -/
theorem retainLive_spec (state : RpcState) (streams : Streams) (d : Nat) : ∃ liveStreams,
    state.retainLive streams d = { state with liveStreams := liveStreams } ∧ ∀ e, (liveStreams e).isSome → (state.liveStreams e).isSome := by
  unfold RpcState.retainLive
  cases known : state.liveStreams d with
  | none => exact ⟨state.liveStreams, rfl, fun _ => id⟩
  | some v =>
    refine ⟨_, rfl, fun e there => ?_⟩
    by_cases same : e = d
    · rw [same, known]
      rfl
    · rw [Function.update_of_ne same] at there
      exact there

namespace Closing

variable {kept waits : Nat → Prop} (closing : Closing i kept waits adapter)
include closing

theorem retained (d : Nat) : Closing i kept waits { adapter with state := adapter.state.retainLive adapter.streams d } := by
  obtain ⟨liveStreams, same, fewer⟩ := retainLive_spec adapter.state adapter.streams d
  refine ⟨retainLive_listed closing.listed d, ?_, closing.here, closing.covers, closing.only⟩
  rw [same]
  exact closing.registered.relist fun e _ there => .inl (fewer e there)

theorem pending_iff : adapter.number i ∈ adapter.state.closePending ↔ waits i := by
  rw [closing.registered.waiting]
  constructor
  · rintro ⟨j, kept, waits, same⟩
    exact closing.registered.apart j i kept closing.here same ▸ waits
  · exact fun waits => ⟨i, closing.here, waits, rfl⟩

/-- The registry is told that a stream is gone. It notices when the descriptor has ended. -/
theorem streamClosed {d : OpenDescriptor} (there : adapter.descriptors i = some d) (opened : d.fd.isSome) (agree : waits i ↔ adapter.Waits i) :
    (adapter.Lives i → (adapter.state.streamClosed adapter.streams (adapter.number i)).1 = none) ∧
      (¬ adapter.Lives i → (adapter.state.streamClosed adapter.streams (adapter.number i)).1 = some (adapter.fdOf i)) ∧
      Tracked { adapter with state := (adapter.state.streamClosed adapter.streams (adapter.number i)).2 } := by
  have retained := closing.retained (adapter.number i)
  have pending := retained.pending_iff
  -- A descriptor lives until its resource is dropped and its last stream is closed.
  have lives : adapter.Lives i ↔ ¬ waits i ∨ 0 < adapter.state.liveStreamCount adapter.streams (adapter.number i) := by
    rw [closing.count_pos_iff, agree]
    constructor
    · rintro ⟨d', found, -, held | streams⟩
      · cases there.symm.trans found
        refine .inl ?_
        rintro ⟨d', found, gone⟩
        cases there.symm.trans found
        cases held.symm.trans gone
      · exact .inr streams
    · rintro (held | streams)
      · exact ⟨d, there, opened, .inl (Bool.not_eq_false _ ▸ fun gone => held ⟨d, there, gone⟩)⟩
      · exact ⟨d, there, opened, .inr streams⟩
  unfold RpcState.streamClosed
  dsimp only
  rw [retainLive_count]
  split
  · next ended =>
    have gone : ¬ adapter.Lives i := by
      rw [lives]
      rintro (held | streams)
      · exact held (pending.mp ended.2)
      · exact absurd ended.1 (Nat.ne_of_gt streams)
    obtain ⟨closed, tracked⟩ := retained.release gone
    exact ⟨fun lives => absurd lives gone, fun _ => closed, tracked⟩
  · next on =>
    have goesOn : adapter.Lives i := by
      rw [lives]
      by_contra neither
      obtain ⟨waits, none⟩ := not_or.mp neither
      exact on ⟨Nat.eq_zero_of_not_pos none, pending.mpr (not_not.mp waits)⟩
    exact ⟨fun _ => rfl, fun gone => absurd goesOn gone, retained.goesOn goesOn agree⟩

end Closing

/-- The root does not wait to be closed. -/
theorem Tracked.streamClosed_root (tracked : Tracked adapter) : (adapter.state.streamClosed adapter.streams 0).1 = none ∧
    Tracked { adapter with state := (adapter.state.streamClosed adapter.streams 0).2 } := by
  obtain ⟨liveStreams, same, fewer⟩ := retainLive_spec adapter.state adapter.streams 0
  have listed := retainLive_listed tracked.listed 0
  have never : 0 ∉ (adapter.state.retainLive adapter.streams 0).closePending := by
    rw [same, tracked.registered.waiting]
    rintro ⟨j, lives, -, root⟩
    exact (tracked.registered.known j lives).1 root
  unfold RpcState.streamClosed
  dsimp only
  rw [if_neg fun both => never both.2]
  refine ⟨rfl, ?_, listed⟩
  rw [same]
  exact tracked.registered.relist fun e _ there => .inl (fewer e there)

theorem dropStream_ended (tracked : Tracked adapter) (held : adapter.stream k = some cell) :
    (∃ ended, Ended adapter ended (adapter.dropStream server k)) ∧ FlushesBefore adapter cell (adapter.dropStream server k) := by
  obtain ⟨there, owned⟩ := stream_eq held
  rw [tracked.listed.dropStream_eq held]
  obtain ⟨covers, only⟩ := dropped_lives there
  obtain ⟨borrowed, sends⟩ := @flushBuffer_spec server _ k _ (dropped_self adapter k cell)
  obtain ⟨d, opener, number⟩ := tracked.listed.opened k cell there
  unfold Adapter.streamGone
  dsimp only
  generalize ((adapter.dropped k cell).flushBuffer server k).2 = flushed at borrowed sends ⊢
  have listed := (dropped_listed tracked.listed there).borrowed borrowed
  obtain ⟨numbers, fds, waits⟩ := borrowed.names
  have lives := borrowed.lives
  have state : flushed.state = adapter.state := borrowed.state
  cases opened : d.fd with
  | none =>
    -- A stream on the root. The root is never closed.
    have root := tracked.listed.roots _ d opener opened
    rw [number] at root
    have rootless : ¬ adapter.Lives cell.opener := by
      rintro ⟨d', found, fd, -⟩
      cases opener.symm.trans found
      rw [opened] at fd
      cases fd
    have same (j : Nat) : flushed.Lives j ↔ adapter.Lives j :=
      (lives j).trans ⟨covers j, fun lives => only j lives fun this => rootless (this ▸ lives)⟩
    have before : Tracked flushed := by
      refine ⟨?_, listed⟩
      rw [state, numbers, fds, waits]
      exact tracked.registered.congr same fun _ _ => ⟨rfl, rfl, .rfl⟩
    obtain ⟨none, after⟩ := before.streamClosed_root
    obtain ⟨fd, known⟩ := Option.isSome_iff_exists.mp tracked.registered.root
    obtain ⟨requests, sent, flushes⟩ := sends fd (by rw [← known, ← root]; rfl)
    rw [root, none]
    exact ⟨⟨Option.none, .nobody after ⟨requests, sent, flushes.closes⟩ fun j => (same j).mpr⟩, fd, requests, [], by rw [root]; exact known,
      fun lives => absurd lives rootless, sent.trans (List.append_nil _).symm, flushes, fun request within => absurd within List.not_mem_nil⟩
  | some fd =>
    have live : adapter.Lives cell.opener := ⟨d, opener, by rw [opened]; rfl, .inr ⟨k, cell, there, rfl, owned⟩⟩
    have closing : Closing cell.opener adapter.Lives adapter.Waits flushed := by
      refine ⟨listed, ?_, live, fun j on => covers j ((lives j).mp on), fun j on apart => ⟨(lives j).mpr (only j on apart), ?_⟩⟩
      · rw [state, numbers, fds]
        exact tracked.registered
      · rw [waits]
        rfl
    have handle : adapter.number cell.opener = cell.stream.handle := (number_eq opener).trans number
    obtain ⟨goesOn, ends, after⟩ := closing.streamClosed (borrowed.descriptors ▸ opener) (by rw [opened]; rfl) (by rw [waits]; rfl)
    rw [numbers, show (adapter.dropped k cell).number = adapter.number from rfl, handle] at goesOn ends after
    have known := (tracked.registered.known _ live).2
    rw [handle] at known
    obtain ⟨requests, sent, flushes⟩ := sends _ known
    obtain ⟨ended, on⟩ := ended_of_only (fun j here apart => (lives j).mpr (only j here apart)) live
    by_cases still : flushed.Lives cell.opener
    · rw [goesOn still]
      exact ⟨⟨none, after, ⟨requests, sent, flushes.closes⟩, on still⟩, _, requests, [], known, fun _ => rfl, sent.trans (List.append_nil _).symm, flushes,
        fun request within => absurd within List.not_mem_nil⟩
    · rw [ends still, fds]
      have closed : closesOf (requests ++ [.close (adapter.fdOf cell.opener)]) = [adapter.fdOf cell.opener] := by
        rw [closesOf_append, flushes.closes, closesOf_close, List.nil_append]
      refine ⟨⟨some cell.opener, after.sendClose server _, ⟨_, (congrArg (· ++ _) sent).trans (List.append_assoc ..), closed⟩, ended still⟩, _, requests,
        [.close (adapter.fdOf cell.opener)], known, fun _ => rfl, congrArg (· ++ _) sent, flushes, fun request within => ⟨_, List.mem_singleton.mp within⟩⟩
end

end MonakaFs.Wasi.RpcAdapter
