import MonakaFs.Async.Events
import MonakaFs.Wasi.Closing

/-! When the client closes a descriptor on the server.

In a run in which every open finds an unused number, every descriptor is closed once, when
the last of its streams is gone. The numbers are 32-bit words, and the counter wraps around.
-/

set_option autoImplicit false

namespace MonakaFs.Wasi.RpcAdapter

open FsCore Fs Async

/-- What an event does about closing, once it is over. -/
structure ClosesInTime (before : Adapter) (event : AdapterEvent) (after : Adapter) : Prop where
  /-- The descriptor that ends, if there is one, is closed, and no other. -/
  exactly' : ∃ newly ended, after.sent = before.sent ++ newly ∧ closesOf newly = (ended : Option Nat).toList.map before.fdOf ∧
    ∀ i, before.Lives i ∧ ¬ after.Lives i ↔ ended = some i
  /-- A stream that is dropped is flushed before that. -/
  flushed : ∀ k cell, event = .dropStream k → before.stream k = some cell → FlushesBefore before cell after
  /-- The registry mentions nobody but those that live. -/
  forgotten : ∀ d, d ≠ 0 → after.state.Mentions d → ∃ i, after.Lives i ∧ after.number i = d
section
variable {server : Answers} {adapter before after : Adapter} {i k : Nat} {cell : StreamCell}

/-! ### New descriptors and streams -/

theorem give_self (adapter : Adapter) (d : OpenDescriptor) : (adapter.give d).descriptors adapter.descriptorCount = some d :=
  Function.update_self ..

theorem give_of_ne {j : Nat} (d : OpenDescriptor) (apart : j ≠ adapter.descriptorCount) : (adapter.give d).descriptors j = adapter.descriptors j :=
  Function.update_of_ne apart ..

theorem give_number (adapter : Adapter) (d : OpenDescriptor) :
    (adapter.give d).number = Function.update adapter.number adapter.descriptorCount d.handle := by
  funext j
  unfold Adapter.number
  by_cases same : j = adapter.descriptorCount
  · rw [same, give_self, Function.update_self]
    rfl
  · rw [give_of_ne d same, Function.update_of_ne same]

theorem give_fdOf (adapter : Adapter) (d : OpenDescriptor) :
    (adapter.give d).fdOf = Function.update adapter.fdOf adapter.descriptorCount (d.fd.getD 0) := by
  funext j
  unfold Adapter.fdOf
  by_cases same : j = adapter.descriptorCount
  · rw [same, give_self, Function.update_self]
    rfl
  · rw [give_of_ne d same, Function.update_of_ne same]

theorem Listed.new (listed : Listed adapter) : ¬ adapter.Lives adapter.descriptorCount ∧ ¬ adapter.Waits adapter.descriptorCount := by
  have none := listed.descriptorsMade _ (Nat.le_refl _)
  constructor
  · rintro ⟨d, found, -⟩
    cases none.symm.trans found
  · rintro ⟨d, found, -⟩
    cases none.symm.trans found

theorem Listed.give_lives (listed : Listed adapter) {d : OpenDescriptor} (held : d.held = true) (j : Nat) :
    (adapter.give d).Lives j ↔ adapter.Lives j ∨ j = adapter.descriptorCount ∧ d.fd.isSome := by
  by_cases same : j = adapter.descriptorCount
  · rw [same, or_iff_right listed.new.1]
    constructor
    · rintro ⟨d', found, fd, -⟩
      cases (give_self adapter d).symm.trans found
      exact ⟨rfl, fd⟩
    · rintro ⟨-, fd⟩
      exact ⟨d, give_self adapter d, fd, .inl held⟩
  · rw [or_iff_left fun both => same both.1, Adapter.Lives, give_of_ne d same]
    rfl

theorem Listed.give_waits (listed : Listed adapter) {d : OpenDescriptor} (held : d.held = true) (j : Nat) :
    (adapter.give d).Waits j ↔ adapter.Waits j := by
  by_cases same : j = adapter.descriptorCount
  · rw [same]
    refine iff_of_false ?_ listed.new.2
    rintro ⟨d', found, gone⟩
    cases (give_self adapter d).symm.trans found
    cases held.symm.trans gone
  · rw [Adapter.Waits, give_of_ne d same]
    rfl

theorem Listed.give (listed : Listed adapter) {d : OpenDescriptor} (root : d.fd = none → d.handle = 0) : Listed (adapter.give d) := by
  have none := listed.descriptorsMade _ (Nat.le_refl _)
  refine { listed with opened := fun k cell found => ?_, roots := fun j d' found none => ?_, descriptorsMade := fun j beyond => ?_ }
  · obtain ⟨d', opener, same⟩ := listed.opened k cell found
    exact ⟨d', (give_of_ne d fun this => by cases none.symm.trans (this ▸ opener)).trans opener, same⟩
  · by_cases this : j = adapter.descriptorCount
    · subst this
      cases (give_self adapter d).symm.trans found
      exact root none
    · exact listed.roots j d' ((give_of_ne d this).symm.trans found) none
  · exact (give_of_ne d (Nat.ne_of_gt beyond)).trans (listed.descriptorsMade j (Nat.le_of_succ_le beyond))

theorem getDirectories_ended (tracked : Tracked adapter) : Ended adapter none (adapter.give ⟨0, 0, none, true⟩) := by
  have lives (j : Nat) : (adapter.give ⟨0, 0, none, true⟩).Lives j ↔ adapter.Lives j :=
    (tracked.listed.give_lives rfl j).trans (or_iff_left fun both => by cases both.2)
  refine .nobody ⟨?_, tracked.listed.give fun _ => rfl⟩ ⟨[], (List.append_nil _).symm, rfl⟩ fun j => (lives j).mpr
  refine tracked.registered.congr lives fun j here => ?_
  have old : j ≠ adapter.descriptorCount := fun same => tracked.listed.new.1 (same ▸ here)
  rw [give_number, give_fdOf, Function.update_of_ne old, Function.update_of_ne old]
  exact ⟨rfl, rfl, tracked.listed.give_waits rfl j⟩

theorem openLoop_borrowed (path : String) (flags retries : Nat) (adapter : Adapter) :
    Borrowed [] adapter (Adapter.openLoop server path flags retries adapter).2 := by
  induction retries generalizing adapter with
  | zero =>
    unfold Adapter.openLoop
    rw [expecting_snd]
    exact call_borrowed adapter rfl
  | succ retries ih =>
    have asked := @call_borrowed server adapter (.openPath path flags) rfl
    unfold Adapter.openLoop
    split
    · next busy =>
      rw [busy] at asked
      exact asked.trans (ih _)
    · rw [expecting_snd]
      exact asked

theorem Ended.after_borrowed {ended : Option Nat} {middle : Adapter} (done : Ended middle ended after) (borrowed : Borrowed [] before middle) :
    Ended before ended after where
  tracked := done.tracked
  sent := by
    obtain ⟨newly, sent, none⟩ := borrowed.sent
    obtain ⟨more, also, closes⟩ := done.sent
    refine ⟨newly ++ more, by rw [also, sent, List.append_assoc], ?_⟩
    rw [closesOf_append, none, closes, borrowed.names.2.1]
    rfl
  ends j := by
    rw [← borrowed.lives j]
    exact done.ends j

/-- A number that is not in use is given to a server descriptor. -/
theorem open_ended (tracked : Tracked adapter) (fresh : adapter.state.descriptorToFd adapter.state.nextDescriptor = none) (fd : Fd) (flags : Nat) :
    Ended adapter none ({ adapter with state := (adapter.state.allocateDescriptor fd flags).2 }.give
      ⟨(adapter.state.allocateDescriptor fd flags).1, flags, some fd, true⟩) := by
  have listed : Listed { adapter with state := (adapter.state.allocateDescriptor fd flags).2 } := { tracked.listed with }
  have lives := listed.give_lives (d := ⟨(adapter.state.allocateDescriptor fd flags).1, flags, some fd, true⟩) rfl
  have more (j : Nat) := (lives j).trans (or_congr_right (and_iff_left rfl))
  have allocated := tracked.registered.allocate fresh fd flags tracked.listed.new.1 more tracked.listed.new.2
  refine .nobody ⟨?_, listed.give fun none => by cases none⟩ ⟨[], (List.append_nil _).symm, rfl⟩ fun j live => (lives j).mpr (.inl live)
  rw [give_number, give_fdOf]
  exact allocated.congr (fun _ => .rfl) fun j _ => ⟨rfl, rfl, listed.give_waits rfl j⟩

theorem addStream_self (adapter : Adapter) (cell : StreamCell) : (adapter.addStream cell).streams adapter.streamCount = some cell :=
  Function.update_self ..

theorem addStream_of_ne {j : Nat} (cell : StreamCell) (apart : j ≠ adapter.streamCount) : (adapter.addStream cell).streams j = adapter.streams j :=
  Function.update_of_ne apart ..

theorem addStream_listed (listed : Listed adapter) {d : OpenDescriptor} (there : adapter.descriptors cell.opener = some d)
    (handle : d.handle = cell.stream.handle) (strong : cell.strong = 1) (held : cell.held = true) : Listed (adapter.addStream cell) := by
  -- The number of the new stream is not in use, so that no stream is replaced.
  have none := listed.streamsMade _ (Nat.le_refl _)
  have old {j : Nat} {cell' : StreamCell} (found : adapter.streams j = some cell') : (adapter.addStream cell).streams j = some cell' :=
    (addStream_of_ne cell fun same => by cases none.symm.trans (same ▸ found)).trans found
  have streams : (adapter.addStream cell).state.liveStreams = Function.update adapter.state.liveStreams cell.stream.handle
    (some ((adapter.state.liveStreams cell.stream.handle).getD [] ++ [adapter.streamCount])) := rfl
  refine { listed with opened := fun j cell' found => ?_, strong := fun j cell' found => ?_, listed := fun j cell' found held => ?_, refers := fun e v j known within => ?_, streamsMade := fun j beyond => ?_ }
  · by_cases same : j = adapter.streamCount
    · subst same
      cases (addStream_self adapter cell).symm.trans found
      exact ⟨d, there, handle⟩
    · exact listed.opened j cell' ((addStream_of_ne cell same).symm.trans found)
  · by_cases same : j = adapter.streamCount
    · subst same
      cases (addStream_self adapter cell).symm.trans found
      rw [strong, if_pos held]
    · exact listed.strong j cell' ((addStream_of_ne cell same).symm.trans found)
  · rw [streams]
    by_cases same : j = adapter.streamCount
    · subst same
      cases (addStream_self adapter cell).symm.trans found
      exact ⟨_, Function.update_self .., List.mem_append_right _ (List.mem_singleton_self _)⟩
    obtain ⟨v, known, within⟩ := listed.listed j cell' ((addStream_of_ne cell same).symm.trans found) held
    -- The new stream goes to the end of the list of its handle. The other lists stay.
    by_cases also : cell'.stream.handle = cell.stream.handle
    · rw [also, Function.update_self]
      refine ⟨_, rfl, List.mem_append_left _ ?_⟩
      rw [← also, known]
      exact within
    · rw [Function.update_of_ne also]
      exact ⟨v, known, within⟩
  · rw [streams] at known
    by_cases also : e = cell.stream.handle
    · rw [also, Function.update_self] at known
      cases known
      rcases List.mem_append.mp within with within | last
      · cases known : adapter.state.liveStreams cell.stream.handle with
        | none =>
          rw [known] at within
          cases within
        | some v =>
          rw [known] at within
          obtain ⟨cell', found, same⟩ := listed.refers _ v j known within
          exact ⟨cell', old found, same.trans also.symm⟩
      · rw [List.mem_singleton.mp last]
        exact ⟨cell, addStream_self adapter cell, also.symm⟩
    · rw [Function.update_of_ne also] at known
      obtain ⟨cell', found, same⟩ := listed.refers e v j known within
      exact ⟨cell', old found, same⟩
  · exact (addStream_of_ne cell (Nat.ne_of_gt beyond)).trans (listed.streamsMade j (Nat.le_of_succ_le beyond))

/-- A stream on a descriptor that is held makes nobody live who did not. -/
theorem addStream_lives {d : OpenDescriptor} (fresh : adapter.streams adapter.streamCount = none)
    (held : adapter.descriptor cell.opener = some d) (j : Nat) : (adapter.addStream cell).Lives j ↔ adapter.Lives j := by
  obtain ⟨there, owned⟩ := descriptor_eq held
  constructor
  · rintro ⟨d', found, fd, held | ⟨k, cell', stream, rfl, held⟩⟩
    · exact ⟨d', found, fd, .inl held⟩
    by_cases same : k = adapter.streamCount
    · subst same
      cases (addStream_self adapter cell).symm.trans stream
      cases there.symm.trans found
      exact ⟨d, there, fd, .inl owned⟩
    · exact ⟨d', found, fd, .inr ⟨k, cell', (addStream_of_ne cell same).symm.trans stream, rfl, held⟩⟩
  · rintro ⟨d', found, fd, held | ⟨k, cell', stream, rfl, held⟩⟩
    · exact ⟨d', found, fd, .inl held⟩
    · exact ⟨d', found, fd, .inr ⟨k, cell', (addStream_of_ne cell fun same => by cases fresh.symm.trans (same ▸ stream)).trans stream, rfl, held⟩⟩

theorem openStream_ended {d : OpenDescriptor} (tracked : Tracked adapter) (held : adapter.descriptor i = some d) (offset : Nat) (append : Bool) :
    Ended adapter none (adapter.openStream i d offset append) := by
  obtain ⟨there, owned⟩ := descriptor_eq held
  unfold Adapter.openStream
  split
  · exact .of_borrowed tracked (.refl adapter)
  have lives := @addStream_lives adapter ⟨⟨d.handle, offset, append, []⟩, 1, i, true⟩ d (tracked.listed.streamsMade _ (Nat.le_refl _)) held
  refine .nobody ⟨?_, addStream_listed tracked.listed there rfl rfl rfl⟩ ⟨[], (List.append_nil _).symm, rfl⟩ fun j => (lives j).mpr
  refine (tracked.registered.relist fun e apart there' => ?_).congr lives fun _ _ => ⟨rfl, rfl, .rfl⟩
  by_cases same : e = d.handle
  · exact .inr ⟨i, ⟨d, there, tracked.opened there (same ▸ apart), .inl owned⟩, (number_eq there).trans same.symm⟩
  · rw [Function.update_of_ne same] at there'
    exact .inl there'

end

/-! ### Runs -/

/-- The counter does not stand at a number that is in use when a descriptor is opened. It is a
32-bit word that wraps around. -/
def Fresh (adapter : Adapter) : AdapterEvent → Prop
  | .openAt _ _ _ => adapter.state.descriptorToFd adapter.state.nextDescriptor = none
  | _ => True

section
variable {server : Answers} {retries version : Nat} {adapter : Adapter} {event : AdapterEvent} {events : List AdapterEvent}

theorem openAt_ended (tracked : Tracked adapter) (fresh : adapter.state.descriptorToFd adapter.state.nextDescriptor = none)
    (i : Nat) (path : String) (flags : Nat) : Ended adapter none (adapter.openAt server retries i path flags) := by
  unfold Adapter.openAt
  split
  · exact .of_borrowed tracked (.refl adapter)
  next d held =>
  have asked := @openLoop_borrowed server (if d.handle = 0 then normalizePath path else path) flags retries adapter
  split
  · next failed =>
    rw [failed] at asked
    exact .of_borrowed tracked asked
  next fd later opened =>
    rw [opened] at asked
    exact (open_ended (tracked.borrowed asked) (by rw [asked.state]; exact fresh) fd flags).after_borrowed asked

theorem step_ended (tracked : Tracked adapter) (fresh : Fresh adapter event) : ∃ ended, Ended adapter ended (adapter.step server retries event) := by
  cases event with
  | getDirectories =>
    dsimp only [Adapter.step]
    rw [if_pos tracked.registered.root]
    exact ⟨none, getDirectories_ended tracked⟩
  | openAt i path flags => exact ⟨none, openAt_ended tracked fresh i path flags⟩
  | writeViaStream i offset =>
    dsimp only [Adapter.step]
    split
    · exact ⟨none, .of_borrowed tracked (.refl adapter)⟩
    · next held => exact ⟨none, openStream_ended tracked held offset false⟩
  | appendViaStream i =>
    dsimp only [Adapter.step]
    split
    · exact ⟨none, .of_borrowed tracked (.refl adapter)⟩
    · next held => exact ⟨none, openStream_ended tracked held 0 true⟩
  | streamWrite k contents =>
    dsimp only [Adapter.step]
    split
    · exact ⟨none, .of_borrowed tracked (.refl adapter)⟩
    · next held => exact ⟨none, .of_borrowed tracked (setStream_borrowed (stream_eq held).1 ⟨rfl, rfl, rfl, rfl⟩)⟩
  | sync i =>
    dsimp only [Adapter.step]
    split
    · exact ⟨none, .of_borrowed tracked (.refl adapter)⟩
    · exact ⟨none, .of_borrowed tracked (fsync_borrowed adapter _)⟩
  | dropDescriptor i => exact dropDescriptor_ended tracked i
  | dropStream k =>
    dsimp only [Adapter.step]
    cases held : adapter.stream k with
    | none =>
      have idle : adapter.dropStream server k = adapter := by
        unfold Adapter.dropStream
        rw [held]
      rw [idle]
      exact ⟨none, .of_borrowed tracked (.refl adapter)⟩
    | some cell => exact (dropStream_ended tracked held).1

theorem step_closesInTime (tracked : Tracked adapter) (fresh : Fresh adapter event) :
    ClosesInTime adapter event (adapter.step server retries event) := by
  obtain ⟨ended, after, ⟨newly, sent, closes⟩, ends⟩ := @step_ended server retries adapter event tracked fresh
  refine ⟨⟨newly, ended, sent, closes, ends⟩, fun k cell same held => ?_, after.registered.forgotten⟩
  subst same
  exact (dropStream_ended tracked held).2

/-- In a run in which every open finds an unused number, every descriptor is closed once and in time. -/
theorem closesInTime_of_fresh (fresh : AtEveryEvent (Adapter.step server retries) Fresh events (.start version)) :
    AtEveryEvent (Adapter.step server retries) (fun adapter event => ClosesInTime adapter event (adapter.step server retries event))
      events (.start version) := by
  refine (fresh.holds (fun adapter event fresh tracked => ?_) (start_tracked version)).mono fun adapter event both => step_closesInTime both.1 both.2
  obtain ⟨ended, after⟩ := @step_ended server retries adapter event tracked fresh
  exact after.tracked

/-- A server that opens every file as descriptor 5. -/
def granting : Answers := fun requests =>
  match requests.getLast? with
  | some (.openPath _ _) => .ok (.fd 5)
  | _ => .ok .ok

/-- A descriptor that is dropped before its stream. -/
theorem outlived_closesInTime : AtEveryEvent (Adapter.step granting 0) (fun adapter event => ClosesInTime adapter event (adapter.step granting 0 event))
    [.getDirectories, .openAt 0 "a" 1, .writeViaStream 1 0, .streamWrite 0 [7], .dropDescriptor 1, .dropStream 0] (.start 2) :=
  closesInTime_of_fresh ⟨trivial, rfl, trivial, trivial, trivial, trivial, trivial⟩

end

/-! ### When the counter wraps around -/

/-- Open a file and drop it, several times. The root is descriptor 0 of the owner. -/
def cycles (n : Nat) : List AdapterEvent := (List.range n).flatMap fun i => [.openAt 0 "a" 1, .dropDescriptor (i + 1)]

structure Cycled (n : Nat) (adapter : Adapter) : Prop where
  next : adapter.state.nextDescriptor = (n + 1) % 2 ^ 32
  alone : adapter.streams = fun _ => none
  root : adapter.descriptors 0 = some ⟨0, 0, none, true⟩
  count : adapter.descriptorCount = n + 1

section
variable {n : Nat} {adapter : Adapter}

theorem granting_open (sent : List Rpc.Request) (path : String) (flags : Nat) : granting (sent ++ [Rpc.Request.openPath path flags]) = .ok (.fd 5) := by
  unfold granting
  rw [List.getLast?_concat]

/-- What an open gives. -/
def granted (adapter : Adapter) : Adapter :=
  { adapter with state := (adapter.state.allocateDescriptor 5 1).2, sent := adapter.sent ++ [Rpc.Request.openPath (normalizePath "a") 1] }.give
    ⟨adapter.state.nextDescriptor, 1, some 5, true⟩

theorem Cycled.opened (cycled : Cycled n adapter) : adapter.step granting 0 (.openAt 0 "a" 1) = granted adapter := by
  have held : adapter.descriptor 0 = some ⟨0, 0, none, true⟩ := by
    unfold Adapter.descriptor
    rw [cycled.root]
    rfl
  dsimp only [Adapter.step, Adapter.openAt]
  rw [held]
  dsimp only [Adapter.openLoop, Adapter.call]
  rw [if_pos rfl, granting_open]
  rfl

theorem Cycled.held (cycled : Cycled n adapter) :
    (granted adapter).descriptor (n + 1) = some ⟨adapter.state.nextDescriptor, 1, some 5, true⟩ := by
  have given : (granted adapter).descriptors adapter.descriptorCount = some ⟨adapter.state.nextDescriptor, 1, some 5, true⟩ := give_self _ _
  unfold Adapter.descriptor
  rw [← cycled.count, given]
  rfl

theorem descriptorDropped_next (state : RpcState) (streams : Streams) (d : Nat) :
    (state.descriptorDropped streams d).2.nextDescriptor = state.nextDescriptor := by
  unfold RpcState.descriptorDropped RpcState.release
  split
  · rfl
  split <;> rfl

theorem Cycled.sendClose (cycled : Cycled n adapter) (server : Answers) (fd : Option Fd) : Cycled n (adapter.sendClose server fd) := by
  cases fd with
  | none => exact cycled
  | some fd => exact { cycled with }

/-- As long as the counter does not wrap around, a cycle only takes a number. -/
theorem Cycled.cycle (cycled : Cycled n adapter) (small : n + 1 < 2 ^ 32) :
    Cycled (n + 1) ([.openAt 0 "a" 1, .dropDescriptor (n + 1)].foldl (Adapter.step granting 0) adapter) := by
  rw [List.foldl_cons, List.foldl_cons, List.foldl_nil, cycled.opened]
  have number : adapter.state.nextDescriptor = n + 1 := cycled.next.trans (Nat.mod_eq_of_lt small)
  dsimp only [Adapter.step, Adapter.dropDescriptor]
  rw [cycled.held]
  dsimp only
  rw [if_neg (by rw [number]; exact Nat.succ_ne_zero n)]
  apply Cycled.sendClose
  refine ⟨?_, cycled.alone, ?_, congrArg (· + 1) cycled.count⟩
  · rw [descriptorDropped_next]
    exact congrArg (fun next => (next + 1) % 2 ^ 32) number
  · rw [letGo_of_ne _ (Nat.succ_ne_zero n).symm, granted, give_of_ne]
    · exact cycled.root
    · rw [cycled.count]
      exact (Nat.succ_ne_zero n).symm

theorem cycles_succ (n : Nat) : cycles (n + 1) = cycles n ++ [.openAt 0 "a" 1, .dropDescriptor (n + 1)] := by
  unfold cycles
  rw [List.range_succ, List.flatMap_append, List.flatMap_singleton]

theorem cycles_cycled (version : Nat) (small : n < 2 ^ 32) :
    Cycled n ((cycles n).foldl (Adapter.step granting 0) ((Adapter.start version).step granting 0 .getDirectories)) := by
  induction n with
  | zero => exact ⟨rfl, rfl, rfl, rfl⟩
  | succ n ih =>
    rw [cycles_succ, List.foldl_append]
    exact (ih (Nat.lt_of_succ_lt small)).cycle small

/-- The number 0 is taken for the root's, so that the drop closes nothing. -/
theorem Cycled.wrapped (cycled : Cycled n adapter) (wraps : n + 1 = 2 ^ 32) :
    ¬ ClosesInTime (granted adapter) (.dropDescriptor (n + 1)) ((granted adapter).step granting 0 (.dropDescriptor (n + 1))) := by
  have zero : adapter.state.nextDescriptor = 0 := by rw [cycled.next, wraps, Nat.mod_self]
  dsimp only [Adapter.step, Adapter.dropDescriptor]
  rw [cycled.held]
  dsimp only
  rw [if_pos zero]
  obtain ⟨there, -⟩ := descriptor_eq cycled.held
  intro inTime
  obtain ⟨newly, ended, sent, closes, ends⟩ := inTime.exactly'
  have nothing : newly = [] := List.append_right_eq_self.mp sent.symm
  have lives : (granted adapter).Lives (n + 1) := ⟨_, there, rfl, .inl rfl⟩
  have gone : ¬ ((granted adapter).letGo (n + 1) ⟨adapter.state.nextDescriptor, 1, some 5, true⟩).Lives (n + 1) := by
    rw [(letGo_lives there).2.2]
    rintro ⟨-, k, cell, stream, -⟩
    cases (congrFun cycled.alone k).symm.trans stream
  cases (ends (n + 1)).mp ⟨lives, gone⟩
  rw [nothing] at closes
  cases closes

theorem cycles_fail (version : Nat) (wraps : n + 1 = 2 ^ 32) : ¬ AtEveryEvent (Adapter.step granting 0)
    (fun adapter event => ClosesInTime adapter event (adapter.step granting 0 event))
    (.getDirectories :: (cycles n ++ [.openAt 0 "a" 1, .dropDescriptor (n + 1)])) (.start version) := by
  intro run
  have cycled := @cycles_cycled n version (by omega)
  have last := run.2.of_append.2.1
  rw [cycled.opened] at last
  exact cycled.wrapped wraps last

/-- After 2 ^ 32 - 1 opens the counter stands at 0, the number of the root. -/
theorem wrapped_stays_open : ¬ ∀ server retries version events, AtEveryEvent (Adapter.step server retries)
    (fun adapter event => ClosesInTime adapter event (adapter.step server retries event)) events (.start version) :=
  fun all => @cycles_fail (2 ^ 32 - 1) 2 (by norm_num) (all _ _ _ _)

end

end MonakaFs.Wasi.RpcAdapter
