import Mathlib

/-! A machine that takes one event after the other, and what holds at every event of a run. -/

set_option autoImplicit false

namespace MonakaFs.Async

variable {S E : Type} {step : S → E → S} {condition other : S → E → Prop} {inv : S → Prop} {events : List E} {state : S}

/-- A condition on every event of a run, in the state that the event meets. -/
def AtEveryEvent (step : S → E → S) (condition : S → E → Prop) : List E → S → Prop
  | [], _ => True
  | event :: events, state => condition state event ∧ AtEveryEvent step condition events (step state event)

/-- What one event keeps under a condition holds at every event of a run whose events all meet it. -/
theorem AtEveryEvent.holds (met : AtEveryEvent step condition events state)
    (keeps : ∀ state event, condition state event → inv state → inv (step state event)) (start : inv state) :
    AtEveryEvent step (fun state event => inv state ∧ condition state event) events state := by
  induction events generalizing state with
  | nil => trivial
  | cons event events ih => exact ⟨⟨start, met.1⟩, ih met.2 (keeps state event met.1 start)⟩

theorem AtEveryEvent.mono (met : AtEveryEvent step condition events state)
    (weaker : ∀ state event, condition state event → other state event) : AtEveryEvent step other events state := by
  induction events generalizing state with
  | nil => trivial
  | cons event events ih => exact ⟨weaker state event met.1, ih met.2⟩

theorem AtEveryEvent.and (met : AtEveryEvent step condition events state) (also : AtEveryEvent step other events state) :
    AtEveryEvent step (fun state event => condition state event ∧ other state event) events state := by
  induction events generalizing state with
  | nil => trivial
  | cons event events ih => exact ⟨⟨met.1, also.1⟩, ih met.2 also.2⟩

/-- What holds at every event of a run holds at every event of its end. -/
theorem AtEveryEvent.of_append {earlier : List E} (met : AtEveryEvent step condition (earlier ++ events) state) :
    AtEveryEvent step condition events (earlier.foldl step state) := by
  induction earlier generalizing state with
  | nil => exact met
  | cons event earlier ih => exact ih met.2

/-- If events have a property exactly under a condition, as long as `inv` holds, and `inv` is
kept under it, then all events of a run have the property exactly if all meet the condition. -/
theorem atEveryEvent_iff {allowed : E → Prop} (allow : ∀ event ∈ events, allowed event)
    (exactly' : ∀ state event, allowed event → inv state → (other state event ↔ condition state event))
    (keeps : ∀ state event, allowed event → condition state event → inv state → inv (step state event)) (start : inv state) :
    AtEveryEvent step other events state ↔ AtEveryEvent step condition events state := by
  induction events generalizing state with
  | nil => rfl
  | cons event events ih =>
    have known := allow event List.mem_cons_self
    have here := exactly' state event known start
    rw [AtEveryEvent, AtEveryEvent, here]
    refine and_congr_right fun met => ?_
    exact ih (fun event within => allow event (List.mem_cons_of_mem _ within)) (keeps state event known met start)

end MonakaFs.Async
