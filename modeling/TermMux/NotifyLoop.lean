import TermMux.Machine

/-!
# A loop over a source and a notification that is not stored

In each round the loop makes a wait and then polls it together with a source of messages, the
wait first. A notification wakes the waits that exist when it is given. A wait that a message
got ahead of is kept to the end of its round and never polled again, so a notification that
reaches it then is lost, as is one between two rounds.
-/

set_option autoImplicit false

namespace Term.NotifyLoop
open Term.Machine

inductive Loop where
  /-- No wait exists: before the first round, or between two. -/
  | idle
  | armed (woken : Bool)
  /-- The wait was polled without result and the source is polled now. -/
  | polled (woken : Bool)
  /-- A message is being handled. -/
  | busy (woken : Bool)
  | left
  deriving DecidableEq, Repr

inductive Event where
  | arm
  | poll
  /-- The source has nothing yet. -/
  | park
  | take
  | done
  /-- The source is at its end. -/
  | ended
  /-- Handling a message fails. -/
  | failed
  deriving DecidableEq, Repr

namespace Loop

def step : Loop → Event → Option Loop
  | .idle, .arm => some (.armed false)
  | .armed true, .poll => some .left
  | .armed false, .poll => some (.polled false)
  | .polled woken, .park => some (.armed woken)
  | .polled woken, .take => some (.busy woken)
  | .polled _, .ended => some .left
  | .busy _, .done => some .idle
  | .busy _, .failed => some .left
  | _, _ => none

def notify : Loop → Loop
  | .armed _ => .armed true
  | .polled _ => .polled true
  | .busy _ => .busy true
  | l => l

def leaving : Loop → Bool
  | .armed woken | .polled woken => woken
  | .left => true
  | .idle | .busy _ => false

def listening : Loop → Bool
  | .armed _ | .polled _ | .left => true
  | .idle | .busy _ => false

/-- No message gets ahead of a notification that came during the same poll. -/
def heeds : Loop → Event → Bool
  | .polled woken, .take => !woken
  | _, _ => true

theorem leaving_notify {l : Loop} (h : l.listening = true) : l.notify.leaving = true := by
  cases l <;> first | rfl | cases h

theorem leaving_step {l m : Loop} {e : Event} (h : l.leaving = true) (he : l.heeds e = true)
    (hstep : l.step e = some m) : m.leaving = true := by
  cases l with
  | idle
  | busy woken => cases h
  | left => cases e <;> cases hstep
  | armed woken =>
    cases h
    cases e <;> cases hstep
    rfl
  | polled woken =>
    cases h
    cases e <;> cases hstep
    · rfl
    · cases he
    · rfl

theorem leaving_poll {l m : Loop} (h : l.leaving = true) (hstep : l.step .poll = some m) :
    m = .left := by
  cases l with
  | armed woken =>
    cases h
    cases hstep
    rfl
  | idle
  | polled woken
  | busy woken
  | left => cases hstep

/-- A loop that is not parked at its wait can come to one that is not woken, whether it was
notified or not. -/
theorem misses {l : Loop} (hleft : l ≠ .left) (harmed : ∀ woken, l ≠ .armed woken) :
    ∃ es, (∀ e ∈ es, e ≠ .ended) ∧ run step l es = some (.armed false) := by
  cases l with
  | idle => exact ⟨[.arm],by simp,rfl⟩
  | armed woken => exact absurd rfl (harmed woken)
  | polled woken => exact ⟨[.take,.done,.arm],by simp,rfl⟩
  | busy woken => exact ⟨[.done,.arm],by simp,rfl⟩
  | left => exact absurd rfl hleft

end Loop

end Term.NotifyLoop
