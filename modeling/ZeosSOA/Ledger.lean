import Mathlib.Algebra.BigOperators.Group.Finset.Piecewise

/-!
# Books of time

An account is opened at one reading of a clock and charged at later ones. Each charge puts the time
since the reading before to one counter, so the intervals between the readings are counted once
each: together the counters hold the time from the first reading to the last (`sum_charged`).
-/

namespace Ledger

/-- An account: the reading it starts with, and the later ones, each with the counter it is charged to. -/
structure Book (γ α : Type) where
  start : α
  readings : List (γ × α)

section
variable {γ α : Type}

/-- The intervals between the readings from `since` on, each with its counter. -/
def intervals : α → List (γ × α) → List (γ × α × α)
  | _, [] => []
  | since, (c, now) :: rs => (c, since, now) :: intervals now rs

def lastReading : α → List (γ × α) → α
  | since, [] => since
  | _, (_, now) :: rs => lastReading now rs

theorem lastReading_append (c : γ) (now : α) : ∀ (since : α) (rs : List (γ × α)),
    lastReading since (rs ++ [(c, now)]) = now
  | _, [] => rfl
  | _, (_, i) :: rs => lastReading_append c now i rs

theorem intervals_append (c : γ) (now : α) : ∀ (since : α) (rs : List (γ × α)),
    intervals since (rs ++ [(c, now)]) = intervals since rs ++ [(c, lastReading since rs, now)]
  | _, [] => rfl
  | since, (d, i) :: rs => congrArg ((d, since, i) :: ·) (intervals_append c now i rs)

variable [AddCommGroup α] [DecidableEq γ]

/-- The lengths of the intervals of one counter. -/
def chargedTo (c : γ) (since : α) (rs : List (γ × α)) : α :=
  ((intervals since rs).map fun i => if i.1 = c then i.2.2 - i.2.1 else 0).sum

theorem chargedTo_append (c d : γ) (since now : α) (rs : List (γ × α)) : chargedTo c since (rs ++ [(d, now)]) =
    chargedTo c since rs + if d = c then now - lastReading since rs else 0 := by
  simp [chargedTo, intervals_append]

theorem sum_chargedTo [Fintype γ] : ∀ (since : α) (rs : List (γ × α)),
    ∑ c : γ, chargedTo c since rs = lastReading since rs - since
  | since, [] => by simp [chargedTo, intervals, lastReading]
  | since, (d, now) :: rs => by
    have hcons : ∀ c, chargedTo c since ((d, now) :: rs) = (if d = c then now - since else 0) + chargedTo c now rs :=
      fun _ => rfl
    simp only [hcons, Finset.sum_add_distrib, Finset.sum_ite_eq, Finset.mem_univ, if_true, lastReading]
    rw [sum_chargedTo now rs, sub_add_sub_cancel']

namespace Book

def charge (b : Book γ α) (c : γ) (now : α) : Book γ α := { b with readings := b.readings ++ [(c, now)] }

def last (b : Book γ α) : α := lastReading b.start b.readings

def charged (b : Book γ α) (c : γ) : α := chargedTo c b.start b.readings

omit [AddCommGroup α] [DecidableEq γ] in
@[simp] theorem charge_start (b : Book γ α) (c : γ) (now : α) : (b.charge c now).start = b.start := rfl

omit [AddCommGroup α] [DecidableEq γ] in
@[simp] theorem charge_last (b : Book γ α) (c : γ) (now : α) : (b.charge c now).last = now :=
  lastReading_append c now b.start b.readings

theorem charge_charged (b : Book γ α) (c d : γ) (now : α) :
    (b.charge d now).charged c = b.charged c + if d = c then now - b.last else 0 :=
  chargedTo_append c d b.start now b.readings

/-- No interval is counted twice or dropped. -/
theorem sum_charged [Fintype γ] (b : Book γ α) : ∑ c : γ, b.charged c = b.last - b.start :=
  sum_chargedTo b.start b.readings

end Book

end

end Ledger
