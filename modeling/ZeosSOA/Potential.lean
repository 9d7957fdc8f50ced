import Mathlib.Algebra.GroupWithZero.Nat
import ZeosSOA.Runs

/-!
# Goals that come nearer

A goal of a run has a distance. Events that `work` take one off it, those that `gain` put at most `k` on it, and no
other makes it longer. A run that works often enough comes to the goal.
-/

namespace Runs

section
variable {σ ε : Type}

/-- Some state of the run, the first and the last one included, is a goal. -/
def Reaches (step : σ → ε → Option σ) (goal : σ → Prop) (s : σ) (es : List ε) : Prop :=
  ∃ fs gs t, es = fs ++ gs ∧ exec step s fs = some t ∧ goal t

variable {step : σ → ε → Option σ} {goal : σ → Prop}

theorem Reaches.start {s : σ} (h : goal s) (es : List ε) : Reaches step goal s es := ⟨[], es, s, rfl, rfl, h⟩

theorem Reaches.cons {s s' : σ} {e : ε} {es : List ε} (hs : step s e = some s') (h : Reaches step goal s' es) :
    Reaches step goal s (e :: es) := by
  obtain ⟨fs, gs, t, rfl, ht, hg⟩ := h
  exact ⟨e :: fs, gs, t, rfl, exec_cons.mpr ⟨s', hs, ht⟩, hg⟩

variable {dist : σ → Nat → Prop} {work gain : ε → Bool} {k : Nat}

/-- The goal is reached, or it is nearer by what the run has worked. -/
theorem reaches_or_nearer (hstep : ∀ s e s' n, dist s n → step s e = some s' → goal s' ∨
      ∃ m, dist s' m ∧ m + (if work e then 1 else 0) ≤ n + if gain e then k else 0)
    {es : List ε} {s s' : σ} {n : Nat} (hd : dist s n) (he : exec step s es = some s') :
    Reaches step goal s es ∨ ∃ m, dist s' m ∧ m + es.countP work ≤ n + k * es.countP gain := by
  induction es generalizing s n with
  | nil =>
    rw [exec_nil] at he
    cases he
    exact .inr ⟨n, hd, Nat.le_refl _⟩
  | cons e es ih =>
    obtain ⟨t, ht, he⟩ := exec_cons.mp he
    rcases hstep s e t n hd ht with hg | ⟨m, hm, hle⟩
    · exact .inl ((Reaches.start hg es).cons ht)
    · rcases ih hm he with hr | ⟨l, hl, hle'⟩
      · exact .inl (hr.cons ht)
      · refine .inr ⟨l, hl, ?_⟩
        rw [List.countP_cons, List.countP_cons, Nat.mul_add]
        split at hle <;> split at hle <;> simp_all <;> omega

theorem reaches_of_work (dist : σ → Nat → Prop) (work gain : ε → Bool) (k : Nat) (hstep : ∀ s e s' n, dist s n → step s e = some s' → goal s' ∨
      ∃ m, dist s' m ∧ m + (if work e then 1 else 0) ≤ n + if gain e then k else 0)
    (hpos : ∀ s n, dist s n → 0 < n) {es : List ε} {s s' : σ} {n : Nat} (hd : dist s n) (he : exec step s es = some s')
    (hwork : n + k * es.countP gain ≤ es.countP work) : Reaches step goal s es := by
  refine (reaches_or_nearer hstep hd he).resolve_right ?_
  rintro ⟨m, hm, hle⟩
  have := hpos s' m hm
  omega

end

end Runs
