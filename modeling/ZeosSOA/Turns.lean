import Mathlib.Algebra.GroupWithZero.Nat
import Mathlib.Data.List.Rotate
import Mathlib.Logic.Function.Iterate
import Mathlib.Tactic.Tauto

/-!
# Taking turns

A round-robin machine over any set of tasks: one task runs, the others wait in a queue, and
the running task has some ticks left of its turn. At the last of them it goes to the end of
the queue, and the first of the queue gets a turn of its own quantum. `turn j` is the task
of the turn `j`, counted from the first switch, and the results say who runs after any
number of ticks.
-/

namespace Turns

structure St (τ : Type) where
  current : τ
  queue : List τ
  left : Nat

section
variable {τ : Type} (quantum : τ → Nat)

def tick (s : St τ) : St τ :=
  if 1 < s.left then { s with left := s.left - 1 }
  else match s.queue with
    | [] => { s with left := quantum s.current }
    | t :: ts => ⟨t, ts ++ [s.current], quantum t⟩

namespace St

/-- The order of the turns: the queue, then the task that runs now. -/
def cycle (s : St τ) : List τ := s.queue ++ [s.current]

def turn (s : St τ) (j : Nat) : τ := (s.cycle.rotate j).headD s.current

def rest (s : St τ) (j : Nat) : List τ := (s.cycle.rotate j).tail

/-- The length of the turns before `j`. -/
def elapsed (s : St τ) (j : Nat) : Nat := ((List.range j).map fun i => quantum (s.turn i)).sum

end St

end

section
variable {τ : Type} {quantum : τ → Nat} {s : St τ}

/-! ## The order of the turns -/

theorem turn_cons_rest (s : St τ) (j : Nat) : s.turn j :: s.rest j = s.cycle.rotate j := by
  unfold St.turn St.rest
  cases h : s.cycle.rotate j with
  | nil =>
    have := congrArg List.length h
    simp [St.cycle] at this
  | cons x xs => rfl

theorem turn_mem (s : St τ) (j : Nat) : s.turn j ∈ s.cycle := by
  rw [← List.mem_rotate (n := j), ← turn_cons_rest]
  exact List.mem_cons_self

/-- The turns go through the cycle for ever. -/
theorem turn_eq_getElem (s : St τ) (j : Nat) : s.cycle[j % s.cycle.length]? = some (s.turn j) := by
  have hl : 0 < s.cycle.length := by simp [St.cycle]
  rw [← List.head?_rotate (Nat.mod_lt j hl), List.rotate_mod, ← turn_cons_rest]
  rfl

theorem turn_rest_succ (s : St τ) (j : Nat) : s.turn (j + 1) :: s.rest (j + 1) = s.rest j ++ [s.turn j] := by
  rw [turn_cons_rest, ← List.rotate_rotate, ← turn_cons_rest, List.rotate_cons_succ, List.rotate_zero]

theorem elapsed_succ (s : St τ) (j : Nat) :
    s.elapsed quantum (j + 1) = s.elapsed quantum j + quantum (s.turn j) := by
  simp [St.elapsed, List.range_succ]

/-! ## Ticks -/

theorem tick_bounds (hq : ∀ t ∈ s.cycle, 1 ≤ quantum t) (h : s.left ≤ quantum s.current) :
    1 ≤ (tick quantum s).left ∧ (tick quantum s).left ≤ quantum (tick quantum s).current := by
  unfold tick
  split
  · exact ⟨by dsimp only; omega, by dsimp only; omega⟩
  · split
    · exact ⟨hq _ (by simp [St.cycle]), Nat.le_refl _⟩
    · rename_i t ts hs
      exact ⟨hq _ (by simp [St.cycle, hs]), Nat.le_refl _⟩

theorem mem_tick_cycle {t : τ} : t ∈ (tick quantum s).cycle ↔ t ∈ s.cycle := by
  unfold tick
  split
  · exact Iff.rfl
  · split
    · exact Iff.rfl
    · rename_i u us hs
      simp only [St.cycle, hs, List.mem_append, List.mem_cons, List.not_mem_nil]
      tauto

theorem iterate_tick_lt : ∀ {k : Nat} {s : St τ}, k < s.left →
    (tick quantum)^[k] s = { s with left := s.left - k }
  | 0, _, _ => rfl
  | k + 1, s, h => by
    have h1 : tick quantum s = { s with left := s.left - 1 } := if_pos (by omega)
    rw [Function.iterate_succ_apply, h1, iterate_tick_lt (by dsimp only; omega), Nat.sub_sub, Nat.add_comm 1 k]

theorem iterate_tick_left (h : 1 ≤ s.left) {t : τ} {ts : List τ} (ht : t :: ts = s.queue ++ [s.current]) :
    (tick quantum)^[s.left] s = ⟨t, ts, quantum t⟩ := by
  obtain ⟨n, hn⟩ : ∃ n, s.left = n + 1 := ⟨s.left - 1, by omega⟩
  rw [hn, Function.iterate_succ_apply', iterate_tick_lt (by omega), tick, if_neg (by dsimp only; omega)]
  obtain ⟨c, q, l⟩ := s
  cases q with
  | nil => cases ht; rfl
  | cons u us => cases ht; rfl

theorem iterate_tick_start (hq : ∀ t ∈ s.cycle, 1 ≤ quantum t) (h : 1 ≤ s.left) (j : Nat) :
    (tick quantum)^[s.left + s.elapsed quantum j] s = ⟨s.turn j, s.rest j, quantum (s.turn j)⟩ := by
  induction j with
  | zero => exact iterate_tick_left h (by rw [turn_cons_rest, List.rotate_zero]; rfl)
  | succ j ih =>
    rw [elapsed_succ, ← Nat.add_assoc, Nat.add_comm, Function.iterate_add_apply, ih]
    exact iterate_tick_left (s := ⟨s.turn j, s.rest j, quantum (s.turn j)⟩) (hq _ (turn_mem s j)) (turn_rest_succ s j)

/-- Who runs, who waits and how much is left after `k` ticks of the turn `j`. -/
theorem iterate_tick_turn (hq : ∀ t ∈ s.cycle, 1 ≤ quantum t) (h : 1 ≤ s.left) {j k : Nat} (hk : k < quantum (s.turn j)) :
    (tick quantum)^[s.left + s.elapsed quantum j + k] s = ⟨s.turn j, s.rest j, quantum (s.turn j) - k⟩ := by
  rw [Nat.add_comm, Function.iterate_add_apply, iterate_tick_start hq h]
  exact iterate_tick_lt hk

/-- From the first switch on, every tick belongs to a turn. -/
theorem exists_turn (hq : ∀ t ∈ s.cycle, 1 ≤ quantum t) (m : Nat) :
    ∃ j k, k < quantum (s.turn j) ∧ m = s.elapsed quantum j + k := by
  induction m with
  | zero => exact ⟨0, 0, hq _ (turn_mem s 0), rfl⟩
  | succ m ih =>
    obtain ⟨j, k, hk, rfl⟩ := ih
    by_cases hlast : k + 1 < quantum (s.turn j)
    · exact ⟨j, k + 1, hlast, by omega⟩
    · exact ⟨j + 1, 0, hq _ (turn_mem s _), by rw [elapsed_succ]; omega⟩

end

end Turns
