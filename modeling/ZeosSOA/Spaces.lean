import Mathlib.Logic.Function.Basic

/-!
# Private memories in a shared one

Processes with memories of their own, and frames in which they are kept. The memory of a process is what it stored, on
top of what it had when it was forked. `Shown` says that this is what the frames hold, and every operation that keeps
frames apart keeps it.
-/

namespace Spaces

/-- What each process has in each word of each page. -/
abbrev Memories (π κ ω ν : Type) : Type := π → κ → ω → ν

/-- A process changes a word, all of it or a part, or has a child. -/
inductive Action (π κ ω ν : Type) where
  | change (p : π) (k : κ) (w : ω) (f : ν → ν)
  | fork (p q : π)

section
variable {τ π κ φ ω ν : Type}

/-- The live tasks have names and frames of their own, and in the frames is what `x` says. -/
structure Shown (live : τ → Prop) (name : τ → π) (frame : τ → κ → φ) (ram : φ → ω → ν) (x : Memories π κ ω ν) : Prop where
  names : ∀ t, live t → ∀ u, live u → name t = name u → t = u
  frames : ∀ t, live t → ∀ u, live u → ∀ j k, frame t j = frame u k → t = u ∧ j = k
  holds : ∀ t, live t → ∀ k w, ram (frame t k) w = x (name t) k w

variable {live live' : τ → Prop} {name name' : τ → π} {frame frame' : τ → κ → φ} {ram ram' : φ → ω → ν} {x : Memories π κ ω ν}
  {t : τ}

/-- Nothing is done to the frames of those that stay. -/
theorem Shown.keep (h : Shown live name frame ram x) (hlive : ∀ u, live' u → live u) (hname : ∀ u, live' u → name' u = name u)
    (hframe : ∀ u, live' u → frame' u = frame u) (hram : ∀ u, live' u → ∀ k, ram' (frame u k) = ram (frame u k)) :
    Shown live' name' frame' ram' x where
  names u hu v hv e := by
    rw [hname u hu, hname v hv] at e
    exact h.names u (hlive u hu) v (hlive v hv) e
  frames u hu v hv j k e := by
    rw [hframe u hu, hframe v hv] at e
    exact h.frames u (hlive u hu) v (hlive v hv) j k e
  holds u hu k w := by rw [hname u hu, hframe u hu, hram u hu, h.holds u (hlive u hu)]

end

section
variable {τ π κ φ ω ν : Type} [DecidableEq π] [DecidableEq κ] [DecidableEq ω]

/-- A word changes, or a new process gets all that another one has. -/
def Action.apply (x : Memories π κ ω ν) : Action π κ ω ν → Memories π κ ω ν
  | change p k w f => Function.update x p (Function.update (x p) k (Function.update (x p k) w (f (x p k w))))
  | fork p q => Function.update x q (x p)

def replay (x : Memories π κ ω ν) (as : List (Action π κ ω ν)) : Memories π κ ω ν := as.foldl Action.apply x

theorem replay_snoc (x : Memories π κ ω ν) (as : List (Action π κ ω ν)) (a : Action π κ ω ν) :
    replay x (as ++ [a]) = a.apply (replay x as) := by
  rw [replay, List.foldl_append]
  rfl

variable {live live' : τ → Prop} {name name' : τ → π} {frame frame' : τ → κ → φ} {ram ram' : φ → ω → ν} {x : Memories π κ ω ν}
  {t : τ}

/-- A task changes a word in one of its pages. -/
theorem Shown.change [DecidableEq φ] (h : Shown live name frame ram x) (ht : live t) (k : κ) (w : ω) (f : ν → ν) :
    Shown live name frame
      (Function.update ram (frame t k) (Function.update (ram (frame t k)) w (f (ram (frame t k) w))))
      ((Action.change (name t) k w f).apply x) where
  names := h.names
  frames := h.frames
  holds u hu j i := by
    simp only [Action.apply, Function.update_apply]
    by_cases hf : frame u j = frame t k
    · obtain ⟨hut, hjk⟩ := h.frames u hu t ht j k hf
      subst hut hjk
      simp only [if_true, h.holds u hu, Function.update_apply]
    · rw [if_neg hf, h.holds u hu]
      by_cases hn : name u = name t
      · have hut := h.names u hu t ht hn
        subst hut
        have hjk : j ≠ k := fun e => hf (by rw [e])
        simp [hjk]
      · rw [if_neg hn]

/-- A new task, with a new name and new frames, gets what is in those of `t`. -/
theorem Shown.fork {c : τ} {q : π} (h : Shown live name frame ram x) (ht : live t) (hlive : ∀ u, live' u → u = c ∨ live u ∧ u ≠ c)
    (hname : ∀ u, live u → u ≠ c → name' u = name u) (hnew : name' c = q) (hq : ∀ u, live u → name u ≠ q)
    (hframe : ∀ u, live u → u ≠ c → frame' u = frame u) (hinj : ∀ j k, frame' c j = frame' c k → j = k)
    (hfresh : ∀ k u, live u → ∀ j, frame u j ≠ frame' c k) (hcopy : ∀ k, ram' (frame' c k) = ram (frame t k))
    (hram : ∀ u, live u → ∀ k, ram' (frame u k) = ram (frame u k)) :
    Shown live' name' frame' ram' ((Action.fork (name t) q).apply x) where
  names u hu v hv e := by
    rcases hlive u hu with hu | ⟨hu, hne⟩ <;> rcases hlive v hv with hv | ⟨hv, hne'⟩
    · rw [hu, hv]
    · rw [hu, hnew, hname v hv hne'] at e
      exact absurd e.symm (hq v hv)
    · rw [hv, hnew, hname u hu hne] at e
      exact absurd e (hq u hu)
    · rw [hname u hu hne, hname v hv hne'] at e
      exact h.names u hu v hv e
  frames u hu v hv j k e := by
    rcases hlive u hu with hu | ⟨hu, hne⟩ <;> rcases hlive v hv with hv | ⟨hv, hne'⟩
    · rw [hu, hv] at e ⊢
      exact ⟨rfl, hinj j k e⟩
    · rw [hu, hframe v hv hne'] at e
      exact absurd e.symm (hfresh j v hv k)
    · rw [hv, hframe u hu hne] at e
      exact absurd e (hfresh k u hu j)
    · rw [hframe u hu hne, hframe v hv hne'] at e
      exact h.frames u hu v hv j k e
  holds u hu k w := by
    rcases hlive u hu with hu | ⟨hu, hne⟩
    · rw [hu, hnew, Action.apply, Function.update_self, hcopy, h.holds t ht]
    · rw [hname u hu hne, hframe u hu hne, Action.apply, Function.update_of_ne (hq u hu), hram u hu, h.holds u hu]

end

end Spaces
