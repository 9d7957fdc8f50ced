/-!
# Runs of a guarded step function

`step s e = none` when the event `e` cannot happen in `s`, or when the machine stops in
it. `AllSteps` and `AllStates` speak about the steps and the states of the run along a
list of events, up to the point where it stops.
-/

namespace Runs

section
variable {σ ε : Type} (step : σ → ε → Option σ)

def exec : σ → List ε → Option σ
  | s, [] => some s
  | s, e :: es => (step s e).bind fun s' => exec s' es

/-- Every step taken along the run meets `P`. -/
def AllSteps (P : σ → ε → σ → Prop) : σ → List ε → Prop
  | _, [] => True
  | s, e :: es => ∀ s', step s e = some s' → P s e s' ∧ AllSteps P s' es

/-- Every state met along the run, the first one included, satisfies `Q`. -/
def AllStates (Q : σ → Prop) : σ → List ε → Prop
  | s, [] => Q s
  | s, e :: es => Q s ∧ ∀ s', step s e = some s' → AllStates Q s' es

/-- Every event of the run meets `P` in the state it comes in, also one that stops the machine. -/
def AllTries (P : σ → ε → Prop) : σ → List ε → Prop
  | _, [] => True
  | s, e :: es => P s e ∧ ∀ s', step s e = some s' → AllTries P s' es

/-- The machine with a history variable, which each step updates and none reads. -/
def recorded {γ : Type} (f : γ → σ → ε → γ) (x : γ × σ) (e : ε) : Option (γ × σ) :=
  (step x.2 e).map fun s' => (f x.1 x.2 e, s')

end

section
variable {σ ε : Type} {step : σ → ε → Option σ}

@[simp] theorem exec_nil (s : σ) : exec step s [] = some s := rfl

theorem exec_cons {s s' : σ} {e : ε} {es : List ε} :
    exec step s (e :: es) = some s' ↔ ∃ t, step s e = some t ∧ exec step t es = some s' := by
  simp [exec, Option.bind_eq_some_iff]

theorem exec_append {s s' : σ} {es fs : List ε} :
    exec step s (es ++ fs) = some s' ↔ ∃ t, exec step s es = some t ∧ exec step t fs = some s' := by
  induction es generalizing s with
  | nil => simp
  | cons e es ih =>
    simp only [List.cons_append, exec_cons, ih]
    constructor
    · rintro ⟨t, ht, u, hu, hf⟩; exact ⟨u, ⟨t, ht, hu⟩, hf⟩
    · rintro ⟨u, ⟨t, ht, hu⟩, hf⟩; exact ⟨t, ht, u, hu, hf⟩

/-- The invariant rule: what the first state has and every permitted step keeps holds at the end. -/
theorem exec_invariant {I : σ → Prop} {P : σ → ε → σ → Prop}
    (hstep : ∀ s e s', I s → P s e s' → step s e = some s' → I s') :
    ∀ {es : List ε} {s s' : σ}, I s → AllSteps step P s es → exec step s es = some s' → I s'
  | [], s, s', hi, _, he => by rw [exec_nil] at he; cases he; exact hi
  | e :: es, s, s', hi, hp, he => by
    obtain ⟨t, ht, he⟩ := exec_cons.mp he
    obtain ⟨hpe, hps⟩ := hp t ht
    exact exec_invariant hstep (hstep s e t hi hpe ht) hps he

theorem allSteps_imp {P P' : σ → ε → σ → Prop} (h : ∀ s e s', P s e s' → P' s e s') :
    ∀ {es : List ε} {s : σ}, AllSteps step P s es → AllSteps step P' s es
  | [], _, _ => trivial
  | _ :: _, _, hp => fun s' hs => ⟨h _ _ _ (hp s' hs).1, allSteps_imp h (hp s' hs).2⟩

theorem allSteps_last {P : σ → ε → σ → Prop} : ∀ (es : List ε) {s t t' : σ} {e : ε},
    AllSteps step P s (es ++ [e]) → exec step s es = some t → step t e = some t' → P t e t'
  | [], s, t, t', e, hp, he, ht => by
    obtain rfl := Option.some.inj he
    exact (hp t' ht).1
  | _ :: _, _, _, _, _, hp, he, ht => by
    obtain ⟨u, hu, he⟩ := exec_cons.mp he
    exact allSteps_last _ (hp u hu).2 he ht

theorem allSteps_of_forall {P : σ → ε → σ → Prop} {A : ε → Prop}
    (h : ∀ s e s', A e → P s e s') :
    ∀ {es : List ε} {s : σ}, (∀ e ∈ es, A e) → AllSteps step P s es
  | [], _, _ => trivial
  | e :: _, s, ha => fun s' _ =>
    ⟨h s e s' (ha e List.mem_cons_self), allSteps_of_forall h fun e he => ha e (List.mem_cons_of_mem _ he)⟩

theorem allSteps_and {P P' : σ → ε → σ → Prop} :
    ∀ {es : List ε} {s : σ}, AllSteps step P s es → AllSteps step P' s es →
      AllSteps step (fun s e s' => P s e s' ∧ P' s e s') s es
  | [], _, _, _ => trivial
  | _ :: _, _, hp, hp' => fun s' hs =>
    ⟨⟨(hp s' hs).1, (hp' s' hs).1⟩, allSteps_and (hp s' hs).2 (hp' s' hs).2⟩

/-- With an invariant that the steps meeting `P` keep, these steps do `R`. -/
theorem allSteps_of_invariant {I : σ → Prop} {P R : σ → ε → σ → Prop}
    (hkeep : ∀ s e s', I s → P s e s' → step s e = some s' → I s' ∧ R s e s') :
    ∀ {es : List ε} {s : σ}, I s → AllSteps step P s es → AllSteps step R s es
  | [], _, _, _ => trivial
  | _ :: _, s, hi, hp => fun s' hs =>
    have h := hkeep s _ s' hi (hp s' hs).1 hs
    ⟨h.2, allSteps_of_invariant hkeep h.1 (hp s' hs).2⟩

theorem allStates_head {Q : σ → Prop} {es : List ε} {s : σ} (h : AllStates step Q s es) : Q s := by
  cases es with
  | nil => exact h
  | cons _ _ => exact h.1

theorem allStates_imp {Q Q' : σ → Prop} (h : ∀ s, Q s → Q' s) {es : List ε} {s : σ} (hq : AllStates step Q s es) :
    AllStates step Q' s es := by
  induction es generalizing s with
  | nil => exact h s hq
  | cons e es ih => exact ⟨h s hq.1, fun s' hs => ih (hq.2 s' hs)⟩

theorem allStates_last {Q : σ → Prop} : ∀ (es : List ε) {s t : σ}, AllStates step Q s es → exec step s es = some t → Q t
  | [], s, t, hq, he => by
    obtain rfl := Option.some.inj he
    exact hq
  | _ :: _, _, _, hq, he => by
    obtain ⟨u, hu, he⟩ := exec_cons.mp he
    exact allStates_last _ (hq.2 u hu) he

instance instDecidableAllSteps {P : σ → ε → σ → Prop} [∀ s e s', Decidable (P s e s')] :
    ∀ (s : σ) (es : List ε), Decidable (AllSteps step P s es)
  | _, [] => isTrue trivial
  | s, e :: es =>
    match h : step s e with
    | none => isTrue fun s' hs => nomatch h.symm.trans hs
    | some s' =>
      have : Decidable (AllSteps step P s' es) := instDecidableAllSteps s' es
      decidable_of_iff (P s e s' ∧ AllSteps step P s' es)
        ⟨fun hp t ht => by obtain rfl := Option.some.inj (h.symm.trans ht); exact hp, fun hp => hp s' h⟩

instance instDecidableAllTries {P : σ → ε → Prop} [∀ s e, Decidable (P s e)] :
    ∀ (s : σ) (es : List ε), Decidable (AllTries step P s es)
  | _, [] => isTrue trivial
  | s, e :: es =>
    match h : step s e with
    | none => decidable_of_iff (P s e) ⟨fun hp => ⟨hp, fun s' hs => nomatch h.symm.trans hs⟩, And.left⟩
    | some s' =>
      have : Decidable (AllTries step P s' es) := instDecidableAllTries s' es
      decidable_of_iff (P s e ∧ AllTries step P s' es)
        ⟨fun hp => ⟨hp.1, fun t ht => by obtain rfl := Option.some.inj (h.symm.trans ht); exact hp.2⟩,
          fun hp => ⟨hp.1, hp.2 s' h⟩⟩

/-- An invariant that the steps meeting `P` keep, and with it they, and no others, do `R`: every
step of the run does `R` if and only if every step of it meets `P`. -/
theorem allSteps_iff_allSteps {I : σ → Prop} {A : ε → Prop} {P R : σ → ε → σ → Prop}
    (hkeep : ∀ s e s', I s → A e → P s e s' → step s e = some s' → I s' ∧ R s e s')
    (hbreak : ∀ s e s', I s → A e → ¬ P s e s' → step s e = some s' → ¬ R s e s') :
    ∀ {es : List ε} {s : σ}, I s → (∀ e ∈ es, A e) → (AllSteps step R s es ↔ AllSteps step P s es)
  | [], _, _, _ => Iff.rfl
  | e :: es, s, hi, ha => by
    have hae := ha e List.mem_cons_self
    refine forall_congr' fun s' => imp_congr_right fun hs => ?_
    by_cases hp : P s e s'
    · obtain ⟨hi', hr⟩ := hkeep s e s' hi hae hp hs
      exact and_congr (iff_of_true hr hp)
        (allSteps_iff_allSteps hkeep hbreak hi' fun e he => ha e (List.mem_cons_of_mem _ he))
    · exact iff_of_false (fun h => hbreak s e s' hi hae hp hs h.1) fun h => hp h.1

/-- An invariant that implies `Q` and that, of the steps meeting `A`, exactly those meeting `P` keep: in a run of
steps that meet `A`, `Q` holds all along if and only if every step meets `P`. -/
theorem allStates_iff {I Q : σ → Prop} {A P : σ → ε → σ → Prop}
    (hQ : ∀ s, I s → Q s)
    (hkeep : ∀ s e s', I s → A s e s' → P s e s' → step s e = some s' → I s')
    (hbreak : ∀ s e s', I s → A s e s' → ¬ P s e s' → step s e = some s' → ¬ Q s') :
    ∀ {es : List ε} {s : σ}, I s → AllSteps step A s es → (AllStates step Q s es ↔ AllSteps step P s es)
  | [], s, hi, _ => by simp [AllStates, AllSteps, hQ s hi]
  | e :: es, s, hi, ha => by
    constructor
    · intro ⟨_, h⟩ s' hs
      obtain ⟨hae, has⟩ := ha s' hs
      have hp : P s e s' := Classical.byContradiction fun hn =>
        hbreak s e s' hi hae hn hs (allStates_head (h s' hs))
      exact ⟨hp, (allStates_iff hQ hkeep hbreak (hkeep s e s' hi hae hp hs) has).mp (h s' hs)⟩
    · intro h
      refine ⟨hQ s hi, fun s' hs => ?_⟩
      obtain ⟨hae, has⟩ := ha s' hs
      obtain ⟨hp, hps⟩ := h s' hs
      exact (allStates_iff hQ hkeep hbreak (hkeep s e s' hi hae hp hs) has).mpr hps

/-- With an invariant that implies `Q` and that the steps meeting `P` keep. -/
theorem allStates_of_invariant {I Q : σ → Prop} {P : σ → ε → σ → Prop} (hQ : ∀ s, I s → Q s)
    (hkeep : ∀ s e s', I s → P s e s' → step s e = some s' → I s') {es : List ε} {s : σ} (hi : I s)
    (hp : AllSteps step P s es) : AllStates step Q s es := by
  induction es generalizing s with
  | nil => exact hQ s hi
  | cons e es ih =>
    refine ⟨hQ s hi, fun s' hs => ?_⟩
    obtain ⟨hpe, hps⟩ := hp s' hs
    exact ih (hkeep s e s' hi hpe hs) hps

theorem allStates_iff_allSteps {I Q : σ → Prop} {A : ε → Prop} {P : σ → ε → σ → Prop}
    (hQ : ∀ s, I s → Q s)
    (hkeep : ∀ s e s', I s → A e → P s e s' → step s e = some s' → I s')
    (hbreak : ∀ s e s', I s → A e → ¬ P s e s' → step s e = some s' → ¬ Q s')
    {es : List ε} {s : σ} (hi : I s) (ha : ∀ e ∈ es, A e) : AllStates step Q s es ↔ AllSteps step P s es :=
  allStates_iff (A := fun _ e _ => A e) hQ hkeep hbreak hi (allSteps_of_forall (fun _ _ _ h => h) ha)

/-- With an invariant that implies `Q`, and that the events meeting `P` keep, doing `R`. -/
theorem allTries_of_invariant {I Q : σ → Prop} {A : ε → Prop} {P R : σ → ε → Prop} (hQ : ∀ s, I s → Q s)
    (hkeep : ∀ s e, I s → A e → P s e → R s e ∧ ∀ s', step s e = some s' → I s') :
    ∀ {es : List ε} {s : σ}, I s → (∀ e ∈ es, A e) → AllTries step P s es →
      AllStates step Q s es ∧ AllTries step R s es
  | [], s, hi, _, _ => ⟨hQ s hi, trivial⟩
  | e :: es, s, hi, ha, hp => by
    obtain ⟨hr, hi'⟩ := hkeep s e hi (ha e List.mem_cons_self) hp.1
    have ih := fun s' hs => allTries_of_invariant hQ hkeep (hi' s' hs) (fun e he => ha e (List.mem_cons_of_mem _ he))
      (hp.2 s' hs)
    exact ⟨⟨hQ s hi, fun s' hs => (ih s' hs).1⟩, hr, fun s' hs => (ih s' hs).2⟩

/-- An invariant that implies `Q` and that exactly the events meeting `P` keep, doing `R`. -/
theorem allTries_iff {I Q : σ → Prop} {A : ε → Prop} {P R : σ → ε → Prop} (hQ : ∀ s, I s → Q s)
    (hkeep : ∀ s e, I s → A e → P s e → R s e ∧ ∀ s', step s e = some s' → I s')
    (hbreak : ∀ s e, I s → A e → ¬ P s e → ¬ R s e ∨ ∃ s', step s e = some s' ∧ ¬ Q s')
    {es : List ε} {s : σ} (hi : I s) (ha : ∀ e ∈ es, A e) :
    AllStates step Q s es ∧ AllTries step R s es ↔ AllTries step P s es := by
  refine ⟨?_, allTries_of_invariant hQ hkeep hi ha⟩
  induction es generalizing s with
  | nil => exact fun _ => trivial
  | cons e es ih =>
    intro ⟨hq, hr⟩
    have hae := ha e List.mem_cons_self
    have hp : P s e := by
      refine Classical.byContradiction fun hn => ?_
      rcases hbreak s e hi hae hn with h | ⟨s', hs, h⟩
      · exact h hr.1
      · exact h (allStates_head (hq.2 s' hs))
    refine ⟨hp, fun s' hs => ?_⟩
    apply ih ((hkeep s e hi hae hp).2 s' hs) fun e he => ha e (List.mem_cons_of_mem _ he)
    exact ⟨hq.2 s' hs, hr.2 s' hs⟩

end

end Runs
