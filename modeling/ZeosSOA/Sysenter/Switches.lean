import ZeosSOA.Sysenter.Contexts

/-!
# ZeOSSysenter: a task goes on where it stopped

The history keeps for every task the frame pointer it had when it last gave up the CPU, or the
context it was created with. A switch should load what the history has for the next task. It
does, but for `sys_yield` with nobody ready, where that task is the current one: the pointer to
load is read before the new one is saved.
-/

namespace ZeosSOA.Sysenter

open Runs

/-- Where each task has to go on. -/
abbrev Contexts : Type := TaskId → Option StackPtr

/-- Idle has not run yet; task 1 is running and has given up nothing. -/
def Contexts.start : Contexts := fun t => if t = 0 then some ⟨0, 4 * (kernelStackSize - 2)⟩ else none

def Contexts.next (m : Contexts) (s : Kernel) (e : Kernel.Event) : Contexts :=
  if s.switches e then Function.update m s.current (some ⟨s.current, e.ebp⟩)
  else match s.creates e with
    | some (c, sp) => Function.update m c (some sp)
    | none => m

/-- A switch loads the pointer at which the next task has stopped, in this very step if it is the
current one. -/
def Resumes (x : Contexts × Kernel) (e : Kernel.Event) (y : Contexts × Kernel) : Prop :=
  x.2.switches e = true → y.2.esp = y.1 y.2.current

/-- A `sys_yield` with nobody ready finds the pointer it is about to save in its struct. -/
def YieldsSaved (s : Kernel) (e : Kernel.Event) : Prop :=
  e.op = .yield → s.listEmpty .readyqueue = true → (s.task s.current).registerEsp = some ⟨s.current, e.ebp⟩

/-- The structs of the tasks hold what the history has. -/
def Recorded (x : Contexts × Kernel) : Prop :=
  ∃ a, Described x.2 a ∧ ∀ t, Held a t → x.1 t = (x.2.task t).registerEsp

section
variable {x y : Contexts × Kernel} {s s' : Kernel} {a b : AbsKernel} {e : Kernel.Event} {m : Contexts}

theorem Contexts.next_switched (hsw : s.switches e = true) (hs : s.Switched s' e.ebp) {t : TaskId}
    (ht : m t = (s.task t).registerEsp) : m.next s e t = (s'.task t).registerEsp := by
  rw [Contexts.next, if_pos hsw, hs.saved t, Function.update_apply, ht]

theorem Contexts.next_quiet (hsw : s.switches e = false) (hq : Kernel.Quiet (fun t => s.freeHead = some t) s s')
    {t : TaskId} (hne : s.freeHead ≠ some t) (ht : m t = (s.task t).registerEsp) :
    m.next s e t = (s'.task t).registerEsp := by
  rw [hq.saved t hne, ← ht, Contexts.next, if_neg (by simp [hsw])]
  cases hc : s.creates e with
  | none => rfl
  | some p =>
    obtain ⟨c, sp⟩ := p
    apply Function.update_of_ne
    rintro rfl
    exact hne (creates_freeHead hc)

theorem Contexts.next_created (hsw : s.switches e = false) {t : TaskId} {sp : StackPtr}
    (hc : s.creates e = some (t, sp)) : m.next s e t = some sp := by
  rw [Contexts.next, if_neg (by simp [hsw]), hc]
  simp

theorem recorded_step (hx : Recorded x) (hy : recorded Kernel.step Contexts.next x e = some y) : Recorded y := by
  obtain ⟨m, s⟩ := x
  obtain ⟨s', hs, rfl⟩ := Option.map_eq_some_iff.mp hy
  obtain ⟨a, h, hm⟩ := hx
  dsimp only at h hm hs
  obtain ⟨b, hb, h'⟩ := h.step hs
  refine ⟨b, h', fun t ht => ?_⟩
  have heff := Kernel.step_effect hs
  unfold Kernel.Effect at heff
  dsimp only
  by_cases hsw : s.switches e = true
  · rw [if_pos hsw] at heff
    rcases held_step h hb ht with ht | ⟨sp, hc⟩
    · exact Contexts.next_switched hsw heff (hm t ht)
    · rw [creates_of_switches hsw] at hc
      cases hc
  · rw [if_neg hsw] at heff
    rw [Bool.not_eq_true] at hsw
    rcases held_step h hb ht with ht | ⟨sp, hc⟩
    · exact Contexts.next_quiet hsw heff.1 (freeHead_ne h.toRep h.good ht) (hm t ht)
    · rw [Contexts.next_created hsw hc, (heff.2 t sp hc).saved]

/-- A switch to another task loads what the record has of it. A switch of a task to itself loads
what its struct had before. -/
theorem resumes_step_iff (hx : Recorded x) (hy : recorded Kernel.step Contexts.next x e = some y) :
    Resumes x e y ↔ YieldsSaved x.2 e := by
  obtain ⟨m, s⟩ := x
  obtain ⟨s', hs, rfl⟩ := Option.map_eq_some_iff.mp hy
  obtain ⟨a, h, hm⟩ := hx
  dsimp only at h hm hs
  obtain ⟨b, hb, h'⟩ := h.step hs
  unfold Resumes YieldsSaved
  dsimp only
  by_cases hsw : s.switches e = true
  · have heff : s.Switched s' e.ebp := by
      have heff := Kernel.step_effect hs
      unfold Kernel.Effect at heff
      rwa [if_pos hsw] at heff
    have hself := switch_self_iff h.toRep h.good hsw hb
    rw [← h'.current, ← h.current] at hself
    rw [imp_iff_right hsw, heff.esp, Contexts.next, if_pos hsw, h.toRep.listEmpty]
    by_cases hc : s'.current = s.current
    · obtain ⟨hop, hnil⟩ := hself.mp hc
      simp only [hc, Function.update_self, hop, hnil, true_imp_iff]
    · have hheld : Held a s'.current := by
        have hlive : Held b s'.current := .inl (.inl h'.current)
        rcases held_step h hb hlive with ht | ⟨sp, hcr⟩
        · exact ht
        · rw [creates_of_switches hsw] at hcr
          cases hcr
      rw [Function.update_of_ne hc, hm _ hheld]
      exact iff_of_true rfl fun hop hnil => absurd (hself.mpr ⟨hop, hnil⟩) hc
  · refine iff_of_true (fun h => absurd h hsw) fun hop => ?_
    simp [Kernel.switches, hop] at hsw

end

/-- Along a run every switch loads the pointer at which the next task has stopped if and only if
every `sys_yield` with nobody ready finds the pointer it saves in its struct already. -/
theorem switches_resume_iff (mc : Machine) (es : List Kernel.Event) : SafeRun mc es →
    (AllSteps (recorded Kernel.step Contexts.next) Resumes (.start, Kernel.boot mc) es ↔
      AllSteps (recorded Kernel.step Contexts.next) (fun x e _ => YieldsSaved x.2 e) (.start, Kernel.boot mc) es) := by
  intro _
  have hstart : Recorded (.start, Kernel.boot mc) := by
    refine ⟨bootAbs mc, boot_described mc, fun t ht => ?_⟩
    rcases boot_held ht with rfl | rfl <;> rfl
  apply allSteps_iff_allSteps (I := Recorded) (A := fun _ => True) (P := fun x e _ => YieldsSaved x.2 e) (R := Resumes)
  · exact fun x e y hx _ hp hy => ⟨recorded_step hx hy, (resumes_step_iff hx hy).mpr hp⟩
  · exact fun x e y hx _ hp hy hr => hp ((resumes_step_iff hx hy).mp hr)
  · exact hstart
  · exact fun _ _ => trivial

/-- Task 1 blocks, the thread it made wakes it and is preempted at the end of its turn, and task 1 exits. -/
def handover : List Kernel.Event :=
  [⟨.threadCreate 0x100000 0 0x100000, 0⟩, ⟨.semCreate 0, 0⟩, ⟨.semWait 0, 8⟩, ⟨.semSignal 0, 0⟩] ++
    List.replicate 10 ⟨.clock, 16⟩ ++ [⟨.exit, 8⟩]

theorem switches_resume_handover : (exec Kernel.step (Kernel.boot .blank) handover).any (fun s => s.current = 2) ∧
    AllSteps (recorded Kernel.step Contexts.next) Resumes (.start, Kernel.boot .blank) handover := by
  refine ⟨by decide +kernel, ?_⟩
  apply (switches_resume_iff .blank handover (by decide +kernel)).mpr
  apply allSteps_of_forall (A := fun e => e.op ≠ .yield)
  · exact fun _ _ _ hne hop => absurd hop hne
  · decide

/-- Task 1, alone, yields: the empty pointer in its struct is loaded, not the frame it has just left. -/
theorem yield_not_resumed : ¬ AllSteps (recorded Kernel.step Contexts.next) Resumes (.start, Kernel.boot .blank)
    [⟨.yield, 8⟩] := by
  intro hall
  have hrun : (recorded Kernel.step Contexts.next (.start, Kernel.boot .blank) ⟨.yield, 8⟩).any (fun y => decide
      (y.2.current = 1 ∧ y.2.esp.isNone = true ∧ (y.1 1).isSome = true)) = true := by decide +kernel
  obtain ⟨y, hy, hd⟩ := (Option.any_eq_true _ _).mp hrun
  obtain ⟨hc, hesp, hsaved⟩ := of_decide_eq_true hd
  have hres := (hall y hy).1 (by decide)
  rw [hc, Option.isNone_iff_eq_none.mp hesp] at hres
  rw [← hres] at hsaved
  cases hsaved

end ZeosSOA.Sysenter
