import Mathlib.Tactic.FinCases
import ZeosSOA.Sysenter.Live
import ZeosSOA.Sysenter.Refine

/-!
# ZeOSSysenter: start-up and runs

The booted kernel is described by `bootAbs`, and with the refinement of steps every state of
a run has a good description over sequences. `run_invariant` is the rule the results about
runs are proved with.
-/

namespace ZeosSOA.Sysenter

open Intrusive Runs

/-! ## Start-up -/

/-- Every task but idle (0) and task 1 is free, and nobody is ready. -/
def bootAbs (mc : Machine) : AbsKernel where
  queue
    | .freequeue => [2, 3, 4, 5, 6, 7, 8, 9]
    | _ => []
  task t := ((Kernel.boot mc).task t).core
  current := 1
  idleTask := 0
  remainingQuantum := defaultQuantum
  sem _ _ := AbsKernel.freeSem
  behind := mc.behind
  mm := (Kernel.boot mc).mm
  globalPID := 1000
  globalTID := 1000

theorem bootAbs_apart (mc : Machine) : AbsKernel.Apart (bootAbs mc).queue := by
  refine ⟨fun i => ?_, fun i j t hi hj => ?_⟩
  · cases i with
    | freequeue => exact (by decide : [2, 3, 4, 5, 6, 7, 8, (9 : TaskId)].Nodup)
    | _ => exact List.nodup_nil
  · cases i <;> cases j <;> simp_all [bootAbs]

theorem boot_freequeue (mc : Machine) :
    (Kernel.boot mc).links.Ring (.head .freequeue) (((bootAbs mc).queue .freequeue).map .anchor) :=
  .cons_cons ⟨rfl, rfl⟩ <| .cons_cons ⟨rfl, rfl⟩ <| .cons_cons ⟨rfl, rfl⟩ <| .cons_cons ⟨rfl, rfl⟩ <|
    .cons_cons ⟨rfl, rfl⟩ <| .cons_cons ⟨rfl, rfl⟩ <| .cons_cons ⟨rfl, rfl⟩ <| .cons_cons ⟨rfl, rfl⟩ <|
    .cons_cons ⟨rfl, rfl⟩ <| .singleton _

theorem boot_rings (mc : Machine) : (Kernel.boot mc).links.Rings Set.univ (bootAbs mc).queue := by
  refine ⟨fun i _ => ?_, fun i _ => (bootAbs_apart mc).nodup i, fun i _ j _ => (bootAbs_apart mc).apart i j⟩
  cases i with
  | freequeue => exact boot_freequeue mc
  | readyqueue => exact List.isChain_pair.mpr ⟨rfl, rfl⟩
  | blocked tab i =>
    refine List.isChain_pair.mpr ?_
    cases tab
    fin_cases i <;> exact ⟨rfl, rfl⟩

theorem boot_sem (mc : Machine) : (Kernel.boot mc).sem = (bootAbs mc).sem := by
  funext tab i
  cases tab
  fin_cases i <;> rfl

theorem bootAbs_mm (mc : Machine) : (bootAbs mc).mm = (Kernel.boot mc).mm := by simp only [bootAbs]

theorem boot_rep (mc : Machine) : Rep (Kernel.boot mc) (bootAbs mc) where
  rings := boot_rings mc
  task _ := rfl
  current := rfl
  idleTask := rfl
  remainingQuantum := rfl
  sem := boot_sem mc
  behind := rfl
  mm := (bootAbs_mm mc).symm
  globalPID := rfl
  globalTID := rfl

theorem boot_task1 (mc : Machine) : (bootAbs mc).task 1 =
    { PID := 1, TID := 1, dirPagesBaseAddr := some 1, state := .run, totalQuantum := defaultQuantum
      heapStartProc := initHeap, heapPointerProc := initHeap, semafors := some .semaforProces } := rfl

theorem boot_idle (mc : Machine) : (bootAbs mc).task 0 =
    { PID := 0, TID := 0, dirPagesBaseAddr := some 0, state := .run, totalQuantum := defaultQuantum
      heapStartProc := 0, heapPointerProc := 0, semafors := none } := rfl

theorem boot_good (mc : Machine) : (bootAbs mc).Good where
  toApart := bootAbs_apart mc
  idle i := by cases i <;> simp [bootAbs]
  state i t ht := by
    cases i with
    | freequeue => simp [Queue.state]
    | _ => simp [bootAbs] at ht
  current i := by cases i <;> simp [bootAbs]
  run := rfl
  idleLast _ := rfl

/-! ## The memory of the booted kernel -/

/-- The entry of a page that is not a user page of task 1. -/
def bootEntry (image : Image) (page : Nat) : PageTableEntry :=
  if page = image.first ∨ page = image.first + 11 then { Mm.kernelEntry page with present := false }
  else Mm.kernelEntry page

section
variable {s s' : Kernel}

theorem listAddTail_mm {n : ListHead} {i : Queue} (h : s.listAddTail n i = some s') : s'.mm = s.mm := by
  obtain ⟨l, -, h⟩ := Option.bind_eq_some_iff.mp h
  cases h; rfl

theorem listDel_mm {n : ListHead} (h : s.listDel n = some s') : s'.mm = s.mm := by
  obtain ⟨l, -, h⟩ := Option.bind_eq_some_iff.mp h
  cases h; rfl

theorem initSched_mm (h : s.initSched = some s') : s'.mm = s.mm := by
  have key : ∀ (is : List TaskId) {s s' : Kernel}, is.foldlM (fun s i =>
      (Kernel.modTask s i fun c => { c with PID := -1 }).listAddTail (.anchor i) .freequeue) s = some s' →
      s'.mm = s.mm := by
    intro is
    induction is with
    | nil => intro s s' h; cases h; rfl
    | cons i is ih =>
      intro s s' h
      rw [List.foldlM_cons] at h
      obtain ⟨s1, h1, h⟩ := Option.bind_eq_some_iff.mp h
      have := listAddTail_mm h1
      exact (ih h).trans this
  unfold Kernel.initSched Kernel.initFreequeue at h
  obtain ⟨s1, h1, h⟩ := Option.bind_eq_some_iff.mp h
  have := key _ h1
  cases h
  exact this

theorem initIdle_mm (h : s.initIdle = some s') : s'.mm = s.mm := by
  unfold Kernel.initIdle at h
  obtain ⟨l, -, h⟩ := Option.bind_eq_some_iff.mp h
  obtain ⟨s1, h1, h⟩ := Option.bind_eq_some_iff.mp h
  obtain ⟨c, -, h⟩ := Option.bind_eq_some_iff.mp h
  have := listDel_mm h1
  cases h
  exact this

theorem resetSemafors_mm (s : Kernel) (tab : SemTable) : (s.resetSemafors tab).mm = s.mm := rfl

theorem initTask1_mm (h : s.initTask1 = some s') :
    s'.mm = s.mm.setUserPages pagLogInitCode pagLogInitData s'.current.val := by
  unfold Kernel.initTask1 at h
  obtain ⟨l, -, h⟩ := Option.bind_eq_some_iff.mp h
  obtain ⟨s1, h1, h⟩ := Option.bind_eq_some_iff.mp h
  obtain ⟨c, -, h⟩ := Option.bind_eq_some_iff.mp h
  obtain ⟨pt, hpt, h⟩ := Option.bind_eq_some_iff.mp h
  cases h
  have : pt = c.val := by
    simpa [Kernel.getPT, Kernel.allocateDIR, Kernel.modTask] using hpt.symm
  rw [resetSemafors_mm, this, ← listDel_mm h1]
  simp only [Kernel.modTask, Kernel.allocateDIR, Kernel.initStats, Kernel.getTicks]

end

theorem boot_mm (mc : Machine) : (bootAbs mc).mm = Mm.setUserPages pagLogInitCode pagLogInitData
    (((Kernel.powerOn mc).mm.initTablePages.guardPage mc.image.first).guardPage (mc.image.first + 11)).initFrames 1 := by
  have h : Kernel.main mc = some (Kernel.boot mc) := (Option.some_get _).symm
  unfold Kernel.main at h
  obtain ⟨s1, h1, h⟩ := Option.bind_eq_some_iff.mp h
  obtain ⟨s2, h2, h⟩ := Option.bind_eq_some_iff.mp h
  have hc : (Kernel.boot mc).current = 1 := rfl
  rw [bootAbs_mm, initTask1_mm h, initIdle_mm h2, initSched_mm h1, hc]
  exact congrArg (Mm.setUserPages _ _ · 1) rfl

theorem boot_memory (mc : Machine) :
    (∀ pt page, pt < nrTasks → page < totalPages → (bootAbs mc).mm.entry pt page =
      if pt = 1 ∧ pagLogInitData ≤ page ∧ page < pagLogInitData + numPagData then
        { present := true, rw := true, user := true, pbaseAddr := 272 + 2 * (page - pagLogInitData) }
      else if pt = 1 ∧ pagLogInitCode ≤ page ∧ page < pagLogInitCode + numPagCode then
        { present := true, rw := false, user := true, pbaseAddr := 256 + 2 * (page - pagLogInitCode) }
      else bootEntry mc.image page) ∧
    ∀ f, f < totalPages →
      ((bootAbs mc).mm.physMem f = .used ↔ f < numPagKernel ∨ f < 312 ∧ f % 2 = 0) := by
  have hfl := mc.image.lt
  simp only [numPagKernel] at hfl
  rw [boot_mm]
  generalize hm : (((Kernel.powerOn mc).mm.initTablePages.guardPage mc.image.first).guardPage
    (mc.image.first + 11)) = m
  have hphys : ∀ f, m.initFrames.physMem f =
      if f < numPagKernel then .used else if f < totalPages then .free else m.physMem f := fun _ => rfl
  have hfrom : m.initFrames.FreeFrom 256 := by
    intro f hf
    have := Mm.mem_candidates.mp hf
    rw [hphys, if_neg (by omega), if_pos this.2.1]
    simpa using this.1
  obtain ⟨hent, hph⟩ := Mm.setUserPages_spec 1 pagLogInitCode pagLogInitData hfrom
    (by decide) (by decide) (by decide) (by decide) (by decide)
  refine ⟨fun pt page hpt hp => ?_, fun f hf => ?_⟩
  · rw [hent pt page hp, show 256 + 2 * numPagCode = 272 from rfl]
    have hb : m.initFrames.entry pt page = bootEntry mc.image page := by
      rw [show m.initFrames.entry pt page = m.entry pt page from rfl, ← hm,
        Mm.guardPage_entry _ (by simp only [totalPages]; omega) hp hpt,
        Mm.guardPage_entry _ (by simp only [totalPages]; omega) hp hpt, Mm.initTablePages_entry _ hpt hp]
      unfold bootEntry
      by_cases h1 : page = mc.image.first <;> by_cases h2 : page = mc.image.first + 11 <;> simp [h1, h2]
    rw [hb]
  · rw [hph f, hphys f]
    simp only [numPagKernel, numPagCode, numPagData, totalPages] at hf ⊢
    grind

/-! ## What lists and tasks a state has -/

namespace Kernel

def members (s : Kernel) (i : Queue) : List TaskId := s.links.elems nrTasks i

def Live (s : Kernel) (t : TaskId) : Prop :=
  t = s.current ∨ t ∈ s.members .readyqueue ∨ ∃ tab i, t ∈ s.members (.blocked tab i)

end Kernel

theorem Rep.members {s : Kernel} {a : AbsKernel} (h : Rep s a) (i : Queue) : s.members i = a.queue i :=
  rings_elems h.rings (Set.mem_univ i) ((h.rings.nodup i (Set.mem_univ i)).length_le_card.trans_eq (Fintype.card_fin _))

theorem Rep.live {s : Kernel} {a : AbsKernel} (h : Rep s a) (t : TaskId) : s.Live t ↔ a.Live t := by
  simp only [Kernel.Live, AbsKernel.Live, AbsKernel.Waiting, h.members, h.current]

theorem getPT_eq {s : Kernel} {a : AbsKernel} (h : Rep s a) (t : TaskId) : s.getPT t = (a.task t).dirPagesBaseAddr :=
  congrArg TaskCore.dirPagesBaseAddr (h.task t)

/-! ## Runs -/

namespace Kernel

/-- No call takes the bytes behind the table for a semaphore, and a `sys_semSignal` that is to wake
a task finds one in its list. -/
def semSafe (s : Kernel) (e : Event) : Bool :=
  match e.op with
  | .semWait semID | .semDestroy semID => (s.semCheck semID).isSome
  | .semSignal semID =>
    match s.semCheck semID with
    | none => false
    | some .refused => true
    | some (.accepted tab i) => toInt32 ((s.sem tab i).count + 1) > 0 || !s.listEmpty (.blocked tab i)
  | _ => true

end Kernel

/-- The model stops where a semaphore call leaves the table or takes a list head for a task. The
code goes on there, in memory that is not its own; the results about what a run does later are
about runs in which this does not happen. -/
def SafeRun (mc : Machine) (es : List Kernel.Event) : Prop :=
  AllTries Kernel.step (fun s e => s.semSafe e = true) (Kernel.boot mc) es

instance (mc : Machine) (es : List Kernel.Event) : Decidable (SafeRun mc es) := instDecidableAllTries _ _

/-- The states a run from the booted kernel can reach, whatever the calls. -/
def Reachable (mc : Machine) (s : Kernel) : Prop := ∃ es, exec Kernel.step (Kernel.boot mc) es = some s

theorem Reachable.step {mc : Machine} {s s' : Kernel} {e : Kernel.Event} (h : Reachable mc s)
    (hs : s.step e = some s') : Reachable mc s' := by
  obtain ⟨es, he⟩ := h
  exact ⟨es ++ [e], exec_append.mpr ⟨s, he, exec_cons.mpr ⟨s', hs, rfl⟩⟩⟩

theorem Rep.step_some {s s' : Kernel} {a : AbsKernel} (h : Rep s a) (g : a.Good) {e : Kernel.Event}
    (hs : s.step e = some s') : ∃ b, a.step (argsOk s e.op) e.op = some b ∧ Rep s' b ∧ b.Good := by
  have hr := h.step g e
  rw [hs] at hr
  cases hx : a.step (argsOk s e.op) e.op with
  | none => rw [hx] at hr; cases hr
  | some b =>
    rw [hx] at hr
    cases hr with
    | some hr => exact ⟨b, rfl, hr, g.step hx⟩

/-- What holds after start-up and is kept over sequences by every permitted step, holds of a
description of every state that a run with permitted steps reaches. -/
theorem run_invariant {J : AbsKernel → Prop} {P : Kernel → Kernel.Event → Kernel → Prop}
    (hstep : ∀ s a e s' b, Rep s a → a.Good → J a → P s e s' → s.step e = some s' →
      a.step (Rep.argsOk s e.op) e.op = some b → Rep s' b → J b)
    {s s' : Kernel} {a : AbsKernel} (h : Rep s a) (g : a.Good) (hj : J a) {es : List Kernel.Event}
    (hp : AllSteps Kernel.step P s es) (he : exec Kernel.step s es = some s') : ∃ b, Rep s' b ∧ b.Good ∧ J b := by
  refine exec_invariant (I := fun s => ∃ b, Rep s b ∧ b.Good ∧ J b) (P := P) ?_ ⟨a, h, g, hj⟩ hp he
  rintro s e s' ⟨a, h, g, hj⟩ hpe hs
  obtain ⟨b, hb, h', g'⟩ := h.step_some g hs
  exact ⟨b, h', g', hstep s a e s' b h g hj hpe hs hb h'⟩

theorem Reachable.rep {mc : Machine} {s : Kernel} (h : Reachable mc s) : ∃ a, Rep s a ∧ a.Good := by
  obtain ⟨es, he⟩ := h
  have ht : AllSteps Kernel.step (fun _ _ _ => True) (Kernel.boot mc) es :=
    allSteps_of_forall (A := fun _ => True) (fun _ _ _ _ => trivial) fun _ _ => trivial
  obtain ⟨b, hb, g, -⟩ := run_invariant (J := fun _ => True) (fun _ _ _ _ _ _ _ _ _ _ _ _ => trivial) (boot_rep mc)
    (boot_good mc) trivial ht he
  exact ⟨b, hb, g⟩

end ZeosSOA.Sysenter
