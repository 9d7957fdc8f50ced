import Mathlib.Data.Fintype.Card
import ZeosSOA.Sysenter.Good

/-!
# ZeOSSysenter: the kernel refines the kernel over sequences

`Rep s a`: the list memory of `s` holds the sequences of `a`, and what `a` knows of tasks,
semaphores and memory is as in `s`. Each function of the kernel is matched by its counterpart, and a step
of the kernel is a step over sequences.
-/

namespace ZeosSOA.Sysenter

open Intrusive

/-! ## The representation -/

structure Rep (s : Kernel) (a : AbsKernel) : Prop where
  rings : s.links.Rings Set.univ a.queue
  task : ∀ t, (s.task t).core = a.task t
  current : s.current = a.current
  idleTask : s.idleTask = some a.idleTask
  remainingQuantum : s.remainingQuantum = a.remainingQuantum
  sem : s.sem = a.sem
  behind : s.behind = a.behind
  mm : s.mm = a.mm
  globalPID : s.globalPID = a.globalPID
  globalTID : s.globalTID = a.globalTID

namespace Rep

open Kernel (SemCheck)

section
variable {s : Kernel} {a : AbsKernel}

theorem apart (h : Rep s a) : AbsKernel.Apart a.queue :=
  ⟨fun i => h.rings.nodup i trivial, fun i j t => h.rings.apart i trivial j trivial t⟩

theorem cur (h : Rep s a) : (s.task s.current).core = a.task a.current := by rw [h.task, h.current]

theorem idle_iff (h : Rep s a) (t : TaskId) : s.idleTask ≠ some t ↔ t ≠ a.idleTask := by
  rw [h.idleTask, ne_eq, Option.some_inj]
  exact ne_comm

theorem not_idle (h : Rep s a) : s.idleTask ≠ some s.current ↔ a.current ≠ a.idleTask := by rw [h.idle_iff, h.current]

/-! ## Changes outside the lists -/

theorem modTask (h : Rep s a) (t : TaskId) {f : TaskStruct → TaskStruct} {g : TaskCore → TaskCore}
    (hfg : (f (s.task t)).core = g (a.task t)) : Rep (s.modTask t f) (a.modTask t g) :=
  { h with
    task := fun u => by
      simp only [Kernel.modTask, AbsKernel.modTask, Function.update_apply]
      split
      · exact hfg
      · exact h.task u }

theorem modTask_core (h : Rep s a) (t : TaskId) {f : TaskStruct → TaskStruct}
    (hf : (f (s.task t)).core = (s.task t).core) : Rep (s.modTask t f) a :=
  { h with
    task := fun u => by
      simp only [Kernel.modTask, Function.update_apply]
      split
      · rename_i e; rw [hf, h.task, e]
      · exact h.task u }

theorem setState (h : Rep s a) (t : TaskId) (st : TaskState) : Rep (s.setState t st) (a.setState t st) :=
  h.modTask t (by rw [← h.task t]; rfl)

theorem getTicks (h : Rep s a) : Rep s.getTicks.2 a := { h with }

theorem updateStats (h : Rep s a) (t : TaskId) (v : TickCounter) : Rep (s.updateStats t v) a :=
  h.getTicks.modTask_core t (f := fun c => { c with pStats := Kernel.addTicks c.pStats v s.getTicks.1 }) rfl

theorem initStats (h : Rep s a) (t : TaskId) : Rep (s.initStats t) a :=
  h.getTicks.getTicks.modTask_core t (f := fun c => { c with pStats := _ }) rfl

theorem setInterrupted (h : Rep s a) (t : TaskId) (b : Bool) : Rep (s.setInterrupted t b) a := { h with }

theorem setMm (h : Rep s a) (m : Mm) : Rep (s.setMm m) (a.setMm m) := { h with mm := rfl }

theorem setSem (h : Rep s a) (tab : SemTable) (i : Fin numSem) (v : SemT) :
    Rep (s.setSem tab i v) (a.setSem tab i v) :=
  { h with sem := by simp only [Kernel.setSem, AbsKernel.setSem, h.sem] }

/-! ## List operations -/

theorem listEmpty (h : Rep s a) (i : Queue) : s.listEmpty i = true ↔ a.queue i = [] :=
  listEmpty_rings h.rings trivial

theorem listFirst (h : Rep s a) {i : Queue} {t : TaskId} {ts : List TaskId} (hq : a.queue i = t :: ts) :
    s.listFirst i = some (.anchor t) :=
  listFirst_rings h.rings trivial hq

theorem listFirst_nil (h : Rep s a) {i : Queue} (hq : a.queue i = []) : s.listFirst i = some (.head i) := by
  have := ring_next_head (h.rings.ring i trivial)
  rwa [hq] at this

theorem listAddTail (h : Rep s a) {t : TaskId} (ht : ∀ i, t ∉ a.queue i) (i : Queue) :
    ∃ s', s.listAddTail (.anchor t) i = some s' ∧ Rep s' (a.push i t) := by
  obtain ⟨l, hl, hr⟩ := listAddTail_rings h.rings (fun j _ => ht j) (Set.mem_univ i)
  exact ⟨{ s with links := l }, by simp [Kernel.listAddTail, hl], { h with rings := hr }⟩

theorem listAdd (h : Rep s a) {t : TaskId} (ht : ∀ i, t ∉ a.queue i) (i : Queue) :
    ∃ s', s.listAdd (.anchor t) i = some s' ∧ Rep s' (a.setQueue i (t :: a.queue i)) := by
  obtain ⟨l, hl, hr⟩ := listAdd_rings h.rings (fun j _ => ht j) (Set.mem_univ i)
  exact ⟨{ s with links := l }, by simp [Kernel.listAdd, hl], { h with rings := hr }⟩

theorem listDel (h : Rep s a) {i : Queue} {t : TaskId} {ts : List TaskId} (hq : a.queue i = t :: ts) :
    ∃ s', s.listDel (.anchor t) = some s' ∧ Rep s' (a.setQueue i ts) := by
  obtain ⟨l, hl, hr⟩ := listDel_rings h.rings (Set.mem_univ i) (show a.queue i = [] ++ t :: ts from hq)
  exact ⟨{ s with links := l }, by simp [Kernel.listDel, hl], { h with rings := hr }⟩

theorem initListHead (h : Rep s a) (i : Queue) : Rep (s.initListHead (.head i)) (a.setQueue i []) :=
  { h with
    rings := by
      have := initListHead_rings h.rings i
      rwa [Set.insert_eq_of_mem (Set.mem_univ i)] at this }

/-! ## Scheduling -/

theorem dispatch (h : Rep s a) (t : TaskId) (ebp : Nat) : Rep (s.dispatch t ebp) (a.dispatch t) := by
  have h1 := h.setState t .run
  have hq : (s.setState t .run).getQuantum t = (a.task t).totalQuantum := by
    simp [Kernel.getQuantum, Kernel.setState, Kernel.modTask, ← h.task t, TaskStruct.core]
  have h2 : Rep { s.setState t .run with remainingQuantum := (s.setState t .run).getQuantum t }
      { a.setState t .run with remainingQuantum := (a.task t).totalQuantum } :=
    { h1 with remainingQuantum := hq }
  have h3 := (h2.updateStats (s.setState t .run).current .system).updateStats t .ready
  have h4 := h3.modTask_core t (f := fun c => { c with
    pStats := { c.pStats with totalTrans := c.pStats.totalTrans + 1 } }) rfl
  have h5 := h4.modTask_core s.current (f := fun c => { c with registerEsp := some ⟨s.current, ebp⟩ }) rfl
  exact { h5 with current := rfl }

theorem schedNextRr (h : Rep s a) (ebp : Nat) :
    ∃ s', s.schedNextRr ebp = some s' ∧ Rep s' a.schedNextRr := by
  unfold Kernel.schedNextRr Kernel.nextTask AbsKernel.schedNextRr AbsKernel.nextTask
  cases hq : a.queue .readyqueue with
  | nil =>
    have he := (h.listEmpty .readyqueue).mpr hq
    exact ⟨s.dispatch a.idleTask ebp, by simp [he, h.idleTask], h.dispatch _ _⟩
  | cons t ts =>
    have he : ¬ s.listEmpty .readyqueue = true := by rw [h.listEmpty, hq]; exact List.cons_ne_nil _ _
    obtain ⟨s1, e1, h1⟩ := h.listDel hq
    refine ⟨s1.dispatch t ebp, ?_, h1.dispatch _ _⟩
    simp [he, h.listFirst hq, e1, Kernel.listHeadToTaskStruct]

theorem updateProcessStateRr (h : Rep s a) (g : a.Good) :
    ∃ s', s.updateProcessStateRr s.current (some .readyqueue) = some s' ∧
      Rep s' ((a.push .readyqueue a.current).setState a.current .ready) := by
  have hr : (s.task a.current).state = .run := (congrArg TaskCore.state (h.task a.current)).trans g.run
  obtain ⟨s1, e1, h1⟩ := h.listAddTail g.current .readyqueue
  refine ⟨_, ?_, (h1.updateStats a.current .system).setState a.current .ready⟩
  simp [Kernel.updateProcessStateRr, hr, h.current, e1]

theorem forceTaskSwitch (h : Rep s a) (g : a.Good) (ebp : Nat) :
    ∃ s', s.forceTaskSwitch ebp = some s' ∧ Rep s' a.forceTaskSwitch := by
  obtain ⟨s1, e1, h1⟩ := h.updateProcessStateRr g
  obtain ⟨s2, e2, h2⟩ := h1.schedNextRr ebp
  exact ⟨s2, by simp [Kernel.forceTaskSwitch, e1, e2], h2⟩

theorem schedule (h : Rep s a) (g : a.Good) (ebp : Nat) :
    ∃ s', s.schedule ebp = some s' ∧ Rep s' a.clock := by
  have h1 : Rep s.updateSchedDataRr { a with remainingQuantum := a.remainingQuantum - 1 } :=
    { h with remainingQuantum := by simp only [Kernel.updateSchedDataRr, h.remainingQuantum] }
  have g1 : AbsKernel.Good { a with remainingQuantum := a.remainingQuantum - 1 } := { g with }
  have hrem : s.updateSchedDataRr.remainingQuantum = a.remainingQuantum - 1 := h1.remainingQuantum
  unfold Kernel.schedule Kernel.needsSchedRr AbsKernel.clock
  dsimp only
  rw [hrem]
  by_cases hr : a.remainingQuantum - 1 = 0
  · by_cases hq : a.queue .readyqueue = []
    · have he := (h1.listEmpty .readyqueue).mpr hq
      refine ⟨{ s.updateSchedDataRr with remainingQuantum := s.getQuantum s.current }, ?_, ?_⟩
      · simp [hr, he]; rfl
      · rw [if_neg (by simpa using hr), if_pos hq]
        exact { h with remainingQuantum := congrArg TaskCore.totalQuantum h.cur }
    · have he : ¬ s.updateSchedDataRr.listEmpty .readyqueue = true := by rwa [h1.listEmpty]
      obtain ⟨s1, e1, h2⟩ := h1.forceTaskSwitch g1 ebp
      refine ⟨s1, ?_, ?_⟩
      · simpa [hr, he, Kernel.forceTaskSwitch] using e1
      · rw [if_neg (by simpa using hr), if_neg hq]; exact AbsKernel.forceTaskSwitch_rem a _ ▸ h2
  · refine ⟨s.updateSchedDataRr, ?_, ?_⟩
    · simp [hr]
    · rw [if_pos hr]; exact h1

theorem clockHandler (h : Rep s a) (g : a.Good) (ebp : Nat) :
    ∃ s', s.clockHandler ebp = some s' ∧ Rep s' a.clock := by
  have h1 := (h.updateStats s.current .user).setInterrupted s.current true
  exact schedule (s := { s.userToSystem.setInterrupted s.current true with zeosTicks := s.zeosTicks + 1 })
    { h1 with } g ebp

theorem resume (h : Rep s a) : Rep s.resume a := by
  unfold Kernel.resume
  split
  · exact (h.updateStats s.current .system).setInterrupted _ _
  · exact h

/-! ## Processes and threads -/

theorem copyTaskUnion (h : Rep s a) {dst : TaskId} (hd : ∀ i, dst ∉ a.queue i) :
    Rep (s.copyTaskUnion s.current dst) (a.copyTask dst (a.task a.current).dirPagesBaseAddr) :=
  { h with
    rings := rings_congr h.rings fun i _ n hn => by
      have : n ≠ .anchor dst := by rintro rfl; exact anchor_not_mem_cycle (hd i) hn
      simp [Kernel.copyTaskUnion, this]
    task := fun u => by
      simp only [Kernel.copyTaskUnion, AbsKernel.copyTask, Function.update_apply]
      split
      · exact h.cur
      · exact h.task u }

theorem allocateDIR (h : Rep s a) (t : TaskId) :
    Rep (s.allocateDIR t) (a.modTask t fun c => { c with dirPagesBaseAddr := some t.val }) :=
  h.modTask t (by rw [← h.task t]; rfl)

theorem resetSemafors (h : Rep s a) (tab : SemTable) : Rep (s.resetSemafors tab) (a.resetSemafors tab) := by
  have key : ∀ (is : List (Fin numSem)) {s : Kernel} {a : AbsKernel}, Rep s a →
      Rep (is.foldl (fun s i => (s.setSem tab i AbsKernel.freeSem).initListHead (.head (.blocked tab i))) s)
        (is.foldl (fun a i => (a.setSem tab i AbsKernel.freeSem).setQueue (.blocked tab i) []) a) := by
    intro is
    induction is with
    | nil => exact fun h => h
    | cons i is ih => exact fun h => ih ((h.setSem tab i _).initListHead _)
  rw [← AbsKernel.foldl_finRange_resetSemafors]
  exact key _ h

def Ret (p : Int × Kernel) (r : Int × AbsKernel) : Prop := p.1 = r.1 ∧ Rep p.2 r.2

theorem forkStart (h : Rep s a) {child : TaskId} (hc : ∀ i, child ∉ a.queue i) (ebp : Nat) :
    ∃ s', (((({ s with globalPID := s.globalPID + 1 } : Kernel).modTask child fun c => { c with
        PID := s.globalPID + 1, state := .ready, registerEsp := some ⟨child, ebp - 4⟩ }).setInterrupted child
        false).initStats child).listAddTail (.anchor child) .readyqueue = some s' ∧ Rep s' (a.forkStart child) := by
  have h1 : Rep { s with globalPID := s.globalPID + 1 } { a with globalPID := a.globalPID + 1 } :=
    { h with globalPID := by rw [h.globalPID] }
  have h2 := h1.modTask child (f := fun c => { c with
      PID := s.globalPID + 1, state := .ready, registerEsp := some ⟨child, ebp - 4⟩ })
    (g := fun c => { c with PID := a.globalPID + 1, state := .ready }) (by
      rw [← h1.task child, h.globalPID]; rfl)
  exact ((h2.setInterrupted child false).initStats child).listAddTail hc .readyqueue

theorem sysFork (h : Rep s a) (hfree : a.current ∉ a.queue .freequeue) (ebp : Nat) :
    Option.Rel Ret (s.sysFork ebp) a.fork := by
  unfold Kernel.sysFork AbsKernel.fork
  cases hq : a.queue .freequeue with
  | nil =>
    rw [if_pos ((h.listEmpty .freequeue).mpr hq)]
    exact .some ⟨rfl, h⟩
  | cons child rest =>
    have he : ¬ s.listEmpty .freequeue = true := by rw [h.listEmpty, hq]; exact List.cons_ne_nil _ _
    have hcc : a.current ≠ child := fun e => hfree (by rw [hq, e]; exact List.mem_cons_self)
    obtain ⟨s1, e1, h1⟩ := h.listDel hq
    have h2 := h1.copyTaskUnion (h.apart.pop hq)
    rw [if_neg he, h.listFirst hq]
    simp only [Option.bind_eq_bind, Option.bind_some, e1, Kernel.listHeadToTaskStruct]
    have hsem : ((s1.copyTaskUnion s1.current child).task child).semafors = (a.task a.current).semafors :=
      (congrArg TaskCore.semafors (h2.task child)).trans (by simp [AbsKernel.copyTask, AbsKernel.setQueue])
    rw [hsem]
    cases (a.task a.current).semafors with
    | none => exact .none
    | some tab =>
      simp only [Option.bind_some]
      have h3 : Rep (((s1.copyTaskUnion s1.current child).resetSemafors tab).allocateDIR child)
          (a.forkChild child rest tab) := by
        have := (h2.resetSemafors tab).allocateDIR child
        simpa [AbsKernel.forkChild, AbsKernel.modTask, AbsKernel.resetSemafors, AbsKernel.copyTask,
          AbsKernel.setQueue] using this
      have hpt : (((s1.copyTaskUnion s1.current child).resetSemafors tab).allocateDIR child).getPT child =
          some child.val := by simp [Kernel.getPT, Kernel.allocateDIR, Kernel.modTask]
      generalize ((s1.copyTaskUnion s1.current child).resetSemafors tab).allocateDIR child = s3 at h3 hpt ⊢
      have hb : ∀ j, child ∉ (a.forkChild child rest tab).queue j := AbsKernel.forkChild_not_mem h.apart hq tab
      have hcur : (s3.task s3.current).core = a.task a.current :=
        h3.cur.trans (AbsKernel.forkChild_task hcc)
      rw [hpt, show s3.mm = a.mm from h3.mm]
      simp only [Option.bind_some]
      rcases forkAllocData child.val numPagData 0 a.mm with ⟨_ | _, mm⟩
      · obtain ⟨s4, e4, h4⟩ := (h3.setMm mm).listAddTail hb .freequeue
        simp only [e4, Option.bind_some]
        exact .some ⟨rfl, h4⟩
      · rw [show s3.getPT s3.current = (a.task a.current).dirPagesBaseAddr from
          congrArg TaskCore.dirPagesBaseAddr hcur, show (s3.task s3.current).heapStartProc = _ from
          congrArg TaskCore.heapStartProc hcur, show (s3.task s3.current).heapPointerProc = _ from
          congrArg TaskCore.heapPointerProc hcur]
        cases (a.task a.current).dirPagesBaseAddr with
        | none => exact .none
        | some parentPT =>
          simp only [Option.bind_some]
          cases forkMap child.val parentPT (a.task a.current).heapStartProc (a.task a.current).heapPointerProc mm with
          | none => exact .none
          | some mm =>
            obtain ⟨s4, e4, h4⟩ := (h3.setMm mm).forkStart hb ebp
            simp only [Option.bind_some, e4]
            exact .some ⟨h4.globalPID, h4⟩

theorem setHeapPointer (h : Rep s a) (hp : Nat) : Rep (s.setHeapPointer s.current hp) (a.setHeapPointer hp) := by
  unfold AbsKernel.setHeapPointer
  rw [← h.current]
  exact h.modTask s.current (by rw [← h.task]; rfl)

theorem getPT (h : Rep s a) : s.getPT s.current = (a.task a.current).dirPagesBaseAddr :=
  congrArg TaskCore.dirPagesBaseAddr h.cur

theorem heapStartProc (h : Rep s a) : (s.task s.current).heapStartProc = (a.task a.current).heapStartProc :=
  congrArg TaskCore.heapStartProc h.cur

theorem heapPointerProc (h : Rep s a) :
    (s.task s.current).heapPointerProc = (a.task a.current).heapPointerProc :=
  congrArg TaskCore.heapPointerProc h.cur

theorem leave (h : Rep s a) (hc : ∀ i, a.current ∉ a.queue i) (ebp : Nat) :
    ∃ s1 s2, s.listAddTail (.anchor s.current) .freequeue = some s1 ∧ s1.schedNextRr ebp = some s2 ∧
      Rep s1 (a.push .freequeue a.current) ∧ Rep s2 a.leave := by
  obtain ⟨s1, e1, h1⟩ := h.listAddTail hc .freequeue
  obtain ⟨s2, e2, h2⟩ := h1.schedNextRr ebp
  exact ⟨s1, s2, h.current ▸ e1, e2, h1, h2⟩

theorem sysExit (h : Rep s a) (g : a.Good) (ebp : Nat) : Option.Rel Rep (s.sysExit ebp) a.exit := by
  unfold Kernel.sysExit AbsKernel.exit
  rw [h.getPT, h.heapStartProc, h.heapPointerProc, h.mm]
  cases (a.task a.current).dirPagesBaseAddr with
  | none => exact .none
  | some pt =>
    simp only [Option.bind_eq_bind, Option.bind_some]
    cases releaseHeap pt (a.task a.current).heapStartProc pointerRounds (a.task a.current).heapPointerProc
        (releaseData pt numPagData a.mm) with
    | none => exact .none
    | some r =>
      have h1 : Rep ((s.setMm r.2).setHeapPointer s.current r.1) _ := (h.setMm r.2).setHeapPointer r.1
      obtain ⟨s2, -, e2, -, h2, -⟩ := h1.leave g.current ebp
      have h3 := h2.modTask s2.current (f := fun c => { c with PID := -1 }) (g := fun c => { c with PID := -1 })
        (by rw [← h2.task]; rfl)
      obtain ⟨s4, e4, h4⟩ := h3.schedNextRr ebp
      rw [h2.current] at h4
      simp only [Option.bind_some, e2, e4]
      exact .some h4

theorem sysThreadExit (h : Rep s a) (g : a.Good) (ebp : Nat) :
    Option.Rel Rep (s.sysThreadExit ebp) a.threadExit := by
  unfold Kernel.sysThreadExit AbsKernel.threadExit
  rw [h.getPT, h.heapPointerProc, h.mm]
  cases (a.task a.current).dirPagesBaseAddr with
  | none => exact .none
  | some pt =>
    dsimp only [Option.bind_eq_bind, Option.bind_some]
    generalize releasePage pt a.mm ((a.task a.current).heapPointerProc / pageSize) = m
    generalize subPage (a.task a.current).heapPointerProc = hp
    have h1 : Rep ((s.setMm m).setHeapPointer s.current hp) _ := (h.setMm m).setHeapPointer hp
    obtain ⟨s2, s3, e2, e3, -, h3⟩ := h1.leave g.current ebp
    simp only [e2, Option.bind_some, e3]
    exact .some h3

theorem sysSbrk (h : Rep s a) (size : Int) :
    Option.Rel Rep ((s.sysSbrk size).map Prod.snd) (a.sbrk size) := by
  unfold Kernel.sysSbrk AbsKernel.sbrk
  by_cases hs : size = 0
  · simp only [hs]; exact .some h
  · simp only [hs, h.getPT, h.heapStartProc, h.heapPointerProc, h.mm]
    cases (a.task a.current).dirPagesBaseAddr with
    | none => exact .none
    | some pt =>
      simp only [Option.bind_eq_bind, Option.bind_some]
      cases sbrkHeap pt (a.task a.current).heapStartProc (a.task a.current).heapPointerProc size a.mm with
      | none => exact .none
      | some r => exact .some ((h.setMm r.2.2).setHeapPointer r.2.1)

theorem threadChild {child : TaskId} {rest : List TaskId}
    (h : Rep s ((a.setQueue .freequeue rest).copyTask child (a.task a.current).dirPagesBaseAddr)) (hcc : a.current ≠ child) :
    Rep (({ s with globalTID := s.globalTID + 1 } : Kernel).modTask child fun c => { c with
        TID := s.globalTID + 1, PID := (s.task s.current).PID, state := .ready
        semafors := (s.task s.current).semafors }) (a.threadChild child rest) := by
  have hp : (s.task s.current).core = a.task a.current :=
    h.cur.trans (by simp [AbsKernel.copyTask, AbsKernel.setQueue, hcc])
  have hchild : ((a.setQueue .freequeue rest).copyTask child (a.task a.current).dirPagesBaseAddr).task child =
      a.task a.current := by
    simp [AbsKernel.copyTask, AbsKernel.setQueue]
  have hc : (s.task child).core = a.task a.current := (h.task child).trans hchild
  have h3 : Rep ({ s with globalTID := s.globalTID + 1 } : Kernel) { (a.setQueue .freequeue rest).copyTask child
      (a.task a.current).dirPagesBaseAddr with globalTID := a.globalTID + 1 } :=
    { h with globalTID := by simp only [h.globalTID]; rfl }
  refine h3.modTask child (f := _) (g := fun c => { c with TID := a.globalTID + 1, state := .ready }) ?_
  have hpid : (s.task s.current).PID = (s.task child).PID := congrArg TaskCore.PID (hp.trans hc.symm)
  have hsem : (s.task s.current).semafors = (s.task child).semafors := congrArg TaskCore.semafors (hp.trans hc.symm)
  have hglobal : s.globalTID = a.globalTID := h.globalTID
  dsimp only
  rw [hchild, hpid, hsem, hglobal, ← hc]
  rfl

theorem sysThreadCreate (h : Rep s a) (g : a.Good) (function parameter wrapp : UInt32)
    (hok : s.threadArgsOk function parameter wrapp = true) :
    Option.Rel Ret (s.sysThreadCreate function parameter wrapp) (a.threadCreate function parameter) := by
  unfold Kernel.sysThreadCreate AbsKernel.threadCreate
  simp only [hok, not_true_eq_false, if_false]
  cases hq : a.queue .freequeue with
  | nil =>
    rw [if_pos ((h.listEmpty .freequeue).mpr hq)]
    exact .some ⟨rfl, h⟩
  | cons child rest =>
    have he : ¬ s.listEmpty .freequeue = true := by rw [h.listEmpty, hq]; exact List.cons_ne_nil _ _
    have hcc : a.current ≠ child := fun e => g.current .freequeue (by rw [hq, e]; exact List.mem_cons_self)
    obtain ⟨s1, e1, h1⟩ := h.listDel hq
    have h2 := h1.copyTaskUnion (h.apart.pop hq)
    rw [if_neg he, h.listFirst hq]
    simp only [Option.bind_eq_bind, Option.bind_some, e1, Kernel.listHeadToTaskStruct]
    generalize s1.copyTaskUnion s1.current child = s2 at h2 ⊢
    have h3 := h2.threadChild hcc
    generalize (({ s2 with globalTID := s2.globalTID + 1 } : Kernel).modTask child fun c => { c with
        TID := s2.globalTID + 1, PID := (s2.task s2.current).PID, state := .ready
        semafors := (s2.task s2.current).semafors }) = s3 at h3 ⊢
    have hcur : (s3.task s3.current).core = a.task a.current := h3.cur.trans (AbsKernel.threadChild_task hcc)
    have hdir : s3.getPT child = (a.task a.current).dirPagesBaseAddr :=
      (congrArg TaskCore.dirPagesBaseAddr (h3.task child)).trans
        (by simp [AbsKernel.threadChild, AbsKernel.modTask, AbsKernel.copyTask, AbsKernel.setQueue])
    have hout : ∀ j, child ∉ (a.threadChild child rest).queue j := h.apart.pop hq
    rw [show (s3.task s3.current).heapPointerProc = (a.task a.current).heapPointerProc from
      congrArg TaskCore.heapPointerProc hcur, show (s3.task s3.current).heapStartProc = _ from
      congrArg TaskCore.heapStartProc hcur, hdir, show s3.mm = a.mm from h3.mm]
    by_cases hpg : (a.task a.current).heapPointerProc / pageSize > totalPages
    · rw [if_pos hpg, if_pos hpg]
      exact .some ⟨rfl, h3⟩
    rw [if_neg hpg, if_neg hpg]
    cases hpt : (a.task a.current).dirPagesBaseAddr with
    | none => exact .none
    | some pt =>
      simp only [Option.bind_some]
      obtain ⟨frame, mm⟩ := a.mm.allocFrame
      by_cases hf : frame ≠ -1
      · rw [if_pos hf, if_pos hf]
        simp only [Kernel.setMm_task, Kernel.setMm_current, Kernel.setHeapPointer_current,
          Kernel.setHeapPointer_mm]
        rw [show (s3.task s3.current).heapPointerProc = (a.task a.current).heapPointerProc from
          congrArg TaskCore.heapPointerProc hcur]
        generalize hm : mm.setSsPag pt ((a.task a.current).heapPointerProc / pageSize) frame = m
        have h4 : Rep ((s3.setMm m).setHeapPointer s3.current (addPage (a.task a.current).heapPointerProc)) _ :=
          (h3.setMm m).setHeapPointer _
        have hpt4 : ((s3.setMm m).setHeapPointer s3.current (addPage (a.task a.current).heapPointerProc)).getPT
            s3.current = some pt := by
          have : (s3.task s3.current).dirPagesBaseAddr = some pt :=
            (congrArg TaskCore.dirPagesBaseAddr hcur).trans hpt
          simpa [Kernel.getPT, Kernel.setHeapPointer, Kernel.modTask] using this
        rw [hpt4, Option.bind_some, show (s3.setMm m).mm = m from rfl]
        cases Kernel.writeUstack m pt ((a.task a.current).heapPointerProc / pageSize) function parameter with
        | none => exact .none
        | some m' =>
          have h5 := ((((h4.setMm m').modTask_core child (f := fun c => { c with
            ustack := ((a.task a.current).heapPointerProc / pageSize) <<< 12
            registerEsp := some ⟨child, 4 * (kernelStackSize - 18)⟩ }) rfl).setInterrupted child false).initStats child)
          obtain ⟨s5, e5, h6⟩ := h5.listAddTail hout .readyqueue
          simp only [Option.bind_some, e5]
          refine .some ⟨(congrArg TaskCore.TID (h6.task child)).trans ?_, h6⟩
          simp [AbsKernel.push, AbsKernel.setQueue, AbsKernel.setHeapPointer, AbsKernel.setMm, AbsKernel.modTask,
            AbsKernel.threadChild, AbsKernel.copyTask, hcc.symm]
      · rw [if_neg hf, if_neg hf]
        simp only
        cases releaseHeap pt (a.task a.current).heapStartProc pointerRounds (a.task a.current).heapPointerProc mm with
        | none => exact .none
        | some r =>
          have h4 : Rep ((s3.setMm r.2).setHeapPointer s3.current r.1) _ := (h3.setMm r.2).setHeapPointer r.1
          obtain ⟨s5, e5, h5⟩ := h4.listAddTail hout .freequeue
          simp only [Option.bind_some, e5]
          exact .some ⟨rfl, h5⟩

/-! ## Semaphores -/

theorem semCheck (h : Rep s a) (semID : Int) : s.semCheck semID = a.semCheck semID := by
  unfold Kernel.semCheck AbsKernel.semCheck
  simp only [h.sem, h.behind, show (s.task s.current).semafors = (a.task a.current).semafors from
    congrArg TaskCore.semafors h.cur, show (s.task s.current).PID = (a.task a.current).PID from
    congrArg TaskCore.PID h.cur]

theorem sysSemCreate (h : Rep s a) (value : Int) : Option.Rel Ret (s.sysSemCreate value) (a.semCreate value) := by
  unfold Kernel.sysSemCreate AbsKernel.semCreate
  rw [show (s.task s.current).semafors = (a.task a.current).semafors from congrArg TaskCore.semafors h.cur,
    show (s.task s.current).PID = (a.task a.current).PID from congrArg TaskCore.PID h.cur, h.sem]
  cases (a.task a.current).semafors with
  | none => exact .none
  | some tab =>
    simp only [Option.bind_eq_bind, Option.bind_some]
    cases (List.finRange numSem).find? fun i => decide ((a.sem tab i).semid = -1) with
    | some i => exact .some ⟨rfl, (h.setSem tab i _).initListHead _⟩
    | none => exact .some ⟨rfl, h⟩

theorem addCount (h : Rep s a) (tab : SemTable) (i : Fin numSem) (d : Int) :
    Rep (s.setCount tab i (toInt32 ((s.sem tab i).count + d))) (a.addCount tab i d) := by
  unfold Kernel.setCount AbsKernel.addCount
  rw [h.sem]
  exact h.setSem tab i _

theorem sysSemWait (h : Rep s a) (g : a.Good) (semID : Int) (ebp : Nat) :
    Option.Rel Rep ((s.sysSemWait semID ebp).map Prod.snd) (a.semWait semID) := by
  unfold Kernel.sysSemWait AbsKernel.semWait
  rw [h.semCheck]
  rcases a.semCheck semID with _ | _ | ⟨tab, i⟩
  · exact .none
  · exact .some h
  · simp only [Option.bind_eq_bind, Option.bind_some]
    have h1 : Rep (s.setCount tab i (toInt32 ((s.sem tab i).count - 1))) (a.addCount tab i (-1)) :=
      h.addCount tab i (-1)
    generalize s.setCount tab i (toInt32 ((s.sem tab i).count - 1)) = s1 at h1 ⊢
    have hg : ∀ j, (a.addCount tab i (-1)).current ∉ (a.addCount tab i (-1)).queue j := g.current
    generalize a.addCount tab i (-1) = b at h1 hg ⊢
    rw [h1.sem]
    by_cases hc : (b.sem tab i).count < 0
    · rw [if_pos hc, if_pos hc, h1.current]
      obtain ⟨s2, e2, h2⟩ := (h1.setState b.current .blocked).listAdd hg (.blocked tab i)
      obtain ⟨s3, e3, h3⟩ := h2.schedNextRr ebp
      simp only [e2, e3, Option.bind_some]
      exact .some h3
    · rw [if_neg hc, if_neg hc]
      exact .some h1

theorem sysSemSignal (h : Rep s a) (semID : Int) :
    Option.Rel Rep ((s.sysSemSignal semID).map Prod.snd) (a.semSignal semID) := by
  unfold Kernel.sysSemSignal AbsKernel.semSignal
  rw [h.semCheck]
  rcases a.semCheck semID with _ | _ | ⟨tab, i⟩
  · exact .none
  · exact .some h
  · simp only [Option.bind_eq_bind, Option.bind_some]
    have h1 := h.addCount tab i 1
    generalize s.setCount tab i (toInt32 ((s.sem tab i).count + 1)) = s1 at h1 ⊢
    generalize a.addCount tab i 1 = b at h1 ⊢
    rw [h1.sem]
    by_cases hc : (b.sem tab i).count ≤ 0
    · rw [if_pos hc, if_pos hc]
      unfold AbsKernel.wake
      cases hq : b.queue (.blocked tab i) with
      | nil =>
        rw [h1.listFirst_nil hq, Option.bind_some]
        cases s1.listDel (.head (.blocked tab i)) <;> exact .none
      | cons t ts =>
        obtain ⟨s2, e2, h2⟩ := h1.listDel hq
        obtain ⟨s3, e3, h3⟩ := (h2.setState t .ready).listAdd (h1.apart.pop hq) .readyqueue
        simp only [h1.listFirst hq, e2, e3, Option.bind_some, Kernel.listHeadToTaskStruct]
        exact .some h3
    · rw [if_neg hc, if_neg hc]
      exact .some h1

theorem wakeAll (tab : SemTable) (i : Fin numSem) : ∀ (fuel : Nat) {s : Kernel} {a : AbsKernel}, Rep s a →
    (a.queue (.blocked tab i)).length < fuel →
    ∃ s', s.wakeAll tab i fuel = some s' ∧ Rep s' (a.wakeAll tab i)
  | 0, _, _, _, hf => by simp at hf
  | fuel + 1, s, a, h, hf => by
    unfold Kernel.wakeAll
    cases hq : a.queue (.blocked tab i) with
    | nil =>
      rw [if_pos ((h.listEmpty _).mpr hq), AbsKernel.wakeAll_nil hq]
      exact ⟨s, rfl, h⟩
    | cons t ts =>
      have he : ¬ s.listEmpty (.blocked tab i) = true := by rw [h.listEmpty, hq]; exact List.cons_ne_nil _ _
      obtain ⟨s1, e1, h1⟩ := h.listDel hq
      obtain ⟨s2, e2, h2⟩ := (h1.setState t .ready).listAddTail (h.apart.pop hq) .readyqueue
      obtain ⟨s3, e3, h3⟩ := wakeAll tab i fuel h2 (by
        rw [hq] at hf
        simpa [AbsKernel.push, AbsKernel.setQueue, AbsKernel.setState, AbsKernel.modTask] using hf)
      refine ⟨s3, ?_, AbsKernel.wakeAll_cons hq ▸ h3⟩
      simp [he, h.listFirst hq, e1, e2, e3, Kernel.listHeadToTaskStruct]

theorem sysSemDestroy (h : Rep s a) (semID : Int) :
    Option.Rel Rep ((s.sysSemDestroy semID).map Prod.snd) (a.semDestroy semID) := by
  unfold Kernel.sysSemDestroy AbsKernel.semDestroy
  rw [h.semCheck]
  rcases a.semCheck semID with _ | _ | ⟨tab, i⟩
  · exact .none
  · exact .some h
  · have hl : (a.queue (.blocked tab i)).length < nrTasks + 1 := by
      have := (h.apart.nodup (.blocked tab i)).length_le_card
      rw [Fintype.card_fin] at this
      omega
    obtain ⟨s1, e1, h1⟩ := wakeAll tab i _ h hl
    simp only [Option.bind_eq_bind, Option.bind_some, e1]
    exact .some (h1.setSem tab i _)

/-! ## Steps -/

/-- Whether the arguments of a `sys_threadCreate` pass `access_ok`. -/
def argsOk (s : Kernel) : Kernel.Op → Bool
  | .threadCreate f p w => s.threadArgsOk f p w
  | _ => true

theorem ret_map {x : Option (Int × Kernel)} {y : Option (Int × AbsKernel)} (h : Option.Rel Ret x y) :
    Option.Rel Rep (x.map Prod.snd) (y.map Prod.snd) := by
  cases h with
  | some h => exact .some h.2
  | none => exact .none

theorem handle (h : Rep s a) (g : a.Good) (e : Kernel.Event) :
    Option.Rel Rep (s.handle e) (a.handle (argsOk s e.op) e.op) := by
  obtain ⟨op, ebp⟩ := e
  cases op <;> simp only [Kernel.handle, AbsKernel.handle]
  case clock =>
    obtain ⟨s', e', h'⟩ := h.clockHandler g ebp
    rw [e']; exact .some h'
  case yield =>
    obtain ⟨s', e', h'⟩ := h.forceTaskSwitch g ebp
    rw [Kernel.sysYield, e']; exact .some h'
  case exit => exact h.sysExit g ebp
  case fork => exact ret_map (h.sysFork (g.current _) ebp)
  case threadCreate f p w =>
    by_cases hok : argsOk s (.threadCreate f p w) = true
    · rw [if_pos hok]
      exact ret_map (h.sysThreadCreate g f p w hok)
    · have hret : s.sysThreadCreate f p w = some (-EFAULT, s) := if_pos hok
      rw [if_neg hok, hret]
      exact .some h
  case threadExit => exact h.sysThreadExit g ebp
  case sbrk size => exact h.sysSbrk size
  case semCreate value => exact ret_map (h.sysSemCreate value)
  case semWait semID => exact h.sysSemWait g semID ebp
  case semSignal semID => exact h.sysSemSignal semID
  case semDestroy semID => exact h.sysSemDestroy semID

/-- A step of the kernel is a step over sequences, and each stops when the other does. -/
theorem step (h : Rep s a) (g : a.Good) (e : Kernel.Event) :
    Option.Rel Rep (s.step e) (a.step (argsOk s e.op) e.op) := by
  unfold Kernel.step AbsKernel.step
  simp only [h.idleTask, h.current, Option.some_inj]
  split
  · exact .none
  · have hh := h.handle g e
    generalize s.handle e = x at hh
    generalize a.handle (argsOk s e.op) e.op = y at hh ⊢
    cases hh with
    | some h' => exact .some h'.resume
    | none => exact .none

end

end Rep

end ZeosSOA.Sysenter
