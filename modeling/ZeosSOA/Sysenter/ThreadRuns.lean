import ZeosSOA.Sysenter.Contexts
import ZeosSOA.Sysenter.Grants
import ZeosSOA.Sysenter.Partition

/-!
# ZeOSSysenter: sys_threadCreate at the end of the table

Each thread that is created moves its creator's heap pointer up by a page, and no exit of a thread moves it
back. The check against the end of the table lets the page number `TOTAL_PAGES` pass.
-/

namespace ZeosSOA.Sysenter

open Mm Runs

/-- The pages `releaseHeap` removes. -/
def releaseHeapPages (heapStart : Nat) : Nat → Nat → List Nat
  | 0, _ => []
  | fuel + 1, hp =>
    if hp < heapStart then hp / pageSize :: releaseHeapPages heapStart fuel (subPage hp) else []

namespace Kernel

/-- The pages whose entries `sys_threadCreate` writes, also when it stops the machine afterwards. -/
def threadPages (s : Kernel) (function parameter wrapp : UInt32) : List Nat :=
  let c := s.task s.current
  if ¬ s.threadArgsOk function parameter wrapp then []
  else if s.listEmpty .freequeue then []
  else if c.heapPointerProc / pageSize > totalPages then []
  else if s.mm.allocFrame.1 ≠ -1 then [c.heapPointerProc / pageSize]
  else releaseHeapPages c.heapStartProc pointerRounds c.heapPointerProc

/-- A `sys_threadCreate` writes only entries of the caller's own table, and when it fails it leaves memory,
heap pointer and queues as they were. -/
structure CreatesCleanly (s : Kernel) (function parameter wrapp : UInt32) : Prop where
  inside : ∀ page ∈ s.threadPages function parameter wrapp, page < totalPages
  own : ∀ r s', s.sysThreadCreate function parameter wrapp = some (r, s') → ∀ pt, s.getPT s.current = some pt →
    Touches (fun k => ∃ page ∈ s.threadPages function parameter wrapp, k = pt * totalPages + page) s.mm s'.mm
  failed : ∀ r s', s.sysThreadCreate function parameter wrapp = some (r, s') → r < 0 →
    s'.mm = s.mm ∧ (s'.task s.current).heapPointerProc = (s.task s.current).heapPointerProc ∧
      s'.members .readyqueue = s.members .readyqueue ∧ ∀ t, t ∈ s'.members .freequeue ↔ t ∈ s.members .freequeue

end Kernel

section
variable {mc : Machine} {s s' : Kernel} {a : AbsKernel} {f p w : UInt32}

theorem Reachable.globalTID (h : Reachable mc s) : 0 ≤ s.globalTID := by
  obtain ⟨es, he⟩ := h
  refine exec_invariant (I := fun s : Kernel => ∃ a, Described s a) (P := fun _ _ _ => True) ?_
    ⟨_, boot_described mc⟩ ?_ he |>.elim fun a h => h.globalTID ▸ h.tid
  · rintro s e s' ⟨a, h⟩ - hs
    obtain ⟨b, -, h'⟩ := h.step hs
    exact ⟨b, h'⟩
  · exact allSteps_of_forall (A := fun _ => True) (fun _ _ _ _ => trivial) fun _ _ => trivial

theorem Rep.mapsStack (h : Rep s a) (hheap : HeapPtr (a.task a.current).heapPointerProc) :
    s.MapsStack f p w ↔ s.threadArgsOk f p w = true ∧ a.queue .freequeue ≠ [] ∧ a.mm.freeCount ≠ 0 := by
  have hle := hheap.page_le
  unfold Kernel.MapsStack
  rw [h.members, h.mm, h.topPage]
  exact ⟨fun ⟨h1, h2, _, h4⟩ => ⟨h1, h2, h4⟩, fun ⟨h1, h2, h4⟩ => ⟨h1, h2, hle, h4⟩⟩

theorem Rep.mem_threadPages (h : Rep s a) (hstart : (a.task a.current).heapStartProc = initHeap)
    (hheap : HeapPtr (a.task a.current).heapPointerProc) {page : Nat} :
    page ∈ s.threadPages f p w ↔ s.MapsStack f p w ∧ page = s.topPage := by
  have hpt : (s.task s.current).heapPointerProc = (a.task a.current).heapPointerProc :=
    congrArg TaskCore.heapPointerProc h.cur
  have hst : (s.task s.current).heapStartProc = initHeap :=
    (congrArg TaskCore.heapStartProc h.cur).trans hstart
  have hle := hheap.page_le
  rw [h.mapsStack hheap]
  unfold Kernel.threadPages
  dsimp only
  by_cases hok : s.threadArgsOk f p w = true
  swap
  · rw [if_pos hok]
    exact iff_of_false List.not_mem_nil fun hc => hok hc.1.1
  rw [if_neg (not_not.mpr hok)]
  by_cases hq : a.queue .freequeue = []
  · rw [if_pos ((h.listEmpty _).mpr hq)]
    exact iff_of_false List.not_mem_nil fun hc => hc.1.2.1 hq
  rw [if_neg fun he => hq ((h.listEmpty _).mp he), if_neg (by rw [hpt]; omega), h.mm]
  by_cases hf : a.mm.freeCount = 0
  · have hnil : releaseHeapPages initHeap pointerRounds (a.task a.current).heapPointerProc = [] :=
      if_neg (Nat.not_lt.mpr hheap.ge)
    rw [if_neg (not_not.mpr (allocFrame_eq_neg_one.mpr hf)), hst, hpt, hnil]
    exact iff_of_false List.not_mem_nil fun hc => hc.1.2.2 hf
  · rw [if_pos fun he => hf (allocFrame_eq_neg_one.mp he), List.mem_singleton]
    exact ⟨fun e => ⟨⟨hok, hq, hf⟩, e⟩, fun hc => hc.2⟩

/-- What a call that comes back has done: it made a thread on a new page, or failed and changed neither memory
nor the sequences, except that a free struct may have moved to the end of its own. -/
theorem threadCreate_effect {r : Int × AbsKernel} (hr : a.threadCreate f p = some r)
    (hstart : (a.task a.current).heapStartProc = initHeap) (hheap : HeapPtr (a.task a.current).heapPointerProc)
    (g : a.Good) :
    r.1 = a.globalTID + 1 ∧ a.queue .freequeue ≠ [] ∧ a.mm.freeCount ≠ 0 ∧ (∃ pt, (a.task a.current).dirPagesBaseAddr = some pt ∧
        Touches (fun k => k = pt * totalPages + (a.task a.current).heapPointerProc / pageSize) a.mm r.2.mm) ∨
      r.2.mm = a.mm ∧ (r.2.task a.current).heapPointerProc = (a.task a.current).heapPointerProc ∧
        r.2.queue .readyqueue = a.queue .readyqueue ∧ ∀ t, t ∈ r.2.queue .freequeue ↔ t ∈ a.queue .freequeue := by
  have hle := hheap.page_le
  rcases AbsKernel.threadCreate_cases hr with ⟨-, rfl⟩ | ⟨child, rest, hq, ⟨hpg, -⟩ | ⟨-, pt, hpt, hcase⟩⟩
  · exact .inr ⟨rfl, rfl, rfl, fun _ => .rfl⟩
  · omega
  rcases hcase with ⟨mm, hf, hmm, rfl⟩ | ⟨hp, mm, hf, hrel, rfl⟩
  · refine .inl ⟨rfl, by rw [hq]; exact List.cons_ne_nil _ _, fun h0 => hf (allocFrame_eq_neg_one.mpr h0), pt, hpt, ?_⟩
    have hset : Touches (fun k => k = pt * totalPages + (a.task a.current).heapPointerProc / pageSize) a.mm.allocFrame.2
        (a.mm.allocFrame.2.setSsPag pt ((a.task a.current).heapPointerProc / pageSize) a.mm.allocFrame.1) :=
      touches_setSsPag _ _ rfl
    exact ((touches_allocFrame a.mm).trans hset).trans (touches_writeUstack hmm).1
  · obtain ⟨rfl, rfl⟩ := releaseHeap_keeps (hstart ▸ hheap.ge) hrel
    refine .inr ⟨allocFrame_refused hf, ?_, ?_, fun t => ?_⟩
    · exact congrArg TaskCore.heapPointerProc
        ((AbsKernel.threadCreate_task (g.child_ne hq).1 rest _ _ a.current).trans (by rw [if_neg (g.child_ne hq).1, if_pos rfl]))
    · simp [AbsKernel.push, AbsKernel.setQueue, AbsKernel.setHeapPointer, AbsKernel.setMm, AbsKernel.modTask,
        AbsKernel.threadChild, AbsKernel.copyTask]
    · simp [AbsKernel.push, AbsKernel.setQueue, AbsKernel.setHeapPointer, AbsKernel.setMm, AbsKernel.modTask,
        AbsKernel.threadChild, AbsKernel.copyTask, hq, or_comm]

theorem sysThreadCreate_refused {r : Int} (hs : s.sysThreadCreate f p w = some (r, s'))
    (hok : ¬ s.threadArgsOk f p w = true) : s' = s := by
  unfold Kernel.sysThreadCreate at hs
  rw [if_pos hok] at hs
  cases hs
  rfl

theorem Rep.sysThreadCreate_some (h : Rep s a) (g : a.Good) {r : Int} (hs : s.sysThreadCreate f p w = some (r, s'))
    (hok : s.threadArgsOk f p w = true) : ∃ b, a.threadCreate f p = some (r, b) ∧ Rep s' b := by
  have hrel := h.sysThreadCreate g f p w hok
  rw [hs] at hrel
  cases hx : a.threadCreate f p with
  | none => rw [hx] at hrel; cases hrel
  | some q =>
    rw [hx] at hrel
    cases hrel with
    | some hrel => exact ⟨q.2, by rw [show r = q.1 from hrel.1], hrel.2⟩

theorem Rep.createsCleanly (h : Rep s a) (g : a.Good) (htid : 0 ≤ s.globalTID)
    (hstart : (a.task a.current).heapStartProc = initHeap) (hheap : HeapPtr (a.task a.current).heapPointerProc) :
    s.CreatesCleanly f p w ↔ ¬ (s.MapsStack f p w ∧ s.topPage = totalPages) := by
  have hle := hheap.page_le
  have hpages : ∀ page, page ∈ s.threadPages f p w ↔ s.MapsStack f p w ∧ page = s.topPage := fun _ =>
    h.mem_threadPages hstart hheap
  constructor
  · intro hc ⟨hm, htop⟩
    have := hc.inside s.topPage ((hpages _).mpr ⟨hm, rfl⟩)
    omega
  · intro hn
    refine ⟨fun page hp => ?_, fun r s' hs pt hpt => ?_, fun r s' hs hneg => ?_⟩
    · obtain ⟨hm, rfl⟩ := (hpages page).mp hp
      have : s.topPage ≠ totalPages := fun e => hn ⟨hm, e⟩
      rw [h.topPage] at this ⊢
      omega
    · by_cases hok : s.threadArgsOk f p w = true
      swap
      · rw [sysThreadCreate_refused hs hok]
        exact .refl _ _
      obtain ⟨b, hb, h'⟩ := h.sysThreadCreate_some g hs hok
      rw [h.mm, h'.mm]
      rcases threadCreate_effect hb hstart hheap g with ⟨-, hq, hfc, pt', hpt', ht⟩ | ⟨hmm, -⟩
      · obtain rfl : pt = pt' := by
          rw [getPT_eq h, h.current] at hpt
          exact Option.some.inj (hpt.symm.trans hpt')
        refine fun k hk => ht k fun e => hk ⟨s.topPage, (hpages _).mpr ⟨(h.mapsStack hheap).mpr ⟨hok, hq, hfc⟩, rfl⟩, ?_⟩
        rw [h.topPage]
        exact e
      · rw [show b.mm = a.mm from hmm]
        exact .refl _ _
    · by_cases hok : s.threadArgsOk f p w = true
      swap
      · rw [sysThreadCreate_refused hs hok]
        exact ⟨rfl, rfl, rfl, fun _ => .rfl⟩
      obtain ⟨b, hb, h'⟩ := h.sysThreadCreate_some g hs hok
      rw [h.globalTID] at htid
      rcases threadCreate_effect hb hstart hheap g with ⟨hr, -⟩ | ⟨hmm, hhp, hready, hfree⟩
      · dsimp only at hr
        omega
      · refine ⟨by rw [h'.mm, h.mm]; exact hmm, ?_, by rw [h'.members, h.members]; exact hready, fun t => ?_⟩
        · rw [h.current]
          exact (congrArg TaskCore.heapPointerProc (h'.task a.current)).trans
            (hhp.trans (congrArg TaskCore.heapPointerProc (h.task a.current)).symm)
        · rw [h'.members, h.members]
          exact hfree t

end

/-- A `sys_threadCreate` of a reachable state is clean unless it maps a page and the heap pointer is at the end of
the table. -/
theorem thread_creates_cleanly_iff {mc : Machine} {s : Kernel} (hr : Reachable mc s) (hne : s.idleTask ≠ some s.current)
    (function parameter wrapp : UInt32) : s.CreatesCleanly function parameter wrapp ↔
      ¬ (s.MapsStack function parameter wrapp ∧ s.topPage = totalPages) := by
  obtain ⟨a, h, g, ho⟩ := hr.owning
  obtain ⟨-, hstart, hheap⟩ := ho.users a.current (.inl rfl) (h.not_idle.mp hne)
  exact h.createsCleanly g hr.globalTID hstart hheap

theorem thread_creates_cleanly_boot : (Kernel.boot .blank).MapsStack 0x100000 0 0x100000 ∧
    (Kernel.boot .blank).CreatesCleanly 0x100000 0 0x100000 := by
  have htop : (Kernel.boot .blank).topPage ≠ totalPages := by decide +kernel
  exact ⟨by decide +kernel,
    (thread_creates_cleanly_iff ⟨[], rfl⟩ (by decide +kernel) _ _ _).mpr fun h => htop h.2⟩

/-! ## Up to the end of the table -/

/-- Task 1 has the heap pointer at the page `n`; it is alone, there is a free struct and a frame for a thread. -/
structure AbsKernel.AtPage (a : AbsKernel) (n : Nat) : Prop where
  current : a.current = 1
  idle : a.idleTask = 0
  ready : a.queue .readyqueue = []
  free : a.queue .freequeue ≠ []
  dir : (a.task 1).dirPagesBaseAddr = some 1
  pointer : (a.task 1).heapPointerProc = n * pageSize
  code : a.mm.physMem numPagKernel = .used
  frames : a.mm.freeCount ≠ 0

/-- A thread is created, gets the CPU and exits. -/
def threadLife : List Kernel.Op := [.threadCreate 0x100000 0 0x100000, .yield, .threadExit]

theorem writeUstack_isSome {m : Mm} {pt page : Nat} (hp : page < totalPages) (h : (m.entry pt page).present = true)
    (f p : UInt32) : ∃ m', Kernel.writeUstack m pt page f p = some m' := by
  obtain ⟨m1, e1, h1, -⟩ := Mm.writeWord_of_present hp h 1021 0x777
  obtain ⟨m2, e2, h2, -⟩ := Mm.writeWord_of_present hp (h1 ▸ h) 1022 f
  obtain ⟨m3, e3, -⟩ := Mm.writeWord_of_present hp (h2 ▸ h1 ▸ h) 1023 p
  exact ⟨m3, by simp [Kernel.writeUstack, e1, e2, e3]⟩

namespace AbsKernel

section
variable {a b c : AbsKernel} {n : Nat}

theorem AtPage.created (h : AtPage a n) (g : a.Good) (hn : n < totalPages) : ∃ child rest f mm r,
    a.queue .freequeue = child :: rest ∧ child ≠ 1 ∧ f ∈ candidates ∧ a.mm.physMem f = .free ∧
      mm.entry 1 n = { present := true, rw := true, user := true, pbaseAddr := f } ∧
      mm.physMem = (a.mm.setFrame f .used).physMem ∧ a.threadCreate 0x100000 0 = some (r, (((a.threadChild child rest).setMm mm).setHeapPointer
        (addPage (n * pageSize))).push .readyqueue child) := by
  obtain ⟨child, rest, hq⟩ := List.exists_cons_of_ne_nil h.free
  have hchild := (g.child_ne hq).1
  rw [h.current] at hchild
  have hpage : n * pageSize / pageSize = n := Nat.mul_div_cancel n (by decide)
  rcases allocFrame_cases a.mm with ⟨f, hf, hfree, e⟩ | ⟨hused, -⟩
  swap
  · exact absurd (freeCount_eq_zero.mpr hused) h.frames
  have hflt := (mem_candidates.mp hf).2.1
  simp only [totalPages] at hflt
  have hentry : ((a.mm.setFrame f .used).setSsPag 1 n f).entry 1 n =
      { present := true, rw := true, user := true, pbaseAddr := f } := by
    rw [setSsPag, setEntry_entry_lt _ _ hn hn, if_pos ⟨rfl, rfl⟩, frameBits_natCast (by omega)]
  obtain ⟨mm, hmm⟩ := writeUstack_isSome hn (by rw [hentry]) 0x100000 0
  obtain ⟨htab, hphys, -⟩ := writeUstack_some hmm
  refine ⟨child, rest, f, mm, a.globalTID + 1, hq, hchild.symm, hf, hfree, ?_, hphys, ?_⟩
  · rw [Mm.entry, htab]
    exact hentry
  · unfold threadCreate
    rw [hq]
    dsimp only
    rw [h.current, h.pointer, hpage, if_neg (by omega), h.dir, e]
    rw [Option.bind_eq_bind, Option.bind_some]
    dsimp only
    rw [if_pos (by omega), hmm]
    rfl

theorem forceTaskSwitch_pair {t u : TaskId} (hcur : a.current = t) (hq : a.queue .readyqueue = [u]) :
    a.forceTaskSwitch.current = u ∧ a.forceTaskSwitch.queue .readyqueue = [t] ∧
      a.forceTaskSwitch.queue .freequeue = a.queue .freequeue := by
  have hpush : ((a.push .readyqueue a.current).setState a.current .ready).queue =
      Function.update a.queue .readyqueue [u, t] := by
    change Function.update a.queue .readyqueue (a.queue .readyqueue ++ [a.current]) = _
    rw [hq, hcur]
    rfl
  unfold forceTaskSwitch
  rw [schedNextRr_current, schedNextRr_queue, hpush]
  simp

theorem leave_last {t u : TaskId} (hcur : a.current = t) (hq : a.queue .readyqueue = [u]) :
    a.leave.current = u ∧ a.leave.queue .readyqueue = [] ∧ a.leave.queue .freequeue = a.queue .freequeue ++ [t] := by
  have hpush : (a.push .freequeue a.current).queue = Function.update a.queue .freequeue (a.queue .freequeue ++ [t]) := by
    rw [hcur]
    rfl
  unfold leave
  rw [schedNextRr_current, schedNextRr_queue, hpush]
  simp [hq]

theorem leave_task (t : TaskId) : (a.leave.task t).dirPagesBaseAddr = (a.task t).dirPagesBaseAddr ∧
    (a.leave.task t).heapPointerProc = (a.task t).heapPointerProc := by
  unfold leave
  rw [schedNextRr_task]
  split <;> exact ⟨rfl, rfl⟩

theorem releasePage_given {m mm : Mm} {f : Nat} (hf : f ∈ candidates) (hne : f ≠ numPagKernel)
    (hfree : m.physMem f = .free)
    (hentry : mm.entry 1 n = { present := true, rw := true, user := true, pbaseAddr := f })
    (hphys : mm.physMem = (m.setFrame f .used).physMem) (g : Nat) : (releasePage 1 mm n).physMem g = m.physMem g := by
  have hfc := mem_candidates.mp hf
  rw [releasePage_phys, hentry, hphys, setFrame_physMem]
  dsimp only
  by_cases hg : g = f
  · rw [if_pos ⟨hg, by omega, by omega⟩, hg, hfree]
  · rw [if_neg fun e => hg e.1, if_neg hg]

/-- The thread `child` of task 1 runs, its stack on the page `n`, and task 1 waits at the page after it. -/
structure ThreadAt (c : AbsKernel) (child : TaskId) (rest : List TaskId) (mm : Mm) (n : Nat) : Prop where
  current : c.current = child
  idle : c.idleTask = 0
  ready : c.queue .readyqueue = [1]
  free : c.queue .freequeue = rest
  memory : c.mm = mm
  thread : (c.task child).dirPagesBaseAddr = some 1 ∧ (c.task child).heapPointerProc = n * pageSize
  creator : (c.task 1).dirPagesBaseAddr = some 1 ∧ (c.task 1).heapPointerProc = (n + 1) * pageSize

theorem AtPage.handedOver (h : AtPage a n) {child : TaskId} (hchild : child ≠ 1) (hn : n < totalPages)
    (rest : List TaskId) (mm : Mm) :
    ThreadAt (((((a.threadChild child rest).setMm mm).setHeapPointer (addPage (n * pageSize))).push .readyqueue
      child).forceTaskSwitch) child rest mm n := by
  generalize hb : (((a.threadChild child rest).setMm mm).setHeapPointer (addPage (n * pageSize))).push .readyqueue child = b
  have htask : ∀ t, b.task t = if t = child then { a.task a.current with TID := a.globalTID + 1, state := .ready }
      else if t = a.current then { a.task a.current with heapPointerProc := addPage (n * pageSize) } else a.task t := by
    intro t
    rw [← hb]
    exact threadCreate_task (by rw [h.current]; exact hchild.symm) rest mm _ t
  have hready : b.queue .readyqueue = [child] := by
    rw [← hb]
    simp [push, setQueue, setHeapPointer, modTask, setMm, threadChild, copyTask, h.ready]
  have hfree : b.queue .freequeue = rest := by
    rw [← hb]
    simp [push, setQueue, setHeapPointer, modTask, setMm, threadChild, copyTask]
  have hcur : b.current = 1 := by
    rw [← hb]
    exact h.current
  obtain ⟨hccur, hcready, hcfree⟩ := forceTaskSwitch_pair hcur hready
  have hsched := sched_forceTaskSwitch b
  refine ⟨hccur, hsched.idle.trans (by rw [← hb]; exact h.idle), hcready, hcfree.trans hfree,
    hsched.mm.trans (by rw [← hb]; rfl), ?_, ?_⟩
  -- the thread has the heap pointer that task 1 had
  · obtain ⟨st, e⟩ := hsched.task child
    rw [e, htask, if_pos rfl, h.current]
    exact ⟨h.dir, h.pointer⟩
  · obtain ⟨st, e⟩ := hsched.task 1
    rw [e, htask, if_neg hchild.symm, h.current, if_pos rfl]
    refine ⟨h.dir, ?_⟩
    simp only [addPage, totalPages, pageSize] at *
    omega

theorem ThreadAt.threadExit {child : TaskId} {rest : List TaskId} {mm : Mm} (h : ThreadAt c child rest mm n) :
    c.threadExit = some (((c.setMm (releasePage 1 mm n)).setHeapPointer (subPage (n * pageSize))).leave) := by
  unfold AbsKernel.threadExit
  rw [h.current, h.thread.1, h.thread.2, h.memory, Option.bind_eq_bind, Option.bind_some]
  dsimp only
  rw [Nat.mul_div_cancel n (by decide : 0 < pageSize)]
  rfl

theorem AtPage.exited (h : AtPage a n) {child : TaskId} {rest : List TaskId} {f : Nat} {mm : Mm}
    (hchild : child ≠ 1) (hf : f ∈ candidates) (hfree : a.mm.physMem f = .free)
    (hentry : mm.entry 1 n = { present := true, rw := true, user := true, pbaseAddr := f })
    (hphys : mm.physMem = (a.mm.setFrame f .used).physMem) (hn : n < totalPages) :
    ∃ d, ((((a.threadChild child rest).setMm mm).setHeapPointer (addPage (n * pageSize))).push .readyqueue
      child).forceTaskSwitch.threadExit = some d ∧ AtPage d (n + 1) := by
  have hc := h.handedOver hchild hn rest mm
  generalize ((((a.threadChild child rest).setMm mm).setHeapPointer (addPage (n * pageSize))).push .readyqueue
    child).forceTaskSwitch = c at hc ⊢
  refine ⟨_, hc.threadExit, ?_⟩
  generalize he : (c.setMm (releasePage 1 mm n)).setHeapPointer (subPage (n * pageSize)) = e
  have hecur : e.current = child := by
    rw [← he]
    exact hc.current
  have hready : e.queue .readyqueue = [1] := by
    rw [← he]
    exact hc.ready
  have hkeep : e.task 1 = c.task 1 := by
    rw [← he]
    exact Function.update_of_ne (fun e1 => hchild (hc.current.symm.trans e1.symm)) _ _
  obtain ⟨hdcur, hdready, hdfree⟩ := leave_last hecur hready
  obtain ⟨hdir, hpointer⟩ := e.leave_task 1
  have hne : f ≠ numPagKernel := fun e1 => by
    rw [e1, h.code] at hfree
    cases hfree
  have hdphys : ∀ g, e.leave.mm.physMem g = a.mm.physMem g := by
    intro g
    rw [show e.leave.mm = releasePage 1 mm n from (schedNextRr_mm _).trans (by rw [← he]; rfl)]
    exact releasePage_given hf hne hfree hentry hphys g
  refine ⟨hdcur, (schedNextRr_idleTask _).trans (by rw [← he]; exact hc.idle), hdready, ?_, ?_, ?_, ?_, fun h0 => ?_⟩
  · rw [hdfree]
    simp
  · rw [hdir, hkeep]
    exact hc.creator.1
  · rw [hpointer, hkeep]
    exact hc.creator.2
  · rw [hdphys]
    exact h.code
  · have hused := freeCount_eq_zero.mp h0 f hf
    rw [hdphys, hfree] at hused
    cases hused

end

end AbsKernel

section
variable {s : Kernel} {a b : AbsKernel} {n : Nat}

theorem threadArgsOk_code (s : Kernel) : s.threadArgsOk 0x100000 0 0x100000 = true := rfl

theorem Rep.step_of_abs (h : Rep s a) (g : a.Good) {e : Kernel.Event} (hb : a.step (Rep.argsOk s e.op) e.op = some b) :
    ∃ s', s.step e = some s' ∧ Rep s' b ∧ b.Good := by
  have hrel := h.step g e
  rw [hb] at hrel
  cases hs : s.step e with
  | none => rw [hs] at hrel; cases hrel
  | some s' =>
    rw [hs] at hrel
    cases hrel with
    | some h' => exact ⟨s', rfl, h', g.step hb⟩

theorem AbsKernel.AtPage.threadLife (h : a.AtPage n) (hr : Rep s a) (g : a.Good) (hn : n < totalPages) :
    ∃ s' d, exec Kernel.step s (threadLife.map fun op => ⟨op, 0⟩) = some s' ∧ Rep s' d ∧ d.Good ∧ d.AtPage (n + 1) := by
  obtain ⟨child, rest, f, mm, r, hq, hchild, hf, hfree, hentry, hphys, hcreate⟩ := h.created g hn
  obtain ⟨d, hexit, hd⟩ := h.exited hchild hf hfree hentry hphys hn
  have hidle : a.idleTask ≠ a.current := by
    rw [h.idle, h.current]
    decide
  generalize hb : (((a.threadChild child rest).setMm mm).setHeapPointer (addPage (n * pageSize))).push .readyqueue child = b
    at hcreate hexit
  have hbidle : b.idleTask = a.idleTask ∧ b.current = a.current ∧ b.queue .readyqueue = [child] := by
    rw [← hb]
    refine ⟨rfl, rfl, ?_⟩
    simp [AbsKernel.push, AbsKernel.setQueue, AbsKernel.setHeapPointer, AbsKernel.modTask, AbsKernel.setMm,
      AbsKernel.threadChild, AbsKernel.copyTask, h.ready]
  obtain ⟨s1, e1, h1, g1⟩ := hr.step_of_abs g (e := ⟨.threadCreate 0x100000 0 0x100000, 0⟩) (b := b) (by
    unfold AbsKernel.step
    rw [if_neg fun hc => hidle hc.2]
    change (if s.threadArgsOk 0x100000 0 0x100000 = true then (a.threadCreate 0x100000 0).map Prod.snd else some a) = some b
    rw [if_pos (threadArgsOk_code s), hcreate]
    rfl)
  obtain ⟨s2, e2, h2, g2⟩ := h1.step_of_abs g1 (e := ⟨.yield, 0⟩) (b := b.forceTaskSwitch) (by
    unfold AbsKernel.step
    rw [if_neg fun hc => hidle (hbidle.1.symm.trans (hc.2.trans hbidle.2.1))]
    rfl)
  have hswitch := AbsKernel.forceTaskSwitch_pair (a := b) rfl hbidle.2.2
  obtain ⟨s3, e3, h3, g3⟩ := h2.step_of_abs g2 (e := ⟨.threadExit, 0⟩) (b := d) (by
    unfold AbsKernel.step
    rw [if_neg fun hc => ?_]
    · exact hexit
    · have := (g.child_ne hq).2
      rw [(AbsKernel.sched_forceTaskSwitch b).idle, hbidle.1, hswitch.1] at hc
      exact this hc.2.symm)
  refine ⟨s3, d, ?_, h3, g3, hd⟩
  exact exec_cons.mpr ⟨s1, e1, exec_cons.mpr ⟨s2, e2, exec_cons.mpr ⟨s3, e3, rfl⟩⟩⟩

/-- As many threads as there are pages left, one after the other. -/
theorem AbsKernel.AtPage.threadLives : ∀ {k n : Nat} {s : Kernel} {a : AbsKernel}, a.AtPage n → Rep s a → a.Good →
    n + k ≤ totalPages → ∃ s' d, exec Kernel.step s ((List.replicate k (ZeosSOA.Sysenter.threadLife.map fun op =>
      (⟨op, 0⟩ : Kernel.Event))).flatten) = some s' ∧ Rep s' d ∧ d.AtPage (n + k)
  | 0, n, s, a, h, hr, _, _ => ⟨s, a, rfl, hr, h⟩
  | k + 1, n, s, a, h, hr, g, hn => by
    obtain ⟨s1, d1, e1, h1, g1, hd1⟩ := h.threadLife hr g (by omega)
    obtain ⟨s2, d2, e2, h2, hd2⟩ := hd1.threadLives h1 g1 (k := k) (by omega)
    refine ⟨s2, d2, ?_, h2, by rwa [Nat.add_right_comm] at hd2⟩
    rw [List.replicate_succ, List.flatten_cons]
    exact exec_append.mpr ⟨s1, e1, e2⟩

end

theorem boot_atPage (mc : Machine) : (bootAbs mc).AtPage 304 where
  current := rfl
  idle := rfl
  ready := rfl
  free := by simp [bootAbs]
  dir := by rw [boot_task1]
  pointer := by
    rw [boot_task1]
    rfl
  code := ((boot_memory mc).2 _ (by decide)).mpr (.inr (by decide))
  frames h0 := by
    have hused := freeCount_eq_zero.mp h0 312 (mem_candidates.mpr (by decide))
    exact absurd (((boot_memory mc).2 312 (by decide)).mp hused) (by decide)

/-- Task 1 makes 720 threads, each of which exits, and then asks for one more. -/
theorem thread_leaves_table : ∃ es s, (∀ e ∈ es, e.op ∈ threadLife) ∧ exec Kernel.step (Kernel.boot .blank) es = some s ∧
    s.idleTask ≠ some s.current ∧ ¬ s.CreatesCleanly 0x100000 0 0x100000 := by
  obtain ⟨s, d, hs, h, hd⟩ := (boot_atPage .blank).threadLives (k := 720) (boot_rep .blank) (boot_good .blank) (by decide)
  refine ⟨_, s, ?_, hs, ?_, fun hc => ?_⟩
  · intro e he
    obtain ⟨l, hl, he⟩ := List.mem_flatten.mp he
    rw [List.eq_of_mem_replicate hl] at he
    obtain ⟨op, hop, rfl⟩ := List.mem_map.mp he
    exact hop
  · rw [h.idleTask, h.current, hd.idle, hd.current]
    decide
  · have hr : Reachable .blank s := ⟨_, hs⟩
    have htop : s.topPage = totalPages := by
      rw [h.topPage, hd.current, hd.pointer, Nat.mul_div_cancel _ (by decide : 0 < pageSize)]
    have hmaps : s.MapsStack 0x100000 0 0x100000 := by
      refine ⟨threadArgsOk_code s, ?_, Nat.le_of_eq htop, ?_⟩
      · rw [h.members]
        exact hd.free
      · rw [h.mm]
        exact hd.frames
    obtain ⟨a, h', g, ho⟩ := hr.owning
    have hidle : a.current ≠ a.idleTask := by
      rw [← h'.current, h.current, hd.current, ← Option.some_inj.mp (h.idleTask.symm.trans h'.idleTask), hd.idle]
      decide
    obtain ⟨-, hstart, hheap⟩ := ho.users a.current (.inl rfl) hidle
    have := hc.inside totalPages ((h'.mem_threadPages hstart hheap).mpr ⟨hmaps, htop.symm⟩)
    omega

end ZeosSOA.Sysenter
