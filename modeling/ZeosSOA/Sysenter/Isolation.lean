import ZeosSOA.Sysenter.Frames
import ZeosSOA.Sysenter.Heap
import ZeosSOA.Sysenter.Reach

/-!
# ZeOSSysenter: frames two processes can both reach

Until a `sys_fork` succeeds all live tasks but idle are threads of task 1, whatever else
they do, and idle's table has no user pages. The child of a `sys_fork` has the code frames
of its parent, writable.
-/

namespace ZeosSOA.Sysenter

open Mm Runs

namespace Kernel

def UserPage (page : Nat) : Prop := pagLogInitCode ≤ page ∧ page < totalPages

def UserOpen (s : Kernel) (pt page : Nat) : Prop :=
  (s.mm.entry pt page).present = true ∧ (s.mm.entry pt page).user = true

/-- A frame that two live tasks of different processes have at user pages is read-only in both. -/
def Isolated (s : Kernel) : Prop :=
  ∀ t, s.Live t → ∀ u, s.Live u → (s.task t).PID ≠ (s.task u).PID →
    ∀ pt, s.getPT t = some pt → ∀ pu, s.getPT u = some pu → ∀ p, UserPage p → ∀ q, UserPage q →
      s.UserOpen pt p → s.UserOpen pu q → s.mm.getFrame pt p = s.mm.getFrame pu q →
        (s.mm.entry pt p).rw = false ∧ (s.mm.entry pu q).rw = false

def ForkRefused (s : Kernel) : Prop := s.members .freequeue = [] ∨ s.mm.freeCount < numPagData

end Kernel

/-- A task of the process that was there at the start, with a heap pointer in order. -/
structure TaskCore.OfTask1 (c : TaskCore) : Prop where
  pid : c.PID = 1
  dir : c.dirPagesBaseAddr = some 1
  heapStart : c.heapStartProc = initHeap
  heap : HeapPtr c.heapPointerProc

/-- There is one process, in the table 1, with a code page, and idle's table has no user pages. -/
structure AbsKernel.Single (a : AbsKernel) : Prop where
  users : a.Users TaskCore.OfTask1
  idleTask : a.idleTask = 0
  idleDir : (a.task 0).dirPagesBaseAddr = some 0
  idlePages : ∀ page, Kernel.UserPage page → (a.mm.entry 0 page).present = false
  code : (a.mm.entry 1 pagLogInitCode).present = true ∧ (a.mm.entry 1 pagLogInitCode).user = true ∧
    (a.mm.entry 1 pagLogInitCode).pbaseAddr < 2 ^ 20
  globalPID : 1 ≤ a.globalPID

/-- The places of the data and heap pages of table 1, and of everything behind them. -/
def BehindCode (k : Nat) : Prop := totalPages + pagLogInitData ≤ k

namespace AbsKernel

section
variable {a b : AbsKernel}

/-- What carries the invariant through a step: who is live, and where the tables were written. -/
theorem Single.next (h : Single a) (hu : b.Users TaskCore.OfTask1) (hi : b.idleTask = a.idleTask)
    (hd : (b.task 0).dirPagesBaseAddr = (a.task 0).dirPagesBaseAddr) (hm : Touches BehindCode a.mm b.mm)
    (hp : a.globalPID ≤ b.globalPID) : Single b := by
  have hrow : ∀ page, Kernel.UserPage page → b.mm.entry 0 page = a.mm.entry 0 page := fun page hpage =>
    hm _ (by have := hpage.2; simp only [BehindCode, totalPages] at *; omega)
  have hcode : b.mm.entry 1 pagLogInitCode = a.mm.entry 1 pagLogInitCode := hm _ (by unfold BehindCode; decide)
  exact ⟨hu, hi.trans h.idleTask, hd.trans h.idleDir, fun page hpage => by rw [hrow page hpage]; exact h.idlePages page hpage,
    by rw [hcode]; exact h.code, h.globalPID.trans hp⟩

theorem behindCode_data {pt i : Nat} (hpt : 1 ≤ pt) : BehindCode (pt * totalPages + (pagLogInitData + i)) := by
  simp only [BehindCode, totalPages] at *
  omega

theorem behindCode_heap {pt page : Nat} (hpt : 1 ≤ pt) (hp : heapPage ≤ page) : BehindCode (pt * totalPages + page) := by
  simp only [pagLogInitData_eq, heapPage_eq, BehindCode, totalPages] at *
  omega

theorem ofTask1_state (c : TaskCore) (st : TaskState) (h : c.OfTask1) : TaskCore.OfTask1 { c with state := st } :=
  ⟨h.pid, h.dir, h.heapStart, h.heap⟩

theorem Single.sched (h : Single a) (hs : Sched a b) : Single b :=
  h.next (h.users.sched ofTask1_state hs) hs.idle (by obtain ⟨st, e⟩ := hs.task 0; rw [e]) (by rw [hs.mm]; exact .refl _ _)
    hs.globalPID.ge

theorem Single.leaves (h : Single a) (hne : a.current ≠ a.idleTask) {mm : Mm} (hl : Leaves a b mm)
    (hm : Touches BehindCode a.mm mm) : Single b := by
  refine h.next (h.users.leaves ofTask1_state hl) hl.idle ?_ (by rw [hl.mm]; exact hm) hl.globalPID.ge
  obtain ⟨st, e⟩ := hl.task 0 fun e => hne (e.symm.trans h.idleTask.symm)
  rw [e]

theorem Single.fork (h : Single a) (g : Good a) {r : Int × AbsKernel} (hr : a.fork = some r)
    (href : a.queue .freequeue = [] ∨ a.mm.freeCount < numPagData) : Single r.2 := by
  rcases fork_cases hr with ⟨-, rfl⟩ | ⟨child, rest, tab, hq, -, ⟨mm, he, rfl⟩ | ⟨m1, pt, mm, he, -⟩⟩
  · exact h
  · have hchild := (g.child_ne hq).2
    rw [h.idleTask] at hchild
    have hpos : 1 ≤ child.val := Nat.pos_of_ne_zero fun e => hchild (Fin.ext e)
    refine h.next (h.users.forkFailed g hq) rfl ?_ ?_ le_rfl
    · rw [show (((a.forkChild child rest tab).setMm mm).push .freequeue child).task 0 =
        (a.forkChild child rest tab).task 0 from rfl, forkChild_task_ne hchild.symm]
    · have := touches_forkAllocData (K := BehindCode) child.val numPagData 0 a.mm
        fun i _ => behindCode_data hpos
      rw [he] at this
      exact this
  · have hal := (forkAllocData_fst child.val numPagData 0 a.mm).mp (by rw [he])
    rcases href with hnil | hlt
    · rw [hq] at hnil; cases hnil
    · omega

theorem Single.threadCreate (h : Single a) (g : Good a) (hne : a.current ≠ a.idleTask) {f p : UInt32}
    {r : Int × AbsKernel} (hr : a.threadCreate f p = some r) : Single r.2 := by
  have hcur := h.users a.current (.inl rfl) hne
  have hchild : TaskCore.OfTask1 { a.task a.current with TID := a.globalTID + 1, state := .ready } :=
    ⟨hcur.pid, hcur.dir, hcur.heapStart, hcur.heap⟩
  have hpage := behindCode_heap (Nat.le_refl 1) hcur.heap.page
  rcases threadCreate_cases hr with ⟨-, rfl⟩ | ⟨child, rest, hq, hcase⟩
  · exact h
  have hne0 : (0 : TaskId) ≠ child := h.idleTask ▸ (g.child_ne hq).2.symm
  have h0 : ∀ mm hp, (((a.threadChild child rest).setMm mm).setHeapPointer hp).task 0 = a.task 0 := fun mm hp => by
    rw [threadCreate_task (g.child_ne hq).1, if_neg hne0, if_neg (h.idleTask ▸ Ne.symm hne)]
  rcases hcase with ⟨-, rfl⟩ | ⟨hpg, pt, hpt, ⟨mm, hf, hmm, rfl⟩ | ⟨hp, mm, hf, hrel, rfl⟩⟩
  · exact h.next (h.users.threadChild g hq) rfl (by rw [threadChild_task_ne hne0]) (.refl _ _) le_rfl
  · obtain rfl : pt = 1 := Option.some.inj (hpt.symm.trans hcur.dir)
    obtain ⟨hw, hlt⟩ := touches_writeUstack (K := BehindCode) hmm
    refine h.next (h.users.thread (g.child_ne hq).1 hchild
      ⟨hcur.pid, hcur.dir, hcur.heapStart, hcur.heap.addPage hlt⟩) rfl (congrArg _ (h0 mm _)) ?_ le_rfl
    exact (touches_allocFrame a.mm).trans ((touches_setSsPag _ _ hpage).trans hw)
  · obtain ⟨rfl, rfl⟩ := releaseHeap_keeps (hcur.heapStart ▸ hcur.heap.ge) hrel
    exact h.next (h.users.thread (g.child_ne hq).1 hchild hcur) rfl (congrArg _ (h0 _ _)) (touches_allocFrame a.mm) le_rfl

theorem Single.sbrk (h : Single a) (hne : a.current ≠ a.idleTask) {size : Int} (hb : a.sbrk size = some b) : Single b := by
  have hcur := h.users a.current (.inl rfl) hne
  rcases sbrk_cases hb with rfl | ⟨pt, ret, hp, mm, hpt, hs, rfl⟩
  · exact h
  obtain rfl : pt = 1 := Option.some.inj (hpt.symm.trans hcur.dir)
  rw [hcur.heapStart] at hs
  obtain ⟨hp', hm⟩ := sbrkHeap_some (K := BehindCode) (fun page hpage => behindCode_heap (Nat.le_refl 1) hpage) hcur.heap hs
  refine h.next (h.users.setHeapPointer ⟨hcur.pid, hcur.dir, hcur.heapStart, hp'⟩) rfl ?_ hm le_rfl
  rw [sbrk_task, if_neg (h.idleTask ▸ Ne.symm hne)]

theorem Single.step (h : Single a) (g : Good a) {ok : Bool} {op : Kernel.Op} (hb : a.step ok op = some b)
    (href : op = .fork → a.queue .freequeue = [] ∨ a.mm.freeCount < numPagData) : Single b := by
  rcases step_cases hb with hs | ⟨hne, ⟨rfl, hx⟩ | ⟨rfl, hx⟩ | ⟨rfl, r, hr, rfl⟩ | ⟨f, p, w, rfl, r, hr, rfl⟩ | ⟨size, rfl, hx⟩⟩
  · exact h.sched hs
  all_goals have hcur := h.users a.current (.inl rfl) hne
  · obtain ⟨pt, hp, mm, hpt, hrel, hl⟩ := leaves_exit g hx
    obtain rfl : pt = 1 := Option.some.inj (hpt.symm.trans hcur.dir)
    obtain ⟨rfl, rfl⟩ := releaseHeap_keeps (hcur.heapStart ▸ hcur.heap.ge) hrel
    exact h.leaves hne hl (touches_releaseData a.mm fun i _ => behindCode_data (Nat.le_refl 1))
  · obtain ⟨pt, hpt, hl⟩ := leaves_threadExit g hx
    obtain rfl : pt = 1 := Option.some.inj (hpt.symm.trans hcur.dir)
    exact h.leaves hne hl (touches_releasePage a.mm (behindCode_heap (Nat.le_refl 1) hcur.heap.page))
  · exact h.fork g hr (href rfl)
  · exact h.threadCreate g hne hr
  · exact h.sbrk hne hx

end

end AbsKernel

section
variable {s s' : Kernel} {a b : AbsKernel}

theorem Rep.isolated (h : Rep s a) (ha : a.Single) : s.Isolated := by
  intro t ht u hu hpid pt hpt pu hpu p hp q hq hpo hqo _
  have hpids : ∀ v, (s.task v).PID = (a.task v).PID := fun v => congrArg TaskCore.PID (h.task v)
  -- idle's table has no user pages, so neither of the two is idle
  have huser : ∀ {v : TaskId} {pv page : Nat}, s.Live v → s.getPT v = some pv → Kernel.UserPage page →
      s.UserOpen pv page → (a.task v).PID = 1 := by
    intro v pv page hv hpv hpage ho
    by_cases hi : v = a.idleTask
    · rw [getPT_eq h, hi, ha.idleTask, ha.idleDir] at hpv
      obtain rfl := Option.some.inj hpv
      have := ho.1
      rw [h.mm, ha.idlePages page hpage] at this
      cases this
    · exact (ha.users v ((h.live v).mp hv) hi).pid
  rw [hpids, hpids, huser ht hpt hp hpo, huser hu hpu hq hqo] at hpid
  exact absurd rfl hpid

theorem fork_not_isolated (h : Rep s a) (g : a.Good) (ha : a.Single) {ebp : Nat} (hs : s.step ⟨.fork, ebp⟩ = some s')
    (hf : ¬ (a.queue .freequeue = [] ∨ a.mm.freeCount < numPagData)) : ¬ s'.Isolated := by
  obtain ⟨b, hb, h', -⟩ := h.step_some g hs
  obtain ⟨hne, r, hr, rfl⟩ := AbsKernel.step_fork hb
  rcases AbsKernel.fork_cases hr with ⟨hq, -⟩ | ⟨child, rest, tab, hq, -, ⟨mm, he, -⟩ | ⟨m1, pt, mm, he, hpt, hmap, rfl⟩⟩
  · exact absurd (.inl hq) hf
  · have := (forkAllocData_fst child.val numPagData 0 a.mm).mpr (by omega)
    rw [he] at this
    cases this
  intro hiso
  have hcur := ha.users a.current (.inl rfl) hne
  obtain rfl : pt = 1 := Option.some.inj (hpt.symm.trans hcur.dir)
  have htask := AbsKernel.forkStart_task (a := a) child rest tab mm
  have hpage : Kernel.UserPage pagLogInitCode := by unfold Kernel.UserPage; decide
  have hm : s'.mm = mm := h'.mm
  have hchild : s'.mm.entry child.val pagLogInitCode =
      { present := true, rw := true, user := true, pbaseAddr := frameBits (m1.getFrame 1 pagLogInitCode) } := by
    rw [hm, (forkMap_some hmap).1 _ _ (by decide) (.inl (by decide)), if_pos ⟨rfl, by decide⟩]
  have hcode : m1.entry 1 pagLogInitCode = a.mm.entry 1 pagLogInitCode := by
    have := touches_forkAllocData (K := BehindCode) child.val numPagData 0 a.mm fun i _ =>
      AbsKernel.behindCode_data (Nat.pos_of_ne_zero fun e => (g.child_ne hq).2 (ha.idleTask ▸ Fin.ext e))
    rw [he] at this
    exact this _ (by unfold BehindCode; decide)
  have hframe : frameBits (m1.getFrame 1 pagLogInitCode) = (a.mm.entry 1 pagLogInitCode).pbaseAddr := by
    rw [getFrame, hcode]
    exact frameBits_natCast ha.code.2.2
  have hparent : (s'.mm.entry 1 pagLogInitCode).present = true ∧ (s'.mm.entry 1 pagLogInitCode).user = true ∧
      (s'.mm.entry 1 pagLogInitCode).pbaseAddr = (a.mm.entry 1 pagLogInitCode).pbaseAddr := by
    by_cases hc : child.val = 1
    · have hsame : s'.mm.entry 1 pagLogInitCode = s'.mm.entry child.val pagLogInitCode := congrArg (s'.mm.entry · _) hc.symm
      rw [hsame, hchild]; exact ⟨rfl, rfl, hframe⟩
    · rw [hm, (forkMap_some hmap).1 _ _ (by decide) (.inl (by decide)), if_neg fun e => hc e.1.symm, hcode]
      exact ⟨ha.code.1, ha.code.2.1, rfl⟩
  have hlive : s'.Live child := (h'.live child).mpr (.inr (.inl (by
    simp [AbsKernel.forkStart, AbsKernel.push, AbsKernel.setQueue])))
  have hlive' : s'.Live a.current := .inl h'.current.symm
  have hpt' : s'.getPT a.current = some 1 := by
    rw [getPT_eq h', htask, if_neg (g.child_ne hq).1]; exact hcur.dir
  have hptc : s'.getPT child = some child.val := by rw [getPT_eq h', htask, if_pos rfl]
  have hpid : (s'.task a.current).PID ≠ (s'.task child).PID := by
    have h1 : (s'.task a.current).PID = 1 := by
      have := congrArg TaskCore.PID (h'.task a.current)
      rw [htask, if_neg (g.child_ne hq).1] at this
      exact this.trans hcur.pid
    have h2 : (s'.task child).PID = a.globalPID + 1 := by
      have := congrArg TaskCore.PID (h'.task child)
      rw [htask, if_pos rfl] at this
      exact this
    have := ha.globalPID
    omega
  have hrw := (hiso _ hlive' _ hlive hpid 1 hpt' child.val hptc _ hpage _ hpage ⟨hparent.1, hparent.2.1⟩
    ⟨by rw [hchild], by rw [hchild]⟩ (by rw [getFrame, getFrame, hparent.2.2, hchild]; exact hframe.symm)).2
  rw [hchild] at hrw
  cases hrw

end

theorem boot_single (mc : Machine) : (bootAbs mc).Single where
  users := by
    rintro t (rfl | ht | ⟨tab, k, ht⟩) -
    · rw [show (bootAbs mc).current = 1 from rfl, boot_task1]
      exact ⟨rfl, rfl, rfl, ⟨le_rfl, by decide, by decide⟩⟩
    · cases ht
    · cases ht
  idleTask := rfl
  idleDir := by rw [boot_idle]
  idlePages page hpage := by
    have hlt := hpage.2
    have hge := hpage.1
    have hc : pagLogInitCode = numPagKernel := rfl
    have hfirst := mc.image.lt
    rw [(boot_memory mc).1 0 page (by decide) hlt, if_neg (by omega), if_neg (by omega), bootEntry, if_neg (by omega),
      kernelEntry, if_neg (by omega)]
    rfl
  code := by
    rw [(boot_memory mc).1 1 _ (by decide) (by decide), if_neg (by decide), if_pos (by decide)]
    exact ⟨rfl, rfl, by decide⟩
  globalPID := show (1 : Int) ≤ 1000 by decide

/-- Address spaces are isolated as long as every `sys_fork` is refused. -/
theorem isolated_iff (mc : Machine) (es : List Kernel.Event) :
    AllStates Kernel.step Kernel.Isolated (Kernel.boot mc) es ↔
      AllSteps Kernel.step (fun s e _ => e.op = .fork → s.ForkRefused) (Kernel.boot mc) es := by
  have hforked : ∀ {s a}, Rep s a → (s.ForkRefused ↔ a.queue .freequeue = [] ∨ a.mm.freeCount < numPagData) :=
    fun h => by rw [Kernel.ForkRefused, h.members, h.mm]
  refine allStates_iff_allSteps (I := fun s => ∃ a, Rep s a ∧ a.Good ∧ a.Single) (A := fun _ => True) ?_ ?_ ?_
    ⟨bootAbs mc, boot_rep mc, boot_good mc, boot_single mc⟩ fun _ _ => trivial
  · rintro s ⟨a, h, -, ha⟩
    exact h.isolated ha
  · rintro s e s' ⟨a, h, g, ha⟩ - href hs
    obtain ⟨b, hb, h', g'⟩ := h.step_some g hs
    exact ⟨b, h', g', ha.step g hb fun e => (hforked h).mp (href e)⟩
  · rintro s ⟨op, ebp⟩ s' ⟨a, h, g, ha⟩ - hnot hs
    obtain ⟨rfl, hf⟩ := Classical.not_imp.mp hnot
    exact fork_not_isolated h g ha hs fun hr => hf ((hforked h).mpr hr)

/-- Task 1 forks, and both it and its child have the first code frame, the child to write to. -/
theorem fork_shares_code : ∃ s, Kernel.step (Kernel.boot .blank) ⟨.fork, 8⟩ = some s ∧ ¬ s.Isolated := by
  have hrun : (Kernel.step (Kernel.boot .blank) ⟨.fork, 8⟩).any (fun s => decide
      (s.current = 1 ∧ 2 ∈ s.members .readyqueue ∧ (s.task 1).PID = 1 ∧ (s.task 2).PID = 1001 ∧ s.getPT 1 = some 1 ∧
        s.getPT 2 = some 2 ∧ s.mm.entry 1 256 = { present := true, rw := false, user := true, pbaseAddr := 256 } ∧
        s.mm.entry 2 256 = { present := true, rw := true, user := true, pbaseAddr := 256 })) = true := by
    decide +kernel
  obtain ⟨s, hs, hd⟩ := (Option.any_eq_true _ _).mp hrun
  obtain ⟨hc, hr, hp1, hp2, ht1, ht2, he1, he2⟩ := of_decide_eq_true hd
  refine ⟨s, hs, fun hiso => ?_⟩
  have hpage : Kernel.UserPage 256 := by unfold Kernel.UserPage; decide
  have hrw := (hiso 1 (.inl hc.symm) 2 (.inr (.inl hr)) (by rw [hp1, hp2]; decide) 1 ht1 2 ht2 256 hpage 256 hpage
    ⟨by rw [he1], by rw [he1]⟩ ⟨by rw [he2], by rw [he2]⟩ (by rw [getFrame, getFrame, he1, he2])).2
  rw [he2] at hrw
  cases hrw

end ZeosSOA.Sysenter
