import ZeosSOA.Sysenter.Frames
import ZeosSOA.Sysenter.Isolation
import ZeosSOA.Sysenter.Partition
import ZeosSOA.Sysenter.Private

/-!
# ZeOSSysenter: whose directory is whose

`allocate_DIR` takes the directory that goes with the task struct, but threads go on with
the directory of their creator when that one has exited and its struct is free again.
-/

namespace ZeosSOA.Sysenter

open Mm Runs

namespace Kernel

/-- Live tasks have one directory if and only if they are of one process. -/
def DirsTied (s : Kernel) : Prop :=
  ∀ t, s.Live t → ∀ u, s.Live u → (s.getPT t = s.getPT u ↔ (s.task t).PID = (s.task u).PID)

def HasData (s : Kernel) (t : TaskId) : Prop :=
  ∃ pt, s.getPT t = some pt ∧ ∃ k < numPagData, (s.mm.entry pt (pagLogInitData + k)).present = true

/-- After the step directories are still tied to processes; the child of a `sys_fork` has none
that a live task was using, and the end of a task unmaps no data page of another live one. -/
structure DirsKept (s : Kernel) (e : Event) (s' : Kernel) : Prop where
  tied : s'.DirsTied
  child : e.op = .fork → ∀ t, s'.Live t → ¬ s.Live t → ∀ u, s.Live u → s'.getPT t ≠ s.getPT u
  exit : e.op = .exit ∨ e.op = .threadExit → ∀ t, s.Live t → t ≠ s.current → ∀ pt, s.getPT t = some pt → ∀ k < numPagData,
    (s.mm.entry pt (pagLogInitData + k)).present = true → (s'.mm.entry pt (pagLogInitData + k)).present = true

/-- `sys_fork` is refused, or the struct it takes is not the one whose directory a live task has. -/
def ForkFresh (s : Kernel) : Prop :=
  s.members .freequeue = [] ∨ s.mm.freeCount < numPagData ∨
    ∀ child ∈ (s.members .freequeue).head?, ∀ t, s.Live t → s.getPT t ≠ some child.val

/-- No other live task has data pages in the caller's directory. -/
def ExitAlone (s : Kernel) : Prop :=
  ∀ t, s.Live t → t ≠ s.current → s.getPT t = s.getPT s.current → ¬ s.HasData t

end Kernel

/-- `n` is the last PID given. -/
structure TaskCore.Numbered (n : Int) (c : TaskCore) : Prop where
  pid : 1 ≤ c.PID ∧ c.PID ≤ n
  dir : ∃ pt, c.dirPagesBaseAddr = some pt ∧ 1 ≤ pt
  heapStart : c.heapStartProc = initHeap
  heap : HeapPtr c.heapPointerProc

namespace AbsKernel

structure Tied (a : AbsKernel) : Prop where
  idleTask : a.idleTask = 0
  idlePID : (a.task 0).PID = 0
  idleDir : (a.task 0).dirPagesBaseAddr = some 0
  users : a.Users (TaskCore.Numbered a.globalPID)
  agree : ∀ t, a.Live t → t ≠ a.idleTask → ∀ u, a.Live u → u ≠ a.idleTask →
    ((a.task t).dirPagesBaseAddr = (a.task u).dirPagesBaseAddr ↔ (a.task t).PID = (a.task u).PID)

section
variable {a b : AbsKernel}

theorem numbered_state (n : Int) (c : TaskCore) (st : TaskState) (h : c.Numbered n) :
    TaskCore.Numbered n { c with state := st } := ⟨h.pid, h.dir, h.heapStart, h.heap⟩

theorem numbered_mono {n m : Int} (hnm : n ≤ m) {c : TaskCore} (h : c.Numbered n) : c.Numbered m :=
  ⟨⟨h.pid.1, h.pid.2.trans hnm⟩, h.dir, h.heapStart, h.heap⟩

theorem Tied.copy (h : Tied a) (hi : b.idleTask = a.idleTask)
    (h0 : (b.task 0).PID = (a.task 0).PID ∧ (b.task 0).dirPagesBaseAddr = (a.task 0).dirPagesBaseAddr)
    (hn : b.Users (TaskCore.Numbered b.globalPID))
    (hc : ∀ t, b.Live t → t ≠ a.idleTask → ∃ u, a.Live u ∧ u ≠ a.idleTask ∧
      (b.task t).dirPagesBaseAddr = (a.task u).dirPagesBaseAddr ∧ (b.task t).PID = (a.task u).PID) : Tied b := by
  refine ⟨hi.trans h.idleTask, h0.1.trans h.idlePID, h0.2.trans h.idleDir, hn, ?_⟩
  intro t ht hti u hu hui
  rw [hi] at hti hui
  obtain ⟨t', h1, h2, h3, h4⟩ := hc t ht hti
  obtain ⟨u', k1, k2, k3, k4⟩ := hc u hu hui
  rw [h3, h4, k3, k4]
  exact h.agree t' h1 h2 u' k1 k2

theorem Tied.sched (h : Tied a) (hs : Sched a b) : Tied b := by
  obtain ⟨st0, e0⟩ := hs.task 0
  refine h.copy hs.idle (by rw [e0]; exact ⟨rfl, rfl⟩)
    (by rw [hs.globalPID]; exact h.users.sched (numbered_state _) hs) fun t ht hi => ?_
  obtain ⟨st, e⟩ := hs.task t
  exact ⟨t, (hs.live t ht).resolve_left hi, hi, by rw [e], by rw [e]⟩

theorem Tied.leaves (h : Tied a) (hne : a.current ≠ a.idleTask) {mm : Mm} (hl : Leaves a b mm) : Tied b := by
  obtain ⟨st0, e0⟩ := hl.task 0 (h.idleTask ▸ Ne.symm hne)
  refine h.copy hl.idle (by rw [e0]; exact ⟨rfl, rfl⟩) (by rw [hl.globalPID]; exact h.users.leaves (numbered_state _) hl) fun t ht hi => ?_
  obtain ⟨hcur, hlive⟩ := (hl.live t ht).resolve_left hi
  obtain ⟨st, e⟩ := hl.task t hcur
  exact ⟨t, hlive, hi, by rw [e], by rw [e]⟩

theorem Tied.failed (h : Tied a) {child : TaskId} (hci : child ≠ a.idleTask) (hnl : ¬ a.Live child)
    (hi : b.idleTask = a.idleTask) (hp : b.globalPID = a.globalPID)
    (hl : ∀ t, b.Live t → a.Live t) (ht : ∀ t, t ≠ child → b.task t = a.task t) : Tied b := by
  have hsame : ∀ t, b.Live t → b.task t = a.task t := fun t hlive => ht t fun e => hnl (e ▸ hl t hlive)
  refine h.copy hi (by rw [ht 0 (h.idleTask ▸ hci.symm)]; exact ⟨rfl, rfl⟩) (fun t hlive hne => ?_) fun t hlive hne =>
    ⟨t, hl t hlive, hne, by rw [hsame t hlive], by rw [hsame t hlive]⟩
  rw [hsame t hlive, hp]
  exact h.users t (hl t hlive) (hi ▸ hne)

theorem Tied.thread (h : Tied a) (hne : a.current ≠ a.idleTask) {child : TaskId} {rest : List TaskId}
    (hcc : a.current ≠ child) (hci : child ≠ a.idleTask) (mm : Mm) {hp : Nat} {i : Queue}
    (hheap : HeapPtr hp) :
    Tied ((((a.threadChild child rest).setMm mm).setHeapPointer hp).push i child) := by
  have hcur := h.users a.current (.inl rfl) hne
  have htask := threadCreate_task (a := a) hcc rest mm hp
  have h0 : ((((a.threadChild child rest).setMm mm).setHeapPointer hp).push i child).task 0 = a.task 0 :=
    (htask 0).trans (by rw [if_neg (h.idleTask ▸ hci.symm), if_neg (h.idleTask ▸ Ne.symm hne)])
  refine h.copy rfl (by rw [h0]; exact ⟨rfl, rfl⟩)
    (h.users.thread hcc ⟨hcur.pid, hcur.dir, hcur.heapStart, hcur.heap⟩
      ⟨hcur.pid, hcur.dir, hcur.heapStart, hheap⟩) fun t ht hti => ?_
  have e := htask t
  split at e
  · exact ⟨a.current, .inl rfl, hne, (congrArg TaskCore.dirPagesBaseAddr e).trans rfl, (congrArg TaskCore.PID e).trans rfl⟩
  · rename_i htc
    refine ⟨t, (threadCreate_live ht).resolve_left htc, hti, (congrArg TaskCore.dirPagesBaseAddr e).trans ?_,
      (congrArg TaskCore.PID e).trans ?_⟩
    all_goals
      split
      · rename_i hcur; rw [hcur]
      · rfl

theorem Tied.threadCreate (h : Tied a) (g : Good a) (hne : a.current ≠ a.idleTask) {f p : UInt32}
    {r : Int × AbsKernel} (hr : a.threadCreate f p = some r) : Tied r.2 := by
  have hcur := h.users a.current (.inl rfl) hne
  rcases threadCreate_cases hr with ⟨-, rfl⟩ | ⟨child, rest, hq, hcase⟩
  · exact h
  obtain ⟨hcc, hci⟩ := g.child_ne hq
  rcases hcase with ⟨-, rfl⟩ | ⟨hpg, pt, -, ⟨mm, -, hmm, rfl⟩ | ⟨hp, mm, -, hrel, rfl⟩⟩
  · refine h.failed hci (not_live_of_free g (by rw [hq]; exact List.mem_cons_self)) rfl
      rfl (fun t ht => ht) fun t ht => threadChild_task_ne ht
  · exact h.thread hne hcc hci mm (hcur.heap.addPage (touches_writeUstack (K := fun _ => True) hmm).2)
  · obtain ⟨rfl, rfl⟩ := releaseHeap_keeps (hcur.heapStart ▸ hcur.heap.ge) hrel
    exact h.thread hne hcc hci _ hcur.heap

theorem Tied.fork (h : Tied a) (g : Good a) (hne : a.current ≠ a.idleTask) {r : Int × AbsKernel} (hr : a.fork = some r)
    (hf : a.queue .freequeue = [] ∨ a.mm.freeCount < numPagData ∨ ∀ child ∈ (a.queue .freequeue).head?,
      ∀ t, a.Live t → (a.task t).dirPagesBaseAddr ≠ some child.val) : Tied r.2 := by
  rcases fork_ends hr with ⟨-, hrb⟩ | ⟨child, rest, tab, hq, -, hcase⟩
  · rw [hrb]; exact h
  obtain ⟨hcc, hci⟩ := g.child_ne hq
  have hnl : ¬ a.Live child := not_live_of_free g (by rw [hq]; exact List.mem_cons_self)
  rcases hcase with ⟨hfc, mm, hrb⟩ | ⟨hfc, mm, hrb⟩ <;> rw [hrb]
  · exact h.failed hci hnl rfl rfl (fun t ht => forkChild_live hq tab mm ht) fun t ht => forkChild_task_ne ht rest tab
  · have htask := forkStart_task (a := a) child rest tab mm
    have hfresh := (hf.resolve_left (by rw [hq]; exact List.cons_ne_nil _ _)).resolve_left (by omega) child (by rw [hq]; rfl)
    have hval : 1 ≤ child.val := Nat.pos_of_ne_zero fun e => hci (h.idleTask ▸ Fin.ext e)
    have hcur := h.users a.current (.inl rfl) hne
    refine ⟨h.idleTask, ?_, ?_, ?_, ?_⟩
    · rw [htask, if_neg (h.idleTask ▸ hci.symm)]; exact h.idlePID
    · rw [htask, if_neg (h.idleTask ▸ hci.symm)]; exact h.idleDir
    · have hmono : a.Users (TaskCore.Numbered (a.globalPID + 1)) := fun t ht hi =>
        numbered_mono (Int.le_add_one le_rfl) (h.users t ht hi)
      exact hmono.forkStart hq ⟨⟨by have := hcur.pid; dsimp only; omega, le_rfl⟩, ⟨_, rfl, hval⟩, hcur.heapStart, hcur.heap⟩
    · intro t ht hti u hu hui
      rw [htask, htask]
      have hold : ∀ v, (((a.forkChild child rest tab).setMm mm).forkStart child).Live v → v ≠ child → a.Live v :=
        fun v hv hvc => (forkStart_live hq hv).resolve_left hvc
      have hpid : ∀ v, a.Live v → v ≠ a.idleTask → (a.task v).PID ≠ a.globalPID + 1 := fun v hv hvi => by
        have := (h.users v hv hvi).pid; omega
      by_cases htc : t = child <;> by_cases huc : u = child
      · rw [htc, huc]
        exact iff_of_true rfl rfl
      · rw [if_pos htc, if_neg huc]
        exact iff_of_false (fun e => hfresh u (hold u hu huc) e.symm) fun e => hpid u (hold u hu huc) hui e.symm
      · rw [if_neg htc, if_pos huc]
        exact iff_of_false (hfresh t (hold t ht htc)) (hpid t (hold t ht htc) hti)
      · rw [if_neg htc, if_neg huc]
        exact h.agree t (hold t ht htc) hti u (hold u hu huc) hui

theorem Tied.sbrk (h : Tied a) (hne : a.current ≠ a.idleTask) {size : Int} (hb : a.sbrk size = some b) : Tied b := by
  have hcur := h.users a.current (.inl rfl) hne
  rcases sbrk_cases hb with rfl | ⟨pt, ret, hp, mm, hpt, hs, rfl⟩
  · exact h
  rw [hcur.heapStart] at hs
  obtain ⟨hp', -⟩ := sbrkHeap_some (K := fun _ => True) (fun _ _ => trivial) hcur.heap hs
  have hcopy : ∀ t, (((a.setMm mm).setHeapPointer hp).task t).dirPagesBaseAddr = (a.task t).dirPagesBaseAddr ∧
      (((a.setMm mm).setHeapPointer hp).task t).PID = (a.task t).PID := by
    intro t
    rw [sbrk_task]
    split
    · rename_i e; rw [e]; exact ⟨rfl, rfl⟩
    · exact ⟨rfl, rfl⟩
  exact h.copy rfl ⟨(hcopy 0).2, (hcopy 0).1⟩ (h.users.setHeapPointer ⟨hcur.pid, hcur.dir, hcur.heapStart, hp'⟩)
    fun t ht hi => ⟨t, ht, hi, hcopy t⟩

theorem Tied.step (h : Tied a) (g : Good a) {ok : Bool} {op : Kernel.Op} (hb : a.step ok op = some b)
    (hf : op = .fork → a.queue .freequeue = [] ∨ a.mm.freeCount < numPagData ∨
      ∀ child ∈ (a.queue .freequeue).head?, ∀ t, a.Live t → (a.task t).dirPagesBaseAddr ≠ some child.val) : Tied b := by
  rcases step_cases hb with hs | ⟨hne, ⟨rfl, hx⟩ | ⟨rfl, hx⟩ | ⟨rfl, r, hr, rfl⟩ | ⟨f, p, w, rfl, r, hr, rfl⟩ | ⟨size, rfl, hx⟩⟩
  · exact h.sched hs
  · obtain ⟨pt, hp, mm, -, -, hl⟩ := leaves_exit g hx
    exact h.leaves hne hl
  · obtain ⟨pt, -, hl⟩ := leaves_threadExit g hx
    exact h.leaves hne hl
  · exact h.fork g hne hr (hf rfl)
  · exact h.threadCreate g hne hr
  · exact h.sbrk hne hx

end

end AbsKernel

section
variable {s s' : Kernel} {a b : AbsKernel}

theorem Rep.dirsTied (h : Rep s a) (ha : a.Tied) : s.DirsTied := by
  intro t ht u hu
  rw [getPT_eq h, getPT_eq h, pid_eq h, pid_eq h]
  rw [h.live] at ht hu
  -- idle shares neither its directory nor its PID
  have hidle : ∀ v, a.Live v → v ≠ a.idleTask →
      (a.task v).dirPagesBaseAddr ≠ (a.task a.idleTask).dirPagesBaseAddr ∧ (a.task v).PID ≠ (a.task a.idleTask).PID := by
    intro v hv hvi
    obtain ⟨hp, ⟨pt, hpt, hpos⟩, -, -⟩ := ha.users v hv hvi
    rw [ha.idleTask, ha.idleDir, ha.idlePID, hpt]
    exact ⟨fun e => by cases e; omega, by omega⟩
  by_cases hti : t = a.idleTask <;> by_cases hui : u = a.idleTask
  · rw [hti, hui]
    exact iff_of_true rfl rfl
  · rw [hti]
    exact iff_of_false (hidle u hu hui).1.symm (hidle u hu hui).2.symm
  · rw [hui]
    exact iff_of_false (hidle t ht hti).1 (hidle t ht hti).2
  · exact ha.agree t ht hti u hu hui

theorem Rep.forkFresh (h : Rep s a) : s.ForkFresh ↔ a.queue .freequeue = [] ∨ a.mm.freeCount < numPagData ∨
    ∀ child ∈ (a.queue .freequeue).head?, ∀ t, a.Live t → (a.task t).dirPagesBaseAddr ≠ some child.val := by
  simp only [Kernel.ForkFresh, h.members, h.mm, h.live, getPT_eq h]

theorem fork_child (h : Rep s a) (h' : Rep s' b) {r : Int × AbsKernel} (hr : a.fork = some r) (hb : r.2 = b)
    {t : TaskId} (ht : s'.Live t) (hn : ¬ s.Live t) : ∃ rest, a.queue .freequeue = t :: rest ∧
      numPagData ≤ a.mm.freeCount ∧ s'.getPT t = some t.val := by
  rw [h'.live, ← hb] at ht
  rw [h.live] at hn
  rcases AbsKernel.fork_ends hr with ⟨-, hrb⟩ | ⟨child, rest, tab, hq, -, ⟨hfc, mm, hrb⟩ | ⟨hfc, mm, hrb⟩⟩ <;> rw [hrb] at ht
  · exact absurd ht hn
  · exact absurd (AbsKernel.forkChild_live hq tab mm ht) hn
  · obtain rfl := (AbsKernel.forkStart_live hq ht).resolve_right hn
    refine ⟨rest, hq, hfc, ?_⟩
    rw [getPT_eq h', ← hb, hrb, AbsKernel.forkStart_task, if_pos rfl]

theorem exit_entry (ha : a.Tied) (g : a.Good) (hne : a.current ≠ a.idleTask) (hb : a.exit = some b) : ∃ pt,
    (a.task a.current).dirPagesBaseAddr = some pt ∧ ∀ pt' page, page < totalPages → b.mm.entry pt' page =
      if pt' = pt ∧ pagLogInitData ≤ page ∧ page < pagLogInitData + numPagData then .zero else a.mm.entry pt' page := by
  have hcur := ha.users a.current (.inl rfl) hne
  obtain ⟨pt, hp, mm, hpt, hrel, hl⟩ := AbsKernel.leaves_exit g hb
  obtain ⟨rfl, rfl⟩ := releaseHeap_keeps (hcur.heapStart ▸ hcur.heap.ge) hrel
  refine ⟨pt, hpt, ?_⟩
  rw [hl.mm]
  exact (releaseData_spec pt a.mm (by decide)).1

theorem threadExit_entry (ha : a.Tied) (g : a.Good) (hne : a.current ≠ a.idleTask) (hb : a.threadExit = some b)
    (pt : Nat) {k : Nat} (hk : k < numPagData) :
    b.mm.entry pt (pagLogInitData + k) = a.mm.entry pt (pagLogInitData + k) := by
  have hheap := (ha.users a.current (.inl rfl) hne).heap
  obtain ⟨pt', -, hl⟩ := AbsKernel.leaves_threadExit g hb
  rw [hl.mm]
  have hle := hheap.page_le
  refine touches_releasePage (K := fun i => ∀ k < numPagData, i ≠ pt * totalPages + (pagLogInitData + k)) a.mm ?_ _ ?_
  · intro j hj
    have hge := hheap.page
    simp only [heapPage_eq, pagLogInitData_eq, totalPages, numPagData] at *
    omega
  · exact fun hn => hn k hk rfl

end

/-- The condition under which directories stay tied to processes. -/
def Kernel.Untangled (s : Kernel) (e : Kernel.Event) : Prop :=
  (e.op = .fork → s.ForkFresh) ∧ (e.op = .exit → s.ExitAlone)

section
variable {s s' : Kernel} {a b : AbsKernel} {e : Kernel.Event}

theorem dirsKept_of_untangled (h : Rep s a) (g : a.Good) (ha : a.Tied) (h' : Rep s' b) (hb' : b.Tied)
    (hb : a.step (Rep.argsOk s e.op) e.op = some b) (hu : s.Untangled e) : s.DirsKept e s' := by
  obtain ⟨op, ebp⟩ := e
  refine ⟨h'.dirsTied hb', ?_, ?_⟩
  · intro hop t ht hn u hlive
    obtain rfl : op = .fork := hop
    obtain ⟨-, r, hr, hrb⟩ := AbsKernel.step_fork hb
    obtain ⟨rest, hq, hfc, hpt⟩ := fork_child h h' hr hrb ht hn
    have hfresh := ((h.forkFresh.mp (hu.1 rfl)).resolve_left (by rw [hq]; exact List.cons_ne_nil _ _)).resolve_left
      (by omega) t (by rw [hq]; rfl) u ((h.live u).mp hlive)
    rw [hpt, getPT_eq h]
    exact hfresh.symm
  · intro hop t ht hne pt hpt k hk hpres
    rw [h'.mm]
    rw [h.mm] at hpres
    rcases hop with hop | hop
    · obtain rfl : op = .exit := hop
      obtain ⟨hcur, hx⟩ := AbsKernel.step_call (by simp) hb
      obtain ⟨pt', hpt', hent⟩ := exit_entry ha g hcur hx
      have hd := pagLogInitData_eq
      rw [hent pt _ (by simp only [numPagData, totalPages] at *; omega), if_neg]
      · exact hpres
      · rintro ⟨rfl, -⟩
        refine hu.2 rfl t ht hne ?_ ⟨pt, hpt, k, hk, by rw [h.mm]; exact hpres⟩
        rw [hpt, getPT_eq h, h.current, hpt']
    · obtain rfl : op = .threadExit := hop
      obtain ⟨hcur, hx⟩ := AbsKernel.step_call (by simp) hb
      rw [threadExit_entry ha g hcur hx pt hk]
      exact hpres

theorem untangled_of_dirsKept (h : Rep s a) (g : a.Good) (ha : a.Tied) (h' : Rep s' b)
    (hb : a.step (Rep.argsOk s e.op) e.op = some b) (hk : s.DirsKept e s') : s.Untangled e := by
  obtain ⟨op, ebp⟩ := e
  refine ⟨fun hop => ?_, fun hop t ht hne hpt hdata => ?_⟩
  · obtain rfl : op = .fork := hop
    obtain ⟨-, r, hr, hrb⟩ := AbsKernel.step_fork hb
    rw [h.forkFresh]
    rcases AbsKernel.fork_ends hr with ⟨hq, -⟩ | ⟨child, rest, tab, hq, -, ⟨hfc, -⟩ | ⟨hfc, mm, hrb'⟩⟩
    · exact .inl hq
    · exact .inr (.inl hfc)
    refine .inr (.inr fun c hc t ht => ?_)
    rw [hq, List.head?_cons, Option.mem_some_iff] at hc
    subst hc
    have hlive : s'.Live child := (h'.live child).mpr (.inr (.inl (by
      rw [← hrb, hrb']; simp [AbsKernel.forkStart, AbsKernel.push, AbsKernel.setQueue])))
    have hnot : ¬ s.Live child := fun hl =>
      AbsKernel.not_live_of_free g (by rw [hq]; exact List.mem_cons_self) ((h.live child).mp hl)
    obtain ⟨-, -, -, hdir⟩ := fork_child h h' hr hrb hlive hnot
    have := hk.child rfl child hlive hnot t ((h.live t).mpr ht)
    rw [hdir, getPT_eq h] at this
    exact this.symm
  · obtain rfl : op = .exit := hop
    obtain ⟨hcur, hx⟩ := AbsKernel.step_call (by simp) hb
    obtain ⟨pt', hpt', hent⟩ := exit_entry ha g hcur hx
    obtain ⟨pt, hdir, k, hlt, hpres⟩ := hdata
    have hkeep := hk.exit (.inl rfl) t ht hne pt hdir k hlt hpres
    have hsame : pt = pt' := by
      rw [hdir, getPT_eq h, h.current, hpt'] at hpt
      exact Option.some.inj hpt
    have hd := pagLogInitData_eq
    rw [h'.mm, hent pt _ (by simp only [numPagData, totalPages] at *; omega),
      if_pos ⟨hsame, by omega, by omega⟩] at hkeep
    cases hkeep

end

theorem boot_tied (mc : Machine) : (bootAbs mc).Tied where
  idleTask := rfl
  idlePID := by rw [boot_idle]
  idleDir := by rw [boot_idle]
  users := by
    rintro t (rfl | ht | ⟨tab, k, ht⟩) -
    · rw [show (bootAbs mc).current = 1 from rfl, boot_task1]
      exact ⟨⟨by decide, by change (1 : Int) ≤ 1000; decide⟩, ⟨1, rfl, le_rfl⟩, rfl, ⟨le_rfl, by decide, by decide⟩⟩
    · cases ht
    · cases ht
  agree := by
    have hone : ∀ t, (bootAbs mc).Live t → t = 1 := by
      rintro t (rfl | ht | ⟨tab, k, ht⟩)
      · rfl
      · cases ht
      · cases ht
    intro t ht _ u hu _
    rw [hone t ht, hone u hu]
    exact iff_of_true rfl rfl

/-- The directories stay tied to the processes as long as no `sys_fork` takes the struct whose
directory threads still have, and no process exits before its threads. -/
theorem dirs_tied_iff (mc : Machine) (es : List Kernel.Event) :
    (Kernel.boot mc).DirsTied ∧ AllSteps Kernel.step Kernel.DirsKept (Kernel.boot mc) es ↔
      AllSteps Kernel.step (fun s e _ => s.Untangled e) (Kernel.boot mc) es := by
  rw [and_iff_right ((boot_rep mc).dirsTied (boot_tied mc))]
  refine allSteps_iff_allSteps (I := fun s => ∃ a, Rep s a ∧ a.Good ∧ a.Tied) (A := fun _ => True) ?_ ?_
    ⟨bootAbs mc, boot_rep mc, boot_good mc, boot_tied mc⟩ fun _ _ => trivial
  · rintro s e s' ⟨a, h, g, ha⟩ - hu hs
    obtain ⟨b, hb, h', g'⟩ := h.step_some g hs
    have hb' := ha.step g hb fun hop => h.forkFresh.mp (hu.1 hop)
    exact ⟨⟨b, h', g', hb'⟩, dirsKept_of_untangled h g ha h' hb' hb hu⟩
  · rintro s e s' ⟨a, h, g, ha⟩ - hn hs hk
    obtain ⟨b, hb, h', -⟩ := h.step_some g hs
    exact hn (untangled_of_dirsKept h g ha h' hb hk)

/-- Task 1 creates a thread and exits, and the thread's data pages are gone. -/
theorem exit_unmaps_thread : ¬ AllSteps Kernel.step Kernel.DirsKept (Kernel.boot .blank)
    [⟨.threadCreate 0x100000 0 0x100000, 0⟩, ⟨.exit, 0⟩] := by
  have hrun : ((Kernel.boot .blank).step ⟨.threadCreate 0x100000 0 0x100000, 0⟩).any (fun s => decide
      (s.current = 1 ∧ 2 ∈ s.members .readyqueue ∧ s.getPT 2 = some 1 ∧
        (s.mm.entry 1 pagLogInitData).present = true ∧
        (s.step ⟨.exit, 0⟩).any (fun s' => decide ((s'.mm.entry 1 pagLogInitData).present = false)) = true)) = true := by
    decide +kernel
  obtain ⟨s, hs, hd⟩ := (Option.any_eq_true _ _).mp hrun
  obtain ⟨hc, hready, hpt, hpres, hd⟩ := of_decide_eq_true hd
  obtain ⟨s', hs', hd⟩ := (Option.any_eq_true _ _).mp hd
  intro h
  have hkept := ((h s hs).2 s' hs').1.exit (.inl rfl) 2 (.inr (.inl hready)) (by rw [hc]; decide) 1 hpt 0 (by decide) hpres
  exact Bool.false_ne_true ((of_decide_eq_true hd).symm.trans hkept)

end ZeosSOA.Sysenter
