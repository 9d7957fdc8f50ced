import ZeosSOA.Sysenter.Good

/-!
# ZeOSSysenter: live tasks

A task is live when it runs, is ready or is blocked. `Sched` says of a step that it only
chooses who runs and who waits for what; the clock, `sys_yield` and the semaphores are of
this kind. The calls that end or create a task are described after it.
-/

namespace ZeosSOA.Sysenter.AbsKernel

def Waiting (a : AbsKernel) (t : TaskId) : Prop :=
  t ∈ a.queue .readyqueue ∨ ∃ tab i, t ∈ a.queue (.blocked tab i)

def Live (a : AbsKernel) (t : TaskId) : Prop := t = a.current ∨ a.Waiting t

/-- Apart from the states of the tasks, and from where they are, nothing differs. -/
structure Alike (a b : AbsKernel) : Prop where
  task : ∀ t, ∃ st, b.task t = { a.task t with state := st }
  free : b.queue .freequeue = a.queue .freequeue
  idle : b.idleTask = a.idleTask
  mm : b.mm = a.mm
  globalPID : b.globalPID = a.globalPID

/-- Only who runs and who waits differs, and no task becomes live but idle. -/
structure Sched (a b : AbsKernel) : Prop extends Alike a b where
  live : ∀ t, b.Live t → t = a.idleTask ∨ a.Live t

section
variable {a b : AbsKernel}

theorem schedNextRr_live {t : TaskId} (h : a.schedNextRr.Live t) : t = a.idleTask ∨ a.Waiting t := by
  unfold Live Waiting at h
  rw [schedNextRr_current, schedNextRr_queue] at h
  rcases h with rfl | h | ⟨tab, i, h⟩
  · cases hq : a.queue .readyqueue with
    | nil => exact .inl rfl
    | cons u us => exact .inr (.inl (by rw [hq]; exact List.mem_cons_self))
  · rw [Function.update_self] at h
    exact .inr (.inl (List.mem_of_mem_tail h))
  · rw [Function.update_of_ne (by simp)] at h
    exact .inr (.inr ⟨tab, i, h⟩)

theorem schedNextRr_alike (a : AbsKernel) (t : TaskId) :
    ∃ st, a.schedNextRr.task t = { a.task t with state := st } := by
  rw [schedNextRr_task]
  split
  · exact ⟨_, rfl⟩
  · exact ⟨_, rfl⟩

theorem Alike.schedNextRr (h : Alike a b) (hw : ∀ t, b.Waiting t → a.Live t) : Sched a b.schedNextRr where
  task t := by
    obtain ⟨st, e⟩ := schedNextRr_alike b t
    obtain ⟨st', e'⟩ := h.task t
    exact ⟨st, by rw [e, e']⟩
  free := by rw [schedNextRr_queue, Function.update_of_ne (by simp)]; exact h.free
  idle := by rw [schedNextRr_idleTask, h.idle]
  mm := by rw [schedNextRr_mm, h.mm]
  globalPID := by rw [schedNextRr_globalPID, h.globalPID]
  live t ht := by
    rcases schedNextRr_live ht with e | ht
    · exact .inl (e.trans h.idle)
    · exact .inr (hw t ht)

theorem Alike.sched (h : Alike a b) (hc : b.current = a.current) (hw : ∀ t, b.Waiting t → a.Live t) : Sched a b :=
  { h with
    live := fun t ht => .inr (ht.elim (fun e => .inl (e.trans hc)) (hw t)) }

theorem Sched.refl (a : AbsKernel) : Sched a a := ⟨⟨fun _ => ⟨_, rfl⟩, rfl, rfl, rfl, rfl⟩, fun _ => .inr⟩

theorem alike_setState (t : TaskId) (st : TaskState) (u : TaskId) :
    ∃ st', (a.setState t st).task u = { a.task u with state := st' } := by
  simp only [setState, modTask, Function.update_apply]
  split
  · rename_i e; subst e; exact ⟨_, rfl⟩
  · exact ⟨_, rfl⟩

theorem sched_forceTaskSwitch (a : AbsKernel) : Sched a a.forceTaskSwitch := by
  refine Alike.schedNextRr ⟨alike_setState (a := a.push _ _) _ _, rfl, rfl, rfl, rfl⟩ fun t ht => ?_
  rcases ht with ht | ⟨tab, i, ht⟩
  · rcases List.mem_append.mp (by simpa [push, setQueue, setState, modTask] using ht :
      t ∈ a.queue .readyqueue ++ [a.current]) with ht | ht
    · exact .inr (.inl ht)
    · exact .inl (List.mem_singleton.mp ht)
  · exact .inr (.inr ⟨tab, i, ht⟩)

theorem sched_clock (a : AbsKernel) : Sched a a.clock := by
  unfold clock
  split
  · exact { Sched.refl a with }
  · split
    · exact { Sched.refl a with }
    · exact sched_forceTaskSwitch a

theorem sched_semCreate {value : Int} {r : Int × AbsKernel} (hr : a.semCreate value = some r) : Sched a r.2 := by
  obtain ⟨tab, -, hr⟩ := Option.bind_eq_some_iff.mp hr
  split at hr <;> cases hr
  · refine Alike.sched ⟨fun _ => ⟨_, rfl⟩, rfl, rfl, rfl, rfl⟩ rfl fun t ht => ?_
    rcases ht with ht | ⟨tab', i, ht⟩
    · exact .inr (.inl ht)
    · rw [mem_setQueue] at ht
      split at ht
      · cases ht
      · exact .inr (.inr ⟨tab', i, ht⟩)
  · exact Sched.refl a

theorem sched_block (a : AbsKernel) (tab : SemTable) (i : Fin numSem) : Sched a (a.block tab i) := by
  refine Alike.schedNextRr ⟨alike_setState _ _, rfl, rfl, rfl, rfl⟩ fun t ht => ?_
  rcases ht with ht | ⟨tab', k, ht⟩
  · exact .inr (.inl ht)
  · rw [mem_setQueue] at ht
    split at ht
    · rcases List.mem_cons.mp ht with e | ht
      · exact .inl e
      · exact .inr (.inr ⟨tab, i, ht⟩)
    · exact .inr (.inr ⟨tab', k, ht⟩)

theorem sched_semWait {semID : Int} (hb : a.semWait semID = some b) : Sched a b := by
  obtain ⟨_ | ⟨tab, i⟩, -, hb⟩ := Option.bind_eq_some_iff.mp hb
  · cases hb; exact Sched.refl a
  · dsimp only at hb
    split at hb <;> cases hb
    · exact { sched_block (a.addCount tab i (-1)) tab i with }
    · exact { Sched.refl a with }

theorem sched_wake {tab : SemTable} {i : Fin numSem} (hb : a.wake tab i = some b) : Sched a b := by
  unfold wake at hb
  split at hb
  · rename_i t ts hq
    cases hb
    have ht : t ∈ a.queue (.blocked tab i) := by rw [hq]; exact List.mem_cons_self
    refine Alike.sched ⟨alike_setState (a := a.setQueue _ _) _ _, rfl, rfl, rfl, rfl⟩ rfl fun u hu => ?_
    rcases hu with hu | ⟨tab', k, hu⟩
    · rw [mem_setQueue, if_pos rfl] at hu
      rcases List.mem_cons.mp hu with rfl | hu
      · exact .inr (.inr ⟨tab, i, ht⟩)
      · exact .inr (.inl hu)
    · exact .inr (.inr ⟨tab', k, (pop_sublist hq _).subset hu⟩)
  · cases hb

theorem sched_semSignal {semID : Int} (hb : a.semSignal semID = some b) : Sched a b := by
  obtain ⟨_ | ⟨tab, i⟩, -, hb⟩ := Option.bind_eq_some_iff.mp hb
  · cases hb; exact Sched.refl a
  · dsimp only at hb
    split at hb
    · exact { sched_wake (a := a.addCount tab i 1) hb with }
    · cases hb; exact { Sched.refl a with }

theorem sched_wakeAll (a : AbsKernel) (tab : SemTable) (i : Fin numSem) : Sched a (a.wakeAll tab i) := by
  refine Alike.sched ⟨fun t => ?_, rfl, rfl, rfl, rfl⟩ rfl fun t ht => ?_
  · simp only [wakeAll]
    split
    · exact ⟨_, rfl⟩
    · exact ⟨_, rfl⟩
  · rcases ht with ht | ⟨tab', k, ht⟩
    · rcases List.mem_append.mp (by simpa [wakeAll, setQueue] using ht :
        t ∈ a.queue .readyqueue ++ a.queue (.blocked tab i)) with ht | ht
      · exact .inr (.inl ht)
      · exact .inr (.inr ⟨tab, i, ht⟩)
    · have := (mem_setQueue (a := a.setQueue .readyqueue _)).mp ht
      split at this
      · cases this
      · exact .inr (.inr ⟨tab', k, this⟩)

theorem sched_semDestroy {semID : Int} (hb : a.semDestroy semID = some b) : Sched a b := by
  obtain ⟨_ | ⟨tab, i⟩, -, hb⟩ := Option.bind_eq_some_iff.mp hb
  · cases hb; exact Sched.refl a
  · cases hb; exact { sched_wakeAll a tab i with }

/-! ## Calls that end a task -/

/-- The current task becomes free, and the memory `mm`. -/
structure Leaves (a b : AbsKernel) (mm : Mm) : Prop where
  task : ∀ t, t ≠ a.current → ∃ st, b.task t = { a.task t with state := st }
  live : ∀ t, b.Live t → t = a.idleTask ∨ t ≠ a.current ∧ a.Live t
  free : b.queue .freequeue = a.queue .freequeue ++ [a.current]
  idle : b.idleTask = a.idleTask
  mm : b.mm = mm
  globalPID : b.globalPID = a.globalPID

theorem leaves_leave (g : a.Good) {f : TaskCore → TaskCore} (mm : Mm) :
    Leaves a ((a.setMm mm).modTask a.current f).leave mm where
  task t ht := by
    obtain ⟨st, e⟩ := schedNextRr_alike (((a.setMm mm).modTask a.current f).push .freequeue a.current) t
    exact ⟨st, by rw [leave]; refine e.trans ?_; simp [push, setQueue, modTask, setMm, ht]⟩
  live t ht := by
    rcases schedNextRr_live ht with e | ht
    · exact .inl e
    · have hw : a.Waiting t := ht
      refine .inr ⟨?_, .inr hw⟩
      rintro rfl
      rcases hw with hw | ⟨tab, i, hw⟩
      · exact g.current _ hw
      · exact g.current _ hw
  free := by rw [leave, schedNextRr_queue, Function.update_of_ne (by simp)]; simp [push, setQueue, modTask, setMm]
  idle := schedNextRr_idleTask _
  mm := schedNextRr_mm _
  globalPID := schedNextRr_globalPID _

theorem leaves_exit (g : a.Good) (hb : a.exit = some b) : ∃ pt hp mm,
    (a.task a.current).dirPagesBaseAddr = some pt ∧
    releaseHeap pt (a.task a.current).heapStartProc pointerRounds (a.task a.current).heapPointerProc
      (releaseData pt numPagData a.mm) = some (hp, mm) ∧ Leaves a b mm := by
  obtain ⟨pt, hpt, hb⟩ := Option.bind_eq_some_iff.mp hb
  obtain ⟨⟨hp, mm⟩, hrel, hb⟩ := Option.bind_eq_some_iff.mp hb
  cases hb
  refine ⟨pt, hp, mm, hpt, hrel, ?_⟩
  have := leaves_leave g (f := fun c => { c with heapPointerProc := hp, PID := -1 }) mm
  simpa [setHeapPointer, modTask, setMm] using this

theorem leaves_threadExit (g : a.Good) (hb : a.threadExit = some b) : ∃ pt,
    (a.task a.current).dirPagesBaseAddr = some pt ∧
    Leaves a b (releasePage pt a.mm ((a.task a.current).heapPointerProc / pageSize)) := by
  obtain ⟨pt, hpt, hb⟩ := Option.bind_eq_some_iff.mp hb
  cases hb
  exact ⟨pt, hpt, leaves_leave g (f := fun c => { c with heapPointerProc := _ }) _⟩

/-! ## Calls that create a task -/

theorem fork_cases {r : Int × AbsKernel} (hr : a.fork = some r) :
    a.queue .freequeue = [] ∧ r = (-ENOMEM, a) ∨
    ∃ child rest tab, a.queue .freequeue = child :: rest ∧ (a.task a.current).semafors = some tab ∧
      ((∃ mm, forkAllocData child.val numPagData 0 a.mm = (false, mm) ∧
          r = (-EAGAIN, ((a.forkChild child rest tab).setMm mm).push .freequeue child)) ∨
        ∃ mm pt mm', forkAllocData child.val numPagData 0 a.mm = (true, mm) ∧
          (a.task a.current).dirPagesBaseAddr = some pt ∧
          forkMap child.val pt (a.task a.current).heapStartProc (a.task a.current).heapPointerProc mm = some mm' ∧
          r = (a.globalPID + 1, ((a.forkChild child rest tab).setMm mm').forkStart child)) := by
  unfold fork at hr
  cases hq : a.queue .freequeue with
  | nil => rw [hq] at hr; cases hr; exact .inl ⟨rfl, rfl⟩
  | cons child rest =>
    rw [hq] at hr
    obtain ⟨tab, htab, hr⟩ := Option.bind_eq_some_iff.mp hr
    dsimp only at hr
    refine .inr ⟨child, rest, tab, rfl, htab, ?_⟩
    rcases hal : forkAllocData child.val numPagData 0 a.mm with ⟨_ | _, mm⟩
    · rw [hal] at hr; cases hr
      exact .inl ⟨mm, rfl, rfl⟩
    · rw [hal] at hr
      obtain ⟨pt, hpt, hr⟩ := Option.bind_eq_some_iff.mp hr
      obtain ⟨mm', hmap, hr⟩ := Option.bind_eq_some_iff.mp hr
      cases hr
      exact .inr ⟨mm, pt, mm', rfl, hpt, hmap, rfl⟩

theorem threadCreate_cases {f p : UInt32} {r : Int × AbsKernel} (hr : a.threadCreate f p = some r) :
    a.queue .freequeue = [] ∧ r = (-ENOMEM, a) ∨
    ∃ child rest, a.queue .freequeue = child :: rest ∧
      ((a.task a.current).heapPointerProc / pageSize > totalPages ∧ r = (-1, a.threadChild child rest) ∨
        ¬ (a.task a.current).heapPointerProc / pageSize > totalPages ∧
        ∃ pt, (a.task a.current).dirPagesBaseAddr = some pt ∧
          ((∃ mm, a.mm.allocFrame.1 ≠ -1 ∧
              Kernel.writeUstack (a.mm.allocFrame.2.setSsPag pt ((a.task a.current).heapPointerProc / pageSize)
                a.mm.allocFrame.1) pt ((a.task a.current).heapPointerProc / pageSize) f p = some mm ∧
              r = (a.globalTID + 1, (((a.threadChild child rest).setMm mm).setHeapPointer
                (addPage (a.task a.current).heapPointerProc)).push .readyqueue child)) ∨
            ∃ hp mm, a.mm.allocFrame.1 = -1 ∧
              releaseHeap pt (a.task a.current).heapStartProc pointerRounds (a.task a.current).heapPointerProc
                a.mm.allocFrame.2 = some (hp, mm) ∧
              r = (-EAGAIN, (((a.threadChild child rest).setMm mm).setHeapPointer hp).push .freequeue child))) := by
  unfold threadCreate at hr
  cases hq : a.queue .freequeue with
  | nil => rw [hq] at hr; cases hr; exact .inl ⟨rfl, rfl⟩
  | cons child rest =>
    rw [hq] at hr
    dsimp only at hr
    refine .inr ⟨child, rest, rfl, ?_⟩
    split at hr
    · rename_i hpg
      cases hr; exact .inl ⟨hpg, rfl⟩
    · rename_i hpg
      obtain ⟨pt, hpt, hr⟩ := Option.bind_eq_some_iff.mp hr
      refine .inr ⟨hpg, pt, hpt, ?_⟩
      split at hr
      · rename_i hf
        obtain ⟨mm, hmm, hr⟩ := Option.bind_eq_some_iff.mp hr
        cases hr
        exact .inl ⟨mm, hf, hmm, rfl⟩
      · rename_i hf
        obtain ⟨⟨hp, mm⟩, hrel, hr⟩ := Option.bind_eq_some_iff.mp hr
        cases hr
        exact .inr ⟨hp, mm, not_not.mp hf, hrel, rfl⟩

theorem sbrk_cases {size : Int} (hb : a.sbrk size = some b) : b = a ∨ ∃ pt ret hp mm,
    (a.task a.current).dirPagesBaseAddr = some pt ∧
    sbrkHeap pt (a.task a.current).heapStartProc (a.task a.current).heapPointerProc size a.mm = some (ret, hp, mm) ∧
    b = (a.setMm mm).setHeapPointer hp := by
  unfold sbrk at hb
  dsimp only at hb
  split at hb
  · cases hb; exact .inl rfl
  · obtain ⟨pt, hpt, hb⟩ := Option.bind_eq_some_iff.mp hb
    obtain ⟨⟨ret, hp, mm⟩, hs, hb⟩ := Option.bind_eq_some_iff.mp hb
    cases hb
    exact .inr ⟨pt, ret, hp, mm, hpt, hs, rfl⟩

/-- A step only schedules, or it is one of five calls of a task other than idle. -/
theorem step_cases {ok : Bool} {op : Kernel.Op} (hb : a.step ok op = some b) : Sched a b ∨
    a.current ≠ a.idleTask ∧ (op = .exit ∧ a.exit = some b ∨ op = .threadExit ∧ a.threadExit = some b ∨
      op = .fork ∧ (∃ r, a.fork = some r ∧ r.2 = b) ∨
      (∃ f p w, op = .threadCreate f p w ∧ ∃ r, a.threadCreate f p = some r ∧ r.2 = b) ∨
      ∃ size, op = .sbrk size ∧ a.sbrk size = some b) := by
  unfold AbsKernel.step at hb
  split at hb
  · cases hb
  rename_i hidle
  have hne : op ≠ .clock → a.current ≠ a.idleTask := fun h e => hidle ⟨h, e.symm⟩
  cases op <;> simp only [AbsKernel.handle] at hb
  case clock => cases hb; exact .inl (sched_clock a)
  case yield => cases hb; exact .inl (sched_forceTaskSwitch a)
  case exit => exact .inr ⟨hne (by simp), .inl ⟨rfl, hb⟩⟩
  case fork => exact .inr ⟨hne (by simp), .inr (.inr (.inl ⟨rfl, Option.map_eq_some_iff.mp hb⟩))⟩
  case threadCreate f p w =>
    split at hb
    · exact .inr ⟨hne (by simp), .inr (.inr (.inr (.inl ⟨f, p, w, rfl, Option.map_eq_some_iff.mp hb⟩)))⟩
    · cases hb; exact .inl (.refl a)
  case threadExit => exact .inr ⟨hne (by simp), .inr (.inl ⟨rfl, hb⟩)⟩
  case sbrk size => exact .inr ⟨hne (by simp), .inr (.inr (.inr (.inr ⟨size, rfl, hb⟩)))⟩
  case semCreate =>
    obtain ⟨r, hr, rfl⟩ := Option.map_eq_some_iff.mp hb
    exact .inl (sched_semCreate hr)
  case semWait => exact .inl (sched_semWait hb)
  case semSignal => exact .inl (sched_semSignal hb)
  case semDestroy => exact .inl (sched_semDestroy hb)

theorem step_call {ok : Bool} {op : Kernel.Op} (hop : op ≠ .clock) (hb : a.step ok op = some b) :
    a.current ≠ a.idleTask ∧ a.handle ok op = some b := by
  unfold AbsKernel.step at hb
  split at hb
  · cases hb
  · rename_i hidle
    exact ⟨fun e => hidle ⟨hop, e.symm⟩, hb⟩

theorem step_fork {ok : Bool} (hb : a.step ok .fork = some b) :
    a.current ≠ a.idleTask ∧ ∃ r, a.fork = some r ∧ r.2 = b := by
  obtain ⟨hne, hb⟩ := step_call (by simp) hb
  exact ⟨hne, Option.map_eq_some_iff.mp hb⟩

theorem threadCreate_task {child : TaskId} (hc : a.current ≠ child) (rest : List TaskId) (mm : Mm) (hp : Nat)
    (t : TaskId) : (((a.threadChild child rest).setMm mm).setHeapPointer hp).task t =
      if t = child then { a.task a.current with TID := a.globalTID + 1, state := .ready }
      else if t = a.current then { a.task a.current with heapPointerProc := hp } else a.task t := by
  by_cases h1 : t = child
  · subst h1
    simp [setHeapPointer, setMm, threadChild, modTask, copyTask, setQueue, Ne.symm hc]
  · by_cases h2 : t = a.current
    · subst h2; simp [setHeapPointer, setMm, threadChild, modTask, copyTask, setQueue, hc]
    · simp [setHeapPointer, setMm, threadChild, modTask, copyTask, setQueue, h1, h2]

theorem threadCreate_live {child : TaskId} {rest : List TaskId} {mm : Mm} {hp : Nat} {i : Queue} {t : TaskId}
    (h : ((((a.threadChild child rest).setMm mm).setHeapPointer hp).push i child).Live t) : t = child ∨ a.Live t := by
  rcases h with h | h | ⟨tab, k, h⟩
  · exact .inr (.inl h)
  · rw [push, mem_setQueue] at h
    split at h
    · rename_i e; subst e
      rcases List.mem_append.mp h with h | h
      · exact .inr (.inr (.inl h))
      · exact .inl (List.mem_singleton.mp h)
    · exact .inr (.inr (.inl h))
  · rw [push, mem_setQueue] at h
    split at h
    · rename_i e; subst e
      rcases List.mem_append.mp h with h | h
      · exact .inr (.inr (.inr ⟨tab, k, h⟩))
      · exact .inl (List.mem_singleton.mp h)
    · exact .inr (.inr (.inr ⟨tab, k, h⟩))

theorem forkChild_live {child : TaskId} {rest : List TaskId} (hq : a.queue .freequeue = child :: rest)
    (tab : SemTable) (mm : Mm) {t : TaskId} (h : ((a.forkChild child rest tab).setMm mm).Live t) : a.Live t := by
  have hs := forkChild_sublist hq tab
  exact h.imp_right (Or.imp (fun h => (hs _).subset h) fun ⟨tab', k, h⟩ => ⟨tab', k, (hs _).subset h⟩)

theorem forkStart_live {child : TaskId} {rest : List TaskId} (hq : a.queue .freequeue = child :: rest)
    {tab : SemTable} {mm : Mm} {t : TaskId}
    (h : (((a.forkChild child rest tab).setMm mm).forkStart child).Live t) : t = child ∨ a.Live t := by
  have hs := forkChild_sublist hq tab
  rcases h with h | h | ⟨tab', k, h⟩
  · exact .inr (.inl h)
  · rcases List.mem_append.mp (by simpa [forkStart, push, setQueue, modTask, setMm] using h :
      t ∈ (a.forkChild child rest tab).queue .readyqueue ++ [child]) with h | h
    · exact .inr (.inr (.inl ((hs _).subset h)))
    · exact .inl (List.mem_singleton.mp h)
  · exact .inr (.inr (.inr ⟨tab', k, (hs _).subset h⟩))

theorem forkStart_task (child : TaskId) (rest : List TaskId) (tab : SemTable) (mm : Mm) (t : TaskId) :
    (((a.forkChild child rest tab).setMm mm).forkStart child).task t =
      if t = child then { a.task a.current with
        dirPagesBaseAddr := some child.val, PID := a.globalPID + 1, state := .ready }
      else a.task t := by
  by_cases h1 : t = child
  · subst h1; simp [forkStart, forkChild, push, setQueue, modTask, setMm, resetSemafors, copyTask]
  · simp [forkStart, forkChild, push, setQueue, modTask, setMm, resetSemafors, copyTask, h1]

theorem forkChild_task_ne {child t : TaskId} (h : t ≠ child) (rest : List TaskId) (tab : SemTable) :
    (a.forkChild child rest tab).task t = a.task t := by
  simp [forkChild, setQueue, resetSemafors, copyTask, h]

theorem sbrk_task (mm : Mm) (hp : Nat) (t : TaskId) : ((a.setMm mm).setHeapPointer hp).task t =
    if t = a.current then { a.task a.current with heapPointerProc := hp } else a.task t := by
  by_cases e : t = a.current
  · subst e
    simp [setHeapPointer, modTask, setMm]
  · simp [setHeapPointer, modTask, setMm, e]

theorem threadChild_task_ne {child : TaskId} {rest : List TaskId} {t : TaskId} (h : t ≠ child) :
    (a.threadChild child rest).task t = a.task t := by
  simp [threadChild, modTask, setQueue, copyTask, h]

theorem not_live_of_free (g : a.Good) {t : TaskId} (ht : t ∈ a.queue .freequeue) : ¬ a.Live t := by
  rintro (e | h | ⟨tab, k, h⟩)
  · exact g.current _ (e ▸ ht)
  · cases g.apart _ _ t ht h
  · cases g.apart _ _ t ht h

/-! ## What all live tasks have -/

def Users (P : TaskCore → Prop) (a : AbsKernel) : Prop := ∀ t, a.Live t → t ≠ a.idleTask → P (a.task t)

section
variable {P : TaskCore → Prop} (hP : ∀ c st, P c → P { c with state := st })

include hP in
theorem Users.sched (h : Users P a) (hs : Sched a b) : Users P b := by
  intro t ht hi
  obtain ⟨st, e⟩ := hs.task t
  rw [e]
  exact hP _ _ (h t ((hs.live t ht).resolve_left fun e' => hi (e'.trans hs.idle.symm)) (hs.idle ▸ hi))

include hP in
theorem Users.leaves (h : Users P a) {mm : Mm} (hl : Leaves a b mm) : Users P b := by
  intro t ht hi
  obtain ⟨hne, hlive⟩ := (hl.live t ht).resolve_left fun e => hi (e.trans hl.idle.symm)
  obtain ⟨st, e⟩ := hl.task t hne
  rw [e]
  exact hP _ _ (h t hlive (hl.idle ▸ hi))

theorem Users.thread (h : Users P a) {child : TaskId} (hc : a.current ≠ child) {rest : List TaskId} {mm : Mm} {hp : Nat}
    {i : Queue} (hchild : P { a.task a.current with TID := a.globalTID + 1, state := .ready })
    (hcur : P { a.task a.current with heapPointerProc := hp }) :
    Users P ((((a.threadChild child rest).setMm mm).setHeapPointer hp).push i child) := by
  intro t ht hi
  rw [show ((((a.threadChild child rest).setMm mm).setHeapPointer hp).push i child).task t =
    (((a.threadChild child rest).setMm mm).setHeapPointer hp).task t from rfl, threadCreate_task hc]
  split
  · exact hchild
  · split
    · exact hcur
    · rename_i h1 _
      exact h t ((threadCreate_live ht).resolve_left h1) hi

theorem Users.threadChild (h : Users P a) (g : a.Good) {child : TaskId} {rest : List TaskId}
    (hq : a.queue .freequeue = child :: rest) : Users P (a.threadChild child rest) := by
  intro t ht hi
  have hlive : a.Live t := ht
  have hne : t ≠ child := by
    rintro rfl
    exact not_live_of_free g (by rw [hq]; exact List.mem_cons_self) hlive
  rw [threadChild_task_ne hne]
  exact h t hlive hi

theorem Users.setHeapPointer (h : Users P a) {mm : Mm} {hp : Nat}
    (hcur : P { a.task a.current with heapPointerProc := hp }) : Users P ((a.setMm mm).setHeapPointer hp) := by
  intro t ht hi
  rw [sbrk_task]
  split
  · exact hcur
  · exact h t ht hi

theorem Users.forkFailed (h : Users P a) (g : a.Good) {child : TaskId} {rest : List TaskId}
    (hq : a.queue .freequeue = child :: rest) {tab : SemTable} {mm : Mm} :
    Users P (((a.forkChild child rest tab).setMm mm).push .freequeue child) := by
  intro t ht hi
  have hlive : a.Live t := forkChild_live hq tab mm ht
  have hne : t ≠ child := by
    rintro rfl
    exact not_live_of_free g (by rw [hq]; exact List.mem_cons_self) hlive
  change P ((a.forkChild child rest tab).task t)
  rw [forkChild_task_ne hne]
  exact h t hlive hi

theorem Users.forkStart (h : Users P a) {child : TaskId} {rest : List TaskId}
    (hq : a.queue .freequeue = child :: rest) {tab : SemTable} {mm : Mm}
    (hchild : P { a.task a.current with
      dirPagesBaseAddr := some child.val, PID := a.globalPID + 1, state := .ready }) :
    Users P (((a.forkChild child rest tab).setMm mm).forkStart child) := by
  intro t ht hi
  rw [forkStart_task]
  split
  · exact hchild
  · rename_i h1
    exact h t ((forkStart_live hq ht).resolve_left h1) hi

end

end

end ZeosSOA.Sysenter.AbsKernel
