import ZeosSOA.Sysenter.Frames
import ZeosSOA.Sysenter.Partition
import ZeosSOA.Sysenter.Private
import ZeosSOA.Sysenter.Stats

/-!
# ZeOSSysenter: which processes sys_get_stats finds

The call looks at all task structs, the free ones too. It finds exactly the processes there are as
long as a struct that is given back has no PID any more: `sys_exit` sees to it, but a thread that
exits and a creation that fails do not.
-/

namespace ZeosSOA.Sysenter

open Runs Mm

namespace AbsKernel

/-- Each struct is in use or in a queue, nobody waits for a semaphore, and the free structs have no PID. -/
structure Tidy (a : AbsKernel) : Prop where
  full : a.Full
  unblocked : ∀ tab i, a.queue (.blocked tab i) = []
  free : ∀ t ∈ a.queue .freequeue, (a.task t).PID = -1

section
variable {a b : AbsKernel}

theorem Sched.pid (h : Sched a b) (t : TaskId) : (b.task t).PID = (a.task t).PID := by
  obtain ⟨st, e⟩ := h.task t
  rw [e]

theorem Tidy.clock (h : Tidy a) : Tidy a.clock where
  full := h.full.clock
  unblocked tab i := by rw [(keeps_clock a).waiting, h.unblocked]
  free t ht := by
    rw [(sched_clock a).free] at ht
    rw [(sched_clock a).pid, h.free t ht]

theorem Tidy.leave (h : Tidy a) (hpid : (a.task a.current).PID = -1) : Tidy a.leave where
  full := h.full.leave
  unblocked tab i := by rw [(keeps_leave (Keeps.refl a tab i)).waiting, h.unblocked]
  free t ht := by
    obtain ⟨st, e⟩ := schedNextRr_alike (a.push .freequeue a.current) t
    have hfree : t ∈ a.queue .freequeue ++ [a.current] := by
      rw [AbsKernel.leave, schedNextRr_queue, Function.update_of_ne (by simp)] at ht
      simpa [push, setQueue] using ht
    rw [AbsKernel.leave, e]
    rcases List.mem_append.mp hfree with hm | hm
    · exact h.free t hm
    · rw [List.mem_singleton.mp hm]
      exact hpid

theorem Tidy.exit (h : Tidy a) (g : a.Good) (hb : a.exit = some b) : Tidy b := by
  obtain ⟨pt, -, hb⟩ := Option.bind_eq_some_iff.mp hb
  obtain ⟨⟨hp, mm⟩, -, hb⟩ := Option.bind_eq_some_iff.mp hb
  cases hb
  apply Tidy.leave
  · refine ⟨h.full, h.unblocked, fun t ht => ?_⟩
    have hne : t ≠ a.current := by
      rintro rfl
      exact g.current _ ht
    simpa [modTask, setHeapPointer, setMm, hne] using h.free t ht
  · simp [modTask, setHeapPointer, setMm]

theorem Good.free_ne (g : a.Good) {child : TaskId} {rest : List TaskId} (hq : a.queue .freequeue = child :: rest) {t : TaskId}
    (ht : t ∈ rest) : t ≠ child ∧ t ≠ a.current := by
  have hd := g.nodup .freequeue
  rw [hq, List.nodup_cons] at hd
  refine ⟨?_, ?_⟩
  · rintro rfl
    exact hd.1 ht
  · rintro rfl
    exact g.current .freequeue (by rw [hq]; exact List.mem_cons_of_mem _ ht)

theorem Tidy.start (h : Tidy a) {child : TaskId} {rest : List TaskId} (hq : a.queue .freequeue = child :: rest)
    (hfree : b.queue .freequeue = rest) (hready : b.queue .readyqueue = a.queue .readyqueue ++ [child])
    (hblocked : ∀ tab i, b.queue (.blocked tab i) = []) (hc : b.current = a.current) (hi : b.idleTask = a.idleTask)
    (hpid : ∀ t ∈ rest, (b.task t).PID = (a.task t).PID) : Tidy b where
  full t := by
    rw [hc, hi]
    rcases h.full t with e | e | ⟨i, hm⟩
    · exact .inl e
    · exact .inr (.inl e)
    · refine .inr (.inr ?_)
      cases i with
      | freequeue =>
        rw [hq] at hm
        rcases List.mem_cons.mp hm with rfl | hm
        · exact ⟨.readyqueue, by rw [hready]; simp⟩
        · exact ⟨.freequeue, by rwa [hfree]⟩
      | readyqueue => exact ⟨.readyqueue, by rw [hready]; exact List.mem_append_left _ hm⟩
      | blocked tab i =>
        rw [h.unblocked] at hm
        cases hm
  unblocked := hblocked
  free t ht := by
    rw [hfree] at ht
    rw [hpid t ht]
    exact h.free t (by rw [hq]; exact List.mem_cons_of_mem _ ht)

theorem Tidy.fork (h : Tidy a) (g : a.Good) (hn : a.queue .freequeue = [] ∨ numPagData ≤ a.mm.freeCount) {r : Int × AbsKernel}
    (hr : a.fork = some r) : Tidy r.2 := by
  rcases fork_cases hr with ⟨-, rfl⟩ | ⟨child, rest, tab, hq, -, ⟨mm, hal, rfl⟩ | ⟨mm, pt, mm', -, -, -, rfl⟩⟩
  · exact h
  · -- the frames suffice
    have hfew := (forkAllocData_fst child.val numPagData 0 a.mm).mpr (hn.resolve_left (by rw [hq]; exact List.cons_ne_nil _ _))
    rw [hal] at hfew
    cases hfew
  · refine h.start hq rfl rfl (fun tab' i => ?_) rfl rfl fun t ht => ?_
    · have hs := forkChild_sublist hq tab (.blocked tab' i)
      rw [h.unblocked] at hs
      exact List.sublist_nil.mp hs
    · rw [forkStart_task, if_neg (g.free_ne hq ht).1]

theorem Tidy.threadCreate (h : Tidy a) (g : a.Good) (hn : a.queue .freequeue = [] ∨
    (a.task a.current).heapPointerProc / pageSize ≤ totalPages ∧ 0 < a.mm.freeCount) {f p : UInt32} {r : Int × AbsKernel}
    (hr : a.threadCreate f p = some r) : Tidy r.2 := by
  rcases threadCreate_cases hr with ⟨-, rfl⟩ | ⟨child, rest, hq, hr⟩
  · exact h
  obtain ⟨hpage, hframe⟩ := hn.resolve_left (by rw [hq]; exact List.cons_ne_nil _ _)
  rcases hr with ⟨hgt, -⟩ | ⟨-, pt, -, ⟨mm, -, -, rfl⟩ | ⟨hp, mm, hnone, -⟩⟩
  · omega
  · refine h.start hq rfl rfl h.unblocked rfl rfl fun t ht => ?_
    obtain ⟨h1, h2⟩ := g.free_ne hq ht
    have htask := threadCreate_task (g.child_ne hq).1 rest mm (addPage (a.task a.current).heapPointerProc) t
    rw [if_neg h1, if_neg h2] at htask
    exact congrArg TaskCore.PID htask
  · have := allocFrame_eq_neg_one.mp hnone
    omega

end

end AbsKernel

namespace Kernel

/-- A task that runs or waits, or idle. -/
def Known (s : Kernel) (t : TaskId) : Prop := s.Live t ∨ s.idleTask = some t

/-- The check lets statistics through to `st`, and the memory is there. -/
def Storable (s : Kernel) (st : UInt32) : Prop := accessOk .verifyWrite st sizeStats none = true ∧ s.Mapped st sizeStats

/-- `sys_get_stats` finds exactly the PIDs of the tasks there are. It copies the statistics of a task that has the PID,
and with a PID that no task has it changes nothing. -/
structure FindsLive (s : Kernel) : Prop where
  found : ∀ pid st, 0 ≤ pid → s.Storable st → (∃ t, s.Known t ∧ (s.task t).PID = pid) →
    ∃ i mm pt, s.sysGetStats pid st = some (0, (s.setRemainingTicks i).setMm mm) ∧ s.Known i ∧ (s.task i).PID = pid ∧
      s.getPT s.current = some pt ∧ Stored (loadByte pt mm) st ((s.setRemainingTicks i).task i).pStats.bytes
  missed : ∀ pid st, 0 ≤ pid → s.Storable st → (¬ ∃ t, s.Known t ∧ (s.task t).PID = pid) →
    s.sysGetStats pid st = some (-ESRCH, s)

/-- The ticks, and the calls that create and end tasks. -/
def Lifecycle : Op → Prop
  | .clock | .fork | .threadCreate _ _ _ | .threadExit | .exit => True
  | _ => False

/-- No thread exits, and a creation that takes a struct succeeds. -/
def LeavesNoPid (s : Kernel) (e : Event) : Prop :=
  match e.op with
  | .threadExit => False
  | .fork => s.members .freequeue = [] ∨ numPagData ≤ s.mm.freeCount
  | .threadCreate f p w => ¬ s.threadArgsOk f p w ∨ s.members .freequeue = [] ∨
      (s.task s.current).heapPointerProc / pageSize ≤ totalPages ∧ 0 < s.mm.freeCount
  | _ => True

end Kernel

section
variable {s s' : Kernel} {a b : AbsKernel}

/-- A struct with a PID is one of a task there is. -/
theorem AbsKernel.Tidy.known (h : a.Tidy) (hr : Rep s a) {t : TaskId} (ht : 0 ≤ (s.task t).PID) : s.Known t := by
  rw [pid_eq hr] at ht
  rcases h.full t with e | e | ⟨i, hm⟩
  · exact .inl ((hr.live t).mpr (.inl e))
  · exact .inr (by rw [hr.idleTask, e])
  · cases i with
    | freequeue =>
      rw [h.free t hm] at ht
      exact absurd ht (by decide)
    | readyqueue => exact .inl ((hr.live t).mpr (.inr (.inl hm)))
    | blocked tab i =>
      rw [h.unblocked] at hm
      cases hm

theorem AbsKernel.Tidy.findsLive (h : a.Tidy) (hr : Rep s a) : s.FindsLive where
  found pid st hpid hst := by
    rintro ⟨t, -, ht⟩
    obtain ⟨i, mm, pt, hcall, hi, hpt, -, -, hstored⟩ := Kernel.sysGetStats_some hst.1 hpid hst.2 ⟨t, ht⟩
    exact ⟨i, mm, pt, hcall, h.known hr (by rw [hi]; exact hpid), hi, hpt, hstored⟩
  missed pid st hpid hst hn := by
    apply Kernel.sysGetStats_none hst.1 hpid
    intro t ht
    exact hn ⟨t, h.known hr (by rw [ht]; exact hpid), ht⟩

theorem AbsKernel.Tidy.step (h : a.Tidy) (hr : Rep s a) (g : a.Good) {e : Kernel.Event} (hop : Kernel.Lifecycle e.op)
    (hn : s.LeavesNoPid e) (hb : a.step (Rep.argsOk s e.op) e.op = some b) : b.Tidy := by
  obtain ⟨op, ebp⟩ := e
  unfold Kernel.LeavesNoPid at hn
  unfold AbsKernel.step at hb
  split at hb
  · cases hb
  cases op with
  | clock => cases hb; exact h.clock
  | exit => exact h.exit g hb
  | fork =>
    obtain ⟨r, hr', rfl⟩ := Option.map_eq_some_iff.mp hb
    rw [hr.members, hr.mm] at hn
    exact h.fork g hn hr'
  | threadCreate f p w =>
    dsimp only [AbsKernel.handle, Rep.argsOk] at hb hn
    split at hb
    · rename_i hok
      obtain ⟨r, hr', rfl⟩ := Option.map_eq_some_iff.mp hb
      have hn := hn.resolve_left (not_not.mpr hok)
      rw [hr.members, hr.mm, hr.heapPointerProc] at hn
      exact h.threadCreate g hn hr'
    · cases hb; exact h
  | threadExit => exact hn.elim
  | _ => exact hop.elim

end

theorem boot_tidy (mc : Machine) : (bootAbs mc).Tidy where
  full := boot_full mc
  unblocked _ _ := rfl
  free t ht := by
    have : ∀ t ∈ ([2, 3, 4, 5, 6, 7, 8, 9] : List TaskId), ((bootAbs mc).task t).PID = -1 := by
      intro t ht
      fin_cases ht <;> rfl
    exact this t ht

/-- In a run of ticks and of calls that create and end tasks, `sys_get_stats` finds exactly the tasks there are, as long
as no thread exits and no creation fails with a struct in its hands. -/
theorem finds_live (mc : Machine) {es : List Kernel.Event} (hes : ∀ e ∈ es, Kernel.Lifecycle e.op)
    (h : AllSteps Kernel.step (fun s e _ => s.LeavesNoPid e) (Kernel.boot mc) es) :
    AllStates Kernel.step Kernel.FindsLive (Kernel.boot mc) es := by
  have hops : AllSteps Kernel.step (fun _ e _ => Kernel.Lifecycle e.op) (Kernel.boot mc) es :=
    allSteps_of_forall (fun _ _ _ hop => hop) hes
  have hall := allSteps_and h hops
  refine allStates_of_invariant (I := fun s => ∃ a, Rep s a ∧ a.Good ∧ a.Tidy) ?_ ?_
    ⟨_, boot_rep mc, boot_good mc, boot_tidy mc⟩ hall
  · rintro s ⟨a, hr, -, ht⟩
    exact ht.findsLive hr
  · rintro s e s' ⟨a, hr, g, ht⟩ ⟨hn, hop⟩ hs
    obtain ⟨b, hb, hr', g'⟩ := hr.step_some g hs
    exact ⟨b, hr', g', ht.step hr g hop hn hb⟩

theorem finds_live_fork : AllStates Kernel.step Kernel.FindsLive (Kernel.boot .blank) [⟨.fork, 4024⟩] := by
  refine finds_live .blank (fun e he => ?_) fun s' _ => ⟨.inr (by decide +kernel), trivial⟩
  obtain rfl := List.mem_singleton.mp he
  trivial

/-- Task 1 creates a thread and a process and exits, and then the thread does. The process is the last task but idle,
and it finds the PID 1 in the struct of the thread. -/
theorem finds_dead : ∃ s, exec Kernel.step (Kernel.boot .blank) [⟨.threadCreate 0x100000 0 0x100000, 0⟩, ⟨.fork, 4024⟩,
      ⟨.exit, 0⟩, ⟨.threadExit, 0⟩] = some s ∧ s.Storable 0x108000 ∧ (¬ ∃ t, s.Known t ∧ (s.task t).PID = 1) ∧
    ∃ r, s.sysGetStats 1 0x108000 = some r ∧ r.1 = 0 := by
  have hrun : (exec Kernel.step (Kernel.boot .blank) [⟨.threadCreate 0x100000 0 0x100000, 0⟩, ⟨.fork, 4024⟩, ⟨.exit, 0⟩,
      ⟨.threadExit, 0⟩]).any (fun s => decide (s.current = 3 ∧ s.idleTask = some 0 ∧ s.members .readyqueue = [] ∧
        (∀ i, s.members (.blocked .semaforProces i) = []) ∧ (s.task 3).PID = 1001 ∧ (s.task 0).PID = 0 ∧
        (s.task 2).PID = 1 ∧ s.getPT 3 = some 3 ∧ (s.mm.entry 3 264).present = true)) = true := by
    decide +kernel
  obtain ⟨s, hs, hd⟩ := (Option.any_eq_true _ _).mp hrun
  obtain ⟨hc, hidle, hready, hblocked, h3, h0, h2, hpt, hpage⟩ := of_decide_eq_true hd
  have hst : s.Storable 0x108000 := by
    refine ⟨by decide, 3, by rw [hc]; exact hpt, fun i hi => ?_⟩
    have haddr : ∀ i < sizeStats, ((0x108000 : UInt32) + .ofNat i).toNat / pageSize = 264 := by decide
    unfold loadByte readByte
    rw [haddr i hi, translate_of_present (by decide) hpage]
    exact ⟨_, rfl⟩
  refine ⟨s, hs, hst, ?_, ?_⟩
  · rintro ⟨t, (rfl | hm | ⟨tab, i, hm⟩) | ht, hpid⟩
    · rw [hc, h3] at hpid
      exact absurd hpid (by decide)
    · rw [hready] at hm
      cases hm
    · cases tab
      rw [hblocked] at hm
      cases hm
    · rw [hidle] at ht
      obtain rfl := Option.some.inj ht
      rw [h0] at hpid
      exact absurd hpid (by decide)
  · obtain ⟨i, mm, pt, hcall, -⟩ := Kernel.sysGetStats_some hst.1 (by decide) hst.2 ⟨2, h2⟩
    exact ⟨_, hcall, rfl⟩

end ZeosSOA.Sysenter
