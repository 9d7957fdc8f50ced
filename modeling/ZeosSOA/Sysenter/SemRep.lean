import ZeosSOA.Sysenter.Partition
import ZeosSOA.Sysenter.WakeOrder

/-!
# ZeOSSysenter: the counts of the semaphores

`sys_semSignal` decides by the count alone that there is a task to take from the blocked list.
That is sound while the count of every semaphore says how many tasks wait on it. `sys_semCreate`
accepts negative values, and a count passes `INT_MAX` unnoticed.
-/

namespace ZeosSOA.Sysenter

open Intrusive Runs

namespace Kernel

/-- Below zero the count of a semaphore says how many tasks are blocked on it, otherwise there are
none. The ready queue holds anchors of task structs only. -/
structure SemsOk (s : Kernel) : Prop where
  negative : ∀ i, (s.sem .semaforProces i).count < 0 →
    ((s.waiting i).length : Int) = -(s.sem .semaforProces i).count
  nonnegative : ∀ i, 0 ≤ (s.sem .semaforProces i).count → s.waiting i = []
  anchors : ∃ ts : List TaskId, s.links.Ring (.head .readyqueue) (ts.map .anchor)

/-- A signal takes a task from a list that has one. -/
def SignalSafe (s : Kernel) (e : Event) : Prop :=
  ∀ i, s.signalsTo i e = true → s.wakes i = true → s.waiting i ≠ []

/-- A task that finds a free entry does not create a semaphore with a negative value, and nobody
signals to a semaphore whose count is `INT_MAX`. -/
structure CountsKept (s : Kernel) (e : Event) : Prop where
  create : ∀ v tab i, e.op = .semCreate v → s.idleTask ≠ some s.current →
    (s.task s.current).semafors = some tab → (s.sem tab i).semid = -1 → 0 ≤ v
  signal : ∀ i, s.signalsTo i e = true → (s.sem .semaforProces i).count ≠ intMax

/-- The value given to `sys_semCreate` is an `int`. -/
def IsInt (e : Event) : Prop := ∀ v, e.op = .semCreate v → -2 ^ 31 ≤ v ∧ v ≤ intMax

end Kernel

section
variable {s s' : Kernel} {a b : AbsKernel} {e : Kernel.Event}

theorem AbsKernel.Counted.semsOk (hc : a.Counted) (h : Rep s a) : s.SemsOk where
  negative i hneg := by
    rw [h.waiting, h.sem] at *
    have := hc.waiting .semaforProces i
    omega
  nonnegative i hpos := by
    rw [h.sem] at hpos
    have hw := hc.waiting .semaforProces i
    rw [h.waiting]
    exact List.eq_nil_of_length_eq_zero (by omega)
  anchors := ⟨a.queue .readyqueue, h.rings.ring .readyqueue trivial⟩

theorem counted_step (h : Rep s a) (g : a.Good) (hc : a.Counted) (hi : Kernel.IsInt e) (hk : s.CountsKept e)
    (hb : a.step (Rep.argsOk s e.op) e.op = some b) : b.Counted := by
  obtain ⟨op, ebp⟩ := e
  refine hc.step g (fun v hop => ⟨?_, (hi v hop).2⟩) (fun k hop tab i hchk => ?_) hb
  · rintro ⟨tab, i, hfree⟩
    obtain rfl : op = .semCreate v := hop
    obtain ⟨hne, hb⟩ := AbsKernel.step_call (by simp) hb
    obtain ⟨r, hr, -⟩ := Option.map_eq_some_iff.mp hb
    obtain ⟨tab', htab, -⟩ := Option.bind_eq_some_iff.mp hr
    obtain rfl : tab' = tab := by cases tab; cases tab'; rfl
    exact hk.create v tab' i rfl (h.not_idle.mpr hne) ((congrArg TaskCore.semafors h.cur).trans htab)
      (by rw [h.sem]; exact hfree)
  · obtain rfl : op = .semSignal k := hop
    cases tab
    obtain rfl := (AbsKernel.semCheck_accepted hchk).1
    have hacc := (accepts_iff h .semaforProces).mpr hchk
    have hmax := hk.signal i (by simp [Kernel.signalsTo, hacc])
    rw [h.sem] at hmax
    exact lt_of_le_of_ne (hc.le .semaforProces i) hmax

theorem AbsKernel.Counted.signalSafe (hc : a.Counted) (h : Rep s a) (g : a.Good)
    (hmax : ∀ i, s.signalsTo i e = true → (s.sem .semaforProces i).count ≠ intMax) : s.SignalSafe e := by
  intro i hsig hwake hnil
  have hne := hmax i hsig
  rw [h.sem] at hne
  have hle := hc.le .semaforProces i
  have hge := hc.ge g .semaforProces i
  have hw := hc.waiting .semaforProces i
  rw [h.waiting] at hnil
  rw [hnil, List.length_nil] at hw
  rw [Kernel.wakes, h.sem, decide_eq_true_eq, toInt32_of_range (by omega) (by omega)] at hwake
  omega

/-- A negative value is the count of a semaphore on which nobody waits. -/
theorem negative_breaks {v : Int} {tab : SemTable} {i : Fin numSem} {ebp : Nat} (h : Rep s a)
    (hne : s.idleTask ≠ some s.current) (htab : (s.task s.current).semafors = some tab)
    (hfree : (s.sem tab i).semid = -1) (hv : v < 0) :
    ∃ s', s.step ⟨.semCreate v, ebp⟩ = some s' ∧ ¬ s'.SemsOk := by
  have hfind : ((List.finRange numSem).find? fun k => (s.sem tab k).semid = -1) ≠ none := by
    intro hn
    have := List.find?_eq_none.mp hn i (List.mem_finRange i)
    simp [hfree] at this
  obtain ⟨j, hj⟩ := Option.ne_none_iff_exists'.mp hfind
  have hcreate : s.sysSemCreate v = some ((j.val : Int), (s.setSem tab j ⟨j.val, v, (s.task s.current).PID⟩).initListHead
      (.head (.blocked tab j))) := by
    unfold Kernel.sysSemCreate
    rw [htab]
    simp only [Option.bind_eq_bind, Option.bind_some, hj]
    rfl
  have hs : s.step ⟨.semCreate v, ebp⟩ = some ((s.setSem tab j ⟨j.val, v, (s.task s.current).PID⟩).initListHead
      (.head (.blocked tab j))).resume := by
    rw [Kernel.step, if_neg (fun hc => hne hc.2)]
    simp only [Kernel.handle, hcreate, Option.map_some]
  refine ⟨_, hs, fun hok => ?_⟩
  have hr := ((h.setSem tab j ⟨j.val, v, (s.task s.current).PID⟩).initListHead (.blocked tab j)).resume
  cases tab
  have hcount : ((((s.setSem .semaforProces j ⟨j.val, v, (s.task s.current).PID⟩).initListHead
      (.head (.blocked .semaforProces j))).resume).sem .semaforProces j).count = v := by
    rw [hr.sem]
    simp [AbsKernel.setSem, AbsKernel.setQueue]
  have hlen := hok.negative j (by rw [hcount]; exact hv)
  rw [hcount, hr.waiting] at hlen
  simp [AbsKernel.setSem, AbsKernel.setQueue] at hlen
  omega

/-- At `INT_MAX` the count wraps round, and the signal takes a task from an empty list. -/
theorem overflow_breaks {i : Fin numSem} (h : Rep s a) (hc : a.Counted) (hsig : s.signalsTo i e = true)
    (hmax : (s.sem .semaforProces i).count = intMax) : ¬ s.SignalSafe e := by
  intro hsafe
  have hw := hc.waiting .semaforProces i
  have hwake : s.wakes i = true := by
    rw [Kernel.wakes, hmax]
    decide
  apply hsafe i hsig hwake
  rw [h.sem] at hmax
  rw [hmax] at hw
  rw [h.waiting]
  exact List.eq_nil_of_length_eq_zero hw

end

/-- In a run with `int` values, whatever the calls: the counts say how many tasks wait, in every
state, and every signal finds the task it takes, if and only if nobody creates a semaphore with a
negative value or signals to one at `INT_MAX`. -/
theorem sems_ok_iff (mc : Machine) {es : List Kernel.Event} (hes : ∀ e ∈ es, Kernel.IsInt e) :
    (AllStates Kernel.step Kernel.SemsOk (Kernel.boot mc) es ∧ AllTries Kernel.step Kernel.SignalSafe (Kernel.boot mc) es) ↔
      AllTries Kernel.step Kernel.CountsKept (Kernel.boot mc) es := by
  apply allTries_iff (I := fun s => ∃ a, Rep s a ∧ a.Good ∧ a.Counted) (Q := Kernel.SemsOk) (A := Kernel.IsInt)
    (P := Kernel.CountsKept) (R := Kernel.SignalSafe)
  · rintro s ⟨a, h, g, hc⟩
    exact hc.semsOk h
  · rintro s e ⟨a, h, g, hc⟩ hi hk
    refine ⟨hc.signalSafe h g hk.signal, fun s' hs => ?_⟩
    obtain ⟨b, hb, h', g'⟩ := h.step_some g hs
    exact ⟨b, h', g', counted_step h g hc hi hk hb⟩
  · rintro s e ⟨a, h, g, hc⟩ hi hk
    by_cases hsig : ∀ i, s.signalsTo i e = true → (s.sem .semaforProces i).count ≠ intMax
    · right
      have hcreate : ¬ ∀ v tab i, e.op = .semCreate v → s.idleTask ≠ some s.current →
          (s.task s.current).semafors = some tab → (s.sem tab i).semid = -1 → 0 ≤ v := fun hall => hk ⟨hall, hsig⟩
      obtain ⟨op, ebp⟩ := e
      simp only [not_forall, not_le] at hcreate
      obtain ⟨v, tab, i, hop, hne, htab, hfree, hv⟩ := hcreate
      obtain rfl : op = .semCreate v := hop
      exact negative_breaks h hne htab hfree hv
    · left
      simp only [not_forall, not_not] at hsig
      obtain ⟨i, hs, hmax⟩ := hsig
      exact overflow_breaks h hc hs hmax
  · exact ⟨bootAbs mc, boot_rep mc, boot_good mc, boot_counted mc⟩
  · exact hes

/-- A semaphore with the value 1, and two waits: the second one blocks task 1. -/
theorem sems_ok_wait :
    AllStates Kernel.step Kernel.SemsOk (Kernel.boot .blank) [⟨.semCreate 1, 0⟩, ⟨.semWait 0, 0⟩, ⟨.semWait 0, 0⟩] ∧
      AllTries Kernel.step Kernel.SignalSafe (Kernel.boot .blank)
        [⟨.semCreate 1, 0⟩, ⟨.semWait 0, 0⟩, ⟨.semWait 0, 0⟩] := by
  have hcreate : ∀ s : Kernel, s.CountsKept ⟨.semCreate 1, 0⟩ := fun s =>
    ⟨fun v _ _ hop _ _ _ => by cases hop; decide, by simp [Kernel.signalsTo]⟩
  have hwait : ∀ s : Kernel, s.CountsKept ⟨.semWait 0, 0⟩ := fun s =>
    ⟨by simp, by simp [Kernel.signalsTo]⟩
  have hint : ∀ e ∈ [⟨.semCreate 1, 0⟩, ⟨.semWait 0, 0⟩, (⟨.semWait 0, 0⟩ : Kernel.Event)], Kernel.IsInt e := by
    intro e he v hop
    rcases List.mem_cons.mp he with rfl | he
    · cases hop
      decide
    · rcases List.mem_pair.mp he with rfl | rfl <;> cases hop
  apply (sems_ok_iff .blank hint).mpr
  exact ⟨hcreate _, fun _ _ => ⟨hwait _, fun _ _ => ⟨hwait _, fun _ _ => trivial⟩⟩⟩

/-- A new semaphore with the value -1 has a negative count and no waiter. -/
theorem negative_semaphore : ¬ (AllStates Kernel.step Kernel.SemsOk (Kernel.boot .blank) [⟨.semCreate (-1), 0⟩] ∧
    AllTries Kernel.step Kernel.SignalSafe (Kernel.boot .blank) [⟨.semCreate (-1), 0⟩]) := by
  rintro ⟨hall, -⟩
  have hrun : (Kernel.step (Kernel.boot .blank) ⟨.semCreate (-1), 0⟩).any (fun s => decide
      ((s.sem .semaforProces 0).count = -1 ∧ s.waiting 0 = [])) = true := by decide +kernel
  obtain ⟨s, hs, hd⟩ := (Option.any_eq_true _ _).mp hrun
  obtain ⟨hcount, hnil⟩ := of_decide_eq_true hd
  have hlen := (allStates_head (hall.2 s hs)).negative 0 (by rw [hcount]; decide)
  rw [hcount, hnil] at hlen
  exact absurd hlen (by decide)

end ZeosSOA.Sysenter
