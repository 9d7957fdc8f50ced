import ZeosSOA.Sysenter.Frames
import ZeosSOA.Sysenter.Reach
import ZeosSOA.Sysenter.Semaphores

/-!
# ZeOSSysenter: whose semaphores a call changes

The semaphore calls keep to the semaphores of the caller's process. `sys_fork` empties the
table the child's struct points to, and that struct is a copy of the parent's.
-/

namespace ZeosSOA.Sysenter

open Runs

namespace Kernel

/-- The entry is a semaphore, made by the process `p`. -/
def SemAlive (s : Kernel) (tab : SemTable) (i : Fin numSem) (p : Int) : Prop :=
  (s.sem tab i).semid ≠ -1 ∧ (s.sem tab i).PID = p

def SameSem (s s' : Kernel) (tab : SemTable) (i : Fin numSem) : Prop :=
  s'.sem tab i = s.sem tab i ∧ s'.members (.blocked tab i) = s.members (.blocked tab i)

/-- The step changes no semaphore of another live process. A `sys_fork` changes none of the
caller's either, and the child has a table of its own with free entries. -/
structure SemsPrivate (s : Kernel) (e : Event) (s' : Kernel) : Prop where
  others : ∀ t, s.Live t → (s.task t).PID ≠ (s.task s.current).PID →
    ∀ tab i, s.SemAlive tab i (s.task t).PID → s.SameSem s' tab i
  own : e.op = .fork → ∀ tab i, s.SemAlive tab i (s.task s.current).PID → s.SameSem s' tab i
  child : e.op = .fork → ∀ t, s'.Live t → ¬ s.Live t → ∃ tab, (s'.task t).semafors = some tab ∧
    (s.task s.current).semafors ≠ some tab ∧ ∀ i, (s'.sem tab i).semid = -1

/-- No task struct is free; or there are too few frames, and no live process has a semaphore. -/
def ForkHarmless (s : Kernel) : Prop :=
  s.members .freequeue = [] ∨
    s.mm.freeCount < numPagData ∧ ∀ t, s.Live t → ∀ tab i, ¬ s.SemAlive tab i (s.task t).PID

end Kernel

section
variable {s s' : Kernel} {a b : AbsKernel} {e : Kernel.Event}

theorem Rep.sameSem (h : Rep s a) (h' : Rep s' b) (tab : SemTable) (i : Fin numSem) :
    s.SameSem s' tab i ↔ a.Keeps b tab i := by
  unfold Kernel.SameSem
  rw [h.sem, h'.sem, h.members, h'.members]
  exact ⟨fun ⟨h1, h2⟩ => ⟨h1, h2⟩, fun hk => ⟨hk.sem, hk.waiting⟩⟩

/-- Whoever passes the checks has the PID of the semaphore. -/
theorem keeps_of_pid_ne (hb : a.step (Rep.argsOk s e.op) e.op = some b) (hop : e.op ≠ .fork) {tab : SemTable}
    {i : Fin numSem} (halive : (a.sem tab i).semid ≠ -1) (hpid : (a.sem tab i).PID ≠ (a.task a.current).PID) :
    a.Keeps b tab i := by
  rcases AbsKernel.sem_step hb hop tab i with hk | ⟨-, hfree⟩ | ⟨k, -, hchk⟩
  · exact hk
  · exact absurd hfree halive
  · exact absurd (AbsKernel.semCheck_accepted hchk).2.2.1 hpid

theorem AbsKernel.fork_ends {r : Int × AbsKernel} (hr : a.fork = some r) :
    a.queue .freequeue = [] ∧ r.2 = a ∨
    ∃ child rest tab, a.queue .freequeue = child :: rest ∧ (a.task a.current).semafors = some tab ∧
      (a.mm.freeCount < numPagData ∧ (∃ mm, r.2 = ((a.forkChild child rest tab).setMm mm).push .freequeue child) ∨
        numPagData ≤ a.mm.freeCount ∧ ∃ mm, r.2 = ((a.forkChild child rest tab).setMm mm).forkStart child) := by
  rcases fork_cases hr with ⟨hq, rfl⟩ | ⟨child, rest, tab, hq, htab, hcase⟩
  · exact .inl ⟨hq, rfl⟩
  refine .inr ⟨child, rest, tab, hq, htab, ?_⟩
  have hal := forkAllocData_fst child.val numPagData 0 a.mm
  rcases hcase with ⟨mm, he, rfl⟩ | ⟨mm, pt, mm', he, -, -, rfl⟩
  · rw [he] at hal
    exact .inl ⟨Nat.lt_of_not_le fun hn => Bool.false_ne_true (hal.mpr hn), mm, rfl⟩
  · rw [he] at hal
    exact .inr ⟨hal.mp rfl, mm', rfl⟩

theorem pid_eq (h : Rep s a) (t : TaskId) : (s.task t).PID = (a.task t).PID := congrArg TaskCore.PID (h.task t)

theorem pid_current (h : Rep s a) : (s.task s.current).PID = (a.task a.current).PID := congrArg TaskCore.PID h.cur

theorem not_keeps_forkChild (child : TaskId) (rest : List TaskId) (tab : SemTable) {tab' : SemTable} {i : Fin numSem}
    (hs : b.sem = (a.forkChild child rest tab).sem) (halive : (a.sem tab' i).semid ≠ -1) : ¬ a.Keeps b tab' i := by
  intro hk
  obtain rfl : tab' = tab := by cases tab; cases tab'; rfl
  apply halive
  rw [← hk.sem, hs]
  simp [AbsKernel.forkChild, AbsKernel.resetSemafors, AbsKernel.freeSem]

end

theorem private_step_iff {mc : Machine} {s s' : Kernel} {e : Kernel.Event} (hr : Reachable mc s)
    (hs : s.step e = some s') : s.SemsPrivate e s' ↔ (e.op = .fork → s.ForkHarmless) := by
  obtain ⟨a, h, g⟩ := hr.rep
  obtain ⟨b, hb, h', g'⟩ := h.step_some g hs
  have halive : ∀ {tab i p}, s.SemAlive tab i p ↔ (a.sem tab i).semid ≠ -1 ∧ (a.sem tab i).PID = p := by
    intro tab i p; rw [Kernel.SemAlive, h.sem]
  by_cases hop : e.op = .fork
  swap
  · refine ⟨fun _ h => absurd h hop, fun _ => ⟨fun t ht hne tab i hal => ?_, fun h => absurd h hop, fun h => absurd h hop⟩⟩
    obtain ⟨hal, hpid⟩ := halive.mp hal
    rw [h.sameSem h']
    exact keeps_of_pid_ne hb hop hal (by rw [hpid, ← pid_current h]; exact hne)
  obtain ⟨op, ebp⟩ := e
  obtain rfl : op = .fork := hop
  obtain ⟨-, r, hr, rfl⟩ := AbsKernel.step_fork hb
  rcases AbsKernel.fork_ends hr with ⟨hq, hrb⟩ | ⟨child, rest, tab, hq, htab, ⟨hfc, mm, hrb⟩ | ⟨hfc, mm, hrb⟩⟩
  · rw [hrb] at h'
    refine ⟨fun _ _ => .inl (by rw [h.members]; exact hq), fun _ => ⟨fun _ _ _ tab i _ => ?_, fun _ tab i _ => ?_,
      fun _ t ht hn => ?_⟩⟩
    · exact (h.sameSem h' tab i).mpr (.refl a tab i)
    · exact (h.sameSem h' tab i).mpr (.refl a tab i)
    · exact absurd ((h.live t).mpr ((h'.live t).mp ht)) hn
  · -- the struct is back in the free queue, and the table is empty
    have hempty : ∀ {tab' i}, (a.sem tab' i).semid ≠ -1 → ¬ a.Keeps r.2 tab' i := fun ha =>
      not_keeps_forkChild child rest tab (by rw [hrb]; rfl) ha
    constructor
    · rintro ⟨hothers, hown, -⟩ -
      refine .inr ⟨by rw [h.mm]; exact hfc, fun t ht tab' i hal => hempty (halive.mp hal).1 ?_⟩
      by_cases hp : (s.task t).PID = (s.task s.current).PID
      · exact (h.sameSem h' _ _).mp (hown rfl tab' i (hp ▸ hal))
      · exact (h.sameSem h' _ _).mp (hothers t ht hp tab' i hal)
    · intro hharm
      obtain ⟨-, hnone⟩ := (hharm rfl).resolve_left (by rw [h.members, hq]; exact List.cons_ne_nil _ _)
      refine ⟨fun t ht _ tab' i hal => absurd hal (hnone t ht tab' i), fun _ tab' i hal =>
        absurd hal (hnone s.current (.inl rfl) tab' i), fun _ t ht hn => absurd ((h.live t).mpr ?_) hn⟩
      have ht' := (h'.live t).mp ht
      rw [hrb] at ht'
      exact AbsKernel.forkChild_live hq tab mm ht'
  · constructor
    · rintro ⟨-, -, hchild⟩
      have hlive : r.2.Live child := .inr (.inl (by
        rw [hrb]; simp [AbsKernel.forkStart, AbsKernel.push, AbsKernel.setQueue]))
      have hnot : ¬ a.Live child := AbsKernel.not_live_of_free g (by rw [hq]; exact List.mem_cons_self)
      obtain ⟨tab', -, hne, -⟩ := hchild rfl child ((h'.live child).mpr hlive) fun hl => hnot ((h.live child).mp hl)
      -- there is one table only, and both structs point to it
      obtain rfl : tab' = tab := by cases tab; cases tab'; rfl
      exact absurd ((congrArg TaskCore.semafors h.cur).trans htab) hne
    · intro hharm
      rcases hharm rfl with hnil | ⟨hlt, -⟩
      · rw [h.members, hq] at hnil; cases hnil
      · rw [h.mm] at hlt; omega

/-- Each step of a run keeps to the semaphores of its process if and only if it is not a `sys_fork`
that takes a free task struct, or one that gives it back and finds no semaphore to empty. -/
theorem sems_private_iff (mc : Machine) (es : List Kernel.Event) : SafeRun mc es →
    AllSteps Kernel.step (fun s e s' => s.SemsPrivate e s' ↔ (e.op = .fork → s.ForkHarmless)) (Kernel.boot mc) es := by
  intro _
  apply allSteps_of_invariant (I := Reachable mc) (P := fun _ _ _ => True)
  · exact fun s e s' hr _ hs => ⟨hr.step hs, private_step_iff hr hs⟩
  · exact ⟨[], rfl⟩
  · exact allSteps_of_forall (A := fun _ => True) (fun _ _ _ _ => trivial) fun _ _ => trivial

/-- Two processes with a semaphore each; the child blocks on its own. -/
def twoOwners : List Kernel.Event := [⟨.fork, 8⟩, ⟨.semCreate 1, 0⟩, ⟨.yield, 8⟩, ⟨.semCreate 0, 0⟩]

theorem sems_private_wait : ∃ s s', exec Kernel.step (Kernel.boot .blank) twoOwners = some s ∧
    s.step ⟨.semWait 1, 8⟩ = some s' ∧ s.SemAlive .semaforProces 0 (s.task 1).PID ∧ s.Live 1 ∧
    (s.task 1).PID ≠ (s.task s.current).PID ∧ s'.members (.blocked .semaforProces 1) = [s.current] ∧
    s.SemsPrivate ⟨.semWait 1, 8⟩ s' := by
  have hrun : (exec Kernel.step (Kernel.boot .blank) twoOwners).any (fun s => decide
      (((s.sem .semaforProces 0).semid ≠ -1 ∧ (s.sem .semaforProces 0).PID = (s.task 1).PID) ∧
        1 ∈ s.members .readyqueue ∧ (s.task 1).PID ≠ (s.task s.current).PID ∧
        (s.step ⟨.semWait 1, 8⟩).any (fun s' => decide
          (s'.members (.blocked .semaforProces 1) = [s.current])) = true)) = true := by decide +kernel
  obtain ⟨s, hs, hd⟩ := (Option.any_eq_true _ _).mp hrun
  obtain ⟨halive, hlive, hpid, hd⟩ := of_decide_eq_true hd
  obtain ⟨s', hs', hd⟩ := (Option.any_eq_true _ _).mp hd
  have hall := sems_private_iff .blank (twoOwners ++ [⟨.semWait 1, 8⟩]) (by decide +kernel)
  have hiff := allSteps_last twoOwners hall hs hs'
  exact ⟨s, s', hs, hs', halive, .inr (.inl hlive), hpid, of_decide_eq_true hd, hiff.mpr (by simp)⟩

/-- Task 1 makes a semaphore with the value 5 and forks, and the semaphore is gone. -/
theorem fork_not_private : ∃ s s', (Kernel.boot .blank).step ⟨.semCreate 5, 0⟩ = some s ∧
    s.step ⟨.fork, 8⟩ = some s' ∧ ¬ s.SemsPrivate ⟨.fork, 8⟩ s' := by
  have hrun : ((Kernel.boot .blank).step ⟨.semCreate 5, 0⟩).any (fun s => decide
      ((s.task s.current).PID = 1 ∧ (s.sem .semaforProces 0).semid = 0 ∧ (s.sem .semaforProces 0).PID = 1 ∧
        (s.step ⟨.fork, 8⟩).any (fun s' => decide ((s'.sem .semaforProces 0).semid = -1)) = true)) = true := by
    decide +kernel
  obtain ⟨s, hs, hd⟩ := (Option.any_eq_true _ _).mp hrun
  obtain ⟨hcur, hsem, hpid, hd⟩ := of_decide_eq_true hd
  obtain ⟨s', hs', hd⟩ := (Option.any_eq_true _ _).mp hd
  have hgone := of_decide_eq_true hd
  refine ⟨s, s', hs, hs', fun hp => ?_⟩
  have hsame := (hp.own rfl .semaforProces 0 ⟨by rw [hsem]; decide, by rw [hpid, hcur]⟩).1
  rw [hsame, hsem] at hgone
  exact absurd hgone (by decide)

end ZeosSOA.Sysenter
