import ZeosSOA.Potential
import ZeosSOA.Sysenter.Reach

/-!
# ZeOSSysenter: how long a ready task waits

A task goes one place forward at every switch, and there is a switch every ten ticks at the latest. Only `sys_semSignal`
puts a task in front of the others, and makes the ready ones wait for one more turn.
-/

namespace ZeosSOA.Sysenter

open Runs

namespace Kernel

def Op.isClock : Op → Bool
  | .clock => true
  | _ => false

def Op.isSignal : Op → Bool
  | .semSignal _ => true
  | _ => false

theorem Op.isClock_iff {op : Op} : op.isClock = true ↔ op = .clock := by cases op <;> simp [isClock]

end Kernel

namespace AbsKernel

/-- All quanta are ten ticks. -/
def Quanta (a : AbsKernel) : Prop := ∀ t, a.Live t ∨ t = a.idleTask → (a.task t).totalQuantum = defaultQuantum

/-- What a step does to the ready queue, and to the ticks that are left. -/
inductive Serves (a b : AbsKernel) (op : Kernel.Op) : Prop where
  | tick (clock : op = .clock) (more : a.remainingQuantum ≠ 1) (left : b.remainingQuantum = a.remainingQuantum - 1)
      (ready : b.queue .readyqueue = a.queue .readyqueue)
  | alone (none : a.queue .readyqueue = []) (ready : b.queue .readyqueue = []) (left : b.remainingQuantum = (b.task b.current).totalQuantum)
  | switch (zs : List TaskId) (ready : b.queue .readyqueue = (a.queue .readyqueue ++ zs).tail)
      (current : b.current = (a.queue .readyqueue ++ zs).headD a.idleTask)
      (left : b.remainingQuantum = (b.task b.current).totalQuantum)
  | stay (zs : List TaskId) (clock : op ≠ .clock) (left : b.remainingQuantum = a.remainingQuantum)
      (ready : b.queue .readyqueue = a.queue .readyqueue ++ zs)
  | front (u : TaskId) (semID : Int) (signal : op = .semSignal semID) (left : b.remainingQuantum = a.remainingQuantum)
      (ready : b.queue .readyqueue = u :: a.queue .readyqueue)

section
variable {a b : AbsKernel} {op : Kernel.Op}

theorem Quanta.copy (h : Quanta a) (hc : ∀ t, b.Live t ∨ t = b.idleTask → ∃ u, (a.Live u ∨ u = a.idleTask) ∧
    (b.task t).totalQuantum = (a.task u).totalQuantum) : Quanta b := by
  intro t ht
  obtain ⟨u, hu, e⟩ := hc t ht
  rw [e]
  exact h u hu

theorem Quanta.leaves (h : Quanta a) (hne : a.current ≠ a.idleTask) {mm : Mm} (hl : Leaves a b mm) : Quanta b := by
  refine h.copy fun t ht => ?_
  have hcase : t ≠ a.current ∧ (a.Live t ∨ t = a.idleTask) := by
    rcases ht with ht | ht
    · rcases hl.live t ht with ht | ⟨hc, ht⟩
      · exact ⟨fun e => hne (e.symm.trans ht), .inr ht⟩
      · exact ⟨hc, .inl ht⟩
    · have hi := ht.trans hl.idle
      exact ⟨fun e => hne (e.symm.trans hi), .inr hi⟩
  obtain ⟨st, e⟩ := hl.task t hcase.1
  exact ⟨t, hcase.2, by rw [e]⟩

theorem Quanta.fork (h : Quanta a) (g : Good a) {r : Int × AbsKernel} (hr : a.fork = some r) : Quanta r.2 := by
  rcases fork_cases hr with ⟨-, rfl⟩ | ⟨child, rest, tab, hq, -, ⟨mm, -, rfl⟩ | ⟨m1, pt, mm, -, -, -, rfl⟩⟩
  · exact h
  · have hci := (g.child_ne hq).2
    refine h.copy fun t ht => ⟨t, ht.imp_left (forkChild_live hq tab mm), ?_⟩
    refine congrArg TaskCore.totalQuantum (forkChild_task_ne ?_ rest tab)
    rintro rfl
    rcases ht with ht | ht
    · exact not_live_of_free g (by rw [hq]; exact List.mem_cons_self) (forkChild_live hq tab mm ht)
    · exact hci ht
  · refine h.copy fun t ht => ?_
    rw [forkStart_task]
    by_cases hc : t = child
    · exact ⟨a.current, .inl (.inl rfl), by rw [if_pos hc]⟩
    · exact ⟨t, ht.imp_left fun ht => (forkStart_live hq ht).resolve_left hc, by rw [if_neg hc]⟩

theorem Quanta.threadCreate (h : Quanta a) (g : Good a) {f p : UInt32} {r : Int × AbsKernel}
    (hr : a.threadCreate f p = some r) : Quanta r.2 := by
  rcases threadCreate_cases hr with ⟨-, rfl⟩ | ⟨child, rest, hq, hcase⟩
  · exact h
  obtain ⟨hcc, hci⟩ := g.child_ne hq
  have hthread : ∀ (mm : Mm) (hp : Nat) (i : Queue),
      Quanta ((((a.threadChild child rest).setMm mm).setHeapPointer hp).push i child) := by
    intro mm hp i
    refine h.copy fun t ht => ?_
    have e := congrArg TaskCore.totalQuantum (threadCreate_task (a := a) hcc rest mm hp t)
    by_cases hc : t = child
    · rw [if_pos hc] at e
      exact ⟨a.current, .inl (.inl rfl), e⟩
    · rw [if_neg hc] at e
      refine ⟨t, ht.imp_left fun ht => (threadCreate_live ht).resolve_left hc, e.trans ?_⟩
      split
      · rename_i hcur
        rw [hcur]
      · rfl
  rcases hcase with ⟨-, rfl⟩ | ⟨-, pt, -, ⟨mm, -, -, rfl⟩ | ⟨hp, mm, -, -, rfl⟩⟩
  · refine h.copy fun t ht => ⟨t, ht, ?_⟩
    apply congrArg TaskCore.totalQuantum
    apply threadChild_task_ne
    rintro rfl
    rcases ht with ht | ht
    · exact not_live_of_free g (by rw [hq]; exact List.mem_cons_self) ht
    · exact hci ht
  · exact hthread _ _ _
  · exact hthread _ _ _

theorem Quanta.step (h : Quanta a) (g : Good a) {ok : Bool} (hb : a.step ok op = some b) : Quanta b := by
  rcases step_cases hb with hs | ⟨hne, ⟨-, hx⟩ | ⟨-, hx⟩ | ⟨-, r, hr, rfl⟩ | ⟨f, p, w, -, r, hr, rfl⟩ | ⟨size, -, hx⟩⟩
  · refine h.copy fun t ht => ⟨t, ?_, ?_⟩
    · rcases ht with ht | ht
      · exact (hs.live t ht).symm
      · exact .inr (ht.trans hs.idle)
    · obtain ⟨st, e⟩ := hs.task t
      rw [e]
  · obtain ⟨pt, hp, mm, -, -, hl⟩ := leaves_exit g hx
    exact h.leaves hne hl
  · obtain ⟨pt, -, hl⟩ := leaves_threadExit g hx
    exact h.leaves hne hl
  · exact h.fork g hr
  · exact h.threadCreate g hr
  · rcases sbrk_cases hx with rfl | ⟨pt, ret, hp, mm, -, -, rfl⟩
    · exact h
    · refine h.copy fun t ht => ⟨t, ht, ?_⟩
      rw [sbrk_task]
      split
      · rename_i hcur
        rw [hcur]
      · rfl

/-! ## The ready queue -/

theorem schedNextRr_left (a : AbsKernel) :
    a.schedNextRr.remainingQuantum = (a.schedNextRr.task a.schedNextRr.current).totalQuantum := by
  rw [schedNextRr_task, if_pos rfl]
  unfold schedNextRr nextTask
  split <;> rfl

/-- The CPU goes to the first of those that are ready when `zs` have been added. -/
theorem serves_schedNextRr (zs : List TaskId) (hq : b.queue .readyqueue = a.queue .readyqueue ++ zs)
    (hi : b.idleTask = a.idleTask) : Serves a b.schedNextRr op := by
  refine .switch zs ?_ ?_ (schedNextRr_left b)
  · rw [schedNextRr_queue, Function.update_self, hq]
  · rw [schedNextRr_current, hq, hi]

theorem serves_forceTaskSwitch (a : AbsKernel) : Serves a a.forceTaskSwitch op := by
  refine serves_schedNextRr (b := (a.push .readyqueue a.current).setState a.current .ready) [a.current] ?_ rfl
  simp [push, setQueue, setState, modTask]

theorem serves_clock (a : AbsKernel) : Serves a a.clock .clock := by
  unfold AbsKernel.clock
  by_cases hr : a.remainingQuantum - 1 ≠ 0
  · rw [if_pos hr]
    exact .tick rfl (by omega) rfl rfl
  · rw [if_neg hr]
    by_cases hq : a.queue .readyqueue = []
    · rw [if_pos hq]
      exact .alone hq hq rfl
    · rw [if_neg hq]
      exact serves_forceTaskSwitch a

theorem serves_leave {c : AbsKernel} (hq : c.queue .readyqueue = a.queue .readyqueue) (hi : c.idleTask = a.idleTask) :
    Serves a c.leave op := by
  refine serves_schedNextRr (b := c.push .freequeue c.current) [] ?_ hi
  simp [push, setQueue, hq]

theorem serves_same (hop : op ≠ .clock) (hl : b.remainingQuantum = a.remainingQuantum)
    (hq : b.queue .readyqueue = a.queue .readyqueue) : Serves a b op := .stay [] hop hl (by rw [hq, List.append_nil])

theorem serves_fork (hop : op ≠ .clock) {r : Int × AbsKernel} (hr : a.fork = some r) : Serves a r.2 op := by
  rcases fork_cases hr with ⟨-, rfl⟩ | ⟨child, rest, tab, -, -, ⟨mm, -, rfl⟩ | ⟨m1, pt, mm, -, -, -, rfl⟩⟩
  · exact serves_same hop rfl rfl
  · exact serves_same hop rfl (by simp [push, setQueue, setMm, forkChild, resetSemafors, copyTask])
  · exact .stay [child] hop rfl (by simp [forkStart, push, setQueue, setMm, modTask, forkChild, resetSemafors, copyTask])

theorem serves_threadCreate (hop : op ≠ .clock) {f p : UInt32} {r : Int × AbsKernel} (hr : a.threadCreate f p = some r) :
    Serves a r.2 op := by
  rcases threadCreate_cases hr with ⟨-, rfl⟩ |
    ⟨child, rest, -, ⟨-, rfl⟩ | ⟨-, pt, -, ⟨mm, -, -, rfl⟩ | ⟨hp, mm, -, -, rfl⟩⟩⟩
  · exact serves_same hop rfl rfl
  · exact serves_same hop rfl (by simp [threadChild, setQueue, modTask, copyTask])
  · exact .stay [child] hop rfl (by simp [threadChild, push, setQueue, setMm, setHeapPointer, modTask, copyTask])
  · exact serves_same hop rfl (by simp [threadChild, push, setQueue, setMm, setHeapPointer, modTask, copyTask])

theorem serves_semWait (hop : op ≠ .clock) {semID : Int} (hb : a.semWait semID = some b) : Serves a b op := by
  obtain ⟨_ | ⟨tab, i⟩, -, hb⟩ := Option.bind_eq_some_iff.mp hb
  · cases hb
    exact serves_same hop rfl rfl
  · dsimp only at hb
    split at hb <;> cases hb
    · let c := a.addCount tab i (-1)
      refine serves_schedNextRr (b := (c.setState c.current .blocked).setQueue (.blocked tab i)
        (c.current :: c.queue (.blocked tab i))) [] ?_ rfl
      simp [c, setQueue, setState, modTask, addCount, setSem]
    · exact serves_same hop rfl rfl

theorem serves_semSignal {semID : Int} (hb : a.semSignal semID = some b) : Serves a b (.semSignal semID) := by
  obtain ⟨_ | ⟨tab, i⟩, -, hb⟩ := Option.bind_eq_some_iff.mp hb
  · cases hb
    exact serves_same (by simp) rfl rfl
  · dsimp only at hb
    split at hb
    · unfold wake at hb
      split at hb
      · cases hb
        exact .front _ semID rfl rfl (by simp [setQueue, setState, modTask, addCount, setSem]; rfl)
      · cases hb
    · cases hb
      exact serves_same (by simp) rfl rfl

theorem serves_semDestroy (hop : op ≠ .clock) {semID : Int} (hb : a.semDestroy semID = some b) : Serves a b op := by
  obtain ⟨_ | ⟨tab, i⟩, -, hb⟩ := Option.bind_eq_some_iff.mp hb
  · cases hb
    exact serves_same hop rfl rfl
  · cases hb
    exact .stay (a.queue (.blocked tab i)) hop rfl (by simp [wakeAll, setQueue, setSem])

theorem serves_step {ok : Bool} (hb : a.step ok op = some b) : Serves a b op := by
  unfold AbsKernel.step at hb
  split at hb
  · cases hb
  cases op <;> simp only [AbsKernel.handle] at hb
  case clock =>
    cases hb
    exact serves_clock a
  case yield =>
    cases hb
    exact serves_forceTaskSwitch a
  case exit =>
    obtain ⟨pt, -, hb⟩ := Option.bind_eq_some_iff.mp hb
    obtain ⟨⟨hp, mm⟩, -, hb⟩ := Option.bind_eq_some_iff.mp hb
    cases hb
    exact serves_leave rfl rfl
  case fork =>
    obtain ⟨r, hr, rfl⟩ := Option.map_eq_some_iff.mp hb
    exact serves_fork (by simp) hr
  case threadCreate =>
    split at hb
    · obtain ⟨r, hr, rfl⟩ := Option.map_eq_some_iff.mp hb
      exact serves_threadCreate (by simp) hr
    · cases hb
      exact serves_same (by simp) rfl rfl
  case threadExit =>
    obtain ⟨pt, -, hb⟩ := Option.bind_eq_some_iff.mp hb
    cases hb
    exact serves_leave rfl rfl
  case sbrk =>
    rcases sbrk_cases hb with rfl | ⟨pt, ret, hp, mm, -, -, rfl⟩
    · exact serves_same (by simp) rfl rfl
    · exact serves_same (by simp) rfl rfl
  case semCreate =>
    obtain ⟨r, hr, rfl⟩ := Option.map_eq_some_iff.mp hb
    obtain ⟨tab, -, hr⟩ := Option.bind_eq_some_iff.mp hr
    split at hr <;> cases hr
    · exact serves_same (by simp) rfl (by simp [setQueue, setSem])
    · exact serves_same (by simp) rfl rfl
  case semWait => exact serves_semWait (by simp) hb
  case semSignal => exact serves_semSignal hb
  case semDestroy => exact serves_semDestroy (by simp) hb

/-! ## The way to the front -/

/-- `t` is ready, and will run after `n` ticks when nothing else happens. -/
structure Near (a : AbsKernel) (t : TaskId) (n : Nat) : Prop where
  good : a.Good
  quanta : a.Quanta
  left : 1 ≤ a.remainingQuantum ∧ a.remainingQuantum ≤ defaultQuantum
  place : ∃ xs ys, a.queue .readyqueue = xs ++ t :: ys ∧ n = 10 * xs.length + a.remainingQuantum.toNat

theorem Near.step {t : TaskId} {n : Nat} (h : a.Near t n) {ok : Bool} (hb : a.step ok op = some b) : b.current = t ∨
    ∃ m, b.Near t m ∧ m + (if op.isClock then 1 else 0) ≤ n + if op.isSignal then 10 else 0 := by
  have hg := h.good.step hb
  have hquanta := h.quanta.step h.good hb
  have hcur := hquanta b.current (.inl (.inl rfl))
  obtain ⟨h1, h10⟩ := h.left
  obtain ⟨xs, ys, hready, rfl⟩ := h.place
  have hone : (if op.isClock then 1 else 0) ≤ 1 := by split <;> omega
  rcases serves_step hb with ⟨rfl, more, left, ready⟩ | ⟨none, -, -⟩ | ⟨zs, ready, current, left⟩ |
    ⟨zs, clock, left, ready⟩ | ⟨u, semID, rfl, left, ready⟩
  · refine .inr ⟨_, ⟨hg, hquanta, by omega, xs, ys, ready.trans hready, rfl⟩, ?_⟩
    change _ + 1 ≤ _ + 0
    omega
  · rw [none] at hready
    simp at hready
  · rw [hready] at ready current
    cases xs with
    | nil => exact .inl current
    | cons x xs =>
      rw [hcur] at left
      refine .inr ⟨_, ⟨hg, hquanta, by omega, xs, ys ++ zs, ?_, rfl⟩, ?_⟩
      · rw [ready]
        simp
      · rw [List.length_cons, left, show defaultQuantum.toNat = 10 from rfl]
        omega
  · refine .inr ⟨_, ⟨hg, hquanta, by omega, xs, ys ++ zs, ?_, rfl⟩, ?_⟩
    · rw [ready, hready]
      simp
    · rw [left, if_neg (clock ∘ Kernel.Op.isClock_iff.mp)]
      omega
  · refine .inr ⟨_, ⟨hg, hquanta, by omega, u :: xs, ys, ?_, rfl⟩, ?_⟩
    · rw [ready, hready]
      rfl
    · rw [left, List.length_cons]
      change _ + 0 ≤ _ + 10
      omega

end

end AbsKernel

theorem boot_quanta (mc : Machine) : (bootAbs mc).Quanta := by
  have hone : ∀ t, (bootAbs mc).Live t → t = 1 := by
    rintro t (ht | ht | ⟨tab, i, ht⟩)
    · exact ht
    · cases ht
    · cases ht
  intro t ht
  rcases ht with ht | ht
  · rw [hone t ht, boot_task1]
  · rw [ht, show (bootAbs mc).idleTask = 0 from rfl, boot_idle]

theorem AbsKernel.Serves.left_bounds {a b : AbsKernel} {op : Kernel.Op} (h : a.Serves b op) (hq : b.Quanta)
    (ha : 1 ≤ a.remainingQuantum ∧ a.remainingQuantum ≤ defaultQuantum) :
    1 ≤ b.remainingQuantum ∧ b.remainingQuantum ≤ defaultQuantum := by
  have hcur := hq b.current (.inl (.inl rfl))
  cases h with
  | tick clock more left ready => omega
  | alone none ready left => rw [left, hcur]; decide
  | switch zs ready current left => rw [left, hcur]; decide
  | stay zs clock left ready => rw [left]; exact ha
  | front u semID signal left ready => rw [left]; exact ha

theorem Reachable.timed {mc : Machine} {s : Kernel} (h : Reachable mc s) : ∃ a, Rep s a ∧ a.Good ∧ a.Quanta ∧
    1 ≤ a.remainingQuantum ∧ a.remainingQuantum ≤ defaultQuantum := by
  obtain ⟨es, he⟩ := h
  refine run_invariant (P := fun _ _ _ => True) ?_ (boot_rep mc) (boot_good mc) ⟨boot_quanta mc, ?_⟩ ?_ he
  · intro s a e s' b _ g hj _ _ hb _
    have hq := hj.1.step g hb
    exact ⟨hq, (AbsKernel.serves_step hb).left_bounds hq hj.2⟩
  · exact ⟨show (1 : Int) ≤ 10 by decide, show (10 : Int) ≤ 10 by decide⟩
  · exact allSteps_of_forall (A := fun _ => True) (fun _ _ _ _ => trivial) fun _ _ => trivial

/-- A task with `i` others in front of it comes to run as soon as there have been ten ticks for each of these and for each
`sys_semSignal`, and those that are left of the running turn. -/
theorem ready_served {mc : Machine} {s s' : Kernel} {before es : List Kernel.Event}
    (hr : exec Kernel.step (Kernel.boot mc) before = some s) {t : TaskId} {i : Nat}
    (ht : (s.members .readyqueue)[i]? = some t) (he : exec Kernel.step s es = some s')
    (hticks : s.remainingQuantum + 10 * (i + es.countP fun e => e.op.isSignal) ≤ es.countP fun e => e.op.isClock) :
    SafeRun mc (before ++ es) → Reaches Kernel.step (fun u => u.current = t) s es := by
  intro _
  obtain ⟨a, h, g, hq, hleft⟩ := Reachable.timed ⟨before, hr⟩
  rw [h.members] at ht
  rw [h.remainingQuantum] at hticks
  obtain ⟨hlt, hget⟩ := List.getElem?_eq_some_iff.mp ht
  have hnear : a.Near t (10 * i + a.remainingQuantum.toNat) := by
    refine ⟨g, hq, hleft, (a.queue .readyqueue).take i, (a.queue .readyqueue).drop (i + 1), ?_, ?_⟩
    · rw [← hget, ← List.drop_eq_getElem_cons hlt, List.take_append_drop]
    · rw [List.length_take, Nat.min_eq_left (Nat.le_of_lt hlt)]
  refine reaches_of_work (fun s n => ∃ a, Rep s a ∧ a.Near t n) (fun e => e.op.isClock) (fun e => e.op.isSignal) 10 ?_ ?_
    ⟨a, h, hnear⟩ he (by omega)
  · rintro s e s' n ⟨a, h, hn⟩ hs
    obtain ⟨b, hb, h', -⟩ := h.step_some hn.good hs
    rcases hn.step hb with hc | ⟨m, hm, hle⟩
    · exact .inl (h'.current.trans hc)
    · exact .inr ⟨m, ⟨b, h', hm⟩, hle⟩
  · rintro s n ⟨a, -, hn⟩
    obtain ⟨h1, -⟩ := hn.left
    obtain ⟨xs, ys, -, rfl⟩ := hn.place
    omega

/-- Task 1 makes two threads and blocks on a semaphore; while the first thread runs, it wakes task 1, which then stands in
front of the second thread. -/
def servedBefore : List Kernel.Event :=
  [⟨.threadCreate 0x100000 0 0x100000, 0⟩, ⟨.threadCreate 0x100000 0 0x100000, 0⟩, ⟨.semCreate 0, 0⟩, ⟨.semWait 0, 8⟩]

theorem ready_served_thread : ∃ s, exec Kernel.step (Kernel.boot .blank) servedBefore = some s ∧
    (s.members .readyqueue)[0]? = some 3 ∧
    Reaches Kernel.step (fun u => u.current = 3) s (⟨.semSignal 0, 0⟩ :: List.replicate 20 ⟨.clock, 8⟩) := by
  have hrun : (exec Kernel.step (Kernel.boot .blank) servedBefore).any (fun s => decide
      ((s.members .readyqueue)[0]? = some 3 ∧ s.remainingQuantum = 10 ∧
        (exec Kernel.step s (⟨.semSignal 0, 0⟩ :: List.replicate 20 ⟨.clock, 8⟩)).isSome = true)) = true := by
    decide +kernel
  obtain ⟨s, hs, hd⟩ := (Option.any_eq_true _ _).mp hrun
  obtain ⟨hready, hleft, hex⟩ := of_decide_eq_true hd
  obtain ⟨s', he⟩ := Option.isSome_iff_exists.mp hex
  exact ⟨s, hs, hready, ready_served hs hready he (by rw [hleft]; decide) (by decide +kernel)⟩

end ZeosSOA.Sysenter
