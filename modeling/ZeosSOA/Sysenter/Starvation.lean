import ZeosSOA.Sysenter.ThreadRuns
import ZeosSOA.Sysenter.Waiting

/-!
# ZeOSSysenter: ready tasks that never run

`sys_semSignal` puts the task it wakes in front of the ready ones. Two threads that hand the CPU to each other through two
semaphores keep it for as long as they like, clock ticks or not. Idle keeps it for ever.
-/

namespace ZeosSOA.Sysenter

open Runs

/-! ## Handing the CPU over -/

namespace AbsKernel

/-- `p` runs, and `q` waits on the semaphore `i`; nobody waits on `j`. -/
structure Handover (a : AbsKernel) (p q : TaskId) (i j : Fin numSem) (xs : List TaskId) : Prop where
  good : a.Good
  quanta : a.Quanta
  current : a.current = p
  busy : a.idleTask ≠ p
  ready : a.queue .readyqueue = xs
  waiting : a.queue (.blocked .semaforProces i) = [q]
  alone : a.queue (.blocked .semaforProces j) = []
  signalled : a.sem .semaforProces i = ⟨i.val, -1, (a.task p).PID⟩
  waited : a.sem .semaforProces j = ⟨j.val, 0, (a.task p).PID⟩
  semafors : (a.task p).semafors = some .semaforProces ∧ (a.task q).semafors = some .semaforProces
  PID : (a.task q).PID = (a.task p).PID

/-- `p` has signalled the semaphore `i`: `q` is the next one, and nobody waits. -/
structure Offered (b : AbsKernel) (p q : TaskId) (i j : Fin numSem) (xs : List TaskId) : Prop where
  good : b.Good
  quanta : b.Quanta
  current : b.current = p
  busy : b.idleTask ≠ p
  ready : b.queue .readyqueue = q :: xs
  quiet : b.queue (.blocked .semaforProces i) = [] ∧ b.queue (.blocked .semaforProces j) = []
  signalled : b.sem .semaforProces i = ⟨i.val, 0, (b.task p).PID⟩
  waited : b.sem .semaforProces j = ⟨j.val, 0, (b.task p).PID⟩
  semafors : (b.task p).semafors = some .semaforProces ∧ (b.task q).semafors = some .semaforProces
  PID : (b.task q).PID = (b.task p).PID

section
variable {a b : AbsKernel} {p q : TaskId} {i j : Fin numSem} {xs : List TaskId}

theorem semCheck_own (htab : (a.task a.current).semafors = some .semaforProces)
    (hid : (a.sem .semaforProces i).semid = i.val) (hpid : (a.sem .semaforProces i).PID = (a.task a.current).PID) :
    a.semCheck i.val = some (.accepted .semaforProces i) := by
  have hrange : ¬ ((i.val : Int) > 10 ∨ (i.val : Int) < 0) := by
    have hlt : i.val < 10 := i.isLt
    omega
  unfold semCheck
  simp only [if_neg hrange, htab, Option.bind_eq_bind, Option.bind_some, Int.toNat_natCast, i.isLt, Fin.eta, dite_true,
    hpid, hid, ne_eq, not_true, if_false]

theorem semSignal_wakes {k : Int} {tab : SemTable} {t : TaskId} {ts : List TaskId}
    (hchk : a.semCheck k = some (.accepted tab i)) (hc : toInt32 ((a.sem tab i).count + 1) ≤ 0)
    (hq : a.queue (.blocked tab i) = t :: ts) : a.semSignal k = some
      ((((a.addCount tab i 1).setQueue (.blocked tab i) ts).setState t .ready).setQueue .readyqueue
        (t :: a.queue .readyqueue)) := by
  have hcount : ((a.addCount tab i 1).sem tab i).count ≤ 0 := by simpa [addCount, setSem] using hc
  have hwait : (a.addCount tab i 1).queue (.blocked tab i) = t :: ts := hq
  simp only [semSignal, hchk, Option.bind_eq_bind, Option.bind_some, if_pos hcount, wake, hwait]
  rfl

theorem semWait_blocks {k : Int} {tab : SemTable} (hchk : a.semCheck k = some (.accepted tab i))
    (hc : toInt32 ((a.sem tab i).count + -1) < 0) : a.semWait k = some ((a.addCount tab i (-1)).block tab i) := by
  have hcount : ((a.addCount tab i (-1)).sem tab i).count < 0 := by simpa [addCount, setSem] using hc
  simp only [semWait, hchk, Option.bind_eq_bind, Option.bind_some, if_pos hcount]
  rfl

theorem block_task (a : AbsKernel) (tab : SemTable) (i : Fin numSem) (t : TaskId) :
    ∃ st, (a.block tab i).task t = { a.task t with state := st } := by
  rw [block, schedNextRr_task]
  by_cases ht : t = a.current
  · have hset : (((a.setState a.current .blocked).setQueue (.blocked tab i)
        (a.current :: a.queue (.blocked tab i))).task t) = { a.task t with state := .blocked } := by
      rw [ht]
      exact Function.update_self ..
    rw [hset]
    split <;> exact ⟨_, rfl⟩
  · have hset : (((a.setState a.current .blocked).setQueue (.blocked tab i)
        (a.current :: a.queue (.blocked tab i))).task t) = a.task t := Function.update_of_ne ht ..
    rw [hset]
    split <;> exact ⟨_, rfl⟩

theorem Handover.ne (h : a.Handover p q i j xs) : q ≠ p := by
  rintro rfl
  refine h.good.current (.blocked .semaforProces i) ?_
  rw [h.waiting, h.current]
  exact List.mem_singleton_self _

theorem Handover.ne_sem (h : a.Handover p q i j xs) : i ≠ j := by
  rintro rfl
  have hw := h.waiting
  rw [h.alone] at hw
  cases hw

theorem Handover.tick (h : a.Handover p q i j xs) (hleft : 2 ≤ a.remainingQuantum) :
    ∃ b, a.step true .clock = some b ∧ b.Handover p q i j xs := by
  have hclock : a.step true .clock = some { a with remainingQuantum := a.remainingQuantum - 1 } := by
    rw [AbsKernel.step, if_neg fun he => he.1 rfl, handle, AbsKernel.clock, if_pos (by omega)]
  exact ⟨_, hclock, { h with good := h.good.step hclock, quanta := h.quanta.step h.good hclock }⟩

/-- The running one signals, and the other one comes to the front of the ready tasks. -/
theorem Handover.signal (h : a.Handover p q i j xs) : a.step true (.semSignal i.val) = some
    ((((a.addCount .semaforProces i 1).setQueue (.blocked .semaforProces i) []).setState q .ready).setQueue .readyqueue
      (q :: xs)) := by
  have hbusy := h.busy
  rw [← h.current] at hbusy
  rw [AbsKernel.step, if_neg fun he => hbusy he.2, handle]
  rw [semSignal_wakes (semCheck_own _ _ _) _ h.waiting, h.ready]
  · rw [h.current]
    exact h.semafors.1
  · rw [h.signalled]
  · rw [h.signalled, h.current]
  · rw [h.signalled]
    exact (by decide : toInt32 (-1 + 1) ≤ 0)

theorem Handover.offered (h : a.Handover p q i j xs) (hb : a.step true (.semSignal i.val) = some b) :
    b.Offered p q i j xs := by
  have hne := h.ne
  have hsem := h.ne_sem
  have hgood := h.good.step hb
  have hquanta := h.quanta.step h.good hb
  rw [h.signal] at hb
  obtain rfl := Option.some.inj hb
  constructor
  case good => exact hgood
  case quanta => exact hquanta
  case current => exact h.current
  case busy => exact h.busy
  case ready => simp [setQueue]
  case quiet =>
    simp [setState, modTask, setQueue, addCount, setSem, hsem.symm, h.alone]
  case signalled =>
    simp [setState, modTask, setQueue, addCount, setSem, h.signalled, hne.symm]
    rfl
  case waited =>
    simp [setState, modTask, setQueue, addCount, setSem, hsem.symm, h.waited, hne.symm]
  case semafors => simp [setState, modTask, setQueue, addCount, setSem, hne.symm, h.semafors]
  case PID => simp [setState, modTask, setQueue, addCount, setSem, hne.symm, h.PID]

theorem Offered.idle_ne (h : b.Offered p q i j xs) : b.idleTask ≠ q := by
  rintro he
  refine h.good.idle .readyqueue ?_
  rw [h.ready, he]
  exact List.mem_cons_self

theorem Offered.blocks (h : b.Offered p q i j xs) :
    b.step true (.semWait j.val) = some ((b.addCount .semaforProces j (-1)).block .semaforProces j) := by
  have hbusy := h.busy
  rw [← h.current] at hbusy
  rw [AbsKernel.step, if_neg fun he => hbusy he.2, handle]
  apply semWait_blocks (semCheck_own _ _ _)
  · rw [h.waited]
    exact (by decide : toInt32 (0 + -1) < 0)
  · rw [h.current]
    exact h.semafors.1
  · rw [h.waited]
  · rw [h.waited, h.current]

/-- It waits, and the other one comes to run. -/
theorem Offered.wait (h : b.Offered p q i j xs) (hsem : i ≠ j) :
    ∃ c, b.step true (.semWait j.val) = some c ∧ c.Handover q p j i xs ∧ 2 ≤ c.remainingQuantum := by
  have hc := h.blocks
  have hquanta := h.quanta.step h.good hc
  have htask : ∀ t, (((b.addCount .semaforProces j (-1)).block .semaforProces j).task t).PID = (b.task t).PID ∧
      (((b.addCount .semaforProces j (-1)).block .semaforProces j).task t).semafors = (b.task t).semafors := by
    intro t
    obtain ⟨st, hst⟩ := block_task (b.addCount .semaforProces j (-1)) .semaforProces j t
    rw [hst]
    exact ⟨rfl, rfl⟩
  have hsems : ((b.addCount .semaforProces j (-1)).block .semaforProces j).sem =
      (b.addCount .semaforProces j (-1)).sem := schedNextRr_sem _
  have hleft : ((b.addCount .semaforProces j (-1)).block .semaforProces j).remainingQuantum = defaultQuantum := by
    rw [block, schedNextRr_left, ← block]
    exact hquanta _ (.inl (.inl rfl))
  refine ⟨_, hc, ?_, by rw [hleft]; decide⟩
  constructor
  case good => exact h.good.step hc
  case quanta => exact hquanta
  case current =>
    rw [block, schedNextRr_current]
    simp [setState, modTask, setQueue, addCount, setSem, h.ready]
  case busy =>
    rw [block, schedNextRr_idleTask]
    exact h.idle_ne
  case ready =>
    rw [block, schedNextRr_queue]
    simp [setState, modTask, setQueue, addCount, setSem, h.ready]
  case waiting =>
    rw [block, schedNextRr_blocked]
    simp [setState, modTask, setQueue, addCount, setSem, h.quiet, h.current]
  case alone =>
    rw [block, schedNextRr_blocked]
    simp [setState, modTask, setQueue, addCount, setSem, h.quiet, hsem]
  case signalled =>
    rw [hsems, (htask q).1, h.PID]
    simp [addCount, setSem, h.waited]
    rfl
  case waited =>
    rw [hsems, (htask q).1, h.PID]
    simp [addCount, setSem, h.signalled, hsem]
  case semafors =>
    rw [(htask q).2, (htask p).2]
    exact h.semafors.symm
  case PID => rw [(htask p).1, (htask q).1, h.PID]

end

end AbsKernel

/-- In each turn there is a tick, a signal to the other one, and a wait. -/
def handovers (i j : Fin numSem) : Nat → List Kernel.Event
  | 0 => []
  | n + 1 => ⟨.clock, 0⟩ :: ⟨.semSignal i.val, 0⟩ :: ⟨.semWait j.val, 0⟩ :: handovers j i n

theorem handovers_clock (i j : Fin numSem) (n : Nat) : (handovers i j n).countP (fun e => e.op.isClock) = n := by
  induction n generalizing i j with
  | zero => rfl
  | succ n ih =>
    rw [handovers, List.countP_cons, List.countP_cons, List.countP_cons, ih]
    rfl

theorem Rep.ready_stays {s : Kernel} {a : AbsKernel} (h : Rep s a) (g : a.Good) {t : TaskId}
    (ht : t ∈ a.queue .readyqueue) : t ∈ s.members .readyqueue ∧ s.current ≠ t := by
  rw [h.members, h.current]
  refine ⟨ht, ?_⟩
  rintro rfl
  exact g.current _ ht

theorem handovers_run {s : Kernel} {a : AbsKernel} {p q : TaskId} {i j : Fin numSem} {xs : List TaskId} {t : TaskId}
    (ht : t ∈ xs) (n : Nat) (h : Rep s a) (ha : a.Handover p q i j xs) (hleft : 2 ≤ a.remainingQuantum) :
    (∃ s', exec Kernel.step s (handovers i j n) = some s') ∧
      AllStates Kernel.step (fun u => t ∈ u.members .readyqueue ∧ u.current ≠ t) s (handovers i j n) := by
  induction n generalizing s a p q i j with
  | zero => exact ⟨⟨s, rfl⟩, h.ready_stays ha.good (by rw [ha.ready]; exact ht)⟩
  | succ n ih =>
    obtain ⟨b, hb, hhb⟩ := ha.tick hleft
    obtain ⟨c, hc, hhc, hleft'⟩ := (hhb.offered hhb.signal).wait hhb.ne_sem
    obtain ⟨s₁, hs₁, h₁, -⟩ := h.step_of_abs ha.good (e := ⟨.clock, 0⟩) hb
    obtain ⟨s₂, hs₂, h₂, g₂⟩ := h₁.step_of_abs hhb.good (e := ⟨.semSignal i.val, 0⟩) hhb.signal
    obtain ⟨s₃, hs₃, h₃, -⟩ := h₂.step_of_abs g₂ (e := ⟨.semWait j.val, 0⟩) hc
    obtain ⟨⟨s', hrun⟩, hall⟩ := ih h₃ hhc hleft'
    refine ⟨⟨s', ?_⟩, ?_⟩
    · simp only [handovers, exec, hs₁, hs₂, hs₃, Option.bind_some]
      exact hrun
    · refine ⟨h.ready_stays ha.good (by rw [ha.ready]; exact ht), fun u hu => ?_⟩
      cases hs₁.symm.trans hu
      refine ⟨h₁.ready_stays hhb.good (by rw [hhb.ready]; exact ht), fun u hu => ?_⟩
      cases hs₂.symm.trans hu
      refine ⟨h₂.ready_stays g₂ (List.mem_cons_of_mem q ht), fun u hu => ?_⟩
      cases hs₃.symm.trans hu
      exact hall

/-- Two threads of a process that wake each other in turn keep the CPU, and what is ready waits as long as they like. -/
theorem ready_starved {mc : Machine} {s : Kernel} (hr : Reachable mc s) {q t : TaskId} {i j : Fin numSem}
    (hbusy : s.idleTask ≠ some s.current) (hleft : 2 ≤ s.remainingQuantum)
    (hi : s.members (.blocked .semaforProces i) = [q]) (hj : s.members (.blocked .semaforProces j) = [])
    (hsi : s.sem .semaforProces i = ⟨i.val, -1, (s.task s.current).PID⟩)
    (hsj : s.sem .semaforProces j = ⟨j.val, 0, (s.task s.current).PID⟩)
    (htab : (s.task s.current).semafors = some .semaforProces ∧ (s.task q).semafors = some .semaforProces)
    (hpid : (s.task q).PID = (s.task s.current).PID) (ht : t ∈ s.members .readyqueue) (n : Nat) :
    ∃ es s', exec Kernel.step s es = some s' ∧ es.countP (fun e => e.op.isClock) = n ∧
      AllStates Kernel.step (fun u => t ∈ u.members .readyqueue ∧ u.current ≠ t) s es := by
  obtain ⟨a, h, g, hq, -⟩ := hr.timed
  have hcore : ∀ u, (s.task u).PID = (a.task u).PID ∧ (s.task u).semafors = (a.task u).semafors := by
    intro u
    rw [← h.task u]
    exact ⟨rfl, rfl⟩
  rw [h.members] at hi hj ht
  rw [h.sem, (hcore _).1, h.current] at hsi hsj
  rw [(hcore _).1, (hcore _).1, h.current] at hpid
  rw [(hcore _).2, (hcore _).2, h.current] at htab
  rw [h.idleTask, h.current] at hbusy
  rw [h.remainingQuantum] at hleft
  have ha : a.Handover a.current q i j (a.queue .readyqueue) :=
    ⟨g, hq, rfl, fun e => hbusy (congrArg some e), rfl, hi, hj, hsi, hsj, htab, hpid⟩
  obtain ⟨⟨s', hrun⟩, hall⟩ := handovers_run ht n h ha hleft
  exact ⟨_, s', hrun, handovers_clock i j n, hall⟩

/-- Task 1 makes two semaphores and two threads, and waits for the first one. -/
def handoverStart : List Kernel.Event := [⟨.semCreate 0, 0⟩, ⟨.semCreate 0, 0⟩, ⟨.threadCreate 0x100000 0 0x100000, 0⟩,
  ⟨.threadCreate 0x100000 0 0x100000, 0⟩, ⟨.semWait 0, 0⟩]

theorem ready_starved_thread : ∃ s, exec Kernel.step (Kernel.boot .blank) handoverStart = some s ∧
    ∀ n, ∃ es s', exec Kernel.step s es = some s' ∧ es.countP (fun e => e.op.isClock) = n ∧
      AllStates Kernel.step (fun u => 3 ∈ u.members .readyqueue ∧ u.current ≠ 3) s es := by
  have hrun : (exec Kernel.step (Kernel.boot .blank) handoverStart).any (fun s => decide
      ((s.idleTask ≠ some s.current ∧ 2 ≤ s.remainingQuantum ∧ 3 ∈ s.members .readyqueue ∧
        s.members (.blocked .semaforProces 0) = [1] ∧ s.members (.blocked .semaforProces 1) = []) ∧
      ((s.sem .semaforProces 0).semid = 0 ∧ (s.sem .semaforProces 0).count = -1 ∧
        (s.sem .semaforProces 0).PID = (s.task s.current).PID) ∧
      ((s.sem .semaforProces 1).semid = 1 ∧ (s.sem .semaforProces 1).count = 0 ∧
        (s.sem .semaforProces 1).PID = (s.task s.current).PID) ∧
      (s.task s.current).semafors = some .semaforProces ∧ (s.task 1).semafors = some .semaforProces ∧
        (s.task 1).PID = (s.task s.current).PID)) = true := by
    decide +kernel
  obtain ⟨s, hs, hd⟩ := (Option.any_eq_true _ _).mp hrun
  obtain ⟨⟨hbusy, hleft, hready, hi, hj⟩, ⟨hi₁, hi₂, hi₃⟩, ⟨hj₁, hj₂, hj₃⟩, hcur, htab, hpid⟩ := of_decide_eq_true hd
  have hsi : s.sem .semaforProces 0 = ⟨0, -1, (s.task s.current).PID⟩ := by rw [← hi₁, ← hi₂, ← hi₃]
  have hsj : s.sem .semaforProces 1 = ⟨1, 0, (s.task s.current).PID⟩ := by rw [← hj₁, ← hj₂, ← hj₃]
  exact ⟨s, hs, ready_starved ⟨_, hs⟩ hbusy hleft hi hj hsi hsj ⟨hcur, htab⟩ hpid hready⟩

/-! ## Idle -/

theorem AbsKernel.idle_step {a b : AbsKernel} {op : Kernel.Op} {ok : Bool} (g : a.Good) (hi : a.idleTask = a.current)
    (hb : a.step ok op = some b) : op = .clock ∧ ∃ r, b = { a with remainingQuantum := r } := by
  unfold AbsKernel.step at hb
  by_cases hop : op = .clock
  · subst hop
    rw [if_neg fun he => he.1 rfl] at hb
    obtain rfl := Option.some.inj hb
    refine ⟨rfl, ?_⟩
    unfold AbsKernel.clock
    split
    · exact ⟨_, rfl⟩
    · rw [if_pos (g.idleLast hi.symm)]
      exact ⟨_, rfl⟩
  · rw [if_pos ⟨hop, hi⟩] at hb
    cases hb

theorem idle_run {s s' : Kernel} {a : AbsKernel} {es : List Kernel.Event} (h : Rep s a) (g : a.Good)
    (hi : a.idleTask = a.current) (he : exec Kernel.step s es = some s') :
    (∀ e ∈ es, e.op = .clock) ∧ ∃ r, Rep s' { a with remainingQuantum := r } := by
  induction es generalizing s a with
  | nil =>
    rw [exec_nil] at he
    cases he
    exact ⟨fun e he => absurd he List.not_mem_nil, a.remainingQuantum, h⟩
  | cons e es ih =>
    obtain ⟨u, hu, he⟩ := exec_cons.mp he
    obtain ⟨b, hb, h', g'⟩ := h.step_some g hu
    obtain ⟨hop, r, rfl⟩ := AbsKernel.idle_step g hi hb
    obtain ⟨hops, hrep⟩ := ih h' g' hi he
    exact ⟨List.forall_mem_cons.mpr ⟨hop, hops⟩, hrep⟩

/-- Once idle runs, all others wait on semaphores, and nothing happens any more but ticks. An interrupt of the keyboard is no
event of these runs: `keyboard_routine` fills the ring of characters and wakes nobody. -/
theorem idle_forever {mc : Machine} {s s' : Kernel} (hr : Reachable mc s) (hidle : s.idleTask = some s.current)
    {es : List Kernel.Event} (he : exec Kernel.step s es = some s') :
    (∀ t, s.Live t → t ≠ s.current → ∃ i, t ∈ s.members (.blocked .semaforProces i)) ∧ (∀ e ∈ es, e.op = .clock) ∧
      s'.current = s.current ∧ (∀ i, s'.members i = s.members i) ∧ s'.sem = s.sem ∧ s'.mm = s.mm := by
  obtain ⟨a, h, g, -⟩ := hr.timed
  have hi : a.idleTask = a.current := by
    rw [h.idleTask, h.current] at hidle
    exact Option.some.inj hidle
  obtain ⟨hops, r, h'⟩ := idle_run h g hi he
  refine ⟨?_, hops, h'.current.trans h.current.symm, fun i => ?_, h'.sem.trans h.sem.symm, h'.mm.trans h.mm.symm⟩
  · intro t ht hne
    rw [h.live] at ht
    rw [h.current] at hne
    rcases ht with ht | ht | ⟨tab, i, ht⟩
    · exact absurd ht hne
    · rw [g.idleLast hi.symm] at ht
      exact absurd ht List.not_mem_nil
    · cases tab
      exact ⟨i, by rw [h.members]; exact ht⟩
  · rw [h'.members, h.members]

/-- Task 1 makes a semaphore and waits for it. -/
theorem idle_forever_wait : ∃ s s', exec Kernel.step (Kernel.boot .blank) [⟨.semCreate 0, 0⟩, ⟨.semWait 0, 0⟩] = some s ∧
    exec Kernel.step s (List.replicate 20 ⟨.clock, 0⟩) = some s' ∧ s'.current = s.current ∧
      ∃ i, 1 ∈ s.members (.blocked .semaforProces i) := by
  have hrun : (exec Kernel.step (Kernel.boot .blank) [⟨.semCreate 0, 0⟩, ⟨.semWait 0, 0⟩]).any (fun s => decide
      (s.idleTask = some s.current ∧ s.current ≠ 1 ∧ 1 ∈ s.members (.blocked .semaforProces 0) ∧
        (exec Kernel.step s (List.replicate 20 ⟨.clock, 0⟩)).isSome = true)) = true := by
    decide +kernel
  obtain ⟨s, hs, hd⟩ := (Option.any_eq_true _ _).mp hrun
  obtain ⟨hidle, hne, hmem, hex⟩ := of_decide_eq_true hd
  obtain ⟨s', he⟩ := Option.isSome_iff_exists.mp hex
  obtain ⟨hall, -, hcur, -⟩ := idle_forever ⟨_, hs⟩ hidle he
  exact ⟨s, s', hs, he, hcur, hall 1 (.inr (.inr ⟨_, 0, hmem⟩)) hne.symm⟩

end ZeosSOA.Sysenter
