import ZeosSOA.Sysenter.Reach
import ZeosSOA.Turns

/-!
# ZeOSSysenter: round-robin service

Between system calls the clock makes the tasks of the ready queue and the running one take
turns. The only thing assumed of a state is its ready queue, so the other queues, and how
the state came about, do not matter.
-/

namespace ZeosSOA.Sysenter

open Intrusive Runs

namespace Kernel

/-- The current task runs, and the ready queue holds `ts` and not the current task. -/
structure Serving (s : Kernel) (ts : List TaskId) : Prop where
  rings : s.links.Rings {Queue.readyqueue} fun _ => ts
  current : s.current ∉ ts
  run : (s.task s.current).state = .run

section
variable {s s' : Kernel} {ts : List TaskId}

theorem Serving.congr (h : s.Serving ts) (hl : s'.links = s.links) (hc : s'.current = s.current)
    (ht : ∀ t, (s'.task t).core = (s.task t).core) : s'.Serving ts where
  rings := by rw [hl]; exact h.rings
  current := by rw [hc]; exact h.current
  run := by rw [hc]; exact (congrArg TaskCore.state (ht s.current)).trans h.run

theorem serving_iff : s.Serving ts ↔ s.links.Ring (.head .readyqueue) (ts.map .anchor) ∧ ts.Nodup ∧
    s.current ∉ ts ∧ (s.task s.current).state = .run where
  mp h := ⟨h.rings.ring .readyqueue rfl, h.rings.nodup .readyqueue rfl, h.current, h.run⟩
  mpr := fun ⟨hr, hnd, hc, hs⟩ => {
    rings := {
      ring := fun _ hi => Set.mem_singleton_iff.mp hi ▸ hr
      nodup := fun _ _ => hnd
      apart := fun _ hi _ hj _ _ _ => (Set.mem_singleton_iff.mp hi).trans (Set.mem_singleton_iff.mp hj).symm }
    current := hc
    run := hs }

instance : Decidable (s.links.Ring (.head .readyqueue) (ts.map .anchor)) :=
  inferInstanceAs (Decidable (List.IsChain (fun a b => s.links.next a = some b ∧ s.links.prev b = some a) _))

instance : Decidable (s.Serving ts) := decidable_of_iff _ serving_iff.symm

/-! ## What the functions of the scheduler leave alone -/

theorem updateStats_core (s : Kernel) (t : TaskId) (v : TickCounter) (u : TaskId) :
    ((s.updateStats t v).task u).core = (s.task u).core := by
  simp only [updateStats, getTicks, modTask, Function.update_apply]
  split
  · rename_i e; subst e; rfl
  · rfl

theorem dispatch_quantum (s : Kernel) (t : TaskId) (ebp : Nat) (u : TaskId) :
    ((s.dispatch t ebp).task u).totalQuantum = (s.task u).totalQuantum := by
  simp only [dispatch, innerTaskSwitch, updateStats, getTicks, setState, modTask, Function.update_apply]
  grind

theorem dispatch_serving {t : TaskId} (h : s.links.Rings {Queue.readyqueue} fun _ => ts) (ht : t ∉ ts) (ebp : Nat) :
    (s.dispatch t ebp).Serving ts where
  rings := h
  current := ht
  run := by
    simp only [dispatch, innerTaskSwitch, updateStats, getTicks, setState, modTask, Function.update_apply]
    grind

theorem dispatch_rem (s : Kernel) (t : TaskId) (ebp : Nat) :
    (s.dispatch t ebp).remainingQuantum = (s.task t).totalQuantum := by
  simp [dispatch, innerTaskSwitch, updateStats, getTicks, setState, modTask, getQuantum]

theorem resume_serving (h : s.Serving ts) : s.resume.Serving ts := by
  unfold resume
  split
  · exact h.congr rfl rfl fun t => updateStats_core s _ _ t
  · exact h

theorem resume_core (s : Kernel) (t : TaskId) : (s.resume.task t).core = (s.task t).core := by
  unfold resume
  split
  · exact updateStats_core s _ _ t
  · rfl

theorem resume_rest (s : Kernel) : s.resume.current = s.current ∧ s.resume.remainingQuantum = s.remainingQuantum := by
  unfold resume
  split
  · exact ⟨rfl, rfl⟩
  · exact ⟨rfl, rfl⟩

/-! ## One tick -/

theorem forceTaskSwitch_serving {t : TaskId} (h : s.Serving (t :: ts)) (ebp : Nat) :
    ∃ s', s.forceTaskSwitch ebp = some s' ∧ s'.Serving (ts ++ [s.current]) ∧ s'.current = t ∧
      s'.remainingQuantum = (s.task t).totalQuantum ∧ ∀ u, (s'.task u).totalQuantum = (s.task u).totalQuantum := by
  have hnd := h.rings.nodup .readyqueue rfl
  obtain ⟨l1, e1, hr1⟩ := listAddTail_rings h.rings (t := s.current) (fun i _ => h.current) (i := .readyqueue) rfl
  obtain ⟨l2, e2, hr2⟩ := listDel_rings hr1 (i := .readyqueue) rfl
    (show _ = [] ++ t :: (ts ++ [s.current]) by rw [Function.update_self]; rfl)
  have hne : ¬ ZeosSOA.listEmpty l1 (.head Queue.readyqueue) = true := by
    rw [listEmpty_rings hr1 rfl]; simp
  have hfirst : ZeosSOA.listFirst l1 (.head Queue.readyqueue) = some (.anchor t) :=
    listFirst_rings hr1 rfl (show _ = t :: (ts ++ [s.current]) by rw [Function.update_self]; rfl)
  have hts : t ∉ ts ++ [s.current] := by
    have := (List.nodup_cons.mp hnd).1
    simp only [List.mem_append, List.mem_singleton, not_or]
    exact ⟨this, fun e => h.current (e ▸ List.mem_cons_self)⟩
  let s1 : Kernel := (({ s with links := l1 } : Kernel).updateStats s.current .system).setState s.current .ready
  have hu : s.updateProcessStateRr s.current (some .readyqueue) = some s1 := by
    simp [updateProcessStateRr, h.run, listAddTail, e1, s1]
  have hn : s1.nextTask = some (t, { s1 with links := l2 }) := by
    have hl : s1.links = l1 := rfl
    simp [nextTask, listEmpty, listFirst, listDel, listHeadToTaskStruct, hl, hne, hfirst, e2]
  refine ⟨({ s1 with links := l2 } : Kernel).dispatch t ebp, ?_, ?_, rfl, ?_, fun u => ?_⟩
  · simp [forceTaskSwitch, hu, schedNextRr, hn]
  · refine dispatch_serving (rings_congr_seq hr2 fun i hi => ?_) hts ebp
    rw [Set.mem_singleton_iff.mp hi, Function.update_self]; rfl
  · rw [dispatch_rem]
    simp [s1, setState, modTask, updateStats, getTicks, Function.update_apply]
    grind
  · rw [dispatch_quantum]
    simp [s1, setState, modTask, updateStats, getTicks, Function.update_apply]
    grind

theorem schedule_serving (h : s.Serving ts) (ebp : Nat) : ∃ s', s.schedule ebp = some s' ∧
    (∀ u, (s'.task u).totalQuantum = (s.task u).totalQuantum) ∧
    (s.remainingQuantum ≠ 1 ∧ s'.Serving ts ∧ s'.current = s.current ∧
        s'.remainingQuantum = s.remainingQuantum - 1 ∨
      s.remainingQuantum = 1 ∧ ts = [] ∧ s'.Serving [] ∧ s'.current = s.current ∧
        s'.remainingQuantum = (s.task s.current).totalQuantum ∨
      s.remainingQuantum = 1 ∧ ∃ t us, ts = t :: us ∧ s'.Serving (us ++ [s.current]) ∧ s'.current = t ∧
        s'.remainingQuantum = (s.task t).totalQuantum) := by
  have h1 : s.updateSchedDataRr.Serving ts := h.congr rfl rfl fun _ => rfl
  have hrem : s.updateSchedDataRr.remainingQuantum = s.remainingQuantum - 1 := rfl
  unfold schedule needsSchedRr
  dsimp only
  rw [hrem]
  by_cases hr : s.remainingQuantum - 1 = 0
  · cases ts with
    | nil =>
      have he : s.updateSchedDataRr.listEmpty .readyqueue = true := (listEmpty_rings h1.rings rfl).mpr rfl
      refine ⟨{ s.updateSchedDataRr with remainingQuantum := s.updateSchedDataRr.getQuantum s.updateSchedDataRr.current },
        by simp [hr, he], fun _ => rfl, .inr (.inl ⟨by omega, rfl, ?_, rfl, rfl⟩)⟩
      exact h.congr rfl rfl fun _ => rfl
    | cons t us =>
      have he : ¬ s.updateSchedDataRr.listEmpty .readyqueue = true := by
        rw [listEmpty, listEmpty_rings h1.rings rfl]; exact List.cons_ne_nil _ _
      obtain ⟨s', e', hs, hc, hq, hu⟩ := forceTaskSwitch_serving h1 ebp
      refine ⟨s', ?_, hu, .inr (.inr ⟨by omega, t, us, rfl, hs, hc, hq⟩)⟩
      simpa [hr, he, forceTaskSwitch] using e'
  · exact ⟨s.updateSchedDataRr, by simp [hr], fun _ => rfl, .inl ⟨by omega, h1, rfl, hrem⟩⟩

/-! ## Any number of ticks -/

structure Turning (s : Kernel) (u : Turns.St TaskId) : Prop where
  serving : s.Serving u.queue
  current : s.current = u.current
  left : s.remainingQuantum = u.left

theorem Turning.tick {u : Turns.St TaskId} {quantum : TaskId → Nat} (h : s.Turning u) (hl : 1 ≤ u.left)
    (hq : ∀ t ∈ u.cycle, (s.task t).totalQuantum = quantum t) {e : Event} (he : e.op = .clock) :
    ∃ s', s.step e = some s' ∧ s'.Turning (Turns.tick quantum u) ∧
      ∀ t, (s'.task t).totalQuantum = (s.task t).totalQuantum := by
  obtain ⟨op, ebp⟩ := e
  obtain rfl : op = .clock := he
  let s0 : Kernel := { s.userToSystem.setInterrupted s.current true with zeosTicks := s.zeosTicks + 1 }
  have hcore : ∀ t, (s0.task t).core = (s.task t).core := updateStats_core s s.current .user
  have hquant : ∀ t ∈ u.cycle, (s0.task t).totalQuantum = quantum t := fun t ht =>
    (congrArg TaskCore.totalQuantum (hcore t)).trans (hq t ht)
  obtain ⟨s1, e1, hu, hcase⟩ := schedule_serving (s := s0) (h.serving.congr rfl rfl hcore) ebp
  have hstep : s.step ⟨.clock, ebp⟩ = some s1.resume := by
    have : s.clockHandler ebp = some s1 := e1
    simp [step, handle, this]
  obtain ⟨hrc, hrr⟩ := resume_rest s1
  have hrq : ∀ t, (s1.resume.task t).totalQuantum = (s.task t).totalQuantum := fun t =>
    (congrArg TaskCore.totalQuantum (resume_core s1 t)).trans
      ((hu t).trans (congrArg TaskCore.totalQuantum (hcore t)))
  refine ⟨s1.resume, hstep, ?_, hrq⟩
  have hrem : s0.remainingQuantum = u.left := h.left
  have hcur : s0.current = u.current := h.current
  unfold Turns.tick
  rcases hcase with ⟨hr, hs, hc, hn⟩ | ⟨hr, hts, hs, hc, hn⟩ | ⟨hr, t, us, hts, hs, hc, hn⟩
  · rw [if_pos (by omega)]
    exact ⟨resume_serving hs, hrc.trans (hc.trans hcur), by rw [hrr, hn]; dsimp only; omega⟩
  · rw [if_neg (by omega)]
    simp only [hts]
    refine ⟨resume_serving ?_, hrc.trans (hc.trans hcur), by rw [hrr, hn, hcur]; exact hquant _ (by simp [Turns.St.cycle])⟩
    simpa only [hts] using hs
  · rw [if_neg (by omega)]
    simp only [hts]
    exact ⟨resume_serving (hcur ▸ hs), hrc.trans hc, 
      by rw [hrr, hn]; exact hquant t (by simp [Turns.St.cycle, hts])⟩

theorem Turning.exec {quantum : TaskId → Nat} : ∀ {es : List Event} {s : Kernel} {u : Turns.St TaskId},
    s.Turning u → (∀ t ∈ u.cycle, 1 ≤ quantum t) → 1 ≤ u.left → u.left ≤ quantum u.current →
    (∀ t ∈ u.cycle, (s.task t).totalQuantum = quantum t) → (∀ e ∈ es, e.op = .clock) →
    ∃ s', Runs.exec step s es = some s' ∧ s'.Turning ((Turns.tick quantum)^[es.length] u) ∧
      1 ≤ s'.remainingQuantum ∧ s'.remainingQuantum ≤ (s'.task s'.current).totalQuantum
  | [], s, u, h, _, hl, hl', hq, _ => by
    refine ⟨s, rfl, h, by rw [h.left]; omega, ?_⟩
    rw [h.left, h.current, hq _ (by simp [Turns.St.cycle])]
    omega
  | e :: es, s, u, h, hpos, hl, hl', hq, hes => by
    obtain ⟨s1, e1, h1, hq1⟩ := h.tick hl hq (hes e List.mem_cons_self)
    obtain ⟨hl1, hl1'⟩ := Turns.tick_bounds hpos hl'
    obtain ⟨s2, e2, h2⟩ := h1.exec (fun t ht => hpos t (Turns.mem_tick_cycle.mp ht)) hl1 hl1'
      (fun t ht => (hq1 t).trans (hq t (Turns.mem_tick_cycle.mp ht)))
      fun e he => hes e (List.mem_cons_of_mem _ he)
    exact ⟨s2, exec_cons.mpr ⟨s1, e1, e2⟩, h2⟩

end

end Kernel

theorem Reachable.serving {mc : Machine} {s : Kernel} (h : Reachable mc s) : ∃ ts, s.Serving ts := by
  obtain ⟨a, h, g⟩ := h.rep
  refine ⟨a.queue .readyqueue, rings_congr_seq (rings_mono h.rings (Set.subset_univ _)) fun i hi => ?_, ?_, ?_⟩
  · rw [Set.mem_singleton_iff.mp hi]
  · rw [h.current]; exact g.current _
  · exact (congrArg TaskCore.state h.cur).trans g.run

/-- With the ready queue `ts`, and `r` ticks left to the task `c`: `c` runs for the first `r - 1`
ticks, then the turns go through `ts ++ [c]` for ever, each as long as the quantum of its task,
and the ready queue is the rest of the cycle. -/
theorem round_robin {s : Kernel} {ts : List TaskId} (h : s.Serving ts) (hr : 1 ≤ s.remainingQuantum)
    (hr' : s.remainingQuantum ≤ s.getQuantum s.current) (hq : ∀ t ∈ ts ++ [s.current], 1 ≤ s.getQuantum t)
    {es : List Kernel.Event} (hes : ∀ e ∈ es, e.op = .clock) :
    let u : Turns.St TaskId := ⟨s.current, ts, s.remainingQuantum.toNat⟩
    let quantum : TaskId → Nat := fun t => (s.getQuantum t).toNat
    ∃ s', exec Kernel.step s es = some s' ∧
      1 ≤ s'.remainingQuantum ∧ s'.remainingQuantum ≤ s'.getQuantum s'.current ∧
      (es.length < u.left → s'.current = s.current ∧ s'.Serving ts) ∧
      (∀ j k, k < quantum (u.turn j) → es.length = u.left + u.elapsed quantum j + k →
        u.cycle[j % u.cycle.length]? = some s'.current ∧ s'.Serving (u.rest j) ∧
          s'.remainingQuantum = s.getQuantum s'.current - k) ∧
      (u.left ≤ es.length → ∃ j k, k < quantum (u.turn j) ∧ es.length = u.left + u.elapsed quantum j + k) := by
  intro u quantum
  have hpos : ∀ t ∈ u.cycle, 1 ≤ quantum t := fun t ht => by have := hq t ht; simp only [quantum]; omega
  have hcast : ∀ t ∈ u.cycle, s.getQuantum t = quantum t := fun t ht => by have := hq t ht; simp only [quantum]; omega
  have hu : s.Turning u := ⟨h, rfl, by simp only [u]; omega⟩
  have hl : 1 ≤ u.left := by simp only [u]; omega
  have hl' : u.left ≤ quantum u.current := Int.toNat_le_toNat hr'
  obtain ⟨s', hes', hs', h1, h2⟩ := hu.exec hpos hl hl' hcast hes
  refine ⟨s', hes', h1, h2, fun hm => ?_, fun j k hk hm => ?_, fun hm => ?_⟩
  · rw [Turns.iterate_tick_lt hm] at hs'
    exact ⟨hs'.current, hs'.serving⟩
  · rw [hm, Turns.iterate_tick_turn hpos hl hk] at hs'
    have hc : s'.current = u.turn j := hs'.current
    refine ⟨hc ▸ Turns.turn_eq_getElem u j, hs'.serving, ?_⟩
    rw [hs'.left, hc, hcast _ (Turns.turn_mem u j)]
    dsimp only
    omega
  · obtain ⟨j, k, hk, e⟩ := Turns.exists_turn hpos (es.length - u.left)
    exact ⟨j, k, hk, by omega⟩

/-- Task 1 makes a thread; after 25 ticks it is halfway through its second turn. -/
theorem round_robin_two : ∃ s s', Kernel.step (Kernel.boot .blank) ⟨.threadCreate 0x100000 0 0x100000, 0⟩ = some s ∧
    exec Kernel.step s (List.replicate 25 ⟨.clock, 0⟩) = some s' ∧
    s'.current = 1 ∧ s'.Serving [2] ∧ s'.remainingQuantum = 5 := by
  have hrun : (Kernel.step (Kernel.boot .blank) ⟨.threadCreate 0x100000 0 0x100000, 0⟩).any (fun s => decide
      (s.Serving [2] ∧ s.current = 1 ∧ s.remainingQuantum = 10 ∧ s.getQuantum 1 = 10 ∧ s.getQuantum 2 = 10)) = true := by
    decide +kernel
  obtain ⟨s, hs, hd⟩ := (Option.any_eq_true _ _).mp hrun
  obtain ⟨hserv, hc, hr, h1, h2⟩ := of_decide_eq_true hd
  have hq : ∀ t ∈ [2] ++ [s.current], 1 ≤ s.getQuantum t := by
    rw [hc]
    intro t ht
    rcases List.mem_cons.mp ht with rfl | ht
    · rw [h2]; decide
    · rw [List.mem_singleton.mp ht, h1]; decide
  obtain ⟨s', he, -, -, -, hturn, -⟩ := round_robin hserv (by omega) (by rw [hr, hc, h1]) hq
    (show ∀ e ∈ List.replicate 25 (⟨.clock, 0⟩ : Kernel.Event), e.op = .clock from fun e he => by
      rw [List.eq_of_mem_replicate he])
  have hu : (⟨s.current, [2], s.remainingQuantum.toNat⟩ : Turns.St TaskId) = ⟨1, [2], 10⟩ := by rw [hc, hr]; rfl
  rw [hu] at hturn
  have h1' : (s.getQuantum 1).toNat = 10 := congrArg Int.toNat h1
  have h2' : (s.getQuantum 2).toNat = 10 := congrArg Int.toNat h2
  obtain ⟨hcur, hs', hr'⟩ := hturn 1 5 (h1'.symm ▸ (by decide : 5 < 10)) (by
    rw [Turns.elapsed_succ]
    exact (congrArg (fun n => 10 + (0 + n) + 5) h2').symm)
  have hone : s'.current = 1 := (Option.some.inj hcur).symm
  rw [hone, h1] at hr'
  exact ⟨s, s', hs, he, hone, hs', hr'⟩

end ZeosSOA.Sysenter
