import ZeosSOA.Pparri.Tree

/-!
# zeOSpparri: preemption

`update_sched_data_rr` takes a tick from the running task whether anybody waits or not, and
`needs_sched_rr` asks for exactly 0. The running task is preempted as long as its ticks have not
run out at the moment somebody becomes ready: below 0 they go down to `INT_MIN`, and from there
on wrap round.
-/

namespace ZeosSOA.Pparri

open Intrusive Runs

def queues : Set Queue := {.freequeue, .readyqueue, .blocked}

namespace Kernel

/-- The event makes a task ready: a `sys_fork` that finds a struct, a `sys_unblock` that finds a blocked task. -/
def MakesReady (s : Kernel) (e : Event) : Prop :=
  e.op = .fork ∧ s.listEmpty .freequeue = false ∨ ∃ pid t, e.op = .unblock pid ∧
    s.unblockTarget pid e.foreign = some (some t) ∧ (s.task t).status = .blocked

def InTime (s : Kernel) (e : Event) : Prop :=
  s.MakesReady e → 1 ≤ s.qticks ∧ s.qticks ≤ (s.task s.current).quantum

/-- A `sys_fork` that finds a struct does not touch the queues through the head of the kids of its caller: the last
node there is the head itself, or the node at the end of the readyqueue. -/
def KeepsQueues (s : Kernel) (e : Event) : Prop :=
  e.op = .fork → s.listEmpty .freequeue = false →
    s.links.prev (.head (.kids s.current)) = some (.head (.kids s.current)) ∨
      s.links.prev (.head (.kids s.current)) = s.links.prev (.head .readyqueue)

/-! ## The queues of the scheduler -/

/-- The three queues have the members `q`: the tasks in the readyqueue are ready, the blocked ones are in the queue
`blocked`, and idle is in none. -/
structure Queued (s : Kernel) (q : Queue → List TaskId) : Prop where
  rings : s.links.Rings queues q
  idleTask : s.idleTask = some 9
  idle : (∀ i ∈ queues, 9 ∉ q i) ∧ (s.task 9).status = .ready
  ready : ∀ t ∈ q .readyqueue, (s.task t).status = .ready
  blocked : ∀ t, (s.task t).status = .blocked → t ∈ q .blocked
  quantum : ∀ t, t ∉ q .freequeue → (s.task t).quantum = 1000

/-- Between two events the current task is in none of them, and idle only runs when nobody is ready. -/
structure Scheduled (s : Kernel) (q : Queue → List TaskId) : Prop extends Queued s q where
  running : ∀ i ∈ queues, s.current ∉ q i
  status : s.current = 9 ∧ q .readyqueue = [] ∨ (s.task s.current).status = .run
  ticks : -2 ^ 31 ≤ s.qticks ∧ s.qticks ≤ intMax

section
variable {s s' : Kernel} {q : Queue → List TaskId}

theorem mem_queues {i : Queue} : i ∈ queues ↔ i = .freequeue ∨ i = .readyqueue ∨ i = .blocked := by simp [queues]

theorem readyqueue_mem : Queue.readyqueue ∈ queues := mem_queues.mpr (.inr (.inl rfl))

theorem blocked_mem : Queue.blocked ∈ queues := mem_queues.mpr (.inr (.inr rfl))

theorem freequeue_mem : Queue.freequeue ∈ queues := mem_queues.mpr (.inl rfl)

theorem kids_not_mem (t : TaskId) : Queue.kids t ∉ queues := by simp [queues]

theorem Queued.members (h : Queued s q) {i : Queue} (hi : i ∈ queues) : s.members i = q i :=
  rings_elems h.rings hi ((h.rings.nodup i hi).length_le_card.trans (by rw [Fintype.card_fin]; decide))

theorem Queued.congr (h : Queued s q) (hl : s'.links = s.links) (hi : s'.idleTask = s.idleTask)
    (ht : ∀ t, (s'.task t).status = (s.task t).status ∧ (s'.task t).quantum = (s.task t).quantum) : Queued s' q := by
  refine ⟨hl ▸ h.rings, hi.trans h.idleTask, ⟨h.idle.1, (ht 9).1.trans h.idle.2⟩, fun t hm => ?_, fun t hst => ?_,
    fun t hm => ?_⟩
  · rw [(ht t).1]
    exact h.ready t hm
  · rw [(ht t).1] at hst
    exact h.blocked t hst
  · rw [(ht t).2]
    exact h.quantum t hm

theorem Queued.put (h : Queued s q) {t : TaskId} (hout : ∀ j ∈ queues, t ∉ q j) (hidle : t ≠ 9) {i : Queue} (hi : i ∈ queues)
    (st : TaskState) (hready : i = .readyqueue → st = .ready) (hblocked : st = .blocked → i = .blocked) :
    ∃ l, ZeosSOA.listAddTail s.links (.anchor t) (.head i) = some l ∧
      Queued ({ s with links := l }.setStatus t st) (Function.update q i (q i ++ [t])) := by
  obtain ⟨l, hl, hr⟩ := listAddTail_rings h.rings hout hi
  have hother : ∀ u, u ≠ t → ({ s with links := l }.setStatus t st).task u = s.task u := fun u hu =>
    Function.update_of_ne hu _ _
  have hself : ({ s with links := l }.setStatus t st).task t = { s.task t with status := st } :=
    Function.update_self _ _ _
  have hmem : ∀ u j, u ∈ Function.update q i (q i ++ [t]) j ↔ u ∈ q j ∨ j = i ∧ u = t := by
    intro u j
    by_cases e : j = i
    · subst e; simp
    · simp [e]
  refine ⟨l, hl, hr, h.idleTask, ⟨fun j hj => ?_, ?_⟩, fun u hu => ?_, fun u hu => ?_, fun u hu => ?_⟩
  · rw [hmem]
    rintro (hm | ⟨-, e⟩)
    · exact h.idle.1 j hj hm
    · exact hidle e.symm
  · rw [hother 9 hidle.symm]
    exact h.idle.2
  · rw [hmem] at hu
    by_cases e : u = t
    · subst e
      rw [hself]
      rcases hu with hm | ⟨e, -⟩
      · exact absurd hm (hout _ readyqueue_mem)
      · exact hready e.symm
    · rw [hother u e]
      exact h.ready u (hu.resolve_right fun hn => e hn.2)
  · rw [hmem]
    by_cases e : u = t
    · subst e
      rw [hself] at hu
      exact .inr ⟨(hblocked hu).symm, rfl⟩
    · rw [hother u e] at hu
      exact .inl (h.blocked u hu)
  · rw [hmem, not_or] at hu
    by_cases e : u = t
    · subst e
      rw [hself]
      exact h.quantum u hu.1
    · rw [hother u e]
      exact h.quantum u hu.1

theorem Queued.take (h : Queued s q) {i : Queue} (hi : i ∈ queues) (hfree : i ≠ .freequeue) {t : TaskId}
    {xs ys : List TaskId} (hq : q i = xs ++ t :: ys) (st : TaskState) (hst : st ≠ .blocked) :
    ∃ l, ZeosSOA.listDel s.links (.anchor t) = some l ∧
      Queued ({ s with links := l }.setStatus t st) (Function.update q i (xs ++ ys)) ∧
      ∀ j ∈ queues, t ∉ Function.update q i (xs ++ ys) j := by
  obtain ⟨l, hl, hr⟩ := listDel_rings h.rings hi hq
  have hmem : t ∈ q i := by rw [hq]; simp
  have hidle : 9 ≠ t := fun e => h.idle.1 i hi (e ▸ hmem)
  have hother : ∀ u, u ≠ t → ({ s with links := l }.setStatus t st).task u = s.task u := fun u hu =>
    Function.update_of_ne hu _ _
  have hself : ({ s with links := l }.setStatus t st).task t = { s.task t with status := st } :=
    Function.update_self _ _ _
  have hsub : ∀ u j, u ∈ Function.update q i (xs ++ ys) j → u ∈ q j := by
    intro u j hu
    by_cases e : j = i
    · subst e
      rw [Function.update_self] at hu
      rw [hq]
      exact ((List.sublist_cons_self t ys).append_left xs).subset hu
    · rwa [Function.update_of_ne e] at hu
  have hout : ∀ j ∈ queues, t ∉ Function.update q i (xs ++ ys) j := by
    intro j hj hu
    by_cases e : j = i
    · subst e
      rw [Function.update_self] at hu
      have hn := h.rings.nodup j hi
      rw [hq] at hn
      exact (List.nodup_middle.mp hn).notMem hu
    · rw [Function.update_of_ne e] at hu
      exact e (h.rings.apart j hj i hi t hu hmem)
  refine ⟨l, hl, ⟨hr, h.idleTask, ⟨fun j hj hm => h.idle.1 j hj (hsub 9 j hm), ?_⟩, fun u hu => ?_, fun u hu => ?_,
    fun u hu => ?_⟩, hout⟩
  · rw [hother 9 hidle]
    exact h.idle.2
  · rw [hother u fun e => hout _ readyqueue_mem (e ▸ hu)]
    exact h.ready u (hsub u _ hu)
  · have hne : u ≠ t := by
      rintro rfl
      rw [hself] at hu
      exact hst hu
    rw [hother u hne] at hu
    have hb := h.blocked u hu
    by_cases e : i = .blocked
    · subst e
      rw [Function.update_self]
      rw [hq] at hb
      simpa [hne] using hb
    · rwa [Function.update_of_ne fun hn => e hn.symm]
  · rw [Function.update_of_ne fun hn => hfree hn.symm] at hu
    have hq' := h.quantum u hu
    by_cases e : u = t
    · subst e
      rw [hself]
      exact hq'
    · rw [hother u e]
      exact hq'

/-! ## Scheduling -/

theorem schedNextRr_eq {t : TaskId} (h : s.nextTask = some (t, s')) (ebp : Nat) :
    s.schedNextRr ebp = some ({ s' with qticks := (s'.task t).quantum }.innerTaskSwitch t ebp) := by
  unfold schedNextRr
  rw [h]
  rfl

theorem Queued.switch (h : Queued s q) {t : TaskId} (hout : ∀ i ∈ queues, t ∉ q i)
    (hst : t = 9 ∧ q .readyqueue = [] ∨ (s.task t).status = .run) (ebp : Nat) :
    Scheduled ({ s with qticks := (s.task t).quantum }.innerTaskSwitch t ebp) q ∧
      ({ s with qticks := (s.task t).quantum }.innerTaskSwitch t ebp).qticks = 1000 := by
  have hquantum := h.quantum t (hout _ freequeue_mem)
  have htask : ∀ u, (({ s with qticks := (s.task t).quantum }.innerTaskSwitch t ebp).task u).status = (s.task u).status ∧
      (({ s with qticks := (s.task t).quantum }.innerTaskSwitch t ebp).task u).quantum = (s.task u).quantum := by
    intro u
    by_cases e : u = s.current
    · subst e; simp [innerTaskSwitch, modTask]
    · simp [innerTaskSwitch, modTask, e]
  refine ⟨⟨h.congr rfl rfl htask, hout, ?_, ?_⟩, hquantum⟩
  swap
  · change -2 ^ 31 ≤ (s.task t).quantum ∧ (s.task t).quantum ≤ intMax
    rw [hquantum]
    decide
  rcases hst with hidle | hrun
  · exact .inl hidle
  · exact .inr ((htask t).1.trans hrun)

theorem Queued.next (h : Queued s q) (ebp : Nat) : ∃ s' q', s.schedNextRr ebp = some s' ∧ Scheduled s' q' ∧
    s'.qticks = 1000 ∧ ∀ t ts, q .readyqueue = t :: ts → s'.current = t ∧ q' .readyqueue = ts := by
  cases hq : q .readyqueue with
  | nil =>
    have hempty := (listEmpty_rings h.rings readyqueue_mem).mpr hq
    obtain ⟨hs, ht⟩ := h.switch h.idle.1 (.inl ⟨rfl, hq⟩) ebp
    exact ⟨_, q, schedNextRr_idle hempty h.idleTask ebp, hs, ht, nofun⟩
  | cons t ts =>
    have hempty : ¬ s.listEmpty .readyqueue = true := fun he =>
      List.cons_ne_nil t ts (hq.symm.trans ((listEmpty_rings h.rings readyqueue_mem).mp he))
    have hfirst : s.listFirst .readyqueue = some (.anchor t) := listFirst_rings h.rings readyqueue_mem hq
    have hmem : t ∈ q .readyqueue := by rw [hq]; exact List.mem_cons_self
    have hq' : q .readyqueue = [] ++ t :: ts := hq
    obtain ⟨l, hl, hd, hout⟩ := h.take readyqueue_mem nofun hq' .run nofun
    have hupdate : s.updateProcessStateRr t none = some ({ s with links := l }.setStatus t .run) := by
      simp only [updateProcessStateRr, h.ready t hmem, listDel, hl]
      rfl
    have hnext : s.nextTask = some (t, { s with links := l }.setStatus t .run) := by
      unfold nextTask
      rw [if_pos hempty, hfirst]
      change (s.updateProcessStateRr t none).bind _ = _
      rw [hupdate]
      rfl
    obtain ⟨hs, ht⟩ := hd.switch hout (.inr (by simp [setStatus, modTask])) ebp
    refine ⟨_, _, schedNextRr_eq hnext ebp, hs, ht, fun t' ts' e => ?_⟩
    obtain ⟨rfl, rfl⟩ := List.cons.inj e
    exact ⟨rfl, Function.update_self _ _ _⟩

/-! ## Clock interrupts -/

theorem Scheduled.notBlocked (h : Scheduled s q) : (s.task s.current).status ≠ .blocked := by
  rcases h.status with ⟨hc, -⟩ | hrun
  · rw [hc, h.idle.2]
    nofun
  · rw [hrun]
    nofun

theorem Scheduled.tick (h : Scheduled s q) (hn : s.qticks ≠ 1 ∨ q .readyqueue = []) (ebp : Nat) :
    s.clockRoutine ebp = some { s with zeosTicks := s.zeosTicks + 1, qticks := toInt32 (s.qticks - 1) } := by
  have hticks := h.ticks
  have hneeds : ({ s with zeosTicks := s.zeosTicks + 1 }.updateSchedDataRr).needsSchedRr = false := by
    unfold needsSchedRr
    rw [decide_eq_false_iff_not]
    rintro (⟨ht, hne⟩ | hb)
    · rcases hn with hn | hn
      · exact hn (by simp only [updateSchedDataRr, toInt32, intMax] at ht hticks; omega)
      · exact hne ((listEmpty_rings h.rings readyqueue_mem).mpr hn)
    · exact h.notBlocked hb
  unfold clockRoutine scheduler
  simp only [hneeds]
  rfl

theorem Scheduled.ticked (h : Scheduled s q) (n : Nat) (m : Int) :
    Scheduled { s with zeosTicks := n, qticks := toInt32 m } q :=
  ⟨h.toQueued.congr rfl rfl fun _ => ⟨rfl, rfl⟩, h.running, h.status, toInt32_range m⟩

theorem Scheduled.preempt (h : Scheduled s q) {t : TaskId} {ts : List TaskId} (hq : q .readyqueue = t :: ts)
    (hone : s.qticks = 1) (ebp : Nat) : ∃ s' q', s.clockRoutine ebp = some s' ∧ Scheduled s' q' ∧ s'.qticks = 1000 ∧
      s'.current = t ∧ q' .readyqueue = ts ++ [s.current] := by
  have hrun : (s.task s.current).status = .run := h.status.resolve_left fun hn => by rw [hq] at hn; cases hn.2
  have hidle : s.current ≠ 9 := by
    intro e
    rw [e, h.idle.2] at hrun
    cases hrun
  have hs := (h.ticked (s.zeosTicks + 1) (s.qticks - 1)).toQueued
  obtain ⟨l, hl, hp⟩ := hs.put h.running hidle readyqueue_mem .ready (fun _ => rfl) nofun
  obtain ⟨s', q', hnext, h', ht, hhead⟩ := hp.next ebp
  obtain ⟨hcur, hq'⟩ := hhead t (ts ++ [s.current]) (by rw [Function.update_self, hq]; rfl)
  refine ⟨s', q', ?_, h', ht, hcur, hq'⟩
  have hneeds : ({ s with zeosTicks := s.zeosTicks + 1 }.updateSchedDataRr).needsSchedRr = true := by
    unfold needsSchedRr
    rw [decide_eq_true_iff]
    refine .inl ⟨?_, fun he => ?_⟩
    · simp only [updateSchedDataRr, hone]
      decide
    · rw [show q .readyqueue = [] from (listEmpty_rings h.rings readyqueue_mem).mp he] at hq
      cases hq
  unfold clockRoutine scheduler
  simp only [hneeds, if_true]
  rw [← hnext]
  have hl' : ZeosSOA.listAddTail s.links (.anchor s.current) (.head .readyqueue) = some l := hl
  simp only [updateProcessStateRr, updateSchedDataRr, hrun, listAddTail, hl', Option.bind_eq_bind, Option.bind_some,
    Option.pure_def]

/-! ## System calls -/

theorem adoptKids_null (s : Kernel) (fuel : Nat) : adoptKids fuel s none = none := by
  cases fuel <;> rfl

/-- A round of the loop takes the cursor out of its list before the next one is read from it, which is null then. -/
theorem adoptKids_ne {fuel : Nat} {e : ListHead} (he : e ≠ .head (.kids s.current)) : adoptKids fuel s (some e) = none := by
  apply Option.eq_none_iff_forall_ne_some.mpr
  intro s' h
  cases fuel with
  | zero => cases h
  | succ fuel =>
    rw [adoptKids, Option.bind_eq_bind, Option.bind_some, if_neg he] at h
    obtain ⟨idle, -, h⟩ := Option.bind_eq_some_iff.mp h
    obtain ⟨s1, -, h⟩ := Option.bind_eq_some_iff.mp h
    obtain ⟨t, -, h⟩ := Option.bind_eq_some_iff.mp h
    obtain ⟨s2, h2, h⟩ := Option.bind_eq_some_iff.mp h
    obtain ⟨l, hl, rfl⟩ := listDel_some h2
    have hnull : l.next e = none := by
      obtain ⟨a, -, hl⟩ := Option.bind_eq_some_iff.mp hl
      obtain ⟨b, -, hl⟩ := Option.bind_eq_some_iff.mp hl
      cases hl
      simp
    change adoptKids _ _ (l.next e) = some s' at h
    rw [hnull, adoptKids_null] at h
    cases h

theorem adoptKids_head (s : Kernel) : adoptKids listNodes s (some (.head (.kids s.current))) = some s := if_pos rfl

/-- `sys_exit` comes back only when there are no kids to leave. -/
theorem leaveKids_some (h : s.leaveKids = some s') : s' = s := by
  unfold leaveKids at h
  split at h
  · cases h
    rfl
  · rename_i e _
    by_cases he : e = .head (.kids s.current)
    · rw [he, adoptKids_head] at h
      cases h
      rfl
    · rw [adoptKids_ne he] at h
      cases h

theorem Scheduled.exit (h : Scheduled s q) (hidle : s.current ≠ 9) {ebp : Nat} (hs : s.sysExit ebp = some s') :
    ∃ q', Scheduled s' q' ∧ s'.qticks = 1000 := by
  obtain ⟨pt, -, hs⟩ := Option.bind_eq_some_iff.mp hs
  obtain ⟨s1, h1, hs⟩ := Option.bind_eq_some_iff.mp hs
  obtain ⟨s2, h2, hs⟩ := Option.bind_eq_some_iff.mp hs
  obtain rfl := leaveKids_some h1
  obtain ⟨l, hl, rfl⟩ := listAddTail_some h2
  have hrun : (s1.task s1.current).status ≠ .blocked := h.notBlocked
  obtain ⟨l', hl', hp⟩ := h.toQueued.put h.running hidle freequeue_mem (s1.task s1.current).status nofun
    fun e => absurd e hrun
  obtain rfl : l' = l := Option.some.inj (hl'.symm.trans hl)
  have hq : Queued { s1.setMm (releaseData pt s1.mm) with links := l' } (Function.update q .freequeue
      (q .freequeue ++ [s1.current])) := by
    refine hp.congr rfl rfl fun t => ?_
    rw [setStatus_self (s := { s1 with links := l' }) rfl]
    exact ⟨rfl, rfl⟩
  obtain ⟨s'', q', hnext, h', ht, -⟩ := hq.next ebp
  obtain rfl : s'' = s' := Option.some.inj (hnext.symm.trans hs)
  exact ⟨q', h', ht⟩

theorem scheduler_away (hst : (s.task s.current).status = .blocked) (ebp : Nat) :
    s.scheduler ebp = s.updateSchedDataRr.schedNextRr ebp := by
  have hst' : (s.updateSchedDataRr.task s.updateSchedDataRr.current).status = .blocked := hst
  have hn : s.updateSchedDataRr.needsSchedRr = true := by simp [needsSchedRr, hst']
  unfold scheduler
  simp only [hn, if_true, updateProcessStateRr, hst']
  rfl

theorem Scheduled.block (h : Scheduled s q) (hidle : s.current ≠ 9) {ebp : Nat} (hs : s.sysBlock ebp = some s') :
    ∃ q', Scheduled s' q' ∧ (s'.qticks = 1000 ∨ q' = q ∧ s'.qticks = s.qticks) := by
  unfold sysBlock at hs
  split at hs
  · obtain ⟨s1, h1, hs⟩ := Option.bind_eq_some_iff.mp hs
    obtain ⟨l, hl, rfl⟩ := listAddTail_some h1
    obtain ⟨l', hl', hp⟩ := h.toQueued.put h.running hidle blocked_mem .blocked nofun fun _ => rfl
    obtain rfl : l' = l := Option.some.inj (hl'.symm.trans hl)
    have hst : ((s.setStatus s.current .blocked).task s.current).status = .blocked := by simp [setStatus, modTask]
    rw [scheduler_away (s := { s.setStatus s.current .blocked with links := l' }) hst] at hs
    have hq : Queued { s.setStatus s.current .blocked with links := l' }.updateSchedDataRr _ :=
      hp.congr rfl rfl fun _ => ⟨rfl, rfl⟩
    obtain ⟨s'', q', hnext, h', ht, -⟩ := hq.next ebp
    obtain rfl : s'' = s' := Option.some.inj (hnext.symm.trans hs)
    exact ⟨q', h', .inl ht⟩
  · cases hs
    refine ⟨q, ⟨h.toQueued.congr rfl rfl fun t => ?_, h.running, ?_, h.ticks⟩, .inr ⟨rfl, rfl⟩⟩
    · by_cases e : t = s.current
      · subst e; simp [modTask]
      · simp [modTask, e]
    · simpa [modTask] using h.status

theorem Scheduled.unblock (h : Scheduled s q) (hidle : s.current ≠ 9) {pid : Int} {foreign : Queue → Int}
    {r : Int × Kernel} (hs : s.sysUnblock pid foreign = some r) : r.2.qticks = s.qticks ∧
      ((∃ t, s.unblockTarget pid foreign = some (some t) ∧ (s.task t).status = .blocked ∧
          ∃ q', Scheduled r.2 q' ∧ q' .readyqueue ≠ []) ∨
        (∀ t, s.unblockTarget pid foreign = some (some t) → (s.task t).status ≠ .blocked) ∧ Scheduled r.2 q) := by
  obtain ⟨_ | t, ht, hs⟩ := Option.bind_eq_some_iff.mp hs
  · cases hs
    exact ⟨rfl, .inr ⟨fun t e => (nomatch (ht.symm.trans e : some none = some (some t))), h⟩⟩
  dsimp only at hs
  split at hs
  · rename_i hst
    obtain ⟨s1, h1, hs⟩ := Option.bind_eq_some_iff.mp hs
    obtain ⟨s2, h2, hs⟩ := Option.bind_eq_some_iff.mp hs
    cases hs
    obtain ⟨l1, hl1, rfl⟩ := listDel_some h1
    obtain ⟨l2, hl2, rfl⟩ := listAddTail_some h2
    obtain ⟨xs, ys, hq⟩ := List.append_of_mem (h.blocked t hst)
    obtain ⟨l, hl, hd, hout⟩ := h.toQueued.take blocked_mem nofun hq .ready nofun
    obtain rfl : l = l1 := Option.some.inj (hl.symm.trans hl1)
    have hmem : t ∈ q .blocked := by rw [hq]; simp
    have hne : t ≠ 9 := fun e => h.idle.1 _ blocked_mem (e ▸ hmem)
    have hcur : s.current ≠ t := fun e => h.running _ blocked_mem (e ▸ hmem)
    obtain ⟨l', hl', hp⟩ := hd.put hout hne readyqueue_mem .ready (fun _ => rfl) nofun
    obtain rfl : l' = l2 := Option.some.inj (hl'.symm.trans hl2)
    refine ⟨rfl, .inl ⟨t, ht, hst, _, ⟨hp.congr rfl rfl fun u => ?_, fun i hi hm => ?_, ?_, h.ticks⟩, ?_⟩⟩
    · by_cases e : u = t
      · subst e; simp [setStatus, modTask]
      · simp [setStatus, modTask, e]
    · change s.current ∈ _ at hm
      by_cases e : i = .readyqueue
      · subst e
        have := h.running _ readyqueue_mem
        simp_all
      · rw [Function.update_of_ne e] at hm
        by_cases e' : i = .blocked
        · subst e'
          have := h.running _ blocked_mem
          simp_all
        · rw [Function.update_of_ne e'] at hm
          exact h.running i hi hm
    · refine .inr ?_
      change ((s.setStatus t .ready).task s.current).status = .run
      rw [show (s.setStatus t .ready).task s.current = s.task s.current from Function.update_of_ne hcur _ _]
      exact h.status.resolve_left fun hn => hidle hn.1
    · simp
  · rename_i hst
    cases hs
    refine ⟨rfl, .inr ⟨fun u e => ?_, h.toQueued.congr rfl rfl fun u => ?_, h.running, ?_, h.ticks⟩⟩
    · obtain rfl : t = u := Option.some.inj (Option.some.inj (ht.symm.trans e))
      exact hst
    · by_cases e : u = s.current
      · subst e; simp [modTask]
      · simp [modTask, e]
    · simpa [modTask] using h.status

/-- The sequences after a `sys_fork` that takes the struct `t`, the first of the free ones. -/
def spawned (q : Queue → List TaskId) (t : TaskId) (ts : List TaskId) : Queue → List TaskId :=
  Function.update (Function.update q .freequeue ts) .readyqueue (q .readyqueue ++ [t])

theorem mem_spawned {t u : TaskId} {ts : List TaskId} (hq : q .freequeue = t :: ts) {i : Queue} (hu : u ∈ spawned q t ts i) :
    u ∈ q i ∨ u = t := by
  unfold spawned at hu
  by_cases e : i = .readyqueue
  · subst e
    simpa using hu
  · rw [Function.update_of_ne e] at hu
    by_cases e' : i = .freequeue
    · subst e'
      rw [hq]
      exact .inl (List.mem_cons_of_mem _ (by simpa using hu))
    · rw [Function.update_of_ne e'] at hu
      exact .inl hu

/-- The struct `t` is taken from the freequeue, its own words are written over, and its anchor is linked in the kids
of the current task and then in the readyqueue. -/
theorem Scheduled.spawn_rings (h : Scheduled s q) {t : TaskId} {ts : List TaskId} (hq : q .freequeue = t :: ts)
    (hk : s.links.prev (.head (.kids s.current)) = some (.head (.kids s.current)) ∨
      s.links.prev (.head (.kids s.current)) = s.links.prev (.head .readyqueue))
    {l l₀ l₁ l₂ : Links Queue TaskId} (hl : ZeosSOA.listDel s.links (.anchor t) = some l)
    (hwords : ∀ c, c ≠ .anchor t → c ≠ .head (.kids t) → l₀.next c = l.next c ∧ l₀.prev c = l.prev c)
    (hl₁ : ZeosSOA.listAddTail l₀ (.anchor t) (.head (.kids s.current)) = some l₁)
    (hl₂ : ZeosSOA.listAddTail l₁ (.anchor t) (.head .readyqueue) = some l₂) : l₂.Rings queues (spawned q t ts) := by
  have hmem : t ∈ q .freequeue := by rw [hq]; exact List.mem_cons_self
  have hcur : s.current ≠ t := fun e => h.running _ freequeue_mem (e ▸ hmem)
  have hq' : q .freequeue = [] ++ t :: ts := hq
  obtain ⟨l', hl', hr⟩ := listDel_rings h.rings freequeue_mem hq'
  obtain rfl : l' = l := Option.some.inj (hl'.symm.trans hl)
  have hout : ∀ i ∈ queues, t ∉ Function.update q .freequeue ts i := by
    intro i hi hm
    by_cases e : i = .freequeue
    · subst e
      have hn := h.rings.nodup _ hi
      rw [hq] at hn
      rw [Function.update_self] at hm
      exact (List.nodup_cons.mp hn).1 hm
    · rw [Function.update_of_ne e] at hm
      exact e (h.rings.apart i hi _ freequeue_mem t hm hmem)
  have hr₀ : l₀.Rings queues (Function.update q .freequeue ts) := by
    refine rings_congr hr fun i hi c hc => hwords c ?_ ?_
    · rintro rfl
      exact anchor_not_mem_cycle (hout i hi) hc
    · rintro rfl
      have : Queue.kids t = i := by simpa [cycle] using hc
      exact kids_not_mem t (this ▸ hi)
  have hframe : ∀ i, i ≠ .freequeue → i ≠ .kids t → l₀.prev (.head i) = s.links.prev (.head i) := by
    intro i h1 h2
    rw [(hwords (.head i) (by simp) fun e => h2 (Node.head.inj e)).2]
    refine (listDel_frame h.rings freequeue_mem hq' hl fun hm => h1 ?_).2
    simpa [cycle] using hm
  have hkids := hframe (.kids s.current) (by simp) fun e => hcur (Queue.kids.inj e)
  have hready := hframe .readyqueue (by simp) (by simp)
  have := listAddTail_twice (k := .kids s.current) hr₀ hout readyqueue_mem (kids_not_mem _) hl₁ hl₂ (by rwa [hkids, hready])
  rwa [Function.update_of_ne (by simp : Queue.readyqueue ≠ .freequeue)] at this

theorem Scheduled.spawn (h : Scheduled s q) (hidle : s.current ≠ 9) {t : TaskId} {ts : List TaskId}
    (hq : q .freequeue = t :: ts) (hr : s'.links.Rings queues (spawned q t ts)) (hc : s'.current = s.current)
    (hi : s'.idleTask = s.idleTask) (hticks : s'.qticks = s.qticks) (hother : ∀ u, u ≠ t → s'.task u = s.task u)
    (hst : (s'.task t).status = .ready) (hquantum : (s'.task t).quantum = 1000) : Scheduled s' (spawned q t ts) := by
  have hmem : t ∈ q .freequeue := by rw [hq]; exact List.mem_cons_self
  have hcur : s.current ≠ t := fun e => h.running _ freequeue_mem (e ▸ hmem)
  have hne : t ≠ 9 := fun e => h.idle.1 _ freequeue_mem (e ▸ hmem)
  refine ⟨⟨hr, hi.trans h.idleTask, ⟨fun i hi hm => ?_, ?_⟩, fun u hu => ?_, fun u hu => ?_, fun u hu => ?_⟩,
    fun i hi hm => ?_, .inr ?_, hticks ▸ h.ticks⟩
  · rcases mem_spawned hq hm with hm | e
    · exact h.idle.1 i hi hm
    · exact hne e.symm
  · rw [hother 9 hne.symm]
    exact h.idle.2
  · by_cases e : u = t
    · rw [e]
      exact hst
    · rw [hother u e]
      exact h.ready u ((mem_spawned hq hu).resolve_right e)
  · have hut : u ≠ t := by
      rintro rfl
      rw [hst] at hu
      cases hu
    rw [hother u hut] at hu
    exact h.blocked u hu
  · by_cases e : u = t
    · rw [e]
      exact hquantum
    · rw [hother u e]
      refine h.quantum u ?_
      rw [hq]
      simpa [e, spawned] using hu
  · rw [hc] at hm
    rcases mem_spawned hq hm with hm | e
    · exact h.running i hi hm
    · exact hcur e
  · rw [hc, hother s.current hcur]
    exact h.status.resolve_left fun hn => hidle hn.1

theorem Scheduled.fork (h : Scheduled s q) (hidle : s.current ≠ 9) (hfree : s.listEmpty .freequeue = false)
    (hk : s.links.prev (.head (.kids s.current)) = some (.head (.kids s.current)) ∨
      s.links.prev (.head (.kids s.current)) = s.links.prev (.head .readyqueue))
    {r : Int × Kernel} (hs : s.sysFork = some r) :
    ∃ q', Scheduled r.2 q' ∧ q' .readyqueue ≠ [] ∧ r.2.qticks = s.qticks := by
  rcases sysFork_cases hs with ⟨hempty, -⟩ | ⟨-, kid, l, dad, mm, hfirst, hl, -, hstart⟩
  · rw [hempty] at hfree
    cases hfree
  cases hq : q .freequeue with
  | nil =>
    rw [show s.listEmpty .freequeue = true from (listEmpty_rings h.rings freequeue_mem).mpr hq] at hfree
    cases hfree
  | cons t ts =>
    have hfirst' := listFirst_rings h.rings freequeue_mem hq
    obtain rfl : t = kid := Node.anchor.inj (Option.some.inj (hfirst'.symm.trans hfirst))
    obtain ⟨l1, hl1, hl2⟩ := hstart.links
    have hr := h.spawn_rings hq hk hl (fun c h1 h2 => by
      simp [setMm, allocateDIR, modTask, copyTaskUnion, ZeosSOA.initListHead, h1, h2]) hl1 hl2
    refine ⟨_, h.spawn hidle hq hr hstart.current hstart.idleTask hstart.qticks (fun u hu => ?_) ?_ ?_, by simp [spawned],
      hstart.qticks⟩
    · rw [hstart.other u hu]
      simp [setMm, allocateDIR, modTask, copyTaskUnion, hu]
    · rw [hstart.self]
    · rw [hstart.self]

/-! ## Events -/

def Counting (s : Kernel) (q : Queue → List TaskId) : Prop := q .readyqueue ≠ [] → 1 ≤ s.qticks ∧ s.qticks ≤ 1000

theorem sysFork_empty (hfree : s.listEmpty .freequeue = true) : s.sysFork = some (-ENOMEM, s) := by
  simp [sysFork, hfree]

/-- One event: the ticks keep counting as long as whoever makes a task ready has ticks left. -/
theorem Scheduled.step (h : Scheduled s q) {e : Event} (hk : s.KeepsQueues e) (hs : s.step e = some s') :
    ∃ q', Scheduled s' q' ∧ (s.InTime e → Counting s q → Counting s' q') ∧ (¬ s.InTime e → ¬ Counting s' q') := by
  obtain ⟨r, hcall, hr, rfl⟩ := step_some hs
  have hidle : e.op ≠ .clock → s.current ≠ 9 := fun hop e9 => call_ne_idle hcall hop (by rw [e9]; exact h.idleTask)
  have hreload : ∀ {q'}, r.2.qticks = 1000 → Counting r.2 q' := fun ht _ => by rw [ht]; decide
  have hsame : ∀ {q'}, r.2.qticks = s.qticks → q' = q → Counting s q → Counting r.2 q' := fun ht eq hcount => by
    rw [eq]
    exact fun hne => ht.symm ▸ hcount hne
  have hquiet : ¬ s.MakesReady e → s.InTime e := fun hn hm => absurd hm hn
  have hquantum := h.quantum s.current (h.running _ freequeue_mem)
  obtain ⟨op, ebp, foreign⟩ := e
  cases op <;> simp only [handle, Option.map_eq_some_iff] at hr
  case clock =>
    have hnot : ¬ s.MakesReady ⟨.clock, ebp, foreign⟩ := by simp [MakesReady]
    obtain ⟨s1, h1, rfl⟩ := hr
    by_cases hlast : s.qticks = 1 ∧ q .readyqueue ≠ []
    · obtain ⟨t, ts, hq⟩ := List.exists_cons_of_ne_nil hlast.2
      obtain ⟨s2, q', h2, h', ht, -⟩ := h.preempt hq hlast.1 ebp
      obtain rfl : s2 = s1 := Option.some.inj (h2.symm.trans h1)
      exact ⟨q', h', fun _ _ => hreload ht, fun hn => absurd (hquiet hnot) hn⟩
    · have hn : s.qticks ≠ 1 ∨ q .readyqueue = [] := by tauto
      rw [h.tick hn] at h1
      cases h1
      refine ⟨q, h.ticked (s.zeosTicks + 1) (s.qticks - 1), fun _ hcount hne => ?_, fun hn => absurd (hquiet hnot) hn⟩
      obtain ⟨hpos, hle⟩ := hcount hne
      have hone := hn.resolve_right hne
      dsimp only
      rw [toInt32_of_range (by omega) (by simp only [intMax]; omega)]
      omega
  case fork =>
    cases hfree : s.listEmpty .freequeue with
    | true =>
      have hnot : ¬ s.MakesReady ⟨.fork, ebp, foreign⟩ := by simp [MakesReady, hfree]
      cases (sysFork_empty hfree).symm.trans hr
      exact ⟨q, h, fun _ hcount => hcount, fun hn => absurd (hquiet hnot) hn⟩
    | false =>
      have hmakes : s.MakesReady ⟨.fork, ebp, foreign⟩ := .inl ⟨rfl, hfree⟩
      obtain ⟨q', h', hne, ht⟩ := h.fork (hidle (by simp)) hfree (hk rfl hfree) hr
      refine ⟨q', h', fun hin _ _ => ?_, fun hn hcount => hn fun _ => ?_⟩
      · rw [ht, ← hquantum]
        exact hin hmakes
      · rw [hquantum, ← ht]
        exact hcount hne
  case exit =>
    have hnot : ¬ s.MakesReady ⟨.exit, ebp, foreign⟩ := by simp [MakesReady]
    obtain ⟨s1, h1, rfl⟩ := hr
    obtain ⟨q', h', ht⟩ := h.exit (hidle (by simp)) h1
    exact ⟨q', h', fun _ _ => hreload ht, fun hn => absurd (hquiet hnot) hn⟩
  case block =>
    have hnot : ¬ s.MakesReady ⟨.block, ebp, foreign⟩ := by simp [MakesReady]
    obtain ⟨s1, h1, rfl⟩ := hr
    obtain ⟨q', h', ht⟩ := h.block (hidle (by simp)) h1
    refine ⟨q', h', fun _ hcount => ?_, fun hn => absurd (hquiet hnot) hn⟩
    rcases ht with ht | ⟨eq, ht⟩
    · exact hreload ht
    · exact hsame ht eq hcount
  case unblock pid =>
    obtain ⟨ht, ⟨t, htarget, hst, q', h', hne⟩ | ⟨hall, h'⟩⟩ := h.unblock (hidle (by simp)) hr
    · have hmakes : s.MakesReady ⟨.unblock pid, ebp, foreign⟩ := .inr ⟨pid, t, rfl, htarget, hst⟩
      refine ⟨q', h', fun hin _ _ => ?_, fun hn hcount => hn fun _ => ?_⟩
      · rw [ht, ← hquantum]
        exact hin hmakes
      · rw [hquantum, ← ht]
        exact hcount hne
    · have hnot : ¬ s.MakesReady ⟨.unblock pid, ebp, foreign⟩ := by
        rintro (⟨hop, -⟩ | ⟨pid', t, hop, htarget, hst⟩)
        · cases hop
        · cases hop
          exact hall t htarget hst
      exact ⟨q, h', fun _ => hsame ht rfl, fun hn => absurd (hquiet hnot) hn⟩

/-! ## Runs -/

end

end Kernel

end ZeosSOA.Pparri
