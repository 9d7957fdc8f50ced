import ZeosSOA.Sysenter.Contexts
import ZeosSOA.Sysenter.Keyboard

/-!
# ZeOSSysenter: where the time spent blocked goes

No call of `update_stats` is about `blocked_ticks`. While a thread is blocked, and while it is ready again, its account
is not touched, and the dispatcher charges the whole time to `ready_ticks`.
-/

namespace ZeosSOA.Sysenter

open Runs

namespace Kernel

/-- Nothing happens to the account of the task `t`. -/
structure Resting (t : TaskId) (s s' : Kernel) : Prop where
  stats : (s'.task t).pStats = (s.task t).pStats
  interrupted : s'.interrupted t = s.interrupted t
  clock : s'.clock = s.clock

/-- The task `t` gets the CPU, and the time since the last reading for it goes to `ready_ticks`. -/
structure Dispatched (t : TaskId) (s s' : Kernel) : Prop where
  current : s'.current = t
  stats : (s'.task t).pStats = { addTicks (s.task t).pStats .ready (s'.clock (s'.reads - 1)) with
    totalTrans := (s.task t).pStats.totalTrans + 1 }
  interrupted : s'.interrupted t = s.interrupted t
  clock : s'.clock = s.clock

/-- Another task runs, and at the end perhaps `t`. -/
def Aside (t : TaskId) (s s' : Kernel) : Prop := Resting t s s' ∧ s'.current ≠ t ∨ Dispatched t s s'

section
variable {t u : TaskId} {s s' s'' : Kernel} {ebp : Nat}

/-! ## Code of another task -/

theorem Resting.refl (t : TaskId) (s : Kernel) : Resting t s s := ⟨rfl, rfl, rfl⟩

theorem Resting.trans (h : Resting t s s') (h' : Resting t s' s'') : Resting t s s'' where
  stats := h'.stats.trans h.stats
  interrupted := h'.interrupted.trans h.interrupted
  clock := h'.clock.trans h.clock

theorem Resting.aside (h : Resting t s s') (h' : Aside t s' s'') : Aside t s s'' := by
  rcases h' with ⟨h', hne⟩ | h'
  · exact .inl ⟨h.trans h', hne⟩
  · exact .inr ⟨h'.current, by rw [h'.stats, h.stats], h'.interrupted.trans h.interrupted, h'.clock.trans h.clock⟩

theorem resting_modTask (s : Kernel) (u : TaskId) {f : TaskStruct → TaskStruct}
    (hf : u ≠ t ∨ (f (s.task u)).pStats = (s.task u).pStats) : Resting t s (s.modTask u f) := by
  refine ⟨?_, rfl, rfl⟩
  by_cases h : t = u
  · subst h
    simpa [modTask] using hf
  · simp [modTask, h]

theorem resting_setState (s : Kernel) (u : TaskId) (st : TaskState) : Resting t s (s.setState u st) :=
  resting_modTask s u (.inr rfl)

theorem resting_updateStats (s : Kernel) (h : u ≠ t) (v : TickCounter) : Resting t s (s.updateStats u v) := by
  have h1 : Resting t s s.getTicks.2 := { Resting.refl t s with }
  apply h1.trans
  exact resting_modTask s.getTicks.2 u (f := fun c => { c with pStats := addTicks c.pStats v s.getTicks.1 }) (.inl h)

theorem resting_setInterrupted (s : Kernel) (h : u ≠ t) (b : Bool) : Resting t s (s.setInterrupted u b) := by
  refine ⟨rfl, ?_, rfl⟩
  simp [setInterrupted, h.symm]

theorem resting_setMm (s : Kernel) (m : Mm) : Resting t s (s.setMm m) := { Resting.refl t s with }

theorem resting_setHeapPointer (s : Kernel) (u : TaskId) (hp : Nat) : Resting t s (s.setHeapPointer u hp) :=
  resting_modTask s u (.inr rfl)

theorem resting_listDel {n : ListHead} (h : s.listDel n = some s') : Resting t s s' := by
  obtain ⟨l, -, h⟩ := Option.bind_eq_some_iff.mp h
  cases h
  exact { Resting.refl t s with }

theorem resting_listAdd {n : ListHead} {i : Queue} (h : s.listAdd n i = some s') : Resting t s s' := by
  obtain ⟨l, -, h⟩ := Option.bind_eq_some_iff.mp h
  cases h
  exact { Resting.refl t s with }

theorem resting_listAddTail {n : ListHead} {i : Queue} (h : s.listAddTail n i = some s') : Resting t s s' := by
  obtain ⟨l, -, h⟩ := Option.bind_eq_some_iff.mp h
  cases h
  exact { Resting.refl t s with }

theorem resting_resetSemafors (s : Kernel) (tab : SemTable) : Resting t s (s.resetSemafors tab) := by
  unfold resetSemafors
  induction List.finRange numSem generalizing s with
  | nil => exact .refl t s
  | cons i is ih =>
    have h : Resting t s ((s.setSem tab i { semid := -1, count := 0, PID := -1 }).initListHead (.head (.blocked tab i))) :=
      { Resting.refl t s with }
    exact h.trans (ih _)

theorem resting_initStats (s : Kernel) (h : u ≠ t) : Resting t s (s.initStats u) := by
  have h1 : Resting t s s.getTicks.2.getTicks.2 := { Resting.refl t s with }
  exact h1.trans (resting_modTask s.getTicks.2.getTicks.2 u (f := fun c => { c with pStats := _ }) (.inl h))

theorem resting_copyTaskUnion (s : Kernel) (src : TaskId) (h : u ≠ t) : Resting t s (s.copyTaskUnion src u) := by
  refine ⟨?_, rfl, rfl⟩
  simp [copyTaskUnion, h.symm]

/-! ## The switch -/

theorem setState_pStats (s : Kernel) (u t : TaskId) (st : TaskState) :
    ((s.setState u st).task t).pStats = (s.task t).pStats := by
  by_cases h : t = u
  · subst h
    simp [setState, modTask]
  · simp [setState, modTask, h]

theorem updateStats_pStats (s : Kernel) (u t : TaskId) (v : TickCounter) : ((s.updateStats u v).task t).pStats =
    if t = u then addTicks (s.task t).pStats v (s.clock s.reads) else (s.task t).pStats := by
  by_cases h : t = u
  · subst h
    simp [updateStats, getTicks, modTask]
  · simp [updateStats, getTicks, modTask, h]

theorem innerTaskSwitch_pStats (s : Kernel) (u t : TaskId) (ebp : Nat) :
    ((s.innerTaskSwitch u ebp).task t).pStats = (s.task t).pStats := by
  by_cases h : t = s.current
  · subst h
    simp [innerTaskSwitch, modTask]
  · simp [innerTaskSwitch, modTask, h]

/-- The dispatcher reads the clock for the current task, and then for the next. -/
theorem dispatch_pStats (s : Kernel) (u t : TaskId) (ebp : Nat) : ((s.dispatch u ebp).task t).pStats =
    let p := if t = s.current then addTicks (s.task t).pStats .system (s.clock s.reads) else (s.task t).pStats
    if t = u then { addTicks p .ready (s.clock (s.reads + 1)) with totalTrans := p.totalTrans + 1 } else p := by
  unfold dispatch
  dsimp only
  rw [innerTaskSwitch_pStats]
  by_cases h : t = u
  · subst h
    simp only [modTask, Function.update_self, updateStats_pStats, setState_pStats, if_true]
    rfl
  · simp only [modTask, Function.update_of_ne h, updateStats_pStats, setState_pStats, if_neg h]
    rfl

theorem dispatch_aside (hc : s.current ≠ t) (u : TaskId) (ebp : Nat) : Aside t s (s.dispatch u ebp) := by
  have hstats := dispatch_pStats s u t ebp
  dsimp only at hstats
  rw [if_neg hc.symm] at hstats
  by_cases hu : t = u
  · rw [if_pos hu] at hstats
    exact .inr ⟨hu.symm, hstats, rfl, rfl⟩
  · rw [if_neg hu] at hstats
    exact .inl ⟨⟨hstats, rfl, rfl⟩, Ne.symm hu⟩

theorem schedNextRr_aside (hc : s.current ≠ t) (h : s.schedNextRr ebp = some s') : Aside t s s' := by
  obtain ⟨⟨u, s1⟩, h1, h⟩ := Option.bind_eq_some_iff.mp h
  obtain ⟨l, rfl⟩ := nextTask_links h1
  cases h
  have hrest : Resting t s { s with links := l } := { Resting.refl t s with }
  exact hrest.aside (dispatch_aside (s := { s with links := l }) hc u ebp)

theorem schedNextRr_leaves (h : s.schedNextRr ebp = some s') (hne : s'.current ≠ s.current) :
    (s'.task s.current).pStats = addTicks (s.task s.current).pStats .system (s.clock s.reads) ∧
      s'.interrupted s.current = s.interrupted s.current ∧ s'.clock = s.clock := by
  obtain ⟨⟨u, s1⟩, h1, h⟩ := Option.bind_eq_some_iff.mp h
  obtain ⟨l, rfl⟩ := nextTask_links h1
  cases h
  refine ⟨?_, rfl, rfl⟩
  have hu : ¬ s.current = u := Ne.symm hne
  have hstats := dispatch_pStats { s with links := l } u s.current ebp
  dsimp only at hstats
  rwa [if_pos rfl, if_neg hu] at hstats

theorem resting_place (hu : u ≠ t) {dst : Option Queue} (h : (match dst with
    | some dst => do
      let s ← s.listAddTail (.anchor u) dst
      if dst ≠ .readyqueue then return s.setState u .blocked
      else return (s.updateStats u .system).setState u .ready
    | none => return s.setState u .run) = some s') : Resting t s s' := by
  split at h
  · obtain ⟨s1, h1, h⟩ := Option.bind_eq_some_iff.mp h
    apply (resting_listAddTail h1).trans
    split at h <;> cases h
    · exact resting_setState s1 u .blocked
    · exact (resting_updateStats s1 hu .system).trans (resting_setState _ u .ready)
  · cases h
    exact resting_setState s u .run

theorem resting_updateProcessStateRr (hu : u ≠ t) {dst : Option Queue} (h : s.updateProcessStateRr u dst = some s') :
    Resting t s s' := by
  unfold updateProcessStateRr at h
  dsimp only at h
  split at h
  · obtain ⟨s1, h1, h⟩ := Option.bind_eq_some_iff.mp h
    exact (resting_listDel h1).trans (resting_place hu h)
  · obtain ⟨s1, h1, h⟩ := Option.bind_eq_some_iff.mp h
    cases h1
    exact resting_place hu h

theorem forceTaskSwitch_aside (hc : s.current ≠ t) (h : s.forceTaskSwitch ebp = some s') : Aside t s s' := by
  obtain ⟨s1, h1, h⟩ := Option.bind_eq_some_iff.mp h
  have hcur : s1.current = s.current := (quiet_updateProcessStateRr (X := fun _ => False) h1).current
  apply (resting_updateProcessStateRr hc h1).aside
  exact schedNextRr_aside (by rwa [hcur]) h

theorem schedule_aside (hc : s.current ≠ t) (h : s.schedule ebp = some s') : Aside t s s' := by
  unfold schedule needsSchedRr at h
  by_cases hsw : s.updateSchedDataRr.remainingQuantum = 0 ∧ ¬ s.updateSchedDataRr.listEmpty .readyqueue = true
  · have h1 : Resting t s s.updateSchedDataRr := { Resting.refl t s with }
    simp only [if_pos hsw] at h
    exact h1.aside (forceTaskSwitch_aside (s := s.updateSchedDataRr) hc h)
  · simp only [if_neg hsw] at h
    split at h
    · rename_i h0
      split at h0 <;> cases h0
    · rename_i h0
      split at h0 <;> cases h0 <;> cases h <;> exact .inl ⟨{ Resting.refl t s with }, hc⟩

theorem clockHandler_aside (hc : s.current ≠ t) (h : s.clockHandler ebp = some s') : Aside t s s' := by
  have h1 : Resting t s (s.userToSystem.setInterrupted s.current true) :=
    (resting_updateStats s hc .user).trans (resting_setInterrupted s.userToSystem hc true)
  have h2 : Resting t s { s.userToSystem.setInterrupted s.current true with
      zeosTicks := (s.userToSystem.setInterrupted s.current true).zeosTicks + 1 } := { h1 with }
  exact h2.aside (schedule_aside hc h)

/-! ## Calls -/

theorem resting_create {f : TaskStruct → TaskStruct} (hu : u ≠ t)
    (h : (((s.modTask u f).setInterrupted u false).initStats u).listAddTail (.anchor u) .readyqueue = some s') :
    Resting t s s' := by
  refine Resting.trans ?_ (resting_listAddTail h)
  exact ((resting_modTask s u (.inl hu)).trans (resting_setInterrupted _ hu false)).trans (resting_initStats _ hu)

theorem sysFork_resting (hf : s.freeHead ≠ some t) {r : Int} (h : s.sysFork ebp = some (r, s')) : Resting t s s' := by
  unfold sysFork at h
  split at h
  · cases h
    exact .refl t s
  obtain ⟨lh, hlh, h⟩ := Option.bind_eq_some_iff.mp h
  obtain ⟨s1, h1, h⟩ := Option.bind_eq_some_iff.mp h
  obtain ⟨c, hc, h⟩ := Option.bind_eq_some_iff.mp h
  obtain ⟨tab, -, h⟩ := Option.bind_eq_some_iff.mp h
  obtain ⟨pt, -, h⟩ := Option.bind_eq_some_iff.mp h
  have hne : c ≠ t := by
    rintro rfl
    exact hf (by rw [freeHead, hlh]; exact hc)
  have hq : Resting t s (((s1.copyTaskUnion s1.current c).resetSemafors tab).allocateDIR c) :=
    (((resting_listDel h1).trans (resting_copyTaskUnion s1 s1.current hne)).trans (resting_resetSemafors _ tab)).trans
      (resting_modTask _ c (.inl hne))
  generalize ((s1.copyTaskUnion s1.current c).resetSemafors tab).allocateDIR c = s2 at h hq
  apply hq.trans
  dsimp only at h
  split at h
  · obtain ⟨s3, h3, h⟩ := Option.bind_eq_some_iff.mp h
    cases h
    exact (resting_setMm s2 _).trans (resting_listAddTail h3)
  · obtain ⟨ppt, -, h⟩ := Option.bind_eq_some_iff.mp h
    obtain ⟨mm, -, h⟩ := Option.bind_eq_some_iff.mp h
    obtain ⟨s3, h3, h⟩ := Option.bind_eq_some_iff.mp h
    cases h
    have hpid : Resting t s2 { s2.setMm mm with globalPID := s2.globalPID + 1 } := { Resting.refl t s2 with }
    exact hpid.trans (resting_create hne h3)

theorem sysThreadCreate_resting (hf : s.freeHead ≠ some t) {f p w : UInt32} {r : Int}
    (h : s.sysThreadCreate f p w = some (r, s')) : Resting t s s' := by
  unfold sysThreadCreate at h
  split at h
  · cases h
    exact .refl t s
  split at h
  · cases h
    exact .refl t s
  obtain ⟨lh, hlh, h⟩ := Option.bind_eq_some_iff.mp h
  obtain ⟨s1, h1, h⟩ := Option.bind_eq_some_iff.mp h
  obtain ⟨c, hc, h⟩ := Option.bind_eq_some_iff.mp h
  have hne : c ≠ t := by
    rintro rfl
    exact hf (by rw [freeHead, hlh]; exact hc)
  have hcopy := (resting_listDel h1).trans (resting_copyTaskUnion s1 s1.current hne)
  generalize s1.copyTaskUnion s1.current c = s2 at h hcopy
  dsimp only at h
  have htid : Resting t s2 { s2 with globalTID := s2.globalTID + 1 } := { Resting.refl t s2 with }
  have hq := (hcopy.trans htid).trans (resting_modTask _ c (f := fun t => { t with
    TID := s2.globalTID + 1, PID := (s2.task s2.current).PID, state := .ready
    semafors := (s2.task s2.current).semafors }) (.inl hne))
  generalize (({ s2 with globalTID := s2.globalTID + 1 } : Kernel).modTask c fun t => { t with
      TID := s2.globalTID + 1, PID := (s2.task s2.current).PID, state := .ready
      semafors := (s2.task s2.current).semafors }) = s3 at h hq
  split at h
  · cases h
    exact hq
  obtain ⟨pt, -, h⟩ := Option.bind_eq_some_iff.mp h
  split at h
  · obtain ⟨ppt, -, h⟩ := Option.bind_eq_some_iff.mp h
    obtain ⟨mm, -, h⟩ := Option.bind_eq_some_iff.mp h
    obtain ⟨s4, h4, h⟩ := Option.bind_eq_some_iff.mp h
    cases h
    refine hq.trans (Resting.trans ?_ (resting_create hne h4))
    exact ((resting_setMm s3 _).trans (resting_setHeapPointer _ s3.current _)).trans (resting_setMm _ mm)
  · obtain ⟨⟨hp, mm⟩, -, h⟩ := Option.bind_eq_some_iff.mp h
    obtain ⟨s4, h4, h⟩ := Option.bind_eq_some_iff.mp h
    cases h
    refine hq.trans (Resting.trans ?_ (resting_listAddTail h4))
    exact (resting_setMm s3 mm).trans (resting_setHeapPointer _ s3.current hp)

theorem sysExit_aside (hc : s.current ≠ t) (h : s.sysExit ebp = some s') : Aside t s s' := by
  obtain ⟨pt, -, h⟩ := Option.bind_eq_some_iff.mp h
  obtain ⟨⟨hp, mm⟩, -, h⟩ := Option.bind_eq_some_iff.mp h
  obtain ⟨s1, h1, h⟩ := Option.bind_eq_some_iff.mp h
  have hcur : s1.current = s.current := (quiet_listAddTail (X := fun _ => False) h1).current
  have hheap : Resting t s ((s.setMm mm).setHeapPointer s.current hp) :=
    (resting_setMm s mm).trans (resting_setHeapPointer _ s.current hp)
  have hfree := (hheap.trans (resting_listAddTail h1)).trans
    (resting_modTask s1 s1.current (f := fun c => { c with PID := -1 }) (.inr rfl))
  exact hfree.aside (schedNextRr_aside (by rwa [← hcur] at hc) h)

theorem sysThreadExit_aside (hc : s.current ≠ t) (h : s.sysThreadExit ebp = some s') : Aside t s s' := by
  obtain ⟨pt, -, h⟩ := Option.bind_eq_some_iff.mp h
  obtain ⟨s1, h1, h⟩ := Option.bind_eq_some_iff.mp h
  have hcur : s1.current = s.current := (quiet_listAddTail (X := fun _ => False) h1).current
  have hfree : Resting t s s1 :=
    ((resting_setMm s _).trans (resting_setHeapPointer _ s.current _)).trans (resting_listAddTail h1)
  exact hfree.aside (schedNextRr_aside (by rwa [← hcur] at hc) h)

theorem sysSemCreate_resting {v r : Int} (h : s.sysSemCreate v = some (r, s')) : Resting t s s' := by
  obtain ⟨tab, -, h⟩ := Option.bind_eq_some_iff.mp h
  split at h <;> cases h
  · exact { Resting.refl t s with }
  · exact .refl t s

theorem sysSemWait_aside (hc : s.current ≠ t) {k r : Int} (h : s.sysSemWait k ebp = some (r, s')) : Aside t s s' := by
  obtain ⟨_ | ⟨tab, i⟩, -, h⟩ := Option.bind_eq_some_iff.mp h
  · cases h
    exact .inl ⟨.refl t s, hc⟩
  have hcount : Resting t s (s.setCount tab i (toInt32 ((s.sem tab i).count - 1))) := { Resting.refl t s with }
  dsimp only at h
  split at h
  · obtain ⟨s1, h1, h⟩ := Option.bind_eq_some_iff.mp h
    obtain ⟨s2, h2, h⟩ := Option.bind_eq_some_iff.mp h
    cases h
    have hcur : s1.current = s.current := (quiet_listAdd (X := fun _ => False) h1).current
    exact ((hcount.trans (resting_setState _ _ .blocked)).trans (resting_listAdd h1)).aside
      (schedNextRr_aside (by rwa [hcur]) h2)
  · cases h
    exact .inl ⟨hcount, hc⟩

theorem sysSemSignal_resting {k r : Int} (h : s.sysSemSignal k = some (r, s')) : Resting t s s' := by
  obtain ⟨_ | ⟨tab, i⟩, -, h⟩ := Option.bind_eq_some_iff.mp h
  · cases h
    exact .refl t s
  have hcount : Resting t s (s.setCount tab i (toInt32 ((s.sem tab i).count + 1))) := { Resting.refl t s with }
  dsimp only at h
  split at h
  · obtain ⟨l, -, h⟩ := Option.bind_eq_some_iff.mp h
    obtain ⟨s1, h1, h⟩ := Option.bind_eq_some_iff.mp h
    obtain ⟨u, -, h⟩ := Option.bind_eq_some_iff.mp h
    obtain ⟨s2, h2, h⟩ := Option.bind_eq_some_iff.mp h
    cases h
    exact ((hcount.trans (resting_listDel h1)).trans (resting_setState s1 u .ready)).trans (resting_listAdd h2)
  · cases h
    exact hcount

theorem wakeAll_resting (tab : SemTable) (i : Fin numSem) : ∀ (fuel : Nat) {s s' : Kernel},
    s.wakeAll tab i fuel = some s' → Resting t s s'
  | 0, _, _, h => by cases h
  | fuel + 1, s, s', h => by
    unfold wakeAll at h
    split at h
    · cases h
      exact .refl t s
    · obtain ⟨l, -, h⟩ := Option.bind_eq_some_iff.mp h
      obtain ⟨s1, h1, h⟩ := Option.bind_eq_some_iff.mp h
      obtain ⟨u, -, h⟩ := Option.bind_eq_some_iff.mp h
      obtain ⟨s2, h2, h⟩ := Option.bind_eq_some_iff.mp h
      exact (((resting_listDel h1).trans (resting_setState s1 u .ready)).trans (resting_listAddTail h2)).trans
        (wakeAll_resting tab i fuel h)

theorem sysSemDestroy_resting {k r : Int} (h : s.sysSemDestroy k = some (r, s')) : Resting t s s' := by
  obtain ⟨_ | ⟨tab, i⟩, -, h⟩ := Option.bind_eq_some_iff.mp h
  · cases h
    exact .refl t s
  · obtain ⟨s1, h1, h⟩ := Option.bind_eq_some_iff.mp h
    cases h
    exact (wakeAll_resting tab i _ h1).trans { Resting.refl t s1 with }

/-! ## Steps -/

theorem Resting.still (h : Resting t s s') {e : Event} (hs : s.handle e = some s') (hsw : s.switches e = false)
    (hc : s.current ≠ t) : Aside t s s' := by
  have heff := handle_effect hs
  unfold Effect at heff
  rw [if_neg (by simp [hsw])] at heff
  exact .inl ⟨h, by rw [heff.1.current]; exact hc⟩

theorem handle_aside (hc : s.current ≠ t) (hf : s.freeHead ≠ some t) {e : Event} (h : s.handle e = some s') :
    Aside t s s' := by
  obtain ⟨op, ebp⟩ := e
  have h0 := h
  cases op <;> simp only [handle] at h
  case clock => exact clockHandler_aside hc h
  case yield => exact forceTaskSwitch_aside hc h
  case exit => exact sysExit_aside hc h
  case threadExit => exact sysThreadExit_aside hc h
  all_goals obtain ⟨⟨r, s1⟩, hr, rfl⟩ := Option.map_eq_some_iff.mp h
  case fork => exact (sysFork_resting hf hr).still h0 rfl hc
  case threadCreate f p w => exact (sysThreadCreate_resting hf hr).still h0 rfl hc
  case sbrk size =>
    refine Resting.still ?_ h0 rfl hc
    unfold sysSbrk at hr
    dsimp only at hr
    split at hr
    · cases hr
      exact .refl t s
    · obtain ⟨pt, -, hr⟩ := Option.bind_eq_some_iff.mp hr
      obtain ⟨⟨ret, hp, mm⟩, -, hr⟩ := Option.bind_eq_some_iff.mp hr
      cases hr
      exact (resting_setMm s mm).trans (resting_setHeapPointer _ s.current hp)
  case semCreate v => exact (sysSemCreate_resting hr).still h0 rfl hc
  case semWait k => exact sysSemWait_aside hc hr
  case semSignal k => exact (sysSemSignal_resting hr).still h0 rfl hc
  case semDestroy k => exact (sysSemDestroy_resting hr).still h0 rfl hc

theorem resume_current (s : Kernel) : s.resume.current = s.current := (quiet_resume (X := fun _ => False) s).current

theorem resting_resume (hc : s.current ≠ t) : Resting t s s.resume := by
  unfold resume
  split
  · exact (resting_updateStats s hc .system).trans (resting_setInterrupted s.systemToUser hc false)
  · exact .refl t s

theorem resume_interrupted (s : Kernel) : s.resume.interrupted s.resume.current = false := by
  by_cases h : s.interrupted s.current = true
  · rw [resume_current]
    simp [resume, h, setInterrupted]
  · simp [resume, h]

theorem step_aside (hc : s.current ≠ t) (hf : s.freeHead ≠ some t) (hi : s.interrupted t = false) {e : Event}
    (h : s.step e = some s') : Aside t s s' := by
  unfold step at h
  split at h
  · cases h
  obtain ⟨s1, h1, rfl⟩ := Option.map_eq_some_iff.mp h
  rcases handle_aside hc hf h1 with ⟨hrest, hne⟩ | hd
  · exact .inl ⟨hrest.trans (resting_resume hne), by rwa [resume_current]⟩
  · -- it goes on in the kernel, where it gave the CPU up
    have hresume : s1.resume = s1 := by
      rw [resume, hd.current, hd.interrupted, hi]
      rfl
    rw [hresume]
    exact .inr hd

/-! ## The call that blocks -/

theorem members_resume (s : Kernel) (i : Queue) : s.resume.members i = s.members i := by
  unfold resume
  split <;> rfl

theorem semWait_blocks {a : AbsKernel} (hr : Rep s a) (g : a.Good) {k : Int} (h : s.step ⟨.semWait k, ebp⟩ = some s')
    {tab : SemTable} {i : Fin numSem} (hb : s.current ∈ s'.members (.blocked tab i)) :
    (s'.task s.current).pStats = addTicks (s.task s.current).pStats .system (s.clock s.reads) ∧
      s'.interrupted s.current = s.interrupted s.current ∧ s'.clock = s.clock := by
  have hrun : s'.current ≠ s.current := by
    obtain ⟨b, -, hr', g'⟩ := hr.step_some g h
    intro e
    rw [hr'.members, ← e, hr'.current] at hb
    exact g'.current _ hb
  have hout : s.current ∉ s.members (.blocked tab i) := by
    rw [hr.members, hr.current]
    exact g.current _
  unfold step at h
  split at h
  · cases h
  obtain ⟨s1, h1, rfl⟩ := Option.map_eq_some_iff.mp h
  rw [members_resume] at hb
  rw [resume_current] at hrun
  obtain ⟨⟨r, s2⟩, h2, rfl⟩ := Option.map_eq_some_iff.mp h1
  have hresume : Resting s.current s2 s2.resume := resting_resume hrun
  rw [hresume.stats, hresume.interrupted, hresume.clock]
  obtain ⟨_ | ⟨tab', j⟩, -, h2⟩ := Option.bind_eq_some_iff.mp h2
  · cases h2
    exact absurd hb hout
  dsimp only at h2
  split at h2
  · obtain ⟨s3, h3, h2⟩ := Option.bind_eq_some_iff.mp h2
    obtain ⟨s4, h4, h2⟩ := Option.bind_eq_some_iff.mp h2
    obtain ⟨l, -, h3⟩ := Option.bind_eq_some_iff.mp h3
    cases h2
    cases h3
    obtain ⟨hstats, hint, hclock⟩ := schedNextRr_leaves h4 hrun
    exact ⟨hstats.trans (congrArg (addTicks · .system (s.clock s.reads)) (setState_pStats _ s.current s.current .blocked)),
      hint, hclock⟩
  · cases h2
    exact absurd hb hout

end

end Kernel

/-! ## Runs -/

/-- The kernel of the state has a good description, and the current task did not stop in `clock_handler`. -/
def System.Sound (s : System) : Prop :=
  (∃ a, Rep s.kernel a ∧ a.Good) ∧ s.kernel.interrupted s.kernel.current = false

def Kernel.WaitsSomewhere (s : Kernel) (t : TaskId) : Prop := ∃ i, i ≠ .freequeue ∧ t ∈ s.members i

def System.Blocked (t : TaskId) (s : System) : Prop := ∃ tab i, t ∈ s.kernel.members (.blocked tab i)

def System.Ready (t : TaskId) (s : System) : Prop := t ∈ s.kernel.members .readyqueue

section
variable {s s' : System} {t : TaskId} {i : System.Input}

theorem System.Sound.step (h : s.Sound) (hs : System.step s i = some s') : s'.Sound := by
  obtain ⟨⟨a, hr, g⟩, hint⟩ := h
  cases i with
  | event e =>
    obtain ⟨k, hk, rfl⟩ := Option.map_eq_some_iff.mp hs
    obtain ⟨b, -, hr', g'⟩ := hr.step_some g hk
    refine ⟨⟨b, hr', g'⟩, ?_⟩
    unfold Kernel.step at hk
    split at hk
    · cases hk
    obtain ⟨s1, -, rfl⟩ := Option.map_eq_some_iff.mp hk
    exact Kernel.resume_interrupted s1
  | key c past =>
    obtain rfl := Option.some.inj hs
    exact ⟨⟨a, System.keyboardHandler_rep hr c past, g⟩, hint⟩
  | getKey b =>
    simp only [System.step] at hs
    split at hs
    · cases hs
    obtain ⟨⟨r, s1⟩, h1, rfl⟩ := Option.map_eq_some_iff.mp hs
    rcases System.sysGetKey_cases h1 with ⟨-, -, rfl⟩ | ⟨-, -, rfl⟩ | ⟨-, -, -, ⟨mm, hmm, -, -⟩, -⟩
    · exact ⟨⟨a, hr, g⟩, hint⟩
    · exact ⟨⟨a, hr, g⟩, hint⟩
    · refine ⟨⟨a.setMm mm, ?_, { g with }⟩, ?_⟩
      · dsimp only
        rw [hmm]
        exact hr.setMm mm
      · dsimp only
        rw [hmm]
        exact hint

theorem boot_sound_system (mc : Machine) : (System.boot mc).Sound :=
  ⟨⟨bootAbs mc, boot_rep mc, boot_good mc⟩, rfl⟩

theorem System.Blocked.waits (h : System.Blocked t s) : s.kernel.WaitsSomewhere t := by
  obtain ⟨tab, i, hm⟩ := h
  exact ⟨.blocked tab i, by simp, hm⟩

theorem System.Ready.waits (h : System.Ready t s) : s.kernel.WaitsSomewhere t := ⟨.readyqueue, by simp, h⟩

/-- A task that waits does not run, and no call takes its struct. -/
theorem System.Sound.waits (h : s.Sound) (hw : s.kernel.WaitsSomewhere t) :
    s.kernel.current ≠ t ∧ s.kernel.freeHead ≠ some t := by
  obtain ⟨⟨a, hr, g⟩, -⟩ := h
  obtain ⟨i, hi, hm⟩ := hw
  rw [hr.members] at hm
  constructor
  · rintro rfl
    rw [hr.current] at hm
    exact g.current i hm
  · intro e
    cases hq : a.queue .freequeue with
    | nil =>
      rw [Kernel.freeHead, hr.listFirst_nil hq] at e
      cases e
    | cons c rest =>
      rw [hr.freeHead hq] at e
      obtain rfl := Option.some.inj e
      exact hi (g.apart i .freequeue c hm (by rw [hq]; exact List.mem_cons_self))

theorem System.step_aside (h : s.Sound) (hw : s.kernel.WaitsSomewhere t) (hi : s.kernel.interrupted t = false)
    (hs : System.step s i = some s') : Kernel.Aside t s.kernel s'.kernel := by
  obtain ⟨hc, hf⟩ := h.waits hw
  cases i with
  | event e =>
    obtain ⟨k, hk, rfl⟩ := Option.map_eq_some_iff.mp hs
    exact Kernel.step_aside hc hf hi hk
  | key c past =>
    obtain rfl := Option.some.inj hs
    refine .inl ⟨?_, hc⟩
    exact (Kernel.resting_updateStats _ hc .user).trans (Kernel.resting_updateStats s.kernel.userToSystem hc .system)
  | getKey b =>
    simp only [System.step] at hs
    split at hs
    · cases hs
    obtain ⟨⟨r, s1⟩, h1, rfl⟩ := Option.map_eq_some_iff.mp hs
    rcases System.sysGetKey_cases h1 with ⟨-, -, rfl⟩ | ⟨-, -, rfl⟩ | ⟨-, -, -, ⟨mm, hmm, -, -⟩, -⟩
    · exact .inl ⟨.refl t _, hc⟩
    · exact .inl ⟨.refl t _, hc⟩
    · dsimp only
      rw [hmm]
      exact .inl ⟨Kernel.resting_setMm s.kernel mm, hc⟩

/-- While a task waits, nothing happens to its account. -/
theorem System.waits_run {is : List System.Input} (h : s.Sound) (hi : s.kernel.interrupted t = false)
    (hall : AllStates System.step (fun s => s.kernel.WaitsSomewhere t) s is) (he : exec System.step s is = some s') :
    s'.Sound ∧ s'.kernel.WaitsSomewhere t ∧ Kernel.Resting t s.kernel s'.kernel := by
  induction is generalizing s with
  | nil =>
    obtain rfl := Option.some.inj he
    exact ⟨h, hall, .refl t _⟩
  | cons i is ih =>
    obtain ⟨s1, h1, he⟩ := exec_cons.mp he
    have hw := allStates_head (hall.2 s1 h1)
    have hrest : Kernel.Resting t s.kernel s1.kernel := by
      rcases System.step_aside h hall.1 hi h1 with ⟨hrest, -⟩ | hd
      · exact hrest
      · exact absurd hd.current ((h.step h1).waits hw).1
    obtain ⟨h', hw', hrest'⟩ := ih (h.step h1) (hrest.interrupted.trans hi) (hall.2 s1 h1) he
    exact ⟨h', hw', hrest.trans hrest'⟩

/-- The thread `t` blocks in `s0`, is made ready in `s2` and gets the CPU back with the last step. -/
structure BlockedRun (t : TaskId) (s0 s1 s2 s3 s4 s5 : System) (is js : List System.Input) : Prop where
  current : s0.kernel.current = t
  waits : ∃ k ebp, System.step s0 (.event ⟨.semWait k, ebp⟩) = some s1
  blocked : AllStates System.step (System.Blocked t) s1 is
  before : exec System.step s1 is = some s2
  wakes : ∃ k op ebp, (op = .semSignal k ∨ op = .semDestroy k) ∧ System.step s2 (.event ⟨op, ebp⟩) = some s3
  ready : AllStates System.step (System.Ready t) s3 js
  after : exec System.step s3 js = some s4
  dispatched : ∃ i, System.step s4 i = some s5 ∧ s5.kernel.current = t

/-- All the time between the blocking and the dispatch is charged to `ready_ticks`. -/
theorem BlockedRun.charges {s0 s1 s2 s3 s4 s5 : System} {is js : List System.Input} (h0 : s0.Sound)
    (h : BlockedRun t s0 s1 s2 s3 s4 s5 is js) :
    (s5.kernel.task t).pStats.blockedTicks = (s0.kernel.task t).pStats.blockedTicks ∧
      (s5.kernel.task t).pStats.readyTicks = (s0.kernel.task t).pStats.readyTicks +
        (s5.kernel.clock (s5.kernel.reads - 1) - s0.kernel.clock s0.kernel.reads) := by
  obtain ⟨rfl, ⟨k, ebp, hwait⟩, hblocked, hbefore, ⟨k', op, ebp', -, hwake⟩, hready, hafter, ⟨i, hdisp, hcur⟩⟩ := h
  have hclosed : (s1.kernel.task s0.kernel.current).pStats =
      Kernel.addTicks (s0.kernel.task s0.kernel.current).pStats .system (s0.kernel.clock s0.kernel.reads) ∧
      s1.kernel.interrupted s0.kernel.current = s0.kernel.interrupted s0.kernel.current ∧
      s1.kernel.clock = s0.kernel.clock := by
    obtain ⟨⟨a, hr, g⟩, -⟩ := h0
    obtain ⟨tab, j, hb⟩ := allStates_head hblocked
    obtain ⟨k1, hk1, rfl⟩ := Option.map_eq_some_iff.mp hwait
    exact Kernel.semWait_blocks hr g hk1 hb
  obtain ⟨hstats, hint, -⟩ := hclosed
  rw [h0.2] at hint
  -- blocked
  obtain ⟨h2, hw2, hrest1⟩ := System.waits_run (h0.step hwait) hint (allStates_imp (fun _ hb => hb.waits) hblocked) hbefore
  have hint2 := hrest1.interrupted.trans hint
  -- made ready
  have h3 := h2.step hwake
  have hrest2 : Kernel.Resting s0.kernel.current s2.kernel s3.kernel := by
    rcases System.step_aside h2 hw2 hint2 hwake with ⟨hrest, -⟩ | hd
    · exact hrest
    · exact absurd hd.current (h3.waits (allStates_head hready).waits).1
  -- ready
  have hint3 := hrest2.interrupted.trans hint2
  obtain ⟨h4, hw4, hrest3⟩ := System.waits_run h3 hint3 (allStates_imp (fun _ hm => hm.waits) hready) hafter
  have hint4 := hrest3.interrupted.trans hint3
  rcases System.step_aside h4 hw4 hint4 hdisp with ⟨-, hne⟩ | hd
  · exact absurd hcur hne
  · rw [hd.stats, hrest3.stats, hrest2.stats, hrest1.stats, hstats]
    exact ⟨rfl, rfl⟩

end

/-- In every run in which a thread blocks at the tick `a`, is made ready at the tick `b` and gets the CPU back at the
tick `c`: the time up to `b` goes to `blocked_ticks`, and the rest to `ready_ticks`, if and only if there is none up
to `b`. -/
theorem blocked_charged_iff {mc : Machine} {es : List System.Input} {s0 s1 s2 s3 s4 s5 : System}
    {is js : List System.Input} {t : TaskId} (he : exec System.step (.boot mc) es = some s0)
    (h : BlockedRun t s0 s1 s2 s3 s4 s5 is js) (b : UInt32) :
    let a := s0.kernel.clock s0.kernel.reads
    let c := s5.kernel.clock (s5.kernel.reads - 1)
    (s5.kernel.task t).pStats.blockedTicks - (s0.kernel.task t).pStats.blockedTicks = b - a ∧
      (s5.kernel.task t).pStats.readyTicks - (s0.kernel.task t).pStats.readyTicks = c - b ↔ b = a := by
  have htrue : AllSteps System.step (fun _ _ _ => True) (.boot mc) es :=
    allSteps_of_forall (A := fun _ => True) (fun _ _ _ _ => trivial) fun _ _ => trivial
  have h0 : s0.Sound := exec_invariant (fun _ _ _ hx _ hy => hx.step hy) (boot_sound_system mc) htrue he
  obtain ⟨hblocked, hready⟩ := h.charges h0
  dsimp only
  rw [hblocked, hready]
  constructor
  · rintro ⟨h1, -⟩
    grind
  · rintro rfl
    constructor <;> grind

/-- Thread 2 waits for the semaphore of task 1, which signals and yields. -/
theorem ticking_blockedRun : ∃ s0 s1 s3 s5 : System, exec System.step (.boot .ticking)
      [.event ⟨.threadCreate 0x100000 0 0x100000, 0⟩, .event ⟨.semCreate 0, 0⟩, .event ⟨.yield, 0⟩] = some s0 ∧
    BlockedRun 2 s0 s1 s1 s3 s3 s5 [] [] ∧
    (s5.kernel.task 2).pStats.blockedTicks = (s0.kernel.task 2).pStats.blockedTicks ∧
    s0.kernel.clock s0.kernel.reads ≠ s1.kernel.getTicks.1 := by
  have hrun : (exec System.step (.boot .ticking) [.event ⟨.threadCreate 0x100000 0 0x100000, 0⟩, .event ⟨.semCreate 0, 0⟩,
      .event ⟨.yield, 0⟩]).any (fun s0 => (System.step s0 (.event ⟨.semWait 0, 0⟩)).any fun s1 =>
        (System.step s1 (.event ⟨.semSignal 0, 0⟩)).any fun s3 => (System.step s3 (.event ⟨.yield, 0⟩)).any fun s5 =>
          decide (s0.kernel.current = 2 ∧ 2 ∈ s1.kernel.members (.blocked .semaforProces 0) ∧
            2 ∈ s3.kernel.members .readyqueue ∧ s5.kernel.current = 2 ∧
            (s5.kernel.task 2).pStats.blockedTicks = (s0.kernel.task 2).pStats.blockedTicks ∧
            s0.kernel.clock s0.kernel.reads ≠ s1.kernel.getTicks.1)) = true := by decide +kernel
  obtain ⟨s0, h0, hrun⟩ := (Option.any_eq_true _ _).mp hrun
  obtain ⟨s1, h1, hrun⟩ := (Option.any_eq_true _ _).mp hrun
  obtain ⟨s3, h3, hrun⟩ := (Option.any_eq_true _ _).mp hrun
  obtain ⟨s5, h5, hd⟩ := (Option.any_eq_true _ _).mp hrun
  obtain ⟨hc, hb, hr, hc', hstats, hticks⟩ := of_decide_eq_true hd
  refine ⟨s0, s1, s3, s5, h0, ⟨hc, ⟨0, 0, h1⟩, ⟨_, _, hb⟩, rfl, ⟨0, _, 0, .inl rfl, h3⟩, hr, rfl, ⟨_, h5, hc'⟩⟩, hstats, hticks⟩

/-- The ticks that have passed are not in its `blocked_ticks`. -/
theorem blocked_not_charged : ∃ (es : List System.Input) (s0 s1 s3 s5 : System),
    exec System.step (.boot .ticking) es = some s0 ∧ BlockedRun 2 s0 s1 s1 s3 s3 s5 [] [] ∧
    ¬ ((s5.kernel.task 2).pStats.blockedTicks - (s0.kernel.task 2).pStats.blockedTicks =
        s1.kernel.getTicks.1 - s0.kernel.clock s0.kernel.reads ∧
      (s5.kernel.task 2).pStats.readyTicks - (s0.kernel.task 2).pStats.readyTicks =
        s5.kernel.clock (s5.kernel.reads - 1) - s1.kernel.getTicks.1) := by
  obtain ⟨s0, s1, s3, s5, he, hrun, hstats, hticks⟩ := ticking_blockedRun
  refine ⟨_, s0, s1, s3, s5, he, hrun, ?_⟩
  rintro ⟨h, -⟩
  rw [hstats] at h
  apply hticks
  grind

theorem blocked_charged_same_tick : ∃ (s0 s5 : System), s0.kernel.current = 2 ∧ s5.kernel.current = 2 ∧
    (s5.kernel.task 2).pStats.readyTicks - (s0.kernel.task 2).pStats.readyTicks =
      s5.kernel.clock (s5.kernel.reads - 1) - s0.kernel.clock s0.kernel.reads := by
  obtain ⟨s0, s1, s3, s5, he, hrun, -⟩ := ticking_blockedRun
  obtain ⟨i, -, hcur⟩ := hrun.dispatched
  exact ⟨s0, s5, hrun.current, hcur, ((blocked_charged_iff he hrun (s0.kernel.clock s0.kernel.reads)).mpr rfl).2⟩

end ZeosSOA.Sysenter
