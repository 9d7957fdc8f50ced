import ZeosSOA.Sysenter.Reach

/-!
# ZeOSSysenter: saved contexts and statistics

What a step does to the stack pointers of the tasks and to their statistics, which the kernel
over sequences does not have. `Quiet` is a stretch of kernel code without a task switch,
`Switched` one that ends in the switch. A call that creates a task only touches the free struct
it takes.
-/

namespace ZeosSOA.Sysenter

open Intrusive

/-- The ticks in the four counters, less the ticks that have passed. -/
def Stats.balance (p : Stats) : UInt32 :=
  p.userTicks + p.systemTicks + p.blockedTicks + p.readyTicks - p.elapsedTotalTicks

theorem addTicks_balance (p : Stats) (v : TickCounter) (now : UInt32) :
    (Kernel.addTicks p v now).balance = p.balance := by
  cases v <;> simp only [Kernel.addTicks, Stats.balance] <;> grind

namespace Kernel

/-- No task switch; the tasks in `X` apart, no saved pointer and no balance changes. -/
structure Quiet (X : TaskId → Prop) (s s' : Kernel) : Prop where
  current : s'.current = s.current
  esp : s'.esp = s.esp
  saved : ∀ t, ¬ X t → (s'.task t).registerEsp = (s.task t).registerEsp
  balance : ∀ t, ¬ X t → (s'.task t).pStats.balance = (s.task t).pStats.balance
  ids : s.globalPID ≤ s'.globalPID ∧ s.globalTID ≤ s'.globalTID

/-- A switch: the current task leaves its frame pointer in its struct, and the pointer that was in
the struct of the next one before is loaded. -/
structure Switched (s s' : Kernel) (ebp : Nat) : Prop where
  esp : s'.esp = (s.task s'.current).registerEsp
  saved : ∀ t, (s'.task t).registerEsp = if t = s.current then some ⟨s.current, ebp⟩ else (s.task t).registerEsp
  balance : ∀ t, (s'.task t).pStats.balance = (s.task t).pStats.balance
  ids : s.globalPID ≤ s'.globalPID ∧ s.globalTID ≤ s'.globalTID

section
variable {X : TaskId → Prop} {s s' s'' : Kernel} {ebp : Nat}

/-! ## Code without a switch -/

theorem Quiet.refl (X : TaskId → Prop) (s : Kernel) : Quiet X s s :=
  ⟨rfl, rfl, fun _ _ => rfl, fun _ _ => rfl, le_refl _, le_refl _⟩

theorem Quiet.trans (h : Quiet X s s') (h' : Quiet X s' s'') : Quiet X s s'' where
  current := h'.current.trans h.current
  esp := h'.esp.trans h.esp
  saved t ht := (h'.saved t ht).trans (h.saved t ht)
  balance t ht := (h'.balance t ht).trans (h.balance t ht)
  ids := ⟨le_trans h.ids.1 h'.ids.1, le_trans h.ids.2 h'.ids.2⟩

theorem quiet_modTask (s : Kernel) (t : TaskId) {f : TaskStruct → TaskStruct}
    (hf : X t ∨ (f (s.task t)).registerEsp = (s.task t).registerEsp ∧
      (f (s.task t)).pStats.balance = (s.task t).pStats.balance) : Quiet X s (s.modTask t f) := by
  have key : ∀ u, ¬ X u → ((s.modTask t f).task u).registerEsp = (s.task u).registerEsp ∧
      ((s.modTask t f).task u).pStats.balance = (s.task u).pStats.balance := by
    intro u hu
    by_cases h : u = t
    · subst h
      simpa [modTask] using hf.resolve_left hu
    · simp [modTask, h]
  exact ⟨rfl, rfl, fun u hu => (key u hu).1, fun u hu => (key u hu).2, le_refl _, le_refl _⟩

theorem quiet_setState (s : Kernel) (t : TaskId) (st : TaskState) : Quiet X s (s.setState t st) :=
  quiet_modTask s t (.inr ⟨rfl, rfl⟩)

theorem quiet_updateStats (s : Kernel) (t : TaskId) (v : TickCounter) : Quiet X s (s.updateStats t v) := by
  have h : Quiet X s s.getTicks.2 := { Quiet.refl X s with }
  exact h.trans (quiet_modTask s.getTicks.2 t (f := fun c => { c with pStats := addTicks c.pStats v s.getTicks.1 })
    (.inr ⟨rfl, addTicks_balance _ v s.getTicks.1⟩))

theorem quiet_setInterrupted (s : Kernel) (t : TaskId) (b : Bool) : Quiet X s (s.setInterrupted t b) :=
  { Quiet.refl X s with }

theorem quiet_setMm (s : Kernel) (m : Mm) : Quiet X s (s.setMm m) := { Quiet.refl X s with }

theorem quiet_setHeapPointer (s : Kernel) (t : TaskId) (hp : Nat) : Quiet X s (s.setHeapPointer t hp) :=
  quiet_modTask s t (.inr ⟨rfl, rfl⟩)

theorem quiet_listDel {n : ListHead} (h : s.listDel n = some s') : Quiet X s s' := by
  obtain ⟨l, -, h⟩ := Option.bind_eq_some_iff.mp h
  cases h; exact { Quiet.refl X s with }

theorem quiet_listAdd {n : ListHead} {i : Queue} (h : s.listAdd n i = some s') : Quiet X s s' := by
  obtain ⟨l, -, h⟩ := Option.bind_eq_some_iff.mp h
  cases h; exact { Quiet.refl X s with }

theorem quiet_listAddTail {n : ListHead} {i : Queue} (h : s.listAddTail n i = some s') : Quiet X s s' := by
  obtain ⟨l, -, h⟩ := Option.bind_eq_some_iff.mp h
  cases h; exact { Quiet.refl X s with }

theorem quiet_resetSemafors (s : Kernel) (tab : SemTable) : Quiet X s (s.resetSemafors tab) := by
  have key : ∀ (is : List (Fin numSem)) (s : Kernel), Quiet X s (is.foldl (fun s i =>
      (s.setSem tab i { semid := -1, count := 0, PID := -1 }).initListHead (.head (.blocked tab i))) s) := by
    intro is
    induction is with
    | nil => intro s; exact .refl X s
    | cons i is ih =>
      intro s
      have h : Quiet X s ((s.setSem tab i { semid := -1, count := 0, PID := -1 }).initListHead
        (.head (.blocked tab i))) := { Quiet.refl X s with }
      exact h.trans (ih _)
  exact key _ s

theorem quiet_resume (s : Kernel) : Quiet X s s.resume := by
  unfold resume
  split
  · exact (quiet_updateStats s _ _).trans (quiet_setInterrupted _ _ _)
  · exact .refl X s

/-! ## The switch -/

theorem Quiet.switched (h : Quiet (fun _ => False) s s') (h' : Switched s' s'' ebp) : Switched s s'' ebp where
  esp := h'.esp.trans (h.saved _ not_false)
  saved t := by rw [h'.saved, h.current, h.saved t not_false]
  balance t := (h'.balance t).trans (h.balance t not_false)
  ids := ⟨le_trans h.ids.1 h'.ids.1, le_trans h.ids.2 h'.ids.2⟩

theorem Switched.quiet (h : Switched s s' ebp) (h' : Quiet (fun _ => False) s' s'') : Switched s s'' ebp where
  esp := by rw [h'.esp, h'.current, h.esp]
  saved t := (h'.saved t not_false).trans (h.saved t)
  balance t := (h'.balance t not_false).trans (h.balance t)
  ids := ⟨le_trans h.ids.1 h'.ids.1, le_trans h.ids.2 h'.ids.2⟩

theorem switched_innerTaskSwitch (s : Kernel) (t : TaskId) (ebp : Nat) : Switched s (s.innerTaskSwitch t ebp) ebp where
  esp := rfl
  saved u := by
    simp only [innerTaskSwitch, modTask, Function.update_apply]
    split <;> rfl
  balance u := by
    simp only [innerTaskSwitch, modTask, Function.update_apply]
    split
    · rename_i h; subst h; rfl
    · rfl
  ids := ⟨le_refl _, le_refl _⟩

theorem switched_dispatch (s : Kernel) (t : TaskId) (ebp : Nat) : Switched s (s.dispatch t ebp) ebp := by
  have h1 : Quiet (fun _ => False) s { s.setState t .run with remainingQuantum := (s.setState t .run).getQuantum t } :=
    { quiet_setState s t .run with }
  have h2 := (h1.trans (quiet_updateStats _ s.current .system)).trans (quiet_updateStats _ t .ready)
  have h3 := h2.trans (quiet_modTask _ t (f := fun c => { c with
    pStats := { c.pStats with totalTrans := c.pStats.totalTrans + 1 } }) (.inr ⟨rfl, rfl⟩))
  exact h3.switched (switched_innerTaskSwitch _ t ebp)

theorem nextTask_links {t : TaskId} (h : s.nextTask = some (t, s')) : ∃ l, s' = { s with links := l } := by
  unfold nextTask at h
  split at h
  · obtain ⟨e, -, h⟩ := Option.bind_eq_some_iff.mp h
    obtain ⟨s1, h1, h⟩ := Option.bind_eq_some_iff.mp h
    obtain ⟨v, -, h⟩ := Option.bind_eq_some_iff.mp h
    obtain ⟨l, -, h1⟩ := Option.bind_eq_some_iff.mp h1
    cases h
    cases h1
    exact ⟨l, rfl⟩
  · obtain ⟨v, -, h⟩ := Option.bind_eq_some_iff.mp h
    cases h
    exact ⟨s.links, rfl⟩

theorem switched_schedNextRr (h : s.schedNextRr ebp = some s') : Switched s s' ebp := by
  obtain ⟨⟨t, s1⟩, h1, h⟩ := Option.bind_eq_some_iff.mp h
  cases h
  obtain ⟨l, rfl⟩ := nextTask_links h1
  have hlinks : Quiet (fun _ => False) s { s with links := l } := { Quiet.refl _ s with }
  exact hlinks.switched (switched_dispatch _ t ebp)

theorem quiet_updateProcessStateRr {t : TaskId} {dst : Option Queue} (h : s.updateProcessStateRr t dst = some s') :
    Quiet X s s' := by
  have hready : ∀ s2 : Kernel, Quiet X s2 ((s2.updateStats t .system).setState t .ready) := fun s2 =>
    (quiet_updateStats s2 t .system).trans (quiet_setState _ t .ready)
  unfold updateProcessStateRr at h
  dsimp only at h
  split at h
  · obtain ⟨s1, h1, h⟩ := Option.bind_eq_some_iff.mp h
    refine (quiet_listDel h1).trans ?_
    split at h
    · obtain ⟨s2, h2, h⟩ := Option.bind_eq_some_iff.mp h
      refine (quiet_listAddTail h2).trans ?_
      split at h <;> cases h
      · exact quiet_setState s2 t .blocked
      · exact hready s2
    · cases h; exact quiet_setState s1 t .run
  · obtain ⟨s1, h1, h⟩ := Option.bind_eq_some_iff.mp h
    cases h1
    split at h
    · obtain ⟨s2, h2, h⟩ := Option.bind_eq_some_iff.mp h
      refine (quiet_listAddTail h2).trans ?_
      split at h <;> cases h
      · exact quiet_setState s2 t .blocked
      · exact hready s2
    · cases h; exact quiet_setState s t .run

theorem switched_forceTaskSwitch (h : s.forceTaskSwitch ebp = some s') : Switched s s' ebp := by
  obtain ⟨s1, h1, h⟩ := Option.bind_eq_some_iff.mp h
  exact (quiet_updateProcessStateRr h1).switched (switched_schedNextRr h)

/-! ## Calls that create a task -/

theorem quiet_copyTaskUnion (s : Kernel) (src : TaskId) {dst : TaskId} (hX : X dst) :
    Quiet X s (s.copyTaskUnion src dst) := by
  have key : ∀ u, ¬ X u → (s.copyTaskUnion src dst).task u = s.task u := by
    intro u hu
    apply Function.update_of_ne
    intro e
    exact hu (e ▸ hX)
  exact ⟨rfl, rfl, fun u hu => by rw [key u hu], fun u hu => by rw [key u hu], le_refl _, le_refl _⟩

theorem initStats_task (s : Kernel) (t : TaskId) : ((s.initStats t).task t).pStats.balance = 0 - s.clock s.reads ∧
    ((s.initStats t).task t).registerEsp = (s.task t).registerEsp := by
  simp [initStats, getTicks, modTask, Stats.balance]

theorem quiet_initStats (s : Kernel) {t : TaskId} (hX : X t) : Quiet X s (s.initStats t) := by
  have h : Quiet X s s.getTicks.2.getTicks.2 := { Quiet.refl X s with }
  exact h.trans (quiet_modTask _ t (f := fun c => { c with pStats := _ }) (.inl hX))

def freeHead (s : Kernel) : Option TaskId := (s.listFirst .freequeue).bind listHeadToTaskStruct

/-- The task `c` has the context `sp` to start in, and its account starts with the next tick. -/
structure Created (s s' : Kernel) (c : TaskId) (sp : StackPtr) : Prop where
  saved : (s'.task c).registerEsp = some sp
  balance : (s'.task c).pStats.balance = 0 - s.clock s.reads

theorem created_start {c : TaskId} {sp : StackPtr} {f : TaskStruct → TaskStruct} (hX : X c)
    (hf : ∀ t, (f t).registerEsp = some sp)
    (h : (((s.modTask c f).setInterrupted c false).initStats c).listAddTail (.anchor c) .readyqueue = some s') :
    Quiet X s s' ∧ Created s s' c sp := by
  have hlink : Quiet (fun _ => False) _ s' := quiet_listAddTail h
  refine ⟨?_, ?_, ?_⟩
  · refine Quiet.trans ?_ (quiet_listAddTail h)
    exact ((quiet_modTask s c (.inl hX)).trans (quiet_setInterrupted _ c false)).trans (quiet_initStats _ hX)
  · rw [hlink.saved c not_false, (initStats_task _ c).2]
    simp [setInterrupted, modTask, hf]
  · rw [hlink.balance c not_false, (initStats_task _ c).1]
    rfl

theorem sysFork_contexts {r : Int} (h : s.sysFork ebp = some (r, s')) :
    Quiet (fun t => s.freeHead = some t) s s' ∧
      (0 < r → ∃ c, s.freeHead = some c ∧ Created s s' c ⟨c, ebp - 4⟩) := by
  unfold sysFork at h
  split at h
  · cases h
    exact ⟨.refl _ _, fun h0 => absurd h0 (by decide)⟩
  obtain ⟨lh, hlh, h⟩ := Option.bind_eq_some_iff.mp h
  obtain ⟨s1, h1, h⟩ := Option.bind_eq_some_iff.mp h
  obtain ⟨c, hc, h⟩ := Option.bind_eq_some_iff.mp h
  obtain ⟨tab, -, h⟩ := Option.bind_eq_some_iff.mp h
  obtain ⟨pt, -, h⟩ := Option.bind_eq_some_iff.mp h
  have hfree : s.freeHead = some c := by rw [freeHead, hlh]; exact hc
  have hq : Quiet (fun t => s.freeHead = some t) s (((s1.copyTaskUnion s1.current c).resetSemafors tab).allocateDIR c) :=
    (((quiet_listDel h1).trans (quiet_copyTaskUnion s1 s1.current hfree)).trans (quiet_resetSemafors _ tab)).trans
      (quiet_modTask _ c (.inl hfree))
  have hticks : (((s1.copyTaskUnion s1.current c).resetSemafors tab).allocateDIR c).clock = s.clock ∧
      (((s1.copyTaskUnion s1.current c).resetSemafors tab).allocateDIR c).reads = s.reads := by
    obtain ⟨l, -, e⟩ := Option.bind_eq_some_iff.mp h1
    cases e
    exact ⟨rfl, rfl⟩
  generalize ((s1.copyTaskUnion s1.current c).resetSemafors tab).allocateDIR c = s2 at h hq hticks
  dsimp only at h
  split at h
  · obtain ⟨s3, h3, h⟩ := Option.bind_eq_some_iff.mp h
    cases h
    exact ⟨hq.trans ((quiet_setMm s2 _).trans (quiet_listAddTail h3)), fun h0 => absurd h0 (by decide)⟩
  · obtain ⟨ppt, -, h⟩ := Option.bind_eq_some_iff.mp h
    obtain ⟨mm, -, h⟩ := Option.bind_eq_some_iff.mp h
    obtain ⟨s3, h3, h⟩ := Option.bind_eq_some_iff.mp h
    cases h
    have hmm : Quiet (fun t => s.freeHead = some t) s2 { s2.setMm mm with globalPID := s2.globalPID + 1 } :=
      { Quiet.refl _ s2 with ids := ⟨Int.le_add_of_nonneg_right (by decide), le_refl _⟩ }
    obtain ⟨hstart, hc1, hc2⟩ := created_start (X := fun t => s.freeHead = some t) hfree (fun _ => rfl) h3
    refine ⟨hq.trans (hmm.trans hstart), fun _ => ⟨c, hfree, hc1, ?_⟩⟩
    rw [← hticks.1, ← hticks.2]
    exact hc2

theorem sysThreadCreate_contexts {f p w : UInt32} {r : Int} (h : s.sysThreadCreate f p w = some (r, s')) :
    Quiet (fun t => s.freeHead = some t) s s' ∧
      (0 < r → ∃ c, s.freeHead = some c ∧ Created s s' c ⟨c, 4 * (kernelStackSize - 18)⟩) := by
  unfold sysThreadCreate at h
  split at h
  · cases h
    exact ⟨.refl _ _, fun h0 => absurd h0 (by decide)⟩
  split at h
  · cases h
    exact ⟨.refl _ _, fun h0 => absurd h0 (by decide)⟩
  obtain ⟨lh, hlh, h⟩ := Option.bind_eq_some_iff.mp h
  obtain ⟨s1, h1, h⟩ := Option.bind_eq_some_iff.mp h
  obtain ⟨c, hc, h⟩ := Option.bind_eq_some_iff.mp h
  have hfree : s.freeHead = some c := by rw [freeHead, hlh]; exact hc
  have hcopy := (quiet_listDel h1).trans (quiet_copyTaskUnion s1 s1.current (X := fun t => s.freeHead = some t) hfree)
  have hticks : (s1.copyTaskUnion s1.current c).clock = s.clock ∧ (s1.copyTaskUnion s1.current c).reads = s.reads := by
    obtain ⟨l, -, e⟩ := Option.bind_eq_some_iff.mp h1
    cases e
    exact ⟨rfl, rfl⟩
  generalize s1.copyTaskUnion s1.current c = s2 at h hcopy hticks
  dsimp only at h
  have htid : Quiet (fun t => s.freeHead = some t) s2 { s2 with globalTID := s2.globalTID + 1 } :=
    { Quiet.refl _ s2 with ids := ⟨le_refl _, Int.le_add_of_nonneg_right (by decide)⟩ }
  have hq := (hcopy.trans htid).trans (quiet_modTask _ c (f := fun t => { t with
    TID := s2.globalTID + 1, PID := (s2.task s2.current).PID, state := .ready
    semafors := (s2.task s2.current).semafors }) (.inl hfree))
  have hticks3 : (({ s2 with globalTID := s2.globalTID + 1 } : Kernel).modTask c fun t => { t with
      TID := s2.globalTID + 1, PID := (s2.task s2.current).PID, state := .ready
      semafors := (s2.task s2.current).semafors }).clock = s.clock ∧
      (({ s2 with globalTID := s2.globalTID + 1 } : Kernel).modTask c fun t => { t with
      TID := s2.globalTID + 1, PID := (s2.task s2.current).PID, state := .ready
      semafors := (s2.task s2.current).semafors }).reads = s.reads := hticks
  generalize (({ s2 with globalTID := s2.globalTID + 1 } : Kernel).modTask c fun t => { t with
      TID := s2.globalTID + 1, PID := (s2.task s2.current).PID, state := .ready
      semafors := (s2.task s2.current).semafors }) = s3 at h hq hticks3
  split at h
  · cases h
    exact ⟨hq, fun h0 => absurd h0 (by decide)⟩
  obtain ⟨pt, -, h⟩ := Option.bind_eq_some_iff.mp h
  split at h
  · obtain ⟨ppt, -, h⟩ := Option.bind_eq_some_iff.mp h
    obtain ⟨mm, -, h⟩ := Option.bind_eq_some_iff.mp h
    obtain ⟨s4, h4, h⟩ := Option.bind_eq_some_iff.mp h
    cases h
    obtain ⟨hstart, hc1, hc2⟩ := created_start (X := fun t => s.freeHead = some t) hfree (fun _ => rfl) h4
    refine ⟨hq.trans (Quiet.trans ?_ hstart), fun _ => ⟨c, hfree, hc1, ?_⟩⟩
    · exact ((quiet_setMm s3 _).trans (quiet_setHeapPointer _ s3.current _)).trans (quiet_setMm _ mm)
    · rw [← hticks3.1, ← hticks3.2]
      exact hc2
  · obtain ⟨⟨hp, mm⟩, -, h⟩ := Option.bind_eq_some_iff.mp h
    obtain ⟨s4, h4, h⟩ := Option.bind_eq_some_iff.mp h
    cases h
    refine ⟨hq.trans (((quiet_setMm s3 mm).trans (quiet_setHeapPointer _ s3.current hp)).trans
      (quiet_listAddTail h4)), fun h0 => absurd h0 (by decide)⟩

/-! ## Semaphores -/

theorem quiet_setCount (s : Kernel) (tab : SemTable) (i : Fin numSem) (c : Int) : Quiet X s (s.setCount tab i c) :=
  { Quiet.refl X s with }

theorem quiet_sysSemCreate {v r : Int} (h : s.sysSemCreate v = some (r, s')) : Quiet X s s' := by
  obtain ⟨tab, -, h⟩ := Option.bind_eq_some_iff.mp h
  split at h <;> cases h
  · exact { Quiet.refl X s with }
  · exact .refl X s

theorem quiet_sysSemSignal {k r : Int} (h : s.sysSemSignal k = some (r, s')) : Quiet X s s' := by
  obtain ⟨_ | ⟨tab, i⟩, -, h⟩ := Option.bind_eq_some_iff.mp h
  · cases h; exact .refl X s
  refine (quiet_setCount s tab i (toInt32 ((s.sem tab i).count + 1))).trans ?_
  dsimp only at h
  split at h
  · obtain ⟨l, -, h⟩ := Option.bind_eq_some_iff.mp h
    obtain ⟨s1, h1, h⟩ := Option.bind_eq_some_iff.mp h
    obtain ⟨t, -, h⟩ := Option.bind_eq_some_iff.mp h
    obtain ⟨s2, h2, h⟩ := Option.bind_eq_some_iff.mp h
    cases h
    exact ((quiet_listDel h1).trans (quiet_setState s1 t .ready)).trans (quiet_listAdd h2)
  · cases h; exact .refl X _

theorem quiet_wakeAll (tab : SemTable) (i : Fin numSem) : ∀ (fuel : Nat) {s s' : Kernel},
    s.wakeAll tab i fuel = some s' → Quiet X s s'
  | 0, _, _, h => by cases h
  | fuel + 1, s, s', h => by
    unfold wakeAll at h
    split at h
    · cases h; exact .refl X s
    · obtain ⟨l, -, h⟩ := Option.bind_eq_some_iff.mp h
      obtain ⟨s1, h1, h⟩ := Option.bind_eq_some_iff.mp h
      obtain ⟨t, -, h⟩ := Option.bind_eq_some_iff.mp h
      obtain ⟨s2, h2, h⟩ := Option.bind_eq_some_iff.mp h
      exact (((quiet_listDel h1).trans (quiet_setState s1 t .ready)).trans (quiet_listAddTail h2)).trans
        (quiet_wakeAll tab i fuel h)

theorem quiet_sysSemDestroy {k r : Int} (h : s.sysSemDestroy k = some (r, s')) : Quiet X s s' := by
  obtain ⟨_ | ⟨tab, i⟩, -, h⟩ := Option.bind_eq_some_iff.mp h
  · cases h; exact .refl X s
  · obtain ⟨s1, h1, h⟩ := Option.bind_eq_some_iff.mp h
    cases h
    exact (quiet_wakeAll tab i _ h1).trans { Quiet.refl X s1 with }

/-! ## Steps -/

def switches (s : Kernel) (e : Event) : Bool :=
  match e.op with
  | .clock => s.remainingQuantum - 1 = 0 ∧ ¬ s.listEmpty .readyqueue
  | .yield | .exit | .threadExit => true
  | .semWait semID =>
    match s.semCheck semID with
    | some (.accepted tab i) => toInt32 ((s.sem tab i).count - 1) < 0
    | _ => false
  | _ => false

/-- The task the event creates, with the context it starts in. -/
def creates (s : Kernel) (e : Event) : Option (TaskId × StackPtr) :=
  match e.op with
  | .fork =>
    if (s.sysFork e.ebp).any (fun r => 0 < r.1) then s.freeHead.map fun c => (c, ⟨c, e.ebp - 4⟩) else none
  | .threadCreate f p w =>
    if (s.sysThreadCreate f p w).any (fun r => 0 < r.1) then
      s.freeHead.map fun c => (c, ⟨c, 4 * (kernelStackSize - 18)⟩)
    else none
  | _ => none

/-- What a stretch of kernel code does to contexts and statistics. -/
def Effect (s : Kernel) (e : Event) (s' : Kernel) : Prop :=
  if s.switches e then Switched s s' e.ebp
  else Quiet (fun t => s.freeHead = some t) s s' ∧ ∀ c sp, s.creates e = some (c, sp) → Created s s' c sp

theorem effect_of_quiet {e : Event} (h : s.switches e = false) (hc : s.creates e = none)
    (hq : Quiet (fun t => s.freeHead = some t) s s') : Effect s e s' := by
  unfold Effect
  rw [if_neg (by simp [h])]
  exact ⟨hq, fun c sp e => by rw [hc] at e; cases e⟩

theorem schedule_switched (h : s.schedule ebp = some s')
    (hsw : s.remainingQuantum - 1 = 0 ∧ ¬ s.listEmpty .readyqueue = true) : Switched s s' ebp := by
  have hsw' : s.updateSchedDataRr.remainingQuantum = 0 ∧ ¬ s.updateSchedDataRr.listEmpty .readyqueue = true := hsw
  unfold schedule needsSchedRr at h
  dsimp only at h
  rw [if_pos hsw'] at h
  obtain ⟨s2, h2, h⟩ := Option.bind_eq_some_iff.mp h
  have h1 : Quiet (fun _ => False) s s.updateSchedDataRr := { Quiet.refl _ s with }
  exact (h1.trans (quiet_updateProcessStateRr h2)).switched (switched_schedNextRr h)

theorem schedule_quiet (h : s.schedule ebp = some s')
    (hsw : ¬ (s.remainingQuantum - 1 = 0 ∧ ¬ s.listEmpty .readyqueue = true)) : Quiet X s s' := by
  have hsw' : ¬ (s.updateSchedDataRr.remainingQuantum = 0 ∧ ¬ s.updateSchedDataRr.listEmpty .readyqueue = true) := hsw
  unfold schedule needsSchedRr at h
  dsimp only at h
  rw [if_neg hsw'] at h
  by_cases h0 : s.updateSchedDataRr.remainingQuantum = 0
  · rw [if_pos h0] at h
    cases h
    exact { Quiet.refl X s with }
  · rw [if_neg h0] at h
    cases h
    exact { Quiet.refl X s with }

theorem clockHandler_effect (h : s.clockHandler ebp = some s') : Effect s ⟨.clock, ebp⟩ s' := by
  let s1 : Kernel := { s.userToSystem.setInterrupted s.current true with zeosTicks := s.zeosTicks + 1 }
  have h1 : ∀ X, Quiet X s s1 := fun X =>
    ((quiet_updateStats s s.current .user).trans (quiet_setInterrupted _ s.current true)).trans
      { Quiet.refl X _ with }
  have h2 : s1.schedule ebp = some s' := h
  by_cases hsw : s.remainingQuantum - 1 = 0 ∧ ¬ s.listEmpty .readyqueue = true
  · have e : s.switches ⟨.clock, ebp⟩ = true := by simpa [switches] using hsw
    unfold Effect
    rw [if_pos e]
    exact (h1 _).switched (schedule_switched h2 hsw)
  · have e : s.switches ⟨.clock, ebp⟩ = false := by simpa [switches] using hsw
    exact effect_of_quiet e rfl ((h1 _).trans (schedule_quiet h2 hsw))

theorem sysSemWait_effect {k r : Int} (h : s.sysSemWait k ebp = some (r, s')) : Effect s ⟨.semWait k, ebp⟩ s' := by
  obtain ⟨_ | ⟨tab, i⟩, hchk, h⟩ := Option.bind_eq_some_iff.mp h
  · cases h
    exact effect_of_quiet (by simp [switches, hchk]) rfl (.refl _ s)
  dsimp only at h
  rw [show ((s.setCount tab i (toInt32 ((s.sem tab i).count - 1))).sem tab i).count =
    toInt32 ((s.sem tab i).count - 1) by simp [setCount, setSem]] at h
  have hcount : ∀ X, Quiet X s (s.setCount tab i (toInt32 ((s.sem tab i).count - 1))) := fun X =>
    quiet_setCount s tab i _
  split at h
  · rename_i hneg
    have e : s.switches ⟨.semWait k, ebp⟩ = true := by simpa [switches, hchk] using hneg
    unfold Effect
    rw [if_pos e]
    obtain ⟨s1, h1, h⟩ := Option.bind_eq_some_iff.mp h
    obtain ⟨s2, h2, h⟩ := Option.bind_eq_some_iff.mp h
    cases h
    refine Quiet.switched ?_ (switched_schedNextRr h2)
    exact ((hcount _).trans (quiet_setState _ _ .blocked)).trans (quiet_listAdd h1)
  · rename_i hneg
    cases h
    exact effect_of_quiet (by simpa [switches, hchk] using hneg) rfl (hcount _)

theorem sysExit_switched (h : s.sysExit ebp = some s') : Switched s s' ebp := by
  obtain ⟨pt, -, h⟩ := Option.bind_eq_some_iff.mp h
  obtain ⟨⟨hp, mm⟩, -, h⟩ := Option.bind_eq_some_iff.mp h
  obtain ⟨s1, h1, h⟩ := Option.bind_eq_some_iff.mp h
  refine Quiet.switched ?_ (switched_schedNextRr h)
  refine Quiet.trans ?_ (quiet_modTask s1 _ (.inr ⟨rfl, rfl⟩))
  exact ((quiet_setMm s mm).trans (quiet_setHeapPointer _ s.current hp)).trans (quiet_listAddTail h1)

theorem sysThreadExit_switched (h : s.sysThreadExit ebp = some s') : Switched s s' ebp := by
  obtain ⟨pt, -, h⟩ := Option.bind_eq_some_iff.mp h
  obtain ⟨s1, h1, h⟩ := Option.bind_eq_some_iff.mp h
  refine Quiet.switched ?_ (switched_schedNextRr h)
  exact ((quiet_setMm s _).trans (quiet_setHeapPointer _ s.current _)).trans (quiet_listAddTail h1)

theorem effect_of_created {e : Event} {r : Int} {sp : TaskId → StackPtr} (hsw : s.switches e = false)
    (hcr : s.creates e = if 0 < r then s.freeHead.map fun c => (c, sp c) else none)
    (h : Quiet (fun t => s.freeHead = some t) s s' ∧ (0 < r → ∃ c, s.freeHead = some c ∧ Created s s' c (sp c))) :
    Effect s e s' := by
  unfold Effect
  rw [if_neg (by simp [hsw])]
  refine ⟨h.1, fun c sp' e => ?_⟩
  rw [hcr] at e
  split at e
  · rename_i hr
    obtain ⟨c', hc', hcreated⟩ := h.2 hr
    rw [hc'] at e
    cases e
    exact hcreated
  · cases e

theorem handle_effect {e : Event} (h : s.handle e = some s') : Effect s e s' := by
  obtain ⟨op, ebp⟩ := e
  cases op <;> simp only [handle] at h
  case clock => exact clockHandler_effect h
  case yield => exact switched_forceTaskSwitch h
  case exit => exact sysExit_switched h
  case fork =>
    obtain ⟨⟨r, s1⟩, hr, rfl⟩ := Option.map_eq_some_iff.mp h
    exact effect_of_created rfl (by simp [creates, hr]) (sysFork_contexts hr)
  case threadCreate f p w =>
    obtain ⟨⟨r, s1⟩, hr, rfl⟩ := Option.map_eq_some_iff.mp h
    exact effect_of_created rfl (by simp [creates, hr]) (sysThreadCreate_contexts hr)
  case threadExit => exact sysThreadExit_switched h
  case sbrk size =>
    obtain ⟨⟨r, s1⟩, hr, rfl⟩ := Option.map_eq_some_iff.mp h
    unfold sysSbrk at hr
    dsimp only at hr
    split at hr
    · cases hr
      exact effect_of_quiet rfl rfl (.refl _ s)
    · obtain ⟨pt, -, hr⟩ := Option.bind_eq_some_iff.mp hr
      obtain ⟨⟨ret, hp, mm⟩, -, hr⟩ := Option.bind_eq_some_iff.mp hr
      cases hr
      exact effect_of_quiet rfl rfl ((quiet_setMm s mm).trans (quiet_setHeapPointer _ s.current hp))
  case semCreate v =>
    obtain ⟨⟨r, s1⟩, hr, rfl⟩ := Option.map_eq_some_iff.mp h
    exact effect_of_quiet rfl rfl (quiet_sysSemCreate hr)
  case semWait k =>
    obtain ⟨⟨r, s1⟩, hr, rfl⟩ := Option.map_eq_some_iff.mp h
    exact sysSemWait_effect hr
  case semSignal k =>
    obtain ⟨⟨r, s1⟩, hr, rfl⟩ := Option.map_eq_some_iff.mp h
    exact effect_of_quiet rfl rfl (quiet_sysSemSignal hr)
  case semDestroy k =>
    obtain ⟨⟨r, s1⟩, hr, rfl⟩ := Option.map_eq_some_iff.mp h
    exact effect_of_quiet rfl rfl (quiet_sysSemDestroy hr)

theorem step_effect {e : Event} (h : s.step e = some s') : Effect s e s' := by
  unfold step at h
  split at h
  · cases h
  obtain ⟨s1, h1, rfl⟩ := Option.map_eq_some_iff.mp h
  have he := handle_effect h1
  unfold Effect at he ⊢
  split at he
  · rename_i hsw
    rw [if_pos hsw]
    exact he.quiet (quiet_resume s1)
  · rename_i hsw
    rw [if_neg hsw]
    refine ⟨he.1.trans (quiet_resume s1), fun c sp hc => ?_⟩
    have hres : Quiet (fun _ => False) s1 s1.resume := quiet_resume s1
    have hcr := he.2 c sp hc
    exact ⟨(hres.saved c not_false).trans hcr.saved, (hres.balance c not_false).trans hcr.balance⟩

end

end Kernel

/-! ## Who is live after a step -/

section
variable {s s' : Kernel} {a b : AbsKernel} {e : Kernel.Event}

theorem Rep.freeHead (h : Rep s a) {child : TaskId} {rest : List TaskId} (hq : a.queue .freequeue = child :: rest) :
    s.freeHead = some child := by
  rw [Kernel.freeHead, h.listFirst hq]
  rfl

theorem live_step (h : Rep s a) (g : a.Good) (hpid : 0 ≤ a.globalPID) (htid : 0 ≤ a.globalTID)
    (hb : a.step (Rep.argsOk s e.op) e.op = some b) {t : TaskId} (ht : b.Live t) :
    t = a.idleTask ∨ a.Live t ∨ ∃ sp, s.creates e = some (t, sp) := by
  obtain ⟨op, ebp⟩ := e
  have hold : a.Live t → t = a.idleTask ∨ a.Live t ∨ ∃ sp, s.creates ⟨op, ebp⟩ = some (t, sp) := fun h => .inr (.inl h)
  rcases AbsKernel.step_cases hb with hs | ⟨-, ⟨-, hx⟩ | ⟨-, hx⟩ | ⟨hop, r, hr, hrb⟩ | ⟨f, p, w, hop, r, hr, hrb⟩ |
    ⟨size, -, hx⟩⟩
  · exact (hs.live t ht).imp_right .inl
  · obtain ⟨pt, hp, mm, -, -, hl⟩ := AbsKernel.leaves_exit g hx
    exact (hl.live t ht).imp_right fun h => .inl h.2
  · obtain ⟨pt, -, hl⟩ := AbsKernel.leaves_threadExit g hx
    exact (hl.live t ht).imp_right fun h => .inl h.2
  · obtain rfl : op = .fork := hop
    have hrel := h.sysFork (g.current _) ebp
    rw [hr] at hrel
    cases hrel' : s.sysFork ebp with
    | none => rw [hrel'] at hrel; cases hrel
    | some p =>
      rw [hrel'] at hrel
      cases hrel with
      | some hrel =>
        rcases AbsKernel.fork_cases hr with ⟨-, rfl⟩ | ⟨child, rest, tab, hq, -, ⟨mm, -, rfl⟩ | ⟨mm, pt, mm', -, -, -, rfl⟩⟩
        · subst hrb; exact hold ht
        · subst hrb
          exact hold (AbsKernel.forkChild_live hq tab mm ht)
        · subst hrb
          rcases AbsKernel.forkStart_live hq ht with rfl | ht
          · refine .inr (.inr ⟨⟨t, ebp - 4⟩, ?_⟩)
            have hpos : 0 < p.1 := by rw [hrel.1]; show 0 < a.globalPID + 1; omega
            simp [Kernel.creates, hrel', hpos, h.freeHead hq]
          · exact hold ht
  · obtain rfl : op = .threadCreate f p w := hop
    by_cases hok : s.threadArgsOk f p w = true
    · have hrel := h.sysThreadCreate g f p w hok
      rw [hr] at hrel
      cases hrel' : s.sysThreadCreate f p w with
      | none => rw [hrel'] at hrel; cases hrel
      | some q =>
        rw [hrel'] at hrel
        cases hrel with
        | some hrel =>
          subst hrb
          rcases AbsKernel.threadCreate_cases hr with ⟨-, rfl⟩ | ⟨child, rest, hq, ⟨-, rfl⟩ | ⟨-, pt, -, ⟨mm, -, -, rfl⟩ |
            ⟨hp, mm, -, -, rfl⟩⟩⟩
          · exact hold ht
          · exact hold ht
          · rcases AbsKernel.threadCreate_live ht with rfl | ht
            · refine .inr (.inr ⟨⟨t, 4 * (kernelStackSize - 18)⟩, ?_⟩)
              have hpos : 0 < q.1 := by rw [hrel.1]; show 0 < a.globalTID + 1; omega
              simp [Kernel.creates, hrel', hpos, h.freeHead hq]
            · exact hold ht
          · exact hold ht
    · have hab : a = b := by
        have hb := (AbsKernel.step_call (by simp) hb).2
        simpa [AbsKernel.handle, Rep.argsOk, hok] using hb
      exact hold (hab ▸ ht)
  · rcases AbsKernel.sbrk_cases hx with rfl | ⟨pt, ret, hp, mm, -, -, rfl⟩
    · exact hold ht
    · exact hold ht

theorem step_idleTask (g : a.Good) {ok : Bool} {op : Kernel.Op} (hb : a.step ok op = some b) :
    b.idleTask = a.idleTask := by
  rcases AbsKernel.step_cases hb with hs | ⟨-, ⟨-, hx⟩ | ⟨-, hx⟩ | ⟨-, r, hr, rfl⟩ | ⟨f, p, w, -, r, hr, rfl⟩ | ⟨size, -, hx⟩⟩
  · exact hs.idle
  · obtain ⟨pt, hp, mm, -, -, hl⟩ := AbsKernel.leaves_exit g hx
    exact hl.idle
  · obtain ⟨pt, -, hl⟩ := AbsKernel.leaves_threadExit g hx
    exact hl.idle
  · rcases AbsKernel.fork_cases hr with ⟨-, rfl⟩ | ⟨child, rest, tab, -, -, ⟨mm, -, rfl⟩ | ⟨mm, pt, mm', -, -, -, rfl⟩⟩ <;> rfl
  · rcases AbsKernel.threadCreate_cases hr with ⟨-, rfl⟩ | ⟨child, rest, -, ⟨-, rfl⟩ | ⟨-, pt, -, ⟨mm, -, -, rfl⟩ |
      ⟨hp, mm, -, -, rfl⟩⟩⟩ <;> rfl
  · rcases AbsKernel.sbrk_cases hx with rfl | ⟨pt, ret, hp, mm, -, -, rfl⟩ <;> rfl

/-- What the records about tasks rest on: the description of the state, and counters that have not
run below zero. -/
structure Described (s : Kernel) (a : AbsKernel) : Prop extends Rep s a where
  good : a.Good
  pid : 0 ≤ a.globalPID
  tid : 0 ≤ a.globalTID

theorem Described.step (h : Described s a) (hs : s.step e = some s') :
    ∃ b, a.step (Rep.argsOk s e.op) e.op = some b ∧ Described s' b := by
  obtain ⟨b, hb, h', g'⟩ := h.toRep.step_some h.good hs
  have hids : s.globalPID ≤ s'.globalPID ∧ s.globalTID ≤ s'.globalTID := by
    have heff := Kernel.step_effect hs
    unfold Kernel.Effect at heff
    split at heff
    · exact heff.ids
    · exact heff.1.ids
  rw [h.globalPID, h.globalTID, h'.globalPID, h'.globalTID] at hids
  exact ⟨b, hb, h', g', h.pid.trans hids.1, h.tid.trans hids.2⟩

theorem boot_described (mc : Machine) : Described (Kernel.boot mc) (bootAbs mc) :=
  ⟨boot_rep mc, boot_good mc, (by decide : (0 : Int) ≤ 1000), (by decide : (0 : Int) ≤ 1000)⟩

/-- The tasks whose records count: the live ones and idle. -/
def Held (a : AbsKernel) (t : TaskId) : Prop := a.Live t ∨ t = a.idleTask

theorem boot_held {mc : Machine} {t : TaskId} (ht : Held (bootAbs mc) t) : t = 1 ∨ t = 0 := by
  rcases ht with (ht | ht | ⟨tab, i, ht⟩) | ht
  · exact .inl ht
  · cases ht
  · cases ht
  · exact .inr ht

theorem freeHead_ne (h : Rep s a) (g : a.Good) {t : TaskId} (ht : Held a t) : s.freeHead ≠ some t := by
  intro hf
  cases hq : a.queue .freequeue with
  | nil =>
    rw [Kernel.freeHead, h.listFirst_nil hq] at hf
    cases hf
  | cons child rest =>
    rw [h.freeHead hq] at hf
    obtain rfl := Option.some.inj hf
    have hmem : child ∈ a.queue .freequeue := by rw [hq]; exact List.mem_cons_self
    rcases ht with ht | rfl
    · exact AbsKernel.not_live_of_free g hmem ht
    · exact g.idle .freequeue hmem

theorem creates_freeHead {c : TaskId} {sp : StackPtr} (h : s.creates e = some (c, sp)) : s.freeHead = some c := by
  unfold Kernel.creates at h
  split at h
  · split at h
    · obtain ⟨c', hc, e⟩ := Option.map_eq_some_iff.mp h
      cases e; exact hc
    · cases h
  · split at h
    · obtain ⟨c', hc, e⟩ := Option.map_eq_some_iff.mp h
      cases e; exact hc
    · cases h
  · cases h

theorem creates_of_switches (hsw : s.switches e = true) : s.creates e = none := by
  obtain ⟨op, ebp⟩ := e
  cases op <;> simp_all [Kernel.switches, Kernel.creates]

theorem held_step (h : Described s a) (hb : a.step (Rep.argsOk s e.op) e.op = some b) {t : TaskId} (ht : Held b t) :
    Held a t ∨ ∃ sp, s.creates e = some (t, sp) := by
  rcases ht with ht | rfl
  · rcases live_step h.toRep h.good h.pid h.tid hb ht with e | ht | hc
    · exact .inl (.inr e)
    · exact .inl (.inl ht)
    · exact .inr hc
  · exact .inl (.inr (step_idleTask h.good hb))

/-! ## The step at which a task switches to itself -/

theorem forceTaskSwitch_current (a : AbsKernel) :
    a.forceTaskSwitch.current = (a.queue .readyqueue).headD a.current := by
  rw [AbsKernel.forceTaskSwitch, AbsKernel.schedNextRr_current]
  cases hq : a.queue .readyqueue <;> simp [AbsKernel.push, AbsKernel.setQueue, AbsKernel.setState, AbsKernel.modTask, hq]

theorem headD_ne_current (g : a.Good) (hne : a.current ≠ a.idleTask) :
    (a.queue .readyqueue).headD a.idleTask ≠ a.current := by
  cases hq : a.queue .readyqueue with
  | nil => exact hne.symm
  | cons t ts =>
    intro e
    apply g.current .readyqueue
    rw [hq, ← e]
    exact List.mem_cons_self

theorem switch_self_iff (h : Rep s a) (g : a.Good) (hsw : s.switches e = true)
    (hb : a.step (Rep.argsOk s e.op) e.op = some b) :
    b.current = a.current ↔ e.op = .yield ∧ a.queue .readyqueue = [] := by
  obtain ⟨op, ebp⟩ := e
  have hne : op ≠ .clock → a.current ≠ a.idleTask := fun hop => (AbsKernel.step_call hop hb).1
  have hleave : ∀ c : AbsKernel, c.queue .readyqueue = a.queue .readyqueue → c.idleTask = a.idleTask →
      a.current ≠ a.idleTask → op ≠ .yield →
      (c.schedNextRr.current = a.current ↔ op = .yield ∧ a.queue .readyqueue = []) := by
    intro c hq hi hne hop
    rw [AbsKernel.schedNextRr_current, hq, hi]
    exact iff_of_false (headD_ne_current g hne) fun hy => hop hy.1
  have hbb : a.handle (Rep.argsOk s op) op = some b := by
    unfold AbsKernel.step at hb
    split at hb
    · cases hb
    · exact hb
  cases op <;> simp only [Kernel.switches, AbsKernel.handle] at hsw hbb <;> try cases hsw
  case clock =>
    rw [decide_eq_true_eq, h.remainingQuantum, h.listEmpty] at hsw
    cases hbb
    unfold AbsKernel.clock
    rw [if_neg (not_not.mpr hsw.1), if_neg hsw.2, forceTaskSwitch_current]
    cases hq : a.queue .readyqueue with
    | nil => exact absurd hq hsw.2
    | cons t ts =>
      refine iff_of_false (fun e => ?_) (by simp)
      apply g.current .readyqueue
      rw [hq, ← e]
      exact List.mem_cons_self
  case yield =>
    cases hbb
    rw [forceTaskSwitch_current]
    cases hq : a.queue .readyqueue with
    | nil => simp
    | cons t ts =>
      refine iff_of_false (fun e => ?_) (by simp)
      apply g.current .readyqueue
      rw [hq, ← e]
      exact List.mem_cons_self
  case exit =>
    obtain ⟨pt, -, hbb⟩ := Option.bind_eq_some_iff.mp hbb
    obtain ⟨⟨hp, mm⟩, -, hbb⟩ := Option.bind_eq_some_iff.mp hbb
    cases hbb
    exact hleave _ rfl rfl (hne (by simp)) (by simp)
  case threadExit =>
    obtain ⟨pt, -, hbb⟩ := Option.bind_eq_some_iff.mp hbb
    cases hbb
    exact hleave _ rfl rfl (hne (by simp)) (by simp)
  case semWait k =>
    rw [h.semCheck, h.sem] at hsw
    obtain ⟨_ | ⟨tab, i⟩, hchk, hbb⟩ := Option.bind_eq_some_iff.mp hbb
    · simp [hchk] at hsw
    · rw [hchk] at hsw
      have hneg : ((a.addCount tab i (-1)).sem tab i).count < 0 := by
        simpa [AbsKernel.addCount, AbsKernel.setSem, Int.sub_eq_add_neg] using hsw
      dsimp only at hbb
      rw [if_pos hneg] at hbb
      cases hbb
      exact hleave _ rfl rfl (hne (by simp)) (by simp)

end

end ZeosSOA.Sysenter
