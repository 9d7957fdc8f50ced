import Mathlib.Data.Fintype.Card
import Mathlib.Tactic.FinCases
import ZeosSOA.Pparri.Step

/-!
# zeOSpparri: task 1 alone

Until somebody forks there are task 1 and idle, and task 1 runs, is blocked for good, or has
exited. `Solo` describes the state in each of these phases.
-/

namespace ZeosSOA.Pparri

open Intrusive Mm Runs

/-- What has become of task 1, which is `task[8]`; idle is `task[9]`. -/
inductive Phase where
  | running
  | blocked
  | exited

namespace Phase

def current : Phase → TaskId
  | .running => 8
  | _ => 9

def status : Phase → TaskState
  | .blocked => .blocked
  | _ => .run

def queue : Phase → Queue → List TaskId
  | .exited, .freequeue => [7, 6, 5, 4, 3, 2, 1, 0, 8]
  | _, .freequeue => [7, 6, 5, 4, 3, 2, 1, 0]
  | .blocked, .blocked => [8]
  | _, _ => []

end Phase

def soloHeads : Set Queue := {.freequeue, .readyqueue, .blocked, .kids 8, .kids 9}

namespace Kernel

/-- In every table the pages of the kernel are as `init_table_pages` left them. -/
def KernelPages (m : Mm) : Prop := ∀ pt < nrTasks, ∀ page < numPagKernel, m.entry pt page = kernelEntry page

/-- The places in the array of tables of the pages behind the kernel's. -/
def UserPlace (k : Nat) : Prop := numPagKernel ≤ k % totalPages

/-- The lists, the structs and the tables of task 1 and idle, whoever runs. -/
structure Alone (s : Kernel) (ph : Phase) : Prop where
  rings : s.links.Rings soloHeads ph.queue
  idleTask : s.idleTask = some 9
  task1 : (s.task 8).status = ph.status ∧ (s.task 8).pendingUnblocks = 0
  idle : (s.task 9).status = .ready
  dir : s.getPT 8 = some 8 ∧ s.getPT 9 = some 9
  dad : ∀ t, (s.task t).dad = none
  kernel : KernelPages s.mm

structure Solo (s : Kernel) (ph : Phase) : Prop extends Alone s ph where
  current : s.current = ph.current

section
variable {s s' : Kernel} {ph : Phase} {m : Mm}

theorem KernelPages.touches {m m' : Mm} (hk : KernelPages m) (h : Touches UserPlace m m') : KernelPages m' := by
  intro pt hpt page hpage
  have hplace : ¬ UserPlace (pt * totalPages + page) := by
    simp only [UserPlace, numPagKernel, totalPages] at *
    omega
  rw [← hk pt hpt page hpage]
  exact h _ hplace

theorem mem_soloHeads {i : Queue} :
    i ∈ soloHeads ↔ i = .freequeue ∨ i = .readyqueue ∨ i = .blocked ∨ i = .kids 8 ∨ i = .kids 9 := by
  simp [soloHeads]

theorem Alone.readyEmpty (h : Alone s ph) : s.listEmpty .readyqueue = true :=
  (listEmpty_rings h.rings (mem_soloHeads.mpr (.inr (.inl rfl)))).mpr (by cases ph <;> rfl)

theorem Solo.kidsEmpty (h : Solo s ph) : s.listFirst (.kids s.current) = some (.head (.kids s.current)) := by
  have hmem : Queue.kids s.current ∈ soloHeads := by
    rw [h.current, mem_soloHeads]
    cases ph
    · exact .inr (.inr (.inr (.inl rfl)))
    · exact .inr (.inr (.inr (.inr rfl)))
    · exact .inr (.inr (.inr (.inr rfl)))
  have hnil : ph.queue (.kids s.current) = [] := by cases ph <;> rfl
  have := ring_next_head (h.rings.ring _ hmem)
  rwa [hnil] at this

theorem Alone.congr (h : Alone s ph) (hl : s'.links = s.links) (hi : s'.idleTask = s.idleTask) (hm : s'.mm = s.mm)
    (ht : ∀ t, ∃ p, s'.task t = { s.task t with kernelEsp := p }) : Alone s' ph := by
  obtain ⟨p8, e8⟩ := ht 8
  obtain ⟨p9, e9⟩ := ht 9
  refine ⟨hl ▸ h.rings, hi.trans h.idleTask, by rw [e8]; exact h.task1, by rw [e9]; exact h.idle, ?_, fun t => ?_, hm ▸ h.kernel⟩
  · unfold getPT
    rw [e8, e9]
    exact h.dir
  · obtain ⟨p, e⟩ := ht t
    rw [e]
    exact h.dad t

theorem Alone.switch (h : Alone s ph) (hph : ph.current = 9) (q : Int) (ebp : Nat) :
    Solo ({ s with qticks := q }.innerTaskSwitch 9 ebp) ph := by
  refine ⟨h.congr rfl rfl rfl fun t => ?_, hph.symm⟩
  by_cases e : t = s.current
  · subst e; exact ⟨_, Function.update_self _ _ _⟩
  · exact ⟨_, Function.update_of_ne e _ _⟩

theorem schedNextRr_idle (he : s.listEmpty .readyqueue = true) {idle : TaskId} (hi : s.idleTask = some idle) (ebp : Nat) :
    s.schedNextRr ebp = some ({ s with qticks := (s.task idle).quantum }.innerTaskSwitch idle ebp) := by
  simp [schedNextRr, nextTask, he, hi]

theorem scheduler_stays (he : s.listEmpty .readyqueue = true) (hst : (s.task s.current).status ≠ .blocked) (ebp : Nat) :
    s.scheduler ebp = some s.updateSchedDataRr := by
  have he' : s.updateSchedDataRr.listEmpty .readyqueue = true := he
  have hst' : (s.updateSchedDataRr.task s.updateSchedDataRr.current).status ≠ .blocked := hst
  simp [scheduler, needsSchedRr, he', hst']

theorem scheduler_blocked (he : s.listEmpty .readyqueue = true) (hst : (s.task s.current).status = .blocked)
    {idle : TaskId} (hi : s.idleTask = some idle) (ebp : Nat) : s.scheduler ebp =
      some ({ s.updateSchedDataRr with qticks := (s.task idle).quantum }.innerTaskSwitch idle ebp) := by
  have hst' : (s.updateSchedDataRr.task s.updateSchedDataRr.current).status = .blocked := hst
  have hn : s.updateSchedDataRr.needsSchedRr = true := by simp [needsSchedRr, hst']
  unfold scheduler
  simp only [hn, if_true, updateProcessStateRr, hst']
  exact schedNextRr_idle (s := s.updateSchedDataRr) he hi ebp

/-! ## Steps -/

theorem Solo.currentStatus (h : Solo s ph) : (s.task s.current).status ≠ .blocked := by
  rw [h.current]
  cases ph with
  | running => rw [show Phase.current .running = 8 from rfl, h.task1.1]; decide
  | blocked => rw [show Phase.current .blocked = 9 from rfl, h.idle]; decide
  | exited => rw [show Phase.current .exited = 9 from rfl, h.idle]; decide

theorem Solo.clock (h : Solo s ph) (ebp : Nat) : ∃ s', s.clockRoutine ebp = some s' ∧ Solo s' ph :=
  ⟨_, scheduler_stays (s := { s with zeosTicks := s.zeosTicks + 1 }) h.readyEmpty h.currentStatus ebp,
    h.toAlone.congr rfl rfl rfl fun _ => ⟨_, rfl⟩, h.current⟩

theorem Solo.park (h : Solo s .running) (ph : Phase) {i : Queue} (hi : i ∈ soloHeads) {m : Mm} (hm : KernelPages m)
    (hq : Function.update (Phase.queue .running) i (Phase.queue .running i ++ [8]) = ph.queue) :
    ∃ s1, ((s.setStatus 8 ph.status).setMm m).listAddTail (.anchor 8) i = some s1 ∧ Alone s1 ph ∧ s1.current = 8 := by
  obtain ⟨l, hl, hr⟩ := listAddTail_rings (t := (8 : TaskId)) h.rings (by intro i _; cases i <;> simp [Phase.queue]) hi
  rw [hq] at hr
  refine ⟨{ (s.setStatus 8 ph.status).setMm m with links := l }, ?_, ⟨hr, h.idleTask, ⟨?_, ?_⟩, ?_, ?_, fun t => ?_, hm⟩,
    h.current⟩
  · unfold listAddTail
    rw [show ((s.setStatus 8 ph.status).setMm m).links = s.links from rfl, hl]
    rfl
  · simp [setStatus, modTask, setMm]
  · simpa [setStatus, modTask, setMm] using h.task1.2
  · simpa [setStatus, modTask, setMm] using h.idle
  · simpa [getPT, setStatus, modTask, setMm] using h.dir
  · by_cases e : t = 8
    · subst e; simpa [setStatus, modTask, setMm] using h.dad 8
    · simpa [setStatus, modTask, setMm, e] using h.dad t

theorem Solo.block (h : Solo s .running) (ebp : Nat) : ∃ s', s.sysBlock ebp = some s' ∧ Solo s' .blocked := by
  have hc : s.current = 8 := h.current
  obtain ⟨s1, h1, ha, hc1⟩ := h.park .blocked (i := .blocked) (mem_soloHeads.mpr (.inr (.inr (.inl rfl)))) h.kernel
    (by funext i; cases i <;> rfl)
  have hsched := scheduler_blocked ha.readyEmpty (by rw [hc1]; exact ha.task1.1) ha.idleTask ebp
  have hidle : Alone s1.updateSchedDataRr .blocked := ha.congr rfl rfl rfl fun _ => ⟨_, rfl⟩
  refine ⟨_, ?_, hidle.switch rfl (s1.task 9).quantum ebp⟩
  unfold sysBlock
  rw [if_pos (by rw [hc]; exact h.task1.2), hc]
  change ((s.setStatus 8 .blocked).listAddTail (.anchor s.current) .blocked).bind _ = _
  rw [hc, show (s.setStatus 8 .blocked).listAddTail (.anchor 8) .blocked = some s1 from h1]
  exact hsched

theorem releaseData_touches (pt : Nat) (m : Mm) : Touches UserPlace m (releaseData pt m) :=
  touches_foldl fun pag hp m => touches_releasePage m <| by
    have hd : pagLogInitData = 256 := rfl
    have := List.mem_range.mp hp
    simp only [UserPlace, numPagKernel, numPagData, totalPages] at *
    omega

theorem setStatus_self {t : TaskId} {st : TaskState} (h : (s.task t).status = st) : s.setStatus t st = s := by
  subst h
  exact congrArg (fun task => { s with task := task }) (Function.update_eq_self t s.task)

theorem Solo.exit (h : Solo s .running) (ebp : Nat) : ∃ s', s.sysExit ebp = some s' ∧ Solo s' .exited := by
  have hc : s.current = 8 := h.current
  have hkids : s.leaveKids = some s := by
    unfold leaveKids
    rw [h.kidsEmpty]
    exact if_pos rfl
  obtain ⟨s1, h1, ha, hc1⟩ := h.park .exited (i := .freequeue) (mem_soloHeads.mpr (.inl rfl))
    (h.kernel.touches (releaseData_touches 8 s.mm)) (by funext i; cases i <;> rfl)
  rw [setStatus_self (show (s.task 8).status = Phase.status .exited from h.task1.1)] at h1
  refine ⟨_, ?_, ha.switch rfl (s1.task 9).quantum ebp⟩
  unfold sysExit
  rw [hc, h.dir.1]
  change (s.leaveKids).bind _ = _
  rw [hkids]
  change ((s.setMm (releaseData 8 s.mm)).listAddTail (.anchor s.current) .freequeue).bind _ = _
  rw [hc, h1]
  exact schedNextRr_idle ha.readyEmpty ha.idleTask ebp

theorem Solo.unblock (h : Solo s ph) (pid : Int) (foreign : Queue → Int) : s.sysUnblock pid foreign = some (-1, s) := by
  have ht : s.unblockTarget pid foreign = some none := by
    unfold unblockTarget
    rw [h.kidsEmpty]
    simp [findKid]
  unfold sysUnblock
  rw [ht]
  rfl

/-! ## A fork -/

/-- Where `sys_fork` links a child when the lists of its parent and of the ready tasks are empty: it ends up
in the second, with the head of the first still pointing to it. -/
theorem Started.anchored {newKid : TaskId} (h : Started s s' newKid) (hne : s.current ≠ newKid)
    (hk : s.links.prev (.head (.kids s.current)) = some (.head (.kids s.current)))
    (hr : s.links.prev (.head .readyqueue) = some (.head .readyqueue)) :
    s'.links.next (.head (.kids s.current)) = some (.anchor newKid) ∧
      s'.links.next (.head .readyqueue) = some (.anchor newKid) ∧
      s'.links.next (.anchor newKid) = some (.head .readyqueue) := by
  obtain ⟨l, hl, hl'⟩ := h.links
  rw [listAddTail_self (by simpa [ZeosSOA.initListHead, hne] using hk)] at hl
  cases hl
  rw [listAddTail_self (by simpa [ZeosSOA.initListHead, internalListAdd_prev] using hr)] at hl'
  rw [← Option.some.inj hl']
  refine ⟨?_, ?_, ?_⟩
  · simp [internalListAdd_next]
  · simp [internalListAdd_next]
  · simp [internalListAdd_next]

theorem allocFrames_length : ∀ {n : Nat} {m : Mm}, (allocFrames n m).1.length = n
  | 0, _ => rfl
  | n + 1, m => by
    unfold allocFrames
    simp [allocFrames_length (n := n)]

theorem forkMap_null {newKidPT dadPT : Nat} {fs : List Int} (hf : fs.length = numPagData) {m' : Mm}
    (h : forkMap newKidPT dadPT fs m = some m') : (m'.entry newKidPT 0).present = true := by
  have hinherit : ((forkInherit newKidPT dadPT m).entry newKidPT 0).present = true := by
    unfold forkInherit
    generalize (List.range numPagCode).foldl _ m = m1
    have := (foldl_sharePage newKidPT dadPT 0 m1 (n := numPagKernel) (by decide)).1 newKidPT 0 (by decide)
    rw [if_pos ⟨rfl, by decide, by decide⟩] at this
    simp only [Nat.zero_add] at this
    rw [this]
  have hplace : ∀ {pt page : Nat}, numPagKernel ≤ page → page < totalPages → UserPlace (pt * totalPages + page) := by
    intro pt page h1 h2
    simp only [UserPlace, numPagKernel, totalPages] at *
    omega
  have hidx : ∀ x ∈ fs.zipIdx, x.2 < numPagData := fun x hx => hf ▸ List.snd_lt_of_mem_zipIdx hx
  have hd : pagLogInitData = 256 := rfl
  have hdata : Touches UserPlace (forkInherit newKidPT dadPT m) (forkMapData newKidPT fs (forkInherit newKidPT dadPT m)) :=
    touches_foldl fun x hx m => touches_setSsPag m _ <| by
      have := hidx x hx
      exact hplace (by simp only [numPagKernel]; omega) (by simp only [numPagData, totalPages] at *; omega)
  have hcopy : Touches UserPlace (forkMapData newKidPT fs (forkInherit newKidPT dadPT m)) m' := by
    refine touches_foldlM (fun x hx m1 m2 h12 => ?_) h
    have hp : UserPlace (dadPT * totalPages + (x.2 + diff)) := by
      have := hidx x hx
      exact hplace (by simp only [diff, numPagKernel]; omega) (by
        simp only [diff, numPagCode, numPagData, numPagKernel, totalPages] at *; omega)
    obtain ⟨src, -, h12⟩ := Option.bind_eq_some_iff.mp h12
    obtain ⟨dst, -, h12⟩ := Option.bind_eq_some_iff.mp h12
    cases h12
    exact (touches_setSsPag m1 _ hp).trans (touches_setEntry _ _ hp)
  have hzero : ¬ UserPlace (newKidPT * totalPages + 0) := by
    simp only [UserPlace, numPagKernel, totalPages]
    omega
  rw [← hinherit]
  exact congrArg PageTableEntry.present ((hcopy _ hzero).trans (hdata _ hzero))

/-- What the first `sys_fork` leaves behind: the child is `task[7]`. -/
structure Forked (s : Kernel) : Prop where
  current : s.current = 8
  dir : s.getPT 7 = some 7
  null : (s.mm.entry 7 0).present = true
  kids : s.links.next (.head (.kids 8)) = some (.anchor 7)
  ready : s.links.next (.head .readyqueue) = some (.anchor 7)
  anchor : s.links.next (.anchor 7) = some (.head .readyqueue)

theorem Solo.fork (h : Solo s .running) {r : Int × Kernel} (hr : s.sysFork = some r) : Forked r.2 := by
  have hc : s.current = 8 := h.current
  have hfree : Queue.freequeue ∈ soloHeads := mem_soloHeads.mpr (.inl rfl)
  have hq : Phase.queue .running .freequeue = [] ++ 7 :: [6, 5, 4, 3, 2, 1, 0] := rfl
  obtain ⟨l, hl, hrings⟩ := listDel_rings h.rings hfree hq
  have hprev : ∀ i ∈ soloHeads, i ≠ .freequeue → l.prev (.head i) = some (.head i) := by
    intro i hi hne
    have hnil : Function.update (Phase.queue .running) .freequeue ([] ++ [6, 5, 4, 3, 2, 1, 0]) i = [] := by
      rw [Function.update_of_ne hne]
      cases i <;> first | rfl | exact absurd rfl hne
    have hring := hrings.ring i hi
    rw [hnil] at hring
    exact (ring_nil hring).2
  have hempty : ¬ s.listEmpty .freequeue = true := fun e => List.cons_ne_nil _ _ ((listEmpty_rings h.rings hfree).mp e)
  have hfirst : s.listFirst .freequeue = some (.anchor 7) := listFirst_rings h.rings hfree hq
  rcases sysFork_cases hr with ⟨e, -⟩ | ⟨-, newKid, l', dad, mm, hfirst', hl', hmm, hstart⟩
  · exact absurd e hempty
  obtain rfl : 7 = newKid := Node.anchor.inj (Option.some.inj (hfirst.symm.trans hfirst'))
  obtain rfl : l = l' := Option.some.inj (hl.symm.trans hl')
  have hne : s.current ≠ 7 := by rw [hc]; decide
  have hkprev := hprev (.kids s.current) (by rw [hc]; exact mem_soloHeads.mpr (.inr (.inr (.inr (.inl rfl))))) nofun
  have hrprev := hprev .readyqueue (mem_soloHeads.mpr (.inr (.inl rfl))) nofun
  obtain ⟨hkids, hready, hanchor⟩ := hstart.anchored hne
    (by simpa [setMm, allocateDIR, modTask, copyTaskUnion, hne] using hkprev)
    (by simpa [setMm, allocateDIR, modTask, copyTaskUnion] using hrprev)
  refine ⟨hstart.current.trans hc, ?_, ?_, ?_, hready, hanchor⟩
  · rw [hstart.getPT]
    simp [getPT, setMm, allocateDIR, modTask]
  · rw [hstart.mm]
    exact forkMap_null allocFrames_length hmm
  · rw [← hc]
    exact hkids

/-! ## Runs -/

theorem Solo.running (h : Solo s ph) {e : Event} {r : Int × Kernel} (hcall : s.call e = some r) (hop : e.op ≠ .clock) :
    ph = .running := by
  have hne := call_ne_idle hcall hop
  rw [h.idleTask, h.current] at hne
  cases ph <;> first | rfl | exact absurd rfl hne

theorem Solo.step_fork (h : Solo s ph) {e : Event} (hop : e.op = .fork) (hs : s.step e = some s') : Forked s' := by
  obtain ⟨r, hcall, hr, rfl⟩ := step_some hs
  obtain rfl := h.running hcall (by rw [hop]; exact nofun)
  unfold handle at hr
  rw [hop] at hr
  exact h.fork hr

theorem Solo.step (h : Solo s ph) {e : Event} (hop : e.op ≠ .fork) (hs : s.step e = some s') : ∃ ph', Solo s' ph' := by
  obtain ⟨r, hcall, hr, rfl⟩ := step_some hs
  obtain ⟨op, ebp, foreign⟩ := e
  by_cases hclock : op = .clock
  · subst hclock
    obtain ⟨s1, h1, rfl⟩ := Option.map_eq_some_iff.mp hr
    obtain ⟨s2, h2, h'⟩ := h.clock ebp
    cases h1.symm.trans h2
    exact ⟨ph, h'⟩
  obtain rfl := h.running hcall hclock
  cases op <;> simp only [handle, Option.map_eq_some_iff] at hr
  case clock => exact absurd rfl hclock
  case fork => exact absurd rfl hop
  case exit =>
    obtain ⟨s1, h1, rfl⟩ := hr
    obtain ⟨s2, h2, h'⟩ := h.exit ebp
    cases h1.symm.trans h2
    exact ⟨_, h'⟩
  case block =>
    obtain ⟨s1, h1, rfl⟩ := hr
    obtain ⟨s2, h2, h'⟩ := h.block ebp
    cases h1.symm.trans h2
    exact ⟨_, h'⟩
  case unblock pid =>
    cases (h.unblock pid foreign).symm.trans hr
    exact ⟨_, h⟩

end

/-! ## Start-up -/

theorem boot_freequeue (ram : Nat → Nat → UInt32) :
    (boot ram).links.Ring (.head .freequeue) ((Phase.queue .running .freequeue).map .anchor) :=
  .cons_cons ⟨rfl, rfl⟩ <| .cons_cons ⟨rfl, rfl⟩ <| .cons_cons ⟨rfl, rfl⟩ <| .cons_cons ⟨rfl, rfl⟩ <|
    .cons_cons ⟨rfl, rfl⟩ <| .cons_cons ⟨rfl, rfl⟩ <| .cons_cons ⟨rfl, rfl⟩ <| .cons_cons ⟨rfl, rfl⟩ <|
    .cons_cons ⟨rfl, rfl⟩ <| .singleton _

theorem boot_rings (ram : Nat → Nat → UInt32) : (boot ram).links.Rings soloHeads (Phase.queue .running) := by
  refine ⟨fun i hi => ?_, fun i _ => ?_, fun i _ j _ t ht ht' => ?_⟩
  · rcases mem_soloHeads.mp hi with rfl | rfl | rfl | rfl | rfl
    · exact boot_freequeue ram
    all_goals exact List.isChain_pair.mpr ⟨rfl, rfl⟩
  · cases i with
    | freequeue => exact (by decide : [7, 6, 5, 4, 3, 2, 1, (0 : TaskId)].Nodup)
    | _ => exact List.nodup_nil
  · cases i <;> cases j <;> simp_all [Phase.queue]

theorem initSched_mm {s s' : Kernel} (h : s.initSched = some s') : s'.mm = s.mm := by
  have key : ∀ (is : List TaskId) {s s' : Kernel}, is.foldlM (fun s i => Kernel.listAdd s (.anchor i) .freequeue) s =
      some s' → s'.mm = s.mm := by
    intro is
    induction is with
    | nil => intro s s' h; cases h; rfl
    | cons i is ih =>
      intro s s' h
      rw [List.foldlM_cons] at h
      obtain ⟨s1, h1, h⟩ := Option.bind_eq_some_iff.mp h
      obtain ⟨l, -, h1⟩ := Option.bind_eq_some_iff.mp h1
      cases h1
      have := ih h
      exact this
  unfold initSched at h
  obtain ⟨s1, h1, h⟩ := Option.bind_eq_some_iff.mp h
  cases h
  have := key _ h1
  exact this

theorem initIdle_mm {s s' : Kernel} (h : s.initIdle = some s') : s'.mm = s.mm := by
  obtain ⟨e, -, h⟩ := Option.bind_eq_some_iff.mp h
  obtain ⟨s1, h1, h⟩ := Option.bind_eq_some_iff.mp h
  obtain ⟨c, -, h⟩ := Option.bind_eq_some_iff.mp h
  cases h
  obtain ⟨l, -, rfl⟩ := listDel_some h1
  rfl

theorem initTask1_mm {s s' : Kernel} (h : s.initTask1 = some s') :
    s'.mm = s.mm.setUserPages pagLogInitCode pagLogInitData s'.current.val := by
  obtain ⟨e, -, h⟩ := Option.bind_eq_some_iff.mp h
  obtain ⟨s1, h1, h⟩ := Option.bind_eq_some_iff.mp h
  obtain ⟨c, -, h⟩ := Option.bind_eq_some_iff.mp h
  obtain ⟨pt, hpt, h⟩ := Option.bind_eq_some_iff.mp h
  cases h
  obtain ⟨l, -, rfl⟩ := listDel_some h1
  have : pt = c.val := by
    simpa [getPT, allocateDIR, modTask] using hpt.symm
  subst this
  simp only [setMm, allocateDIR, initListHead, modTask]

theorem boot_mm (ram : Nat → Nat → UInt32) : (boot ram).mm =
    ((powerOn ram).mm.initTablePages.initFrames).setUserPages pagLogInitCode pagLogInitData 8 := by
  have h : main ram = some (boot ram) := (Option.some_get _).symm
  unfold main at h
  obtain ⟨s1, h1, h⟩ := Option.bind_eq_some_iff.mp h
  obtain ⟨s2, h2, h⟩ := Option.bind_eq_some_iff.mp h
  have hc : (boot ram).current = 8 := rfl
  rw [initTask1_mm h, initIdle_mm h2, initSched_mm h1, hc]
  exact congrArg (Mm.setUserPages _ _ · 8) rfl

theorem boot_kernelPages (ram : Nat → Nat → UInt32) : KernelPages (boot ram).mm := by
  intro pt hpt page hpage
  rw [boot_mm]
  generalize hm : (powerOn ram).mm.initTablePages = m
  have hfrom : m.initFrames.FreeFrom 256 := by
    intro f hf
    have := mem_candidates.mp hf
    have hphys : m.initFrames.physMem f = .free := by
      rw [show m.initFrames.physMem f = if f < numPagKernel then .used else if f < totalPages then .free else m.physMem f
        from rfl, if_neg (by omega), if_pos this.2.1]
    rw [hphys]
    exact iff_of_true rfl this.1
  have hd : pagLogInitData = 256 := rfl
  have hc : pagLogInitCode = 276 := rfl
  have hlt : page < totalPages := by simp only [numPagKernel, totalPages] at *; omega
  rw [(setUserPages_spec 8 pagLogInitCode pagLogInitData hfrom (by decide) (by decide)
    (by decide) (by decide) (by decide)).1 pt page hlt, if_neg (by simp only [numPagKernel] at hpage; omega),
    if_neg (by simp only [numPagKernel] at *; omega)]
  rw [show m.initFrames.entry pt page = m.entry pt page from rfl, ← hm]
  exact initTablePages_entry _ hpt hlt

theorem boot_solo (ram : Nat → Nat → UInt32) : Solo (boot ram) .running where
  rings := boot_rings ram
  idleTask := rfl
  task1 := ⟨rfl, rfl⟩
  idle := rfl
  dir := ⟨rfl, rfl⟩
  dad t := by fin_cases t <;> rfl
  kernel := boot_kernelPages ram
  current := rfl

end Kernel

end ZeosSOA.Pparri
