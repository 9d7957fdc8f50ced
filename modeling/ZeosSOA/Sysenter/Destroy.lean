import ZeosSOA.Sysenter.Reach

/-!
# ZeOSSysenter: sys_semDestroy

The loop takes the tasks of one list one by one to the end of another. Nothing is asked of the state
but that its lists are well formed.
-/

namespace ZeosSOA.Sysenter

open Intrusive Runs

/-- The lists after the tasks of the list `i` have been put at the end of the readyqueue. -/
def drained (q : Queue → List TaskId) (i : Queue) (j : Queue) : List TaskId :=
  if j = .readyqueue then q .readyqueue ++ q i else if j = i then [] else q j

/-- The tasks in `ws` are made ready. -/
def readied (task : TaskId → TaskStruct) (ws : List TaskId) (t : TaskId) : TaskStruct :=
  if t ∈ ws then { task t with state := .ready } else task t

theorem readied_nil (task : TaskId → TaskStruct) : readied task [] = task := by
  funext t
  simp [readied]

theorem readied_cons (task : TaskId → TaskStruct) (t : TaskId) (ts : List TaskId) :
    readied (Function.update task t { task t with state := .ready }) ts = readied task (t :: ts) := by
  funext u
  unfold readied
  by_cases hu : u = t
  · subst hu
    simp
  · simp [hu]

theorem drained_nil {q : Queue → List TaskId} {i : Queue} (hq : q i = []) : drained q i = q := by
  funext j
  unfold drained
  rw [hq, List.append_nil]
  split
  · rename_i e; rw [e]
  · split
    · rename_i e; rw [e, hq]
    · rfl

theorem drained_cons {q : Queue → List TaskId} {i : Queue} {t : TaskId} {ts : List TaskId} (hi : i ≠ .readyqueue)
    (hq : q i = t :: ts) : drained (Function.update (Function.update q i ts) .readyqueue (q .readyqueue ++ [t])) i =
      drained q i := by
  funext j
  unfold drained
  by_cases hr : j = .readyqueue
  · simp [hr, hq, hi]
  · by_cases hj : j = i
    · simp [hj, hi]
    · simp [hr, hj]

namespace Kernel

section
variable {tab : SemTable} {i : Fin numSem}

theorem wakeAll_rings : ∀ (fuel : Nat) {s : Kernel} {q : Queue → List TaskId}, s.links.Rings Set.univ q →
    (q (.blocked tab i)).length < fuel → ∃ links, wakeAll tab i fuel s =
      some { s with links := links, task := readied s.task (q (.blocked tab i)) } ∧
      links.Rings Set.univ (drained q (.blocked tab i))
  | 0, _, _, _, hf => absurd hf (Nat.not_lt_zero _)
  | fuel + 1, s, q, h, hf => by
    have hempty : s.listEmpty (.blocked tab i) = true ↔ q (.blocked tab i) = [] := listEmpty_rings h (Set.mem_univ _)
    unfold wakeAll
    cases hq : q (.blocked tab i) with
    | nil =>
      refine ⟨s.links, ?_, by rwa [drained_nil hq]⟩
      rw [if_pos (hempty.mpr hq), readied_nil]
    | cons t ts =>
      have hne : ¬ s.listEmpty (.blocked tab i) = true := fun e => by
        rw [hempty, hq] at e
        cases e
      have hfirst : s.listFirst (.blocked tab i) = some (.anchor t) := listFirst_rings h (Set.mem_univ _) hq
      obtain ⟨l₁, e₁, h₁⟩ := listDel_rings h (Set.mem_univ _) (show q (.blocked tab i) = [] ++ t :: ts from hq)
      rw [List.nil_append] at h₁
      -- taken out, the task is in no list
      have hout : ∀ j ∈ Set.univ, t ∉ Function.update q (.blocked tab i) ts j := by
        intro j _ hm
        have hd := h.nodup (.blocked tab i) (Set.mem_univ _)
        rw [hq, List.nodup_cons] at hd
        by_cases hj : j = .blocked tab i
        · subst hj
          rw [Function.update_self] at hm
          exact hd.1 hm
        · rw [Function.update_of_ne hj] at hm
          have ht : t ∈ q (.blocked tab i) := by
            rw [hq]
            exact List.mem_cons_self
          exact hj (h.apart j (Set.mem_univ _) (.blocked tab i) (Set.mem_univ _) t hm ht)
      obtain ⟨l₂, e₂, h₂⟩ := listAddTail_rings h₁ hout (Set.mem_univ Queue.readyqueue)
      rw [Function.update_of_ne (by simp)] at h₂
      have hdel : s.listDel (.anchor t) = some { s with links := l₁ } := by
        rw [Kernel.listDel, e₁]
        rfl
      obtain ⟨s₂, hs₂⟩ : ∃ s₂ : Kernel, s₂ =
          { s with links := l₂, task := Function.update s.task t { s.task t with state := .ready } } := ⟨_, rfl⟩
      have hadd : (Kernel.setState { s with links := l₁ } t .ready).listAddTail (.anchor t) .readyqueue = some s₂ := by
        rw [Kernel.listAddTail, show (Kernel.setState { s with links := l₁ } t .ready).links = l₁ from rfl, e₂, hs₂]
        rfl
      have hlinks : s₂.links = l₂ := by rw [hs₂]
      rw [← hlinks] at h₂
      have hts : Function.update (Function.update q (.blocked tab i) ts) .readyqueue (q .readyqueue ++ [t]) (.blocked tab i) =
          ts := by simp
      obtain ⟨links, e₃, h₃⟩ := wakeAll_rings fuel h₂ (by
        rw [hts]
        rw [hq, List.length_cons] at hf
        exact Nat.lt_of_succ_lt_succ hf)
      rw [drained_cons (by simp) hq] at h₃
      refine ⟨links, ?_, h₃⟩
      rw [if_neg hne, hfirst, Option.bind_eq_bind, Option.bind_some, hdel, Option.bind_eq_bind, Option.bind_some,
        listHeadToTaskStruct, Option.bind_eq_bind, Option.bind_some, hadd, Option.bind_some, e₃, hts, ← readied_cons, hs₂]

end

section
variable {s : Kernel} {tab : SemTable} {i : Fin numSem}

/-- The checks let the entry of a semaphore through that a task with the PID of the caller has created. -/
theorem semCheck_created (htab : (s.task s.current).semafors = some tab) (hid : (s.sem tab i).semid = i.val)
    (hpid : (s.sem tab i).PID = (s.task s.current).PID) : s.semCheck i.val = some (.accepted tab i) := by
  have hrange : ¬ ((i.val : Int) > 10 ∨ (i.val : Int) < 0) := by
    have := i.isLt
    simp only [numSem] at this
    omega
  unfold semCheck
  simp only [if_neg hrange, htab, Option.bind_eq_bind, Option.bind_some, Int.toNat_natCast, i.isLt, Fin.eta, dite_true,
    hpid, hid, ne_eq, not_true, if_false]

/-- A free entry is found by `sys_semCreate`, unless there is one in front of it. -/
theorem sysSemCreate_free (htab : (s.task s.current).semafors = some tab) (hfree : (s.sem tab i).semid = -1) (value : Int) :
    ∃ (j : Fin numSem) (k : Kernel), s.sysSemCreate value = some ((j.val : Int), k) ∧ j ≤ i ∧ (s.sem tab j).semid = -1 := by
  have hsome : ((List.finRange numSem).find? fun j => (s.sem tab j).semid = -1).isSome = true := by
    rw [List.find?_isSome]
    exact ⟨i, List.mem_finRange i, by simpa using hfree⟩
  obtain ⟨j, hj⟩ := Option.isSome_iff_exists.mp hsome
  have hsemid : (s.sem tab j).semid = -1 := by simpa using List.find?_some hj
  refine ⟨j, (s.setSem tab j { semid := j.val, count := value, PID := (s.task s.current).PID }).initListHead
    (.head (.blocked tab j)), ?_, ?_, hsemid⟩
  · rw [sysSemCreate, htab, Option.bind_eq_bind, Option.bind_some, hj]
    rfl
  · obtain ⟨as, bs, hsplit, hbefore⟩ := (List.find?_eq_some_iff_append.mp hj).2
    apply Fin.not_lt.mp
    intro hlt
    have hi : i ∈ as := by
      have hmem := List.mem_finRange i
      have hsorted := (List.pairwise_lt_finRange numSem)
      rw [hsplit] at hmem hsorted
      rcases List.mem_append.mp hmem with h | h
      · exact h
      · rcases List.mem_cons.mp h with rfl | h
        · exact absurd hlt (lt_irrefl _)
        · have := (List.pairwise_cons.mp (List.pairwise_append.mp hsorted).2.1).1 i h
          exact absurd hlt (lt_asymm this)
    have := hbefore i hi
    simp [hfree] at this

/-- From `s` to `s'` the tasks that waited on the entry `i` have come, in their order, to the end of the readyqueue,
and the entry is free. -/
structure Destroyed (s s' : Kernel) (q : Queue → List TaskId) (tab : SemTable) (i : Fin numSem) : Prop where
  lists : s'.links.Rings Set.univ (drained q (.blocked tab i))
  task : s'.task = readied s.task (q (.blocked tab i))
  free : (s'.sem tab i).semid = -1
  sem : ∀ tab' j, (tab', j) ≠ (tab, i) → s'.sem tab' j = s.sem tab' j
  rest : s' = { s with links := s'.links, task := s'.task, sem := s'.sem }

/-- `sys_semDestroy` comes back with 0 from every state with well-formed lists, however many tasks wait, and
`sys_semCreate` has an entry to take then. -/
theorem sysSemDestroy_releases {q : Queue → List TaskId} (h : s.links.Rings Set.univ q)
    (htab : (s.task s.current).semafors = some tab) (hid : (s.sem tab i).semid = i.val)
    (hpid : (s.sem tab i).PID = (s.task s.current).PID) :
    ∃ s', s.sysSemDestroy i.val = some (0, s') ∧ Destroyed s s' q tab i ∧
      ∀ value, ∃ (j : Fin numSem) (k : Kernel), s'.sysSemCreate value = some ((j.val : Int), k) ∧ j ≤ i ∧
        (s'.sem tab j).semid = -1 := by
  have hlen : (q (.blocked tab i)).length < nrTasks + 1 := by
    have := (h.nodup (.blocked tab i) (Set.mem_univ _)).length_le_card
    rw [Fintype.card_fin] at this
    omega
  obtain ⟨links, hwake, hlinks⟩ := wakeAll_rings (nrTasks + 1) h hlen
  refine ⟨Kernel.setSem { s with links := links, task := readied s.task (q (.blocked tab i)) } tab i
    { semid := -1, count := 0, PID := -1 }, ?_, ⟨hlinks, rfl, ?_, ?_, rfl⟩, ?_⟩
  · rw [sysSemDestroy, semCheck_created htab hid hpid, Option.bind_eq_bind, Option.bind_some]
    dsimp only
    rw [hwake]
    rfl
  · simp [setSem]
  · intro tab' j hne
    obtain rfl : tab' = tab := by cases tab; cases tab'; rfl
    have hj : j ≠ i := fun e => hne (by rw [e])
    simp [setSem, hj]
  · intro value
    apply sysSemCreate_free
    · show (readied s.task _ s.current).semafors = some tab
      rw [readied]
      split <;> exact htab
    · simp [setSem]

end

end Kernel

/-- Task 1 destroys the semaphore that its thread 2 waits on. -/
theorem semDestroy_releases_waiter : ∃ (s s' : Kernel) (q : Queue → List TaskId), q (.blocked .semaforProces 0) = [2] ∧
    s.sysSemDestroy 0 = some (0, s') ∧ Kernel.Destroyed s s' q .semaforProces 0 := by
  have hrun : (exec Kernel.step (Kernel.boot .blank) [⟨.threadCreate 0x100000 0 0x100000, 0⟩, ⟨.semCreate 0, 0⟩, ⟨.yield, 0⟩,
      ⟨.semWait 0, 0⟩]).any (fun s => decide (s.members (.blocked .semaforProces 0) = [2] ∧
        (s.task s.current).semafors = some .semaforProces ∧ (s.sem .semaforProces 0).semid = 0 ∧
        (s.sem .semaforProces 0).PID = (s.task s.current).PID)) = true := by
    decide +kernel
  obtain ⟨s, hs, hd⟩ := (Option.any_eq_true _ _).mp hrun
  obtain ⟨hwait, htab, hid, hpid⟩ := of_decide_eq_true hd
  have hr : Reachable .blank s := ⟨_, hs⟩
  obtain ⟨a, hrep, -⟩ := hr.rep
  rw [hrep.members] at hwait
  obtain ⟨s', hcall, hrel, -⟩ := Kernel.sysSemDestroy_releases hrep.rings htab (i := 0) hid hpid
  exact ⟨s, s', a.queue, hwait, hcall, hrel⟩

end ZeosSOA.Sysenter
