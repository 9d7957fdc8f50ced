import ZeosSOA.Sysenter.Partition
import ZeosSOA.Sysenter.Private

/-!
# ZeOSSysenter: how the semaphore calls check their id

With the ids of the table an entry is used exactly when `sys_semCreate` has given it to the process of the caller and
nothing has freed it since. The id 10 passes the comparison too, and the words behind the table are read.
-/

namespace ZeosSOA.Sysenter

open Runs

/-! ## Who has created a semaphore -/

/-- The PIDs of the creators. -/
abbrev Owners : Type := Fin numSem → Option Int

namespace Kernel

/-- What a call changes, by its result: `sys_semCreate` returns the id, `sys_semDestroy` returns 0. A `sys_fork` that
finds a free task struct frees every entry of the table. -/
def Owners.next (o : Owners) (s : Kernel) (e : Event) : Owners := fun i =>
  match e.op with
  | .semCreate value => if (s.sysSemCreate value).map Prod.fst = some (i.val : Int) then some (s.task s.current).PID else o i
  | .semDestroy semID => if semID = i.val ∧ (s.sysSemDestroy semID).map Prod.fst = some 0 then none else o i
  | .fork => if s.members .freequeue = [] then o i else none
  | _ => o i

def CreatedBy (o : Owners) (s : Kernel) (semID : Int) : Prop :=
  ∃ i : Fin numSem, (i.val : Int) = semID ∧ o i = some (s.task s.current).PID

inductive SemCall where
  | semWait
  | semSignal
  | semDestroy

def SemCall.op (c : SemCall) (semID : Int) : Op :=
  match c with
  | .semWait => .semWait semID
  | .semSignal => .semSignal semID
  | .semDestroy => .semDestroy semID

def SemCall.run (c : SemCall) (s : Kernel) (semID : Int) (ebp : Nat) : Option (Int × Kernel) :=
  match c with
  | .semWait => s.sysSemWait semID ebp
  | .semSignal => s.sysSemSignal semID
  | .semDestroy => s.sysSemDestroy semID

/-- The indices of `semafors` in the three functions: `semID` behind the comparisons, and no other. -/
def semIndices (semID : Int) : List Int := if semID > 10 ∨ semID < 0 then [] else [semID]

/-- The call stays within the table and touches no entry but its own. Unless the process of the caller has created the
semaphore, it returns -1 and changes nothing. -/
structure Validates (o : Owners) (s : Kernel) (c : SemCall) (semID : Int) (ebp : Nat) : Prop where
  range : ∀ n ∈ semIndices semID, 0 ≤ n ∧ n < numSem
  others : ∀ r, c.run s semID ebp = some r → ∀ tab (j : Fin numSem), (j.val : Int) ≠ semID → s.SameSem r.2 tab j
  refuses : ¬ CreatedBy o s semID → c.run s semID ebp = some (-1, s)

end Kernel

namespace AbsKernel

/-- The table has the entries that have been created, and the others are free. -/
structure Noted (a : AbsKernel) (o : Owners) : Prop where
  free : ∀ tab i, o i = none → (a.sem tab i).semid = -1
  made : ∀ tab i p, o i = some p → (a.sem tab i).semid = i.val ∧ (a.sem tab i).PID = p

/-- The entries have the ids and the owners they had. -/
def SameIds (a b : AbsKernel) : Prop :=
  ∀ tab i, (b.sem tab i).semid = (a.sem tab i).semid ∧ (b.sem tab i).PID = (a.sem tab i).PID

section
variable {a b : AbsKernel} {o : Owners}

theorem Noted.sameIds (h : a.Noted o) (hs : SameIds a b) : b.Noted o where
  free tab i ho := by rw [(hs tab i).1, h.free tab i ho]
  made tab i p ho := by rw [(hs tab i).1, (hs tab i).2]; exact h.made tab i p ho

theorem sameIds_addCount (a : AbsKernel) (tab : SemTable) (i : Fin numSem) (d : Int) : SameIds a (a.addCount tab i d) := by
  intro tab' j
  obtain rfl : tab' = tab := by cases tab; cases tab'; rfl
  by_cases hj : j = i
  · subst hj
    simp [addCount, setSem]
  · simp [addCount, setSem, hj]

theorem sameIds_semWait {semID : Int} (hb : a.semWait semID = some b) : SameIds a b := by
  obtain ⟨_ | ⟨tab, i⟩, -, hb⟩ := Option.bind_eq_some_iff.mp hb
  · cases hb
    exact fun _ _ => ⟨rfl, rfl⟩
  · have h := sameIds_addCount a tab i (-1)
    dsimp only at hb
    split at hb <;> cases hb
    · intro tab' j
      rw [block, schedNextRr_sem]
      exact h tab' j
    · exact h

theorem sameIds_semSignal {semID : Int} (hb : a.semSignal semID = some b) : SameIds a b := by
  obtain ⟨_ | ⟨tab, i⟩, -, hb⟩ := Option.bind_eq_some_iff.mp hb
  · cases hb
    exact fun _ _ => ⟨rfl, rfl⟩
  · have h := sameIds_addCount a tab i 1
    dsimp only at hb
    split at hb
    · unfold wake at hb
      split at hb <;> cases hb
      exact h
    · cases hb
      exact h

theorem sameIds_step {ok : Bool} {op : Kernel.Op} (hb : a.step ok op = some b) (hfork : op ≠ .fork)
    (hcreate : ∀ v, op ≠ .semCreate v) (huses : ∀ tab i, ¬ a.Uses op tab i) : SameIds a b := by
  intro tab i
  rcases sem_step hb hfork tab i with hk | ⟨⟨v, hv⟩, -⟩ | hu
  · rw [hk.sem]
    exact ⟨rfl, rfl⟩
  · exact absurd hv (hcreate v)
  · exact absurd hu (huses tab i)

theorem Noted.semCreate (h : a.Noted o) {v : Int} {r : Int × AbsKernel} (hr : a.semCreate v = some r) :
    r.2.Noted fun i => if r.1 = (i.val : Int) then some (a.task a.current).PID else o i := by
  obtain ⟨tab, -, hr⟩ := Option.bind_eq_some_iff.mp hr
  split at hr
  · rename_i i hi
    cases hr
    constructor
    · intro tab' j ho
      obtain rfl : tab' = tab := by cases tab; cases tab'; rfl
      by_cases hj : j = i
      · simp [hj] at ho
      · have hne : ¬ (i.val : Int) = j.val := fun e => hj (Fin.ext (by omega))
        rw [if_neg hne] at ho
        simpa [setSem, setQueue, hj] using h.free tab' j ho
    · intro tab' j p ho
      obtain rfl : tab' = tab := by cases tab; cases tab'; rfl
      by_cases hj : j = i
      · subst hj
        rw [if_pos rfl] at ho
        simpa [setSem, setQueue] using Option.some.inj ho
      · have hne : ¬ (i.val : Int) = j.val := fun e => hj (Fin.ext (by omega))
        rw [if_neg hne] at ho
        simpa [setSem, setQueue, hj] using h.made tab' j p ho
  · cases hr
    have hne : ∀ i : Fin numSem, ¬ (-1 : Int) = i.val := fun i => by omega
    simpa only [hne, if_false] using h

theorem Noted.semDestroy (h : a.Noted o) {tab : SemTable} {i : Fin numSem} :
    ((a.wakeAll tab i).setSem tab i freeSem).Noted fun j => if j = i then none else o j := by
  constructor
  · intro tab' j ho
    obtain rfl : tab' = tab := by cases tab; cases tab'; rfl
    by_cases hj : j = i
    · simp [hj, setSem, freeSem]
    · rw [if_neg hj] at ho
      simpa [setSem, wakeAll, setQueue, hj] using h.free tab' j ho
  · intro tab' j p ho
    obtain rfl : tab' = tab := by cases tab; cases tab'; rfl
    by_cases hj : j = i
    · rw [if_pos hj] at ho
      cases ho
    · rw [if_neg hj] at ho
      simpa [setSem, wakeAll, setQueue, hj] using h.made tab' j p ho

theorem Noted.fork (h : a.Noted o) {r : Int × AbsKernel} (hr : a.fork = some r) :
    r.2.Noted fun i => if a.queue .freequeue = [] then o i else none := by
  have hreset : ∀ child rest tab, r.2.sem = (a.forkChild child rest tab).sem → a.queue .freequeue ≠ [] →
      r.2.Noted fun i => if a.queue .freequeue = [] then o i else none := by
    intro child rest tab hsem hne
    simp only [hne, if_false]
    refine ⟨fun tab' i _ => ?_, fun _ _ _ ho => by cases ho⟩
    obtain rfl : tab' = tab := by cases tab; cases tab'; rfl
    rw [hsem]
    simp [forkChild, resetSemafors, freeSem]
  rcases fork_ends hr with ⟨hq, e⟩ | ⟨child, rest, tab, hq, -, ⟨-, mm, e⟩ | ⟨-, mm, e⟩⟩
  · simpa only [hq, if_true, e] using h
  · exact hreset child rest tab (by rw [e]; rfl) (by simp [hq])
  · exact hreset child rest tab (by rw [e]; rfl) (by simp [hq])

/-! ## Every caller has a table -/

def HasTable (a : AbsKernel) : Prop := a.Users fun c => ∃ tab, c.semafors = some tab

theorem HasTable.step (h : a.HasTable) (g : a.Good) {ok : Bool} {op : Kernel.Op} (hb : a.step ok op = some b) :
    b.HasTable := by
  have hP : ∀ (c : TaskCore) (st : TaskState), (∃ tab, c.semafors = some tab) →
      ∃ tab, { c with state := st }.semafors = some tab := fun _ _ hc => hc
  unfold AbsKernel.step at hb
  split at hb
  · cases hb
  rename_i hidle
  have hcur : op ≠ .clock → ∃ tab, (a.task a.current).semafors = some tab := fun hop =>
    h a.current (.inl rfl) fun e => hidle ⟨hop, e.symm⟩
  cases op <;> simp only [AbsKernel.handle] at hb
  case clock => cases hb; exact h.sched hP (sched_clock a)
  case yield => cases hb; exact h.sched hP (sched_forceTaskSwitch a)
  case exit =>
    obtain ⟨_, _, _, -, -, hl⟩ := leaves_exit g hb
    exact h.leaves hP hl
  case fork =>
    obtain ⟨r, hr, rfl⟩ := Option.map_eq_some_iff.mp hb
    rcases fork_cases hr with ⟨-, rfl⟩ | ⟨child, rest, tab, hq, -, ⟨mm, -, rfl⟩ | ⟨mm, pt, mm', -, -, -, rfl⟩⟩
    · exact h
    · exact h.forkFailed g hq
    · exact h.forkStart hq (hcur (by simp))
  case threadCreate f p w =>
    split at hb
    · obtain ⟨r, hr, rfl⟩ := Option.map_eq_some_iff.mp hb
      have hcur := hcur (by simp)
      rcases threadCreate_cases hr with ⟨-, rfl⟩ | ⟨child, rest, hq, ⟨-, rfl⟩ | ⟨-, pt, -, ⟨mm, -, -, rfl⟩ |
        ⟨hp, mm, -, -, rfl⟩⟩⟩
      · exact h
      · exact h.threadChild g hq
      · exact h.thread (g.child_ne hq).1 hcur hcur
      · exact h.thread (g.child_ne hq).1 hcur hcur
    · cases hb; exact h
  case threadExit =>
    obtain ⟨_, -, hl⟩ := leaves_threadExit g hb
    exact h.leaves hP hl
  case sbrk size =>
    rcases sbrk_cases hb with rfl | ⟨_, _, hp, mm, -, -, rfl⟩
    · exact h
    · exact h.setHeapPointer (hcur (by simp))
  case semCreate =>
    obtain ⟨r, hr, rfl⟩ := Option.map_eq_some_iff.mp hb
    exact h.sched hP (sched_semCreate hr)
  case semWait => exact h.sched hP (sched_semWait hb)
  case semSignal => exact h.sched hP (sched_semSignal hb)
  case semDestroy => exact h.sched hP (sched_semDestroy hb)

end

end AbsKernel

section
variable {s s' : Kernel} {a b : AbsKernel} {o : Owners} {e : Kernel.Event}

theorem sysSemDestroy_fst {semID : Int} {r : Int × Kernel} (hr : s.sysSemDestroy semID = some r) :
    (r.1 = 0 ∧ ∃ tab i, s.semCheck semID = some (.accepted tab i)) ∨ (r.1 = -1 ∧ s.semCheck semID = some .refused) := by
  obtain ⟨_ | ⟨tab, i⟩, hchk, hr⟩ := Option.bind_eq_some_iff.mp hr
  · cases hr
    exact .inr ⟨rfl, hchk⟩
  · obtain ⟨s1, -, hr⟩ := Option.bind_eq_some_iff.mp hr
    cases hr
    exact .inl ⟨rfl, tab, i, hchk⟩

/-- The record is kept by every step, as is what the table says of it. -/
theorem noted_step (h : Rep s a) (hn : a.Noted o) (hs : s.step e = some s')
    (hb : a.step (Rep.argsOk s e.op) e.op = some b) : b.Noted (Kernel.Owners.next o s e) := by
  obtain ⟨op, ebp⟩ := e
  cases op
  case fork =>
    obtain ⟨-, r, hr, rfl⟩ := AbsKernel.step_fork hb
    have hnext : Kernel.Owners.next o s ⟨.fork, ebp⟩ = fun i => if a.queue .freequeue = [] then o i else none := by
      funext i
      simp only [Kernel.Owners.next, h.members]
    rw [hnext]
    exact hn.fork hr
  case semCreate v =>
    obtain ⟨-, hb⟩ := AbsKernel.step_call (by simp) hb
    obtain ⟨r, hr, rfl⟩ := Option.map_eq_some_iff.mp hb
    have hret := h.sysSemCreate v
    rw [hr] at hret
    obtain ⟨r', hr', hret⟩ : ∃ r', s.sysSemCreate v = some r' ∧ Rep.Ret r' r := by
      cases hx : s.sysSemCreate v with
      | none => rw [hx] at hret; cases hret
      | some r' => rw [hx] at hret; cases hret with | some hret => exact ⟨r', rfl, hret⟩
    have hnext : Kernel.Owners.next o s ⟨.semCreate v, ebp⟩ =
        fun i => if r.1 = (i.val : Int) then some (a.task a.current).PID else o i := by
      funext i
      simp only [Kernel.Owners.next, hr', Option.map_some, Option.some_inj, hret.1, pid_current h]
    rw [hnext]
    exact hn.semCreate hr
  case semDestroy semID =>
    obtain ⟨-, hb⟩ := AbsKernel.step_call (by simp) hb
    obtain ⟨r, hr⟩ : ∃ r, s.sysSemDestroy semID = some r := by
      unfold Kernel.step at hs
      split at hs
      · cases hs
      · obtain ⟨k, hk, -⟩ := Option.map_eq_some_iff.mp hs
        obtain ⟨r, hr, -⟩ := Option.map_eq_some_iff.mp hk
        exact ⟨r, hr⟩
    obtain ⟨chk, hchk, hb⟩ := Option.bind_eq_some_iff.mp hb
    rcases sysSemDestroy_fst hr with ⟨h0, tab, i, hacc⟩ | ⟨h1, href⟩
    · rw [h.semCheck, hchk] at hacc
      obtain rfl := Option.some.inj hacc
      cases hb
      have hid := (AbsKernel.semCheck_accepted hchk).1
      have hnext : Kernel.Owners.next o s ⟨.semDestroy semID, ebp⟩ = fun j => if j = i then none else o j := by
        funext j
        have hj : semID = (j.val : Int) ↔ j = i := by rw [← hid, Fin.ext_iff]; omega
        simp only [Kernel.Owners.next, hr, Option.map_some, h0, and_true, hj]
      rw [hnext]
      exact hn.semDestroy
    · rw [h.semCheck, hchk] at href
      obtain rfl := Option.some.inj href
      cases hb
      have hnext : Kernel.Owners.next o s ⟨.semDestroy semID, ebp⟩ = o := by
        funext j
        simp [Kernel.Owners.next, hr, h1]
      rwa [hnext]
  case semWait semID =>
    obtain ⟨-, hb⟩ := AbsKernel.step_call (by simp) hb
    exact hn.sameIds (AbsKernel.sameIds_semWait hb)
  case semSignal semID =>
    obtain ⟨-, hb⟩ := AbsKernel.step_call (by simp) hb
    exact hn.sameIds (AbsKernel.sameIds_semSignal hb)
  all_goals
    refine hn.sameIds (AbsKernel.sameIds_step hb (by simp) (by simp) ?_)
    rintro tab i ⟨k, hk | hk | hk, -⟩ <;> cases hk

/-- The checks let no id but 10 through that the process of the caller has not created. -/
theorem semCheck_refused (h : Rep s a) (hn : a.Noted o) (htab : ∃ tab, (a.task a.current).semafors = some tab) {semID : Int}
    (hid : semID ≠ 10) (hmade : ¬ Kernel.CreatedBy o s semID) : s.semCheck semID = some .refused := by
  rw [h.semCheck]
  obtain ⟨tab, htab⟩ := htab
  unfold AbsKernel.semCheck
  dsimp only
  by_cases hr : semID > 10 ∨ semID < 0
  · rw [if_pos hr]
  have hlt : semID.toNat < numSem := by
    simp only [numSem]
    omega
  rw [if_neg hr, htab, Option.bind_eq_bind, Option.bind_some, dif_pos hlt]
  by_cases hpid : (a.sem tab ⟨semID.toNat, hlt⟩).PID = (a.task a.current).PID
  swap
  · rw [if_pos hpid]
  by_cases hsem : (a.sem tab ⟨semID.toNat, hlt⟩).semid = semID
  swap
  · rw [if_neg (not_not.mpr hpid), if_pos hsem]
  -- an entry like this has been created, and by the process of the caller
  apply absurd _ hmade
  refine ⟨⟨semID.toNat, hlt⟩, Int.toNat_of_nonneg (by omega), ?_⟩
  cases ho : o ⟨semID.toNat, hlt⟩ with
  | none =>
    have := hn.free tab _ ho
    omega
  | some p => rw [← (hn.made tab _ p ho).2, hpid, pid_current h]

theorem semCall_others (h : Rep s a) (g : a.Good) (hi : s.idleTask ≠ some s.current) {c : Kernel.SemCall} {semID : Int}
    {ebp : Nat} {r : Int × Kernel} (hr : c.run s semID ebp = some r) (tab : SemTable) {j : Fin numSem}
    (hj : (j.val : Int) ≠ semID) : s.SameSem r.2 tab j := by
  have hhandle : s.handle ⟨c.op semID, ebp⟩ = some r.2 := by
    cases c <;> exact Option.map_eq_some_iff.mpr ⟨r, hr, rfl⟩
  have hrel := h.handle g ⟨c.op semID, ebp⟩
  rw [hhandle] at hrel
  cases hb : a.handle (Rep.argsOk s (c.op semID)) (c.op semID) with
  | none =>
    rw [hb] at hrel
    cases hrel
  | some b =>
    rw [hb] at hrel
    cases hrel with
    | some h' =>
      have hstep : a.step (Rep.argsOk s (c.op semID)) (c.op semID) = some b := by
        rw [AbsKernel.step, if_neg, hb]
        rintro ⟨-, e⟩
        exact h.not_idle.mp hi e.symm
      rw [h.sameSem h']
      rcases AbsKernel.sem_step hstep (by cases c <;> simp [Kernel.SemCall.op]) tab j with hk | ⟨⟨v, hv⟩, -⟩ | ⟨k, hop, hchk⟩
      · exact hk
      · cases c <;> cases hv
      · have hid : semID = k := by
          cases c <;> rcases hop with hop | hop | hop <;> cases hop <;> rfl
        exact absurd (hid ▸ (AbsKernel.semCheck_accepted hchk).1) hj

end

/-- The states of a run with the record of the semaphores created in it. -/
def SemsNoted (x : Owners × Kernel) : Prop := ∃ a, Rep x.2 a ∧ a.Good ∧ a.HasTable ∧ a.Noted x.1

theorem boot_semsNoted (mc : Machine) : SemsNoted (fun _ => none, Kernel.boot mc) := by
  refine ⟨bootAbs mc, boot_rep mc, boot_good mc, fun t ht hi => ?_, fun _ _ _ => rfl, fun _ _ _ ho => by cases ho⟩
  obtain rfl : t = 1 := by
    rcases ht with e | h | ⟨tab, i, h⟩
    · exact e
    · cases h
    · cases h
  rw [boot_task1]
  exact ⟨_, rfl⟩

theorem semsNoted_step {x y : Owners × Kernel} {e : Kernel.Event} (h : SemsNoted x)
    (hs : recorded Kernel.step Kernel.Owners.next x e = some y) : SemsNoted y := by
  obtain ⟨s', hstep, rfl⟩ := Option.map_eq_some_iff.mp hs
  obtain ⟨a, hr, g, ht, hn⟩ := h
  obtain ⟨b, hb, hr', g'⟩ := hr.step_some g hstep
  exact ⟨b, hr', g', ht.step g hb, noted_step hr hn hstep hb⟩

/-- In every state of every run, whoever calls, the three calls check their id if and only if it is not 10. -/
theorem semCalls_validate_iff (mc : Machine) {es : List Kernel.Event} {o : Owners} {s : Kernel}
    (hrun : exec (recorded Kernel.step Kernel.Owners.next) (fun _ => none, Kernel.boot mc) es = some (o, s))
    (hi : s.idleTask ≠ some s.current) (c : Kernel.SemCall) (semID : Int) (ebp : Nat) :
    s.Validates o c semID ebp ↔ semID ≠ 10 := by
  have hall : AllSteps (recorded Kernel.step Kernel.Owners.next) (fun _ _ _ => True) (fun _ => none, Kernel.boot mc) es :=
    allSteps_of_forall (A := fun _ => True) (fun _ _ _ _ => trivial) fun _ _ => trivial
  obtain ⟨a, h, g, ht, hn⟩ : SemsNoted (o, s) :=
    exec_invariant (fun _ _ _ hx _ hs => semsNoted_step hx hs) (boot_semsNoted mc) hall hrun
  constructor
  · rintro hv rfl
    have := hv.range 10 (by decide)
    simp only [numSem] at this
    omega
  · intro hid
    refine ⟨fun n hmem => ?_, fun r hr tab j hj => semCall_others h g hi hr tab hj, fun hmade => ?_⟩
    · unfold Kernel.semIndices at hmem
      split at hmem
      · cases hmem
      · rw [List.mem_singleton] at hmem
        simp only [numSem]
        omega
    · have htab := ht a.current (.inl rfl) (h.not_idle.mp hi)
      have hchk := semCheck_refused h hn htab hid hmade
      cases c <;> simp [Kernel.SemCall.run, Kernel.sysSemWait, Kernel.sysSemSignal, Kernel.sysSemDestroy, hchk]

/-- Task 1 has created two semaphores and waits for the second. -/
theorem semCalls_validate_own : ∃ o s, exec (recorded Kernel.step Kernel.Owners.next)
      (fun _ => none, Kernel.boot .blank) [⟨.semCreate 2, 0⟩, ⟨.semCreate 1, 0⟩] = some (o, s) ∧
    Kernel.CreatedBy o s 1 ∧ s.Validates o .semWait 1 0 := by
  have hrun : (exec (recorded Kernel.step Kernel.Owners.next) (fun _ => none, Kernel.boot .blank)
      [⟨.semCreate 2, 0⟩, ⟨.semCreate 1, 0⟩]).any (fun x => decide (x.2.idleTask ≠ some x.2.current ∧
        x.1 1 = some (x.2.task x.2.current).PID)) = true := by decide +kernel
  obtain ⟨⟨o, s⟩, hs, hd⟩ := (Option.any_eq_true _ _).mp hrun
  obtain ⟨hi, hmade⟩ := of_decide_eq_true hd
  exact ⟨o, s, hs, ⟨1, rfl, hmade⟩, (semCalls_validate_iff .blank hs hi .semWait 1 0).mpr (by decide)⟩

/-- Task 1 waits for the semaphore 10 before any is created. The words behind the table pass for one of its own, and
the call goes on with them. -/
theorem semWait_behind : ∃ mc : Machine, ¬ (Kernel.boot mc).Validates (fun _ => none) .semWait 10 0 ∧
    (Kernel.boot mc).semCheck 10 = none := by
  refine ⟨{ Machine.blank with behind := fun _ => ⟨10, 1, 1⟩ }, fun h => ?_, by decide +kernel⟩
  exact absurd (h.range 10 (by decide)).2 (by decide)

end ZeosSOA.Sysenter
