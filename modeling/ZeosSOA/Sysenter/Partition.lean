import ZeosSOA.Sysenter.Live
import ZeosSOA.Sysenter.Reach

/-!
# ZeOSSysenter: where the tasks are

Without `sys_fork`, and while no counter overflows, every task struct is in exactly one
place. What carries it are the semaphores: the tasks that wait on one are as many as its
counter is below zero, so that nobody waits on a free one.
-/

namespace ZeosSOA.Sysenter

open Intrusive Runs

namespace AbsKernel

def Full (a : AbsKernel) : Prop := ∀ t, t = a.current ∨ t = a.idleTask ∨ ∃ i, t ∈ a.queue i

/-- The counter of a semaphore says how many tasks wait on it. -/
structure Counted (a : AbsKernel) : Prop where
  waiting : ∀ tab i, (a.queue (.blocked tab i)).length = (-(a.sem tab i).count).toNat
  free : ∀ tab i, (a.sem tab i).semid = -1 → (a.sem tab i).count = 0
  le : ∀ tab i, (a.sem tab i).count ≤ intMax

section
variable {a : AbsKernel}

/-! ## Nobody is lost -/

theorem full_schedNextRr (h : ∀ t, t = a.idleTask ∨ ∃ i, t ∈ a.queue i) : Full a.schedNextRr := by
  intro t
  rw [schedNextRr_current, schedNextRr_queue, schedNextRr_idleTask]
  rcases h t with rfl | ⟨i, hi⟩
  · exact .inr (.inl rfl)
  · by_cases e : i = .readyqueue
    · subst e
      cases hq : a.queue .readyqueue with
      | nil => rw [hq] at hi; cases hi
      | cons u us =>
        rw [hq] at hi
        rcases List.mem_cons.mp hi with rfl | hi
        · exact .inl rfl
        · exact .inr (.inr ⟨.readyqueue, by simpa using hi⟩)
    · exact .inr (.inr ⟨i, by simpa [e] using hi⟩)

theorem Full.setQueue (h : Full a) {i : Queue} {xs : List TaskId} (hx : ∀ t ∈ a.queue i, t ∈ xs) :
    Full (a.setQueue i xs) := by
  intro t
  rcases h t with e | e | ⟨j, hj⟩
  · exact .inl e
  · exact .inr (.inl e)
  · refine .inr (.inr ⟨j, mem_setQueue.mpr ?_⟩)
    split
    · rename_i e; exact hx t (e ▸ hj)
    · exact hj

theorem Full.switch (h : Full a) (i : Queue) (xs : List TaskId) (hx : ∀ t, t = a.current ∨ t ∈ a.queue i → t ∈ xs)
    {b : AbsKernel} (hb : b.queue = (a.setQueue i xs).queue) (hi : b.idleTask = a.idleTask) : Full b.schedNextRr := by
  refine full_schedNextRr fun t => ?_
  rw [hb, hi]
  rcases h t with e | e | ⟨j, hj⟩
  · exact .inr ⟨i, by rw [mem_setQueue, if_pos rfl]; exact hx t (.inl e)⟩
  · exact .inl e
  · refine .inr ⟨j, mem_setQueue.mpr ?_⟩
    split
    · rename_i e; exact hx t (.inr (e ▸ hj))
    · exact hj

theorem Full.move (h : Full a) {i : Queue} {t : TaskId} {ts : List TaskId} (hq : a.queue i = t :: ts) (j : Queue) (xs : List TaskId)
    (hx : ∀ u, u = t ∨ u ∈ (a.setQueue i ts).queue j → u ∈ xs) : Full ((a.setQueue i ts).setQueue j xs) := by
  intro u
  rcases h u with e | e | ⟨k, hk⟩
  · exact .inl e
  · exact .inr (.inl e)
  · by_cases hu : u = t
    · exact .inr (.inr ⟨j, by rw [mem_setQueue, if_pos rfl]; exact hx u (.inl hu)⟩)
    · have hk' : u ∈ (a.setQueue i ts).queue k := by
        rw [mem_setQueue]
        split
        · rename_i e; rw [e, hq] at hk; exact (List.mem_cons.mp hk).resolve_left hu
        · exact hk
      refine .inr (.inr ⟨k, mem_setQueue.mpr ?_⟩)
      split
      · rename_i e; exact hx u (.inr (e ▸ hk'))
      · exact hk'

theorem Full.clock (h : Full a) : Full a.clock := by
  unfold AbsKernel.clock
  split
  · exact h
  · split
    · exact h
    · exact h.switch .readyqueue (a.queue .readyqueue ++ [a.current])
        (fun t ht => by simpa [or_comm] using ht) rfl rfl

theorem Full.forceTaskSwitch (h : Full a) : Full a.forceTaskSwitch :=
  h.switch .readyqueue (a.queue .readyqueue ++ [a.current])
    (fun t ht => by simpa [or_comm] using ht) rfl rfl

theorem Full.leave (h : Full a) : Full a.leave :=
  h.switch .freequeue (a.queue .freequeue ++ [a.current])
    (fun t ht => by simpa [or_comm] using ht) rfl rfl

theorem Full.block (h : Full a) (tab : SemTable) (i : Fin numSem) : Full (a.block tab i) :=
  h.switch (.blocked tab i) (a.current :: a.queue (.blocked tab i)) (fun t ht => by simpa using ht) rfl rfl

theorem Full.wake (h : Full a) {tab : SemTable} {i : Fin numSem} {b : AbsKernel} (hb : a.wake tab i = some b) :
    Full b := by
  unfold AbsKernel.wake at hb
  split at hb
  · rename_i t ts hq
    cases hb
    exact h.move hq .readyqueue _ fun u hu => by simpa [AbsKernel.setQueue] using hu
  · cases hb

theorem Full.wakeAll (h : Full a) (tab : SemTable) (i : Fin numSem) : Full (a.wakeAll tab i) := by
  intro u
  rcases h u with e | e | ⟨k, hk⟩
  · exact .inl e
  · exact .inr (.inl e)
  · refine .inr (.inr ?_)
    by_cases hb : k = .blocked tab i
    · subst hb
      exact ⟨.readyqueue, by simp [AbsKernel.wakeAll, AbsKernel.setQueue, hk]⟩
    · refine ⟨k, ?_⟩
      by_cases hr : k = .readyqueue
      · subst hr; simp [AbsKernel.wakeAll, AbsKernel.setQueue, hk]
      · simpa [AbsKernel.wakeAll, AbsKernel.setQueue, hb, hr] using hk

theorem Full.threadCreate (h : Full a) {f p : UInt32} {r : Int × AbsKernel} (hr : a.threadCreate f p = some r)
    (hr1 : r.1 ≠ -1) : Full r.2 := by
  rcases threadCreate_cases hr with ⟨-, rfl⟩ | ⟨child, rest, hq, ⟨-, rfl⟩ | ⟨-, pt, -, ⟨mm, -, -, rfl⟩ |
    ⟨hp, mm, -, -, rfl⟩⟩⟩
  · exact h
  · exact absurd rfl hr1
  · exact h.move hq .readyqueue (a.queue .readyqueue ++ [child]) fun u hu => by
      simpa [AbsKernel.setQueue, or_comm] using hu
  · exact h.move hq .freequeue (rest ++ [child]) fun u hu => by
      simpa [AbsKernel.setQueue, or_comm] using hu

/-! ## The counters -/

theorem Counted.congr (h : Counted a) {b : AbsKernel} (hs : b.sem = a.sem)
    (hq : ∀ tab i, b.queue (.blocked tab i) = a.queue (.blocked tab i)) : Counted b :=
  ⟨fun tab i => by rw [hq, hs]; exact h.waiting tab i, fun tab i => by rw [hs]; exact h.free tab i,
    fun tab i => by rw [hs]; exact h.le tab i⟩

theorem Counted.schedNextRr (h : Counted a) : Counted a.schedNextRr :=
  h.congr (schedNextRr_sem a) (schedNextRr_blocked a)

theorem Counted.ge (h : Counted a) (g : Good a) (tab : SemTable) (i : Fin numSem) : -10 ≤ (a.sem tab i).count := by
  have hl := (g.nodup (.blocked tab i)).length_le_card
  rw [Fintype.card_fin, h.waiting tab i] at hl
  simp only [nrTasks] at hl
  omega

theorem Counted.set (h : Counted a) (tab : SemTable) (i : Fin numSem) (v : SemT) (ts : List TaskId)
    (hw : ts.length = (-v.count).toNat) (hf : v.semid = -1 → v.count = 0) (hl : v.count ≤ intMax) :
    Counted ((a.setSem tab i v).setQueue (.blocked tab i) ts) := by
  have hs : ∀ tab' k, ((a.setSem tab i v).setQueue (.blocked tab i) ts).sem tab' k =
      if tab' = tab ∧ k = i then v else a.sem tab' k := by
    intro tab' k
    obtain rfl : tab' = tab := by cases tab; cases tab'; rfl
    by_cases hk : k = i <;> simp [setQueue, setSem, hk]
  have hq : ∀ tab' k, ((a.setSem tab i v).setQueue (.blocked tab i) ts).queue (.blocked tab' k) =
      if tab' = tab ∧ k = i then ts else a.queue (.blocked tab' k) := by
    intro tab' k
    simp [setQueue, setSem, Function.update_apply]
  refine ⟨fun tab' k => ?_, fun tab' k => ?_, fun tab' k => ?_⟩
  · rw [hs, hq]
    split
    · exact hw
    · exact h.waiting tab' k
  · rw [hs]
    split
    · exact hf
    · exact h.free tab' k
  · rw [hs]
    split
    · exact hl
    · exact h.le tab' k

theorem Counted.empty (h : Counted a) {tab : SemTable} {i : Fin numSem} (hfree : (a.sem tab i).semid = -1) :
    a.queue (.blocked tab i) = [] := by
  have hw := h.waiting tab i
  rw [h.free tab i hfree] at hw
  exact List.eq_nil_of_length_eq_zero (by simpa using hw)

theorem Full.semCreate (hf : Full a) (h : Counted a) {value : Int} {r : Int × AbsKernel}
    (hr : a.semCreate value = some r) : Full r.2 := by
  obtain ⟨tab, -, hr⟩ := Option.bind_eq_some_iff.mp hr
  split at hr
  · rename_i i hi
    cases hr
    have hempty : a.queue (.blocked tab i) = [] := h.empty (by simpa using List.find?_some hi)
    exact Full.setQueue (a := a.setSem tab i _) hf fun t ht => by
      rw [show (a.setSem tab i _).queue (.blocked tab i) = [] from hempty] at ht
      cases ht
  · cases hr; exact hf

theorem Counted.semCreate (h : Counted a) {value : Int} (hv : (∃ tab i, (a.sem tab i).semid = -1) → 0 ≤ value)
    (hv' : value ≤ intMax) {r : Int × AbsKernel} (hr : a.semCreate value = some r) : Counted r.2 := by
  obtain ⟨tab, -, hr⟩ := Option.bind_eq_some_iff.mp hr
  split at hr
  · rename_i i hi
    cases hr
    have hpos := hv ⟨tab, i, by simpa using List.find?_some hi⟩
    exact h.set tab i _ [] (by simp; omega) (by simp) hv'
  · cases hr; exact h

theorem addCount_count (tab : SemTable) (i : Fin numSem) {d : Int} (hr : -2 ^ 31 ≤ (a.sem tab i).count + d)
    (hr' : (a.sem tab i).count + d ≤ intMax) :
    ((a.addCount tab i d).sem tab i).count = (a.sem tab i).count + d := by
  simpa [addCount, setSem] using toInt32_of_range hr hr'

theorem Counted.addCount (h : Counted a) {tab : SemTable} {i : Fin numSem} {d : Int} (ts : List TaskId)
    (hr : -2 ^ 31 ≤ (a.sem tab i).count + d) (hr' : (a.sem tab i).count + d ≤ intMax)
    (hf : (a.sem tab i).semid ≠ -1) (hw : ts.length = (-((a.sem tab i).count + d)).toNat) :
    Counted ((a.addCount tab i d).setQueue (.blocked tab i) ts) := by
  have hc := toInt32_of_range hr hr'
  exact h.set tab i { a.sem tab i with count := toInt32 ((a.sem tab i).count + d) } ts
    (by simpa only [hc] using hw) (fun e => absurd e hf) (by simpa only [hc] using hr')

theorem Counted.addCount_self (h : Counted a) {tab : SemTable} {i : Fin numSem} {d : Int}
    (hr : -2 ^ 31 ≤ (a.sem tab i).count + d) (hr' : (a.sem tab i).count + d ≤ intMax)
    (hf : (a.sem tab i).semid ≠ -1) (hw : (a.queue (.blocked tab i)).length = (-((a.sem tab i).count + d)).toNat) :
    Counted (a.addCount tab i d) :=
  (h.addCount _ hr hr' hf hw).congr rfl fun tab' k => by
    simp [setQueue, AbsKernel.addCount, setSem, Function.update_eq_self]

theorem Full.semWait (hf : Full a) {semID : Int} {b : AbsKernel} (hb : a.semWait semID = some b) : Full b := by
  obtain ⟨_ | ⟨tab, i⟩, -, hb⟩ := Option.bind_eq_some_iff.mp hb
  · cases hb; exact hf
  · dsimp only at hb
    split at hb <;> cases hb
    · exact Full.block (a := a.addCount tab i (-1)) hf tab i
    · exact hf

theorem Counted.semWait (h : Counted a) (g : Good a) {semID : Int} {b : AbsKernel} (hb : a.semWait semID = some b) :
    Counted b := by
  obtain ⟨_ | ⟨tab, i⟩, hchk, hb⟩ := Option.bind_eq_some_iff.mp hb
  · cases hb; exact h
  have hge := h.ge g tab i
  have hle := h.le tab i
  have hw := h.waiting tab i
  have hsemid : (a.sem tab i).semid ≠ -1 := by
    rw [(semCheck_accepted hchk).2.1, ← (semCheck_accepted hchk).1]
    omega
  simp only [intMax] at hle
  have hr' : (a.sem tab i).count + -1 ≤ intMax := by simp only [intMax]; omega
  dsimp only at hb
  rw [addCount_count tab i (by omega) hr'] at hb
  split at hb <;> cases hb
  · rename_i hneg
    refine Counted.schedNextRr ?_
    exact (h.addCount (a.current :: a.queue (.blocked tab i)) (by omega) hr' hsemid
      (by rw [List.length_cons, hw]; omega)).congr rfl fun _ _ => rfl
  · exact h.addCount_self (by omega) hr' hsemid (by rw [hw]; omega)

theorem Full.semSignal (hf : Full a) {semID : Int} {b : AbsKernel} (hb : a.semSignal semID = some b) : Full b := by
  obtain ⟨_ | ⟨tab, i⟩, -, hb⟩ := Option.bind_eq_some_iff.mp hb
  · cases hb; exact hf
  · dsimp only at hb
    split at hb
    · exact Full.wake (a := a.addCount tab i 1) hf hb
    · cases hb; exact hf

theorem Counted.semSignal (h : Counted a) (g : Good a) {semID : Int}
    (hmax : ∀ tab i, a.semCheck semID = some (.accepted tab i) → (a.sem tab i).count < intMax) {b : AbsKernel}
    (hb : a.semSignal semID = some b) : Counted b := by
  obtain ⟨_ | ⟨tab, i⟩, hchk, hb⟩ := Option.bind_eq_some_iff.mp hb
  · cases hb; exact h
  have hge := h.ge g tab i
  have hlt := hmax tab i hchk
  have hw := h.waiting tab i
  have hsemid : (a.sem tab i).semid ≠ -1 := by
    rw [(semCheck_accepted hchk).2.1, ← (semCheck_accepted hchk).1]
    omega
  dsimp only at hb
  rw [addCount_count tab i (by omega) (by omega)] at hb
  split at hb
  · unfold AbsKernel.wake at hb
    split at hb
    · rename_i t ts hq
      cases hb
      have hq' : a.queue (.blocked tab i) = t :: ts := hq
      refine (h.addCount ts (by omega) (by omega) hsemid ?_).congr rfl fun tab' k => ?_
      · rw [hq', List.length_cons] at hw; omega
      · simp [setQueue, setState, modTask]
    · cases hb
  · cases hb
    exact h.addCount_self (by omega) (by omega) hsemid (by rw [hw]; omega)

theorem Full.semDestroy (hf : Full a) {semID : Int} {b : AbsKernel} (hb : a.semDestroy semID = some b) : Full b := by
  obtain ⟨_ | ⟨tab, i⟩, -, hb⟩ := Option.bind_eq_some_iff.mp hb
  · cases hb; exact hf
  · cases hb; exact hf.wakeAll tab i

theorem Counted.semDestroy (h : Counted a) {semID : Int} {b : AbsKernel} (hb : a.semDestroy semID = some b) :
    Counted b := by
  obtain ⟨_ | ⟨tab, i⟩, hchk, hb⟩ := Option.bind_eq_some_iff.mp hb
  · cases hb; exact h
  cases hb
  refine (h.set tab i freeSem [] ?_ ?_ ?_).congr rfl fun tab' k => ?_
  · rfl
  · exact fun _ => rfl
  · decide
  · simp [setQueue, AbsKernel.wakeAll, setSem, Function.update_apply]

theorem Counted.leave (h : Counted a) : Counted a.leave := Counted.schedNextRr (h.congr rfl fun _ _ => rfl)

theorem Counted.threadCreate (h : Counted a) {f p : UInt32} {r : Int × AbsKernel} (hr : a.threadCreate f p = some r) :
    Counted r.2 := by
  rcases threadCreate_cases hr with ⟨-, rfl⟩ | ⟨child, rest, hq, ⟨-, rfl⟩ | ⟨-, pt, -, ⟨mm, -, -, rfl⟩ |
    ⟨hp, mm, -, -, rfl⟩⟩⟩
  · exact h
  · exact h.congr rfl fun _ _ => rfl
  · exact h.congr rfl fun _ _ => rfl
  · exact h.congr rfl fun _ _ => rfl

theorem Counted.clock (h : Counted a) : Counted a.clock := by
  unfold AbsKernel.clock
  split
  · exact h.congr rfl fun _ _ => rfl
  · split
    · exact h.congr rfl fun _ _ => rfl
    · exact Counted.schedNextRr (h.congr rfl fun _ _ => rfl)

theorem Counted.fork (h : Counted a) {r : Int × AbsKernel} (hr : a.fork = some r) : Counted r.2 := by
  have hreset : ∀ child rest tab, Counted (a.forkChild child rest tab) := by
    intro child rest tab
    cases tab
    refine ⟨fun tab i => ?_, fun tab i => ?_, fun tab i => ?_⟩ <;> cases tab <;>
      simp [forkChild, resetSemafors, copyTask, setQueue, freeSem]
  rcases fork_cases hr with ⟨-, rfl⟩ | ⟨child, rest, tab, -, -, ⟨mm, -, rfl⟩ | ⟨mm, pt, mm', -, -, -, rfl⟩⟩
  · exact h
  · exact (hreset child rest tab).congr rfl fun _ _ => rfl
  · exact (hreset child rest tab).congr rfl fun _ _ => rfl

/-- Only a semaphore created with a negative value, and a signal at `INT_MAX`, put a counter wrong. -/
theorem Counted.step (h : Counted a) (g : Good a) {ok : Bool} {op : Kernel.Op} {b : AbsKernel}
    (hcreate : ∀ v, op = .semCreate v → ((∃ tab i, (a.sem tab i).semid = -1) → 0 ≤ v) ∧ v ≤ intMax)
    (hsignal : ∀ k, op = .semSignal k → ∀ tab i, a.semCheck k = some (.accepted tab i) → (a.sem tab i).count < intMax)
    (hb : a.step ok op = some b) : Counted b := by
  unfold AbsKernel.step at hb
  split at hb
  · cases hb
  rename_i hidle
  cases op <;> simp only [AbsKernel.handle] at hb
  case clock => cases hb; exact h.clock
  case yield => cases hb; exact Counted.schedNextRr (h.congr rfl fun _ _ => rfl)
  case exit =>
    obtain ⟨pt, -, hb⟩ := Option.bind_eq_some_iff.mp hb
    obtain ⟨⟨hp, mm⟩, -, hb⟩ := Option.bind_eq_some_iff.mp hb
    cases hb
    exact Counted.leave (h.congr rfl fun _ _ => rfl)
  case fork =>
    obtain ⟨r, hr, rfl⟩ := Option.map_eq_some_iff.mp hb
    exact h.fork hr
  case threadCreate f p w =>
    split at hb
    · obtain ⟨r, hr, rfl⟩ := Option.map_eq_some_iff.mp hb
      exact h.threadCreate hr
    · cases hb; exact h
  case threadExit =>
    obtain ⟨pt, -, hb⟩ := Option.bind_eq_some_iff.mp hb
    cases hb
    exact Counted.leave (h.congr rfl fun _ _ => rfl)
  case sbrk size =>
    rcases sbrk_cases hb with rfl | ⟨pt, ret, hp, mm, -, -, rfl⟩
    · exact h
    · exact h.congr rfl fun _ _ => rfl
  case semCreate v =>
    obtain ⟨r, hr, rfl⟩ := Option.map_eq_some_iff.mp hb
    exact h.semCreate (hcreate v rfl).1 (hcreate v rfl).2 hr
  case semWait => exact h.semWait g hb
  case semSignal k => exact h.semSignal g (hsignal k rfl) hb
  case semDestroy => exact h.semDestroy hb

end

end AbsKernel

/-! ## Steps -/

namespace Kernel

/-- The events of a system in which nobody forks and no counter passes `INT_MAX`, and in which a
thread is only created while the page of its stack is one of the table. -/
def Permitted (s : Kernel) (e : Event) : Prop :=
  match e.op with
  | .clock | .yield | .exit | .threadExit => True
  | .threadCreate f p w => ∀ r, s.sysThreadCreate f p w = some r → r.1 ≠ -1
  | .semCreate value => 0 ≤ value ∧ value ≤ intMax
  | .semWait semID | .semDestroy semID => 0 ≤ semID ∧ semID < numSem
  | .semSignal semID => 0 ≤ semID ∧ semID < numSem ∧
      ∀ tab i, s.semCheck semID = some (.accepted tab i) → (s.sem tab i).count < intMax
  | .fork | .sbrk _ => False

end Kernel

theorem ret_some {x : Option (Int × Kernel)} {y : Option (Int × AbsKernel)} (h : Option.Rel Rep.Ret x y)
    {r : Int × AbsKernel} (hr : y = some r) : ∃ p, x = some p ∧ p.1 = r.1 := by
  subst hr
  cases h with
  | some h => exact ⟨_, rfl, h.1⟩

theorem permitted_full {s : Kernel} {a b : AbsKernel} {e : Kernel.Event} (h : Rep s a) (g : a.Good)
    (hf : a.Full) (hc : a.Counted) (hp : s.Permitted e) (hb : a.step (Rep.argsOk s e.op) e.op = some b) : b.Full := by
  obtain ⟨op, ebp⟩ := e
  unfold AbsKernel.step at hb
  split at hb
  · cases hb
  rename_i hidle
  cases op <;> simp only [AbsKernel.handle, Kernel.Permitted] at hb hp
  case clock => cases hb; exact hf.clock
  case yield => cases hb; exact hf.forceTaskSwitch
  case exit =>
    obtain ⟨pt, -, hb⟩ := Option.bind_eq_some_iff.mp hb
    obtain ⟨⟨hp, mm⟩, -, hb⟩ := Option.bind_eq_some_iff.mp hb
    cases hb
    exact AbsKernel.Full.leave hf
  case threadCreate f p w =>
    split at hb
    · rename_i hok
      obtain ⟨r, hr, rfl⟩ := Option.map_eq_some_iff.mp hb
      obtain ⟨x, hx, hx1⟩ := ret_some (h.sysThreadCreate g f p w hok) hr
      exact hf.threadCreate hr fun e => hp x hx (hx1.trans e)
    · cases hb; exact hf
  case threadExit =>
    obtain ⟨pt, -, hb⟩ := Option.bind_eq_some_iff.mp hb
    cases hb
    exact AbsKernel.Full.leave hf
  case semCreate =>
    obtain ⟨r, hr, rfl⟩ := Option.map_eq_some_iff.mp hb
    exact hf.semCreate hc hr
  case semWait => exact hf.semWait hb
  case semSignal => exact hf.semSignal hb
  case semDestroy => exact hf.semDestroy hb

theorem permitted_step {s : Kernel} {a b : AbsKernel} {e : Kernel.Event} (h : Rep s a) (g : a.Good)
    (hj : a.Full ∧ a.Counted) (hp : s.Permitted e) (hb : a.step (Rep.argsOk s e.op) e.op = some b) :
    b.Full ∧ b.Counted := by
  refine ⟨permitted_full h g hj.1 hj.2 hp hb, hj.2.step g (fun v hop => ?_) (fun k hop tab i hchk => ?_) hb⟩
  · unfold Kernel.Permitted at hp
    rw [hop] at hp
    exact ⟨fun _ => hp.1, hp.2⟩
  · unfold Kernel.Permitted at hp
    rw [hop] at hp
    rw [← h.semCheck] at hchk
    rw [← h.sem]
    exact hp.2.2 tab i hchk

theorem boot_full (mc : Machine) : (bootAbs mc).Full := by
  have key : ∀ t : TaskId, t = 1 ∨ t = 0 ∨ t ∈ [2, 3, 4, 5, 6, 7, 8, (9 : TaskId)] := by decide
  exact fun t => (key t).imp_right (Or.imp_right fun ht => ⟨.freequeue, ht⟩)

theorem boot_counted (mc : Machine) : (bootAbs mc).Counted :=
  ⟨fun _ _ => rfl, fun _ _ _ => rfl, fun _ _ => by simp [bootAbs, AbsKernel.freeSem]⟩

/-! ## The partition -/

/-- Where a task struct can be. -/
inductive Place where
  | current
  | parked
  | queue (i : Queue)

/-- The task is there, when `q` are the sequences of the queues; idle is parked while another
task runs. -/
def Kernel.At (s : Kernel) (q : Queue → List TaskId) (t : TaskId) : Place → Prop
  | .current => s.current = t
  | .parked => s.idleTask = some t ∧ s.current ≠ t
  | .queue i => t ∈ q i

/-- The queues are well formed, each task is in one place, in the state that belongs to it, and
idle, which is in no queue, runs when nobody is ready. -/
structure Kernel.Partitioned (s : Kernel) (q : Queue → List TaskId) : Prop where
  rings : s.links.Rings Set.univ q
  place : ∀ t, ∃! p, s.At q t p
  ready : ∀ t ∈ q .readyqueue, (s.task t).state = .ready
  blocked : ∀ tab i, ∀ t ∈ q (.blocked tab i), (s.task t).state = .blocked
  run : (s.task s.current).state = .run
  idle : ∃ idle, s.idleTask = some idle ∧ (∀ i, idle ∉ q i) ∧ (s.current = idle → q .readyqueue = [])

theorem Rep.partitioned {s : Kernel} {a : AbsKernel} (h : Rep s a) (g : a.Good) (hf : a.Full) :
    s.Partitioned a.queue where
  rings := h.rings
  place t := by
    have hst : s.idleTask = some t ↔ a.idleTask = t := by rw [h.idleTask, Option.some_inj]
    by_cases hc : a.current = t
    · refine ⟨.current, h.current.trans hc, fun p hp => ?_⟩
      cases p with
      | current => rfl
      | parked => exact absurd (h.current.trans hc) hp.2
      | queue i => exact absurd (hc ▸ hp : a.current ∈ a.queue i) (g.current i)
    by_cases hi : a.idleTask = t
    · refine ⟨.parked, ⟨hst.mpr hi, h.current ▸ hc⟩, fun p hp => ?_⟩
      cases p with
      | current => exact absurd (h.current.symm.trans hp) hc
      | parked => rfl
      | queue i => exact absurd (hi ▸ hp : a.idleTask ∈ a.queue i) (g.idle i)
    · obtain ⟨i, hti⟩ := ((hf t).resolve_left (Ne.symm hc)).resolve_left (Ne.symm hi)
      refine ⟨.queue i, hti, fun p hp => ?_⟩
      cases p with
      | current => exact absurd (h.current.symm.trans hp) hc
      | parked => exact absurd (hst.mp hp.1) hi
      | queue j => rw [g.apart j i t hp hti]
  ready t ht := (congrArg TaskCore.state (h.task t)).trans (g.state .readyqueue t ht _ rfl)
  blocked tab i t ht := (congrArg TaskCore.state (h.task t)).trans (g.state (.blocked tab i) t ht _ rfl)
  run := (congrArg TaskCore.state h.cur).trans g.run
  idle := ⟨a.idleTask, h.idleTask, g.idle, fun e => g.idleLast (h.current.symm.trans e)⟩

/-- In every state that permitted events reach, the task structs are partitioned. -/
theorem queues_partition (mc : Machine) {es : List Kernel.Event} {s : Kernel}
    (hp : AllSteps Kernel.step (fun s e _ => s.Permitted e) (Kernel.boot mc) es)
    (he : exec Kernel.step (Kernel.boot mc) es = some s) : ∃ q, s.Partitioned q := by
  obtain ⟨b, hb, g, hf, -⟩ := run_invariant (J := fun a => a.Full ∧ a.Counted)
    (fun _ _ _ _ _ h g hj hp _ hb _ => permitted_step h g hj hp hb) (boot_rep mc) (boot_good mc)
    ⟨boot_full mc, boot_counted mc⟩ hp he
  exact ⟨b.queue, hb.partitioned g hf⟩

/-- Task 1 blocks, and idle takes a clock interrupt. -/
theorem queues_partition_blocked : ∃ s, exec Kernel.step (Kernel.boot .blank)
    [⟨.semCreate 0, 0⟩, ⟨.semWait 0, 0⟩, ⟨.clock, 0⟩] = some s ∧ ∃ q, s.Partitioned q := by
  have hrun : (exec Kernel.step (Kernel.boot .blank)
    [⟨.semCreate 0, 0⟩, ⟨.semWait 0, 0⟩, ⟨.clock, 0⟩]).isSome = true := rfl
  obtain ⟨s, hs⟩ := Option.isSome_iff_exists.mp hrun
  refine ⟨s, hs, queues_partition .blank ?_ hs⟩
  exact fun _ _ => ⟨⟨by decide, by decide⟩, fun _ _ => ⟨⟨by decide, by decide⟩, fun _ _ => ⟨trivial, trivial⟩⟩⟩

end ZeosSOA.Sysenter
