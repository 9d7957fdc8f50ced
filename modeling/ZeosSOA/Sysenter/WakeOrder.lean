import ZeosSOA.Sysenter.Tokens

/-!
# ZeOSSysenter: who is woken first

The history of a semaphore keeps when each thread called `sys_semWait`, and how many signals a
waiter may still see before it has to be ready. `sys_semWait` links its caller in at the front of
the list that `sys_semSignal` takes its first task from, so the order is that of a stack.
-/

namespace ZeosSOA.Sysenter

open Runs

namespace Kernel

def waiting (i : Fin numSem) (s : Kernel) : List TaskId := s.members (.blocked .semaforProces i)

def wakes (i : Fin numSem) (s : Kernel) : Bool := toInt32 ((s.sem .semaforProces i).count + 1) ≤ 0

/-- `since`: the step at which a thread last called `sys_semWait`. `due`: with `n` threads blocked,
each of them is to be ready after `n` signals. -/
structure Waits where
  now : Nat
  since : TaskId → Nat
  due : TaskId → Nat

def Waits.start : Waits := ⟨0, fun _ => 0, fun _ => nrTasks⟩

def Waits.next (i : Fin numSem) (h : Waits) (s : Kernel) (e : Event) : Waits where
  now := h.now + 1
  since := if s.waitsOn i e then Function.update h.since s.current h.now else h.since
  due t :=
    if s.waitsOn i e ∧ t = s.current then nrTasks
    else min (h.due t) (s.waiting i).length - if s.signalsTo i e then 1 else 0

/-- A signal readies no thread while one that called `sys_semWait` before it stays blocked. -/
def Fifo (i : Fin numSem) (x : Waits × Kernel) (e : Event) (y : Waits × Kernel) : Prop :=
  x.2.signalsTo i e = true → ∀ t ∈ x.2.waiting i, ∀ u ∈ x.2.waiting i, x.1.since t < x.1.since u →
    u ∉ y.2.waiting i → t ∉ y.2.waiting i

/-- No thread stays blocked for more signals than there were threads blocked. -/
def Prompt (i : Fin numSem) (x : Waits × Kernel) (e : Event) (y : Waits × Kernel) : Prop :=
  x.2.signalsTo i e = true → ∀ t ∈ y.2.waiting i, y.1.due t ≠ 0

/-- A signal that wakes finds one thread blocked. -/
def WakesOne (i : Fin numSem) (s : Kernel) (e : Event) : Prop :=
  s.signalsTo i e = true → s.wakes i = true → (s.waiting i).length ≤ 1

/-- A signal that does not wake finds none: the count has not wrapped round while threads are blocked. -/
def WakesAny (i : Fin numSem) (s : Kernel) (e : Event) : Prop :=
  s.signalsTo i e = true → s.wakes i = false → s.waiting i = []

end Kernel

/-! ## What a step does to the list of a semaphore -/

section
variable {s s' : Kernel} {a b : AbsKernel} {e : Kernel.Event} {i : Fin numSem}

theorem Rep.waiting (h : Rep s a) (i : Fin numSem) : s.waiting i = a.queue (.blocked .semaforProces i) :=
  h.members _

theorem semWait_waiting {k : Int} {tab : SemTable} (hchk : a.semCheck k = some (.accepted tab i))
    (hb : a.semWait k = some b) :
    b.queue (.blocked tab i) = a.current :: a.queue (.blocked tab i) ∨ b.queue (.blocked tab i) = a.queue (.blocked tab i) := by
  obtain ⟨v, hv, hb⟩ := Option.bind_eq_some_iff.mp hb
  obtain rfl : v = .accepted tab i := Option.some.inj (hv.symm.trans hchk)
  dsimp only at hb
  split at hb <;> cases hb
  · apply Or.inl
    rw [AbsKernel.block, AbsKernel.schedNextRr_blocked]
    simp [AbsKernel.setQueue, AbsKernel.addCount, AbsKernel.setSem]
  · exact .inr rfl

theorem semSignal_waiting {k : Int} {tab : SemTable} (hchk : a.semCheck k = some (.accepted tab i))
    (hb : a.semSignal k = some b) :
    toInt32 ((a.sem tab i).count + 1) ≤ 0 ∧
        (∃ t ts, a.queue (.blocked tab i) = t :: ts ∧ b.queue (.blocked tab i) = ts) ∨
      ¬ toInt32 ((a.sem tab i).count + 1) ≤ 0 ∧ b.queue (.blocked tab i) = a.queue (.blocked tab i) := by
  obtain ⟨v, hv, hb⟩ := Option.bind_eq_some_iff.mp hb
  obtain rfl : v = .accepted tab i := Option.some.inj (hv.symm.trans hchk)
  have hc : ((a.addCount tab i 1).sem tab i).count = toInt32 ((a.sem tab i).count + 1) := by
    simp [AbsKernel.addCount, AbsKernel.setSem]
  dsimp only at hb
  rw [hc] at hb
  split at hb
  · rename_i hle
    refine .inl ⟨hle, ?_⟩
    unfold AbsKernel.wake at hb
    split at hb
    · rename_i t ts hq
      cases hb
      exact ⟨t, ts, hq, by simp [AbsKernel.setQueue, AbsKernel.setState, AbsKernel.modTask]⟩
    · cases hb
  · rename_i hle
    cases hb
    exact .inr ⟨hle, rfl⟩

/-- An event that is neither a wait nor a signal leaves the list as it is, or empties it. -/
theorem other_waiting (h : Rep s a) (hb : a.step (Rep.argsOk s e.op) e.op = some b) (hw : s.waitsOn i e = false)
    (hg : s.signalsTo i e = false) : b.queue (.blocked .semaforProces i) = a.queue (.blocked .semaforProces i) ∨
      b.queue (.blocked .semaforProces i) = [] := by
  obtain ⟨op, ebp⟩ := e
  by_cases hf : op = .fork
  · subst hf
    obtain ⟨-, r, hr, rfl⟩ := AbsKernel.step_fork hb
    rcases AbsKernel.fork_cases hr with ⟨-, rfl⟩ | ⟨child, rest, tab, -, -, ⟨mm, -, rfl⟩ | ⟨mm, pt, mm', -, -, -, rfl⟩⟩
    · exact .inl rfl
    · cases tab; exact .inr rfl
    · cases tab; exact .inr rfl
  rcases AbsKernel.sem_step hb hf .semaforProces i with hk | ⟨⟨v, rfl⟩, -⟩ | ⟨k, hop, hchk⟩
  · exact .inl hk.waiting
  · obtain ⟨r, hr, rfl⟩ := Option.map_eq_some_iff.mp (AbsKernel.step_call (by simp) hb).2
    obtain ⟨tab, -, hr⟩ := Option.bind_eq_some_iff.mp hr
    cases tab
    split at hr <;> cases hr
    · rename_i j _
      by_cases hij : i = j
      · subst hij
        exact .inr (by simp [AbsKernel.setQueue])
      · exact .inl (by simp [AbsKernel.setQueue, AbsKernel.setSem, hij])
    · exact .inl rfl
  · obtain rfl := (AbsKernel.semCheck_accepted hchk).1
    have hacc := (accepts_iff h .semaforProces).mpr hchk
    rcases hop with rfl | rfl | rfl
    · simp [Kernel.waitsOn, hacc] at hw
    · simp [Kernel.signalsTo, hacc] at hg
    · have hb := (AbsKernel.step_call (by simp) hb).2
      obtain ⟨v, hv, hb⟩ := Option.bind_eq_some_iff.mp hb
      obtain rfl : v = .accepted .semaforProces i := Option.some.inj (hv.symm.trans hchk)
      cases hb
      exact .inr (by simp [AbsKernel.wakeAll, AbsKernel.setSem, AbsKernel.setQueue])

theorem waiting_step (h : Rep s a) (h' : Rep s' b) (hb : a.step (Rep.argsOk s e.op) e.op = some b) (i : Fin numSem) :
    s.waitsOn i e = true ∧ s'.waiting i = s.current :: s.waiting i ∨
    s.signalsTo i e = true ∧ s.wakes i = true ∧ (∃ t ts, s.waiting i = t :: ts ∧ s'.waiting i = ts) ∨
    (s.signalsTo i e = true → s.wakes i = false) ∧ (s'.waiting i = s.waiting i ∨ s'.waiting i = []) := by
  rw [h.waiting, h'.waiting, h.current, Kernel.wakes, h.sem]
  cases hw : s.waitsOn i e with
  | true =>
    obtain ⟨op, ebp⟩ := e
    simp only [Kernel.waitsOn, Bool.and_eq_true, decide_eq_true_eq] at hw
    obtain ⟨rfl, hacc⟩ := hw
    rcases semWait_waiting ((accepts_iff h _).mp hacc) (AbsKernel.step_call (by simp) hb).2 with hq | hq
    · exact .inl ⟨rfl, hq⟩
    · exact .inr (.inr ⟨by simp [Kernel.signalsTo], .inl hq⟩)
  | false =>
    cases hg : s.signalsTo i e with
    | true =>
      obtain ⟨op, ebp⟩ := e
      simp only [Kernel.signalsTo, Bool.and_eq_true, decide_eq_true_eq] at hg
      obtain ⟨rfl, hacc⟩ := hg
      rcases semSignal_waiting ((accepts_iff h _).mp hacc) (AbsKernel.step_call (by simp) hb).2 with ⟨hle, hq⟩ | ⟨hle, hq⟩
      · exact .inr (.inl ⟨rfl, decide_eq_true hle, hq⟩)
      · exact .inr (.inr ⟨fun _ => decide_eq_false hle, .inl hq⟩)
    | false =>
      exact .inr (.inr ⟨by simp, other_waiting h hb hw hg⟩)

/-! ## The order of the list -/

/-- The list has the thread that called last in front, and no time is still to come. -/
def LastFirst (i : Fin numSem) (x : Kernel.Waits × Kernel) : Prop :=
  ∃ a, Rep x.2 a ∧ a.Good ∧ (x.2.waiting i).Pairwise (fun t u => x.1.since u < x.1.since t) ∧
    ∀ t ∈ x.2.waiting i, x.1.since t < x.1.now

theorem lastFirst_step {x y : Kernel.Waits × Kernel} (hx : LastFirst i x)
    (hy : recorded Kernel.step (Kernel.Waits.next i) x e = some y) : LastFirst i y := by
  obtain ⟨w, s⟩ := x
  obtain ⟨s', hs, rfl⟩ := Option.map_eq_some_iff.mp hy
  obtain ⟨a, h, g, hord, hpast⟩ := hx
  dsimp only at h hord hpast hs
  obtain ⟨b, hb, h', g'⟩ := h.step_some g hs
  have hcur : s.current ∉ s.waiting i := by
    rw [h.waiting, h.current]
    exact g.current _
  -- the step changes the time of the caller at most
  have hsame : ∀ t ∈ s.waiting i, (w.next i s e).since t = w.since t := by
    intro t ht
    have hne : t ≠ s.current := fun e => hcur (e ▸ ht)
    simp only [Kernel.Waits.next]
    split
    · exact Function.update_of_ne hne _ _
    · rfl
  have hord' : (s.waiting i).Pairwise (fun t u => (w.next i s e).since u < (w.next i s e).since t) :=
    hord.imp_of_mem fun ht hu hlt => by rw [hsame _ ht, hsame _ hu]; exact hlt
  have hpast' : ∀ t ∈ s.waiting i, (w.next i s e).since t < (w.next i s e).now := fun t ht => by
    rw [hsame t ht]
    exact Nat.lt_succ_of_lt (hpast t ht)
  refine ⟨b, h', g', ?_⟩
  dsimp only
  rcases waiting_step h h' hb i with ⟨hw, hq⟩ | ⟨-, -, t, ts, hq, hq'⟩ | ⟨-, hq | hq⟩
  · have hnow : (w.next i s e).since s.current = w.now := by simp [Kernel.Waits.next, hw]
    rw [hq]
    constructor
    · refine List.pairwise_cons.mpr ⟨fun t ht => ?_, hord'⟩
      rw [hnow, hsame t ht]
      exact hpast t ht
    · intro t ht
      rcases List.mem_cons.mp ht with rfl | ht
      · rw [hnow]; exact Nat.lt_succ_self _
      · exact hpast' t ht
  · rw [hq] at hord' hpast'
    rw [hq']
    exact ⟨(List.pairwise_cons.mp hord').2, fun t ht => hpast' t (List.mem_cons_of_mem _ ht)⟩
  · rw [hq]
    exact ⟨hord', hpast'⟩
  · rw [hq]
    exact ⟨List.Pairwise.nil, by simp⟩

theorem fifo_step_iff {x y : Kernel.Waits × Kernel} (hx : LastFirst i x)
    (hy : recorded Kernel.step (Kernel.Waits.next i) x e = some y) :
    Kernel.Fifo i x e y ↔ Kernel.WakesOne i x.2 e := by
  obtain ⟨w, s⟩ := x
  obtain ⟨s', hs, rfl⟩ := Option.map_eq_some_iff.mp hy
  obtain ⟨a, h, g, hord, hpast⟩ := hx
  dsimp only at h hord hs
  obtain ⟨b, hb, h', g'⟩ := h.step_some g hs
  have hnd : (s.waiting i).Nodup := by
    rw [h.waiting]
    exact g.nodup _
  unfold Kernel.Fifo Kernel.WakesOne
  dsimp only
  refine imp_congr_right fun hsig => ?_
  rcases waiting_step h h' hb i with ⟨hw, -⟩ | ⟨-, hwake, t, ts, hq, hq'⟩ | ⟨hno, hq⟩
  · simp only [Kernel.waitsOn, Kernel.signalsTo, Bool.and_eq_true, decide_eq_true_eq] at hw hsig
    rw [hw.1] at hsig
    cases hsig.1
  · rw [hq] at hord hnd ⊢
    rw [hq', imp_iff_right hwake]
    constructor
    · intro hfifo
      cases ts with
      | nil => simp
      | cons u us =>
        have hlt := (List.pairwise_cons.mp hord).1 u List.mem_cons_self
        exact absurd List.mem_cons_self (hfifo u (List.mem_cons_of_mem _ List.mem_cons_self) t List.mem_cons_self hlt
          (List.nodup_cons.mp hnd).1)
    · intro hlen u _ v _ _ _
      cases ts with
      | nil => simp
      | cons _ _ => simp at hlen
  · rw [hno hsig]
    refine iff_of_true (fun t ht u hu _ hout => ?_) (by simp)
    rcases hq with hq | hq
    · rw [hq] at hout
      exact absurd hu hout
    · rw [hq]
      exact List.not_mem_nil

theorem prompt_step {x y : Kernel.Waits × Kernel} (hx : LastFirst i x) (hone : Kernel.WakesOne i x.2 e)
    (hany : Kernel.WakesAny i x.2 e) (hy : recorded Kernel.step (Kernel.Waits.next i) x e = some y) :
    Kernel.Prompt i x e y := by
  obtain ⟨w, s⟩ := x
  obtain ⟨s', hs, rfl⟩ := Option.map_eq_some_iff.mp hy
  obtain ⟨a, h, g, -, -⟩ := hx
  dsimp only at h hs
  obtain ⟨b, hb, h', g'⟩ := h.step_some g hs
  intro hsig t ht
  exfalso
  dsimp only at hsig ht
  rcases waiting_step h h' hb i with ⟨hw, -⟩ | ⟨-, hwake, u, us, hq, hq'⟩ | ⟨hno, hq⟩
  · simp only [Kernel.waitsOn, Kernel.signalsTo, Bool.and_eq_true, decide_eq_true_eq] at hw hsig
    rw [hw.1] at hsig
    cases hsig.1
  · have hlen := hone hsig hwake
    rw [hq] at hlen
    rw [hq'] at ht
    cases us with
    | nil => cases ht
    | cons _ _ => simp at hlen
  · have hnil := hany hsig (hno hsig)
    rcases hq with hq | hq
    · rw [hq, hnil] at ht
      cases ht
    · rw [hq] at ht
      cases ht

end

theorem boot_lastFirst (mc : Machine) (i : Fin numSem) : LastFirst i (.start, Kernel.boot mc) := by
  have hq : (Kernel.boot mc).waiting i = [] := (boot_rep mc).waiting i
  refine ⟨bootAbs mc, boot_rep mc, boot_good mc, ?_⟩
  dsimp only
  rw [hq]
  exact ⟨List.Pairwise.nil, by simp⟩

/-- Along a run no waiter of a semaphore is overtaken if and only if each signal that wakes finds
one thread blocked; and then, while no signal finds threads blocked that it does not wake, none
waits for more signals than there were threads blocked. -/
theorem wake_order (mc : Machine) (i : Fin numSem) (es : List Kernel.Event) : SafeRun mc es →
    (AllSteps (recorded Kernel.step (Kernel.Waits.next i)) (Kernel.Fifo i) (.start, Kernel.boot mc) es ↔
      AllSteps (recorded Kernel.step (Kernel.Waits.next i)) (fun x e _ => Kernel.WakesOne i x.2 e)
        (.start, Kernel.boot mc) es) ∧
    (AllSteps (recorded Kernel.step (Kernel.Waits.next i)) (fun x e _ => Kernel.WakesOne i x.2 e ∧
        Kernel.WakesAny i x.2 e) (.start, Kernel.boot mc) es →
      AllSteps (recorded Kernel.step (Kernel.Waits.next i)) (Kernel.Prompt i) (.start, Kernel.boot mc) es) := by
  intro _
  constructor
  · apply allSteps_iff_allSteps (I := LastFirst i) (A := fun _ => True) (P := fun x e _ => Kernel.WakesOne i x.2 e)
      (R := Kernel.Fifo i)
    · exact fun x e y hx _ hp hy => ⟨lastFirst_step hx hy, (fifo_step_iff hx hy).mpr hp⟩
    · exact fun x e y hx _ hp hy hr => hp ((fifo_step_iff hx hy).mp hr)
    · exact boot_lastFirst mc i
    · exact fun _ _ => trivial
  · apply allSteps_of_invariant (I := LastFirst i)
      (P := fun x e _ => Kernel.WakesOne i x.2 e ∧ Kernel.WakesAny i x.2 e) (R := Kernel.Prompt i)
    · exact fun x e y hx hp hy => ⟨lastFirst_step hx hy, prompt_step hx hp.1 hp.2 hy⟩
    · exact boot_lastFirst mc i

/-- Two threads wait, each alone, and each is woken by the next signal. -/
def oneByOne : List Kernel.Event :=
  [⟨.semCreate 0, 0⟩, ⟨.threadCreate 0x100000 0 0x100000, 0⟩, ⟨.semWait 0, 8⟩, ⟨.semSignal 0, 0⟩, ⟨.semWait 0, 8⟩,
    ⟨.semSignal 0, 0⟩]

theorem wake_order_oneByOne :
    (exec Kernel.step (Kernel.boot .blank) oneByOne).any (fun s => s.members .readyqueue = [2]) ∧
    AllSteps (recorded Kernel.step (Kernel.Waits.next 0)) (Kernel.Fifo 0) (.start, Kernel.boot .blank) oneByOne ∧
    AllSteps (recorded Kernel.step (Kernel.Waits.next 0)) (Kernel.Prompt 0) (.start, Kernel.boot .blank) oneByOne := by
  have h := wake_order .blank 0 oneByOne (by decide +kernel)
  have hone : AllSteps (recorded Kernel.step (Kernel.Waits.next 0)) (fun x e _ => Kernel.WakesOne 0 x.2 e ∧
      Kernel.WakesAny 0 x.2 e) (.start, Kernel.boot .blank) oneByOne := by
    unfold Kernel.WakesOne Kernel.WakesAny
    decide +kernel
  exact ⟨by decide +kernel, h.1.mpr (allSteps_imp (fun _ _ _ => And.left) hone), h.2 hone⟩

/-- Thread 2 waits, then thread 3; the signal of task 1 wakes thread 3. -/
theorem signal_overtakes : ¬ AllSteps (recorded Kernel.step (Kernel.Waits.next 0)) (Kernel.Fifo 0)
    (.start, Kernel.boot .blank) [⟨.semCreate 0, 0⟩, ⟨.threadCreate 0x100000 0 0x100000, 0⟩,
      ⟨.threadCreate 0x100000 0 0x100000, 0⟩, ⟨.yield, 0⟩, ⟨.semWait 0, 0⟩, ⟨.semWait 0, 0⟩, ⟨.semSignal 0, 0⟩] := by
  intro hall
  have hrun : (exec (recorded Kernel.step (Kernel.Waits.next 0)) (.start, Kernel.boot .blank) [⟨.semCreate 0, 0⟩,
      ⟨.threadCreate 0x100000 0 0x100000, 0⟩, ⟨.threadCreate 0x100000 0 0x100000, 0⟩, ⟨.yield, 0⟩, ⟨.semWait 0, 0⟩,
      ⟨.semWait 0, 0⟩]).any (fun x => (recorded Kernel.step (Kernel.Waits.next 0) x ⟨.semSignal 0, 0⟩).any fun y =>
        decide (x.2.signalsTo 0 ⟨.semSignal 0, 0⟩ = true ∧ x.2.waiting 0 = [3, 2] ∧ x.1.since 2 < x.1.since 3 ∧
          y.2.waiting 0 = [2])) = true := by decide +kernel
  obtain ⟨x, hx, hrun⟩ := (Option.any_eq_true _ _).mp hrun
  obtain ⟨y, hy, hd⟩ := (Option.any_eq_true _ _).mp hrun
  obtain ⟨hsig, hbefore, hsince, hafter⟩ := of_decide_eq_true hd
  have hfifo : Kernel.Fifo 0 x ⟨.semSignal 0, 0⟩ y := allSteps_last _ hall hx hy
  have hmem := hfifo hsig 2 (by rw [hbefore]; decide) 3 (by rw [hbefore]; decide) hsince (by rw [hafter]; decide)
  rw [hafter] at hmem
  exact hmem List.mem_cons_self

end ZeosSOA.Sysenter
