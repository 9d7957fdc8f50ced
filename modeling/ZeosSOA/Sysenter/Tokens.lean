import ZeosSOA.Sysenter.Reach
import ZeosSOA.Sysenter.Semaphores

/-!
# ZeOSSysenter: the tokens of a semaphore

A semaphore is followed from its creation on, along any run without `sys_fork` in which it
is not destroyed. The history counts the waits and signals on it that the checks let
through, and keeps the threads that have waited and not yet signalled.
-/

namespace ZeosSOA.Sysenter

open Intrusive Runs

namespace Kernel

def accepts (s : Kernel) (semID : Int) : Bool :=
  match s.semCheck semID with
  | some (.accepted _ _) => true
  | _ => false

def waitsOn (i : Fin numSem) (s : Kernel) (e : Event) : Bool := e.op = .semWait i.val && s.accepts i.val

def signalsTo (i : Fin numSem) (s : Kernel) (e : Event) : Bool := e.op = .semSignal i.val && s.accepts i.val

/-- `inside`: the threads whose last call on the semaphore was a wait. -/
structure History where
  waits : Nat
  signals : Nat
  inside : Finset TaskId

def History.start : History := ⟨0, 0, ∅⟩

def History.next (i : Fin numSem) (h : History) (s : Kernel) (e : Event) : History :=
  if s.waitsOn i e then { h with waits := h.waits + 1, inside := insert s.current h.inside }
  else if s.signalsTo i e then { h with signals := h.signals + 1, inside := h.inside.erase s.current }
  else if e.op = .exit ∨ e.op = .threadExit then { h with inside := h.inside.erase s.current }
  else h

/-- Nobody forks, and nobody destroys the semaphore. -/
def Lasting (i : Fin numSem) (e : Event) : Prop := e.op ≠ .fork ∧ e.op ≠ .semDestroy i.val

/-- A thread only signals to the semaphore after it has waited on it. -/
def Disciplined (i : Fin numSem) (x : History × Kernel) (e : Event) : Prop :=
  x.2.signalsTo i e = true → x.2.current ∈ x.1.inside

instance (i : Fin numSem) (x : History × Kernel) (e : Event) : Decidable (Disciplined i x e) :=
  inferInstanceAs (Decidable (_ → _))

end Kernel

namespace AbsKernel

/-- The entry is a semaphore of the process `p` with the count `c`, and as many tasks wait on it
as its count is below zero. -/
structure Slot (a : AbsKernel) (tab : SemTable) (i : Fin numSem) (p c : Int) : Prop where
  entry : a.sem tab i = ⟨i.val, c, p⟩
  waiting : (a.queue (.blocked tab i)).length = (-c).toNat

section
variable {a b : AbsKernel} {tab : SemTable} {i : Fin numSem} {p c : Int}

theorem Slot.keeps (h : Slot a tab i p c) (hk : Keeps a b tab i) : Slot b tab i p c :=
  ⟨hk.sem.trans h.entry, by rw [hk.waiting]; exact h.waiting⟩

theorem Slot.count (h : Slot a tab i p c) : (a.sem tab i).count = c := by rw [h.entry]

theorem Slot.ge (h : Slot a tab i p c) (g : Good a) : -10 ≤ c := by
  have hl := (g.nodup (.blocked tab i)).length_le_card
  rw [Fintype.card_fin, h.waiting] at hl
  simp only [nrTasks] at hl
  omega

theorem Slot.addCount (h : Slot a tab i p c) {d : Int} (hr : -2 ^ 31 ≤ c + d) (hr' : c + d ≤ intMax) :
    (a.addCount tab i d).sem tab i = ⟨i.val, c + d, p⟩ := by
  simp [AbsKernel.addCount, setSem, h.entry, toInt32_of_range hr hr']

theorem Slot.semWait (h : Slot a tab i p c) (g : Good a) (hc : c ≤ intMax)
    (hchk : a.semCheck i.val = some (.accepted tab i)) (hb : a.semWait i.val = some b) : Slot b tab i p (c - 1) ∧
      b.queue (.blocked tab i) = if c ≤ 0 then a.current :: a.queue (.blocked tab i) else a.queue (.blocked tab i) := by
  have hge := h.ge g
  have hw := h.waiting
  have hadd := h.addCount (d := -1) (by omega) (by omega)
  obtain ⟨v, hv, hb⟩ := Option.bind_eq_some_iff.mp hb
  obtain rfl : v = .accepted tab i := Option.some.inj (hv.symm.trans hchk)
  dsimp only at hb
  rw [hadd] at hb
  dsimp only at hb
  split at hb <;> cases hb
  · have hq : ((a.addCount tab i (-1)).block tab i).queue (.blocked tab i) = a.current :: a.queue (.blocked tab i) := by
      rw [block, schedNextRr_blocked]
      simp [setQueue, AbsKernel.addCount, setSem]
    rw [if_pos (by omega)]
    refine ⟨⟨?_, ?_⟩, hq⟩
    · rw [block, schedNextRr_sem]; exact hadd
    · rw [hq, List.length_cons, hw]; omega
  · rw [if_neg (by omega)]
    exact ⟨⟨hadd, by rw [show (a.addCount tab i (-1)).queue = a.queue from rfl, hw]; omega⟩, rfl⟩

theorem Slot.semSignal (h : Slot a tab i p c) (g : Good a) (hc : c < intMax)
    (hchk : a.semCheck i.val = some (.accepted tab i)) (hb : a.semSignal i.val = some b) : Slot b tab i p (c + 1) ∧
      b.queue (.blocked tab i) = (a.queue (.blocked tab i)).tail := by
  have hge := h.ge g
  have hw := h.waiting
  have hadd := h.addCount (d := 1) (by omega) (by omega)
  obtain ⟨v, hv, hb⟩ := Option.bind_eq_some_iff.mp hb
  obtain rfl : v = .accepted tab i := Option.some.inj (hv.symm.trans hchk)
  dsimp only at hb
  rw [hadd] at hb
  dsimp only at hb
  split at hb
  · unfold wake at hb
    split at hb
    · rename_i t ts hq
      cases hb
      rw [show (a.addCount tab i 1).queue = a.queue from rfl] at hq
      rw [hq, List.length_cons] at hw
      refine ⟨⟨hadd, ?_⟩, ?_⟩
      · simp [setQueue, setState, modTask]; omega
      · simp [setQueue, setState, modTask, hq]
    · cases hb
  · cases hb
    have hnil : a.queue (.blocked tab i) = [] := List.eq_nil_of_length_eq_zero (by rw [hw]; omega)
    refine ⟨⟨hadd, ?_⟩, ?_⟩
    · rw [show (a.addCount tab i 1).queue = a.queue from rfl, hnil]
      simp; omega
    · rw [show (a.addCount tab i 1).queue = a.queue from rfl, hnil]; rfl

theorem slot_semCreate {v : Int} (hv : 0 ≤ v) {b : AbsKernel} (hb : a.semCreate v = some ((i.val : Int), b)) :
    ∃ tab, (a.task a.current).semafors = some tab ∧ Slot b tab i (a.task a.current).PID v := by
  obtain ⟨tab, htab, hb⟩ := Option.bind_eq_some_iff.mp hb
  refine ⟨tab, htab, ?_⟩
  split at hb
  · rename_i j hj
    obtain ⟨hij, rfl⟩ := Prod.mk.inj (Option.some.inj hb)
    obtain rfl : j = i := Fin.ext (Int.ofNat_inj.mp hij)
    exact ⟨by simp [setQueue, setSem], by simp [setQueue]; omega⟩
  · obtain ⟨hneg, -⟩ := Prod.mk.inj (Option.some.inj hb)
    omega

end

end AbsKernel

/-! ## Steps -/

section
variable {s : Kernel} {a b : AbsKernel} {e : Kernel.Event} {tab : SemTable} {i : Fin numSem} {p c : Int}

theorem accepts_iff (h : Rep s a) (tab : SemTable) :
    s.accepts i.val = true ↔ a.semCheck i.val = some (.accepted tab i) := by
  unfold Kernel.accepts
  rw [h.semCheck]
  rcases hx : a.semCheck i.val with _ | _ | ⟨tab', k⟩
  · simp
  · simp
  · obtain rfl : k = i := Fin.ext (Int.ofNat_inj.mp (AbsKernel.semCheck_accepted hx).1)
    obtain rfl : tab' = tab := by cases tab; cases tab'; rfl
    simp

theorem AbsKernel.Slot.step (hs : a.Slot tab i p c) (h : Rep s a) (g : a.Good) (hl : e.op ≠ .fork ∧ e.op ≠ .semDestroy i.val)
    (hc : c ≤ intMax) (hmax : s.signalsTo i e = true → c < intMax)
    (hb : a.step (Rep.argsOk s e.op) e.op = some b) :
    s.waitsOn i e = true ∧ b.Slot tab i p (c - 1) ∧ b.queue (.blocked tab i) =
        (if c ≤ 0 then a.current :: a.queue (.blocked tab i) else a.queue (.blocked tab i)) ∨
      s.waitsOn i e = false ∧ s.signalsTo i e = true ∧ b.Slot tab i p (c + 1) ∧
        b.queue (.blocked tab i) = (a.queue (.blocked tab i)).tail ∨
      s.waitsOn i e = false ∧ s.signalsTo i e = false ∧ b.Slot tab i p c ∧
        b.queue (.blocked tab i) = a.queue (.blocked tab i) := by
  obtain ⟨op, ebp⟩ := e
  have hhandle : a.handle (Rep.argsOk s op) op = some b := by
    unfold AbsKernel.step at hb
    split at hb
    · cases hb
    · exact hb
  cases hw : s.waitsOn i ⟨op, ebp⟩ with
  | true =>
    simp only [Kernel.waitsOn, Bool.and_eq_true, decide_eq_true_eq] at hw
    obtain ⟨rfl, hacc⟩ := hw
    exact .inl ⟨rfl, hs.semWait g hc ((accepts_iff h tab).mp hacc) hhandle⟩
  | false =>
    cases hg : s.signalsTo i ⟨op, ebp⟩ with
    | true =>
      have hlt := hmax hg
      simp only [Kernel.signalsTo, Bool.and_eq_true, decide_eq_true_eq] at hg
      obtain ⟨rfl, hacc⟩ := hg
      exact .inr (.inl ⟨rfl, rfl, hs.semSignal g hlt ((accepts_iff h tab).mp hacc) hhandle⟩)
    | false =>
      refine .inr (.inr ⟨rfl, rfl, ?_⟩)
      rcases AbsKernel.sem_step hb hl.1 tab i with hk | ⟨-, hfree⟩ | ⟨k, hop, hchk⟩
      · exact ⟨hs.keeps hk, hk.waiting⟩
      · rw [hs.entry] at hfree
        exact absurd hfree (by simp)
      · obtain rfl := (AbsKernel.semCheck_accepted hchk).1
        have hacc := (accepts_iff h tab).mpr hchk
        rcases hop with rfl | rfl | rfl
        · simp [Kernel.waitsOn, hacc] at hw
        · simp [Kernel.signalsTo, hacc] at hg
        · exact absurd rfl hl.2

end

/-! ## One thread inside -/

/-- Of the threads in `inside` one at most does not wait, and none while the count is positive. -/
def Exclusive (inside : Finset TaskId) (waiting : List TaskId) (c : Int) : Prop :=
  (inside.filter (· ∉ waiting)).card + c.toNat ≤ 1

section
variable {inside : Finset TaskId} {waiting : List TaskId} {c : Int}

theorem Exclusive.mono (h : Exclusive inside waiting c) {inside' : Finset TaskId} (hs : inside' ⊆ inside) :
    Exclusive inside' waiting c :=
  le_trans (Nat.add_le_add_right (Finset.card_le_card (Finset.filter_subset_filter _ hs)) _) h

theorem Exclusive.wait (h : Exclusive inside waiting c) (t : TaskId) :
    Exclusive (insert t inside) (if c ≤ 0 then t :: waiting else waiting) (c - 1) := by
  unfold Exclusive at *
  split
  · have hsub : (insert t inside).filter (· ∉ t :: waiting) ⊆ inside.filter (· ∉ waiting) := by
      intro u hu
      simp only [Finset.mem_filter, Finset.mem_insert, List.mem_cons, not_or] at hu ⊢
      exact ⟨hu.1.resolve_left hu.2.1, hu.2.2⟩
    have := Finset.card_le_card hsub
    omega
  · -- the token is there, so nobody is inside yet
    have hsub : (insert t inside).filter (· ∉ waiting) ⊆ insert t (inside.filter (· ∉ waiting)) := by
      intro u hu
      simp only [Finset.mem_filter, Finset.mem_insert] at hu ⊢
      exact hu.1.imp_right fun hi => ⟨hi, hu.2⟩
    have := (Finset.card_le_card hsub).trans (Finset.card_insert_le _ _)
    omega

theorem Exclusive.signal (h : Exclusive inside waiting c) (hw : waiting.length = (-c).toNat) {t : TaskId}
    (ht : t ∈ inside) (ht' : t ∉ waiting) : Exclusive (inside.erase t) waiting.tail (c + 1) := by
  unfold Exclusive at *
  have hmem : t ∈ inside.filter (· ∉ waiting) := Finset.mem_filter.mpr ⟨ht, ht'⟩
  have hcard := Finset.card_erase_of_mem hmem
  have hpos := Finset.card_pos.mpr ⟨t, hmem⟩
  cases waiting with
  | nil =>
    rw [List.length_nil] at hw
    have : (inside.erase t).filter (· ∉ ([] : List TaskId)) = (inside.filter (· ∉ ([] : List TaskId))).erase t :=
      Finset.filter_erase ..
    rw [List.tail_nil, this, hcard]
    omega
  | cons u us =>
    -- the woken thread takes the place of `t`
    have hsub : (inside.erase t).filter (· ∉ us) ⊆ insert u ((inside.filter (· ∉ u :: us)).erase t) := by
      intro v hv
      simp only [Finset.mem_filter, Finset.mem_insert, Finset.mem_erase, List.mem_cons, not_or] at hv ⊢
      tauto
    have := (Finset.card_le_card hsub).trans (Finset.card_insert_le _ _)
    rw [List.length_cons] at hw
    rw [List.tail_cons]
    omega

end

/-! ## Runs -/

/-- What the history says of the semaphore, and, when `D`, of the threads inside. -/
def Ledger (tab : SemTable) (i : Fin numSem) (p v : Int) (D : Prop) (x : Kernel.History × Kernel) : Prop :=
  ∃ a, Rep x.2 a ∧ a.Good ∧ (v + x.1.signals ≤ intMax → a.Slot tab i p (v + x.1.signals - x.1.waits) ∧
    (D → Exclusive x.1.inside (a.queue (.blocked tab i)) (v + x.1.signals - x.1.waits)))

theorem ledger_step {tab : SemTable} {i : Fin numSem} {p v : Int} {D : Prop} {x y : Kernel.History × Kernel}
    {e : Kernel.Event} (hx : Ledger tab i p v D x) (hl : Kernel.Lasting i e) (hd : D → Kernel.Disciplined i x e)
    (hy : recorded Kernel.step (Kernel.History.next i) x e = some y) : Ledger tab i p v D y := by
  obtain ⟨h, s⟩ := x
  obtain ⟨s', hs, rfl⟩ := Option.map_eq_some_iff.mp hy
  obtain ⟨a, hr, g, hx⟩ := hx
  dsimp only at hr hx
  obtain ⟨b, hb, hr', g'⟩ := hr.step_some g hs
  refine ⟨b, hr', g', fun hmax => ?_⟩
  dsimp only at hmax ⊢
  have hle : (h.signals : Int) ≤ (h.next i s e).signals := by
    unfold Kernel.History.next
    split
    · exact le_refl _
    · split
      · exact Int.ofNat_le.mpr (Nat.le_succ _)
      · split <;> exact le_refl _
  obtain ⟨hslot, hexcl⟩ := hx (by omega)
  have hsig : s.signalsTo i e = true → s.waitsOn i e = false → v + h.signals < intMax := by
    intro h1 h2
    simp only [Kernel.History.next, h1, h2, Bool.false_eq_true, if_false, if_true] at hmax
    push_cast at hmax
    omega
  have hsig' : s.signalsTo i e = true → s.waitsOn i e = false := fun h1 => by
    simp only [Kernel.signalsTo, Kernel.waitsOn, Bool.and_eq_true, decide_eq_true_eq] at h1 ⊢
    simp [h1.1]
  rcases hslot.step hr g hl (by omega) (fun h1 => by have := hsig h1 (hsig' h1); omega) hb with
    ⟨hw, hb', hq⟩ | ⟨hw, hg, hb', hq⟩ | ⟨hw, hg, hb', hq⟩
  · have hn : h.next i s e = { h with waits := h.waits + 1, inside := insert s.current h.inside } := if_pos hw
    have hc : v + h.signals - (h.waits + 1 : Nat) = v + h.signals - h.waits - 1 := by push_cast; omega
    rw [hn]
    dsimp only
    rw [hc, hq]
    exact ⟨hb', fun d => hr.current ▸ (hexcl d).wait _⟩
  · have hn : h.next i s e = { h with signals := h.signals + 1, inside := h.inside.erase s.current } := by
      simp [Kernel.History.next, hw, hg]
    have hc : v + (h.signals + 1 : Nat) - h.waits = v + h.signals - h.waits + 1 := by push_cast; omega
    rw [hn]
    dsimp only
    rw [hc, hq]
    refine ⟨hb', fun d => (hexcl d).signal hslot.waiting (hd d hg) ?_⟩
    rw [hr.current]
    exact g.current _
  · have hn : (h.next i s e).waits = h.waits ∧ (h.next i s e).signals = h.signals ∧
        (h.next i s e).inside ⊆ h.inside := by
      simp only [Kernel.History.next, hw, hg, Bool.false_eq_true, if_false]
      split
      · exact ⟨rfl, rfl, Finset.erase_subset _ _⟩
      · exact ⟨rfl, rfl, Finset.Subset.refl _⟩
    rw [hn.1, hn.2.1, hq]
    exact ⟨hb', fun d => (hexcl d).mono hn.2.2⟩

theorem ledger_start {mc : Machine} {s0 s1 r : Kernel} (h0 : Reachable mc s0) {v : Int} (hv : 0 ≤ v) {i : Fin numSem}
    (hret : s0.sysSemCreate v = some ((i.val : Int), r)) {ebp : Nat} (hs1 : s0.step ⟨.semCreate v, ebp⟩ = some s1)
    {D : Prop} (hD : D → v = 1) : ∃ tab, (s0.task s0.current).semafors = some tab ∧
      Ledger tab i (s0.task s0.current).PID v D (.start, s1) := by
  obtain ⟨a, h, g⟩ := h0.rep
  obtain ⟨b, hb, h', g'⟩ := h.step_some g hs1
  have hcreate : a.semCreate v = some ((i.val : Int), b) := by
    unfold AbsKernel.step at hb
    split at hb
    · cases hb
    obtain ⟨⟨j, b'⟩, hr, rfl⟩ := Option.map_eq_some_iff.mp hb
    have hrel := h.sysSemCreate v
    rw [hret, hr] at hrel
    cases hrel with
    | some hrel => rw [hr]; exact congrArg (fun j => some (j, b')) hrel.1.symm
  obtain ⟨tab, htab, hslot⟩ := AbsKernel.slot_semCreate hv hcreate
  rw [← h.cur] at htab hslot
  refine ⟨tab, htab, b, h', g', fun _ => ⟨by simpa [Kernel.History.start, TaskStruct.core] using hslot, fun d => ?_⟩⟩
  simp [Exclusive, Kernel.History.start, hD d]

/-- After the creation of the semaphore `i` with the value `v`, in any run in which nobody forks
and the semaphore is not destroyed: its count, and the tasks blocked on it, are what the
accepted waits and signals make them, and no more than `v` and the signals allow have been let
through. With one token, and threads that signal only after their wait, one thread at most is
inside. -/
theorem semaphore_tokens {mc : Machine} {s0 s1 s r : Kernel} (h0 : Reachable mc s0) {v : Int} (hv : 0 ≤ v)
    {i : Fin numSem} (hret : s0.sysSemCreate v = some ((i.val : Int), r)) {ebp : Nat}
    (hs1 : s0.step ⟨.semCreate v, ebp⟩ = some s1) {es : List Kernel.Event} (hes : ∀ e ∈ es, Kernel.Lasting i e)
    {h : Kernel.History} (he : exec (recorded Kernel.step (Kernel.History.next i)) (.start, s1) es = some (h, s))
    (hmax : v + h.signals ≤ intMax) :
    ∃ tab q, (s0.task s0.current).semafors = some tab ∧ s.links.Rings Set.univ q ∧
      s.sem tab i = ⟨i.val, v + h.signals - h.waits, (s0.task s0.current).PID⟩ ∧
      ((q (.blocked tab i)).length : Int) = max 0 (h.waits - v - h.signals) ∧ (q (.blocked tab i)).Nodup ∧
      (∀ t ∈ q (.blocked tab i), (s.task t).state = .blocked) ∧
      (h.waits : Int) - (q (.blocked tab i)).length ≤ v + h.signals ∧
      (v = 1 → AllSteps (recorded Kernel.step (Kernel.History.next i)) (fun x e _ => Kernel.Disciplined i x e)
          (.start, s1) es → (h.inside.filter (· ∉ q (.blocked tab i))).card ≤ 1) := by
  let D := v = 1 ∧ AllSteps (recorded Kernel.step (Kernel.History.next i)) (fun x e _ => Kernel.Disciplined i x e)
    (.start, s1) es
  obtain ⟨tab, htab, hstart⟩ := ledger_start h0 hv hret hs1 (D := D) And.left
  have hsteps : AllSteps (recorded Kernel.step (Kernel.History.next i))
      (fun x e _ => Kernel.Lasting i e ∧ (D → Kernel.Disciplined i x e)) (.start, s1) es := by
    refine allSteps_and (allSteps_of_forall (fun _ _ _ hl => hl) hes) ?_
    by_cases d : D
    · exact allSteps_imp (fun _ _ _ hp _ => hp) d.2
    · exact allSteps_of_forall (A := fun _ => True) (fun _ _ _ _ d' => absurd d' d) fun _ _ => trivial
  obtain ⟨a, hr, g, hx⟩ := exec_invariant (fun _ _ _ hx hp hy => ledger_step hx hp.1 hp.2 hy) hstart hsteps he
  obtain ⟨hslot, hexcl⟩ := hx hmax
  dsimp only at hr hslot hexcl
  have hw := hslot.waiting
  refine ⟨tab, a.queue, htab, hr.rings, ?_, by omega, g.nodup _, fun t ht => ?_, by omega, fun hv1 hdisc => ?_⟩
  · rw [hr.sem]; exact hslot.entry
  · exact (congrArg TaskCore.state (hr.task t)).trans (g.state (.blocked tab i) t ht _ rfl)
  · exact le_trans (Nat.le_add_right _ _) (hexcl ⟨hv1, hdisc⟩)

theorem semaphore_tokens_signal : ∃ s1 h s tab, ∃ q : Queue → List TaskId,
    Kernel.step (Kernel.boot .blank) ⟨.semCreate 1, 0⟩ = some s1 ∧
    exec (recorded Kernel.step (Kernel.History.next 0)) (.start, s1)
      [⟨.threadCreate 0x100000 0 0x100000, 0⟩, ⟨.semWait 0, 0⟩, ⟨.yield, 0⟩, ⟨.semWait 0, 0⟩, ⟨.semSignal 0, 0⟩] =
        some (h, s) ∧
    h.waits = 2 ∧ h.signals = 1 ∧ (s.sem tab 0).count = 0 ∧ (q (.blocked tab 0)).length = 0 ∧
    (h.inside.filter (· ∉ q (.blocked tab 0))).card ≤ 1 := by
  have hret : ((Kernel.boot .blank).sysSemCreate 1).any (fun r => decide (r.1 = 0)) = true := by decide +kernel
  have hrun : (Kernel.step (Kernel.boot .blank) ⟨.semCreate 1, 0⟩).any (fun s1 => decide
      (AllSteps (recorded Kernel.step (Kernel.History.next 0)) (fun x e _ => Kernel.Disciplined 0 x e) (.start, s1)
        [⟨.threadCreate 0x100000 0 0x100000, 0⟩, ⟨.semWait 0, 0⟩, ⟨.yield, 0⟩, ⟨.semWait 0, 0⟩, ⟨.semSignal 0, 0⟩] ∧
      (exec (recorded Kernel.step (Kernel.History.next 0)) (.start, s1)
        [⟨.threadCreate 0x100000 0 0x100000, 0⟩, ⟨.semWait 0, 0⟩, ⟨.yield, 0⟩, ⟨.semWait 0, 0⟩, ⟨.semSignal 0, 0⟩]).any
          (fun x => decide (x.1.waits = 2 ∧ x.1.signals = 1)) = true)) = true := by decide +kernel
  obtain ⟨⟨ret, r⟩, hret, hr0⟩ := (Option.any_eq_true _ _).mp hret
  obtain ⟨s1, hs1, hrun⟩ := (Option.any_eq_true _ _).mp hrun
  obtain ⟨hdisc, hrun⟩ := of_decide_eq_true hrun
  obtain ⟨⟨h, s⟩, he, hcount⟩ := (Option.any_eq_true _ _).mp hrun
  obtain ⟨hw, hg⟩ := of_decide_eq_true hcount
  obtain rfl := of_decide_eq_true hr0
  obtain ⟨tab, q, -, -, hentry, hlen, -, -, -, hone⟩ := semaphore_tokens ⟨[], rfl⟩ (by decide) hret hs1
    (by unfold Kernel.Lasting; decide) he (by dsimp only at hg; rw [hg]; decide)
  dsimp only at hw hg
  rw [hw, hg] at hentry hlen
  exact ⟨s1, h, s, tab, q, hs1, he, hw, hg, congrArg SemT.count hentry, by omega, hone rfl hdisc⟩

end ZeosSOA.Sysenter
