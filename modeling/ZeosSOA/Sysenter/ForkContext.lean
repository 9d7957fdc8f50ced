import ZeosSOA.Sysenter.Contexts
import ZeosSOA.Sysenter.Entry
import ZeosSOA.Sysenter.Stacks

/-!
# ZeOSSysenter: the context of a forked child

The end of `sys_fork` on the memory that holds the two task unions, and how parent and child come back
to user mode from it.
-/

namespace ZeosSOA.Sysenter

open X86

/-- `sys_fork` from `get_ebp` on: `ebp` is what that has returned. -/
def forkContext (l : Labels) (m : Memory) (current uchild ebp : UInt32) : Memory :=
  let registerEbp := ebp - current + uchild
  let registerEsp := uchild + 20
  let m := store m registerEsp (registerEbp + 4)
  let tempEbp := load m registerEbp
  let m := store m registerEsp (load m registerEsp - 4)
  let m := store m (load m registerEsp) l.retFromFork
  let m := store m registerEsp (load m registerEsp - 4)
  store m (load m registerEsp) tempEbp

section
variable {l : Labels} {m : Memory} {cur child bp : UInt32} {p : Nat} {ws : List UInt32}

/-- With the frame pointer at the word `p + 1` of the parent's page the context is three words of the child's. -/
theorem forkContext_eq (hc : child.toNat % 4096 = 0) (hp : 20 ≤ p) (hp' : p + 1 < 1024) :
    forkContext l m cur child (cell cur (p + 1)) =
      store (store (store (store (store m (cell child 5) (cell child (p + 2))) (cell child 5) (cell child (p + 1)))
        (cell child (p + 1)) l.retFromFork) (cell child 5) (cell child p)) (cell child p) (load m (cell child (p + 1))) := by
  have hreg : cell cur (p + 1) - cur + child = cell child (p + 1) := by
    rw [cell, add_sub_self, UInt32.add_comm]
    rfl
  have hesp : child + 20 = cell child 5 := rfl
  have hup : cell child (p + 1) + 4 = cell child (p + 2) := cell_add child (p + 1) 1
  have hdown : ∀ j, cell child (j + 1) - 4 = cell child j := fun j => cell_sub child j 1
  have hframe : ∀ m v, load (store m (cell child 5) v) (cell child (p + 1)) = load m (cell child (p + 1)) := fun m v =>
    load_store_cell hc hc (by decide) hp' (.inr (by omega))
  have hslot : ∀ m v, load (store m (cell child (p + 1)) v) (cell child 5) = load m (cell child 5) := fun m v =>
    load_store_cell hc hc hp' (by decide) (.inr (by omega))
  unfold forkContext
  simp only [hreg, hesp, hup, load_store, hdown, hframe, hslot]

theorem forkContext_words (hc : child.toNat % 4096 = 0) (hp : 20 ≤ p) (hlen : p + (ws.length + 2) ≤ 1024)
    (hw : Words m (cell child (p + 1)) (bp :: ws)) :
    Words (forkContext l m cur child (cell cur (p + 1))) (cell child p) (bp :: l.retFromFork :: ws) := by
  have hbp := (words_cons.mp hw).1
  rw [forkContext_eq hc hp (by omega), hbp]
  have hkeep : ∀ m v, SameFrom child (p + 1) m (store m (cell child 5) v) := fun m v =>
    sameFrom_store hc hc (by decide) (.inr (by omega))
  have hlen' : ∀ v : UInt32, p + 1 + (v :: ws).length ≤ 1024 := fun v => by
    rw [List.length_cons]
    omega
  have h1 := (hkeep _ (cell child (p + 1))).words (Nat.le_refl _) (hlen' _)
    ((hkeep m (cell child (p + 2))).words (Nat.le_refl _) (hlen' _) hw)
  -- ret_from_fork goes over the saved ebp
  have h2 := h1.set (v := l.retFromFork) (by rw [List.length_cons]; omega) (Nat.succ_pos _)
  rw [cell_add, Nat.add_zero, List.set_cons_zero] at h2
  have h3 := (hkeep _ (cell child p)).words (Nat.le_refl _) (hlen' _) h2
  have h4 := h3.push (v := bp) (by rw [List.length_cons]; omega)
  rwa [show cell child (p + 1) - 4 = cell child p from cell_sub child p 1] at h4

theorem forkContext_esp (hc : child.toNat % 4096 = 0) (hp : 20 ≤ p) (hp' : p + 1 < 1024) :
    load (forkContext l m cur child (cell cur (p + 1))) (cell child 5) = cell child p := by
  rw [forkContext_eq hc hp hp', load_store_cell hc hc (by omega) (by decide) (.inr (by omega)), load_store]

theorem forkContext_other (hc : child.toNat % 4096 = 0) (hp : 20 ≤ p) (hp' : p + 1 < 1024) {a : UInt32}
    (ha : 4096 ≤ (a - child).toNat) : forkContext l m cur child (cell cur (p + 1)) a = m a := by
  have hcell : ∀ {j : Nat}, j < 1024 → 4 ≤ (a - cell child j).toNat := by
    intro j hj
    have := outside ha (Nat.le_of_lt hj)
    omega
  rw [forkContext_eq hc hp hp']
  iterate 5 rw [store_other (hcell (by omega))]

end

/-! ## The call and its two returns -/

/-- A `sys_fork` and what becomes of it. -/
structure ForkRun where
  /-- At the gate. -/
  s : State
  f : UInt32
  body : UInt32
  /-- The memory when `get_ebp` is called. -/
  m : Memory
  /-- `sys_fork` before its last two instructions. -/
  e : State
  /-- The first `switch_stack` to the child. -/
  d : State

/-- The memory with the context of the child. -/
def ForkRun.built (w : ForkRun) (l : Labels) (cur child : UInt32) : Memory :=
  forkContext l w.m cur child ((atBody l w.s w.body).reg .ebp)

/-- The frame pointer of `sys_fork` is at the word `p + 1` of the parent's page, above the task struct. It returns `r`, with
its frame as it was, and nobody writes to the context of the child before `switch_stack` does. -/
structure ForkRun.Valid (w : ForkRun) (c : Code) (l : Labels) (cur child old : UInt32) (p : Nat) (r : Int) : Prop where
  linked : Linked c l
  low : 20 ≤ p
  high : p + 19 ≤ 1024
  entered : Entered l w.s 2 w.f cur (p + 1)
  prologue : At c w.f prologue w.body
  copied : Duplicates cur child (p + 1) (atBody l w.s w.body).mem w.m
  epilogue : ∃ a, At c w.e.eip epilogue a
  esp : w.e.reg .esp = cell cur (p + 1)
  eax : w.e.reg .eax = .ofInt r
  parentCs : w.e.sysenterCs = Gate.kernelCs
  parent : SameFrom cur (p + 1) (w.built l cur child) w.e.mem
  child : TakesOver l (w.built l cur child) w.d child old p

/-- Parent and child come back to the user program that `sys_fork` was called from, in `u` and `v`. -/
structure ForkRun.ReturnsTwice (w : ForkRun) (c : Code) (l : Labels) (cur child : UInt32) (p : Nat) (r : Int) (u v : State) :
    Prop where
  parent : ∃ t, Leaves c l w.s w.e t u cur (p + 1) (Gate.callerEip w.s) (w.s.reg .ebp)
  child : ∃ f t, Reaches c w.d f ∧ f.eip = l.retFromFork ∧
    Leaves c l w.s f t v child (p + 1) (Gate.callerEip w.s) (w.s.reg .ebp) ∧ t.reg .eax = 0
  eax : u.reg .eax = .ofInt r ∧ v.reg .eax = 0
  eip : v.eip = u.eip
  reg : ∀ g, g ≠ .eax → v.reg g = u.reg g
  seg : v.seg = u.seg

section
variable {w : ForkRun} {c : Code} {l : Labels} {cur child old : UInt32} {p : Nat} {r : Int}

namespace ForkRun

theorem Valid.framed (h : w.Valid c l cur child old p r) (hcur : cur.toNat % 4096 = 0) (hchild : child.toNat % 4096 = 0)
    (hne : cur ≠ child) :
    Framed (w.built l cur child) cur (p + 1) w.s [l.callReturn] (Gate.callerEip w.s) (w.s.reg .ebp) ∧
      Framed (w.built l cur child) child p w.s [l.retFromFork, l.callReturn] (Gate.callerEip w.s) (w.s.reg .ebp) ∧
      load (w.built l cur child) (cell child 5) = cell child p ∧
      ∀ i < 4096, w.built l cur child (cur + .ofNat i) = w.m (cur + .ofNat i) := by
  have hp := h.high
  obtain ⟨hebp, -, -, hbody⟩ := h.entered.framed w.body
  obtain ⟨hparent, hcopy⟩ := h.copied.words hcur hchild hne (by simp [frame_length]; omega) hbody
  have hsame : ∀ i < 4096, w.built l cur child (cur + .ofNat i) = w.m (cur + .ofNat i) := by
    intro i hi
    rw [built, hebp]
    exact forkContext_other hchild h.low (by omega) (pages_apart hcur hchild hne hi)
  refine ⟨?_, ?_, ?_, hsame⟩
  · rw [Framed, words_cell]
    intro i hi
    rw [← words_cell.mp hparent i hi]
    apply load_congr
    intro k hk
    simp only [List.length_append, List.length_cons, List.length_nil, frame_length] at hi
    rw [cell_byte]
    exact hsame _ (by omega)
  · rw [built, hebp]
    exact forkContext_words hchild h.low (by simp [frame_length]; omega) hcopy
  · rw [built, hebp]
    exact forkContext_esp hchild h.low (by omega)

theorem Valid.parent_leaves (h : w.Valid c l cur child old p r)
    (hw : Framed (w.built l cur child) cur (p + 1) w.s [l.callReturn] (Gate.callerEip w.s) (w.s.reg .ebp)) :
    ∃ t u, Leaves c l w.s w.e t u cur (p + 1) (Gate.callerEip w.s) (w.s.reg .ebp) ∧ t.reg .eax = .ofInt r := by
  have hp := h.high
  obtain ⟨a, hat⟩ := h.epilogue
  have hwe := h.parent.words (Nat.le_refl _) (by simp [frame_length]; omega) hw
  obtain ⟨t, hrun, heip, -, hesp, heax, hcs, -, hws⟩ := reaches_epilogue hat h.esp hwe
  obtain ⟨u, hu⟩ := h.linked.leaves hrun heip hesp hws (hcs.trans h.parentCs)
  exact ⟨t, u, hu, heax.trans h.eax⟩

theorem Valid.child_leaves (h : w.Valid c l cur child old p r) (hold : old.toNat % 4096 = 0)
    (hchild : child.toNat % 4096 = 0) (hsaved : load (w.built l cur child) (cell child 5) = cell child p)
    (hw : Framed (w.built l cur child) child p w.s [l.retFromFork, l.callReturn] (Gate.callerEip w.s) (w.s.reg .ebp)) :
    ∃ f t v, Reaches c w.d f ∧ f.eip = l.retFromFork ∧
      Leaves c l w.s f t v child (p + 1) (Gate.callerEip w.s) (w.s.reg .ebp) ∧ t.reg .eax = 0 := by
  have hp := h.high
  obtain ⟨f, hrun, heip, -, hesp, hcs, -, hws⟩ := h.child.reaches h.linked hold hchild h.low (by simp [frame_length]; omega)
    hsaved hw
  rw [← hesp] at hws
  obtain ⟨t, hret, hteip, hteax, htesp, htcs, hwt⟩ := h.linked.retFromFork.back heip hws (by simp [frame_length])
  have hup : cell child (p + 2) + 4 = cell child (p + 3) := cell_add child (p + 2) 1
  rw [hesp, hup] at hwt htesp
  obtain ⟨v, hv⟩ := h.linked.leaves hret hteip htesp hwt (htcs.trans hcs)
  exact ⟨f, t, v, hrun, heip, hv, hteax⟩

/-- The parent keeps its stack, and both get back to the user program. -/
theorem Valid.returnsTwice (h : w.Valid c l cur child old p r) (hcur : cur.toNat % 4096 = 0) (hold : old.toNat % 4096 = 0)
    (hchild : child.toNat % 4096 = 0) (hne : cur ≠ child) :
    ∃ u v, w.ReturnsTwice c l cur child p r u v := by
  obtain ⟨hparent, hcopy, hsaved, -⟩ := h.framed hcur hchild hne
  obtain ⟨t, u, hu, heax⟩ := h.parent_leaves hparent
  obtain ⟨f, t', v, hrun, hf, hv, heax'⟩ := h.child_leaves hold hchild hsaved hcopy
  obtain ⟨heip, hreg, hseg⟩ := hu.resumed.same hv.resumed
  exact ⟨u, v, ⟨t, hu⟩, ⟨f, t', hrun, hf, hv, heax'⟩, ⟨hu.resumed.eax.trans heax, hv.resumed.eax.trans heax'⟩, heip, hreg, hseg⟩

end ForkRun

theorem Rep.sysFork_child {k k' : Kernel} {a : AbsKernel} (h : Rep k a) (g : a.Good) {ebp : Nat}
    (hf : k.sysFork ebp = some (r, k')) (h0 : 0 < r) {child : TaskId} (hc : k.freeHead = some child) :
    k.current ≠ child ∧ (k'.task child).PID = r ∧ (k'.task child).registerEsp = some ⟨child, ebp - 4⟩ := by
  obtain ⟨c, hc', hmade⟩ := (Kernel.sysFork_contexts hf).2 h0
  obtain rfl : child = c := Option.some.inj (hc.symm.trans hc')
  have hrel := h.sysFork (g.current _) ebp
  rw [hf] at hrel
  cases hx : a.fork with
  | none => rw [hx] at hrel; cases hrel
  | some x =>
    rw [hx] at hrel
    obtain ⟨hret, h'⟩ : Rep.Ret (r, k') x := by cases hrel; assumption
    rcases AbsKernel.fork_cases hx with
      ⟨-, rfl⟩ | ⟨c', rest, tab, hq, -, ⟨mm, -, rfl⟩ | ⟨m1, pt, mm, -, -, -, rfl⟩⟩
    · exact absurd h0 (by rw [show r = -ENOMEM from hret]; decide)
    · exact absurd h0 (by rw [show r = -EAGAIN from hret]; decide)
    · obtain rfl : child = c' := Option.some.inj (hc.symm.trans (h.freeHead hq))
      have htask := (h'.task child).trans (AbsKernel.forkStart_task child rest tab mm child)
      rw [if_pos rfl] at htask
      refine ⟨?_, (congrArg TaskCore.PID htask).trans hret.symm, hmade.saved⟩
      rw [h.current]
      exact (g.child_ne hq).1

end

/-- Nothing but the copy happens in the body; another task, whose flags are clear, gives the processor to the child. -/
def sampleFork (cur child old : UInt32) : ForkRun :=
  let s := sampleGate 2 cur
  let m := copied (atBody sampleLabels s 51).mem cur child 4096
  let built := forkContext sampleLabels m cur child ((atBody sampleLabels s 51).reg .ebp)
  { s := s
    f := 49
    body := 51
    m := m
    e := { s with
      reg := fun | .eax => .ofInt 1001 | .esp => cell cur 1006 | _ => 0
      eip := 51
      mem := built }
    d := sampleSwitch built old (load built (cell child 5)) }

theorem sampleFork_valid {cur child old : UInt32} (hcur : cur.toNat % 4096 = 0) (hchild : child.toNat % 4096 = 0)
    (hold : old.toNat % 4096 = 0) (hne : cur ≠ child) (hne' : old ≠ child)
    (h : ∀ k < 4, 4096 ≤ (sampleLabels.sysCallTable + 4 * .ofNat 2 + .ofNat k - cur).toNat) :
    (sampleFork cur child old).Valid sampleCode sampleLabels cur child old 1005 1001 where
  linked := sample_linked
  low := by decide
  high := by decide
  entered := sample_entered h
  prologue := sample_function.1
  copied := ⟨_, _, .refl _ _ _, copyData_page hcur hchild hne, .refl _ _ _, .refl _ _ _⟩
  epilogue := ⟨53, sample_function.2⟩
  esp := rfl
  eax := rfl
  parentCs := rfl
  parent := .refl _ _ _
  child := sample_takesOver hold hchild hne' 1005

/-- A child that is dispatched for the first time comes back to user mode where its parent does, with the same registers,
segments and stack, but with 0 in `eax` where the parent has the PID of the child. The saved flags are the same for both,
and both leave with the flags of the kernel code that has run before. -/
theorem fork_returns_twice {mc : Machine} {k k' : Kernel} {r : Int} {p : Nat} {child t₀ : TaskId} {c : Code} {l : Labels}
    {w : ForkRun} (hk : Reachable mc k) (hf : k.sysFork (4 * (p + 1)) = some (r, k')) (h0 : 0 < r)
    (hc : k.freeHead = some child)
    (h : w.Valid c l (taskUnion mc.image k.current) (taskUnion mc.image child) (taskUnion mc.image t₀) p r) :
    Reaches c w.s (atBody l w.s w.body) ∧ (k'.task child).PID = r ∧
      (k'.task child).registerEsp.map (StackPtr.address mc.image) =
        some (load w.d.mem (cell (taskUnion mc.image child) 5)) ∧
      (∀ i < 4096, w.built l (taskUnion mc.image k.current) (taskUnion mc.image child)
        (taskUnion mc.image k.current + .ofNat i) = w.m (taskUnion mc.image k.current + .ofNat i)) ∧
      ∃ u v, w.ReturnsTwice c l (taskUnion mc.image k.current) (taskUnion mc.image child) p r u v := by
  obtain ⟨a, hrep, g⟩ := hk.rep
  obtain ⟨hne, hpid, hesp⟩ := hrep.sysFork_child g hf h0 hc
  have hcur := taskUnion_aligned mc.image k.current
  have hchild := taskUnion_aligned mc.image child
  obtain ⟨-, -, hsaved, hsame⟩ := h.framed hcur hchild (taskUnion_ne hne)
  have hp := h.high
  refine ⟨h.entered.reaches_body h.linked (by decide) (by omega) h.prologue, hpid, ?_, hsame,
    h.returnsTwice hcur (taskUnion_aligned mc.image t₀) hchild (taskUnion_ne hne)⟩
  have hoff : 4 * (p + 1) - 4 = 4 * p := by omega
  rw [hesp, Option.map_some, hoff, address_cell, h.child.saved, hsaved]

/-- Task 1 forks after the machine has booted, and idle hands over to the child. -/
theorem sampleFork_boot : (sampleFork (taskUnion Machine.blank.image (Kernel.boot .blank).current)
    (taskUnion Machine.blank.image 2) (taskUnion Machine.blank.image 0)).Valid sampleCode sampleLabels
      (taskUnion Machine.blank.image (Kernel.boot .blank).current) (taskUnion Machine.blank.image 2)
      (taskUnion Machine.blank.image 0) 1005 1001 := by
  have hcur : (Kernel.boot .blank).current = 1 := (boot_rep .blank).current
  rw [hcur]
  exact sampleFork_valid (taskUnion_aligned _ _) (taskUnion_aligned _ _) (taskUnion_aligned _ _) (taskUnion_ne (by decide))
    (taskUnion_ne (by decide)) (by decide)

theorem fork_returns_twice_boot : ∃ k' w u v, (Kernel.boot .blank).sysFork 4024 = some (1001, k') ∧
    (k'.task 2).PID = 1001 ∧ ForkRun.ReturnsTwice w sampleCode sampleLabels
      (taskUnion Machine.blank.image (Kernel.boot .blank).current) (taskUnion Machine.blank.image 2) 1005 1001 u v := by
  have hrun : ((Kernel.boot .blank).sysFork 4024).any (fun x => decide (x.1 = 1001)) = true := by decide +kernel
  obtain ⟨⟨r, k'⟩, hf, hd⟩ := (Option.any_eq_true _ _).mp hrun
  obtain rfl : r = 1001 := of_decide_eq_true hd
  obtain ⟨-, hpid, -, -, u, v, hret⟩ := fork_returns_twice (p := 1005) (⟨[], rfl⟩ : Reachable .blank _) hf (by decide)
    ((boot_rep .blank).freeHead rfl) sampleFork_boot
  exact ⟨k', _, u, v, hf, hpid, hret⟩

/-- The program of the parent has a flag that the kernel never touches; the child comes back without it. -/
theorem fork_flags_lost : ¬ ∀ {mc : Machine} {k k' : Kernel} {r : Int} {p : Nat} {child t₀ : TaskId} {c : Code} {l : Labels}
    {w : ForkRun}, Reachable mc k → k.sysFork (4 * (p + 1)) = some (r, k') → 0 < r → k.freeHead = some child →
    w.Valid c l (taskUnion mc.image k.current) (taskUnion mc.image child) (taskUnion mc.image t₀) p r →
    ∃ u v, w.ReturnsTwice c l (taskUnion mc.image k.current) (taskUnion mc.image child) p r u v ∧ v.flags = u.flags := by
  intro hall
  have hrun : ((Kernel.boot .blank).sysFork 4024).any (fun x => decide (x.1 = 1001)) = true := by decide +kernel
  obtain ⟨⟨r, k'⟩, hf, hd⟩ := (Option.any_eq_true _ _).mp hrun
  obtain rfl : r = 1001 := of_decide_eq_true hd
  obtain ⟨u, v, ⟨⟨t, hu⟩, ⟨f, t', hrun', -, hv, -⟩, -⟩, hflags⟩ := hall (p := 1005) (⟨[], rfl⟩ : Reachable .blank _) hf
    (by decide) ((boot_rep .blank).freeHead rfl) sampleFork_boot
  have hparent := reaches_rest hu.reaches
  have hchild := reaches_rest (hrun'.trans hv.reaches)
  rw [hflags, hparent] at hchild
  exact absurd (show (0x200002 : UInt32) = 2 from hchild) (by decide)

end ZeosSOA.Sysenter
