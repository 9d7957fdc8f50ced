import ZeosSOA.Sysenter.Entry
import ZeosSOA.Sysenter.Stacks
import ZeosSOA.Sysenter.ThreadStacks

/-!
# ZeOSSysenter: the context of a new thread

The words that `sys_threadCreate` writes to the user stack and over the copy of its own frame, and where
the thread starts with them. The numbers 2, 5 and 18 in the C code count words from the end of the page.
-/

namespace ZeosSOA.Sysenter

open X86 Mm Runs

/-- An argument of a C function whose frame pointer is in `ebp`. -/
def argument (b : State) (i : Nat) : UInt32 := load b.mem (b.reg .ebp + 8 + 4 * .ofNat i)

/-- `sys_threadCreate` from where it sets up the stacks. -/
def threadContext (m : Memory) (uchild ustack function parameter wrapp : UInt32) : Memory :=
  let m := store m (cell ustack 1021) 0x777
  let m := store m (cell ustack 1022) function
  let m := store m (cell ustack 1023) parameter
  let m := store m (cell uchild (kernelStackSize - 2)) (cell ustack 1021)
  let m := store m (cell uchild (kernelStackSize - 5)) wrapp
  store m (uchild + 20) (cell uchild (kernelStackSize - 18))

section
variable {l : Labels} {m : Memory} {s : State} {child ustack function parameter wrapp ret sp : UInt32} {fs : List UInt32}

theorem frame_set (s : State) (f ret sp wrapp ustack : UInt32) :
    ((s.reg .ebp :: [f] ++ frame s ret sp).set 16 ustack).set 13 wrapp = s.reg .ebp :: [f] ++ frame s wrapp ustack := by
  simp [frame, Gate.frame, savedRegs, saved]

/-- The words meet the two places of the frame that `sysexit` is prepared from. -/
theorem threadContext_framed {f : UInt32} (hchild : child.toNat % 4096 = 0) (hu : ustack.toNat % 4096 = 0) (hne : ustack ≠ child)
    (hw : Framed m child 1006 s [f] ret sp) :
    Framed (threadContext m child ustack function parameter wrapp) child 1006 s [f] wrapp (cell ustack 1021) := by
  have hkeep : ∀ {j : Nat} (m : Memory) (v : UInt32), j < 1024 → SameFrom child 1006 m (store m (cell ustack j) v) :=
    fun m v hj => sameFrom_store hu hchild hj (.inl hne)
  have hlen : ∀ ws : List UInt32, ws.length = 18 → 1006 + ws.length ≤ 1024 := fun ws h => by omega
  unfold threadContext
  dsimp only
  have h1 := (hkeep m 0x777 (by decide : 1021 < 1024)).words (Nat.le_refl _) (hlen _ (by simp [frame_length])) hw
  have h2 := (hkeep _ function (by decide : 1022 < 1024)).words (Nat.le_refl _) (hlen _ (by simp [frame_length])) h1
  have h3 := (hkeep _ parameter (by decide : 1023 < 1024)).words (Nat.le_refl _) (hlen _ (by simp [frame_length])) h2
  have h4 := (h3.set (v := cell ustack 1021) (by simp [frame_length]) (show 16 < _ by simp [frame_length])).set
    (v := wrapp) (by simp [frame_length]) (show 13 < _ by simp [frame_length])
  rw [cell_add, cell_add, frame_set] at h4
  have hslot : child + 20 = cell child 5 := rfl
  rw [hslot]
  exact (sameFrom_store hchild hchild (by decide) (.inr (by decide))).words (Nat.le_refl _)
    (hlen _ (by simp [frame_length])) h4

theorem threadContext_esp : load (threadContext m child ustack function parameter wrapp) (cell child 5) = cell child 1006 :=
  load_store _ _ _

end

/-! ## The call and the start -/

/-- A `sys_threadCreate` that has found everything, and the first `switch_stack` to its thread. -/
structure ThreadRun where
  /-- At the gate. -/
  s : State
  f : UInt32
  body : UInt32
  /-- The memory when the stacks are set up. -/
  m : Memory
  /-- The first `switch_stack` to the thread. -/
  d : State

/-- The memory with the context of the thread. -/
def ThreadRun.built (w : ThreadRun) (l : Labels) (child ustack : UInt32) : Memory :=
  let b := atBody l w.s w.body
  threadContext w.m child ustack (argument b 0) (argument b 1) (argument b 2)

/-- The handler has been entered on an empty stack, and nobody writes to the context of the thread before `switch_stack`
does. -/
structure ThreadRun.Valid (w : ThreadRun) (c : Code) (l : Labels) (cur child old ustack : UInt32) : Prop where
  linked : Linked c l
  entered : Entered l w.s 26 w.f cur 1006
  prologue : At c w.f prologue w.body
  copied : Duplicates cur child 1006 (atBody l w.s w.body).mem w.m
  child : TakesOver l (w.built l child ustack) w.d child old 1006

/-- The words for a thread in the memory of the machine are those of the frame that the table leads to. -/
def Sees (m : Memory) (k : Kernel) (pt page : Nat) : Prop :=
  ∀ frame, k.mm.translate pt page = some frame → ∀ i < 3,
    load m (cell (.ofNat (page <<< 12)) (1021 + i)) = k.mm.ram frame (1021 + i)

section
variable {w : ThreadRun} {c : Code} {l : Labels} {s : State} {b : State} {cur child old ustack base : UInt32} {p : Nat}
  {fs : List UInt32} {ret sp : UInt32}

theorem argument_framed (hebp : b.reg .ebp = cell base p) {f : UInt32} (hw : Framed b.mem base p s [f] ret sp) :
    argument b 0 = s.reg .ebx ∧ argument b 1 = s.reg .ecx ∧ argument b 2 = s.reg .edx := by
  have harg : ∀ i, argument b i = load b.mem (cell base (p + (2 + i))) := by
    intro i
    have h2 : cell base p + 8 = cell base (p + 2) := cell_add base p 2
    rw [argument, hebp, h2, cell_add, Nat.add_assoc]
  have hword := words_cell.mp hw
  refine ⟨?_, ?_, ?_⟩
  · rw [harg]
    exact hword 2 (by simp [frame_length])
  · rw [harg]
    exact hword 3 (by simp [frame_length])
  · rw [harg]
    exact hword 4 (by simp [frame_length])

theorem ThreadRun.Valid.starts (h : w.Valid c l cur child old ustack) (hcur : cur.toNat % 4096 = 0)
    (hchild : child.toNat % 4096 = 0) (hold : old.toNat % 4096 = 0) (hu : ustack.toNat % 4096 = 0) (hne : cur ≠ child)
    (huc : ustack ≠ child) (huo : ustack ≠ old) :
    ∃ t v, Leaves c l w.s w.d t v child 1006 (w.s.reg .edx) (cell ustack 1021) ∧
      ∀ ws : List UInt32, ws.length ≤ 3 → Words w.d.mem (cell ustack 1021) ws → Words v.mem (v.reg .esp) ws := by
  obtain ⟨hebp, -, -, hbody⟩ := h.entered.framed w.body
  obtain ⟨-, -, h2⟩ := argument_framed hebp hbody
  have hcopy := (h.copied.words hcur hchild hne (by simp [frame_length]) hbody).2
  have hframe : Framed (w.built l child ustack) child 1006 w.s [l.callReturn] (w.s.reg .edx) (cell ustack 1021) := by
    rw [built, h2]
    exact threadContext_framed hchild hu huc hcopy
  obtain ⟨t, hrun, heip, -, hesp, hcs, hmem, hws⟩ := h.child.reaches h.linked hold hchild (by decide)
    (by simp [frame_length]) threadContext_esp hframe
  obtain ⟨v, hv⟩ := h.linked.leaves hrun heip hesp hws hcs
  refine ⟨t, v, hv, fun ws hlen hwords => ?_⟩
  rw [hv.resumed.esp, hv.mem, hmem]
  have hd := (sameFrom_store (v := w.d.reg .ebp) hold hu (by decide : 5 < 1024) (.inl (Ne.symm huo))).words
    (Nat.le_refl _) (by omega) hwords
  exact (sameFrom_store hchild hu (by decide) (.inl (Ne.symm huc))).words (Nat.le_refl _) (by omega) hd

/-! ## In the tables of the kernel -/

end

section
variable {cur child old : UInt32} (ustack : UInt32) (later : Memory → Memory)

end

theorem Sees.words {m : Memory} {k : Kernel} {pt page frame : Nat} {f p : UInt32} (h : Sees m k pt page)
    (hlt : page < totalPages) (hst : Kernel.StackOn k.mm pt page frame f p) :
    Words m (cell (.ofNat (page <<< 12)) 1021) [0x777, f, p] := by
  have htr : k.mm.translate pt page = some frame := by
    rw [translate_of_present hlt (by rw [hst.entry]), hst.entry]
  have hall := h frame htr
  obtain ⟨h1, h2, h3⟩ := hst.words
  rw [words_cell]
  intro i hi
  rcases i with - | - | - | i
  · exact (hall 0 (by decide)).trans h1
  · exact (hall 1 (by decide)).trans h2
  · exact (hall 2 (by decide)).trans h3
  · exact absurd hi (by simp)

end ZeosSOA.Sysenter
