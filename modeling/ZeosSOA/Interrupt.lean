import ZeosSOA.SystemCall

/-!
# The handlers of the interrupts

`clock_handler` and `keyboard_handler` of the two kernels: `SAVE_ALL`, some work, `RESTORE_ALL` and `iret`. The work is
a list of acknowledgements and of calls of C functions, which the kernels have in different orders.
-/

namespace ZeosSOA.Gate

open X86

/-! ## The code -/

/-- `EOI`, a call, and a call with `eax` saved on the stack. -/
inductive Work where
  | eoi
  | call (f : UInt32)
  | guarded (f : UInt32)

def Work.text : Work → List Op
  | eoi => [.movb 0x20, .outb 0x20]
  | call f => [.plain (.call f)]
  | guarded f => [.plain (.push (.reg .eax)), .plain (.call f), .plain (.pop (.reg .eax))]

def saveAll (v : Saved) : List Instr :=
  v.operands.map .push ++ [.mov (.imm kernelDs) (.reg .edx), .mov (.reg .edx) (.seg .ds), .mov (.reg .edx) (.seg .es)]

def restoreAll (v : Saved) : List Instr := v.operands.reverse.map .pop

def interruptHandler (v : Saved) (ws : List Work) : List Op :=
  (saveAll v).map .plain ++ (ws.flatMap Work.text ++ ((restoreAll v).map .plain ++ [.iret]))

/-! ## What a handler keeps -/

/-- What the C functions do to memory is in `R`. Other tasks can run before they come back, and be interrupted. -/
def Callee (R : Memory → Memory → Prop) (y y' : Cpu) : Prop := R y.state.mem y'.state.mem

/-- The C function at `f` begins in `y`, with the segments of the kernel. -/
structure Serving (x0 : Cpu) (f : UInt32) (y : Cpu) : Prop where
  eip : y.state.eip = f
  cs : y.state.seg .cs = x0.state.seg .cs
  ds : y.state.seg .ds = kernelDs.toUInt16
  es : y.state.seg .es = kernelDs.toUInt16

/-- The interrupt controller is told, on port `0x20`, that the interrupt is over. -/
def endOfInterrupt : UInt16 × UInt8 := (0x20, 0x20)

/-- A piece of work in front of the legs `ls`, and all of the work up to where `P` holds. -/
def Work.legs (x0 : Cpu) (ls : List Op.Leg) : Work → List Op.Leg
  | eoi => ls.modifyHead (Op.Leg.after [endOfInterrupt])
  | call f | guarded f => ⟨[], Serving x0 f⟩ :: ls

def legs (x0 : Cpu) (P : Cpu → Prop) (ws : List Work) : List Op.Leg := ws.foldr (fun w ls => w.legs x0 ls) [⟨[], P⟩]

/-- A relation of memories in which changes of the stack page do not matter. -/
structure OffPage (base : UInt32) (R : Memory → Memory → Prop) : Prop where
  page : ∀ {m m'}, SameOutside base m m' → R m m'
  trans : ∀ {m m' m''}, R m m' → R m' m'' → R m m''

/-- In `x`, which came from `x0`, the words `ws` are on the stack. -/
structure Saving (R : Memory → Memory → Prop) (ws : List UInt32) (base : UInt32) (q : Nat) (x0 x : Cpu) : Prop where
  esp : x.state.reg .esp = cell base q
  words : Words x.state.mem (cell base q) ws
  cs : x.state.seg .cs = x0.state.seg .cs
  ss : x.state.seg .ss = x0.state.seg .ss
  ds : x.state.seg .ds = kernelDs.toUInt16
  es : x.state.seg .es = kernelDs.toUInt16
  mem : R x0.state.mem x.state.mem

section
variable {R : Memory → Memory → Prop} {c : Op.Code} {base a b f : UInt32} {q n : Nat} {x0 x y y' : Cpu} {v : Saved}
  {is : List UInt32} {s : State} {w : Work} {ws : List Work} {ls : List Op.Leg} {P : Cpu → Prop}

/-- A call from code that has words on the stack, and the way back. -/
theorem Saving.call (h : Saving R is base (q + 1) x0 x) (hR : OffPage base R) (hq : q + 1 + is.length ≤ n) (hn : n ≤ 1024)
    (hc : c x.state.eip = some (.plain (.call f), b))
    (hback : ∀ y, y.state.eip = b → Saving R is base (q + 1) x0 y → Op.Through c (cell base n) (Callee R) ls y) :
    Op.Through c (cell base n) (Callee R) (⟨[], Serving x0 f⟩ :: ls) x := by
  have hdown : x.state.reg .esp - 4 = cell base q := by
    rw [h.esp]
    exact cell_sub base q 1
  have hwords := h.words.push (v := b) (by omega)
  rw [← h.esp, hdown] at hwords
  refine ⟨x.withState ((x.state.push b).goto f), ?_, (List.append_nil _).symm, ⟨rfl, h.cs, h.ds, h.es⟩,
    fun y' v hr hk => hback y' ?_ ?_⟩
  · apply Op.reaches_exec hc
    exact Relation.ReflTransGen.refl
  all_goals
    have hesp : (x.withState ((x.state.push b).goto f)).state.reg .esp = cell base q := by
      simpa [Cpu.withState] using hdown
    have hmem : (x.withState ((x.state.push b).goto f)).state.mem = store x.state.mem (cell base q) b := by
      rw [← hdown]
      rfl
    obtain ⟨htop, hbehind⟩ : load (x.withState ((x.state.push b).goto f)).state.mem (cell base q) = b ∧
        Words (x.withState ((x.state.push b).goto f)).state.mem (cell base q + 4) is := by
      rw [hmem]
      exact words_cons.mp hwords
  · rw [hr.eip, State.top, hesp]
    exact htop
  · have hup : cell base q + 4 = cell base (q + 1) := cell_add base q 1
    rw [hup] at hbehind
    have hkept : Words y'.state.mem (cell base (q + 1)) is := by
      apply hr.words (by simp [hesp, hup]) _ hbehind
      rw [cell_diff (by omega) hn]
      omega
    have hpush : R x.state.mem (x.withState ((x.state.push b).goto f)).state.mem := by
      rw [hmem]
      exact hR.page (sameOutside_store (by omega) _ _)
    have hseg : y'.state.seg = x.state.seg := hr.seg
    refine ⟨by rw [hr.esp, hesp, hup], hkept, ?_, ?_, ?_, ?_, hR.trans h.mem (hR.trans hpush hk)⟩
    · rw [hseg, h.cs]
    · rw [hseg, h.ss]
    · rw [hseg, h.ds]
    · rw [hseg, h.es]

/-- One piece of work. -/
theorem Saving.work (h : Saving R is base (q + 2) x0 x) (hR : OffPage base R) (hq : q + 2 + is.length ≤ n) (hn : n ≤ 1024)
    (hat : Op.At c x.state.eip w.text b)
    (hrest : ∀ y, y.state.eip = b → Saving R is base (q + 2) x0 y → Op.Through c (cell base n) (Callee R) ls y) :
    Op.Through c (cell base n) (Callee R) (w.legs x0 ls) x := by
  cases w with
  | eoi =>
    obtain ⟨a1, hmov, hat⟩ := Op.at_cons.mp hat
    obtain ⟨a2, hout, hat⟩ := Op.at_cons.mp hat
    have hat : a2 = b := hat
    rw [hat] at hout
    have hrun : Op.Reaches c x ((Op.outb 0x20).exec b ((Op.movb 0x20).exec a1 x)) := by
      apply Op.reaches_exec hmov
      apply Op.reaches_exec hout
      exact Relation.ReflTransGen.refl
    have hports : ((Op.outb 0x20).exec b ((Op.movb 0x20).exec a1 x)).ports = x.ports ++ [endOfInterrupt] := by
      simp only [Op.exec, Cpu.withState, State.goto_reg, State.setReg_reg, if_true, Op.low_byte, endOfInterrupt]
    apply Op.Through.head hrun hports
    refine hrest _ rfl ⟨?_, ?_, h.cs, h.ss, h.ds, h.es, h.mem⟩
    · simpa [Op.exec, Cpu.withState] using h.esp
    · simpa [Op.exec, Cpu.withState] using h.words
  | call f =>
    obtain ⟨a1, hcall, hat⟩ := Op.at_cons.mp hat
    have hat : a1 = b := hat
    rw [hat] at hcall
    exact h.call hR (by omega) hn hcall hrest
  | guarded f =>
    obtain ⟨a1, hpush, hat⟩ := Op.at_cons.mp hat
    obtain ⟨a2, hcall, hat⟩ := Op.at_cons.mp hat
    obtain ⟨a3, hpop, hat⟩ := Op.at_cons.mp hat
    have hat : a3 = b := hat
    rw [hat] at hpop
    have hdown : x.state.reg .esp - 4 = cell base (q + 1) := by
      rw [h.esp]
      exact cell_sub base (q + 1) 1
    have hup : cell base (q + 1) + 4 = cell base (q + 2) := cell_add base (q + 1) 1
    obtain ⟨x1, hx1⟩ : ∃ x1, x1 = x.withState ((x.state.push (x.state.reg .eax)).goto a1) := ⟨_, rfl⟩
    have hrun : Op.Reaches c x x1 := by
      apply Op.reaches_exec hpush
      rw [hx1]
      exact Relation.ReflTransGen.refl
    have hmem : x1.state.mem = store x.state.mem (cell base (q + 1)) (x.state.reg .eax) := by
      rw [← hdown, hx1]
      rfl
    have hsaving : Saving R (x.state.reg .eax :: is) base (q + 1) x0 x1 := by
      refine ⟨?_, ?_, by rw [hx1]; exact h.cs, by rw [hx1]; exact h.ss, by rw [hx1]; exact h.ds, by rw [hx1]; exact h.es,
        ?_⟩
      · rw [hx1, ← hdown]
        simp [Cpu.withState]
      · have hwords := h.words.push (v := x.state.reg .eax) (by omega)
        rw [← h.esp, hdown] at hwords
        rwa [hmem]
      · rw [hmem]
        exact hR.trans h.mem (hR.page (sameOutside_store (by omega) _ _))
    have heip : x1.state.eip = a1 := by rw [hx1]; rfl
    rw [← heip] at hcall
    apply Op.Through.quiet hrun (by rw [hx1]; rfl)
    apply hsaving.call hR (by rw [List.length_cons]; omega) hn hcall
    intro y hy hsy
    rw [← hy] at hpop
    have hlast : Op.Reaches c y ((Op.plain (.pop (.reg .eax))).exec b y) := by
      apply Op.reaches_exec hpop
      exact Relation.ReflTransGen.refl
    apply Op.Through.quiet hlast rfl
    refine hrest _ rfl ⟨?_, ?_, hsy.cs, hsy.ss, hsy.ds, hsy.es, hsy.mem⟩
    · simpa [Cpu.withState, Instr.effect, hsy.esp] using hup
    · have hwords := (words_cons.mp hsy.words).2
      rw [hup] at hwords
      simpa [Cpu.withState, Instr.effect] using hwords

/-- All of the work. -/
theorem Saving.works (h : Saving R is base (q + 2) x0 x) (hR : OffPage base R) (hq : q + 2 + is.length ≤ n) (hn : n ≤ 1024)
    (hat : Op.At c x.state.eip (ws.flatMap Work.text) b)
    (hrest : ∀ y, y.state.eip = b → Saving R is base (q + 2) x0 y →
      Op.Through c (cell base n) (Callee R) [⟨[], P⟩] y) :
    Op.Through c (cell base n) (Callee R) (legs x0 P ws) x := by
  induction ws generalizing x with
  | nil => exact hrest x hat h
  | cons w ws ih =>
    rw [List.flatMap_cons] at hat
    obtain ⟨a, hw, hws⟩ := Op.at_append.mp hat
    apply h.work hR hq hn hw
    intro y heip hy
    rw [← heip] at hws
    exact ih hy hws

/-! ## The interrupt and the return from it -/

/-- Where the stack of the handler begins: `esp0`, or where the kernel was. -/
def interruptStack (s : State) (esp0 : UInt32) : UInt32 :=
  if State.level (s.seg .cs) = State.level kernelCs then s.reg .esp else esp0

/-- What the processor saves. -/
def returnContext (s : State) : List UInt32 :=
  [s.eip, (s.seg .cs).toUInt32, s.flags.word] ++
    if State.level (s.seg .cs) = State.level kernelCs then [] else [s.reg .esp, (s.seg .ss).toUInt32]

/-- The processor at the first instruction of the handler. -/
def interrupted (x : Cpu) (handler esp0 : UInt32) : Cpu :=
  x.withState (x.state.interrupt handler esp0 kernelCs kernelDs.toUInt16)

theorem interrupted_pushed (x : Cpu) (handler esp0 : UInt32) : ∃ u p, Pushed u p (returnContext x.state) ∧
    u.reg .esp = interruptStack x.state esp0 ∧ (∀ r, r ≠ .esp → u.reg r = x.state.reg r) ∧ u.mem = x.state.mem ∧
    (∀ g, g ≠ .ss → u.seg g = x.state.seg g) ∧
    (State.level (x.state.seg .cs) = State.level kernelCs → u.seg .ss = x.state.seg .ss) ∧
    (interrupted x handler esp0).state =
      ((p.setFlags { x.state.flags with intf := false }).setSeg .cs kernelCs).goto handler := by
  by_cases hlevel : State.level (x.state.seg .cs) = State.level kernelCs
  · have hpush := (((Pushed.refl x.state).push x.state.flags.word).push (x.state.seg .cs).toUInt32).push x.state.eip
    have hcontext : returnContext x.state = [x.state.eip, (x.state.seg .cs).toUInt32, x.state.flags.word] := by
      rw [returnContext, if_pos hlevel]
      rfl
    rw [← hcontext] at hpush
    refine ⟨x.state, _, hpush, ?_, fun _ _ => rfl, rfl, fun _ _ => rfl, fun _ => rfl, ?_⟩
    · rw [interruptStack, if_pos hlevel]
    · simp only [interrupted, Cpu.withState, State.interrupt, if_pos hlevel]
  · have hpush := (((((Pushed.refl ((x.state.setReg .esp esp0).setSeg .ss kernelDs.toUInt16)).push
      (x.state.seg .ss).toUInt32).push (x.state.reg .esp)).push x.state.flags.word).push (x.state.seg .cs).toUInt32).push
      x.state.eip
    have hcontext : returnContext x.state = [x.state.eip, (x.state.seg .cs).toUInt32, x.state.flags.word,
        x.state.reg .esp, (x.state.seg .ss).toUInt32] := by
      rw [returnContext, if_neg hlevel]
      rfl
    rw [← hcontext] at hpush
    refine ⟨(x.state.setReg .esp esp0).setSeg .ss kernelDs.toUInt16, _, hpush, ?_, fun r hr => ?_, rfl, fun g hg => ?_,
      fun h => absurd h hlevel, ?_⟩
    · rw [interruptStack, if_neg hlevel]
      simp
    · simp [hr]
    · simp [hg]
    · simp only [interrupted, Cpu.withState, State.interrupt, if_neg hlevel]

theorem interrupted_words {handler esp0 : UInt32}
    (hstack : interruptStack x.state esp0 = cell base (q + (returnContext x.state).length)) :
    let y := (interrupted x handler esp0).state
    y.reg .esp = cell base q ∧ Words y.mem (cell base q) (returnContext x.state) ∧ (∀ r, r ≠ .esp → y.reg r = x.state.reg r) ∧
      (∀ g ∉ [SegReg.cs, .ss], y.seg g = x.state.seg g) ∧ y.seg .cs = kernelCs ∧
      (State.level (x.state.seg .cs) = State.level kernelCs → y.seg .ss = x.state.seg .ss) ∧
      (q + (returnContext x.state).length ≤ 1024 → SameOutside base x.state.mem y.mem) := by
  obtain ⟨u, p, hpush, hesp, hreg, hmem, hseg, hss, hstate⟩ := interrupted_pushed x handler esp0
  have hdown : p.reg .esp = cell base q := by
    rw [hpush.esp, hesp, hstack]
    exact cell_sub base q _
  have hlen : (returnContext x.state).length < 2 ^ 30 := by
    unfold returnContext
    split <;> simp
  have hwords := hpush.words [] (by simpa using hlen) (words_nil _ _)
  rw [List.append_nil, hdown] at hwords
  rw [hstate]
  refine ⟨hdown, hwords, fun r hr => (hpush.reg r hr).trans (hreg r hr), fun g hg => ?_, ?_, fun h => ?_, fun hq => ?_⟩
  · simp only [List.mem_cons, List.not_mem_nil, or_false, not_or] at hg
    simp [State.setFlags, hg, hpush.seg, hseg g hg.2]
  · simp
  · simp [State.setFlags, hpush.seg, hss h]
  · rw [← hmem]
    change SameOutside base u.mem p.mem
    exact sameOutside_pushed hpush hdown hq

/-- The return undoes the interrupt. -/
theorem iret_words {t : State} (hesp : t.reg .esp = cell base q) (hw : Words t.mem (cell base q) (returnContext s))
    (hcs : t.seg .cs = kernelCs)
    (hsame : State.level (s.seg .cs) = State.level kernelCs → t.seg .ss = s.seg .ss ∧ s.reg .esp = cell base (q + 3)) :
    t.iret.eip = s.eip ∧ t.iret.reg .esp = s.reg .esp ∧ t.iret.seg .cs = s.seg .cs ∧ t.iret.seg .ss = s.seg .ss ∧
      t.iret.flags.word = s.flags.word ∧ t.iret.mem = t.mem ∧ (∀ r, r ≠ .esp → t.iret.reg r = t.reg r) ∧
      ∀ g ∉ [SegReg.cs, .ss], t.iret.seg g = t.seg g := by
  rw [returnContext, words_append, ← hesp] at hw
  obtain ⟨hw, hstack⟩ := hw
  have h0 : load t.mem (t.reg .esp + 4 * 0) = s.eip := hw 0 (by simp)
  have h1 : load t.mem (t.reg .esp + 4 * 1) = (s.seg .cs).toUInt32 := hw 1 (by simp)
  have h2 : load t.mem (t.reg .esp + 4 * 2) = s.flags.word := hw 2 (by simp)
  have hback : ∀ g : UInt16, g.toUInt32.toUInt16 = g := fun g => by simp
  have hiret : t.iret = let u := ((t.setFlags (.ofWord s.flags.word)).setSeg .cs (s.seg .cs)).goto s.eip
      if State.level kernelCs < State.level (s.seg .cs) then
        (u.setReg .esp (load t.mem (t.reg .esp + 4 * 3))).setSeg .ss (load t.mem (t.reg .esp + 4 * 4)).toUInt16
      else u.setReg .esp (t.reg .esp + 12) := by
    simp only [State.iret, h0, h1, h2, hback, hcs]
  have hzero : State.level kernelCs = 0 := by decide
  by_cases hlevel : State.level (s.seg .cs) = State.level kernelCs
  · obtain ⟨hss, hsp⟩ := hsame hlevel
    have hup : t.reg .esp + 12 = s.reg .esp := by
      rw [hesp, hsp]
      exact cell_add base q 3
    rw [hiret, if_neg (by rw [hlevel]; exact UInt16.lt_irrefl _), hup]
    refine ⟨rfl, by simp, by simp, by simpa [State.setFlags] using hss, ?_, rfl, fun r hr => by simp [State.setFlags, hr],
      fun g hg => ?_⟩
    · exact Flags.word_ofWord _
    · simp only [List.mem_cons, List.not_mem_nil, or_false, not_or] at hg
      simp [State.setFlags, hg]
  · rw [if_neg hlevel] at hstack
    have hnext : ∀ i, t.reg .esp + 4 * UInt32.ofNat 3 + 4 * .ofNat i = t.reg .esp + 4 * .ofNat (3 + i) := by
      intro i
      rw [UInt32.ofNat_add, UInt32.mul_add, UInt32.add_assoc]
    have h3 : load t.mem (t.reg .esp + 4 * 3) = s.reg .esp := by
      have := hstack 0 (by simp)
      rwa [List.length_cons, List.length_cons, List.length_cons, List.length_nil, hnext] at this
    have h4 : load t.mem (t.reg .esp + 4 * 4) = (s.seg .ss).toUInt32 := by
      have := hstack 1 (by simp)
      rwa [List.length_cons, List.length_cons, List.length_cons, List.length_nil, hnext] at this
    have hlt : State.level kernelCs < State.level (s.seg .cs) := by
      rw [hzero] at hlevel ⊢
      exact UInt16.pos_iff_ne_zero.mpr hlevel
    rw [hiret, if_pos hlt, h3, h4, hback]
    refine ⟨rfl, by simp, by simp, by simp, ?_, rfl, fun r hr => by simp [State.setFlags, hr], fun g hg => ?_⟩
    · exact Flags.word_ofWord _
    · simp only [List.mem_cons, List.not_mem_nil, or_false, not_or] at hg
      simp [State.setFlags, hg]

end

/-! ## The whole handler -/

/-- `SAVE_ALL` has every register but those that the processor saves itself. -/
def Saved.Complete (v : Saved) : Prop := ∀ o, o ∈ v.operands ↔ o.register = true ∧ o ∉ [Operand.seg .cs, .seg .ss]

/-- The code that was interrupted in `x` goes on in `z`. -/
structure Undisturbed (R : Memory → Memory → Prop) (x z : Cpu) : Prop where
  eip : z.state.eip = x.state.eip
  reg : z.state.reg = x.state.reg
  seg : z.state.seg = x.state.seg
  flags : z.state.flags.word = x.state.flags.word
  mem : R x.state.mem z.state.mem

section
variable {R : Memory → Memory → Prop} {c : Op.Code} {base b handler esp0 : UInt32} {q n : Nat} {x y : Cpu} {v : Saved}
  {is : List UInt32} {s s0 : State} {ws : List Work}

theorem saveAll_words (v : Saved) (hesp : s.reg .esp = cell base (q + 11)) (hw : Words s.mem (cell base (q + 11)) is)
    (hq : q + 11 + is.length ≤ 1024) : let t := block (saveAll v) s
    t.reg .esp = cell base q ∧ Words t.mem (cell base q) (v.operands.reverse.map s.read ++ is) ∧ t.seg .cs = s.seg .cs ∧
      t.seg .ss = s.seg .ss ∧ t.seg .ds = kernelDs.toUInt16 ∧ t.seg .es = kernelDs.toUInt16 ∧
      SameOutside base s.mem t.mem := by
  have hpush := (Pushed.refl s).block fun o ho => fixed_of_register (v.register o ho)
  rw [List.append_nil, ← List.map_reverse] at hpush
  have hlen : (v.operands.reverse.map s.read).length = 11 := by simp [v.size]
  have hdown : (block (v.operands.map .push) s).reg .esp = cell base q := by
    rw [hpush.esp, hesp, hlen]
    exact cell_sub base q 11
  have hwords := hpush.words is (by omega) (by rwa [hesp])
  have hout := sameOutside_pushed hpush hdown (by omega)
  rw [hdown] at hwords
  have hseg := hpush.seg
  rw [saveAll, block_append]
  generalize block (v.operands.map .push) s = t at *
  refine ⟨?_, ?_, ?_, ?_, ?_, ?_, ?_⟩
  · simpa [Instr.effect] using hdown
  · simpa [Instr.effect] using hwords
  · simp [Instr.effect, hseg]
  · simp [Instr.effect, hseg]
  · simp [Instr.effect]
  · simp [Instr.effect]
  · simpa [Instr.effect] using hout

/-- `RESTORE_ALL` and `iret` give back what was in the registers at the interrupt. -/
theorem Saving.returns {z : Cpu} {top : UInt32} (hv : v.Complete) (hR : OffPage base R)
    (hz : Saving R (v.operands.reverse.map x.state.read ++ returnContext x.state) base q y z)
    (hat : Op.At c z.state.eip ((restoreAll v).map .plain ++ [.iret]) b) (hcs : y.state.seg .cs = kernelCs)
    (hsame : State.level (x.state.seg .cs) = State.level kernelCs →
      y.state.seg .ss = x.state.seg .ss ∧ x.state.reg .esp = cell base (q + 14)) (hmem : R x.state.mem y.state.mem) :
    Op.Through c top (Callee R) [⟨[], Undisturbed R x⟩] z := by
  obtain ⟨a3, hrestore, hat⟩ := Op.at_append.mp hat
  obtain ⟨a4, hiret, -⟩ := Op.at_cons.mp hat
  have hzwords := hz.words
  rw [← hz.esp] at hzwords
  have hpop := pop_block (fun o ho => v.register o (List.mem_reverse.mp ho)) (List.nodup_reverse.mpr v.nodup) hzwords
  have hrun := Op.reaches_block hrestore (by simp [restoreAll, Instr.straight])
  rw [restoreAll] at hrun
  generalize block (v.operands.reverse.map .pop) z.state = t at hpop hrun
  have htesp : t.reg .esp = cell base (q + 11) := by
    rw [hpop.esp, hz.esp, List.length_reverse, v.size]
    exact cell_add base q 11
  have hkept : ∀ g ∈ [SegReg.cs, .ss], t.seg g = z.state.seg g := by
    intro g hg
    apply hpop.seg g
    intro hin
    exact ((hv (.seg g)).mp (List.mem_reverse.mp hin)).2 (by simpa using hg)
  have htwords := hpop.words
  rw [htesp] at htwords
  obtain ⟨heip, hesp, hcs', hss', hflags, hiretMem, hreg, hseg⟩ := iret_words htesp htwords
    ((hkept .cs (by simp)).trans (hz.cs.trans hcs))
    fun hlevel => ⟨(hkept .ss (by simp)).trans (hz.ss.trans (hsame hlevel).1), (hsame hlevel).2⟩
  have hlast : Op.Reaches c (z.withState (t.goto a3)) (z.withState t.iret) := by
    apply Op.reaches_exec hiret
    exact Relation.ReflTransGen.refl
  refine Op.through_last (hrun.trans hlast) rfl ⟨heip, ?_, ?_, hflags, ?_⟩
  · funext r
    by_cases hr : r = .esp
    · rw [hr]
      exact hesp
    · have hin : Operand.reg r ∈ v.operands := (hv _).mpr (by simp [Operand.register, hr])
      exact (hreg r hr).trans (hpop.got _ (List.mem_reverse.mpr hin))
  · funext g
    by_cases hgcs : g = .cs
    · rw [hgcs]
      exact hcs'
    by_cases hgss : g = .ss
    · rw [hgss]
      exact hss'
    have hin : Operand.seg g ∈ v.operands := (hv _).mpr (by simp [Operand.register, hgcs, hgss])
    have hgot := hpop.got _ (List.mem_reverse.mpr hin)
    rw [State.read_seg, State.read_seg, UInt16.toUInt32_inj] at hgot
    exact (hseg g (by simp [hgcs, hgss])).trans hgot
  · have hsame : (z.withState t.iret).state.mem = z.state.mem := hiretMem.trans hpop.mem
    rw [hsame]
    exact hR.trans hmem hz.mem

/-- The handler, from its first instruction to the code that was interrupted. -/
theorem handler_undisturbed (hv : v.Complete) (hR : OffPage base R) (hat : Op.At c handler (interruptHandler v ws) b)
    (hstack : interruptStack x.state esp0 = cell base n) (hn : 18 ≤ n) (hn' : n ≤ 1024) :
    Op.Through c (interruptStack x.state esp0) (Callee R) (legs (interrupted x handler esp0) (Undisturbed R x) ws)
      (interrupted x handler esp0) := by
  have hlen : (returnContext x.state).length ≤ 5 := by
    unfold returnContext
    split <;> simp
  obtain ⟨q, hq⟩ : ∃ q, n = q + 2 + 11 + (returnContext x.state).length := ⟨n - 13 - (returnContext x.state).length, by omega⟩
  rw [hstack]
  rw [hq] at hstack
  obtain ⟨hesp, hctx, hreg, hseg, hcs, hss, hout⟩ := interrupted_words hstack
  obtain ⟨a1, hsave, hat⟩ := Op.at_append.mp hat
  obtain ⟨a2, hwork, hat⟩ := Op.at_append.mp hat
  have hread : ∀ o ∈ v.operands, (interrupted x handler esp0).state.read o = x.state.read o := by
    intro o ho
    obtain ⟨hregister, hnot⟩ := (hv o).mp ho
    cases o with
    | reg r => exact hreg r (by simpa [Operand.register] using hregister)
    | seg g =>
      rw [State.read_seg, State.read_seg, hseg g (by simpa using hnot)]
    | imm w => cases hregister
    | mem disp base => cases hregister
  have heip : (interrupted x handler esp0).state.eip = handler := rfl
  have hout := hout (by omega)
  generalize interrupted x handler esp0 = y at *
  rw [← heip] at hsave
  have hrun := Op.reaches_block hsave (by simp [saveAll, Instr.straight, or_imp, forall_and])
  obtain ⟨hesp1, hwords, hcs1, hss1, hds1, hes1, hout1⟩ := saveAll_words v hesp hctx (by omega)
  rw [List.map_congr_left fun o ho => hread o (List.mem_reverse.mp ho)] at hwords
  have hsaving : Saving R (v.operands.reverse.map x.state.read ++ returnContext x.state) base (q + 2) y
      (y.withState ((block (saveAll v) y.state).goto a1)) :=
    ⟨hesp1, hwords, hcs1, hss1, hds1, hes1, hR.page hout1⟩
  apply Op.Through.quiet hrun rfl
  apply hsaving.works hR (n := n) (by simp [v.size]; omega) hn' hwork
  intro z hzip hz
  rw [← hzip] at hat
  refine hz.returns hv hR hat hcs (fun hlevel => ⟨hss hlevel, ?_⟩) (hR.page hout)
  rw [interruptStack, if_pos hlevel, returnContext, if_pos hlevel] at hstack
  exact hstack

end

/-- The pages of a program are not those of the kernel. -/
def SamePages (m m' : Memory) : Prop := ∀ a, 0x100000 ≤ a.toNat → m' a = m a

theorem samePages_offPage : OffPage 0x30000 SamePages := by
  refine ⟨fun h a ha => h a ?_, fun h h' a ha => (h' a ha).trans (h a ha)⟩
  have hlt := a.toNat_lt
  rw [UInt32.toNat_sub]
  simp only [UInt32.reduceToNat]
  omega

end ZeosSOA.Gate

/-! ## ZeOSSysenter -/

namespace ZeosSOA.Sysenter

open X86 Gate

/-- The addresses of the C functions that the handlers call. -/
structure Routines where
  userToSystem : UInt32
  systemToUser : UInt32
  clockRoutine : UInt32
  keyboardRoutine : UInt32

def clockHandler (r : Routines) : List Op :=
  interruptHandler savedRegs [.guarded r.userToSystem, .eoi, .call r.clockRoutine, .guarded r.systemToUser]

def keyboardHandler (r : Routines) : List Op :=
  interruptHandler savedRegs [.guarded r.userToSystem, .eoi, .call r.keyboardRoutine, .guarded r.systemToUser]

theorem savedRegs_complete : savedRegs.Complete := by
  intro o
  cases o with
  | reg r => cases r <;> decide
  | seg g => cases g <;> decide
  | imm v => simp [savedRegs, saved, Operand.register]
  | mem disp base => simp [savedRegs, saved, Operand.register]

/-- An interrupt of the clock or the keyboard, of a program or of the kernel, changes nothing of what it interrupts. The handler
sends one byte, the acknowledgement, behind the first measure of the time and in front of the routine, which may switch to
another task. -/
theorem interrupt_undisturbed {R : Memory → Memory → Prop} {c : Op.Code} {r : Routines} {text : List Op}
    {base b handler esp0 routine : UInt32} {n : Nat} {x : Cpu}
    (htext : (text, routine) ∈ [(clockHandler r, r.clockRoutine), (keyboardHandler r, r.keyboardRoutine)])
    (hR : OffPage base R) (hat : Op.At c handler text b) (hstack : interruptStack x.state esp0 = cell base n) (hn : 18 ≤ n)
    (hn' : n ≤ 1024) : let y := interrupted x handler esp0
    Op.Through c (interruptStack x.state esp0) (Callee R)
      [⟨[], Serving y r.userToSystem⟩, ⟨[endOfInterrupt], Serving y routine⟩, ⟨[], Serving y r.systemToUser⟩,
        ⟨[], Undisturbed R x⟩] y := by
  simp only [List.mem_cons, List.not_mem_nil, or_false, Prod.mk.injEq] at htext
  rcases htext with ⟨rfl, rfl⟩ | ⟨rfl, rfl⟩
  · exact handler_undisturbed savedRegs_complete hR hat hstack hn hn'
  · exact handler_undisturbed savedRegs_complete hR hat hstack hn hn'

def sampleRoutines : Routines := ⟨0x10100, 0x10200, 0x10300, 0x10400⟩

/-- `clock_handler`, alone in memory. -/
def sampleClock : Op.Code := fun a => (clockHandler sampleRoutines)[a.toNat]?.map fun o => (o, a + 1)

/-- A program that the clock interrupts. -/
def sampleInterrupted : Cpu where
  state :=
    { reg := fun r => if r = .esp then 0x11c000 else 7
      seg := fun g => if g = .cs then 0x23 else 0x2B
      flags := ⟨true, false, false, true, false, false, true, 2⟩
      eip := 0x100123
      mem := fun _ => 0
      sysenterCs := Gate.kernelCs }
  sysenterEsp := cell 0x30000 1024
  sysenterEip := 0
  ports := []

/-- The clock, while C functions write all over the memory but for the pages of the program. -/
theorem clock_undisturbed : let y := interrupted sampleInterrupted 0 (cell 0x30000 1024)
    Op.Through sampleClock (cell 0x30000 1024) (Callee SamePages)
      [⟨[], Serving y 0x10100⟩, ⟨[endOfInterrupt], Serving y 0x10300⟩, ⟨[], Serving y 0x10200⟩,
        ⟨[], Undisturbed SamePages sampleInterrupted⟩] y :=
  interrupt_undisturbed (r := sampleRoutines) (n := 1024) (b := 35) List.mem_cons_self samePages_offPage (by decide +kernel) rfl
    (by decide) (Nat.le_refl _)

end ZeosSOA.Sysenter

/-! ## zeOSpparri -/

namespace ZeosSOA.Pparri

open X86 Gate

/-- The addresses of the C functions that the handlers call. -/
structure Routines where
  clockRoutine : UInt32
  kbdRoutine : UInt32

def clockHandler (r : Routines) : List Op := interruptHandler gateText.saved [.eoi, .call r.clockRoutine]

def kbdHandler (r : Routines) : List Op := interruptHandler gateText.saved [.call r.kbdRoutine, .eoi]

theorem saved_complete : gateText.saved.Complete := by
  intro o
  cases o with
  | reg r => cases r <;> decide
  | seg g => cases g <;> decide
  | imm v => simp [gateText, saved, Operand.register]
  | mem disp base => simp [gateText, saved, Operand.register]

/-- An interrupt changes nothing of what it interrupts. The handler sends one byte, the acknowledgement: that of the clock in
front of its routine, which may switch to another task, and that of the keyboard behind it. -/
theorem device_undisturbed {R : Memory → Memory → Prop} {c : Op.Code} {r : Routines} {text : List Op}
    {base b handler esp0 routine : UInt32} {n : Nat} {x : Cpu} {before behind : List (UInt16 × UInt8)}
    (htext : (text, before, routine, behind) ∈ [(clockHandler r, [endOfInterrupt], r.clockRoutine, []),
      (kbdHandler r, [], r.kbdRoutine, [endOfInterrupt])])
    (hR : OffPage base R) (hat : Op.At c handler text b) (hstack : interruptStack x.state esp0 = cell base n) (hn : 18 ≤ n)
    (hn' : n ≤ 1024) : let y := interrupted x handler esp0
    Op.Through c (interruptStack x.state esp0) (Callee R) [⟨before, Serving y routine⟩, ⟨behind, Undisturbed R x⟩] y := by
  simp only [List.mem_cons, List.not_mem_nil, or_false, Prod.mk.injEq] at htext
  rcases htext with ⟨rfl, rfl, rfl, rfl⟩ | ⟨rfl, rfl, rfl, rfl⟩
  · exact handler_undisturbed saved_complete hR hat hstack hn hn'
  · exact handler_undisturbed saved_complete hR hat hstack hn hn'

/-- `kbd_handler`, alone in memory. -/
def sampleKbd : Op.Code := fun a => (kbdHandler ⟨0x10100, 0x10200⟩)[a.toNat]?.map fun o => (o, a + 1)

/-- A key comes while the kernel runs, on its own stack. -/
def sampleKernel : Cpu where
  state :=
    { reg := fun r => if r = .esp then 0x30400 else 7
      seg := fun g => if g = .cs then 0x10 else 0x18
      flags := ⟨true, false, false, true, false, false, true, 2⟩
      eip := 0x10123
      mem := fun _ => 0
      sysenterCs := Gate.kernelCs }
  sysenterEsp := cell 0x30000 1024
  sysenterEip := 0
  ports := []

theorem kbd_undisturbed : let y := interrupted sampleKernel 0 (cell 0x30000 1024)
    Op.Through sampleKbd (cell 0x30000 256) (Callee SamePages)
      [⟨[], Serving y 0x10200⟩, ⟨[endOfInterrupt], Undisturbed SamePages sampleKernel⟩] y :=
  device_undisturbed (r := ⟨0x10100, 0x10200⟩) (n := 256) (b := 29) (List.mem_cons_of_mem _ List.mem_cons_self) samePages_offPage
    (by decide +kernel) rfl (by decide) (by decide)

end ZeosSOA.Pparri
