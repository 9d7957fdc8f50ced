import Mathlib.Tactic.IntervalCases
import ZeosSOA.X86

/-!
# The system side of a small x86

The registers that `sysenter` goes by, interrupts and the return from them, and the instructions that short assembler
routines are made of. An instruction of `X86` does here what it does there.
-/

namespace X86

/-- The processor with the other two registers of `sysenter`, and the bytes that went to ports. -/
structure Cpu where
  state : State
  sysenterEsp : UInt32
  sysenterEip : UInt32
  ports : List (UInt16 × UInt8)

/-- `movAbs` stores in memory at an address, `movb` is a move to `al`, and `outb` writes `al`. -/
inductive Op where
  | plain (i : Instr)
  | movAbs (src : Reg) (addr : UInt32)
  | movb (v : UInt8)
  | outb (port : UInt16)
  | add (src : UInt32) (dst : Reg)
  | test (src dst : Reg)
  | neg (dst : Reg)
  | not (dst : Reg)
  | js (target : UInt32)
  | sysenter
  | iret
  | wrmsr
  deriving DecidableEq

def evenParity (a : UInt32) : Bool := (List.range 8).countP (fun i => a.toNat.testBit i) % 2 = 0

/-- The flags of the result of a logical instruction. -/
def Flags.logic (f : Flags) (a : UInt32) : Flags :=
  { f with cf := false, pf := evenParity a, zf := a = 0, sf := negative a, of := false }

/-- The flags of `a + b`. -/
def Flags.add (f : Flags) (a b : UInt32) : Flags :=
  { f with
    cf := a + b < a
    pf := evenParity (a + b)
    af := (a &&& 0xf) + (b &&& 0xf) > 0xf
    zf := a + b = 0
    sf := negative (a + b)
    of := negative a = negative b ∧ negative (a + b) ≠ negative a }

/-- The bits of EFLAGS that `Flags` has apart. -/
def flagBits : UInt32 := 0xad5

def Flags.ofWord (w : UInt32) : Flags where
  cf := w.toNat.testBit 0
  pf := w.toNat.testBit 2
  af := w.toNat.testBit 4
  zf := w.toNat.testBit 6
  sf := w.toNat.testBit 7
  intf := w.toNat.testBit 9
  of := w.toNat.testBit 11
  rest := w &&& ~~~flagBits

/-- No bit of the word gets lost. -/
theorem Flags.word_ofWord (w : UInt32) : (Flags.ofWord w).word = w := by
  have hbit : ∀ (b : Bool) (v : UInt32) (i : Nat),
      (if b then v else 0).toBitVec.getLsbD i = (b && v.toBitVec.getLsbD i) := by
    intro b v i
    cases b <;> simp
  have htest : ∀ i, w.toNat.testBit i = w.toBitVec.getLsbD i := fun _ => rfl
  apply UInt32.toBitVec_inj.mp
  apply BitVec.eq_of_getLsbD_eq
  intro i hi
  simp only [Flags.word, Flags.ofWord, flagBits, UInt32.toBitVec_or, UInt32.toBitVec_and, UInt32.toBitVec_not,
    BitVec.getLsbD_or, BitVec.getLsbD_and, BitVec.getLsbD_not, hbit, htest, hi]
  interval_cases i <;> simp

/-! ## One instruction -/

namespace State

def setFlags (s : State) (f : Flags) : State := { s with flags := f }

/-- To the kernel, with interrupts off. -/
def enter (s : State) (esp eip : UInt32) : State :=
  ((((s.setFlags { s.flags with intf := false }).setReg .esp esp).setSeg .cs (s.sysenterCs &&& 0xfffc)).setSeg .ss
    ((s.sysenterCs &&& 0xfffc) + 8)).goto eip

/-- The privilege level of a selector. -/
def level (sel : UInt16) : UInt16 := sel &&& 3

/-- An interrupt comes in front of the next instruction. Its gate names the handler, and the task state segment the stack
`ss0 : esp0` that user code is taken to. -/
def interrupt (s : State) (handler esp0 : UInt32) (cs ss0 : UInt16) : State :=
  let old := s
  let s := if level (old.seg .cs) = level cs then s
    else (((s.setReg .esp esp0).setSeg .ss ss0).push (old.seg .ss).toUInt32).push (old.reg .esp)
  let s := ((s.push old.flags.word).push (old.seg .cs).toUInt32).push old.eip
  ((s.setFlags { old.flags with intf := false }).setSeg .cs cs).goto handler

/-- The words of an interrupt come off the stack, and those of another stack too when that is the one of user code. -/
def iret (s : State) : State :=
  let word (i : UInt32) := load s.mem (s.reg .esp + 4 * i)
  let cs := (word 1).toUInt16
  let t := ((s.setFlags (.ofWord (word 2))).setSeg .cs cs).goto (word 0)
  if level (s.seg .cs) < level cs then (t.setReg .esp (word 3)).setSeg .ss (word 4).toUInt16
  else t.setReg .esp (s.reg .esp + 12)

end State

namespace Cpu

def withState (x : Cpu) (s : State) : Cpu := { x with state := s }

/-- The model-specific register that `ecx` names gets the word in `eax`. -/
def writeMsr (x : Cpu) : Cpu :=
  let v := x.state.reg .eax
  if x.state.reg .ecx = 0x174 then x.withState { x.state with sysenterCs := v.toUInt16 }
  else if x.state.reg .ecx = 0x175 then { x with sysenterEsp := v }
  else if x.state.reg .ecx = 0x176 then { x with sysenterEip := v }
  else x

end Cpu

namespace Op

/-- `next` is the address behind the instruction. -/
def exec (o : Op) (next : UInt32) (x : Cpu) : Cpu :=
  let s := x.state
  match o with
  | plain i => x.withState (i.exec next s)
  | movAbs src addr => x.withState ({ s with mem := store s.mem addr (s.reg src) }.goto next)
  | movb v => x.withState ((s.setReg .eax (s.reg .eax &&& 0xffffff00 ||| v.toUInt32)).goto next)
  | outb port => { x with state := s.goto next, ports := x.ports ++ [(port, (s.reg .eax).toUInt8)] }
  | add src dst => x.withState (((s.setFlags (s.flags.add (s.reg dst) src)).setReg dst (s.reg dst + src)).goto next)
  | test src dst => x.withState ((s.setFlags (s.flags.logic (s.reg src &&& s.reg dst))).goto next)
  | neg dst => x.withState (((s.setFlags (s.flags.compare 0 (s.reg dst))).setReg dst (0 - s.reg dst)).goto next)
  | not dst => x.withState ((s.setReg dst (~~~s.reg dst)).goto next)
  | js target => x.withState (s.goto (if s.flags.sf then target else next))
  | sysenter => x.withState (s.enter x.sysenterEsp x.sysenterEip)
  | iret => x.withState s.iret
  | wrmsr => let x := x.writeMsr; x.withState (x.state.goto next)

/-- The instruction at an address, and the address behind it. -/
abbrev Code : Type := UInt32 → Option (Op × UInt32)

def step (c : Code) (x : Cpu) : Option Cpu := (c x.state.eip).map fun p => p.1.exec p.2 x

abbrev Reaches (c : Code) : Cpu → Cpu → Prop := Relation.ReflTransGen fun x x' => step c x = some x'

/-- The instructions lie one behind the other, from the address `a` to the address `b`. -/
def At (c : Code) : UInt32 → List Op → UInt32 → Prop
  | a, [], b => a = b
  | a, o :: os, b =>
    match c a with
    | some (p, next) => p = o ∧ At c next os b
    | none => False

instance instDecidableAt (c : Code) : ∀ (a : UInt32) (os : List Op) (b : UInt32), Decidable (At c a os b)
  | a, [], b => inferInstanceAs (Decidable (a = b))
  | a, o :: os, b =>
    match h : c a with
    | some (p, next) =>
      have := instDecidableAt c next os b
      decidable_of_iff (p = o ∧ At c next os b) (by simp [At, h])
    | none => .isFalse (by simp [At, h])

/-- The instructions of `X86` in the code. -/
def plainCode (c : Code) : X86.Code := fun a =>
  match c a with
  | some (plain i, next) => some (i, next)
  | _ => none

section
variable {c : Code} {x y : Cpu} {s s' : State} {a b next : UInt32} {o : Op} {os ps : List Op} {i : Instr} {is : List Instr}

@[simp] theorem exec_mov (src dst : Operand) (next : UInt32) (x : Cpu) :
    (plain (.mov src dst)).exec next x = x.withState (((Instr.mov src dst).effect x.state).goto next) := rfl

@[simp] theorem exec_pop (dst : Operand) (next : UInt32) (x : Cpu) :
    (plain (.pop dst)).exec next x = x.withState (((Instr.pop dst).effect x.state).goto next) := rfl

@[simp] theorem exec_movAbs (src : Reg) (addr next : UInt32) (x : Cpu) : (movAbs src addr).exec next x =
    x.withState ({ x.state with mem := store x.state.mem addr (x.state.reg src) }.goto next) := rfl

@[simp] theorem exec_add (v : UInt32) (dst : Reg) (next : UInt32) (x : Cpu) : (add v dst).exec next x =
    x.withState (((x.state.setFlags (x.state.flags.add (x.state.reg dst) v)).setReg dst (x.state.reg dst + v)).goto next) := rfl

@[simp] theorem exec_neg (dst : Reg) (next : UInt32) (x : Cpu) : (neg dst).exec next x =
    x.withState (((x.state.setFlags (x.state.flags.compare 0 (x.state.reg dst))).setReg dst (0 - x.state.reg dst)).goto next) :=
  rfl

@[simp] theorem exec_not (dst : Reg) (next : UInt32) (x : Cpu) :
    (not dst).exec next x = x.withState ((x.state.setReg dst (~~~x.state.reg dst)).goto next) := rfl

theorem at_cons : At c a (o :: os) b ↔ ∃ next, c a = some (o, next) ∧ At c next os b := by
  cases hc : c a with
  | none => simp [At, hc]
  | some p =>
    simp only [At, hc, Option.some.injEq]
    constructor
    · intro ⟨he, h⟩
      exact ⟨p.2, Prod.ext he rfl, h⟩
    · intro ⟨next, he, h⟩
      subst he
      exact ⟨rfl, h⟩

theorem at_append : At c a (os ++ ps) b ↔ ∃ d, At c a os d ∧ At c d ps b := by
  induction os generalizing a with
  | nil => simp [At]
  | cons o os ih =>
    simp only [List.cons_append, at_cons, ih]
    constructor
    · intro ⟨next, ho, d, h1, h2⟩
      exact ⟨d, ⟨next, ho, h1⟩, h2⟩
    · intro ⟨d, ⟨next, ho, h1⟩, h2⟩
      exact ⟨next, ho, d, h1, h2⟩

theorem plainCode_eq_some : plainCode c a = some (i, next) ↔ c a = some (plain i, next) := by
  unfold plainCode
  split
  · rename_i j n h
    simp [h]
  · rename_i h
    constructor
    · intro hf
      cases hf
    · intro hc
      exact absurd hc (h i next)

/-- Instructions of `X86` lie in the code where they lie in its part of `X86`. -/
theorem at_plain : At c a (is.map plain) b ↔ X86.At (plainCode c) a is b := by
  induction is generalizing a with
  | nil => rfl
  | cons i is ih => simp only [List.map_cons, at_cons, X86.at_cons, plainCode_eq_some, ih]

theorem reaches_exec (ho : c x.state.eip = some (o, next)) (h : Reaches c (o.exec next x) y) : Reaches c x y := by
  apply Relation.ReflTransGen.head _ h
  rw [step, ho]
  rfl

theorem step_plain (h : X86.step (plainCode c) s = some s') (x : Cpu) :
    step c (x.withState s) = some (x.withState s') := by
  obtain ⟨⟨i, next⟩, hi, rfl⟩ := Option.map_eq_some_iff.mp h
  have hc : c (x.withState s).state.eip = some (plain i, next) := plainCode_eq_some.mp hi
  rw [step, hc]
  rfl

/-- A run of `X86` is one of the whole processor. -/
theorem reaches_plain (h : X86.Reaches (plainCode c) s s') (x : Cpu) : Reaches c (x.withState s) (x.withState s') := by
  induction h with
  | refl => exact Relation.ReflTransGen.refl
  | tail _ hlast ih => exact ih.tail (step_plain hlast x)

/-- Straight code of `X86`, from its first instruction to the address behind it. -/
theorem reaches_block (h : At c x.state.eip (is.map plain) b) (hs : ∀ i ∈ is, i.straight = true) :
    Reaches c x (x.withState ((block is x.state).goto b)) := reaches_plain (X86.reaches_block (at_plain.mp h) hs) x

/-- The end of a function: `popl %ebp` and `ret`. -/
theorem reaches_leave {ws : List UInt32} {v ret : UInt32} (h : At c x.state.eip [.plain (.pop (.reg .ebp)), .plain .ret] b)
    (hw : Words x.state.mem (x.state.reg .esp) (v :: ret :: ws)) :
    ∃ t, Reaches c x (x.withState t) ∧ t.eip = ret ∧ t.reg .esp = x.state.reg .esp + 8 ∧ t.reg .ebp = v ∧
      (∀ r ∉ [Reg.esp, .ebp], t.reg r = x.state.reg r) ∧ t.seg = x.state.seg ∧ t.mem = x.state.mem ∧
      t.sysenterCs = x.state.sysenterCs := by
  obtain ⟨a, hpop, h⟩ := at_cons.mp h
  obtain ⟨d, hret, -⟩ := at_cons.mp h
  simp only [words_cons] at hw
  have hpopped : Instr.exec (.pop (.reg .ebp)) a x.state = (x.state.drop.setReg .ebp v).goto a := by
    rw [← hw.1]
    rfl
  have htop : (x.state.drop.setReg .ebp v).top = ret := by simpa [State.top] using hw.2.1
  have hdown : x.state.reg .esp + 4 + 4 = x.state.reg .esp + 8 := UInt32.add_assoc ..
  refine ⟨(x.state.drop.setReg .ebp v).drop.goto ret, ?_, rfl, ?_, ?_, fun r hr => ?_, rfl, rfl, rfl⟩
  · apply reaches_exec hpop
    rw [exec, hpopped]
    apply reaches_exec hret
    rw [← htop]
    exact Relation.ReflTransGen.refl
  · simpa using hdown
  · simp
  · simp only [List.mem_cons, List.not_mem_nil, or_false, not_or] at hr
    simp [hr]

end

/-- What `movb` puts into `al`. -/
theorem low_byte (w : UInt32) (v : UInt8) : (w &&& 0xffffff00 ||| v.toUInt32).toUInt8 = v := by
  have hlow : ∀ j < 8, (0xffffff00 : BitVec 32).getLsbD j = false := by decide
  apply UInt8.toBitVec_inj.mp
  simp only [UInt32.toBitVec_toUInt8, UInt32.toBitVec_or, UInt32.toBitVec_and, UInt8.toBitVec_toUInt32]
  ext i hi
  have := hlow i hi
  simp at this ⊢

/-! ## Runs with calls left open -/

/-- A stretch of a run: what it sends to ports, and what holds where it ends. -/
structure Leg where
  sent : List (UInt16 × UInt8)
  ends : Cpu → Prop

def Leg.after (out : List (UInt16 × UInt8)) (L : Leg) : Leg := { L with sent := out ++ L.sent }

/-- From `x` the run goes leg by leg, and where one ends, but for the last, a function without arguments begins. What the
function does is not said: it comes back by the calling convention to the stack that ends at `top`, with what `K` allows of
the rest. -/
def Through (c : Code) (top : UInt32) (K : Cpu → Cpu → Prop) : List Leg → Cpu → Prop
  | [], _ => True
  | L :: ls, x => ∃ y, Reaches c x y ∧ y.ports = x.ports ++ L.sent ∧ L.ends y ∧
      ∀ y' v, Returned 0 top y.state y'.state v → K y y' → Through c top K ls y'

section
variable {c : Code} {top : UInt32} {K : Cpu → Cpu → Prop} {x y : Cpu} {out : List (UInt16 × UInt8)} {ls : List Leg}
  {P : Cpu → Prop}

/-- What runs before belongs to the first leg. -/
theorem Through.head (hrun : Reaches c x y) (hsent : y.ports = x.ports ++ out) (h : Through c top K ls y) :
    Through c top K (ls.modifyHead (Leg.after out)) x := by
  cases ls with
  | nil => exact h
  | cons L ls =>
    obtain ⟨z, hz, hports, hends, hnext⟩ := h
    refine ⟨z, hrun.trans hz, ?_, hends, hnext⟩
    rw [hports, hsent, List.append_assoc]
    rfl

theorem Through.quiet (hrun : Reaches c x y) (hsent : y.ports = x.ports) (h : Through c top K ls y) : Through c top K ls x := by
  have hnone : ls.modifyHead (Leg.after []) = ls := by
    cases ls <;> rfl
  rw [← hnone]
  exact h.head hrun (by rw [hsent, List.append_nil])

theorem through_last (hrun : Reaches c x y) (hsent : y.ports = x.ports) (hp : P y) : Through c top K [⟨[], P⟩] x :=
  ⟨y, hrun, by rw [hsent, List.append_nil], hp, fun _ _ _ _ => trivial⟩

end

end Op

end X86
