import Mathlib.Algebra.Group.Int.Defs
import Mathlib.Algebra.GroupWithZero.Nat
import Mathlib.Computability.StateTransition
import Mathlib.Data.List.Basic
import Mathlib.Logic.Function.Basic
import Mathlib.Logic.Relation

/-!
# A small x86

The registers, the flags and the memory of a 32-bit x86 with flat segments, and the instructions that move words, push
and pop them, compare, jump, call and return. Nothing faults: an address is a place in memory.
-/

namespace X86

inductive Reg where
  | eax
  | ecx
  | edx
  | ebx
  | esp
  | ebp
  | esi
  | edi
  deriving DecidableEq

inductive SegReg where
  | cs
  | ss
  | ds
  | es
  | fs
  | gs
  deriving DecidableEq

/-- EFLAGS: the arithmetic flags, the interrupt flag, and the bits that no instruction here changes. -/
structure Flags where
  cf : Bool
  pf : Bool
  af : Bool
  zf : Bool
  sf : Bool
  of : Bool
  intf : Bool
  rest : UInt32

def Flags.word (f : Flags) : UInt32 :=
  let bit (b : Bool) (v : UInt32) := if b then v else 0
  f.rest ||| bit f.cf 0x1 ||| bit f.pf 0x4 ||| bit f.af 0x10 ||| bit f.zf 0x40 ||| bit f.sf 0x80 ||| bit f.intf 0x200 |||
    bit f.of 0x800

/-- The sign bit. -/
def negative (a : UInt32) : Bool := 0x80000000 ≤ a

/-- The flags of `a - b`. -/
def Flags.compare (f : Flags) (a b : UInt32) : Flags :=
  { f with
    cf := a < b
    pf := (List.range 8).countP (fun i => (a - b).toNat.testBit i) % 2 = 0
    af := (a &&& 0xf) < (b &&& 0xf)
    zf := a = b
    sf := negative (a - b)
    of := negative a ≠ negative b ∧ negative (a - b) ≠ negative a }

/-- The word as a number in two's complement. -/
def signed (a : UInt32) : Int := if negative a then a.toNat - 2 ^ 32 else a.toNat

theorem negative_eq (a : UInt32) : negative a = decide (2 ^ 31 ≤ a.toNat) := by
  rw [negative, decide_eq_decide, UInt32.le_iff_toNat_le]
  rfl

/-- What `jl` tests is the order of signed numbers. -/
theorem compare_less (f : Flags) (a b : UInt32) : (f.compare a b).sf ≠ (f.compare a b).of ↔ signed a < signed b := by
  have ha := a.toNat_lt
  have hb := b.toNat_lt
  have hsub : (a - b).toNat = (2 ^ 32 - b.toNat + a.toNat) % 2 ^ 32 := UInt32.toNat_sub ..
  simp only [Flags.compare, signed, negative_eq, hsub]
  by_cases h1 : 2 ^ 31 ≤ a.toNat <;> by_cases h2 : 2 ^ 31 ≤ b.toNat <;>
    by_cases h3 : 2 ^ 31 ≤ (2 ^ 32 - b.toNat + a.toNat) % 2 ^ 32 <;>
    simp only [h1, h2, h3, decide_true, decide_false, if_true, if_false, reduceCtorEq, Bool.false_eq_true, ne_eq, not_true,
      not_false_iff, and_true, and_self, and_false, false_iff, true_iff] <;> omega

theorem compare_greater (f : Flags) (a b : UInt32) :
    (f.compare a b).zf = false ∧ (f.compare a b).sf = (f.compare a b).of ↔ signed b < signed a := by
  have hle : (f.compare a b).sf = (f.compare a b).of ↔ signed b ≤ signed a := by
    rw [← Int.not_lt, ← compare_less f a b, not_not]
  have heq : (f.compare a b).zf = false ↔ signed a ≠ signed b := by
    have ha := a.toNat_lt
    have hb := b.toNat_lt
    simp only [Flags.compare, decide_eq_false_iff_not, signed, negative_eq, decide_eq_true_iff, ← UInt32.toNat_inj]
    split <;> split <;> omega
  rw [hle, heq]
  omega

/-! ## Memory -/

abbrev Memory : Type := UInt32 → UInt8

def byteOf (v : UInt32) (k : Nat) : UInt8 := .ofNat (v.toNat / 256 ^ k)

/-- A word, lowest byte first. -/
def load (m : Memory) (a : UInt32) : UInt32 :=
  .ofNat ((m a).toNat + 256 * (m (a + 1)).toNat + 65536 * (m (a + 2)).toNat + 16777216 * (m (a + 3)).toNat)

def store (m : Memory) (a v : UInt32) : Memory := fun b =>
  if (b - a).toNat < 4 then byteOf v (b - a).toNat else m b

/-- The words from an address upwards. -/
def Words (m : Memory) (a : UInt32) (ws : List UInt32) : Prop :=
  ∀ i (h : i < ws.length), load m (a + 4 * .ofNat i) = ws[i]

/-! ## The machine -/

/-- `sysenterCs` is the model-specific register that `sysexit` takes the selectors from. -/
structure State where
  reg : Reg → UInt32
  seg : SegReg → UInt16
  flags : Flags
  eip : UInt32
  mem : Memory
  sysenterCs : UInt16

inductive Operand where
  | reg (r : Reg)
  | seg (r : SegReg)
  | imm (v : UInt32)
  | mem (disp : UInt32) (base : Reg)
  deriving DecidableEq

/-- Operands come in the order of the AT&T assembler, the source first. `callIndexed` is `call *table(, index, 4)`. -/
inductive Instr where
  | push (src : Operand)
  | pushfl
  | pop (dst : Operand)
  | mov (src dst : Operand)
  | cmp (src dst : Operand)
  | sti
  | jmp (target : UInt32)
  | jl (target : UInt32)
  | jg (target : UInt32)
  | call (target : UInt32)
  | callIndexed (table : UInt32) (index : Reg)
  | ret
  | sysexit
  deriving DecidableEq

namespace State

def setReg (s : State) (r : Reg) (v : UInt32) : State := { s with reg := Function.update s.reg r v }

def setSeg (s : State) (r : SegReg) (v : UInt16) : State := { s with seg := Function.update s.seg r v }

def goto (s : State) (a : UInt32) : State := { s with eip := a }

def read (s : State) : Operand → UInt32
  | .reg r => s.reg r
  | .seg r => (s.seg r).toUInt32
  | .imm v => v
  | .mem disp base => load s.mem (s.reg base + disp)

def write (s : State) : Operand → UInt32 → State
  | .reg r, v => s.setReg r v
  | .seg r, v => s.setSeg r v.toUInt16
  | .imm _, _ => s
  | .mem disp base, v => { s with mem := store s.mem (s.reg base + disp) v }

def push (s : State) (v : UInt32) : State :=
  { s.setReg .esp (s.reg .esp - 4) with mem := store s.mem (s.reg .esp - 4) v }

def top (s : State) : UInt32 := load s.mem (s.reg .esp)

def drop (s : State) : State := s.setReg .esp (s.reg .esp + 4)

/-- To user mode, at the address in `edx` with the stack in `ecx`. -/
def exitToUser (s : State) : State :=
  (((s.setReg .esp (s.reg .ecx)).setSeg .cs ((s.sysenterCs + 16) ||| 3)).setSeg .ss ((s.sysenterCs + 24) ||| 3)).goto
    (s.reg .edx)

end State

namespace Instr

/-- An instruction after which comes the one behind it. -/
def straight : Instr → Bool
  | push _ | pushfl | pop _ | mov _ _ | cmp _ _ | sti => true
  | _ => false

def effect : Instr → State → State
  | push src, s => s.push (s.read src)
  | pushfl, s => s.push s.flags.word
  | pop dst, s => s.drop.write dst s.top
  | mov src dst, s => s.write dst (s.read src)
  | cmp src dst, s => { s with flags := s.flags.compare (s.read dst) (s.read src) }
  | sti, s => { s with flags := { s.flags with intf := true } }
  | _, s => s

/-- `next` is the address behind the instruction. -/
def exec (i : Instr) (next : UInt32) (s : State) : State :=
  match i with
  | jmp target => s.goto target
  | jl target => s.goto (if s.flags.sf ≠ s.flags.of then target else next)
  | jg target => s.goto (if s.flags.zf = false ∧ s.flags.sf = s.flags.of then target else next)
  | call target => (s.push next).goto target
  | callIndexed table index => (s.push next).goto (load s.mem (table + 4 * s.reg index))
  | ret => s.drop.goto s.top
  | sysexit => s.exitToUser
  | i => (i.effect s).goto next

end Instr

/-- The instruction at an address, and the address behind it. -/
abbrev Code : Type := UInt32 → Option (Instr × UInt32)

def step (c : Code) (s : State) : Option State := (c s.eip).map fun p => p.1.exec p.2 s

abbrev Reaches (c : Code) : State → State → Prop := Relation.ReflTransGen fun s s' => step c s = some s'

/-- The instructions lie one behind the other, from the address `a` to the address `b`. -/
def At (c : Code) : UInt32 → List Instr → UInt32 → Prop
  | a, [], b => a = b
  | a, i :: is, b =>
    match c a with
    | some (j, next) => j = i ∧ At c next is b
    | none => False

instance instDecidableAt (c : Code) : ∀ (a : UInt32) (is : List Instr) (b : UInt32), Decidable (At c a is b)
  | a, [], b => inferInstanceAs (Decidable (a = b))
  | a, i :: is, b =>
    match h : c a with
    | some (j, next) =>
      have := instDecidableAt c next is b
      decidable_of_iff (j = i ∧ At c next is b) (by simp [At, h])
    | none => .isFalse (by simp [At, h])

/-- What a stretch of straight code does. -/
def block (is : List Instr) (s : State) : State := is.foldl (fun s i => i.effect s) s

/-! ## Words in memory -/

section
variable {m m' : Memory} {a b v w : UInt32} {ws vs : List UInt32}

theorem add_sub_self (a b : UInt32) : a + b - a = b := by rw [UInt32.add_comm, UInt32.add_sub_cancel]

theorem offset_add {d : UInt32} {k : Nat} (hk : d.toNat + k < 2 ^ 32) : (d + .ofNat k).toNat = d.toNat + k := by
  rw [UInt32.toNat_add, UInt32.toNat_ofNat', Nat.mod_eq_of_lt (Nat.lt_of_le_of_lt (Nat.le_add_left k _) hk),
    Nat.mod_eq_of_lt hk]

theorem store_byte {k : Nat} (hk : k < 4) : store m a v (a + .ofNat k) = byteOf v k := by
  have hoff : (a + .ofNat k - a).toNat = k := by
    rw [add_sub_self, UInt32.toNat_ofNat', Nat.mod_eq_of_lt (Nat.lt_trans hk (by decide))]
  rw [store, hoff, if_pos hk]

theorem store_other (h : 4 ≤ (b - a).toNat) : store m a v b = m b := if_neg (Nat.not_lt.mpr h)

theorem toNat_byteOf (v : UInt32) (k : Nat) : (byteOf v k).toNat = v.toNat / 256 ^ k % 256 := by
  rw [byteOf, UInt8.toNat_ofNat']

theorem load_bytes (h : ∀ k < 4, m (a + .ofNat k) = byteOf v k) : load m a = v := by
  have h0 : m a = byteOf v 0 := by simpa using h 0 (by decide)
  have h1 : m (a + 1) = byteOf v 1 := h 1 (by decide)
  have h2 : m (a + 2) = byteOf v 2 := h 2 (by decide)
  have h3 : m (a + 3) = byteOf v 3 := h 3 (by decide)
  apply UInt32.toNat_inj.mp
  have hv := v.toNat_lt
  rw [load, h0, h1, h2, h3, UInt32.toNat_ofNat', toNat_byteOf, toNat_byteOf, toNat_byteOf, toNat_byteOf]
  omega

theorem load_store (m : Memory) (a v : UInt32) : load (store m a v) a = v := load_bytes fun _ hk => store_byte hk

theorem load_congr (h : ∀ k < 4, m (a + .ofNat k) = m' (b + .ofNat k)) : load m a = load m' b := by
  have h0 : m a = m' b := by simpa using h 0 (by decide)
  have h1 : m (a + 1) = m' (b + 1) := h 1 (by decide)
  have h2 : m (a + 2) = m' (b + 2) := h 2 (by decide)
  have h3 : m (a + 3) = m' (b + 3) := h 3 (by decide)
  rw [load, load, h0, h1, h2, h3]

theorem load_store_other (h : 4 ≤ (b - a).toNat) (h' : (b - a).toNat + 4 ≤ 2 ^ 32) : load (store m a v) b = load m b := by
  apply load_congr
  intro k hk
  apply store_other
  have hoff : b + .ofNat k - a = b - a + .ofNat k := by
    rw [UInt32.sub_eq_add_neg, UInt32.sub_eq_add_neg, UInt32.add_assoc, UInt32.add_assoc, UInt32.add_comm (.ofNat k)]
  rw [hoff, offset_add (by omega)]
  omega

theorem words_nil (m : Memory) (a : UInt32) : Words m a [] := fun _ h => absurd h (Nat.not_lt_zero _)

theorem next_word (a : UInt32) (i : Nat) : a + 4 + 4 * .ofNat i = a + 4 * .ofNat (i + 1) := by
  rw [UInt32.ofNat_add, UInt32.mul_add, UInt32.add_assoc, UInt32.add_comm 4]
  rfl

theorem words_cons : Words m a (w :: ws) ↔ load m a = w ∧ Words m (a + 4) ws := by
  constructor
  · intro h
    refine ⟨by simpa using h 0 (Nat.succ_pos _), fun i hi => ?_⟩
    rw [next_word]
    exact h (i + 1) (Nat.succ_lt_succ hi)
  · rintro ⟨h0, h⟩ i hi
    cases i with
    | zero => simpa using h0
    | succ i =>
      rw [← next_word]
      exact h i (Nat.lt_of_succ_lt_succ hi)

theorem word_offset {i : Nat} (hi : i < 2 ^ 30) : (4 * UInt32.ofNat i).toNat = 4 * i := by
  rw [UInt32.toNat_mul, UInt32.toNat_ofNat', Nat.mod_eq_of_lt (Nat.lt_trans hi (by decide))]
  exact Nat.mod_eq_of_lt (by simp only [UInt32.reduceToNat]; omega)

theorem Words.push (h : Words m a ws) (hlen : ws.length + 1 < 2 ^ 30) : Words (store m (a - 4) v) (a - 4) (v :: ws) := by
  refine words_cons.mpr ⟨load_store m (a - 4) v, fun i hi => ?_⟩
  have hoff : (a - 4 + 4 + 4 * .ofNat i - (a - 4)).toNat = 4 * (i + 1) := by
    rw [next_word, add_sub_self, word_offset (by omega)]
  rw [load_store_other (by omega) (by omega), UInt32.sub_add_cancel]
  exact h i hi

theorem Words.set (h : Words m a ws) (hlen : ws.length < 2 ^ 30) {j : Nat} (hj : j < ws.length) :
    Words (store m (a + 4 * .ofNat j) v) a (ws.set j v) := by
  intro i hi
  rw [List.length_set] at hi
  by_cases hij : j = i
  · subst hij
    rw [load_store, List.getElem_set_self]
  · rw [List.getElem_set_ne hij, ← h i hi]
    have hsub : a + 4 * .ofNat i - (a + 4 * .ofNat j) = 4 * .ofNat i - 4 * .ofNat j := by
      rw [UInt32.sub_eq_add_neg, UInt32.neg_add, UInt32.sub_eq_add_neg]
      grind
    have hi' := word_offset (i := i) (by omega)
    have hj' := word_offset (i := j) (by omega)
    have hdiff : (4 * UInt32.ofNat i - 4 * .ofNat j).toNat = (2 ^ 32 - 4 * j + 4 * i) % 2 ^ 32 := by
      rw [UInt32.toNat_sub, hi', hj']
    apply load_store_other <;> rw [hsub, hdiff] <;> omega

end

/-! ## Pages of words -/

/-- The word `j` of the page that starts at `base`. -/
def cell (base : UInt32) (j : Nat) : UInt32 := base + 4 * .ofNat j

/-- The page has the same words from `p` on. -/
def SameFrom (base : UInt32) (p : Nat) (m m' : Memory) : Prop :=
  ∀ j, p ≤ j → j < 1024 → load m' (cell base j) = load m (cell base j)

section
variable {m m' : Memory} {base base' v : UInt32} {i j p q : Nat} {ws : List UInt32}

theorem cell_add (base : UInt32) (i j : Nat) : cell base i + 4 * .ofNat j = cell base (i + j) := by
  rw [cell, cell, UInt32.ofNat_add]
  grind

theorem cell_diff (hij : i ≤ j) (hj : j ≤ 1024) : (cell base j - cell base i).toNat = 4 * (j - i) := by
  have hadd := cell_add base i (j - i)
  rw [Nat.add_sub_cancel' hij] at hadd
  rw [← hadd, add_sub_self, word_offset (by omega)]

theorem cell_sub (base : UInt32) (i j : Nat) : cell base (i + j) - 4 * .ofNat j = cell base i := by
  rw [← cell_add, UInt32.add_sub_cancel]

theorem cell_toNat (hb : base.toNat % 4096 = 0) (hj : j < 1024) : (cell base j).toNat = base.toNat + 4 * j := by
  have hlt := base.toNat_lt
  rw [cell, UInt32.toNat_add, word_offset (by omega)]
  omega

theorem cell_apart (hb : base.toNat % 4096 = 0) (hb' : base'.toNat % 4096 = 0) (hi : i < 1024) (hj : j < 1024)
    (hne : base ≠ base' ∨ i ≠ j) :
    4 ≤ (cell base' j - cell base i).toNat ∧ (cell base' j - cell base i).toNat + 4 ≤ 2 ^ 32 := by
  have hlt := base.toNat_lt
  have hlt' := base'.toNat_lt
  have hpages : base.toNat ≠ base'.toNat ∨ i ≠ j := hne.imp_left fun h e => h (UInt32.toNat_inj.mp e)
  rw [UInt32.toNat_sub, cell_toNat hb hi, cell_toNat hb' hj]
  omega

theorem load_store_cell (hb : base.toNat % 4096 = 0) (hb' : base'.toNat % 4096 = 0) (hi : i < 1024) (hj : j < 1024)
    (hne : base ≠ base' ∨ i ≠ j) : load (store m (cell base i) v) (cell base' j) = load m (cell base' j) := by
  obtain ⟨h1, h2⟩ := cell_apart hb hb' hi hj hne
  exact load_store_other h1 h2

theorem words_cell : Words m (cell base p) ws ↔ ∀ i (h : i < ws.length), load m (cell base (p + i)) = ws[i] := by
  unfold Words
  simp only [cell_add]

theorem SameFrom.refl (base : UInt32) (p : Nat) (m : Memory) : SameFrom base p m m := fun _ _ _ => rfl

theorem SameFrom.words (h : SameFrom base p m m') (hq : p ≤ q) (hlen : q + ws.length ≤ 1024)
    (hw : Words m (cell base q) ws) : Words m' (cell base q) ws := by
  rw [words_cell] at hw ⊢
  intro i hi
  rw [h (q + i) (by omega) (by omega)]
  exact hw i hi

theorem outside {a : UInt32} {j : Nat} (ha : 4096 ≤ (a - base).toNat) (hj : j ≤ 1024) :
    4096 - 4 * j ≤ (a - cell base j).toNat := by
  have hsub : a - cell base j = a - base - 4 * .ofNat j := by
    rw [cell]
    grind
  have hword := word_offset (i := j) (by omega)
  have hlt := (a - base).toNat_lt
  rw [hsub, UInt32.toNat_sub, hword]
  omega

theorem sameFrom_store (hb : base.toNat % 4096 = 0) (hb' : base'.toNat % 4096 = 0) (hi : i < 1024)
    (hne : base ≠ base' ∨ i < p) : SameFrom base' p m (store m (cell base i) v) := by
  intro j hp hj
  exact load_store_cell hb hb' hi hj (hne.imp_right fun h => by omega)

end

/-! ## Registers -/

namespace State

section
variable (s : State) (r r' : Reg) (g g' : SegReg) (a v : UInt32) (u : UInt16)

@[simp] theorem setReg_reg : (s.setReg r v).reg r' = if r' = r then v else s.reg r' := Function.update_apply ..

@[simp] theorem setReg_seg : (s.setReg r v).seg = s.seg := rfl

@[simp] theorem setReg_flags : (s.setReg r v).flags = s.flags := rfl

@[simp] theorem setReg_mem : (s.setReg r v).mem = s.mem := rfl

@[simp] theorem setReg_eip : (s.setReg r v).eip = s.eip := rfl

@[simp] theorem setReg_sysenterCs : (s.setReg r v).sysenterCs = s.sysenterCs := rfl

@[simp] theorem setSeg_reg : (s.setSeg g u).reg = s.reg := rfl

@[simp] theorem setSeg_seg : (s.setSeg g u).seg g' = if g' = g then u else s.seg g' := Function.update_apply ..

@[simp] theorem setSeg_flags : (s.setSeg g u).flags = s.flags := rfl

@[simp] theorem setSeg_mem : (s.setSeg g u).mem = s.mem := rfl

@[simp] theorem setSeg_sysenterCs : (s.setSeg g u).sysenterCs = s.sysenterCs := rfl

@[simp] theorem goto_reg : (s.goto a).reg = s.reg := rfl

@[simp] theorem goto_seg : (s.goto a).seg = s.seg := rfl

@[simp] theorem goto_flags : (s.goto a).flags = s.flags := rfl

@[simp] theorem goto_mem : (s.goto a).mem = s.mem := rfl

@[simp] theorem goto_eip : (s.goto a).eip = a := rfl

@[simp] theorem goto_goto (b : UInt32) : (s.goto a).goto b = s.goto b := rfl

theorem push_goto : (s.goto a).push v = (s.push v).goto a := rfl

@[simp] theorem goto_sysenterCs : (s.goto a).sysenterCs = s.sysenterCs := rfl

@[simp] theorem push_reg : (s.push v).reg r = if r = .esp then s.reg .esp - 4 else s.reg r := Function.update_apply ..

@[simp] theorem push_seg : (s.push v).seg = s.seg := rfl

@[simp] theorem push_flags : (s.push v).flags = s.flags := rfl

@[simp] theorem push_sysenterCs : (s.push v).sysenterCs = s.sysenterCs := rfl

@[simp] theorem push_mem : (s.push v).mem = store s.mem (s.reg .esp - 4) v := rfl

@[simp] theorem drop_reg : s.drop.reg r = if r = .esp then s.reg .esp + 4 else s.reg r := Function.update_apply ..

@[simp] theorem drop_seg : s.drop.seg = s.seg := rfl

@[simp] theorem drop_flags : s.drop.flags = s.flags := rfl

@[simp] theorem drop_mem : s.drop.mem = s.mem := rfl

@[simp] theorem drop_sysenterCs : s.drop.sysenterCs = s.sysenterCs := rfl

@[simp] theorem write_seg : s.write (.seg g) v = s.setSeg g v.toUInt16 := rfl

@[simp] theorem write_reg : s.write (.reg r) v = s.setReg r v := rfl

@[simp] theorem read_reg : s.read (.reg r) = s.reg r := rfl

@[simp] theorem read_imm : s.read (.imm v) = v := rfl

@[simp] theorem read_seg : s.read (.seg g) = (s.seg g).toUInt32 := rfl

end

end State

/-- What is read from the operand does not depend on the stack. -/
def Operand.fixed : Operand → Bool
  | .reg r => r ≠ .esp
  | .seg _ | .imm _ => true
  | .mem _ _ => false

/-- A register other than the stack pointer. -/
def Operand.register : Operand → Bool
  | .reg r => r ≠ .esp
  | .seg _ => true
  | .imm _ | .mem _ _ => false

/-! ## The stack -/

/-- From `s` to `s'` the words `ws` have been pushed, the last one first. -/
structure Pushed (s s' : State) (ws : List UInt32) : Prop where
  esp : s'.reg .esp = s.reg .esp - 4 * .ofNat ws.length
  reg : ∀ r, r ≠ .esp → s'.reg r = s.reg r
  seg : s'.seg = s.seg
  flags : s'.flags = s.flags
  sysenterCs : s'.sysenterCs = s.sysenterCs
  words : ∀ vs, ws.length + vs.length < 2 ^ 30 → Words s.mem (s.reg .esp) vs → Words s'.mem (s'.reg .esp) (ws ++ vs)
  other : ∀ b, 4 * ws.length ≤ (b - s'.reg .esp).toNat → s'.mem b = s.mem b

/-- From `s` to `s'` the operands `os` have got back what they had in `s0`. -/
structure Popped (s0 s s' : State) (os : List Operand) (ws : List UInt32) : Prop where
  got : ∀ o ∈ os, s'.read o = s0.read o
  reg : ∀ r, r ≠ .esp → .reg r ∉ os → s'.reg r = s.reg r
  seg : ∀ r, .seg r ∉ os → s'.seg r = s.seg r
  esp : s'.reg .esp = s.reg .esp + 4 * .ofNat os.length
  mem : s'.mem = s.mem
  flags : s'.flags = s.flags
  sysenterCs : s'.sysenterCs = s.sysenterCs
  words : Words s'.mem (s'.reg .esp) ws

section
variable {s s' s0 : State} {ws : List UInt32} {os : List Operand} {o : Operand} {is js : List Instr}

@[simp] theorem block_nil (s : State) : block [] s = s := rfl

@[simp] theorem block_cons (i : Instr) (is : List Instr) (s : State) : block (i :: is) s = block is (i.effect s) := rfl

theorem block_cmp (a b : Operand) (s : State) :
    block [.cmp a b] s = { s with flags := s.flags.compare (s.read b) (s.read a) } := rfl

theorem block_append (is js : List Instr) (s : State) : block (is ++ js) s = block js (block is s) := List.foldl_append ..

theorem Pushed.refl (s : State) : Pushed s s [] where
  esp := by simp
  reg _ _ := rfl
  seg := rfl
  flags := rfl
  sysenterCs := rfl
  words _ _ h := h
  other _ _ := rfl

theorem Pushed.push (h : Pushed s s' ws) (v : UInt32) : Pushed s (s'.push v) (v :: ws) where
  esp := by
    simp only [State.push_reg, if_true, h.esp, List.length_cons, UInt32.ofNat_add]
    grind
  reg r hr := by simp [hr, h.reg r hr]
  seg := h.seg
  flags := h.flags
  sysenterCs := h.sysenterCs
  words vs hlen hw := by
    rw [List.length_cons] at hlen
    have hlen' : (ws ++ vs).length + 1 < 2 ^ 30 := by
      rw [List.length_append]
      omega
    simpa using (h.words vs (by omega) hw).push hlen'
  other b hb := by
    have hsub : b - (s'.reg .esp - 4) = b - s'.reg .esp + 4 := by grind
    simp only [State.push_reg, if_true, hsub, List.length_cons] at hb
    have hsum : (b - s'.reg .esp + 4).toNat = ((b - s'.reg .esp).toNat + 4) % 2 ^ 32 := UInt32.toNat_add ..
    have hlt := (b - s'.reg .esp).toNat_lt
    rw [State.push_mem, store_other (by rw [hsub]; omega)]
    exact h.other b (by omega)

theorem Pushed.read (h : Pushed s s' ws) (ho : o.fixed = true) : s'.read o = s.read o := by
  cases o with
  | reg r => exact h.reg r (by simpa [Operand.fixed] using ho)
  | seg r => rw [State.read_seg, State.read_seg, h.seg]
  | imm v => rfl
  | mem disp base => cases ho

theorem Pushed.block (h : Pushed s s' ws) (hos : ∀ o ∈ os, o.fixed = true) :
    Pushed s (X86.block (os.map .push) s') ((os.map s.read).reverse ++ ws) := by
  induction os generalizing s' ws with
  | nil => exact h
  | cons o os ih =>
    have hpush := h.push (s'.read o)
    rw [h.read (hos o List.mem_cons_self)] at hpush
    have := ih hpush fun o ho => hos o (List.mem_cons_of_mem _ ho)
    simpa [Instr.effect, h.read (hos o List.mem_cons_self)] using this

theorem pop_block (hos : ∀ o ∈ os, o.register = true) (hn : os.Nodup) (hw : Words s.mem (s.reg .esp) (os.map s0.read ++ ws)) :
    Popped s0 s (block (os.map .pop) s) os ws := by
  induction os generalizing s with
  | nil => exact ⟨by simp, fun _ _ _ => rfl, fun _ _ => rfl, by simp, rfl, rfl, rfl, hw⟩
  | cons o os ih =>
    obtain ⟨hout, hrest⟩ := List.nodup_cons.mp hn
    rw [List.map_cons, List.cons_append, words_cons] at hw
    obtain ⟨htop, hw⟩ := hw
    have hreg := hos o List.mem_cons_self
    have hpop : (Instr.pop o).effect s = s.drop.write o (s0.read o) := by rw [Instr.effect, State.top, htop]
    rw [List.map_cons, block_cons, hpop]
    cases o with
    | reg r =>
      have hr : r ≠ .esp := by simpa [Operand.register] using hreg
      obtain ⟨hgot, h1, h2, h3, h4, h5, h6, h7⟩ := ih (s := s.drop.write (.reg r) (s0.read (.reg r)))
        (fun o ho => hos o (List.mem_cons_of_mem _ ho)) hrest (by simpa [hr.symm] using hw)
      refine ⟨?_, fun r' hr' hnot => ?_, fun g hg => ?_, ?_, by simpa using h4, by simpa using h5, by simpa using h6, h7⟩
      · intro o ho
        rcases List.mem_cons.mp ho with rfl | ho
        · rw [State.read_reg, h1 r hr hout]
          simp
        · exact hgot o ho
      · rw [h1 r' hr' fun hm => hnot (List.mem_cons_of_mem _ hm)]
        have hne : r' ≠ r := by
          rintro rfl
          exact hnot List.mem_cons_self
        simp [hr', hne]
      · rw [h2 g fun hm => hg (List.mem_cons_of_mem _ hm)]
        rfl
      · rw [h3, List.length_cons, ← next_word]
        simp [hr.symm]
    | seg g =>
      obtain ⟨hgot, h1, h2, h3, h4, h5, h6, h7⟩ := ih (s := s.drop.write (.seg g) (s0.read (.seg g)))
        (fun o ho => hos o (List.mem_cons_of_mem _ ho)) hrest (by simpa using hw)
      refine ⟨?_, fun r hr hnot => ?_, fun g' hg' => ?_, ?_, by simpa using h4, by simpa using h5, by simpa using h6, h7⟩
      · intro o ho
        rcases List.mem_cons.mp ho with rfl | ho
        · rw [State.read_seg, h2 g hout]
          simp
        · exact hgot o ho
      · rw [h1 r hr fun hm => hnot (List.mem_cons_of_mem _ hm)]
        simp [hr]
      · rw [h2 g' fun hm => hg' (List.mem_cons_of_mem _ hm)]
        have hne : g' ≠ g := by
          rintro rfl
          exact hg' List.mem_cons_self
        simp [hne]
      · rw [h3, List.length_cons, ← next_word]
        simp
    | imm v => cases hreg
    | mem disp base => cases hreg

end

/-! ## Runs of code -/

section
variable {c : Code} {s s' : State} {a b next : UInt32} {i : Instr} {is js : List Instr}

theorem at_cons : At c a (i :: is) b ↔ ∃ next, c a = some (i, next) ∧ At c next is b := by
  cases hc : c a with
  | none => simp [At, hc]
  | some p =>
    simp only [At, hc, Option.some.injEq]
    constructor
    · rintro ⟨rfl, h⟩
      exact ⟨p.2, rfl, h⟩
    · rintro ⟨next, rfl, h⟩
      exact ⟨rfl, h⟩

theorem at_append : At c a (is ++ js) b ↔ ∃ d, At c a is d ∧ At c d js b := by
  induction is generalizing a with
  | nil => simp [At]
  | cons i is ih =>
    simp only [List.cons_append, at_cons, ih]
    constructor
    · rintro ⟨next, hi, d, h1, h2⟩
      exact ⟨d, ⟨next, hi, h1⟩, h2⟩
    · rintro ⟨d, ⟨next, hi, h1⟩, h2⟩
      exact ⟨next, hi, d, h1, h2⟩

theorem reaches_exec (hi : c s.eip = some (i, next)) (h : Reaches c (i.exec next s) s') : Reaches c s s' := by
  apply Relation.ReflTransGen.head _ h
  rw [step, hi]
  rfl

theorem exec_callIndexed (table next : UInt32) (index : Reg) (s : State) : (Instr.callIndexed table index).exec next s =
    (s.push next).goto (load s.mem (table + 4 * s.reg index)) := rfl

theorem exec_jl {f : Flags} {v w : UInt32} (hf : s.flags = f.compare v w) (target next : UInt32) :
    (Instr.jl target).exec next s = s.goto (if signed v < signed w then target else next) := by
  have hless := compare_less f v w
  rw [← hf] at hless
  exact congrArg s.goto (if_congr hless rfl rfl)

theorem exec_jg {f : Flags} {v w : UInt32} (hf : s.flags = f.compare v w) (target next : UInt32) :
    (Instr.jg target).exec next s = s.goto (if signed w < signed v then target else next) := by
  have hgreater := compare_greater f v w
  rw [← hf] at hgreater
  exact congrArg s.goto (if_congr hgreater rfl rfl)

theorem effect_goto (i : Instr) (s : State) (a : UInt32) : i.effect (s.goto a) = (i.effect s).goto a := by
  cases i with
  | pop dst => cases dst <;> rfl
  | mov src dst => cases src <;> cases dst <;> rfl
  | push src => cases src <;> rfl
  | cmp src dst => cases src <;> cases dst <;> rfl
  | _ => rfl

theorem block_goto (is : List Instr) (s : State) (a : UInt32) : block is (s.goto a) = (block is s).goto a := by
  induction is generalizing s with
  | nil => rfl
  | cons i is ih => rw [block_cons, effect_goto, ih, block_cons]

theorem exec_straight (h : i.straight = true) (next : UInt32) (s : State) : i.exec next s = (i.effect s).goto next := by
  cases i <;> first | rfl | cases h

/-- Straight code runs from its first instruction to the address behind it. -/
theorem reaches_block (h : At c s.eip is b) (hs : ∀ i ∈ is, i.straight = true) : Reaches c s ((block is s).goto b) := by
  induction is generalizing s with
  | nil =>
    have hb : s.eip = b := h
    rw [← hb]
    exact Relation.ReflTransGen.refl
  | cons i is ih =>
    obtain ⟨next, hi, h⟩ := at_cons.mp h
    apply reaches_exec hi
    rw [exec_straight (hs i List.mem_cons_self)]
    have := ih (s := (i.effect s).goto next) h fun j hj => hs j (List.mem_cons_of_mem _ hj)
    rwa [block_goto] at this

theorem effect_rest (i : Instr) (s : State) : (i.effect s).flags.rest = s.flags.rest := by
  cases i with
  | pop dst => cases dst <;> rfl
  | mov src dst => cases dst <;> rfl
  | _ => rfl

theorem step_rest (h : step c s = some s') : s'.flags.rest = s.flags.rest := by
  obtain ⟨⟨i, next⟩, -, rfl⟩ := Option.map_eq_some_iff.mp h
  cases i with
  | push | pushfl | pop | mov | cmp | sti => exact effect_rest _ s
  | _ => rfl

/-- The bits of the flags that stay as they are, whatever runs. -/
theorem reaches_rest (h : Reaches c s s') : s'.flags.rest = s.flags.rest := by
  induction h with
  | refl => rfl
  | tail _ hlast ih => exact (step_rest hlast).trans ih

end

/-! ## Runs that stop -/

/-- Running from `s` the machine stops in `t`. -/
def Stops (c : Code) (s t : State) : Prop := t ∈ StateTransition.eval (step c) s

/-- The code with a hole in place of each instruction that is not `P`. -/
def only (P : Instr → Bool) (c : Code) : Code := fun a => (c a).filter fun p => P p.1

section
variable {P Q : Instr → Bool} {c : Code} {s t t' : State} {a b next : UInt32} {i : Instr} {is : List Instr}

theorem Stops.unique (h : Stops c s t) (h' : Stops c s t') : t = t' := Part.mem_unique h h'

theorem only_eq_some : only P c a = some (i, next) ↔ c a = some (i, next) ∧ P i = true := Option.filter_eq_some_iff

theorem At.only (h : At c a is b) (hp : ∀ i ∈ is, P i = true) : At (only P c) a is b := by
  induction is generalizing a with
  | nil => exact h
  | cons i is ih =>
    obtain ⟨next, hi, h⟩ := at_cons.mp h
    have hi' := only_eq_some.mpr ⟨hi, hp i List.mem_cons_self⟩
    exact at_cons.mpr ⟨next, hi', ih h fun j hj => hp j (List.mem_cons_of_mem _ hj)⟩

theorem step_only (hpq : ∀ i, P i = true → Q i = true) (h : step (only P c) s = some t) :
    step (only Q c) s = some t := by
  obtain ⟨⟨i, next⟩, hi, rfl⟩ := Option.map_eq_some_iff.mp h
  obtain ⟨hi, hp⟩ := only_eq_some.mp hi
  rw [step, only_eq_some.mpr ⟨hi, hpq i hp⟩]
  rfl

theorem reaches_only (hpq : ∀ i, P i = true → Q i = true) (h : Reaches (only P c) s t) : Reaches (only Q c) s t := by
  induction h with
  | refl => exact Relation.ReflTransGen.refl
  | tail _ hlast ih => exact ih.tail (step_only hpq hlast)

theorem stops_at (h : Reaches (only P c) s t) (ht : c t.eip = some (i, next)) (hi : P i = false) : Stops (only P c) s t := by
  apply StateTransition.mem_eval.mpr
  refine ⟨h, ?_⟩
  rw [step, only, ht, Option.filter_some, hi]
  rfl

end

/-! ## Functions -/

/-- From its first instruction in `s` a function has come back to its caller with the value `v`. It has kept the stack of the
caller, which ends at `top`, but for the `n` words of its arguments: these are its own. -/
structure Returned (n : Nat) (top : UInt32) (s s' : State) (v : UInt32) : Prop where
  eip : s'.eip = s.top
  eax : s'.reg .eax = v
  esp : s'.reg .esp = s.reg .esp + 4
  saved : ∀ r ∈ [Reg.ebx, .ebp, .esi, .edi], s'.reg r = s.reg r
  seg : s'.seg = s.seg
  sysenterCs : s'.sysenterCs = s.sysenterCs
  stack : let behind := s.reg .esp + 4 + 4 * .ofNat n
    ∀ b, (b - behind).toNat < (top - behind).toNat → s'.mem b = s.mem b

/-- The words of the caller behind the arguments. -/
theorem Returned.words {n : Nat} {top a v : UInt32} {s s' : State} {ws : List UInt32} (h : Returned n top s s' v)
    (ha : s.reg .esp + 4 + 4 * .ofNat n = a) (hlen : 4 * ws.length ≤ (top - a).toNat) (hw : Words s.mem a ws) :
    Words s'.mem a ws := by
  intro i hi
  have htop := (top - a).toNat_lt
  have hword := word_offset (i := i) (by omega)
  rw [← hw i hi]
  apply load_congr
  intro k hk
  apply h.stack
  rw [ha, UInt32.add_assoc, add_sub_self, offset_add (by omega), hword]
  omega

/-- The code at `f` is a function without arguments that returns `v`, by the calling convention of C. -/
def Returns (c : Code) (f v : UInt32) : Prop :=
  ∀ s, s.eip = f → ∃ s', Reaches c s s' ∧ Returned 0 (s.reg .esp + 4096) s s' v

/-- From the first instruction of the function back to its caller. -/
theorem Returns.back {c : Code} {f v ret : UInt32} {s : State} {ws : List UInt32} (hf : Returns c f v) (heip : s.eip = f)
    (hw : Words s.mem (s.reg .esp) (ret :: ws)) (hlen : ws.length < 1024) : ∃ s', Reaches c s s' ∧ s'.eip = ret ∧
      s'.reg .eax = v ∧ s'.reg .esp = s.reg .esp + 4 ∧ s'.sysenterCs = s.sysenterCs ∧
      Words s'.mem (s.reg .esp + 4) ws := by
  obtain ⟨s', hrun, hret⟩ := hf s heip
  obtain ⟨htop, hw⟩ := words_cons.mp hw
  have hroom : s.reg .esp + 4096 - (s.reg .esp + 4) = 4092 := by grind
  refine ⟨s', hrun, hret.eip.trans htop, hret.eax, hret.esp, hret.sysenterCs, ?_⟩
  apply hret.words (by simp) _ hw
  simp only [hroom, UInt32.reduceToNat]
  omega

theorem Returns.call {c : Code} {f v next : UInt32} {s : State} {ws : List UInt32} (hf : Returns c f v)
    (hw : Words s.mem (s.reg .esp) ws) (hlen : ws.length < 1024) : ∃ s', Reaches c ((s.push next).goto f) s' ∧
      s'.eip = next ∧ s'.reg .eax = v ∧ s'.reg .esp = s.reg .esp ∧ s'.sysenterCs = s.sysenterCs ∧
      Words s'.mem (s.reg .esp) ws := by
  have hpush := hw.push (v := next) (by omega)
  have hup : s.reg .esp - 4 + 4 = s.reg .esp := UInt32.sub_add_cancel ..
  have hback := hf.back (s := (s.push next).goto f) rfl (by simpa using hpush) hlen
  simpa [hup] using hback

theorem returns_const {c : Code} {f v b : UInt32} (h : At c f [.mov (.imm v) (.reg .eax), .ret] b) : Returns c f v := by
  rintro s rfl
  have h : At c s.eip ([.mov (.imm v) (.reg .eax)] ++ [.ret]) b := h
  obtain ⟨d, h1, h2⟩ := at_append.mp h
  obtain ⟨next, hret, -⟩ := at_cons.mp h2
  refine ⟨((s.setReg .eax v).goto d).drop.goto s.top, ?_, ?_⟩
  · apply (reaches_block h1 (by simp [Instr.straight])).trans
    apply reaches_exec (s := ((s.setReg .eax v).goto d)) hret
    exact Relation.ReflTransGen.refl
  · refine ⟨rfl, by simp, by simp, fun r hr => ?_, rfl, rfl, fun _ _ => rfl⟩
    have h1 : r ≠ .eax := by
      rintro rfl
      simp at hr
    have h2 : r ≠ .esp := by
      rintro rfl
      simp at hr
    simp [h1, h2]

end X86
