import ZeosSOA.Pparri.Entry
import ZeosSOA.SystemCall

/-!
# zeOSpparri: wrappers.S

Each wrapper makes its system call by itself: it keeps the registers that the kernel gives back changed, leaves the place to
come back to and its frame pointer on the stack, and goes into the kernel. The error it puts into `errno` is the complement
of the value, and so one less than the kernel's.
-/

namespace ZeosSOA.Pparri

open X86 Gate

/-! ## The code -/

/-- What the wrappers differ in. -/
structure Wrapper where
  number : UInt32
  /-- The registers on the stack, and whether the number comes before them. -/
  saved : List Reg
  numberFirst : Bool
  args : Nat
  /-- `movl %ebp, %esp` behind `sysenter`. -/
  resetsEsp : Bool
  checked : Bool
  /-- The function of the kernel that it is for. -/
  sysFunction : SysFunction

structure WrapperLabels where
  retadress : UInt32
  tratError : UInt32
  errno : UInt32

namespace Wrapper

/-- The arguments on the stack, and the registers they go to. -/
def argMoves : List Instr :=
  [.mov (.mem 8 .ebp) (.reg .edx), .mov (.mem 12 .ebp) (.reg .ecx), .mov (.mem 16 .ebp) (.reg .ebx)]

/-- The wrapper up to the arguments. -/
def saves (w : Wrapper) : List Instr :=
  [.push (.reg .ebp), .mov (.reg .esp) (.reg .ebp)] ++ (if w.numberFirst then [.mov (.imm w.number) (.reg .eax)] else []) ++
    w.saved.map (fun r => .push (.reg r)) ++ (if w.numberFirst then [] else [.mov (.imm w.number) (.reg .eax)])

/-- The wrapper up to `SYSENTER`. -/
def entry (w : Wrapper) (l : WrapperLabels) : List Instr :=
  w.saves ++ argMoves.take w.args ++ [.push (.imm l.retadress), .push (.reg .ebp), .mov (.reg .esp) (.reg .ebp)]

def pops (w : Wrapper) : List Op :=
  (if w.resetsEsp then [.plain (.mov (.reg .ebp) (.reg .esp))] else []) ++ [.plain (.pop (.reg .ebp)), .add 4 .esp] ++
    w.saved.reverse.map fun r => .plain (.pop (.reg r))

def leave : List Op := [.plain (.mov (.reg .ebp) (.reg .esp)), .plain (.pop (.reg .ebp)), .plain .ret]

/-- What comes behind `SYSENTER`. -/
def exit (w : Wrapper) (l : WrapperLabels) : List Op :=
  w.pops ++ (if w.checked then [.plain (.cmp (.imm 0) (.reg .eax)), .plain (.jl l.tratError)] else []) ++ leave

/-- `trat_error` of the wrappers that check. -/
def tratError (l : WrapperLabels) : List Op :=
  [.not .eax, .movAbs .eax l.errno, .plain (.mov (.imm 0xffffffff) (.reg .eax)), .add 8 .esp] ++ leave

end Wrapper

namespace Wrappers

def write : Wrapper := ⟨4, [.ebx, .ecx, .edx], false, 3, false, true, .sysWrite⟩

def gettime : Wrapper := ⟨10, [.ecx, .edx], true, 0, true, false, .sysGettime⟩

def getpid : Wrapper := ⟨20, [.ecx, .edx], true, 0, false, true, .sysGetpid⟩

def fork : Wrapper := ⟨2, [.ecx, .edx], true, 0, false, true, .sysFork⟩

def exit : Wrapper := ⟨1, [.ecx, .edx], true, 0, false, false, .sysExit⟩

def block : Wrapper := ⟨12, [.ecx, .edx], true, 0, false, false, .sysBlock⟩

def unblock : Wrapper := ⟨13, [.ecx, .edx], true, 1, false, true, .sysUnblock⟩

def all : List Wrapper := [write, gettime, getpid, fork, exit, block, unblock]

end Wrappers

/-- The number of a wrapper is that of its function in the kernel's table. -/
theorem wrapper_entry : ∀ w ∈ Wrappers.all, w.args ≤ 3 ∧ (w.saved = [.ecx, .edx] ∧ w.args ≤ 1 ∨ w.saved = [.ebx, .ecx, .edx]) ∧
    sysCallTable[w.number.toNat]? = some w.sysFunction := by
  decide

/-- The code of a wrapper lies in memory, from `a` on. -/
structure WrapperPlaced (c : Op.Code) (w : Wrapper) (l : WrapperLabels) (a : UInt32) : Prop where
  entry : Op.At c a ((w.entry l).map .plain ++ [.sysenter]) l.retadress
  exit : ∃ b, Op.At c l.retadress (w.exit l) b
  tratError : w.checked = true → ∃ b, Op.At c l.tratError (Wrapper.tratError l) b

namespace Wrapper

/-- The words that the wrapper saves, the last one first. -/
def words (w : Wrapper) (s : State) : List UInt32 := (w.saved.map s.reg).reverse ++ [s.reg .ebp]

/-- The words between the stack of the caller and that of the kernel's return. -/
def depth (w : Wrapper) : Nat := w.saved.length + 3

/-- The value for the program, and what becomes of memory: a negative value is an error. -/
def value (w : Wrapper) (v : UInt32) : UInt32 := if w.checked && negative v then 0xffffffff else v

def errnoStored (w : Wrapper) (l : WrapperLabels) (v : UInt32) (m : Memory) : Memory :=
  if w.checked && negative v then store m l.errno (~~~v) else m

section
variable {w : Wrapper} {l : WrapperLabels} {s : State} {as rest : List UInt32} {ret : UInt32}

theorem saves_block (hs : w.saved = [.ecx, .edx] ∨ w.saved = [.ebx, .ecx, .edx]) (s : State) :
    let t := block w.saves s
    t.reg .eax = w.number ∧ t.reg .ebp = s.reg .esp - 4 ∧ (∀ r ∉ [Reg.eax, .ebp, .esp], t.reg r = s.reg r) ∧
      t.seg = s.seg ∧ t.sysenterCs = s.sysenterCs ∧
      ∃ t', Pushed s t' (w.words s) ∧ t.reg .esp = t'.reg .esp ∧ t.mem = t'.mem := by
  have htwo := (((Pushed.refl s).push (s.reg .ebp)).push (s.reg .ecx)).push (s.reg .edx)
  have hthree := ((((Pushed.refl s).push (s.reg .ebp)).push (s.reg .ebx)).push (s.reg .ecx)).push (s.reg .edx)
  rcases hs with hs | hs
  · have hwords : w.words s = [s.reg .edx, s.reg .ecx, s.reg .ebp] := by simp [words, hs]
    rw [hwords]
    cases hn : w.numberFirst <;> simp only [saves, hs, hn]
    all_goals
      refine ⟨?_, ?_, fun r hr => ?_, rfl, rfl, _, htwo, ?_, ?_⟩
      · simp [Instr.effect]
      · simp [Instr.effect]
      · simp only [List.mem_cons, List.not_mem_nil, or_false, not_or] at hr
        simp [Instr.effect, hr]
      · simp [Instr.effect]
      · simp [Instr.effect]
  · have hwords : w.words s = [s.reg .edx, s.reg .ecx, s.reg .ebx, s.reg .ebp] := by simp [words, hs]
    rw [hwords]
    cases hn : w.numberFirst <;> simp only [saves, hs, hn]
    all_goals
      refine ⟨?_, ?_, fun r hr => ?_, rfl, rfl, _, hthree, ?_, ?_⟩
      · simp [Instr.effect]
      · simp [Instr.effect]
      · simp only [List.mem_cons, List.not_mem_nil, or_false, not_or] at hr
        simp [Instr.effect, hr]
      · simp [Instr.effect]
      · simp [Instr.effect]

/-- The arguments come into their registers. -/
theorem argMoves_block (has : as.length ≤ 3) (hw : Words s.mem (s.reg .ebp + 8) (as ++ rest)) :
    let t := block (argMoves.take as.length) s
    [t.reg .edx, t.reg .ecx, t.reg .ebx].take as.length = as ∧ (∀ r ∉ [Reg.ebx, .ecx, .edx], t.reg r = s.reg r) ∧
      (as.length ≤ 1 → t.reg .ebx = s.reg .ebx) ∧ t.seg = s.seg ∧ t.sysenterCs = s.sysenterCs ∧ t.mem = s.mem := by
  match as, has with
  | [], _ => exact ⟨rfl, fun _ _ => rfl, fun _ => rfl, rfl, rfl, rfl⟩
  | [a1], _ =>
    simp only [List.cons_append, words_cons] at hw
    refine ⟨?_, fun r hr => ?_, fun _ => ?_, rfl, rfl, rfl⟩
    · simp [argMoves, Instr.effect, State.read, hw.1]
    · simp only [List.mem_cons, List.not_mem_nil, or_false, not_or] at hr
      simp [argMoves, Instr.effect, hr]
    · simp [argMoves, Instr.effect]
  | [a1, a2], _ =>
    simp only [List.cons_append, words_cons, UInt32.add_assoc] at hw
    refine ⟨?_, fun r hr => ?_, fun h => ?_, rfl, rfl, rfl⟩
    · simpa [argMoves, Instr.effect, State.read] using ⟨hw.1, hw.2.1⟩
    · simp only [List.mem_cons, List.not_mem_nil, or_false, not_or] at hr
      simp [argMoves, Instr.effect, hr]
    · simp at h
  | [a1, a2, a3], _ =>
    simp only [List.cons_append, words_cons, UInt32.add_assoc] at hw
    refine ⟨?_, fun r hr => ?_, fun h => ?_, rfl, rfl, rfl⟩
    · simpa [argMoves, Instr.effect, State.read] using ⟨hw.1, hw.2.1, hw.2.2.1⟩
    · simp only [List.mem_cons, List.not_mem_nil, or_false, not_or] at hr
      simp [argMoves, Instr.effect, hr]
    · simp at h

theorem words_length (w : Wrapper) (s : State) : (w.words s).length + 2 = w.depth := by
  rw [words, depth, List.length_append, List.length_reverse, List.length_map]
  rfl

/-- The program that called the wrapper in `s` is at `SYSENTER` in `t`. -/
structure AtGate (w : Wrapper) (l : WrapperLabels) (ret : UInt32) (as : List UInt32) (s t : State) : Prop where
  eax : t.reg .eax = w.number
  args : [t.reg .edx, t.reg .ecx, t.reg .ebx].take w.args = as
  ebp : t.reg .ebp = t.reg .esp
  esi : t.reg .esi = s.reg .esi
  edi : t.reg .edi = s.reg .edi
  ebx : w.args ≤ 1 → t.reg .ebx = s.reg .ebx
  seg : t.seg = s.seg
  sysenterCs : t.sysenterCs = s.sysenterCs
  esp : t.reg .esp = s.reg .esp - 4 * .ofNat w.depth
  words : Words t.mem (t.reg .esp) ((s.reg .esp - 4) :: l.retadress :: (w.words s ++ ret :: as))
  other : ∀ b, 4 * w.depth ≤ (b - t.reg .esp).toNat → t.mem b = s.mem b

/-- At `SYSENTER` the arguments are in their registers. -/
theorem entry_block (hs : w.saved = [.ecx, .edx] ∨ w.saved = [.ebx, .ecx, .edx]) (hargs : w.args ≤ 3)
    (has : as.length = w.args) (hw : Words s.mem (s.reg .esp) (ret :: as)) :
    AtGate w l ret as s (block (w.entry l) s) := by
  obtain ⟨heax, hebp, hreg, hseg, hcs, t', hpush, hesp, hmem⟩ := saves_block hs s
  have hk := words_length w s
  have hsmall : w.depth ≤ 6 := by
    rcases hs with hs | hs <;> simp [depth, hs]
  have hlast := (hpush.push l.retadress).push (s.reg .esp - 4)
  have hlen : (w.words s).length + 2 + (ret :: as).length < 2 ^ 30 := by
    rw [hk, List.length_cons, has]
    omega
  have hwords := hlast.words _ (by simpa using hlen) hw
  have hother := hlast.other
  have hdown := hlast.esp
  rw [List.length_cons, List.length_cons, hk] at hother hdown
  have hargw : Words (block w.saves s).mem ((block w.saves s).reg .ebp + 8) (as ++ []) := by
    have hfirst := hpush.words _ (by omega) hw
    have hcons : w.words s ++ ret :: as = (w.words s ++ [ret]) ++ as := by simp
    rw [hcons] at hfirst
    have hup : (block w.saves s).reg .ebp + 8 = t'.reg .esp + 4 * .ofNat (w.words s ++ [ret]).length := by
      have hone : UInt32.ofNat [ret].length = 1 := rfl
      rw [hebp, hpush.esp, List.length_append, UInt32.ofNat_add, hone]
      generalize UInt32.ofNat (w.words s).length = k
      grind
    rw [hmem, hup, List.append_nil]
    exact (words_append.mp hfirst).2
  have hsplit : block (w.entry l) s = block [.push (.imm l.retadress), .push (.reg .ebp), .mov (.reg .esp) (.reg .ebp)]
      (block (argMoves.take as.length) (block w.saves s)) := by
    rw [entry, block_append, block_append, has]
  rw [hsplit]
  generalize block w.saves s = t at *
  obtain ⟨h1, h2, h3, h4, h5, h6⟩ := argMoves_block (has.trans_le hargs) hargw
  generalize block (argMoves.take as.length) t = t1 at *
  have hebp1 : t1.reg .ebp = s.reg .esp - 4 := by rw [h2 .ebp (by decide), hebp]
  have hesp1 : t1.reg .esp = t'.reg .esp := by rw [h2 .esp (by decide), hesp]
  have hmem1 : t1.mem = t'.mem := h6.trans hmem
  have hespL : (block [.push (.imm l.retadress), .push (.reg .ebp), .mov (.reg .esp) (.reg .ebp)] t1).reg .esp =
      ((t'.push l.retadress).push (s.reg .esp - 4)).reg .esp := by
    simp [Instr.effect, hesp1]
  have hmemL : (block [.push (.imm l.retadress), .push (.reg .ebp), .mov (.reg .esp) (.reg .ebp)] t1).mem =
      ((t'.push l.retadress).push (s.reg .esp - 4)).mem := by
    simp [Instr.effect, hesp1, hmem1, hebp1]
  constructor
  case eax => simp [Instr.effect, h2, heax]
  case args =>
    rw [← has]
    simpa [Instr.effect] using h1
  case ebp => simp [Instr.effect]
  case esi => simp [Instr.effect, h2, hreg]
  case edi => simp [Instr.effect, h2, hreg]
  case ebx =>
    intro h0
    simp [Instr.effect, h3 (by rw [has]; exact h0), hreg]
  case seg => exact h4.trans hseg
  case sysenterCs => exact h5.trans hcs
  case esp => rw [hespL, hdown]
  case words =>
    rw [hespL, hmemL]
    simpa using hwords
  case other =>
    rw [hespL, hmemL]
    exact hother

end

/-- The program that called the wrapper in `s` goes on in `z`, from behind `SYSENTER` in `q` on. -/
structure Left (w : Wrapper) (l : WrapperLabels) (s : State) (v ret : UInt32) (q z : Cpu) : Prop where
  eip : z.state.eip = ret
  esp : z.state.reg .esp = s.reg .esp + 4
  eax : z.state.reg .eax = w.value v
  ebp : z.state.reg .ebp = s.reg .ebp
  saved : ∀ r ∈ w.saved, z.state.reg r = s.reg r
  reg : ∀ r ∉ [Reg.eax, .esp, .ebp] ++ w.saved, z.state.reg r = q.state.reg r
  seg : z.state.seg = q.state.seg
  mem : z.state.mem = w.errnoStored l v q.state.mem
  sysenterCs : z.state.sysenterCs = q.state.sysenterCs
  sysenterEsp : z.sysenterEsp = q.sysenterEsp
  sysenterEip : z.sysenterEip = q.sysenterEip

section
variable {c : Op.Code} {w : Wrapper} {l : WrapperLabels} {s : State} {q : Cpu} {as ws : List UInt32} {ret a b x e v : UInt32}

theorem saved_registers (hs : w.saved = [.ecx, .edx] ∨ w.saved = [.ebx, .ecx, .edx]) :
    (∀ o ∈ w.saved.reverse.map Operand.reg, o.register = true) ∧ (w.saved.reverse.map Operand.reg).Nodup ∧
      Reg.eax ∉ w.saved ∧ Reg.ebp ∉ w.saved ∧ Reg.esp ∉ w.saved ∧ Reg.ecx ∈ w.saved ∧ Reg.edx ∈ w.saved ∧
      Reg.esi ∉ w.saved ∧ Reg.edi ∉ w.saved := by
  rcases hs with hs | hs <;> rw [hs] <;> decide

/-- The frame pointer comes off the stack, and the place to come back to with it. -/
theorem reaches_frame {os : List Op} (hebp : q.state.reg .ebp = q.state.reg .esp)
    (h : Op.At c q.state.eip ((if w.resetsEsp then [.plain (.mov (.reg .ebp) (.reg .esp))] else []) ++
      ([.plain (.pop (.reg .ebp)), .add 4 .esp] ++ os)) b) (hw : Words q.state.mem (q.state.reg .esp) (e :: x :: ws)) :
    ∃ t, Op.Reaches c q (q.withState t) ∧ Op.At c t.eip os b ∧ t.reg .ebp = e ∧ Words t.mem (t.reg .esp) ws ∧
      (∀ r ∉ [Reg.esp, .ebp], t.reg r = q.state.reg r) ∧ t.seg = q.state.seg ∧ t.mem = q.state.mem ∧
      t.sysenterCs = q.state.sysenterCs := by
  obtain ⟨y, hy, hyseg, hymem, hycs, hrun, h⟩ : ∃ y : State, y.reg = q.state.reg ∧ y.seg = q.state.seg ∧
      y.mem = q.state.mem ∧ y.sysenterCs = q.state.sysenterCs ∧ Op.Reaches c q (q.withState y) ∧
      Op.At c y.eip ([.plain (.pop (.reg .ebp)), .add 4 .esp] ++ os) b := by
    cases hreset : w.resetsEsp with
    | false =>
      rw [hreset] at h
      exact ⟨q.state, rfl, rfl, rfl, rfl, Relation.ReflTransGen.refl, h⟩
    | true =>
      rw [hreset] at h
      obtain ⟨d, hmov, h⟩ := Op.at_cons.mp h
      refine ⟨(q.state.setReg .esp (q.state.reg .esp)).goto d, ?_, rfl, rfl, rfl, ?_, h⟩
      · funext r
        by_cases hr : r = .esp <;> simp [hr]
      · apply Op.reaches_exec hmov
        rw [← hebp]
        exact Relation.ReflTransGen.refl
  rw [List.cons_append, List.cons_append, List.nil_append] at h
  obtain ⟨d, hpop, h⟩ := Op.at_cons.mp h
  obtain ⟨d', hadd, h⟩ := Op.at_cons.mp h
  rw [← hy, ← hymem] at hw
  simp only [words_cons] at hw
  obtain ⟨z, hz⟩ : ∃ z, z = (Op.add 4 .esp).exec d' ((Op.plain (.pop (.reg .ebp))).exec d (q.withState y)) := ⟨_, rfl⟩
  have hstate : z = q.withState z.state := by rw [hz]; rfl
  refine ⟨z.state, ?_, ?_, ?_, ?_, fun r hr => ?_, ?_, ?_, ?_⟩
  · rw [← hstate, hz]
    apply hrun.trans
    apply Op.reaches_exec hpop
    apply Op.reaches_exec hadd
    exact Relation.ReflTransGen.refl
  · rw [hz]
    exact h
  · simpa [hz, Cpu.withState, Instr.effect, State.setFlags, State.top] using hw.1
  · simpa [hz, Cpu.withState, Instr.effect, State.setFlags] using hw.2.2
  · simp only [List.mem_cons, List.not_mem_nil, or_false, not_or] at hr
    simp [hz, Cpu.withState, Instr.effect, State.setFlags, hr, hy]
  · rw [hz]
    exact hyseg
  · rw [hz]
    exact hymem
  · rw [hz]
    exact hycs

/-- `movl %ebp, %esp`, and the end of the function. -/
theorem reaches_leave (h : Op.At c q.state.eip leave b) (hw : Words q.state.mem (q.state.reg .ebp) (x :: ret :: ws)) :
    ∃ t, Op.Reaches c q (q.withState t) ∧ t.eip = ret ∧ t.reg .esp = q.state.reg .ebp + 8 ∧ t.reg .ebp = x ∧
      (∀ r ∉ [Reg.esp, .ebp], t.reg r = q.state.reg r) ∧ t.seg = q.state.seg ∧ t.mem = q.state.mem ∧
      t.sysenterCs = q.state.sysenterCs := by
  obtain ⟨d, hmov, h⟩ := Op.at_cons.mp h
  obtain ⟨t, hrun, heip, hesp, hebp, hreg, hseg, hmem, hcs⟩ := Op.reaches_leave
    (x := q.withState ((q.state.setReg .esp (q.state.reg .ebp)).goto d)) h (by simpa [Cpu.withState] using hw)
  refine ⟨t, ?_, heip, ?_, hebp, fun r hr => ?_, hseg, hmem, hcs⟩
  · apply Op.reaches_exec hmov
    exact hrun
  · simpa [Cpu.withState] using hesp
  · have hkept := hreg r hr
    simp only [List.mem_cons, List.not_mem_nil, or_false, not_or] at hr
    simpa [Cpu.withState, hr] using hkept

/-- A negative value goes to `errno` with all its bits changed. -/
theorem reaches_tratError (h : Op.At c q.state.eip (tratError l) b)
    (hw : Words (store q.state.mem l.errno (~~~q.state.reg .eax)) (q.state.reg .ebp) (x :: ret :: ws)) :
    ∃ t, Op.Reaches c q (q.withState t) ∧ t.eip = ret ∧ t.reg .eax = 0xffffffff ∧ t.reg .esp = q.state.reg .ebp + 8 ∧
      t.reg .ebp = x ∧ (∀ r ∉ [Reg.eax, .esp, .ebp], t.reg r = q.state.reg r) ∧ t.seg = q.state.seg ∧
      t.mem = store q.state.mem l.errno (~~~q.state.reg .eax) ∧ t.sysenterCs = q.state.sysenterCs := by
  obtain ⟨a1, hnot, h⟩ := Op.at_cons.mp h
  obtain ⟨a2, hstore, h⟩ := Op.at_cons.mp h
  obtain ⟨a3, hmov, h⟩ := Op.at_cons.mp h
  obtain ⟨a4, hadd, h⟩ := Op.at_cons.mp h
  obtain ⟨y, hy⟩ : ∃ y, y = (Op.add 8 .esp).exec a4 ((Op.plain (.mov (.imm 0xffffffff) (.reg .eax))).exec a3
    ((Op.movAbs .eax l.errno).exec a2 ((Op.not .eax).exec a1 q))) := ⟨_, rfl⟩
  have hrun : Op.Reaches c q y := by
    apply Op.reaches_exec hnot
    apply Op.reaches_exec hstore
    apply Op.reaches_exec hmov
    apply Op.reaches_exec hadd
    rw [hy]
  have hstate : y = q.withState y.state := by rw [hy]; rfl
  have heax : y.state.reg .eax = 0xffffffff := by
    simp [hy, Cpu.withState, Instr.effect, State.setFlags]
  have hreg : ∀ r, r ≠ .eax → r ≠ .esp → y.state.reg r = q.state.reg r := by
    intro r hr hr'
    simp [hy, Cpu.withState, Instr.effect, State.setFlags, hr, hr']
  have hmem : y.state.mem = store q.state.mem l.errno (~~~q.state.reg .eax) := by
    simp [hy, Cpu.withState, Instr.effect, State.setFlags]
  have hseg : y.state.seg = q.state.seg := by rw [hy]; rfl
  have hcs : y.state.sysenterCs = q.state.sysenterCs := by rw [hy]; rfl
  have heip : y.state.eip = a4 := by rw [hy]; rfl
  rw [← heip] at h
  rw [← hmem, ← hreg .ebp (by decide) (by decide)] at hw
  obtain ⟨t, hleave, hteip, htesp, htebp, htreg, htseg, htmem, htcs⟩ := reaches_leave h hw
  rw [hstate] at hleave hrun
  refine ⟨t, hrun.trans hleave, hteip, ?_, ?_, htebp, fun r hr => ?_, htseg.trans hseg, htmem.trans hmem, htcs.trans hcs⟩
  · rw [htreg .eax (by decide), heax]
  · rw [htesp, hreg .ebp (by decide) (by decide)]
  · simp only [List.mem_cons, List.not_mem_nil, or_false, not_or] at hr
    rw [htreg r (by simp [hr]), hreg r hr.1 hr.2.1]

theorem signed_neg (v : UInt32) : signed v < 0 ↔ negative v = true := by
  rw [signed]
  have hlt := v.toNat_lt
  by_cases h : negative v = true
  · simp only [h, if_true, iff_true]
    omega
  · simp only [h]
    simp

/-- In `t` the saved registers are off the stack, and `ebp` has the place where that of the program is. -/
structure Popped (w : Wrapper) (s : State) (v : UInt32) (q : Cpu) (t : State) : Prop where
  ebp : t.reg .ebp = s.reg .esp - 4
  eax : t.reg .eax = v
  saved : ∀ r ∈ w.saved, t.reg r = s.reg r
  reg : ∀ r ∉ [Reg.esp, .ebp] ++ w.saved, t.reg r = q.state.reg r
  seg : t.seg = q.state.seg
  mem : t.mem = q.state.mem
  sysenterCs : t.sysenterCs = q.state.sysenterCs

theorem Popped.compared {t : State} (h : Popped w s v q t) (f : Flags) (a : UInt32) :
    Popped w s v q ((t.setFlags f).goto a) := ⟨h.ebp, h.eax, h.saved, h.reg, h.seg, h.mem, h.sysenterCs⟩

theorem reaches_popped {os : List Op} (hs : w.saved = [.ecx, .edx] ∨ w.saved = [.ebx, .ecx, .edx])
    (h : Op.At c q.state.eip (w.pops ++ os) b) (heax : q.state.reg .eax = v) (hebp : q.state.reg .ebp = q.state.reg .esp)
    (hw : Words q.state.mem (q.state.reg .esp) ((s.reg .esp - 4) :: x :: (w.words s ++ ws))) :
    ∃ t, Op.Reaches c q (q.withState t) ∧ Op.At c t.eip os b ∧ Popped w s v q t := by
  obtain ⟨hregs, hnodup, hnax, hnbp, hnsp, -, -, -, -⟩ := saved_registers hs
  rw [pops, List.append_assoc, List.append_assoc] at h
  obtain ⟨t1, hrun1, h, hebp1, hw1, hreg1, hseg1, hmem1, hcs1⟩ := reaches_frame hebp h hw
  obtain ⟨d, hpops, h⟩ := Op.at_append.mp h
  have hpops : Op.At c (q.withState t1).state.eip ((w.saved.reverse.map fun r => Instr.pop (.reg r)).map .plain) d := by
    rw [List.map_map]
    exact hpops
  have hstraight : ∀ i ∈ w.saved.reverse.map fun r => Instr.pop (.reg r), i.straight = true := by
    intro i hi
    obtain ⟨r, -, rfl⟩ := List.mem_map.mp hi
    rfl
  have hrun2 : Op.Reaches c q (q.withState ((block (w.saved.reverse.map (Instr.pop ∘ Operand.reg)) t1).goto d)) :=
    hrun1.trans (Op.reaches_block hpops hstraight)
  have hread : (w.saved.reverse.map Operand.reg).map s.read = (w.saved.map s.reg).reverse := by
    rw [List.map_map, ← List.map_reverse]
    rfl
  rw [words, List.append_assoc, ← hread] at hw1
  obtain ⟨hgot, hreg2, hseg2, -, hmem2, -, hcs2, -⟩ := pop_block hregs hnodup hw1
  rw [List.map_map] at hgot hreg2 hseg2 hmem2 hcs2
  generalize block (w.saved.reverse.map (Instr.pop ∘ Operand.reg)) t1 = t2 at *
  have hkept : ∀ r, r ≠ .esp → r ∉ w.saved → t2.reg r = t1.reg r := by
    intro r hr hnot
    apply hreg2 r hr
    intro hm
    obtain ⟨r', hr', he⟩ := List.mem_map.mp hm
    rw [Operand.reg.inj he] at hr'
    exact hnot (List.mem_reverse.mp hr')
  refine ⟨t2.goto d, hrun2, h, ?_, ?_, fun r hr => ?_, fun r hr => ?_, ?_, hmem2.trans hmem1, hcs2.trans hcs1⟩
  · exact (hkept .ebp (by decide) hnbp).trans hebp1
  · exact (hkept .eax (by decide) hnax).trans ((hreg1 .eax (by decide)).trans heax)
  · exact hgot (.reg r) (List.mem_map.mpr ⟨r, List.mem_reverse.mpr hr, rfl⟩)
  · simp only [List.mem_append, List.mem_cons, List.not_mem_nil, or_false, not_or] at hr
    exact (hkept r hr.1.1 hr.2).trans (hreg1 r (by simp [hr]))
  · rw [← hseg1]
    funext g
    apply hseg2
    simp

/-- Without an error. -/
theorem Popped.leaves {t : State} (h : Popped w s v q t) (hsp : Reg.esp ∉ w.saved) (hbp : Reg.ebp ∉ w.saved)
    (hrun : Op.Reaches c q (q.withState t)) (hat : Op.At c t.eip leave b)
    (hstack : Words q.state.mem (s.reg .esp - 4) (s.reg .ebp :: ret :: ws)) (hok : (w.checked && negative v) = false) :
    ∃ z, Op.Reaches c q z ∧ w.Left l s v ret q z := by
  obtain ⟨z, hlast, heip, hesp, hzbp, hz, hzseg, hzmem, hzcs⟩ := reaches_leave (q := q.withState t) hat
    (by simpa [Cpu.withState, h.ebp, h.mem] using hstack)
  have hup : s.reg .esp - 4 + 8 = s.reg .esp + 4 := by grind
  have hesp : z.reg .esp = t.reg .ebp + 8 := hesp
  have hz : ∀ r ∉ [Reg.esp, .ebp], z.reg r = t.reg r := hz
  have hzmem : z.mem = t.mem := hzmem
  refine ⟨q.withState z, hrun.trans hlast, heip, ?_, ?_, hzbp, fun r hr => ?_, fun r hr => ?_, hzseg.trans h.seg, ?_,
    hzcs.trans h.sysenterCs, rfl, rfl⟩
  · exact hesp.trans (by rw [h.ebp, hup])
  · rw [value, hok]
    exact (hz .eax (by decide)).trans h.eax
  · refine (hz r fun hm => ?_).trans (h.saved r hr)
    simp only [List.mem_cons, List.not_mem_nil, or_false] at hm
    rcases hm with rfl | rfl
    · exact hsp hr
    · exact hbp hr
  · simp only [List.mem_append, List.mem_cons, List.not_mem_nil, or_false, not_or] at hr
    exact (hz r (by simp [hr])).trans (h.reg r (by simp [hr]))
  · rw [errnoStored, hok]
    exact hzmem.trans h.mem

/-- With an error: `errno` is the complement of the value, and the program gets -1. -/
theorem Popped.fails {t : State} (h : Popped w s v q t) (hax : Reg.eax ∉ w.saved) (hsp : Reg.esp ∉ w.saved)
    (hbp : Reg.ebp ∉ w.saved) (hrun : Op.Reaches c q (q.withState t)) (hat : Op.At c t.eip (tratError l) b)
    (herrno : Words (store q.state.mem l.errno (~~~v)) (s.reg .esp - 4) (s.reg .ebp :: ret :: ws))
    (herr : (w.checked && negative v) = true) : ∃ z, Op.Reaches c q z ∧ w.Left l s v ret q z := by
  obtain ⟨z, hlast, heip, hzax, hesp, hzbp, hz, hzseg, hzmem, hzcs⟩ := reaches_tratError (q := q.withState t) hat
    (by simpa [Cpu.withState, h.eax, h.ebp, h.mem] using herrno)
  have hup : s.reg .esp - 4 + 8 = s.reg .esp + 4 := by grind
  have hesp : z.reg .esp = t.reg .ebp + 8 := hesp
  have hz : ∀ r ∉ [Reg.eax, .esp, .ebp], z.reg r = t.reg r := hz
  have hzmem : z.mem = store t.mem l.errno (~~~t.reg .eax) := hzmem
  refine ⟨q.withState z, hrun.trans hlast, heip, ?_, ?_, hzbp, fun r hr => ?_, fun r hr => ?_, hzseg.trans h.seg, ?_,
    hzcs.trans h.sysenterCs, rfl, rfl⟩
  · exact hesp.trans (by rw [h.ebp, hup])
  · rw [value, herr]
    exact hzax
  · refine (hz r fun hm => ?_).trans (h.saved r hr)
    simp only [List.mem_cons, List.not_mem_nil, or_false] at hm
    rcases hm with rfl | rfl | rfl
    · exact hax hr
    · exact hsp hr
    · exact hbp hr
  · simp only [List.mem_append, List.mem_cons, List.not_mem_nil, or_false, not_or] at hr
    exact (hz r (by simp [hr])).trans (h.reg r (by simp [hr]))
  · rw [errnoStored, herr]
    exact hzmem.trans (by rw [h.mem, h.eax]; rfl)

/-- From behind `SYSENTER` to the caller of the wrapper. -/
theorem reaches_exit (hs : w.saved = [.ecx, .edx] ∨ w.saved = [.ebx, .ecx, .edx]) (h : Op.At c q.state.eip (w.exit l) b)
    (herror : w.checked = true → ∃ b, Op.At c l.tratError (tratError l) b) (heax : q.state.reg .eax = v)
    (hebp : q.state.reg .ebp = q.state.reg .esp)
    (hw : Words q.state.mem (q.state.reg .esp) ((s.reg .esp - 4) :: x :: (w.words s ++ ret :: ws)))
    (hstack : Words q.state.mem (s.reg .esp - 4) (s.reg .ebp :: ret :: ws))
    (herrno : Words (store q.state.mem l.errno (~~~v)) (s.reg .esp - 4) (s.reg .ebp :: ret :: ws)) :
    ∃ z, Op.Reaches c q z ∧ w.Left l s v ret q z := by
  obtain ⟨-, -, hnax, hnbp, hnsp, -, -, -, -⟩ := saved_registers hs
  rw [exit, List.append_assoc] at h
  obtain ⟨t, hrun, h, hp⟩ := reaches_popped hs h heax hebp hw
  by_cases hc : w.checked = true
  swap
  · rw [if_neg hc] at h
    exact hp.leaves hnsp hnbp hrun h hstack (by simp [hc])
  rw [if_pos hc] at h
  obtain ⟨a1, hcmp, h⟩ := Op.at_cons.mp h
  obtain ⟨a2, hjl, h⟩ := Op.at_cons.mp h
  have hrun' : Op.Reaches c q (q.withState ((t.setFlags (t.flags.compare v 0)).goto
      (if signed v < 0 then l.tratError else a2))) := by
    rw [← hp.eax]
    apply hrun.trans
    apply Op.reaches_exec hcmp
    apply Op.reaches_exec hjl
    have hjump := exec_jl (s := (t.setFlags (t.flags.compare (t.reg .eax) 0)).goto a1) rfl l.tratError a2
    have hzero : signed 0 = 0 := by decide
    rw [hzero] at hjump
    change Op.Reaches c (q.withState ((Instr.jl l.tratError).exec a2
      ((t.setFlags (t.flags.compare (t.reg .eax) 0)).goto a1))) _
    rw [hjump]
    exact Relation.ReflTransGen.refl
  by_cases hneg : negative v = true
  · rw [if_pos ((signed_neg v).mpr hneg)] at hrun'
    obtain ⟨b', herror⟩ := herror hc
    exact (hp.compared _ _).fails hnax hnsp hnbp hrun' herror herrno (by simp [hc, hneg])
  · rw [if_neg fun hs => hneg ((signed_neg v).mp hs)] at hrun'
    exact (hp.compared _ _).leaves hnsp hnbp hrun' h hstack (by simp [hneg])

/-- The stack of the caller behind what the wrapper has put on it. -/
theorem words_stack {m : Memory} (hw : Words m (s.reg .esp - 4 * .ofNat w.depth) (e :: x :: (w.words s ++ ws))) :
    Words m (s.reg .esp - 4) (s.reg .ebp :: ws) := by
  have hsplit : e :: x :: (w.words s ++ ws) = (e :: x :: (w.saved.map s.reg).reverse) ++ (s.reg .ebp :: ws) := by simp [words]
  have hup : s.reg .esp - 4 * .ofNat w.depth + 4 * .ofNat (e :: x :: (w.saved.map s.reg).reverse).length = s.reg .esp - 4 := by
    have hthree : UInt32.ofNat 3 = 3 := rfl
    have htwo : UInt32.ofNat (1 + 1) = 2 := rfl
    rw [List.length_cons, List.length_cons, List.length_reverse, List.length_map, depth, UInt32.ofNat_add, add_assoc,
      UInt32.ofNat_add, hthree, htwo]
    generalize UInt32.ofNat w.saved.length = k
    grind
  rw [hsplit, words_append, hup] at hw
  exact hw.2

theorem entry_straight (w : Wrapper) (l : WrapperLabels) : ∀ i ∈ w.entry l, i.straight = true := by
  intro i hi
  simp only [entry, saves, List.mem_append, List.mem_map] at hi
  rcases hi with ((((hi | hi) | hi) | hi) | hi) | hi
  · revert i
    simp [Instr.straight]
  · split at hi <;> simp at hi
    simp [hi, Instr.straight]
  · obtain ⟨r, -, rfl⟩ := hi
    rfl
  · split at hi <;> simp at hi
    simp [hi, Instr.straight]
  · have hm := List.mem_of_mem_take hi
    simp only [argMoves, List.mem_cons, List.not_mem_nil, or_false] at hm
    rcases hm with hm | hm | hm <;> simp [hm, Instr.straight]
  · revert i
    simp [Instr.straight]

end

end Wrapper

/-! ## The whole call -/

/-- The function of the kernel that `w` is for begins in `p'` with the arguments `as`, for the program in `p`. -/
structure Begins (g : Gate.Labels) (addr : SysFunction → UInt32) (base : UInt32) (w : Wrapper) (as : List UInt32)
    (p p' : Cpu) : Prop where
  eip : p'.state.eip = addr w.sysFunction
  words : Words p'.state.mem (p'.state.reg .esp) (g.callReturn :: as)
  outside : ∀ b, 4 * w.depth ≤ (b - (p.state.reg .esp - 4 * .ofNat w.depth)).toNat → 4096 ≤ (b - base).toNat →
    p'.state.mem b = p.state.mem b

/-- The program that called the wrapper in `p` goes on in `z`, with the value that the function of the kernel returned in
`p''`. -/
structure Finished (l : WrapperLabels) (base : UInt32) (w : Wrapper) (v ret : UInt32) (p p'' z : Cpu) : Prop where
  eip : z.state.eip = ret
  esp : z.state.reg .esp = p.state.reg .esp + 4
  eax : z.state.reg .eax = w.value v
  reg : ∀ r ∉ [Reg.eax, .esp], z.state.reg r = p.state.reg r
  seg : z.state.seg = p.state.seg
  mem : ∃ m, SameOutside base p''.state.mem m ∧ z.state.mem = w.errnoStored l v m
  sysenterCs : z.state.sysenterCs = kernelCs
  sysenterEsp : z.sysenterEsp = p''.sysenterEsp
  sysenterEip : z.sysenterEip = p''.sysenterEip

section
variable {c : Op.Code} {w : Wrapper} {l : WrapperLabels} {g : Gate.Labels} {addr : SysFunction → UInt32} {base v ret : UInt32}
  {p : Cpu} {as : List UInt32}

/-- The arguments of the function are on top of the frame. -/
theorem frame_args (s : State) (ret sp : UInt32) : ∃ rest, Gate.frame gateText.saved s ret sp =
    [s.reg .edx, s.reg .ecx, s.reg .ebx] ++ rest := ⟨_, rfl⟩

/-- What the wrapper has not saved, the kernel has kept. -/
theorem Wrapper.Left.finished {y p'' q z : Cpu} {t : State} {a : UInt32} (h : Left w l p.state v ret q z)
    (hargs : w.args ≤ 3) (hs : w.saved = [.ecx, .edx] ∧ w.args ≤ 1 ∨ w.saved = [.ebx, .ecx, .edx])
    (hmode : UserMode p.state) (ht : w.AtGate l ret as p.state t) (hy : y.state = t.goto a)
    (hres : Resumes gateText w.args base v y p'' q) :
    Finished l base w v ret p p'' z where
  eip := h.eip
  esp := h.esp
  eax := h.eax
  reg := by
    obtain ⟨-, -, -, -, -, hecx, hedx, hnsi, hndi⟩ := Wrapper.saved_registers (hs.imp_left And.left)
    have hplaces := List.drop_subset_drop_left gateText.saved.operands.reverse hargs
    have hkept : ∀ r ∈ [Reg.esi, .edi], q.state.reg r = t.reg r := by
      simp only [List.mem_cons, List.not_mem_nil, or_false]
      rintro r (rfl | rfl) <;> rw [hres.reg _ (by decide) (hplaces (by decide)), hy] <;> rfl
    intro r hr
    simp only [List.mem_cons, List.not_mem_nil, or_false, not_or] at hr
    cases r with
    | eax | esp => simp at hr
    | ebp => exact h.ebp
    | ecx => exact h.saved _ hecx
    | edx => exact h.saved _ hedx
    | esi => rw [h.reg .esi (by simp [hnsi]), hkept .esi (by decide), ht.esi]
    | edi => rw [h.reg .edi (by simp [hndi]), hkept .edi (by decide), ht.edi]
    | ebx =>
      rcases hs with ⟨hs, hle⟩ | hs
      · have hplace := List.drop_subset_drop_left gateText.saved.operands.reverse hle (a := .reg .ebx) (by decide)
        rw [h.reg .ebx (by simp [hs]), hres.reg .ebx (by decide) hplace, hy]
        exact ht.ebx hle
      · exact h.saved .ebx (by simp [hs])
  seg := by
    rw [h.seg]
    funext r
    cases r with
    | cs => rw [hres.cs, hmode.cs]
    | ss => rw [hres.ss, hmode.ss]
    | ds | es | fs | gs =>
      rw [hres.seg _ (by decide) (by decide), hy]
      exact congrFun ht.seg _
  mem := ⟨q.state.mem, hres.outside, h.mem⟩
  sysenterCs := h.sysenterCs.trans hres.sysenterCs
  sysenterEsp := h.sysenterEsp.trans hres.sysenterEsp
  sysenterEip := h.sysenterEip.trans hres.sysenterEip

/-- Each wrapper reaches its function of the kernel with the arguments it was called with, and when that comes back, and has
left the program's stack as it was, so does the wrapper, with all registers but `eax` kept: with the value, or with -1 and
the complement of the value in `errno`. -/
theorem wrapper_returns (hmem : w ∈ Wrappers.all) (hr : Ready gateText c g addr base p)
    (hplaced : WrapperPlaced c w l p.state.eip) (hmode : UserMode p.state)
    (hw : Words p.state.mem (p.state.reg .esp) (ret :: as)) (has : as.length = w.args)
    (hroom : Room gateText g base (p.state.reg .esp - 4 * .ofNat w.depth) (w.depth + 1 + w.args))
    (herr : ∀ k < 4, 4 * (w.depth + 1 + w.args) ≤
      (l.errno + .ofNat k - (p.state.reg .esp - 4 * .ofNat w.depth)).toNat) :
    ∃ p', Op.Reaches c p p' ∧ Begins g addr base w as p p' ∧
      ∀ p'' v, Returned w.args (cell base 1024) p'.state p''.state v →
        SameWords (p.state.reg .esp - 4 * .ofNat w.depth) (w.depth + 1 + w.args) p'.state.mem p''.state.mem →
        ∃ z, Op.Reaches c p'' z ∧ Finished l base w v ret p p'' z := by
  obtain ⟨hargs, hcase, htable⟩ := wrapper_entry w hmem
  have hs : w.saved = [.ecx, .edx] ∨ w.saved = [.ebx, .ecx, .edx] := hcase.imp_left And.left
  have hsmall : w.depth ≤ 6 := by
    rcases hs with hs | hs <;> simp [Wrapper.depth, hs]
  obtain ⟨a, hentry, hsys⟩ := Op.at_append.mp hplaced.entry
  obtain ⟨next, hsys, -⟩ := Op.at_cons.mp hsys
  have hrun := Op.reaches_block hentry (w.entry_straight l)
  have hgate : w.AtGate l ret as p.state (block (w.entry l) p.state) := Wrapper.entry_block hs hargs has hw
  generalize block (w.entry l) p.state = t at *
  have hesp := hgate.esp
  have hwords := hgate.words
  have hfits : ((p.state.reg .esp - 4) :: l.retadress :: (w.words p.state ++ ret :: as)).length ≤ w.depth + 1 + w.args := by
    have hk := w.words_length p.state
    simp only [List.length_cons, List.length_append, has]
    omega
  have hsize : w.depth + 1 + w.args < 2 ^ 30 := by omega
  have hready : Ready gateText c g addr base (p.withState (t.goto a)) :=
    hr.stack hroom (fun b hb => hgate.other b (by rw [hesp]; omega)) hgate.sysenterCs rfl rfl
  have hapart := hroom.page.mono hfits
  rw [← hesp] at hapart
  have hret : load t.mem (t.reg .ebp + 4) = l.retadress := by
    rw [hgate.ebp]
    exact (words_cons.mp (words_cons.mp hwords).2).1
  rw [← hgate.eax] at htable
  obtain ⟨p', hcall, hcalled, hesp', heip'⟩ := hready.reaches_function hsys htable fun k hk => by
    have hone := hapart 1 (by simp) k hk
    rwa [← hgate.ebp] at hone
  refine ⟨p', hrun.trans hcall, ⟨hcalled.eip, ?_, fun b hb hpage => ?_⟩, fun p'' v hreturned hsame => ?_⟩
  · obtain ⟨rest, hframe⟩ := frame_args (atGate (p.withState (t.goto a))) (load t.mem (t.reg .ebp + 4)) (t.reg .ebp)
    have hframed : Words p'.state.mem (cell base 1007) (g.callReturn :: ([t.reg .edx, t.reg .ecx, t.reg .ebx] ++ rest)) := by
      have hall := hcalled.words
      change Words _ _ (_ :: Gate.frame gateText.saved (atGate (p.withState (t.goto a))) (load t.mem (t.reg .ebp + 4))
        (t.reg .ebp)) at hall
      rwa [hframe, atGate_reg (by decide), atGate_reg (by decide), atGate_reg (by decide)] at hall
    have hsplit := List.take_append_drop w.args [t.reg .edx, t.reg .ecx, t.reg .ebx]
    rw [← hcalled.esp, ← hsplit, hgate.args, List.append_assoc, ← List.cons_append] at hframed
    exact (words_append.mp hframed).1
  · rw [hcalled.outside b hpage]
    exact hgate.other b (by rwa [hesp])
  obtain ⟨q, hback, hres⟩ := hcalled.reaches_program hready.placed hargs hreturned
  have hplaces := List.drop_subset_drop_left gateText.saved.operands.reverse hargs
  have hqebp : q.state.reg .ebp = q.state.reg .esp := by
    rw [hres.esp, hres.reg .ebp (by decide) (hplaces (by decide))]
  have hqesp : q.state.reg .esp = t.reg .esp := hres.esp.trans hgate.ebp
  -- the stack of the program is as the wrapper left it
  have hkept := hcalled.outside.words hapart hwords
  rw [hesp] at hkept
  have hkept := hsame.words hfits hsize hkept
  rw [← hesp] at hkept
  have hkept := hres.outside.words hapart hkept
  have hstored := hkept
  rw [hesp] at hstored
  have hstored := (sameWords_store herr q.state.mem (~~~v)).words hfits hsize hstored
  obtain ⟨b, hexit⟩ := hplaced.exit
  have hqeip : q.state.eip = l.retadress := hres.eip.trans hret
  rw [← hqeip] at hexit
  obtain ⟨z, hleave, hz⟩ := Wrapper.reaches_exit hs hexit hplaced.tratError hres.eax hqebp (by rw [hqesp]; exact hkept)
    (Wrapper.words_stack (by rw [← hesp]; exact hkept)) (Wrapper.words_stack hstored)
  exact ⟨z, hback.trans hleave, hz.finished hargs hcase hmode hgate rfl hres⟩

end

/-! ## One program -/

def sampleWrapper : WrapperLabels := ⟨55, 65, 0x108000⟩

/-- The text of the kernel, and behind it the wrapper `write`. -/
def sampleSystem : Op.Code := fun a =>
  ((syscallHandlerSysenter Sysenter.sampleLabels.gate ++ [Instr.jmp Sysenter.sampleLabels.sysenterFin] ++ sysenterErr ++
    sysenterFin ++ Wrappers.write.entry sampleWrapper).map .plain ++ [.sysenter] ++ Wrappers.write.exit sampleWrapper ++
      Wrapper.tratError sampleWrapper)[a.toNat]?.map fun o => (o, a + 1)

/-- The arguments of `write` on the stack, and the table in the kernel. -/
def sampleStack : Memory :=
  store (store (store (store (sampleMemory (sysCallTable.map (sampleAddr 42))) 0x11c00c 5) 0x11c008 0x108010) 0x11c004 1)
    0x11c000 0x100123

/-- A program has called `write(1, 0x108010, 5)`. -/
def sampleProgram : Cpu where
  state :=
    { reg := fun r => if r = .esp then 0x11c000 else 0
      seg := fun r => if r = .cs then 0x23 else 0x2B
      flags := ⟨false, false, false, false, false, false, true, 2⟩
      eip := 42
      mem := sampleStack
      sysenterCs := kernelCs }
  sysenterEsp := cell 0x30000 1024
  sysenterEip := 0
  ports := []

theorem sampleStack_words : Words sampleStack 0x11c000 [0x100123, 1, 0x108010, 5] := by
  apply words_store (by decide) (by decide)
  apply words_store (by decide) (by decide)
  apply words_store (by decide) (by decide)
  apply words_store (by decide) (by decide)
  exact words_nil _ _

theorem sample_ready : Ready gateText sampleSystem Sysenter.sampleLabels.gate (sampleAddr 42) 0x30000 sampleProgram where
  placed :=
    { handler := by decide +kernel
      behind := by decide +kernel
      err := by decide +kernel
      fin := ⟨42, by decide +kernel⟩ }
  sysenterEsp := rfl
  sysenterEip := rfl
  sysenterCs := rfl
  table := by
    have hsmall : (sysCallTable.map (sampleAddr 42)).length < 2 ^ 30 := by decide
    have hstore : ∀ {m : Memory} {a v : UInt32},
        (∀ k < 4, 4 * (sysCallTable.map (sampleAddr 42)).length ≤ (a + .ofNat k - Sysenter.sampleLabels.sysCallTable).toNat) →
        Words m Sysenter.sampleLabels.sysCallTable (sysCallTable.map (sampleAddr 42)) →
        Words (store m a v) Sysenter.sampleLabels.sysCallTable (sysCallTable.map (sampleAddr 42)) := fun ha hm =>
      (sameWords_store ha _ _).words (Nat.le_refl _) hsmall hm
    apply hstore (by decide)
    apply hstore (by decide)
    apply hstore (by decide)
    apply hstore (by decide)
    exact sampleMemory_words hsmall
  apart := by decide +kernel

theorem sample_placed : WrapperPlaced sampleSystem Wrappers.write sampleWrapper 42 where
  entry := by decide +kernel
  exit := ⟨65, by decide +kernel⟩
  tratError := fun _ => ⟨72, by decide +kernel⟩

/-- `write(1, 0x108010, 5)` gets to `sys_write`, and back with what that returns. -/
theorem wrapper_write_returns : ∃ p', Op.Reaches sampleSystem sampleProgram p' ∧
    Begins Sysenter.sampleLabels.gate (sampleAddr 42) 0x30000 Wrappers.write [1, 0x108010, 5] sampleProgram p' ∧
    ∀ p'' v, Returned 3 (cell 0x30000 1024) p'.state p''.state v →
      SameWords (sampleProgram.state.reg .esp - 4 * .ofNat Wrappers.write.depth) (Wrappers.write.depth + 1 + 3) p'.state.mem
        p''.state.mem →
      ∃ z, Op.Reaches sampleSystem p'' z ∧ Finished sampleWrapper 0x30000 Wrappers.write v 0x100123 sampleProgram p'' z :=
  wrapper_returns List.mem_cons_self sample_ready sample_placed ⟨rfl, rfl⟩ sampleStack_words rfl
    ⟨by decide +kernel, by decide +kernel⟩ (by decide +kernel)

end ZeosSOA.Pparri
