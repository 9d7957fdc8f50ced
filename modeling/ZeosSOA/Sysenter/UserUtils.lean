import ZeosSOA.SystemCall

/-!
# ZeOSSysenter: user-utils.S

The C library's side of a system call: `syscall_sysenter`, which all share, and the functions that a program calls.
They differ in their number, in how many arguments they take, and in whether they look at the value.
-/

namespace ZeosSOA.Sysenter

open X86 Gate

/-! ## The code -/

/-- Labels of the library, and where `errno` is. -/
structure UserLabels where
  syscallSysenter : UInt32
  sysenterReturn : UInt32
  nok : UInt32
  errno : UInt32

/-- `syscall_sysenter` up to its last instruction. -/
def syscallPushes (u : UserLabels) : List Instr :=
  [.push (.reg .ecx), .push (.reg .edx), .push (.imm u.sysenterReturn), .push (.reg .ebp), .mov (.reg .esp) (.reg .ebp)]

def syscallSysenter (u : UserLabels) : List Op := (syscallPushes u).map .plain ++ [.sysenter]

def sysenterReturn : List Instr :=
  [.pop (.reg .ebp), .pop (.reg .edx), .pop (.reg .edx), .pop (.reg .ecx), .ret]

def nok (u : UserLabels) : List Op :=
  [.neg .eax, .movAbs .eax u.errno] ++ [.mov (.imm 0xffffffff) (.reg .eax), .pop (.reg .ebp), .ret].map .plain

/-- What the functions of the library differ in. `checked`: a negative value goes to `errno`. -/
structure LibCall where
  number : UInt32
  args : Nat
  checked : Bool
  /-- The function of the kernel that it is for. -/
  sysFunction : SysFunction

/-- The arguments on the stack, and the registers they go to. -/
def argMoves : List Instr :=
  [.mov (.mem 0x8 .ebp) (.reg .ebx), .mov (.mem 0xC .ebp) (.reg .ecx), .mov (.mem 0x10 .ebp) (.reg .edx)]

namespace LibCall

/-- The function up to the call of `syscall_sysenter`. -/
def entry (w : LibCall) : List Instr :=
  [.push (.reg .ebp), .mov (.reg .esp) (.reg .ebp)] ++ (if w.args = 0 then [] else [.push (.reg .ebx)]) ++
    [.mov (.imm w.number) (.reg .eax)] ++ argMoves.take w.args

/-- What comes behind the call. -/
def exit (w : LibCall) (u : UserLabels) : List Op :=
  (if w.args = 0 then [] else [.plain (.pop (.reg .ebx))]) ++
    (if w.checked then [.test .eax .eax, .js u.nok] else []) ++ [.plain (.pop (.reg .ebp)), .plain .ret]

def text (w : LibCall) (u : UserLabels) : List Op := w.entry.map .plain ++ [.plain (.call u.syscallSysenter)] ++ w.exit u

end LibCall

namespace UserUtils

def write : LibCall := ⟨4, 3, true, .sysWrite⟩

def gettime : LibCall := ⟨10, 0, false, .sysGettime⟩

def getpid : LibCall := ⟨20, 0, false, .sysGetpid⟩

def fork : LibCall := ⟨2, 0, true, .sysFork⟩

def exit : LibCall := ⟨1, 0, false, .sysExit⟩

def yield : LibCall := ⟨13, 0, false, .sysYield⟩

def getStats : LibCall := ⟨35, 2, true, .sysGetStats⟩

def getKey : LibCall := ⟨21, 1, true, .sysGetKey⟩

def sbrk : LibCall := ⟨22, 1, true, .sysSbrk⟩

def gotoXY : LibCall := ⟨23, 2, true, .sysGotoXY⟩

def setColor : LibCall := ⟨24, 2, true, .sysSetColor⟩

def spritePut : LibCall := ⟨25, 3, true, .sysSpritePut⟩

def threadCreate : LibCall := ⟨26, 3, true, .sysThreadCreate⟩

def semCreate : LibCall := ⟨28, 1, true, .sysSemCreate⟩

def semWait : LibCall := ⟨29, 1, true, .sysSemWait⟩

def semSignal : LibCall := ⟨30, 1, true, .sysSemSignal⟩

def semDestroy : LibCall := ⟨31, 1, true, .sysSemDestroy⟩

/-- All of them but `threadExit`, which calls twice. -/
def all : List LibCall :=
  [write, gettime, getpid, fork, exit, yield, getStats, getKey, sbrk, gotoXY, setColor, spritePut, threadCreate, semCreate,
    semWait, semSignal, semDestroy]

end UserUtils

/-- The number that the library uses is that of the function in the kernel's table. -/
theorem libCall_entry : ∀ w ∈ UserUtils.all, w.args ≤ 3 ∧ sysCallTable[w.number.toNat]? = some w.sysFunction := by
  decide

/-- The code of the library lies in memory. -/
structure UserPlaced (c : Op.Code) (u : UserLabels) : Prop where
  syscallSysenter : Op.At c u.syscallSysenter (syscallSysenter u) u.sysenterReturn
  sysenterReturn : ∃ b, Op.At c u.sysenterReturn (sysenterReturn.map .plain) b
  nok : ∃ b, Op.At c u.nok (nok u) b

/-- A function of the kernel begins in `p'`, called with the registers of `p`: `ebx`, `ecx` and `edx` are its arguments. -/
structure Asked (l : Gate.Labels) (base f : UInt32) (p p' : Cpu) : Prop where
  eip : p'.state.eip = f
  esp : p'.state.reg .esp = cell base 1007
  words : Words p'.state.mem (cell base 1007) [l.callReturn, p.state.reg .ebx, p.state.reg .ecx, p.state.reg .edx]
  sysenterCs : p'.state.sysenterCs = Gate.kernelCs
  sysenterEsp : p'.sysenterEsp = p.sysenterEsp
  sysenterEip : p'.sysenterEip = p.sysenterEip

/-- `syscall_sysenter` has come back in `q` to its caller, with the value `v` of the function that ended in `p''` and the words `ws` on
the stack. In `ebx` is what the function has left of its first argument, when it has `n` of them. -/
structure Answered (n : Nat) (base v ra : UInt32) (ws : List UInt32) (p p'' q : Cpu) : Prop where
  eip : q.state.eip = ra
  esp : q.state.reg .esp = p.state.reg .esp + 4
  eax : q.state.reg .eax = v
  reg : ∀ r ∉ [Reg.eax, .ebx, .esp], q.state.reg r = p.state.reg r
  ebx : n = 0 → q.state.reg .ebx = p.state.reg .ebx
  seg : q.state.seg = p.state.seg
  words : Words q.state.mem (q.state.reg .esp) ws
  outside : SameOutside base p''.state.mem q.state.mem
  sysenterCs : q.state.sysenterCs = Gate.kernelCs
  sysenterEsp : q.sysenterEsp = p''.sysenterEsp
  sysenterEip : q.sysenterEip = p''.sysenterEip

/-- What the program has on its stack at `sysenter`, when `syscall_sysenter` was called with `ws` on it. -/
def stackAt (u : UserLabels) (s : State) (ws : List UInt32) : List UInt32 :=
  s.reg .ebp :: u.sysenterReturn :: s.reg .edx :: s.reg .ecx :: ws

/-- The program that called `syscall_sysenter` in `p` is at `sysenter` in `p1`. -/
structure AtSysenter (u : UserLabels) (ws : List UInt32) (p p1 : Cpu) : Prop where
  reg : ∀ r ∉ [Reg.esp, .ebp], p1.state.reg r = p.state.reg r
  ebp : p1.state.reg .ebp = p.state.reg .esp - 16
  seg : p1.state.seg = p.state.seg
  sysenterCs : p1.state.sysenterCs = p.state.sysenterCs
  words : Words p1.state.mem (p.state.reg .esp - 16) (stackAt u p.state ws)
  other : ∀ b, 16 ≤ (b - (p.state.reg .esp - 16)).toNat → p1.state.mem b = p.state.mem b
  sysenterEsp : p1.sysenterEsp = p.sysenterEsp
  sysenterEip : p1.sysenterEip = p.sysenterEip

section
variable {c : Op.Code} {u : UserLabels} {l : Gate.Labels} {addr : SysFunction → UInt32} {base v ra : UInt32}
  {p p1 p' p'' q1 : Cpu} {s : State} {f : SysFunction} {ws : List UInt32} {n d : Nat}

/-! ## syscall_sysenter -/

theorem reaches_sysenter (hu : UserPlaced c u) (heip : p.state.eip = u.syscallSysenter)
    (hw : Words p.state.mem (p.state.reg .esp) ws) (hlen : 4 + ws.length < 2 ^ 30) :
    ∃ p1 next, Op.Reaches c p p1 ∧ c p1.state.eip = some (.sysenter, next) ∧ AtSysenter u ws p p1 := by
  obtain ⟨b, hpushes, hsys⟩ := Op.at_append.mp hu.syscallSysenter
  obtain ⟨next, hsys, -⟩ := Op.at_cons.mp hsys
  rw [← heip] at hpushes
  have hrun := Op.reaches_block hpushes (by simp [syscallPushes, Instr.straight])
  have hfixed : ∀ o ∈ [Operand.reg .ecx, .reg .edx, .imm u.sysenterReturn, .reg .ebp], o.fixed = true := by
    simp [Operand.fixed]
  have hpush := (Pushed.refl p.state).block hfixed
  have hsplit : block (syscallPushes u) p.state = block [.mov (.reg .esp) (.reg .ebp)]
      (block ([.reg .ecx, .reg .edx, .imm u.sysenterReturn, .reg .ebp].map Instr.push) p.state) := rfl
  rw [hsplit] at hrun
  generalize block ([.reg .ecx, .reg .edx, .imm u.sysenterReturn, .reg .ebp].map Instr.push) p.state = t at *
  have hesp : t.reg .esp = p.state.reg .esp - 16 := hpush.esp
  have hwords := hpush.words ws (by simpa using hlen) hw
  have hother := hpush.other
  rw [hesp] at hwords hother
  refine ⟨_, next, hrun, hsys, fun r hr => ?_, ?_, hpush.seg, hpush.sysenterCs, hwords, hother, rfl, rfl⟩
  · simp only [List.mem_cons, List.not_mem_nil, or_false, not_or] at hr
    simp [Cpu.withState, Instr.effect, hr, hpush.reg r hr.1]
  · simpa [Cpu.withState, Instr.effect] using hesp

/-- The pops of `SYSENTER_RETURN`. -/
theorem sysenterReturn_block {x1 x2 x3 x4 : UInt32} (hw : Words s.mem (s.reg .esp) (x1 :: x2 :: x3 :: x4 :: ra :: ws)) :
    let t := block [.pop (.reg .ebp), .pop (.reg .edx), .pop (.reg .edx), .pop (.reg .ecx)] s
    t.reg .ebp = x1 ∧ t.reg .edx = x3 ∧ t.reg .ecx = x4 ∧ (∀ r ∉ [Reg.ebp, .edx, .ecx, .esp], t.reg r = s.reg r) ∧
      t.reg .esp = s.reg .esp + 16 ∧ t.top = ra ∧ Words t.mem (t.reg .esp + 4) ws ∧ t.seg = s.seg ∧ t.mem = s.mem ∧
      t.sysenterCs = s.sysenterCs := by
  simp only [words_cons] at hw
  obtain ⟨h1, -, h3, h4, h5, h6⟩ := hw
  refine ⟨?_, ?_, ?_, fun r hr => ?_, ?_, ?_, ?_, rfl, rfl, rfl⟩
  · simpa [Instr.effect, State.top] using h1
  · simpa [Instr.effect, State.top] using h3
  · simpa [Instr.effect, State.top] using h4
  · simp only [List.mem_cons, List.not_mem_nil, or_false, not_or] at hr
    simp [Instr.effect, hr]
  · simp [Instr.effect, UInt32.add_assoc]
  · simpa [Instr.effect, State.top] using h5
  · simpa [Instr.effect] using h6

/-- From `SYSENTER_RETURN` to the caller. -/
theorem AtSysenter.answered (h : AtSysenter u (ra :: ws) p p1) (hu : UserPlaced c u) (hmode : UserMode p.state) (hn : n ≤ 3)
    (hres : Gate.Resumes gateText n base v p1 p'' q1) (hret : load p1.state.mem (p1.state.reg .ebp + 4) = u.sysenterReturn)
    (hw : Words q1.state.mem (q1.state.reg .esp) (stackAt u p.state (ra :: ws))) :
    ∃ q, Op.Reaches c q1 q ∧ Answered n base v ra ws p p'' q := by
  obtain ⟨b, hpops⟩ := hu.sysenterReturn
  have hpops : Op.At c u.sysenterReturn (([.pop (.reg .ebp), .pop (.reg .edx), .pop (.reg .edx),
    .pop (.reg .ecx)] : List Instr).map .plain ++ [.plain .ret]) b := hpops
  obtain ⟨b1, hpops, hback⟩ := Op.at_append.mp hpops
  obtain ⟨b2, hback, -⟩ := Op.at_cons.mp hback
  rw [← hret, ← hres.eip] at hpops
  have hpopped := Op.reaches_block hpops (by simp [Instr.straight])
  obtain ⟨hebp, hedx, hecx, hreg, hesp, htop, hws, hseg, hmem, hcs⟩ := sysenterReturn_block hw
  generalize block _ q1.state = t at *
  have hplaces := List.drop_subset_drop_left gateText.saved.operands.reverse hn
  refine ⟨q1.withState (t.drop.goto t.top), ?_, htop, ?_, ?_, fun r hr => ?_, fun h0 => ?_, ?_, ?_, ?_,
    hcs.trans hres.sysenterCs, hres.sysenterEsp, hres.sysenterEip⟩
  · apply hpopped.trans
    apply Op.reaches_exec hback
    exact Relation.ReflTransGen.refl
  · have hup : t.drop.reg .esp = t.reg .esp + 4 := by simp
    change t.drop.reg .esp = _
    rw [hup, hesp, hres.esp, h.ebp, UInt32.sub_add_cancel]
  · change t.drop.reg .eax = v
    rw [State.drop_reg, if_neg (by decide), hreg .eax (by decide), hres.eax]
  · simp only [List.mem_cons, List.not_mem_nil, or_false, not_or] at hr
    change t.drop.reg r = p.state.reg r
    rw [State.drop_reg, if_neg hr.2.2]
    cases r with
    | eax | ebx | esp => simp at hr
    | ebp => exact hebp
    | edx => exact hedx
    | ecx => exact hecx
    | esi | edi => rw [hreg _ (by decide), hres.reg _ (by decide) (hplaces (by decide)), h.reg _ (by decide)]
  · rw [h0] at hres
    change t.drop.reg .ebx = p.state.reg .ebx
    rw [State.drop_reg, if_neg (by decide), hreg _ (by decide), hres.reg _ (by decide) (by decide), h.reg _ (by decide)]
  · change t.seg = p.state.seg
    rw [hseg]
    funext g
    cases g with
    | cs => rw [hres.cs, hmode.cs]
    | ss => rw [hres.ss, hmode.ss]
    | ds | es | fs | gs => rw [hres.seg _ (by decide) (by decide), h.seg]
  · change Words t.mem (t.drop.reg .esp) ws
    rwa [State.drop_reg, if_pos rfl]
  · change SameOutside base p''.state.mem t.mem
    rw [hmem]
    exact hres.outside

/-- The arguments of the function are on top of the frame. -/
theorem frame_args (g : State) (ret sp : UInt32) : ∃ rest, Gate.frame gateText.saved g ret sp =
    [g.reg .ebx, g.reg .ecx, g.reg .edx] ++ rest := ⟨_, rfl⟩

theorem AtSysenter.asked (h : AtSysenter u ws p p1) {f : UInt32} (hcalled : Called gateText l base f p1 p')
    (hesp : p'.sysenterEsp = p1.sysenterEsp) (heip : p'.sysenterEip = p1.sysenterEip) : Asked l base f p p' := by
  have hargs := hcalled.words
  obtain ⟨rest, hframe⟩ := frame_args (atGate p1) (load p1.state.mem (p1.state.reg .ebp + 4)) (p1.state.reg .ebp)
  rw [hframe, ← List.cons_append, atGate_reg (by decide), atGate_reg (by decide), atGate_reg (by decide),
    h.reg .ebx (by decide), h.reg .ecx (by decide), h.reg .edx (by decide)] at hargs
  exact ⟨hcalled.eip, hcalled.esp, (words_append.mp hargs).1, hcalled.sysenterCs, hesp.trans h.sysenterEsp, heip.trans h.sysenterEip⟩

/-- A system call looks like a function call that changes `eax`, and with arguments `ebx`, alone: `syscall_sysenter` comes to
the function of the kernel, and from where that comes back to its own caller. -/
theorem reaches_syscallSysenter (hr : Ready gateText c l addr base p) (hu : UserPlaced c u) (hmode : UserMode p.state)
    (heip : p.state.eip = u.syscallSysenter) (hf : sysCallTable[(p.state.reg .eax).toNat]? = some f)
    (hw : Words p.state.mem (p.state.reg .esp) (ra :: ws)) (hd : 5 + ws.length ≤ d) (hsize : d < 2 ^ 30)
    (hroom : Room gateText l base (p.state.reg .esp - 16) d) (hn : n ≤ 3) :
    ∃ p', Op.Reaches c p p' ∧ Asked l base (addr f) p p' ∧
      (∀ b, 16 ≤ (b - (p.state.reg .esp - 16)).toNat → 4096 ≤ (b - base).toNat → p'.state.mem b = p.state.mem b) ∧
      ∀ p'' v, Returned n (cell base 1024) p'.state p''.state v →
        SameWords (p.state.reg .esp - 16) d p'.state.mem p''.state.mem →
        ∃ q, Op.Reaches c p'' q ∧ Answered n base v ra ws p p'' q := by
  obtain ⟨p1, next, hrun, hsys, hat⟩ := reaches_sysenter hu heip hw (by rw [List.length_cons]; omega)
  have hready : Ready gateText c l addr base p1 :=
    hr.stack hroom (fun b hb => hat.other b (by omega)) hat.sysenterCs hat.sysenterEsp hat.sysenterEip
  have hfits : (stackAt u p.state (ra :: ws)).length ≤ d := by
    simp only [stackAt, List.length_cons]
    omega
  have hapart := hroom.page.mono hfits
  have hwords := hat.words
  rw [← hat.ebp] at hapart hwords
  have hret : load p1.state.mem (p1.state.reg .ebp + 4) = u.sysenterReturn := (words_cons.mp (words_cons.mp hwords).2).1
  rw [← hat.reg .eax (by decide)] at hf
  obtain ⟨p', hcall, hcalled, hesp', heip'⟩ := hready.reaches_function hsys hf
    fun k hk => hapart 1 (by simp [stackAt]) k hk
  refine ⟨p', hrun.trans hcall, hat.asked hcalled hesp' heip', fun b hb hpage => ?_, fun p'' v hreturned hsame => ?_⟩
  · rw [hcalled.outside b hpage, hat.other b hb]
  obtain ⟨q1, hback, hres⟩ := hcalled.reaches_program hready.placed hn hreturned
  -- the stack of the program is as `syscall_sysenter` left it
  have hkept := hcalled.outside.words hapart hwords
  rw [hat.ebp] at hkept
  have hkept := hsame.words hfits hsize hkept
  rw [← hat.ebp] at hkept
  have hkept := hres.outside.words hapart hkept
  rw [← hres.esp] at hkept
  obtain ⟨q, hend, hanswer⟩ := hat.answered hu hmode hn hres hret hkept
  exact ⟨q, hback.trans hend, hanswer⟩

/-! ## The functions of the library -/

namespace LibCall

/-- What the function saves on the stack. -/
def saves (w : LibCall) (s : State) : List UInt32 := if w.args = 0 then [s.reg .ebp] else [s.reg .ebx, s.reg .ebp]

/-- The value for the program, and what becomes of memory: a negative value is an error. -/
def value (w : LibCall) (v : UInt32) : UInt32 := if w.checked && negative v then 0xffffffff else v

def errnoStored (w : LibCall) (u : UserLabels) (v : UInt32) (m : Memory) : Memory :=
  if w.checked && negative v then store m u.errno (0 - v) else m

variable {w : LibCall} {as rest : List UInt32} {ret : UInt32}

/-- The arguments come into their registers. -/
theorem argMoves_block (has : as.length ≤ 3) (hw : Words s.mem (s.reg .ebp + 8) (as ++ rest)) :
    let t := block (argMoves.take as.length) s
    [t.reg .ebx, t.reg .ecx, t.reg .edx].take as.length = as ∧ (∀ r ∉ [Reg.ebx, .ecx, .edx], t.reg r = s.reg r) ∧
      (as = [] → t.reg .ebx = s.reg .ebx) ∧ t.seg = s.seg ∧ t.sysenterCs = s.sysenterCs ∧ t.mem = s.mem := by
  match as, has with
  | [], _ => exact ⟨rfl, fun _ _ => rfl, fun _ => rfl, rfl, rfl, rfl⟩
  | [a1], _ =>
    simp only [List.cons_append, words_cons] at hw
    refine ⟨?_, fun r hr => ?_, fun h => ?_, rfl, rfl, rfl⟩
    · simp [argMoves, Instr.effect, State.read, hw.1]
    · simp only [List.mem_cons, List.not_mem_nil, or_false, not_or] at hr
      simp [argMoves, Instr.effect, hr]
    · simp at h
  | [a1, a2], _ =>
    simp only [List.cons_append, words_cons, UInt32.add_assoc] at hw
    refine ⟨?_, fun r hr => ?_, fun h => ?_, rfl, rfl, rfl⟩
    · simpa [argMoves, Instr.effect, State.read] using ⟨hw.1, hw.2.1⟩
    · simp only [List.mem_cons, List.not_mem_nil, or_false, not_or] at hr
      simp [argMoves, Instr.effect, hr]
    · simp at h
  | [a1, a2, a3], _ =>
    simp only [List.cons_append, words_cons, UInt32.add_assoc] at hw
    refine ⟨?_, fun r hr => ?_, fun h => ?_, rfl, rfl, rfl⟩
    · simpa [argMoves, Instr.effect, State.read] using ⟨hw.1, hw.2.1, hw.2.2.1⟩
    · simp only [List.mem_cons, List.not_mem_nil, or_false, not_or] at hr
      simp [argMoves, Instr.effect, hr]
    · simp at h

/-- What `w.entry` does before the arguments are moved. -/
def savesBlock (w : LibCall) : List Instr :=
  [.push (.reg .ebp), .mov (.reg .esp) (.reg .ebp)] ++ (if w.args = 0 then [] else [.push (.reg .ebx)]) ++
    [.mov (.imm w.number) (.reg .eax)]

theorem saves_block (w : LibCall) (s : State) :
    let t := block w.savesBlock s
    t.reg .eax = w.number ∧ t.reg .ebp = s.reg .esp - 4 ∧ (∀ r ∉ [Reg.eax, .ebp, .esp], t.reg r = s.reg r) ∧
      t.seg = s.seg ∧ t.sysenterCs = s.sysenterCs ∧ ∃ t', Pushed s t' (w.saves s) ∧ t.reg .esp = t'.reg .esp ∧ t.mem = t'.mem := by
  by_cases h0 : w.args = 0
  · have hblock : w.savesBlock = [.push (.reg .ebp), .mov (.reg .esp) (.reg .ebp), .mov (.imm w.number) (.reg .eax)] := by
      rw [savesBlock, if_pos h0]
      rfl
    have hsaves : w.saves s = [s.reg .ebp] := if_pos h0
    rw [hblock, hsaves]
    refine ⟨?_, ?_, fun r hr => ?_, rfl, rfl, _, (Pushed.refl s).push (s.reg .ebp), ?_, ?_⟩
    · simp [Instr.effect]
    · simp [Instr.effect]
    · simp only [List.mem_cons, List.not_mem_nil, or_false, not_or] at hr
      simp [Instr.effect, hr]
    · simp [Instr.effect]
    · simp [Instr.effect]
  · have hblock : w.savesBlock = [.push (.reg .ebp), .mov (.reg .esp) (.reg .ebp), .push (.reg .ebx),
        .mov (.imm w.number) (.reg .eax)] := by
      rw [savesBlock, if_neg h0]
      rfl
    have hsaves : w.saves s = [s.reg .ebx, s.reg .ebp] := if_neg h0
    rw [hblock, hsaves]
    refine ⟨?_, ?_, fun r hr => ?_, rfl, rfl, _, ((Pushed.refl s).push (s.reg .ebp)).push (s.reg .ebx), ?_, ?_⟩
    · simp [Instr.effect]
    · simp [Instr.effect]
    · simp only [List.mem_cons, List.not_mem_nil, or_false, not_or] at hr
      simp [Instr.effect, hr]
    · simp [Instr.effect]
    · simp [Instr.effect]

theorem saves_length (w : LibCall) (s : State) : (w.saves s).length = if w.args = 0 then 1 else 2 := by
  unfold saves
  split <;> rfl

theorem entry_straight (w : LibCall) : ∀ i ∈ w.entry, i.straight = true := by
  intro i hi
  simp only [entry, List.mem_append] at hi
  rcases hi with ((hi | hi) | hi) | hi
  · revert i
    simp [Instr.straight]
  · split at hi
    · simp at hi
    · simp only [List.mem_singleton] at hi
      simp [hi, Instr.straight]
  · simp only [List.mem_singleton] at hi
    simp [hi, Instr.straight]
  · have hm := List.mem_of_mem_take hi
    simp only [argMoves, List.mem_cons, List.not_mem_nil, or_false] at hm
    rcases hm with hm | hm | hm <;> simp [hm, Instr.straight]

/-- At the call of `syscall_sysenter` the arguments are in their registers. -/
theorem entry_block (hargs : w.args ≤ 3) (has : as.length = w.args)
    (hw : Words s.mem (s.reg .esp) (ret :: as ++ rest)) (hlen : (ret :: as ++ rest).length + 2 < 2 ^ 30) :
    let t := block w.entry s
    t.reg .eax = w.number ∧ [t.reg .ebx, t.reg .ecx, t.reg .edx].take w.args = as ∧ t.reg .esi = s.reg .esi ∧
      t.reg .edi = s.reg .edi ∧ (w.args = 0 → t.reg .ebx = s.reg .ebx) ∧ t.seg = s.seg ∧ t.sysenterCs = s.sysenterCs ∧
      t.reg .esp = s.reg .esp - 4 * .ofNat (w.saves s).length ∧
      Words t.mem (t.reg .esp) (w.saves s ++ (ret :: as ++ rest)) ∧
      ∀ b, 4 * (w.saves s).length ≤ (b - t.reg .esp).toNat → t.mem b = s.mem b := by
  obtain ⟨heax, hebp, hreg, hseg, hcs, t', hpush, hesp, hmem⟩ := saves_block w s
  have hsplit : block w.entry s = block (argMoves.take as.length) (block w.savesBlock s) := by
    rw [has, ← block_append]
    rfl
  rw [hsplit]
  have hk := saves_length w s
  have hwords := hpush.words _ (by rw [hk]; split <;> omega) hw
  rw [← hesp, ← hmem] at hwords
  have hdown := hpush.esp
  have hother := hpush.other
  rw [← hesp] at hdown hother
  rw [← hmem] at hother
  have hargw : Words (block w.savesBlock s).mem ((block w.savesBlock s).reg .ebp + 8) (as ++ rest) := by
    have hcons : w.saves s ++ (ret :: as ++ rest) = (w.saves s ++ [ret]) ++ (as ++ rest) := by simp
    rw [hcons] at hwords
    have hup : (block w.savesBlock s).reg .ebp + 8 = (block w.savesBlock s).reg .esp + 4 * .ofNat (w.saves s ++ [ret]).length := by
      have hone : UInt32.ofNat [ret].length = 1 := rfl
      rw [hebp, hdown, List.length_append, UInt32.ofNat_add, hone]
      generalize UInt32.ofNat (w.saves s).length = k
      grind
    rw [hup]
    exact (words_append.mp hwords).2
  generalize block w.savesBlock s = t at *
  obtain ⟨h1, h2, h3, h4, h5, h6⟩ := argMoves_block (has.trans_le hargs) hargw
  generalize block (argMoves.take as.length) t = t1 at *
  refine ⟨?_, by rwa [has] at h1, ?_, ?_, fun h0 => ?_, h4.trans hseg, h5.trans hcs, ?_, ?_, ?_⟩
  · rw [h2 .eax (by decide), heax]
  · rw [h2 .esi (by decide), hreg .esi (by decide)]
  · rw [h2 .edi (by decide), hreg .edi (by decide)]
  · rw [h3 (List.length_eq_zero_iff.mp (has.trans h0)), hreg .ebx (by decide)]
  · rw [h2 .esp (by decide), hdown]
  · rw [h2 .esp (by decide), h6]
    exact hwords
  · rw [h2 .esp (by decide), h6]
    exact hother

/-- The program that called the function of the library in `p` goes on in `z`, from `q` on. -/
structure Left (w : LibCall) (u : UserLabels) (s : State) (v ret : UInt32) (q z : Cpu) : Prop where
  eip : z.state.eip = ret
  esp : z.state.reg .esp = q.state.reg .esp + 4 * .ofNat (w.saves s).length + 4
  eax : z.state.reg .eax = w.value v
  ebp : z.state.reg .ebp = s.reg .ebp
  ebx : z.state.reg .ebx = if w.args = 0 then q.state.reg .ebx else s.reg .ebx
  esi : z.state.reg .esi = q.state.reg .esi
  edi : z.state.reg .edi = q.state.reg .edi
  seg : z.state.seg = q.state.seg
  mem : z.state.mem = w.errnoStored u v q.state.mem
  sysenterCs : z.state.sysenterCs = q.state.sysenterCs
  sysenterEsp : z.sysenterEsp = q.sysenterEsp
  sysenterEip : z.sysenterEip = q.sysenterEip

/-- `popl %ebx` of a function with arguments. -/
theorem reaches_popEbx {q : Cpu} {os : List Op} {b : UInt32} (s : State)
    (h : Op.At c q.state.eip ((if w.args = 0 then [] else [.plain (.pop (.reg .ebx))]) ++ os) b)
    (hw : Words q.state.mem (q.state.reg .esp) (w.saves s ++ ws)) : ∃ t b', Op.Reaches c q (q.withState t) ∧
      Op.At c t.eip os b' ∧
      (∀ m, Words m (q.state.reg .esp) (w.saves s ++ ws) → Words m (t.reg .esp) (s.reg .ebp :: ws)) ∧
      t.reg .esp + 4 = q.state.reg .esp + 4 * .ofNat (w.saves s).length ∧
      t.reg .ebx = (if w.args = 0 then q.state.reg .ebx else s.reg .ebx) ∧
      (∀ r ∉ [Reg.esp, .ebx], t.reg r = q.state.reg r) ∧ t.seg = q.state.seg ∧ t.mem = q.state.mem ∧
      t.sysenterCs = q.state.sysenterCs := by
  by_cases h0 : w.args = 0
  · have hsaves : w.saves s = [s.reg .ebp] := if_pos h0
    rw [hsaves] at hw
    rw [if_pos h0] at h
    rw [if_pos h0, hsaves]
    exact ⟨q.state, b, Relation.ReflTransGen.refl, h, fun _ hm => hm, rfl, rfl, fun _ _ => rfl, rfl, rfl, rfl⟩
  · have hsaves : w.saves s = [s.reg .ebx, s.reg .ebp] := if_neg h0
    rw [hsaves] at hw
    rw [if_neg h0] at h
    rw [if_neg h0, hsaves]
    obtain ⟨a, hpop, h⟩ := Op.at_cons.mp h
    have htop := (words_cons.mp hw).1
    have hpopped : Instr.exec (.pop (.reg .ebx)) a q.state = (q.state.drop.setReg .ebx (s.reg .ebx)).goto a := by
      rw [← htop]
      rfl
    have htwo : q.state.reg .esp + 4 + 4 = q.state.reg .esp + 4 * .ofNat 2 := UInt32.add_assoc ..
    refine ⟨(q.state.drop.setReg .ebx (s.reg .ebx)).goto a, b, ?_, h, fun m hm => ?_, ?_, ?_, fun r hr => ?_, rfl, rfl, rfl⟩
    · apply Op.reaches_exec hpop
      rw [Op.exec, hpopped]
    · simpa using (words_cons.mp hm).2
    · simpa using htwo
    · simp
    · simp only [List.mem_cons, List.not_mem_nil, or_false, not_or] at hr
      simp [hr]

/-- A negative value goes to `errno`, with its sign changed. -/
theorem reaches_nok {q : Cpu} (hu : UserPlaced c u) (heip : q.state.eip = u.nok) {x : UInt32}
    (hw : Words (store q.state.mem u.errno (0 - q.state.reg .eax)) (q.state.reg .esp) (x :: ret :: ws)) :
    ∃ t, Op.Reaches c q (q.withState t) ∧ t.eip = ret ∧ t.reg .eax = 0xffffffff ∧ t.reg .esp = q.state.reg .esp + 8 ∧
      t.reg .ebp = x ∧ (∀ r ∉ [Reg.eax, .esp, .ebp], t.reg r = q.state.reg r) ∧ t.seg = q.state.seg ∧
      t.mem = store q.state.mem u.errno (0 - q.state.reg .eax) ∧ t.sysenterCs = q.state.sysenterCs := by
  obtain ⟨b, h⟩ := hu.nok
  obtain ⟨a1, hneg, h⟩ := Op.at_cons.mp h
  obtain ⟨a2, hstore, h⟩ := Op.at_cons.mp h
  obtain ⟨a3, hmov, h⟩ := Op.at_cons.mp h
  rw [← heip] at hneg
  obtain ⟨q1, hq1⟩ : ∃ q1, q1 = (Op.plain (.mov (.imm 0xffffffff) (.reg .eax))).exec a3
    ((Op.movAbs .eax u.errno).exec a2 ((Op.neg .eax).exec a1 q)) := ⟨_, rfl⟩
  have hrun : Op.Reaches c q q1 := by
    apply Op.reaches_exec hneg
    apply Op.reaches_exec hstore
    apply Op.reaches_exec hmov
    rw [hq1]
  have hstate : q1 = q.withState q1.state := by rw [hq1]; rfl
  have heax : q1.state.reg .eax = 0xffffffff := by
    simp [hq1, Cpu.withState, Instr.effect]
  have hreg : ∀ r, r ≠ .eax → q1.state.reg r = q.state.reg r := by
    intro r hr
    simp [hq1, Cpu.withState, Instr.effect, State.setFlags, hr]
  have hmem : q1.state.mem = store q.state.mem u.errno (0 - q.state.reg .eax) := by
    simp [hq1, Cpu.withState, Instr.effect, State.setFlags]
  have hseg : q1.state.seg = q.state.seg := by rw [hq1]; rfl
  have hcs : q1.state.sysenterCs = q.state.sysenterCs := by rw [hq1]; rfl
  have heip1 : q1.state.eip = a3 := by rw [hq1]; rfl
  rw [← heip1] at h
  rw [← hmem, ← hreg .esp (by decide)] at hw
  obtain ⟨t, hleave, hteip, htesp, htebp, htreg, htseg, htmem, htcs⟩ := Op.reaches_leave h hw
  rw [hstate] at hleave hrun
  refine ⟨t, hrun.trans hleave, hteip, ?_, ?_, htebp, fun r hr => ?_, htseg.trans hseg, htmem.trans hmem, htcs.trans hcs⟩
  · rw [htreg .eax (by decide), heax]
  · rw [htesp, hreg .esp (by decide)]
  · simp only [List.mem_cons, List.not_mem_nil, or_false, not_or] at hr
    rw [htreg r (by simp [hr]), hreg r hr.1]

/-- From behind the call of `syscall_sysenter` to the program. -/
theorem reaches_exit {q : Cpu} {b : UInt32} (s : State) (hu : UserPlaced c u) (h : Op.At c q.state.eip (w.exit u) b)
    (heax : q.state.reg .eax = v) (hw : Words q.state.mem (q.state.reg .esp) (w.saves s ++ ret :: ws))
    (herr : SameWords (q.state.reg .esp) (w.saves s ++ ret :: ws).length q.state.mem
      (store q.state.mem u.errno (0 - v)))
    (hlen : (w.saves s ++ ret :: ws).length < 2 ^ 30) : ∃ z, Op.Reaches c q z ∧ w.Left u s v ret q z := by
  have hw' := herr.words (Nat.le_refl _) hlen hw
  rw [exit, List.append_assoc] at h
  obtain ⟨t1, b1, hrun1, h, hup, hesp1, hebx1, hreg1, hseg1, hmem1, hcs1⟩ := reaches_popEbx s h hw
  have hw1 := hup _ hw
  rw [← hmem1] at hw1
  have hdown : t1.reg .esp + 8 = q.state.reg .esp + 4 * .ofNat (w.saves s).length + 4 := by
    rw [← hesp1, UInt32.add_assoc]
    rfl
  -- without an error
  have hleave : ∀ t : State, Op.At c t.eip [.plain (.pop (.reg .ebp)), .plain .ret] b1 → t.reg = t1.reg → t.seg = t1.seg →
      t.mem = t1.mem → t.sysenterCs = t1.sysenterCs → Op.Reaches c q (q.withState t) → (w.checked && negative v) = false →
      ∃ z, Op.Reaches c q z ∧ w.Left u s v ret q z := by
    intro t hat hreg hseg hmem hcs hrun hok
    obtain ⟨z, hlast, heip, hesp, hebp, hz, hzseg, hzmem, hzcs⟩ := Op.reaches_leave (x := q.withState t) hat
      (by simpa [Cpu.withState, hreg, hmem] using hw1)
    simp only [Cpu.withState, hreg, hseg, hmem, hcs] at hesp hz hzseg hzmem hzcs
    refine ⟨q.withState z, hrun.trans hlast, heip, hesp.trans hdown, ?_, hebp, ?_, ?_, ?_, hzseg.trans hseg1, ?_,
      hzcs.trans hcs1, rfl, rfl⟩
    · change z.reg .eax = _
      rw [hz .eax (by decide), hreg1 .eax (by decide), heax, value, hok]
      rfl
    · exact (hz .ebx (by decide)).trans hebx1
    · exact (hz .esi (by decide)).trans (hreg1 .esi (by decide))
    · exact (hz .edi (by decide)).trans (hreg1 .edi (by decide))
    · change z.mem = _
      rw [hzmem, hmem1, errnoStored, hok]
      rfl
  by_cases hc : w.checked = true
  · rw [if_pos hc] at h
    obtain ⟨a1, htest, h⟩ := Op.at_cons.mp h
    obtain ⟨a2, hjs, h⟩ := Op.at_cons.mp h
    have hsf : (t1.flags.logic (t1.reg .eax &&& t1.reg .eax)).sf = negative v := by
      rw [UInt32.and_self, hreg1 .eax (by decide), heax]
      rfl
    have hrun2 : Op.Reaches c q (q.withState ((t1.setFlags (t1.flags.logic (t1.reg .eax &&& t1.reg .eax))).goto
        (if negative v then u.nok else a2))) := by
      apply hrun1.trans
      apply Op.reaches_exec htest
      apply Op.reaches_exec hjs
      rw [← hsf]
      exact Relation.ReflTransGen.refl
    by_cases hneg : negative v = true
    · rw [if_pos hneg] at hrun2
      have heax1 : t1.reg .eax = v := (hreg1 .eax (by decide)).trans heax
      have hwerr := hup _ hw'
      rw [← hmem1, ← heax1] at hwerr
      obtain ⟨z, hlast, heip, hzax, hesp, hebp, hz, hzseg, hzmem, hzcs⟩ := reaches_nok (q := q.withState
        ((t1.setFlags (t1.flags.logic (t1.reg .eax &&& t1.reg .eax))).goto u.nok)) hu rfl hwerr
      refine ⟨q.withState z, hrun2.trans hlast, heip, hesp.trans hdown, ?_, hebp, ?_, ?_, ?_, hzseg.trans hseg1, ?_,
        hzcs.trans hcs1, rfl, rfl⟩
      · change z.reg .eax = _
        rw [hzax, value, hc, hneg]
        rfl
      · exact (hz .ebx (by decide)).trans hebx1
      · exact (hz .esi (by decide)).trans (hreg1 .esi (by decide))
      · exact (hz .edi (by decide)).trans (hreg1 .edi (by decide))
      · change z.mem = _
        rw [hzmem, errnoStored, hc, hneg, ← hmem1, ← heax1]
        rfl
    · rw [if_neg hneg] at hrun2
      exact hleave ((t1.setFlags (t1.flags.logic (t1.reg .eax &&& t1.reg .eax))).goto a2) h rfl rfl rfl rfl hrun2
        (by simp [hneg])
  · rw [if_neg hc] at h
    exact hleave t1 h rfl rfl rfl rfl hrun1 (by simp [hc])

end LibCall

end

/-! ## The whole call -/

/-- The program that called the function of the library in `p` is at `syscall_sysenter` in `p1`, to come back to `ra`. -/
structure AtCall (u : UserLabels) (w : LibCall) (ra ret : UInt32) (as : List UInt32) (p p1 : Cpu) : Prop where
  eip : p1.state.eip = u.syscallSysenter
  esp : p1.state.reg .esp = p.state.reg .esp - 28 + 4 * .ofNat (6 - (w.saves p.state).length)
  eax : p1.state.reg .eax = w.number
  args : [p1.state.reg .ebx, p1.state.reg .ecx, p1.state.reg .edx].take w.args = as
  ebx : w.args = 0 → p1.state.reg .ebx = p.state.reg .ebx
  esi : p1.state.reg .esi = p.state.reg .esi
  edi : p1.state.reg .edi = p.state.reg .edi
  seg : p1.state.seg = p.state.seg
  words : Words p1.state.mem (p1.state.reg .esp) (ra :: (w.saves p.state ++ ret :: as))
  other : ∀ b, 28 ≤ (b - (p.state.reg .esp - 28)).toNat → p1.state.mem b = p.state.mem b
  sysenterCs : p1.state.sysenterCs = p.state.sysenterCs
  sysenterEsp : p1.sysenterEsp = p.sysenterEsp
  sysenterEip : p1.sysenterEip = p.sysenterEip

/-- The function of the kernel that `w` is for begins in `p'` with the arguments `as`, for the program in `p`. -/
structure Begins (l : Gate.Labels) (addr : SysFunction → UInt32) (base : UInt32) (w : LibCall) (as : List UInt32)
    (p p' : Cpu) : Prop where
  eip : p'.state.eip = addr w.sysFunction
  words : Words p'.state.mem (p'.state.reg .esp) (l.callReturn :: as)
  outside : ∀ b, 28 ≤ (b - (p.state.reg .esp - 28)).toNat → 4096 ≤ (b - base).toNat → p'.state.mem b = p.state.mem b

/-- The program that called the function of the library in `p` goes on in `z`, with the value that the function of the
kernel returned in `p''`. -/
structure Finished (u : UserLabels) (base : UInt32) (w : LibCall) (v ret : UInt32) (p p'' z : Cpu) : Prop where
  eip : z.state.eip = ret
  esp : z.state.reg .esp = p.state.reg .esp + 4
  eax : z.state.reg .eax = w.value v
  saved : ∀ r ∈ [Reg.ebx, .ebp, .esi, .edi], z.state.reg r = p.state.reg r
  seg : z.state.seg = p.state.seg
  mem : ∃ m, SameOutside base p''.state.mem m ∧ z.state.mem = w.errnoStored u v m
  sysenterCs : z.state.sysenterCs = Gate.kernelCs
  sysenterEsp : z.sysenterEsp = p''.sysenterEsp
  sysenterEip : z.sysenterEip = p''.sysenterEip

section
variable {c : Op.Code} {u : UserLabels} {l : Gate.Labels} {addr : SysFunction → UInt32} {base v ra ret b : UInt32}
  {p p1 p' p'' q : Cpu} {w : LibCall} {as : List UInt32}

theorem saves_le (w : LibCall) (s : State) : (w.saves s).length = 1 ∨ (w.saves s).length = 2 := by
  rw [w.saves_length]
  split <;> simp

theorem reaches_atCall (hargs : w.args ≤ 3) (hat : Op.At c p.state.eip (w.text u) b)
    (hw : Words p.state.mem (p.state.reg .esp) (ret :: as)) (has : as.length = w.args) :
    ∃ p1 ra b', Op.Reaches c p p1 ∧ Op.At c ra (w.exit u) b' ∧ AtCall u w ra ret as p p1 := by
  have hk := saves_le w p.state
  rw [LibCall.text] at hat
  obtain ⟨ra, hat, hexit⟩ := Op.at_append.mp hat
  obtain ⟨a, hentries, hcall⟩ := Op.at_append.mp hat
  obtain ⟨ra', hcall, hra⟩ := Op.at_cons.mp hcall
  have hra : ra' = ra := hra
  rw [hra] at hcall
  have hrun := Op.reaches_block hentries w.entry_straight
  rw [← List.append_nil (ret :: as)] at hw
  obtain ⟨heax, hargv, hesi, hedi, hebx, hseg, hcs, hesp, hwords, hother⟩ := LibCall.entry_block hargs has hw
    (by simp only [List.append_nil, List.length_cons, has]; omega)
  rw [List.append_nil] at hwords
  generalize block w.entry p.state = t at *
  have hup : t.reg .esp = p.state.reg .esp - 28 + 4 * .ofNat (7 - (w.saves p.state).length) := by
    rw [hesp]
    rcases hk with h | h <;> rw [h] <;> grind
  have hdown : t.reg .esp - 4 = p.state.reg .esp - 28 + 4 * .ofNat (6 - (w.saves p.state).length) := by
    rw [hesp]
    rcases hk with h | h <;> rw [h] <;> grind
  refine ⟨p.withState ((t.push ra).goto u.syscallSysenter), ra, b, ?_, hexit, rfl, ?_, ?_, ?_, ?_, ?_, ?_, hseg, ?_, ?_, hcs,
    rfl, rfl⟩
  · apply hrun.trans
    apply Op.reaches_exec hcall
    exact Relation.ReflTransGen.refl
  · simpa [Cpu.withState] using hdown
  · simpa [Cpu.withState] using heax
  · simpa [Cpu.withState] using hargv
  · simpa [Cpu.withState] using hebx
  · simpa [Cpu.withState] using hesi
  · simpa [Cpu.withState] using hedi
  · have hpush := hwords.push (v := ra) (by simp only [List.length_append, List.length_cons, has]; omega)
    simpa [Cpu.withState] using hpush
  · intro x hx
    have hpushed : (p.withState ((t.push ra).goto u.syscallSysenter)).state.mem = store t.mem (t.reg .esp - 4) ra := rfl
    have h1 := (sub_window (u := p.state.reg .esp - 28) (n := 7) x (j := 6 - (w.saves p.state).length) (k := 1)
      (by omega) (by decide)).2 hx
    have h2 := (sub_window (u := p.state.reg .esp - 28) (n := 7) x (j := 7 - (w.saves p.state).length)
      (k := (w.saves p.state).length) (by omega) (by decide)).2 hx
    rw [← hdown] at h1
    rw [← hup] at h2
    rw [hpushed, store_other h1, hother x h2]

/-- Each function of the library reaches its function of the kernel with the arguments it was called with, and when that
comes back, and has left the program's stack as it was, so does the function of the library: with the value, or with -1 and
the error in `errno`. -/
theorem libCall_returns (hmem : w ∈ UserUtils.all) (hr : Ready gateText c l addr base p) (hu : UserPlaced c u)
    (hmode : UserMode p.state) (hat : Op.At c p.state.eip (w.text u) b)
    (hw : Words p.state.mem (p.state.reg .esp) (ret :: as)) (has : as.length = w.args)
    (hroom : Room gateText l base (p.state.reg .esp - 28) (8 + w.args))
    (herr : ∀ k < 4, 4 * (8 + w.args) ≤ (u.errno + .ofNat k - (p.state.reg .esp - 28)).toNat) :
    ∃ p', Op.Reaches c p p' ∧ Begins l addr base w as p p' ∧
      ∀ p'' v, Returned w.args (cell base 1024) p'.state p''.state v →
        SameWords (p.state.reg .esp - 28) (8 + w.args) p'.state.mem p''.state.mem →
        ∃ z, Op.Reaches c p'' z ∧ Finished u base w v ret p p'' z := by
  obtain ⟨hargs, hentry⟩ := libCall_entry w hmem
  have hk := saves_le w p.state
  have hlen : 8 + w.args < 2 ^ 30 := by omega
  obtain ⟨p1, ra, b', hrun, hexit, hcall⟩ := reaches_atCall hargs hat hw has
  have hready : Ready gateText c l addr base p1 :=
    hr.stack hroom (fun x hx => hcall.other x (by omega)) hcall.sysenterCs hcall.sysenterEsp hcall.sysenterEip
  have hmode1 : UserMode p1.state := ⟨by rw [hcall.seg, hmode.cs], by rw [hcall.seg, hmode.ss]⟩
  rw [← hcall.eax] at hentry
  have hn : 5 + (w.saves p.state ++ ret :: as).length ≤ 6 + (w.saves p.state).length + w.args := by
    simp only [List.length_append, List.length_cons, has]
    omega
  have hsub : p1.state.reg .esp - 16 = p.state.reg .esp - 28 + 4 * .ofNat (2 - (w.saves p.state).length) := by
    rw [hcall.esp]
    rcases hk with h | h <;> rw [h] <;> grind
  have hroom1 := hroom.sub (j := 2 - (w.saves p.state).length) (k := 6 + (w.saves p.state).length + w.args)
    (by omega) hlen
  rw [← hsub] at hroom1
  obtain ⟨p', hask, hasked, hout, hback⟩ := reaches_syscallSysenter hready hu hmode1 hcall.eip hentry hcall.words hn
    (by omega) hroom1 hargs
  refine ⟨p', hrun.trans hask, ⟨hasked.eip, ?_, fun x hx hpage => ?_⟩, fun p'' v hreturned hsame => ?_⟩
  · have hsplit := List.take_append_drop w.args [p1.state.reg .ebx, p1.state.reg .ecx, p1.state.reg .edx]
    have hwords := hasked.words
    rw [← hasked.esp, ← hsplit, hcall.args, ← List.cons_append] at hwords
    exact (words_append.mp hwords).1
  · have hin := (sub_window (u := p.state.reg .esp - 28) (n := 7) x (j := 2 - (w.saves p.state).length) (k := 4)
      (by omega) (by decide)).2 hx
    rw [← hsub] at hin
    rw [hout x hin hpage, hcall.other x hx]
  · have hsame1 := hsame.sub (j := 2 - (w.saves p.state).length) (k := 6 + (w.saves p.state).length + w.args)
      (by omega) hlen
    rw [← hsub] at hsame1
    obtain ⟨q, hrun2, hq⟩ := hback p'' v hreturned hsame1
    have hqesp : q.state.reg .esp = p.state.reg .esp - 28 + 4 * .ofNat (7 - (w.saves p.state).length) := by
      rw [hq.esp, hcall.esp]
      rcases hk with h | h <;> rw [h] <;> grind
    have hfits : 7 - (w.saves p.state).length + (w.saves p.state ++ ret :: as).length ≤ 8 + w.args := by
      simp only [List.length_append, List.length_cons, has]
      omega
    have herr1 := (sameWords_store herr q.state.mem (0 - v)).sub hfits hlen
    rw [← hqesp] at herr1
    rw [← hq.eip] at hexit
    obtain ⟨z, hrun3, hz⟩ := LibCall.reaches_exit p.state hu hexit hq.eax hq.words herr1 (by omega)
    refine ⟨z, hrun2.trans hrun3, hz.eip, ?_, hz.eax, fun r hr => ?_, ?_, ⟨q.state.mem, hq.outside, hz.mem⟩,
      hz.sysenterCs.trans hq.sysenterCs, hz.sysenterEsp.trans hq.sysenterEsp, hz.sysenterEip.trans hq.sysenterEip⟩
    · rw [hz.esp, hqesp]
      rcases hk with h | h <;> rw [h] <;> grind
    · simp only [List.mem_cons, List.not_mem_nil, or_false] at hr
      rcases hr with rfl | rfl | rfl | rfl
      · rw [hz.ebx]
        split
        · rename_i h0
          rw [hq.ebx h0, hcall.ebx h0]
        · rfl
      · exact hz.ebp
      · rw [hz.esi, hq.reg .esi (by decide), hcall.esi]
      · rw [hz.edi, hq.reg .edi (by decide), hcall.edi]
    · rw [hz.seg, hq.seg, hcall.seg]

end

/-! ## One program -/

def sampleUser : UserLabels := ⟨53, 59, 64, 0x108000⟩

/-- The text of the kernel, and behind it the library with `write`. -/
def sampleSystem : Op.Code := fun a =>
  (sampleText.map .plain ++ syscallSysenter sampleUser ++ sysenterReturn.map .plain ++ nok sampleUser ++
    UserUtils.write.text sampleUser)[a.toNat]?.map fun o => (o, a + 1)

/-- The arguments of `write` on the stack, and the table in the kernel. -/
def sampleStack : Memory :=
  store (store (store (store (sampleMemory (sysCallTable.map (sampleAddr 49))) 0x11c00c 5) 0x11c008 0x108010) 0x11c004 1)
    0x11c000 0x100123

/-- A program has called `write(1, 0x108010, 5)`. -/
def sampleProgram : Cpu where
  state :=
    { reg := fun r => if r = .esp then 0x11c000 else 0
      seg := fun r => if r = .cs then 0x23 else 0x2B
      flags := ⟨false, false, false, false, false, false, true, 2⟩
      eip := 69
      mem := sampleStack
      sysenterCs := Gate.kernelCs }
  sysenterEsp := cell 0x30000 1024
  sysenterEip := 0
  ports := []

theorem sampleStack_words : Words sampleStack 0x11c000 [0x100123, 1, 0x108010, 5] := by
  apply words_store (by decide) (by decide)
  apply words_store (by decide) (by decide)
  apply words_store (by decide) (by decide)
  apply words_store (by decide) (by decide)
  exact words_nil _ _

theorem sample_ready : Ready gateText sampleSystem sampleLabels.gate (sampleAddr 49) 0x30000 sampleProgram where
  placed :=
    { handler := by decide +kernel
      behind := by decide +kernel
      err := by decide +kernel
      fin := ⟨42, by decide +kernel⟩ }
  sysenterEsp := rfl
  sysenterEip := rfl
  sysenterCs := rfl
  table := by
    have htable : Words (sampleMemory (sysCallTable.map (sampleAddr 49))) sampleLabels.sysCallTable
        (sysCallTable.map (sampleAddr 49)) := sampleMemory_words (by decide)
    have hstore : ∀ {m : Memory} {a v : UInt32}, (∀ k < 4, 4 * 36 ≤ (a + .ofNat k - sampleLabels.sysCallTable).toNat) →
        Words m sampleLabels.sysCallTable (sysCallTable.map (sampleAddr 49)) →
        Words (store m a v) sampleLabels.sysCallTable (sysCallTable.map (sampleAddr 49)) := fun ha hm =>
      (sameWords_store ha _ _).words (by decide) (by decide) hm
    exact hstore (by decide) <| hstore (by decide) <| hstore (by decide) <| hstore (by decide) htable
  apart := by decide +kernel

theorem sample_userPlaced : UserPlaced sampleSystem sampleUser where
  syscallSysenter := by decide +kernel
  sysenterReturn := ⟨64, by decide +kernel⟩
  nok := ⟨69, by decide +kernel⟩

/-- `write(1, 0x108010, 5)` gets to `sys_write`, and back with what that returns. -/
theorem write_returns : ∃ p', Op.Reaches sampleSystem sampleProgram p' ∧
    Begins sampleLabels.gate (sampleAddr 49) 0x30000 UserUtils.write [1, 0x108010, 5] sampleProgram p' ∧
    ∀ p'' v, Returned 3 (cell 0x30000 1024) p'.state p''.state v →
      SameWords (sampleProgram.state.reg .esp - 28) (8 + 3) p'.state.mem p''.state.mem →
      ∃ z, Op.Reaches sampleSystem p'' z ∧ Finished sampleUser 0x30000 UserUtils.write v 0x100123 sampleProgram p'' z :=
  libCall_returns (b := 82) List.mem_cons_self sample_ready sample_userPlaced ⟨rfl, rfl⟩ (by decide +kernel) sampleStack_words rfl
    ⟨by decide +kernel, by decide +kernel⟩ (by decide +kernel)

end ZeosSOA.Sysenter
