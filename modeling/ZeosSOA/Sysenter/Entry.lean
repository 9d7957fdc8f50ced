import ZeosSOA.Gate

/-!
# ZeOSSysenter: entry.S, sys_call_table.S and kernel-utils.S

The way of a system call from the gate to its C function and back to user mode, and the way of a
task into the processor. `Framed` is the kernel stack while the call is served: from the frame
pointer of the function up to the words that `sysexit` is prepared with.
-/

namespace ZeosSOA.Sysenter

open X86
open Gate (userCs userDs kernelCs callerEip pushes checks)

/-! ## The code -/

def sysCallTable : List Gate.SysFunction :=
  [.sysNiSyscall, .sysExit, .sysFork, .sysNiSyscall, .sysWrite, .sysNiSyscall, .sysNiSyscall, .sysNiSyscall,
    .sysNiSyscall, .sysNiSyscall, .sysGettime, .sysNiSyscall, .sysNiSyscall, .sysYield, .sysNiSyscall, .sysNiSyscall,
    .sysNiSyscall, .sysNiSyscall, .sysNiSyscall, .sysNiSyscall, .sysGetpid, .sysGetKey, .sysSbrk, .sysGotoXY,
    .sysSetColor, .sysSpritePut, .sysThreadCreate, .sysThreadExit, .sysSemCreate, .sysSemWait, .sysSemSignal,
    .sysSemDestroy, .sysNiSyscall, .sysNiSyscall, .sysNiSyscall, .sysGetStats]

/-- The addresses of the labels. -/
structure Labels where
  systemCallHandler : UInt32
  sysenterErr : UInt32
  sysenterFin : UInt32
  /-- The address behind the indirect call. -/
  callReturn : UInt32
  sysCallTable : UInt32
  switchStack : UInt32
  retFromFork : UInt32

/-- The operands of `SAVE_ALL`, in the order they are pushed in. -/
def saved : List Operand :=
  [.seg .gs, .seg .fs, .seg .es, .seg .ds, .reg .eax, .reg .ebp, .reg .edi, .reg .esi, .reg .edx, .reg .ecx, .reg .ebx]

/-- The operands of `SAVE_ALL` with what the gate needs of them. -/
def savedRegs : Gate.Saved where
  operands := saved
  register := by decide
  nodup := by decide
  size := rfl
  eax := rfl
  args := ⟨_, _, _, rfl⟩

/-- The text of this kernel: `ENOSYS` is that of `errno.h`. -/
def gateText : Gate.Text where
  saved := savedRegs
  sysCallTable := sysCallTable
  enosys := 38
  fits := by decide

def Labels.gate (l : Labels) : Gate.Labels where
  handler := l.systemCallHandler
  callReturn := l.callReturn
  sysenterErr := l.sysenterErr
  sysenterFin := l.sysenterFin
  sysCallTable := l.sysCallTable

def systemCallHandler (l : Labels) : List Instr := Gate.handler savedRegs gateText.maxSyscall l.gate

def sysenterErr : List Instr := Gate.sysenterErr gateText.enosys

def sysenterFin : List Instr := Gate.sysenterFin savedRegs

def switchStack : List Instr :=
  [.mov (.mem 4 .esp) (.reg .eax), .mov (.reg .ebp) (.mem 0 .eax), .mov (.mem 8 .esp) (.reg .esp), .pop (.reg .ebp), .ret]

/-- The first two instructions of a C function: the frame pointer is kept. -/
def prologue : List Instr := [.push (.reg .ebp), .mov (.reg .esp) (.reg .ebp)]

/-- The last two. -/
def epilogue : List Instr := [.pop (.reg .ebp), .ret]

/-- The code holds what is in the two assembler files, and `ret_from_fork` as the compiler has made it. -/
structure Linked (c : Code) (l : Labels) : Prop where
  handler : At c l.systemCallHandler (systemCallHandler l) l.callReturn
  behind : At c l.callReturn [.jmp l.sysenterFin] l.sysenterErr
  err : At c l.sysenterErr sysenterErr l.sysenterFin
  fin : ∃ next, At c l.sysenterFin sysenterFin next
  switch : ∃ next, At c l.switchStack switchStack next
  retFromFork : Returns c l.retFromFork 0

theorem Linked.placed {c : Code} {l : Labels} (x : Linked c l) : Gate.Placed gateText c l.gate :=
  ⟨x.handler, x.behind, x.err, x.fin⟩

/-! ## The stack of a system call -/

/-- What the handler pushes: the registers of `s` on top of what takes the place of a return context. -/
def frame (s : State) (ret sp : UInt32) : List UInt32 := Gate.frame savedRegs s ret sp

/-- The frame of a C function at the word `p` of a stack page, called by the handler: `f` is where the function
returns to, and above it is what is left for the handler. -/
def Framed (m : Memory) (base : UInt32) (p : Nat) (s : State) (fs : List UInt32) (ret sp : UInt32) : Prop :=
  Words m (cell base p) (s.reg .ebp :: fs ++ frame s ret sp)

/-- At the gate with the number `n`, whose entry in the table is `f`: the stack goes down from the word `p + 18`. -/
structure Entered (l : Labels) (s : State) (n : Nat) (f base : UInt32) (p : Nat) : Prop where
  eip : s.eip = l.systemCallHandler
  esp : s.reg .esp = cell base (p + 18)
  eax : s.reg .eax = .ofNat n
  entry : load s.mem (l.sysCallTable + 4 * .ofNat n) = f
  apart : ∀ k < 4, 4096 ≤ (l.sysCallTable + 4 * .ofNat n + .ofNat k - base).toNat
  sysenterCs : s.sysenterCs = kernelCs

section
variable {c : Code} {l : Labels} {s s' t : State} {base f body v ret sp : UInt32} {n p q : Nat} {fs : List UInt32}

/-! ## From the gate to the function -/

theorem frame_length (s : State) (ret sp : UInt32) : (frame s ret sp).length = 16 := rfl

theorem pushed_frame (s : State) : Pushed s (block (pushes savedRegs) s) (frame s (callerEip s) (s.reg .ebp)) :=
  Gate.pushed_frame savedRegs s

/-- The handler up to the call, without the two jumps. -/
def entryBlock : List Instr := pushes savedRegs ++ (checks ++ [.cmp (.imm gateText.maxSyscall) (.reg .eax)])

/-- The machine where the body of the C function begins. -/
def atBody (l : Labels) (s : State) (body : UInt32) : State :=
  (block prologue ((block entryBlock s).push l.callReturn)).goto body

theorem entryBlock_eq (s : State) :
    block entryBlock s =
      block [.cmp (.imm gateText.maxSyscall) (.reg .eax)] (block checks (block (pushes savedRegs) s)) := by
  rw [entryBlock, block_append, block_append]

theorem entryBlock_reg (s : State) {r : Reg} (hr : r ≠ .edx) :
    (block entryBlock s).reg r = (block (pushes savedRegs) s).reg r := by
  rw [entryBlock_eq, block_cmp]
  exact (Gate.checks_keeps (block (pushes savedRegs) s)).1 r hr

theorem entryBlock_mem (s : State) : (block entryBlock s).mem = (block (pushes savedRegs) s).mem := by
  rw [entryBlock_eq, block_cmp]
  exact (Gate.checks_keeps (block (pushes savedRegs) s)).2.1

theorem entryBlock_sysenterCs (s : State) : (block entryBlock s).sysenterCs = s.sysenterCs := by
  rw [entryBlock_eq, block_cmp, ← (pushed_frame s).sysenterCs]
  exact (Gate.checks_keeps (block (pushes savedRegs) s)).2.2.1

theorem Linked.call (x : Linked c l) : ∃ a, At c l.systemCallHandler (pushes savedRegs ++
      (checks ++ [.jl l.sysenterErr, .cmp (.imm gateText.maxSyscall) (.reg .eax), .jg l.sysenterErr])) a ∧
    c a = some (.callIndexed l.sysCallTable .eax, l.callReturn) := x.placed.call

theorem reaches_handler (x : Linked c l) (hs : s.eip = l.systemCallHandler) :
    Reaches c s (if signed (s.reg .eax) < 0 then (block (pushes savedRegs ++ checks) s).goto l.sysenterErr
      else if signed gateText.maxSyscall < signed (s.reg .eax) then (block entryBlock s).goto l.sysenterErr
      else ((block entryBlock s).push l.callReturn).goto
        (load (block (pushes savedRegs) s).mem (l.sysCallTable + 4 * s.reg .eax))) := by
  obtain ⟨a, hgate, hcall⟩ := x.call
  rw [← hs] at hgate
  have hrun := Gate.reaches_handler (v := savedRegs) hgate
  by_cases hneg : signed (s.reg .eax) < 0
  · rw [if_pos hneg] at hrun ⊢
    exact hrun
  rw [if_neg hneg] at hrun ⊢
  by_cases hover : signed gateText.maxSyscall < signed (s.reg .eax)
  · rw [if_pos hover] at hrun ⊢
    exact hrun
  rw [if_neg hover] at hrun ⊢
  apply hrun.trans
  apply reaches_exec (s := (block entryBlock s).goto a) hcall
  rw [exec_callIndexed, State.goto_mem, State.goto_reg, State.push_goto, State.goto_goto, entryBlock_mem,
    entryBlock_reg s (by decide), (pushed_frame s).reg .eax (by decide)]

theorem pushed_cell (hesp : s.reg .esp = cell base (q + 16)) : (block (pushes savedRegs) s).reg .esp = cell base q ∧
    Words (block (pushes savedRegs) s).mem (cell base q) (frame s (callerEip s) (s.reg .ebp)) :=
  Gate.pushed_cell savedRegs hesp

theorem signed_ofNat : ∀ n ≤ 36, signed (.ofNat n) = n := by decide

theorem reaches_call (x : Linked c l) (hs : s.eip = l.systemCallHandler) (heax : s.reg .eax = .ofNat n) (hn : n ≤ 36) :
    Reaches c s (((block entryBlock s).push l.callReturn).goto
      (load (block (pushes savedRegs) s).mem (l.sysCallTable + 4 * .ofNat n))) := by
  have hrun := reaches_handler x hs
  have hmax : signed gateText.maxSyscall = 36 := by decide
  have hle : (n : Int) ≤ 36 := Int.ofNat_le.mpr hn
  rwa [heax, signed_ofNat n hn, hmax, if_neg (Int.not_lt.mpr (Int.natCast_nonneg n)), if_neg (Int.not_lt.mpr hle)] at hrun

theorem Entered.reaches_body (h : Entered l s n f base p) (x : Linked c l) (hn : n ≤ 36) (hp : p + 18 ≤ 1024)
    (hf : At c f prologue body) : Reaches c s (atBody l s body) := by
  have hentry : load (block (pushes savedRegs) s).mem (l.sysCallTable + 4 * .ofNat n) = f := by
    rw [← h.entry]
    exact Gate.pushed_load savedRegs (q := p + 2) h.esp hp h.apart
  have hcall := reaches_call x h.eip h.eax hn
  rw [hentry] at hcall
  have hpro := reaches_block (s := ((block entryBlock s).push l.callReturn).goto f) hf (by simp [prologue, Instr.straight])
  rw [block_goto] at hpro
  exact hcall.trans hpro

theorem Entered.framed (h : Entered l s n f base p) (body : UInt32) : (atBody l s body).reg .ebp = cell base p ∧
    (atBody l s body).reg .esp = cell base p ∧ (atBody l s body).sysenterCs = kernelCs ∧
    Framed (atBody l s body).mem base p s [l.callReturn] (callerEip s) (s.reg .ebp) := by
  obtain ⟨hesp2, hframe⟩ := pushed_cell (q := p + 2) h.esp
  have hcalled := (hframe.push (v := l.callReturn) (by simp [frame_length])).push (v := s.reg .ebp)
    (by simp [frame_length])
  have h1 : cell base (p + 2) - 4 = cell base (p + 1) := cell_sub base (p + 1) 1
  have h0 : cell base (p + 1) - 4 = cell base p := cell_sub base p 1
  rw [h1, h0] at hcalled
  have hesp : ((block entryBlock s).push l.callReturn).reg .esp - 4 = cell base p := by
    simp [entryBlock_reg, hesp2, h1, h0]
  have hebp : ((block entryBlock s).push l.callReturn).reg .ebp = s.reg .ebp := by
    simp [entryBlock_reg, (pushed_frame s).reg]
  have hmem : ((block entryBlock s).push l.callReturn).mem =
      store (block (pushes savedRegs) s).mem (cell base (p + 1)) l.callReturn := by
    simp [entryBlock_reg, entryBlock_mem, hesp2, h1]
  have hcs : ((block entryBlock s).push l.callReturn).sysenterCs = kernelCs := by
    simp [entryBlock_sysenterCs, h.sysenterCs]
  unfold atBody
  generalize (block entryBlock s).push l.callReturn = t at hesp hebp hmem hcs
  refine ⟨?_, ?_, ?_, ?_⟩
  · simpa [prologue, Instr.effect] using hesp
  · simpa [prologue, Instr.effect] using hesp
  · simpa [prologue, Instr.effect] using hcs
  · simpa [Framed, prologue, Instr.effect, hesp, hebp, hmem] using hcalled

/-! ## Back to user mode -/

/-- In `u` the user program goes on: at `ret`, with the stack at `sp` and the registers of `s`; `eax`
and the flags are those of `t`. -/
structure Resumed (s t u : State) (ret sp : UInt32) : Prop where
  eip : u.eip = ret
  esp : u.reg .esp = sp
  eax : u.reg .eax = t.reg .eax
  edx : u.reg .edx = ret
  ecx : u.reg .ecx = sp
  reg : ∀ r ∈ [Reg.ebx, .esi, .edi, .ebp], u.reg r = s.reg r
  seg : ∀ r ∈ [SegReg.ds, .es, .fs, .gs], u.seg r = s.seg r
  cs : u.seg .cs = userCs.toUInt16
  ss : u.seg .ss = userDs.toUInt16
  flags : u.flags = { t.flags with intf := true }

theorem reaches_user (x : Linked c l) (ht : t.eip = l.sysenterFin) (hesp : t.reg .esp = cell base q)
    (hw : Words t.mem (cell base q) (frame s ret sp)) (hcs : t.sysenterCs = kernelCs) :
    ∃ u, Reaches c t u ∧ Resumed s t u ret sp ∧ u.mem = store t.mem (cell base (q + 6)) (t.reg .eax) ∧
      Words u.mem (cell base (q + 11)) [ret, userCs, s.flags.word, sp, userDs] := by
  obtain ⟨a, next, hfin, hexit⟩ := x.placed.exit
  obtain ⟨u, hrun, heip, h⟩ := Gate.reaches_fin (v := savedRegs) (by rw [ht]; exact hfin) hesp hw
  obtain ⟨hcs', hss'⟩ := Gate.exit_selectors (h.sysenterCs.trans hcs)
  refine ⟨u.exitToUser, ?_, ⟨h.edx, ?_, ?_, ?_, ?_, fun r hr => ?_, fun r hr => ?_, hcs', hss', h.flags⟩, h.mem, h.words⟩
  · apply hrun.trans
    apply reaches_exec (by rw [heip]; exact hexit)
    exact Relation.ReflTransGen.refl
  · simpa [State.exitToUser] using h.ecx
  · simpa [State.exitToUser] using h.eax
  · simpa [State.exitToUser] using h.edx
  · simpa [State.exitToUser] using h.ecx
  · simp only [List.mem_cons, List.not_mem_nil, or_false] at hr
    rcases hr with rfl | rfl | rfl | rfl <;> simpa [State.exitToUser] using h.reg _ (by decide) (by decide)
  · simp only [List.mem_cons, List.not_mem_nil, or_false] at hr
    rcases hr with rfl | rfl | rfl | rfl <;> simpa [State.exitToUser] using h.seg _ (by decide)

/-- From `e` to the end of the indirect call in `t`, and through `sysenter_fin` to the user program in `u`. The flags that
the handler has saved are on the stack then, fifteen words above the frame pointer of the function. -/
structure Leaves (c : Code) (l : Labels) (s e t u : State) (base : UInt32) (p : Nat) (ret sp : UInt32) : Prop where
  comes : Reaches c e t
  eip : t.eip = l.callReturn
  jumps : Reaches c t (t.goto l.sysenterFin)
  goes : Reaches c (t.goto l.sysenterFin) u
  resumed : Resumed s t u ret sp
  mem : u.mem = store t.mem (cell base (p + 8)) (t.reg .eax)
  flags : load u.mem (cell base (p + 15)) = s.flags.word

theorem Linked.leaves {e : State} (x : Linked c l) (hrun : Reaches c e t) (ht : t.eip = l.callReturn)
    (hesp : t.reg .esp = cell base (p + 2)) (hw : Words t.mem (cell base (p + 2)) (frame s ret sp))
    (hcs : t.sysenterCs = kernelCs) : ∃ u, Leaves c l s e t u base p ret sp := by
  obtain ⟨a, hjmp, -⟩ := at_cons.mp x.behind
  have hjump : Reaches c t (t.goto l.sysenterFin) := by
    apply reaches_exec (by rw [ht]; exact hjmp)
    exact Relation.ReflTransGen.refl
  obtain ⟨u, hu, hres, hmem, hleft⟩ := reaches_user (t := t.goto l.sysenterFin) x rfl hesp hw hcs
  refine ⟨u, hrun, ht, hjump, hu, ⟨hres.eip, hres.esp, hres.eax, hres.edx, hres.ecx, hres.reg, hres.seg, hres.cs, hres.ss,
    hres.flags⟩, hmem, ?_⟩
  have := hleft 2 (by simp)
  rwa [cell_add] at this

theorem Leaves.reaches {e u : State} (h : Leaves c l s e t u base p ret sp) : Reaches c e u :=
  h.comes.trans (h.jumps.trans h.goes)

/-- Two returns to the same place with the same registers differ in `eax` alone. -/
theorem Resumed.same {u v t' : State} (h : Resumed s t u ret sp) (h' : Resumed s t' v ret sp) :
    v.eip = u.eip ∧ (∀ r, r ≠ .eax → v.reg r = u.reg r) ∧ v.seg = u.seg := by
  refine ⟨h'.eip.trans h.eip.symm, fun r hr => ?_, funext fun g => ?_⟩
  · cases r with
    | eax => exact absurd rfl hr
    | ecx => rw [h.ecx, h'.ecx]
    | edx => rw [h.edx, h'.edx]
    | esp => rw [h.esp, h'.esp]
    | ebx | ebp | esi | edi => rw [h.reg _ (by decide), h'.reg _ (by decide)]
  · cases g with
    | cs => rw [h.cs, h'.cs]
    | ss => rw [h.ss, h'.ss]
    | ds | es | fs | gs => rw [h.seg _ (by decide), h'.seg _ (by decide)]

/-! ## Into the processor -/

/-- `switch_stack` has been called on the stack page `old`, with the place of its `register_esp` and the stack pointer
that is to come. -/
structure Switching (l : Labels) (d : State) (old new : UInt32) : Prop where
  eip : d.eip = l.switchStack
  stack : ∃ k, 20 ≤ k ∧ k + 2 < 1024 ∧ d.reg .esp = cell old k
  save : load d.mem (d.reg .esp + 4) = cell old 5
  next : load d.mem (d.reg .esp + 8) = new

theorem reaches_epilogue {a bp : UInt32} {ws : List UInt32} (h : At c t.eip epilogue a) (hesp : t.reg .esp = cell base q)
    (hw : Words t.mem (cell base q) (bp :: f :: ws)) : ∃ t', Reaches c t t' ∧ t'.eip = f ∧ t'.reg .ebp = bp ∧
      t'.reg .esp = cell base (q + 2) ∧ t'.reg .eax = t.reg .eax ∧ t'.sysenterCs = t.sysenterCs ∧
      t'.mem = t.mem ∧ Words t'.mem (cell base (q + 2)) ws := by
  obtain ⟨a1, hpop, hret⟩ := at_append.mp (show At c t.eip ([.pop (.reg .ebp)] ++ [.ret]) a from h)
  obtain ⟨a2, hret, -⟩ := at_cons.mp hret
  have hrun := reaches_block hpop (by simp [Instr.straight])
  rw [words_cons, words_cons] at hw
  obtain ⟨hbp, hf, hws⟩ := hw
  have hup : cell base q + 4 + 4 = cell base (q + 2) := by
    rw [UInt32.add_assoc]
    exact cell_add base q 2
  generalize ht : (block _ t).goto a1 = t1 at hrun
  have hesp1 : t1.reg .esp = cell base q + 4 := by simp [← ht, Instr.effect, hesp]
  have htop : t1.top = f := by
    rw [State.top, hesp1, ← hf, ← ht]
    rfl
  refine ⟨t1.drop.goto t1.top, ?_, htop, ?_, ?_, ?_, ?_, ?_, ?_⟩
  · apply hrun.trans
    apply reaches_exec (by rw [← ht, State.goto_eip]; exact hret)
    exact Relation.ReflTransGen.refl
  · simp [← ht, Instr.effect, State.top, hesp, hbp]
  · simp [hesp1, hup]
  · simp [← ht, Instr.effect]
  · simp [← ht, Instr.effect]
  · simp [← ht, Instr.effect]
  · rw [← hup, ← ht]
    exact hws

/-- The new stack is gone on with where two words have been popped. -/
theorem Switching.reaches {d : State} {old bp : UInt32} {ws : List UInt32} (h : Switching l d old (cell base q))
    (x : Linked c l) (hold : old.toNat % 4096 = 0) (hbase : base.toNat % 4096 = 0) (hq : 20 ≤ q)
    (hlen : q + (ws.length + 2) ≤ 1024) (hw : Words d.mem (cell base q) (bp :: f :: ws)) :
    ∃ t, Reaches c d t ∧ t.eip = f ∧ t.reg .ebp = bp ∧ t.reg .esp = cell base (q + 2) ∧ t.sysenterCs = d.sysenterCs ∧
      t.mem = store d.mem (cell old 5) (d.reg .ebp) ∧ Words t.mem (cell base (q + 2)) ws := by
  obtain ⟨a2, hswitch⟩ := x.switch
  rw [← h.eip] at hswitch
  obtain ⟨a1, hmovs, hpop⟩ := at_append.mp (show At c d.eip ([.mov (.mem 4 .esp) (.reg .eax),
    .mov (.reg .ebp) (.mem 0 .eax), .mov (.mem 8 .esp) (.reg .esp)] ++ epilogue) a2 from hswitch)
  obtain ⟨k, hk, hk', hesp⟩ := h.stack
  have hrun := reaches_block hmovs (by simp [Instr.straight])
  -- the word that is written is in the task struct, under both stacks
  have hstore : SameFrom base q d.mem (store d.mem (cell old 5) (d.reg .ebp)) :=
    sameFrom_store hold hbase (by decide) (.inr (by omega))
  have harg : load (store d.mem (cell old 5) (d.reg .ebp)) (d.reg .esp + 8) = cell base q := by
    have hcell : cell old k + 8 = cell old (k + 2) := cell_add old k 2
    rw [← h.next, hesp, hcell]
    exact load_store_cell hold hold (by decide) hk' (.inr (by omega))
  generalize ht : (block _ d).goto a1 = t at hrun
  have hmem : t.mem = store d.mem (cell old 5) (d.reg .ebp) := by
    simp [← ht, Instr.effect, State.read, State.write, h.save]
  have hespt : t.reg .esp = cell base q := by simp [← ht, Instr.effect, State.read, State.write, h.save, harg]
  have hw' : Words t.mem (cell base q) (bp :: f :: ws) := by
    rw [hmem]
    exact hstore.words (Nat.le_refl q) (by simpa using hlen) hw
  obtain ⟨t', hpops, heip, hebp, hesp', -, hcs, hmem', hws⟩ := reaches_epilogue (by rw [← ht]; exact hpop) hespt hw'
  refine ⟨t', hrun.trans hpops, heip, hebp, hesp', ?_, hmem'.trans hmem, hws⟩
  rw [hcs, ← ht]
  simp [Instr.effect, State.write]

/-- The processor is given for the first time to the task on `page`. Its context, from the word `q` on, and its stack
pointer are what they were in `m`, where they were written. -/
structure TakesOver (l : Labels) (m : Memory) (d : State) (page old : UInt32) (q : Nat) : Prop where
  switching : Switching l d old (load d.mem (cell page 5))
  saved : load d.mem (cell page 5) = load m (cell page 5)
  context : SameFrom page q m d.mem
  sysenterCs : d.sysenterCs = kernelCs

theorem TakesOver.reaches {m : Memory} {d : State} {old bp : UInt32} {ws : List UInt32} (h : TakesOver l m d base old q)
    (x : Linked c l) (hold : old.toNat % 4096 = 0) (hbase : base.toNat % 4096 = 0) (hq : 20 ≤ q)
    (hlen : q + (ws.length + 2) ≤ 1024) (hesp : load m (cell base 5) = cell base q)
    (hw : Words m (cell base q) (bp :: f :: ws)) : ∃ t, Reaches c d t ∧ t.eip = f ∧ t.reg .ebp = bp ∧
      t.reg .esp = cell base (q + 2) ∧ t.sysenterCs = kernelCs ∧ t.mem = store d.mem (cell old 5) (d.reg .ebp) ∧
      Words t.mem (cell base (q + 2)) ws := by
  have hswitch := h.switching
  rw [h.saved, hesp] at hswitch
  obtain ⟨t, hrun, heip, hebp, hesp', hcs, hmem, hws⟩ := hswitch.reaches x hold hbase hq hlen
    (h.context.words (Nat.le_refl q) hlen hw)
  exact ⟨t, hrun, heip, hebp, hesp', hcs.trans h.sysenterCs, hmem, hws⟩

end

/-! ## One text -/

/-- The labels of `sampleText`, which has one instruction at each address. -/
def sampleLabels : Labels where
  systemCallHandler := 0
  callReturn := 24
  sysenterErr := 25
  sysenterFin := 26
  sysCallTable := 0x20000
  switchStack := 42
  retFromFork := 47

/-- The two files, `ret_from_fork`, and at 49 a C function. -/
def sampleText : List Instr :=
  systemCallHandler sampleLabels ++ [.jmp sampleLabels.sysenterFin] ++ sysenterErr ++ sysenterFin ++ switchStack ++
    [.mov (.imm 0) (.reg .eax), .ret] ++ prologue ++ epilogue

def sampleCode : Code := fun a => sampleText[a.toNat]?.map fun i => (i, a + 1)

theorem sample_linked : Linked sampleCode sampleLabels where
  handler := by decide +kernel
  behind := by decide +kernel
  err := by decide +kernel
  fin := ⟨42, by decide +kernel⟩
  switch := ⟨47, by decide +kernel⟩
  retFromFork := returns_const (b := 49) (by decide +kernel)

theorem sample_function : At sampleCode 49 prologue 51 ∧ At sampleCode 51 epilogue 53 := by decide +kernel

/-- A program calls with the number `n` on the stack page `base`; its flags have the bit for the identification of the
processor. -/
def sampleGate (n : Nat) (base : UInt32) : State where
  reg
    | .eax => .ofNat n
    | .esp => cell base 1024
    | .ebp => 0x11cff0
    | .ebx => 0x100000
    | .ecx => 0
    | .edx => 0x100000
    | _ => 0
  seg _ := 0x2B
  flags := ⟨false, false, false, false, false, false, false, 0x200002⟩
  eip := sampleLabels.systemCallHandler
  mem := store (fun _ => 0) (sampleLabels.sysCallTable + 4 * .ofNat n) 49
  sysenterCs := kernelCs

theorem sample_entered {n : Nat} {base : UInt32}
    (h : ∀ k < 4, 4096 ≤ (sampleLabels.sysCallTable + 4 * .ofNat n + .ofNat k - base).toNat) :
    Entered sampleLabels (sampleGate n base) n 49 base 1006 :=
  ⟨rfl, rfl, rfl, load_store _ _ _, h, rfl⟩

/-- The arguments of `switch_stack` on the stack page `old`, in the memory `m`; the flags are clear. -/
def sampleSwitch (m : Memory) (old next : UInt32) : State where
  reg
    | .esp => cell old 1000
    | _ => 0
  seg _ := 0x18
  flags := ⟨false, false, false, false, false, false, false, 2⟩
  eip := sampleLabels.switchStack
  mem := store (store m (cell old 1001) (cell old 5)) (cell old 1002) next
  sysenterCs := kernelCs

section
variable {m : Memory} {old page next : UInt32}

theorem sample_switching (hold : old.toNat % 4096 = 0) : Switching sampleLabels (sampleSwitch m old next) old next where
  eip := rfl
  stack := ⟨1000, by decide, by decide, rfl⟩
  save := by
    have hcell : cell old 1000 + 4 = cell old 1001 := cell_add old 1000 1
    change load (store (store m (cell old 1001) (cell old 5)) (cell old 1002) next) (cell old 1000 + 4) = cell old 5
    rw [hcell, load_store_cell hold hold (by decide) (by decide) (.inr (by decide)), load_store]
  next := by
    have hcell : cell old 1000 + 8 = cell old 1002 := cell_add old 1000 2
    change load (store (store m (cell old 1001) (cell old 5)) (cell old 1002) next) (cell old 1000 + 8) = next
    rw [hcell, load_store]

theorem sampleSwitch_kept (hold : old.toNat % 4096 = 0) (hpage : page.toNat % 4096 = 0) (hne : old ≠ page) {j : Nat}
    (hj : j < 1024) : load (sampleSwitch m old next).mem (cell page j) = load m (cell page j) := by
  change load (store (store m (cell old 1001) (cell old 5)) (cell old 1002) next) (cell page j) = _
  rw [load_store_cell hold hpage (by decide) hj (.inl hne), load_store_cell hold hpage (by decide) hj (.inl hne)]

theorem sample_takesOver (hold : old.toNat % 4096 = 0) (hpage : page.toNat % 4096 = 0) (hne : old ≠ page) (q : Nat) :
    TakesOver sampleLabels m (sampleSwitch m old (load m (cell page 5))) page old q where
  switching := by
    rw [sampleSwitch_kept hold hpage hne (by decide)]
    exact sample_switching hold
  saved := sampleSwitch_kept hold hpage hne (by decide)
  context := fun _ _ hj => sampleSwitch_kept hold hpage hne hj
  sysenterCs := rfl

end

end ZeosSOA.Sysenter
