import ZeosSOA.Pparri.Entry
import ZeosSOA.Sysenter.Entry

/-!
# The dispatch of the system calls

A number at the gate is that of an entry of `sys_call_table`, or it is refused. Both texts compare with
`MAX_SYSCALL`, the number of entries, by `jg`: the number `MAX_SYSCALL` itself gets through.
-/

namespace ZeosSOA

open X86 Gate

/-! ## What the dispatch is for -/

/-- `ENOSYS` of `errno.h`, in both kernels. -/
def enosys : UInt32 := 38

/-- An instruction that neither calls a function nor leaves the kernel. -/
def uncalling : Instr → Bool
  | .call _ | .callIndexed _ _ | .sysexit => false
  | _ => true

def inKernel : Instr → Bool
  | .sysexit => false
  | _ => true

/-- The program that was at the gate in `s` goes on in `u` with the value `v`. -/
structure Back (s u : State) (v : UInt32) : Prop where
  eax : u.reg .eax = v
  eip : u.eip = callerEip s
  esp : u.reg .esp = s.reg .ebp
  cs : u.seg .cs = userCs.toUInt16

/-- With instructions that are `P` alone the run comes to `sysexit`, which gives `v` to the program. -/
def Exits (P : Instr → Bool) (c : Code) (s : State) (v : UInt32) : Prop :=
  ∃ t next, Stops (only P c) s t ∧ c t.eip = some (.sysexit, next) ∧ Back s t.exitToUser v

/-- The first call of the run goes through the word `i` of the table, to `f`. -/
def Calls (c : Code) (l : Gate.Labels) (s : State) (i : Nat) (f : UInt32) : Prop :=
  ∃ t next, Stops (only uncalling c) s t ∧ c t.eip = some (.callIndexed l.sysCallTable .eax, next) ∧
    t.reg .eax = .ofNat i ∧ load t.mem (l.sysCallTable + 4 * .ofNat i) = f

/-- The number in `eax` names no function but `sys_ni_syscall`. -/
def Unimplemented (x : Text) (eax : UInt32) : Prop := ∀ f, x.sysCallTable[eax.toNat]? = some f → f = .sysNiSyscall

/-- At the gate in `s`: a call of the entry of that number, or none and the error; and the error for each number
that is not implemented. -/
structure Dispatches (x : Text) (c : Code) (l : Gate.Labels) (addr : SysFunction → UInt32) (s : State) : Prop where
  inTable : (∃ f, x.sysCallTable[(s.reg .eax).toNat]? = some f ∧ Calls c l s (s.reg .eax).toNat (addr f)) ∨
    Exits uncalling c s (0 - enosys)
  unimplemented : Unimplemented x (s.reg .eax) → Exits inKernel c s (0 - enosys)

/-- `sysenter` has come to the gate, on the stack page `base`. In memory is the table with the addresses of the functions,
of which `sys_ni_syscall` is compiled as C wants it. -/
structure AtGate (x : Text) (c : Code) (l : Gate.Labels) (addr : SysFunction → UInt32) (base : UInt32) (s : State) :
    Prop where
  eip : s.eip = l.handler
  esp : s.reg .esp = cell base 1024
  sysenterCs : s.sysenterCs = kernelCs
  table : Words s.mem l.sysCallTable (x.sysCallTable.map addr)
  apart : ∀ i < x.sysCallTable.length, ∀ k < 4, 4096 ≤ (l.sysCallTable + 4 * .ofNat i + .ofNat k - base).toNat
  sysNiSyscall : Returns (only inKernel c) (addr .sysNiSyscall) (0 - enosys)

section
variable {x : Text} {c : Code} {l : Gate.Labels} {addr : SysFunction → UInt32} {base v w : UInt32} {s t : State}
  {P Q : Instr → Bool}

/-! ## One run, one end -/

theorem Exits.unique (h : Exits P c s v) (h' : Exits P c s w) : v = w := by
  obtain ⟨t, -, ht, -, hback⟩ := h
  obtain ⟨t', -, ht', -, hback'⟩ := h'
  rw [← hback.eax, ← hback'.eax, ht.unique ht']

theorem Exits.only (h : Exits P c s v) (hpq : ∀ i, P i = true → Q i = true) (hq : Q .sysexit = false) : Exits Q c s v := by
  obtain ⟨t, next, ht, hexit, hback⟩ := h
  exact ⟨t, next, stops_at (reaches_only hpq (StateTransition.mem_eval.mp ht).1) hexit hq, hexit, hback⟩

theorem Calls.not_exits {i : Nat} {f : UInt32} (h : Calls c l s i f) : ¬ Exits uncalling c s v := by
  obtain ⟨t, _, ht, hcall, -⟩ := h
  rintro ⟨t', _, ht', hexit, -⟩
  rw [ht.unique ht', hexit] at hcall
  cases hcall

theorem uncalling_inKernel : ∀ i, uncalling i = true → inKernel i = true := by
  intro i hi
  cases i with
  | sysexit => cases hi
  | _ => rfl

theorem straight_uncalling : ∀ i : Instr, i.straight = true → uncalling i = true := by
  intro i hi
  cases i with
  | call | callIndexed | sysexit => cases hi
  | _ => rfl

/-! ## Through the gate -/

/-- The signed comparisons of the handler find the numbers above the table. -/
theorem over_iff {n : Nat} (hn : n < 2 ^ 30) (a : UInt32) :
    signed a < 0 ∨ signed (.ofNat n) < signed a ↔ n < a.toNat := by
  have ha := a.toNat_lt
  have hmax : (UInt32.ofNat n).toNat = n := by
    rw [UInt32.toNat_ofNat']
    exact Nat.mod_eq_of_lt (by omega)
  simp only [signed, negative_eq, hmax, decide_eq_true_iff]
  split <;> split <;> omega

/-- The stack has been made and nothing else that matters is done. -/
structure Served (x : Text) (base : UInt32) (s t : State) : Prop where
  eax : t.reg .eax = s.reg .eax
  esp : t.reg .esp = cell base 1008
  mem : t.mem = (block (pushes x.saved) s).mem
  sysenterCs : t.sysenterCs = kernelCs

theorem Served.words (h : Served x base s t) (hs : s.reg .esp = cell base 1024) :
    Words t.mem (cell base 1008) (frame x.saved s (callerEip s) (s.reg .ebp)) := by
  rw [h.mem]
  exact (pushed_cell x.saved (q := 1008) hs).2

theorem AtGate.served (h : AtGate x c l addr base s) : Served x base s (block (pushes x.saved ++ checks) s) := by
  have hpush := pushed_frame x.saved s
  obtain ⟨hreg, hmem, hcs, -⟩ := checks_keeps (block (pushes x.saved) s)
  rw [block_append]
  refine ⟨?_, ?_, hmem, ?_⟩
  · rw [hreg .eax (by decide), hpush.reg .eax (by decide)]
  · rw [hreg .esp (by decide)]
    exact (pushed_cell x.saved (q := 1008) h.esp).1
  · rw [hcs, hpush.sysenterCs, h.sysenterCs]

theorem Served.cmp {a : Operand} {b : Operand} (h : Served x base s t) : Served x base s (block [.cmp a b] t) := by
  rw [block_cmp]
  exact ⟨h.eax, h.esp, h.mem, h.sysenterCs⟩

theorem Served.goto (h : Served x base s t) (a : UInt32) : Served x base s (t.goto a) := ⟨h.eax, h.esp, h.mem, h.sysenterCs⟩

theorem gate_uncalling (v : Saved) (err maxSyscall : UInt32) :
    ∀ i ∈ pushes v ++ (checks ++ [.jl err, .cmp (.imm maxSyscall) (.reg .eax), .jg err]), uncalling i = true := by
  intro i hi
  rcases List.mem_append.mp hi with hi | hi
  · exact straight_uncalling i (pushes_straight v i hi)
  rcases List.mem_append.mp hi with hi | hi
  · exact straight_uncalling i (checks_straight i hi)
  · simp only [List.mem_cons, List.not_mem_nil, or_false] at hi
    rcases hi with rfl | rfl | rfl <;> rfl

theorem AtGate.comes (h : AtGate x c l addr base s) (p : Placed x c l) :
    ∃ t, Reaches (only uncalling c) s t ∧ Served x base s t ∧
      if x.sysCallTable.length < (s.reg .eax).toNat then t.eip = l.sysenterErr
      else c t.eip = some (.callIndexed l.sysCallTable .eax, l.callReturn) := by
  obtain ⟨a, hgate, hcall⟩ := p.call
  rw [← h.eip] at hgate
  have hrun := reaches_handler (hgate.only (gate_uncalling x.saved l.sysenterErr x.maxSyscall))
  have hover := over_iff x.fits (s.reg .eax)
  by_cases hneg : signed (s.reg .eax) < 0
  · rw [if_pos hneg] at hrun
    refine ⟨_, hrun, h.served.goto _, ?_⟩
    rw [if_pos (hover.mp (.inl hneg))]
    rfl
  rw [if_neg hneg, ← List.append_assoc, block_append] at hrun
  refine ⟨_, hrun, h.served.cmp.goto _, ?_⟩
  by_cases hmax : signed x.maxSyscall < signed (s.reg .eax)
  · rw [if_pos (hover.mp (.inr hmax)), if_pos hmax]
    rfl
  · rw [if_neg fun hlt => (hover.mpr hlt).elim hneg hmax, if_neg hmax]
    exact hcall

/-! ## Back to the program -/

theorem exits_fin (p : Placed x c l) (hP : ∀ i, i.straight = true → P i = true)
    (hexit : P .sysexit = false) (hrun : Reaches (only P c) s t) (heip : t.eip = l.sysenterFin)
    (hesp : t.reg .esp = cell base 1008) (hw : Words t.mem (cell base 1008) (frame x.saved s (callerEip s) (s.reg .ebp)))
    (hcs : t.sysenterCs = kernelCs) : Exits P c s (t.reg .eax) := by
  obtain ⟨a, next, hfin, hleave⟩ := p.exit
  rw [← heip] at hfin
  obtain ⟨u, hback, heip', hres⟩ := reaches_fin (hfin.only fun i hi => hP i (fin_straight x.saved i hi)) hesp hw
  have hat : c u.eip = some (.sysexit, next) := by rw [heip', hleave]
  refine ⟨u, next, stops_at (hrun.trans hback) hat hexit, hat, ?_, ?_, ?_, (exit_selectors (hres.sysenterCs.trans hcs)).1⟩
  · simpa [State.exitToUser] using hres.eax
  · simpa [State.exitToUser] using hres.edx
  · simpa [State.exitToUser] using hres.ecx

/-- A number above the table comes back as the error of `entry.S`, without a call. -/
theorem AtGate.refused (h : AtGate x c l addr base s) (p : Placed x c l)
    (hover : x.sysCallTable.length < (s.reg .eax).toNat) : Exits uncalling c s (0 - x.enosys) := by
  obtain ⟨t, hrun, hserved, heip⟩ := h.comes p
  rw [if_pos hover] at heip
  have hstraight := sysenterErr_straight x.enosys
  have hat := p.err.only fun i hi => straight_uncalling i (hstraight i hi)
  rw [← heip] at hat
  have herr := reaches_block hat hstraight
  have heax : (block (Gate.sysenterErr x.enosys) t).reg .eax = 0 - x.enosys := by simp [Gate.sysenterErr, Instr.effect]
  have hesp : (block (Gate.sysenterErr x.enosys) t).reg .esp = t.reg .esp := by simp [Gate.sysenterErr, Instr.effect]
  have := exits_fin p straight_uncalling rfl (hrun.trans herr) rfl (hesp.trans hserved.esp) (hserved.words h.esp)
    hserved.sysenterCs
  rwa [State.goto_reg, heax] at this

/-- The next number after those of the table is not refused. -/
theorem AtGate.calls (h : AtGate x c l addr base s) (p : Placed x c l)
    (hle : (s.reg .eax).toNat ≤ x.sysCallTable.length) : ∃ t, Stops (only uncalling c) s t ∧ Served x base s t ∧
      c t.eip = some (.callIndexed l.sysCallTable .eax, l.callReturn) := by
  obtain ⟨t, hrun, hserved, hcall⟩ := h.comes p
  rw [if_neg (Nat.not_lt.mpr hle)] at hcall
  exact ⟨t, stops_at hrun hcall rfl, hserved, hcall⟩

theorem AtGate.entry (h : AtGate x c l addr base s) (hserved : Served x base s t) {n : Nat} {f : SysFunction}
    (hf : x.sysCallTable[n]? = some f) : load t.mem (l.sysCallTable + 4 * .ofNat n) = addr f := by
  obtain ⟨hn, hf⟩ := List.getElem?_eq_some_iff.mp hf
  have hword := h.table n (by rw [List.length_map]; exact hn)
  rw [List.getElem_map, hf] at hword
  rw [hserved.mem, pushed_load x.saved (q := 1008) h.esp (by decide) (h.apart n hn), hword]

/-- A slot of `sys_ni_syscall` gives its value to the program. -/
theorem AtGate.slot (h : AtGate x c l addr base s) (p : Placed x c l)
    (hni : x.sysCallTable[(s.reg .eax).toNat]? = some .sysNiSyscall) : Exits inKernel c s (0 - enosys) := by
  have hlt : (s.reg .eax).toNat < x.sysCallTable.length := (List.getElem?_eq_some_iff.mp hni).1
  obtain ⟨t, hstop, hserved, hcall⟩ := h.calls p (Nat.le_of_lt hlt)
  have hentry := h.entry hserved hni
  rw [UInt32.ofNat_toNat, ← hserved.eax] at hentry
  have hcalled : Reaches (only inKernel c) s ((t.push l.callReturn).goto (addr .sysNiSyscall)) := by
    apply (reaches_only uncalling_inKernel (StateTransition.mem_eval.mp hstop).1).trans
    apply reaches_exec (only_eq_some.mpr ⟨hcall, rfl⟩)
    rw [exec_callIndexed, hentry]
  have hstack := hserved.words h.esp
  rw [← hserved.esp] at hstack
  obtain ⟨t', hfun, heip, heax, hesp, hcs, hw⟩ := h.sysNiSyscall.call hstack
    (by rw [frame_length]; decide)
  rw [hserved.esp] at hesp hw
  obtain ⟨a, hjmp, -⟩ := at_cons.mp p.behind
  have hback : Reaches (only inKernel c) s (t'.goto l.sysenterFin) := by
    apply (hcalled.trans hfun).trans
    apply reaches_exec (only_eq_some.mpr ⟨by rw [heip]; exact hjmp, rfl⟩)
    exact Relation.ReflTransGen.refl
  have := exits_fin p (fun i hi => uncalling_inKernel i (straight_uncalling i hi)) rfl hback rfl hesp hw
    (hcs.trans hserved.sysenterCs)
  rwa [State.goto_reg, heax] at this

/-! ## When the dispatch is right -/

theorem AtGate.dispatches_iff (h : AtGate x c l addr base s) (p : Placed x c l) : Dispatches x c l addr s ↔
    (s.reg .eax).toNat < x.sysCallTable.length ∨
      (s.reg .eax).toNat ≠ x.sysCallTable.length ∧ x.enosys = enosys := by
  constructor
  · intro hd
    by_cases hlt : (s.reg .eax).toNat < x.sysCallTable.length
    · exact .inl hlt
    have hnone : x.sysCallTable[(s.reg .eax).toNat]? = none := List.getElem?_eq_none (Nat.le_of_not_lt hlt)
    have hexits : Exits uncalling c s (0 - enosys) := by
      refine hd.inTable.resolve_left ?_
      rintro ⟨f, hf, -⟩
      rw [hnone] at hf
      cases hf
    by_cases heq : (s.reg .eax).toNat = x.sysCallTable.length
    · obtain ⟨t, hstop, hserved, hcall⟩ := h.calls p (Nat.le_of_eq heq)
      have hcalls : Calls c l s (s.reg .eax).toNat (load t.mem (l.sysCallTable + 4 * .ofNat (s.reg .eax).toNat)) :=
        ⟨t, _, hstop, hcall, by rw [UInt32.ofNat_toNat, hserved.eax], rfl⟩
      exact absurd hexits hcalls.not_exits
    · have hsame := hexits.unique (h.refused p (by omega))
      refine .inr ⟨heq, ?_⟩
      grind
  · intro hcond
    by_cases hlt : (s.reg .eax).toNat < x.sysCallTable.length
    · obtain ⟨t, hstop, hserved, hcall⟩ := h.calls p (Nat.le_of_lt hlt)
      have hf := List.getElem?_eq_getElem hlt
      refine ⟨.inl ⟨_, hf, t, _, hstop, hcall, by rw [UInt32.ofNat_toNat, hserved.eax], h.entry hserved hf⟩, fun hun => ?_⟩
      rw [hun _ hf] at hf
      exact h.slot p hf
    · obtain ⟨hne, henosys⟩ := hcond.resolve_left hlt
      have hexits := h.refused p (by omega)
      rw [henosys] at hexits
      exact ⟨.inr hexits, fun _ => hexits.only uncalling_inKernel rfl⟩

end

/-! ## One text of each kernel -/

/-- `sys_ni_syscall`, compiled. -/
def sampleNi : List Instr := [.mov (.imm (0 - 38)) (.reg .eax), .ret]

def sampleSysenter : Code := fun a => (Sysenter.sampleText ++ sampleNi)[a.toNat]?.map fun i => (i, a + 1)

def samplePparri : Code := fun a =>
  (Pparri.syscallHandlerSysenter Sysenter.sampleLabels.gate ++ [.jmp Sysenter.sampleLabels.sysenterFin] ++
    Pparri.sysenterErr ++ Pparri.sysenterFin ++ sampleNi)[a.toNat]?.map fun i => (i, a + 1)

/-- The addresses of the functions, where `sys_ni_syscall` is at `a`. -/
def sampleAddr (a : UInt32) : SysFunction → UInt32
  | .sysNiSyscall => a
  | _ => 0x1000

/-- The words lie where the table is. -/
def sampleMemory (ws : List UInt32) : Memory := fun b =>
  let off := (b - Sysenter.sampleLabels.sysCallTable).toNat
  byteOf (ws.getD (off / 4) 0) (off % 4)

/-- The number `n` at the gate. -/
def sampleNumber (n : Nat) (ws : List UInt32) : State := { Sysenter.sampleGate n 0x30000 with mem := sampleMemory ws }

theorem sampleMemory_words {ws : List UInt32} (hlen : ws.length < 2 ^ 30) :
    Words (sampleMemory ws) Sysenter.sampleLabels.sysCallTable ws := by
  intro i hi
  apply load_bytes
  intro k hk
  have hword := word_offset (i := i) (by omega)
  have hoff : (Sysenter.sampleLabels.sysCallTable + 4 * .ofNat i + .ofNat k - Sysenter.sampleLabels.sysCallTable).toNat =
      4 * i + k := by
    rw [UInt32.add_assoc, add_sub_self, offset_add (by omega), hword]
  have hdiv : (4 * i + k) / 4 = i := by omega
  have hmod : (4 * i + k) % 4 = k := by omega
  simp only [sampleMemory, hoff, hdiv, hmod]
  rw [List.getD_eq_getElem?_getD, List.getElem?_eq_getElem hi, Option.getD_some]

theorem sample_linked_sysenter : Sysenter.Linked sampleSysenter Sysenter.sampleLabels where
  handler := by decide +kernel
  behind := by decide +kernel
  err := by decide +kernel
  fin := ⟨42, by decide +kernel⟩
  switch := ⟨47, by decide +kernel⟩
  retFromFork := returns_const (b := 49) (by decide +kernel)

theorem sample_linked_pparri : Pparri.Linked samplePparri Sysenter.sampleLabels.gate where
  handler := by decide +kernel
  behind := by decide +kernel
  err := by decide +kernel
  fin := ⟨42, by decide +kernel⟩

theorem sample_atGate_sysenter (n : Nat) : AtGate Sysenter.gateText sampleSysenter Sysenter.sampleLabels.gate (sampleAddr 53)
    0x30000 (sampleNumber n (Sysenter.sysCallTable.map (sampleAddr 53))) where
  eip := rfl
  esp := rfl
  sysenterCs := rfl
  table := sampleMemory_words (by decide)
  apart := by decide +kernel
  sysNiSyscall := returns_const (b := 55) (by decide +kernel)

theorem sample_atGate_pparri (n : Nat) : AtGate Pparri.gateText samplePparri Sysenter.sampleLabels.gate (sampleAddr 42)
    0x30000 (sampleNumber n (Pparri.sysCallTable.map (sampleAddr 42))) where
  eip := rfl
  esp := rfl
  sysenterCs := rfl
  table := sampleMemory_words (by decide)
  apart := by decide +kernel
  sysNiSyscall := returns_const (b := 44) (by decide +kernel)

/-! ## The two kernels -/

/-- In ZeOSSysenter the dispatch is right for every number but the one that is the number of entries. In zeOSpparri it
is so below that number only: what is refused comes back with another error than that of the empty slots. -/
theorem dispatch_in_table {c : Code} {addr : SysFunction → UInt32} {base : UInt32} {s : State} (l : Sysenter.Labels)
    (l' : Gate.Labels) :
    (Sysenter.Linked c l → AtGate Sysenter.gateText c l.gate addr base s →
      (Dispatches Sysenter.gateText c l.gate addr s ↔ s.reg .eax ≠ 36)) ∧
    (Pparri.Linked c l' → AtGate Pparri.gateText c l' addr base s →
      (Dispatches Pparri.gateText c l' addr s ↔ s.reg .eax < 21)) := by
  constructor
  · intro hlinked h
    have hlen : Sysenter.gateText.sysCallTable.length = 36 := rfl
    have heax : s.reg .eax ≠ 36 ↔ (s.reg .eax).toNat ≠ 36 := not_congr UInt32.toNat_inj.symm
    rw [h.dispatches_iff hlinked.placed, hlen, heax]
    exact ⟨fun hd => hd.elim Nat.ne_of_lt And.left, fun hne => .inr ⟨hne, rfl⟩⟩
  · intro hlinked h
    have hlen : Pparri.gateText.sysCallTable.length = 21 := rfl
    have herr : Pparri.gateText.enosys ≠ enosys := by decide
    rw [h.dispatches_iff hlinked.placed, hlen, UInt32.lt_iff_toNat_lt]
    exact ⟨fun hd => hd.resolve_right fun hright => herr hright.2, .inl⟩

/-- The last entry of ZeOSSysenter, and a slot of zeOSpparri. -/
theorem dispatch_in_table_samples :
    Dispatches Sysenter.gateText sampleSysenter Sysenter.sampleLabels.gate (sampleAddr 53)
      (sampleNumber 35 (Sysenter.sysCallTable.map (sampleAddr 53))) ∧
    Dispatches Pparri.gateText samplePparri Sysenter.sampleLabels.gate (sampleAddr 42)
      (sampleNumber 11 (Pparri.sysCallTable.map (sampleAddr 42))) :=
  have hsysenter := dispatch_in_table Sysenter.sampleLabels Sysenter.sampleLabels.gate
  have hpparri := dispatch_in_table Sysenter.sampleLabels Sysenter.sampleLabels.gate
  ⟨(hsysenter.1 sample_linked_sysenter (sample_atGate_sysenter 35)).mpr (by decide),
    (hpparri.2 sample_linked_pparri (sample_atGate_pparri 11)).mpr (by decide)⟩

/-- In ZeOSSysenter the number 36 is called through the word behind the table. In zeOSpparri the number 22 is refused
with 88. -/
theorem dispatch_leaves_table :
    (∃ w, Calls sampleSysenter Sysenter.sampleLabels.gate (sampleNumber 36 (Sysenter.sysCallTable.map (sampleAddr 53))) 36 w) ∧
    ¬ Dispatches Sysenter.gateText sampleSysenter Sysenter.sampleLabels.gate (sampleAddr 53)
      (sampleNumber 36 (Sysenter.sysCallTable.map (sampleAddr 53))) ∧
    Exits uncalling samplePparri (sampleNumber 22 (Pparri.sysCallTable.map (sampleAddr 42))) (0 - 88) ∧
    ¬ Dispatches Pparri.gateText samplePparri Sysenter.sampleLabels.gate (sampleAddr 42)
      (sampleNumber 22 (Pparri.sysCallTable.map (sampleAddr 42))) := by
  have h := sample_atGate_sysenter 36
  have h' := sample_atGate_pparri 22
  refine ⟨?_, fun hd => ?_, h'.refused sample_linked_pparri.placed (by decide), fun hd => ?_⟩
  · obtain ⟨t, hstop, hserved, hcall⟩ := h.calls sample_linked_sysenter.placed (by decide)
    exact ⟨_, t, _, hstop, hcall, hserved.eax, rfl⟩
  · revert hd
    rw [h.dispatches_iff sample_linked_sysenter.placed]
    decide
  · revert hd
    rw [h'.dispatches_iff sample_linked_pparri.placed]
    decide

end ZeosSOA
