import Mathlib.Data.List.Nodup
import ZeosSOA.X86

/-!
# The gate of the system calls

What `system_call_handler` of ZeOSSysenter and `syscall_handler_sysenter` of zeOSpparri do. The two texts
differ in the order of the registers in `SAVE_ALL`, in the table and in the error.
-/

namespace ZeosSOA.Gate

open X86

def kernelDs : UInt32 := 0x18

def userCs : UInt32 := 0x23

def userDs : UInt32 := 0x2B

/-- What `setIdt` has put into `sysenterCs`. -/
def kernelCs : UInt16 := 0x10

/-- The operands of `SAVE_ALL`, in the order they are pushed in. The handler writes to the place of `eax` by its number, and
the last three are the arguments of the C functions. -/
structure Saved where
  operands : List Operand
  register : ∀ o ∈ operands, o.register = true
  nodup : operands.Nodup
  size : operands.length = 11
  eax : operands.reverse[6]? = some (.reg .eax)
  args : ∃ r1 r2 r3, operands.reverse.take 3 = [.reg r1, .reg r2, .reg r3]

/-- The functions that `sys_call_table` names in the one kernel or the other. -/
inductive SysFunction where
  | sysNiSyscall
  | sysExit
  | sysFork
  | sysWrite
  | sysGettime
  | sysBlock
  | sysUnblock
  | sysYield
  | sysGetpid
  | sysGetKey
  | sysSbrk
  | sysGotoXY
  | sysSetColor
  | sysSpritePut
  | sysThreadCreate
  | sysThreadExit
  | sysSemCreate
  | sysSemWait
  | sysSemSignal
  | sysSemDestroy
  | sysGetStats
  deriving DecidableEq

/-- What one kernel has of its own in `entry.S` and `sys_call_table.S`; `enosys` is `ENOSYS` as `entry.S` sees it. -/
structure Text where
  saved : Saved
  sysCallTable : List SysFunction
  enosys : UInt32
  fits : sysCallTable.length < 2 ^ 30

/-- `(. - sys_call_table)/4` -/
def Text.maxSyscall (x : Text) : UInt32 := .ofNat x.sysCallTable.length

/-- The addresses of the labels. -/
structure Labels where
  handler : UInt32
  /-- The address behind the indirect call. -/
  callReturn : UInt32
  sysenterErr : UInt32
  sysenterFin : UInt32
  sysCallTable : UInt32

/-! ## The code -/

/-- The return context, as the processor would save it, and the registers. -/
def pushes (v : Saved) : List Instr :=
  [.push (.imm userDs), .push (.reg .ebp), .pushfl, .push (.imm userCs), .push (.mem 4 .ebp)] ++ v.operands.map .push

/-- From the end of `SAVE_ALL` to the first comparison. -/
def checks : List Instr :=
  [.mov (.imm kernelDs) (.reg .edx), .mov (.reg .edx) (.seg .ds), .mov (.reg .edx) (.seg .es), .cmp (.imm 0) (.reg .eax)]

def handler (v : Saved) (maxSyscall : UInt32) (l : Labels) : List Instr :=
  pushes v ++ (checks ++ [.jl l.sysenterErr, .cmp (.imm maxSyscall) (.reg .eax), .jg l.sysenterErr]) ++
    [.callIndexed l.sysCallTable .eax]

def sysenterErr (enosys : UInt32) : List Instr := [.mov (.imm (0 - enosys)) (.reg .eax)]

/-- `sysenter_fin` up to its last instruction. -/
def fin (v : Saved) : List Instr :=
  [.mov (.reg .eax) (.mem 0x18 .esp)] ++ (v.operands.reverse.map .pop ++
    [.mov (.mem 0 .esp) (.reg .edx), .mov (.mem 12 .esp) (.reg .ecx), .sti])

def sysenterFin (v : Saved) : List Instr := fin v ++ [.sysexit]

/-- The text lies in the code. -/
structure Placed (x : Text) (c : Code) (l : Labels) : Prop where
  handler : At c l.handler (handler x.saved x.maxSyscall l) l.callReturn
  behind : At c l.callReturn [.jmp l.sysenterFin] l.sysenterErr
  err : At c l.sysenterErr (sysenterErr x.enosys) l.sysenterFin
  fin : ∃ next, At c l.sysenterFin (sysenterFin x.saved) next

/-! ## The stack -/

/-- What the handler pushes: the registers of `s` on top of what takes the place of a return context. -/
def frame (v : Saved) (s : State) (ret sp : UInt32) : List UInt32 :=
  (v.operands.map s.read).reverse ++ [ret, userCs, s.flags.word, sp, userDs]

/-- The word above the one that `ebp` points to, with four words of the return context on the stack. -/
def callerEip (s : State) : UInt32 :=
  (((s.push userDs).push (s.reg .ebp)).push s.flags.word |>.push userCs).read (.mem 4 .ebp)

section
variable {x : Text} {l : Labels} {c : Code} {v : Saved} {s t : State} {base a err ret sp maxSyscall : UInt32} {q : Nat} {o : Operand}

theorem fixed_of_register (h : o.register = true) : o.fixed = true := by
  cases o with
  | reg r => exact h
  | seg r => rfl
  | imm v => cases h
  | mem disp base => cases h

theorem frame_length (v : Saved) (s : State) (ret sp : UInt32) : (frame v s ret sp).length = 16 := by
  simp [frame, v.size]

theorem pushes_straight (v : Saved) : ∀ i ∈ pushes v, i.straight = true := by
  simp [pushes, Instr.straight, or_imp, forall_and]

theorem checks_straight : ∀ i ∈ checks, i.straight = true := by
  simp [checks, Instr.straight]

theorem sysenterErr_straight (enosys : UInt32) : ∀ i ∈ sysenterErr enosys, i.straight = true := by
  simp [sysenterErr, Instr.straight]

theorem fin_straight (v : Saved) : ∀ i ∈ fin v, i.straight = true := by
  simp [fin, Instr.straight, or_imp, forall_and]

theorem pushed_frame (v : Saved) (s : State) :
    Pushed s (block (pushes v) s) (frame v s (callerEip s) (s.reg .ebp)) := by
  rw [pushes, block_append]
  have h := ((((Pushed.refl s).push userDs).push (s.reg .ebp)).push s.flags.word).push userCs
  exact (h.push (callerEip s)).block fun o ho => fixed_of_register (v.register o ho)

theorem pushed_cell (v : Saved) (hesp : s.reg .esp = cell base (q + 16)) : (block (pushes v) s).reg .esp = cell base q ∧
    Words (block (pushes v) s).mem (cell base q) (frame v s (callerEip s) (s.reg .ebp)) := by
  have hpush := pushed_frame v s
  have hdown : (block (pushes v) s).reg .esp = cell base q := by
    rw [hpush.esp, hesp, frame_length]
    exact cell_sub base q 16
  have hframe := hpush.words [] (by simp [frame_length]) (words_nil _ _)
  rw [List.append_nil, hdown] at hframe
  exact ⟨hdown, hframe⟩

/-- What the handler pushes is not seen outside the stack page. -/
theorem pushed_load (v : Saved) {b : UInt32} (hesp : s.reg .esp = cell base (q + 16)) (hq : q + 16 ≤ 1024)
    (hb : ∀ k < 4, 4096 ≤ (b + .ofNat k - base).toNat) : load (block (pushes v) s).mem b = load s.mem b := by
  apply load_congr
  intro k hk
  apply (pushed_frame v s).other
  have := outside (j := q) (hb k hk) (by omega)
  rw [frame_length, (pushed_cell v hesp).1]
  omega

/-! ## To the table -/

theorem Placed.call (h : Placed x c l) : ∃ a,
    At c l.handler (pushes x.saved ++
      (checks ++ [.jl l.sysenterErr, .cmp (.imm x.maxSyscall) (.reg .eax), .jg l.sysenterErr])) a ∧
    c a = some (.callIndexed l.sysCallTable .eax, l.callReturn) := by
  obtain ⟨a, hgate, hcall⟩ := at_append.mp h.handler
  obtain ⟨b, hcall, hback⟩ := at_cons.mp hcall
  have hback : b = l.callReturn := hback
  rw [hback] at hcall
  exact ⟨a, hgate, hcall⟩

theorem Placed.exit (h : Placed x c l) : ∃ a next, At c l.sysenterFin (Gate.fin x.saved) a ∧ c a = some (.sysexit, next) := by
  obtain ⟨b, hfin⟩ := h.fin
  obtain ⟨a, hfin, hexit⟩ := at_append.mp hfin
  obtain ⟨next, hexit, -⟩ := at_cons.mp hexit
  exact ⟨a, next, hfin, hexit⟩

theorem checks_keeps (t : State) : (∀ r, r ≠ .edx → (block checks t).reg r = t.reg r) ∧
    (block checks t).mem = t.mem ∧ (block checks t).sysenterCs = t.sysenterCs ∧
    (block checks t).flags = t.flags.compare (t.reg .eax) 0 := by
  refine ⟨fun r hr => ?_, ?_, ?_, ?_⟩
  · simp [checks, Instr.effect, hr]
  · simp [checks, Instr.effect]
  · simp [checks, Instr.effect]
  · simp [checks, Instr.effect]

theorem reaches_checks
    (h : At c t.eip (checks ++ [.jl err, .cmp (.imm maxSyscall) (.reg .eax), .jg err]) a) :
    Reaches c t (if signed (t.reg .eax) < 0 then (block checks t).goto err
      else (block [.cmp (.imm maxSyscall) (.reg .eax)] (block checks t)).goto
        (if signed maxSyscall < signed (t.reg .eax) then err else a)) := by
  obtain ⟨a1, hchecks, hat⟩ := at_append.mp h
  obtain ⟨a2, hjl, hat⟩ := at_cons.mp hat
  obtain ⟨a3, hcmp, hat⟩ := at_cons.mp hat
  obtain ⟨a4, hjg, hend⟩ := at_cons.mp hat
  have hend : a4 = a := hend
  have hchecked := reaches_block hchecks checks_straight
  obtain ⟨hreg, -, -, hflags⟩ := checks_keeps t
  have heax := hreg .eax (by decide)
  generalize block checks t = u at hchecked heax hflags ⊢
  have hflags' : (block [.cmp (.imm maxSyscall) (.reg .eax)] u).flags = u.flags.compare (t.reg .eax) maxSyscall := by
    rw [← heax]
    rfl
  have hless := exec_jl (s := u.goto a1) hflags err a2
  have hmore := exec_jg (s := (block [.cmp (.imm maxSyscall) (.reg .eax)] u).goto a3) hflags' err a4
  have hzero : signed 0 = 0 := by decide
  rw [hzero] at hless
  rw [hend] at hmore
  apply hchecked.trans
  apply reaches_exec (s := u.goto a1) hjl
  rw [hless]
  by_cases hneg : signed (t.reg .eax) < 0
  · rw [if_pos hneg, if_pos hneg]
    exact Relation.ReflTransGen.refl
  rw [if_neg hneg, if_neg hneg]
  apply reaches_exec (s := u.goto a2) hcmp
  apply reaches_exec (s := (block [.cmp (.imm maxSyscall) (.reg .eax)] u).goto a3) hjg
  rw [hend, hmore]
  exact Relation.ReflTransGen.refl

/-- From the gate to the error or to the call at `a`. -/
theorem reaches_handler
    (h : At c s.eip (pushes v ++ (checks ++ [.jl err, .cmp (.imm maxSyscall) (.reg .eax), .jg err])) a) :
    Reaches c s (if signed (s.reg .eax) < 0 then (block (pushes v ++ checks) s).goto err
      else (block (pushes v ++ (checks ++ [.cmp (.imm maxSyscall) (.reg .eax)])) s).goto
        (if signed maxSyscall < signed (s.reg .eax) then err else a)) := by
  obtain ⟨b, hpushes, hchecks⟩ := at_append.mp h
  have hpushed := reaches_block hpushes (pushes_straight v)
  have hchecked := reaches_checks (t := (block (pushes v) s).goto b) hchecks
  simp only [block_goto, State.goto_goto, State.goto_reg, (pushed_frame v s).reg .eax (by decide)] at hchecked
  rw [block_append, block_append, block_append]
  exact hpushed.trans hchecked

/-! ## Back to user mode -/

/-- In `u`, in front of `sysexit`, the registers of `s` are back, with `eax` and the flags of `t`. `ret` and `sp` are
where the user program goes on. -/
structure Restored (v : Saved) (s t u : State) (base : UInt32) (q : Nat) (ret sp : UInt32) : Prop where
  eax : u.reg .eax = t.reg .eax
  edx : u.reg .edx = ret
  ecx : u.reg .ecx = sp
  reg : ∀ r ∉ [Reg.eax, .ecx, .edx], .reg r ∈ v.operands → u.reg r = s.reg r
  seg : ∀ r, .seg r ∈ v.operands → u.seg r = s.seg r
  flags : u.flags = { t.flags with intf := true }
  sysenterCs : u.sysenterCs = t.sysenterCs
  mem : u.mem = store t.mem (cell base (q + 6)) (t.reg .eax)
  words : Words u.mem (cell base (q + 11)) [ret, userCs, s.flags.word, sp, userDs]

theorem exit_selectors {u : State} (hcs : u.sysenterCs = kernelCs) :
    u.exitToUser.seg .cs = userCs.toUInt16 ∧ u.exitToUser.seg .ss = userDs.toUInt16 := by
  constructor
  · rw [State.exitToUser, State.goto_seg, State.setSeg_seg, if_neg (by decide), State.setSeg_seg, if_pos rfl, hcs]
    rfl
  · rw [State.exitToUser, State.goto_seg, State.setSeg_seg, if_pos rfl, hcs]
    rfl

theorem read_setReg {r : Reg} {w : UInt32} (ho : o.register = true) (hne : o ≠ .reg r) :
    (s.setReg r w).read o = s.read o := by
  cases o with
  | reg r' =>
    have hr : r' ≠ r := fun h => hne (congrArg _ h)
    simp [hr]
  | seg r' => rfl
  | imm u => rfl
  | mem disp base => cases ho

theorem Saved.arg (v : Saved) {i : Nat} (hi : i < 3) : ∃ r, v.operands.reverse[i]? = some (.reg r) := by
  obtain ⟨r1, r2, r3, h⟩ := v.args
  have hget := List.getElem?_take_of_lt (l := v.operands.reverse) hi
  rw [← hget, h]
  match i, hi with
  | 0, _ => exact ⟨r1, rfl⟩
  | 1, _ => exact ⟨r2, rfl⟩
  | 2, _ => exact ⟨r3, rfl⟩

theorem frame_drop {n : Nat} (v : Saved) (s : State) (hn : n ≤ 11) : (frame v s ret sp).drop n =
    (v.operands.reverse.drop n).map s.read ++ [ret, userCs, s.flags.word, sp, userDs] := by
  rw [frame, ← List.map_reverse, List.drop_append_of_le_length (by simpa [v.size] using hn), List.map_drop]

/-- Whatever is in the places of the first `n` registers of a frame, it is the frame of a state that has this there. -/
theorem exists_frame {n : Nat} {m : Memory} (v : Saved) (hn : n ≤ 3)
    (hw : Words m (base + 4 * .ofNat n) ((frame v s ret sp).drop n)) : ∃ s', Words m base (frame v s' ret sp) ∧
      s'.seg = s.seg ∧ ∀ o ∈ v.operands.reverse.drop n, s'.read o = s.read o := by
  induction n generalizing s with
  | zero => exact ⟨s, by simpa using hw, rfl, fun _ _ => rfl⟩
  | succ n ih =>
    obtain ⟨r, hr⟩ := v.arg hn
    obtain ⟨hlt, hget⟩ := List.getElem?_eq_some_iff.mp hr
    have hsplit := List.drop_eq_getElem_cons hlt
    rw [hget] at hsplit
    have hnodup := (List.nodup_reverse.mpr v.nodup).sublist (List.drop_sublist n _)
    rw [hsplit, List.nodup_cons] at hnodup
    -- the state gets what is in the place of this register
    obtain ⟨w, hwd⟩ : ∃ w, w = load m (base + 4 * .ofNat n) := ⟨_, rfl⟩
    have hkept : ∀ o ∈ v.operands.reverse.drop (n + 1), (s.setReg r w).read o = s.read o := by
      intro o ho
      apply read_setReg (v.register o (List.mem_reverse.mp (List.mem_of_mem_drop ho)))
      rintro rfl
      exact hnodup.1 ho
    have hframe : (frame v (s.setReg r w) ret sp).drop n = w :: (frame v s ret sp).drop (n + 1) := by
      rw [frame_drop v _ (by omega), frame_drop v _ (by omega), hsplit, List.map_cons, List.map_congr_left hkept]
      simp
    have hup : base + 4 * .ofNat n + 4 = base + 4 * .ofNat (n + 1) := by
      rw [UInt32.ofNat_add, UInt32.mul_add, UInt32.add_assoc]
      rfl
    have hw' : Words m (base + 4 * .ofNat n) ((frame v (s.setReg r w) ret sp).drop n) := by
      rw [hframe, words_cons, hup]
      exact ⟨hwd.symm, hw⟩
    obtain ⟨s', hs', hseg, hrest⟩ := ih (by omega) hw'
    refine ⟨s', hs', hseg, fun o ho => ?_⟩
    rw [hrest o (by rw [hsplit]; exact List.mem_cons_of_mem _ ho), hkept o ho]

theorem frame_set_eax (v : Saved) (s : State) (ret sp w : UInt32) : (frame v s ret sp).set 6 w =
    v.operands.reverse.map (s.setReg .eax w).read ++ [ret, userCs, s.flags.word, sp, userDs] := by
  rw [frame, ← List.map_reverse, List.set_append_left _ _ (by simp [v.size])]
  congr 1
  apply List.ext_getElem (by simp)
  intro i hi hi'
  rw [List.length_map] at hi'
  have h6 : 6 < v.operands.reverse.length := by simp [v.size]
  have heax : v.operands.reverse[6] = .reg .eax := by
    have := v.eax
    rwa [List.getElem?_eq_getElem h6, Option.some.injEq] at this
  rw [List.getElem_set, List.getElem_map, List.getElem_map]
  by_cases h : 6 = i
  · subst h
    simp [heax]
  · rw [if_neg h]
    symm
    apply read_setReg (v.register _ (List.mem_reverse.mp (List.getElem_mem hi')))
    intro heq
    rw [← heax] at heq
    exact h ((List.nodup_reverse.mpr v.nodup).getElem_inj_iff.mp heq).symm

theorem reaches_fin (h : At c t.eip (fin v) a) (hesp : t.reg .esp = cell base q)
    (hw : Words t.mem (cell base q) (frame v s ret sp)) :
    ∃ u, Reaches c t u ∧ u.eip = a ∧ Restored v s t u base q ret sp := by
  obtain ⟨a1, hmov, hfin⟩ := at_append.mp h
  obtain ⟨a2, hpops, hlast⟩ := at_append.mp hfin
  -- the value of the call takes the place of eax in the frame
  have hmov' := reaches_block hmov (by simp [Instr.straight])
  generalize ht1 : (block _ t).goto a1 = t1 at hmov'
  have hw1 : Words t1.mem (t1.reg .esp)
      (v.operands.reverse.map (s.setReg .eax (t.reg .eax)).read ++ [ret, userCs, s.flags.word, sp, userDs]) := by
    have := hw.set (v := t.reg .eax) (by simp [frame_length]) (show 6 < _ by simp [frame_length])
    rw [frame_set_eax, ← hesp] at this
    simpa [← ht1, Instr.effect, State.write] using this
  have hpop := pop_block (fun o ho => v.register o (List.mem_reverse.mp ho)) (List.nodup_reverse.mpr v.nodup) hw1
  have hpops' := reaches_block (s := t1) (by rw [← ht1, State.goto_eip]; exact hpops) (by simp [Instr.straight])
  generalize block (v.operands.reverse.map .pop) t1 = t2 at hpop hpops'
  have hret : load t2.mem (t2.reg .esp) = ret := by simpa using hpop.words 0 (by simp)
  have hsp : load t2.mem (t2.reg .esp + 12) = sp := hpop.words 3 (by simp)
  have hlast' := reaches_block (s := t2.goto a2) hlast (by simp [Instr.straight])
  generalize ht3 : (block _ (t2.goto a2)).goto a = t3 at hlast'
  have hreg : ∀ r, t3.reg r = if r = .ecx then sp else if r = .edx then ret else t2.reg r := by
    intro r
    simp [← ht3, Instr.effect, State.read, hret, hsp]
  have hseg : t3.seg = t2.seg := by rw [← ht3]; rfl
  have hmem : t3.mem = t2.mem := by rw [← ht3]; rfl
  have heax : .reg .eax ∈ v.operands.reverse := List.mem_of_getElem? v.eax
  refine ⟨t3, (hmov'.trans hpops').trans hlast', by rw [← ht3]; rfl, ?_, ?_, ?_, fun r hr hin => ?_, fun r hin => ?_,
    ?_, ?_, ?_, ?_⟩
  · simpa [hreg] using hpop.got (.reg .eax) heax
  · simp [hreg]
  · simp [hreg]
  · have hgot := hpop.got (.reg r) (List.mem_reverse.mpr hin)
    simp only [List.mem_cons, List.not_mem_nil, or_false, not_or] at hr
    simpa [hreg, hr] using hgot
  · have hgot := hpop.got (.seg r) (List.mem_reverse.mpr hin)
    simpa [hseg, UInt16.toUInt32_inj] using hgot
  · rw [← ht3]
    change { t2.flags with intf := true } = _
    rw [hpop.flags, ← ht1]
    rfl
  · rw [← ht3]
    change t2.sysenterCs = _
    rw [hpop.sysenterCs, ← ht1]
    rfl
  · rw [hmem, hpop.mem, ← ht1, ← cell_add, ← hesp]
    rfl
  · have hesp2 : t2.reg .esp = cell base (q + 11) := by
      rw [hpop.esp, List.length_reverse, v.size, ← ht1, ← cell_add, ← hesp]
      rfl
    have hw2 := hpop.words
    rwa [hesp2, ← hmem] at hw2

end

end ZeosSOA.Gate
