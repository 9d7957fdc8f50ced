import ZeosSOA.Dispatch
import ZeosSOA.X86System

/-!
# A system call, from the program into the kernel and back

`sysenter` in the program, the handler, the C function that the table names, and `sysexit`. What the C function does
is left open: it begins in one state and comes back in another, with whatever ran in between.
-/

namespace ZeosSOA.Gate

open X86

/-- The words from `u` upwards are not in the stack page `base`. -/
def Apart (base u : UInt32) (n : Nat) : Prop := ∀ i < n, ∀ k < 4, 4096 ≤ (u + 4 * .ofNat i + .ofNat k - base).toNat

instance (base u : UInt32) (n : Nat) : Decidable (Apart base u n) := inferInstanceAs (Decidable (∀ i < n, _))

/-- Memory is the same but for the stack page. -/
def SameOutside (base : UInt32) (m m' : Memory) : Prop := ∀ b, 4096 ≤ (b - base).toNat → m' b = m b

/-- Memory is the same in the `n` words from `u` upwards. -/
def SameWords (u : UInt32) (n : Nat) (m m' : Memory) : Prop := ∀ b, (b - u).toNat < 4 * n → m' b = m b

/-- The `n` words from `u` upwards are free for a program's stack: neither the stack page nor the table is there. -/
structure Room (x : Text) (l : Labels) (base u : UInt32) (n : Nat) : Prop where
  page : Apart base u n
  table : ∀ i < x.sysCallTable.length, ∀ k < 4, 4 * n ≤ (l.sysCallTable + 4 * .ofNat i + .ofNat k - u).toNat

/-- The processor is set up for system calls: `sysenter` goes to the handler, on the stack page `base`, and memory has
the table with the addresses of the functions. -/
structure Ready (x : Text) (c : Op.Code) (l : Labels) (addr : SysFunction → UInt32) (base : UInt32) (p : Cpu) :
    Prop where
  placed : Placed x (Op.plainCode c) l
  sysenterEsp : p.sysenterEsp = cell base 1024
  sysenterEip : p.sysenterEip = l.handler
  sysenterCs : p.state.sysenterCs = kernelCs
  table : Words p.state.mem l.sysCallTable (x.sysCallTable.map addr)
  apart : Apart base l.sysCallTable x.sysCallTable.length

/-- User code runs. -/
structure UserMode (s : State) : Prop where
  cs : s.seg .cs = userCs.toUInt16
  ss : s.seg .ss = userDs.toUInt16

/-- Where `sysenter` takes the processor. -/
def atGate (p : Cpu) : State := p.state.enter p.sysenterEsp p.sysenterEip

/-- The C function at `f` begins in `p'`, called for the program that was at `sysenter` in `p`: on its stack are the
registers of the program, and the place where the program goes on. -/
structure Called (x : Text) (l : Labels) (base : UInt32) (f : UInt32) (p p' : Cpu) : Prop where
  eip : p'.state.eip = f
  esp : p'.state.reg .esp = cell base 1007
  words : Words p'.state.mem (cell base 1007)
    (l.callReturn :: frame x.saved (atGate p) (load p.state.mem (p.state.reg .ebp + 4)) (p.state.reg .ebp))
  outside : SameOutside base p.state.mem p'.state.mem
  sysenterCs : p'.state.sysenterCs = kernelCs

/-- The program that was at `sysenter` in `p` goes on in `p''` with the value `v`, after the C function came back in
`p'`. The registers in whose places on the stack were its `n` arguments are what it has left there. -/
structure Resumes (x : Text) (n : Nat) (base : UInt32) (v : UInt32) (p p' p'' : Cpu) : Prop where
  eip : p''.state.eip = load p.state.mem (p.state.reg .ebp + 4)
  esp : p''.state.reg .esp = p.state.reg .ebp
  eax : p''.state.reg .eax = v
  reg : ∀ r ∉ [Reg.eax, .ecx, .edx], .reg r ∈ x.saved.operands.reverse.drop n → p''.state.reg r = p.state.reg r
  seg : ∀ r ∉ [SegReg.cs, .ss], .seg r ∈ x.saved.operands → p''.state.seg r = p.state.seg r
  cs : p''.state.seg .cs = userCs.toUInt16
  ss : p''.state.seg .ss = userDs.toUInt16
  outside : SameOutside base p'.state.mem p''.state.mem
  sysenterCs : p''.state.sysenterCs = kernelCs
  sysenterEsp : p''.sysenterEsp = p'.sysenterEsp
  sysenterEip : p''.sysenterEip = p'.sysenterEip

section
variable {x : Text} {c : Op.Code} {l : Labels} {addr : SysFunction → UInt32} {base u v next : UInt32} {p y z : Cpu}
  {s : State} {m m' m'' : Memory} {ws : List UInt32} {n : Nat} {f : SysFunction}

theorem SameOutside.refl (base : UInt32) (m : Memory) : SameOutside base m m := fun _ _ => rfl

theorem SameOutside.trans (h : SameOutside base m m') (h' : SameOutside base m' m'') : SameOutside base m m'' := fun b hb => by
  rw [h' b hb, h b hb]

theorem SameOutside.load (h : SameOutside base m m') (hu : ∀ k < 4, 4096 ≤ (u + .ofNat k - base).toNat) :
    load m' u = load m u := by
  apply load_congr
  intro k hk
  exact h _ (hu k hk)

theorem SameOutside.words (h : SameOutside base m m') (ha : Apart base u ws.length) (hw : Words m u ws) :
    Words m' u ws := by
  intro i hi
  rw [h.load (ha i hi), hw i hi]

theorem words_append {vs : List UInt32} :
    Words m u (ws ++ vs) ↔ Words m u ws ∧ Words m (u + 4 * .ofNat ws.length) vs := by
  induction ws generalizing u with
  | nil => simp [words_nil]
  | cons w ws ih =>
    rw [List.cons_append, words_cons, words_cons, ih, next_word, List.length_cons, and_assoc]

theorem SameWords.words (h : SameWords u n m m') (hlen : ws.length ≤ n) (hn : n < 2 ^ 30) (hw : Words m u ws) :
    Words m' u ws := by
  intro i hi
  rw [← hw i hi]
  apply load_congr
  intro k hk
  apply h
  have hword := word_offset (i := i) (by omega)
  rw [UInt32.add_assoc, add_sub_self, offset_add (by omega), hword]
  omega

theorem sub_window (b : UInt32) {j k : Nat} (hjk : j + k ≤ n) (hn : n < 2 ^ 30) :
    ((b - (u + 4 * .ofNat j)).toNat < 4 * k → (b - u).toNat < 4 * n) ∧
      (4 * n ≤ (b - u).toNat → 4 * k ≤ (b - (u + 4 * .ofNat j)).toNat) := by
  have hword := word_offset (i := j) (by omega)
  have hsub : b - (u + 4 * .ofNat j) = b - u - 4 * .ofNat j := by grind
  have hlt := (b - u).toNat_lt
  have hdiff : (b - u - 4 * .ofNat j).toNat = (2 ^ 32 - 4 * j + (b - u).toNat) % 2 ^ 32 := by rw [UInt32.toNat_sub, hword]
  rw [hsub, hdiff]
  omega

/-- Words inside the words. -/
theorem SameWords.sub (h : SameWords u n m m') {j k : Nat} (hjk : j + k ≤ n) (hn : n < 2 ^ 30) :
    SameWords (u + 4 * .ofNat j) k m m' := fun b hb => h b ((sub_window b hjk hn).1 hb)

theorem Room.sub (h : Room x l base u n) {j k : Nat} (hjk : j + k ≤ n) (hn : n < 2 ^ 30) :
    Room x l base (u + 4 * .ofNat j) k where
  page i hi t ht := by
    have hsum : u + 4 * .ofNat j + 4 * .ofNat i = u + 4 * .ofNat (j + i) := by
      rw [UInt32.ofNat_add, UInt32.mul_add, UInt32.add_assoc]
    rw [hsum]
    exact h.page (j + i) (by omega) t ht
  table i hi t ht := (sub_window _ hjk hn).2 (h.table i hi t ht)

/-- A store that does not reach the words. -/
theorem sameWords_store {a : UInt32} (h : ∀ k < 4, 4 * n ≤ (a + .ofNat k - u).toNat) (m : Memory) (v : UInt32) :
    SameWords u n m (store m a v) := by
  intro b hb
  apply store_other
  by_contra hlt
  have hsum : a + .ofNat (b - a).toNat - u = b - u := by
    rw [UInt32.ofNat_toNat]
    grind
  have := h (b - a).toNat (by omega)
  rw [hsum] at this
  omega

/-- A word stored in front of the words. -/
theorem words_store {a : UInt32} (h : ∀ k < 4, 4 * ws.length ≤ (a + .ofNat k - (a + 4)).toNat) (hlen : ws.length < 2 ^ 30)
    (hw : Words m (a + 4) ws) : Words (store m a v) a (v :: ws) :=
  words_cons.mpr ⟨load_store _ _ _, (sameWords_store h m v).words (Nat.le_refl _) hlen hw⟩

theorem Apart.mono {k : Nat} (h : Apart base u n) (hk : k ≤ n) : Apart base u k := fun i hi => h i (Nat.lt_of_lt_of_le hi hk)

theorem Apart.tail (h : Apart base u (n + 1)) : Apart base (u + 4) n := by
  intro i hi k hk
  rw [next_word]
  exact h (i + 1) (Nat.succ_lt_succ hi) k hk

/-- A word of the page is stored in the page. -/
theorem sameOutside_store {j : Nat} (hj : j < 1024) (m : Memory) (v : UInt32) :
    SameOutside base m (store m (cell base j) v) := by
  intro b hb
  apply store_other
  have := outside hb (Nat.le_of_lt hj)
  omega

theorem sameOutside_pushed {s s' : State} {q : Nat} (h : Pushed s s' ws) (hesp : s'.reg .esp = cell base q)
    (hq : q + ws.length ≤ 1024) : SameOutside base s.mem s'.mem := by
  intro b hb
  apply h.other
  have := outside (j := q) hb (by omega)
  rw [hesp]
  omega

/-- The handler finds what the program has left on its own stack, also with its first words pushed. -/
theorem callerEip_eq (hesp : s.reg .esp = cell base 1024) (ha : ∀ k < 4, 4096 ≤ (s.reg .ebp + 4 + .ofNat k - base).toNat) :
    callerEip s = load s.mem (s.reg .ebp + 4) := by
  have hpush := (((((Pushed.refl s).push userDs).push (s.reg .ebp)).push s.flags.word).push userCs)
  have htop : ((((s.push userDs).push (s.reg .ebp)).push s.flags.word).push userCs).reg .esp = cell base 1020 := by
    rw [hpush.esp, hesp]
    exact cell_sub base 1020 4
  have hsame := sameOutside_pushed hpush htop (by simp)
  rw [callerEip, State.read, hpush.reg .ebp (by decide)]
  exact hsame.load ha

/-- What a program writes on its stack leaves the processor ready. -/
theorem Ready.stack {p' : Cpu} (h : Ready x c l addr base p) (hroom : Room x l base u n)
    (hmem : ∀ b, 4 * n ≤ (b - u).toNat → p'.state.mem b = p.state.mem b) (hcs : p'.state.sysenterCs = p.state.sysenterCs)
    (hesp : p'.sysenterEsp = p.sysenterEsp) (heip : p'.sysenterEip = p.sysenterEip) : Ready x c l addr base p' where
  placed := h.placed
  sysenterEsp := hesp.trans h.sysenterEsp
  sysenterEip := heip.trans h.sysenterEip
  sysenterCs := hcs.trans h.sysenterCs
  table i hi := by
    rw [← h.table i hi]
    apply load_congr
    intro k hk
    rw [List.length_map] at hi
    exact hmem _ (hroom.table i hi k hk)
  apart := h.apart

/-! ## Into the kernel -/

theorem atGate_reg {r : Reg} (hr : r ≠ .esp) : (atGate p).reg r = p.state.reg r := by
  simp [atGate, State.enter, State.setFlags, hr]

theorem atGate_seg {r : SegReg} (hr : r ∉ [SegReg.cs, .ss]) : (atGate p).seg r = p.state.seg r := by
  simp only [List.mem_cons, List.not_mem_nil, or_false, not_or] at hr
  simp [atGate, State.enter, State.setFlags, hr]

/-- The handler up to the call, without the two jumps. -/
theorem gate_block (v : Saved) (maxSyscall : UInt32) (hesp : s.reg .esp = cell base 1024) :
    let t := block (pushes v ++ (checks ++ [.cmp (.imm maxSyscall) (.reg .eax)])) s
    t.reg .eax = s.reg .eax ∧ t.reg .esp = cell base 1008 ∧ t.mem = (block (pushes v) s).mem ∧
      t.sysenterCs = s.sysenterCs := by
  have hpush := pushed_frame v s
  obtain ⟨hreg, hmem, hcs, -⟩ := checks_keeps (block (pushes v) s)
  rw [block_append, block_append, block_cmp]
  refine ⟨?_, ?_, hmem, hcs.trans hpush.sysenterCs⟩
  · exact (hreg .eax (by decide)).trans (hpush.reg .eax (by decide))
  · exact (hreg .esp (by decide)).trans (pushed_cell v (q := 1008) hesp).1

/-- From `sysenter` to the first instruction of the function. -/
theorem Ready.reaches_function (h : Ready x c l addr base p) (hc : c p.state.eip = some (.sysenter, next))
    (hf : x.sysCallTable[(p.state.reg .eax).toNat]? = some f)
    (ha : ∀ k < 4, 4096 ≤ (p.state.reg .ebp + 4 + .ofNat k - base).toNat) :
    ∃ p', Op.Reaches c p p' ∧ Called x l base (addr f) p p' ∧ p'.sysenterEsp = p.sysenterEsp ∧
      p'.sysenterEip = p.sysenterEip := by
  obtain ⟨hlt, hf⟩ := List.getElem?_eq_some_iff.mp hf
  obtain ⟨a, hgate, hcall⟩ := h.placed.call
  have heip : (atGate p).eip = l.handler := h.sysenterEip
  have hesp : (atGate p).reg .esp = cell base 1024 := by simp [atGate, State.enter, h.sysenterEsp]
  have heax : (atGate p).reg .eax = p.state.reg .eax := atGate_reg (by decide)
  have hebp : (atGate p).reg .ebp = p.state.reg .ebp := atGate_reg (by decide)
  have hmem : (atGate p).mem = p.state.mem := rfl
  have hcs : (atGate p).sysenterCs = kernelCs := h.sysenterCs
  have hover := over_iff x.fits (p.state.reg .eax)
  have hin : ¬ (signed (p.state.reg .eax) < 0 ∨ signed x.maxSyscall < signed (p.state.reg .eax)) :=
    fun hor => absurd (hover.mp hor) (by omega)
  have hret := callerEip_eq hesp (by rwa [hebp])
  rw [hmem, hebp] at hret
  have hsys : Op.Reaches c p (p.withState (atGate p)) := Op.reaches_exec hc Relation.ReflTransGen.refl
  generalize hg : atGate p = g at *
  rw [← heip] at hgate
  have hrun := reaches_handler hgate
  rw [heax, if_neg fun hn => hin (.inl hn), if_neg fun hn => hin (.inr hn)] at hrun
  obtain ⟨heax', hesp', hmem', hcs'⟩ := gate_block x.saved x.maxSyscall hesp
  have hframe := (pushed_cell x.saved (q := 1008) hesp).2
  have hout := sameOutside_pushed (pushed_frame x.saved g) (pushed_cell x.saved (q := 1008) hesp).1
    (by rw [frame_length])
  rw [hret, hebp] at hframe
  generalize block (pushes x.saved ++ (checks ++ [.cmp (.imm x.maxSyscall) (.reg .eax)])) g = t at *
  have hentry : load t.mem (l.sysCallTable + 4 * t.reg .eax) = addr f := by
    have hword := h.table (p.state.reg .eax).toNat (by rwa [List.length_map])
    rw [List.getElem_map, hf, UInt32.ofNat_toNat] at hword
    have hload := pushed_load x.saved (q := 1008) hesp (by decide) (h.apart (p.state.reg .eax).toNat hlt)
    rw [UInt32.ofNat_toNat] at hload
    rw [hmem', heax', heax, hload, hmem, hword]
  have hdown : cell base 1008 - 4 = cell base 1007 := cell_sub base 1007 1
  have hfun : X86.Reaches (Op.plainCode c) g ((t.push l.callReturn).goto (addr f)) := by
    apply hrun.trans
    apply reaches_exec (s := t.goto a) hcall
    rw [exec_callIndexed, State.goto_mem, State.goto_reg, State.push_goto, State.goto_goto, hentry]
  refine ⟨p.withState ((t.push l.callReturn).goto (addr f)), hsys.trans (Op.reaches_plain hfun p), ⟨rfl, ?_, ?_, ?_, ?_⟩,
    rfl, rfl⟩
  · simp [Cpu.withState, hesp', hdown]
  · have hpush := hframe.push (v := l.callReturn) (by simp [frame_length])
    rw [hdown] at hpush
    rw [hg]
    simpa [Cpu.withState, hesp', hdown, hmem'] using hpush
  · have hlast := @sameOutside_store base 1007 (by decide) t.mem l.callReturn
    rw [hmem, ← hmem'] at hout
    simpa [Cpu.withState, hesp', hdown] using hout.trans hlast
  · simpa [Cpu.withState] using hcs'.trans hcs

/-! ## Back to the program -/

/-- From the instruction behind the call to the program, with what the function of `n` arguments returned. -/
theorem Called.reaches_program {p' : Cpu} {f : UInt32} (h : Called x l base f p y) (hp : Placed x (Op.plainCode c) l)
    (hn : n ≤ 3) (hr : Returned n (cell base 1024) y.state p'.state v) :
    ∃ p'', Op.Reaches c p' p'' ∧ Resumes x n base v p p' p'' := by
  obtain ⟨a, hjmp, -⟩ := at_cons.mp hp.behind
  obtain ⟨b, next, hfin, hexit⟩ := hp.exit
  obtain ⟨htop, hwords⟩ := words_cons.mp h.words
  have hup : cell base 1007 + 4 = cell base 1008 := cell_add base 1007 1
  have hbehind : cell base 1008 + 4 * .ofNat n = cell base (1008 + n) := cell_add base 1008 n
  have heip : p'.state.eip = l.callReturn := by
    rw [hr.eip, State.top, h.esp]
    exact htop
  have hesp : p'.state.reg .esp = cell base 1008 := by rw [hr.esp, h.esp, hup]
  have hcs : p'.state.sysenterCs = kernelCs := hr.sysenterCs.trans h.sysenterCs
  rw [hup] at hwords
  have hkept : Words p'.state.mem (cell base (1008 + n)) ((frame x.saved (atGate p)
      (load p.state.mem (p.state.reg .ebp + 4)) (p.state.reg .ebp)).drop n) := by
    apply hr.words (by rw [h.esp, hup, hbehind])
    · rw [cell_diff (by omega) (by decide), List.length_drop, frame_length]
      omega
    · rw [← List.take_append_drop n (frame ..), words_append, List.length_take, frame_length,
        Nat.min_eq_left (by omega), hbehind] at hwords
      exact hwords.2
  rw [← hbehind] at hkept
  obtain ⟨g, hframe, hseg, hg⟩ := exists_frame x.saved hn hkept
  obtain ⟨u, hback, huip, hres⟩ := reaches_fin (t := p'.state.goto l.sysenterFin) hfin hesp hframe
  obtain ⟨hcs', hss'⟩ := exit_selectors (hres.sysenterCs.trans hcs)
  have hrun : X86.Reaches (Op.plainCode c) p'.state u.exitToUser := by
    apply reaches_exec (by rw [heip]; exact hjmp)
    apply hback.trans
    apply reaches_exec (by rw [huip]; exact hexit)
    exact Relation.ReflTransGen.refl
  refine ⟨p'.withState u.exitToUser, Op.reaches_plain hrun p', ?_, ?_, ?_, fun r hr' hin => ?_, fun r hr' hin => ?_, hcs', hss',
    ?_, hres.sysenterCs.trans hcs, rfl, rfl⟩
  · exact hres.edx
  · simpa [Cpu.withState, State.exitToUser] using hres.ecx
  · simpa [Cpu.withState, State.exitToUser] using hres.eax.trans hr.eax
  · have hin' := List.mem_reverse.mp (List.mem_of_mem_drop hin)
    have hne : r ≠ .esp := by
      intro he
      have hreg := x.saved.register _ hin'
      rw [he] at hreg
      cases hreg
    have hgr : g.reg r = (atGate p).reg r := hg _ hin
    rw [← atGate_reg (p := p) hne, ← hgr]
    simpa [Cpu.withState, State.exitToUser, hne] using hres.reg r hr' hin'
  · rw [← atGate_seg (p := p) hr', ← hseg, ← hres.seg r hin]
    simp only [List.mem_cons, List.not_mem_nil, or_false, not_or] at hr'
    simp [Cpu.withState, State.exitToUser, hr']
  · have hmem : (p'.withState u.exitToUser).state.mem = u.mem := rfl
    rw [hmem, hres.mem]
    exact sameOutside_store (by decide) _ _

end

end ZeosSOA.Gate
