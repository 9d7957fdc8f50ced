import Mathlib.Algebra.Order.Group.Nat
import ZeosSOA.Spaces
import ZeosSOA.Sysenter.Accounting
import ZeosSOA.Sysenter.ExitRelease
import ZeosSOA.Sysenter.ForkCopy
import ZeosSOA.Sysenter.ForkFailed
import ZeosSOA.Sysenter.Private
import ZeosSOA.Sysenter.Stats

/-!
# ZeOSSysenter: what a process finds in its memory

Processes without threads run among each other, store words in their own pages, have the kernel store there, fork, ask for
heap and exit. In its data and stack pages a process finds what it stored there itself, on top of what its parent had when it
was forked: the frames are the private memories of `Spaces`. Translations are not cached: a program is stopped at each page
that its table does not have.
-/

namespace ZeosSOA.Sysenter

open Mm Runs Spaces

/-! ## Programs that store -/

/-- The kernel is entered, or the program that runs stores a word. Apart are the two system calls that store in the memory of
their caller: `sys_getKey`, whatever the keyboard has put into `cBuffer`, and `sys_get_stats`. -/
inductive Happening where
  | kernel (e : Kernel.Event)
  | store (page : Nat) (word : Fin 1024) (v : UInt32)
  | getKey (b : UInt32) (c : CBuffer)
  | getStats (pid : Int) (st : UInt32)

/-- No thread is made, programs store in data, stack and heap pages only, and what the kernel is told to fill ends where the
stack does (`access_ok` goes one page too far). -/
def Happening.Allowed : Happening → Prop
  | kernel e => ¬ e.op.OnThreads
  | store page _ _ => OwnPage page
  | getKey b _ => accessOk .verifyWrite b 1 none = true → b.toNat < dataEnd
  | getStats _ st => accessOk .verifyWrite st sizeStats none = true → st.toNat + sizeStats ≤ dataEnd

/-- The memories of the processes, by PID. -/
abbrev Contents : Type := Memories Int (Fin numPagData) (Fin 1024) UInt32

abbrev Act : Type := Action Int (Fin numPagData) (Fin 1024) UInt32

namespace Kernel

/-- A store of the current program; `none` is a page fault, which is the end of the run. -/
def userStore (s : Kernel) (page word : Nat) (v : UInt32) : Option Kernel :=
  if s.idleTask = some s.current then none
  else do
    let pt ← s.getPT s.current
    if (s.mm.entry pt page).user = true ∧ (s.mm.entry pt page).rw = true then
      let m ← s.mm.writeWord pt page word v
      return s.setMm m
    else none

def happen (s : Kernel) : Happening → Option Kernel
  | .kernel e => s.step e
  | .store page word v => s.userStore page word v
  | .getKey b c => if s.idleTask = some s.current then none else (System.sysGetKey ⟨s, c⟩ b).map fun r => r.2.kernel
  | .getStats pid st => if s.idleTask = some s.current then none else (s.sysGetStats pid st).map Prod.snd

/-- The bytes that a system call stores in the memory of its caller. -/
def copied (s : Kernel) : Happening → List (UInt32 × UInt8)
  | .getKey b c =>
    if c.bwritten = 0 ∨ b = 0 ∨ ¬ accessOk .verifyWrite b 1 none then [] else [(b, c.buffer c.rpointer.toNat)]
  | .getStats pid st =>
    if ¬ accessOk .verifyWrite st sizeStats none ∨ pid < 0 then []
    else
      match (List.finRange nrTasks).find? fun i => (s.task i).PID = pid with
      | some i => addressed st ((s.setRemainingTicks i).task i).pStats.bytes
      | none => []
  | _ => []

/-- A word of the task's data and stack, through its page table. -/
def load (s : Kernel) (t : TaskId) (k word : Nat) : Option UInt32 := do
  let pt ← s.getPT t
  let frame ← s.mm.translate pt (pagLogInitData + k)
  return s.mm.ram frame word

/-- The current process changes a word, if it is one of its data and stack. -/
def changed (s : Kernel) (page : Nat) (word : Fin 1024) (f : UInt32 → UInt32) : List Act :=
  if h : page - pagLogInitData < numPagData ∧ pagLogInitData ≤ page then
    [.change (s.task s.current).PID ⟨page - pagLogInitData, h.1⟩ word f]
  else []

def byteChanged (s : Kernel) (x : UInt32 × UInt8) : List Act :=
  let offset := x.1.toNat % pageSize
  s.changed (x.1.toNat / pageSize) ⟨offset / 4, Nat.div_lt_of_lt_mul (Nat.mod_lt _ (by decide))⟩ fun w =>
    setByte w (offset % 4) x.2

/-- What happens to the memory of a process: a word is changed, or it has a child. -/
def acted (s : Kernel) : Happening → List Act
  | .kernel e =>
    match e.op, s.sysFork e.ebp with
    | .fork, some (pid, _) => if 0 < pid then [.fork (s.task s.current).PID pid] else []
    | _, _ => []
  | .store page word v => s.changed page word fun _ => v
  | h => (s.copied h).flatMap s.byteChanged

/-- A system call has stored the bytes `l` for its caller, and of the rest it has changed statistics at most. -/
structure Filled (s s' : Kernel) (l : List (UInt32 × UInt8)) : Prop where
  caller : s.idleTask ≠ some s.current
  stored : ∃ k mm, (k = s ∨ ∃ i, k = s.setRemainingTicks i) ∧ s' = k.setMm mm ∧
    ∀ pt, s.getPT s.current = some pt → l.foldlM (fun m x => storeByte pt m x.1 x.2) s.mm = some mm

/-- The run with all that happened to the memories. -/
abbrev chronicle : List Act × Kernel → Happening → Option (List Act × Kernel) :=
  recorded happen fun as s h => as ++ s.acted h

/-- What is in the pages of task 1 at the start. -/
def firstContents (mc : Machine) : Contents := fun _ k w => ((boot mc).load 1 k w).getD 0

end Kernel

/-- The memory with another word in the frame. -/
def stored (m : Mm) (frame word : Nat) (v : UInt32) : Mm :=
  { m with ram := Function.update m.ram frame (Function.update (m.ram frame) word v) }

/-! ## What the calls leave in the frames -/

section
variable {pt page : Nat} {m m' : Mm}

@[simp] theorem releasePage_ram (pt : Nat) (m : Mm) (page : Nat) : (releasePage pt m page).ram = m.ram := by
  unfold releasePage freeFrame
  split <;> rfl

theorem releaseData_ram (pt n : Nat) (m : Mm) : (releaseData pt n m).ram = m.ram := by
  apply foldl_ram
  intro m i
  exact releasePage_ram pt m _

theorem allocFrame_ram (m : Mm) : m.allocFrame.2.ram = m.ram := by
  rcases allocFrame_cases m with ⟨f, -, -, e⟩ | ⟨-, e⟩
  · rw [e]
    rfl
  · rw [e]

theorem forkAllocData_ram (n pag : Nat) (m : Mm) : (forkAllocData pt n pag m).2.ram = m.ram := by
  induction n generalizing pag m with
  | zero => rfl
  | succ n ih =>
    unfold forkAllocData
    have ha := allocFrame_ram m
    generalize m.allocFrame = x at ha
    dsimp only
    split
    · rw [ih]
      exact ha
    · rw [releaseData_ram, ha]

/-- A page given back makes at most one frame free. -/
theorem freeCount_releasePage (pt : Nat) (m : Mm) (page : Nat) : (releasePage pt m page).freeCount ≤ m.freeCount + 1 := by
  have hfree : ∀ l : List Nat, l.Nodup → l.countP (fun g => (releasePage pt m page).physMem g = .free) ≤
      l.countP (fun g => m.physMem g = .free) + 1 := by
    intro l hl
    induction l with
    | nil => simp
    | cons g l ih =>
      obtain ⟨hg, hl⟩ := List.nodup_cons.mp hl
      rw [List.countP_cons, List.countP_cons]
      by_cases hgf : g = (m.entry pt page).pbaseAddr
      · have hsame : l.countP (fun g => decide ((releasePage pt m page).physMem g = .free)) =
            l.countP (fun g => decide (m.physMem g = .free)) := by
          apply List.countP_congr
          intro x hx
          rw [releasePage_phys, if_neg]
          rintro ⟨rfl, -⟩
          exact hg (by rw [hgf]; exact hx)
        rw [hsame]
        split <;> split <;> omega
      · have hsame : (releasePage pt m page).physMem g = m.physMem g := by
          rw [releasePage_phys]
          apply if_neg
          intro h
          exact hgf h.1
        have := ih hl
        rw [hsame]
        omega
  exact hfree candidates candidates_nodup

theorem freeCount_releaseData (pt n : Nat) (m : Mm) : (releaseData pt n m).freeCount ≤ m.freeCount + n := by
  induction n with
  | zero =>
    have h0 : releaseData pt 0 m = m := rfl
    rw [h0]
    exact Nat.le_add_right _ _
  | succ n ih =>
    have hs : releaseData pt (n + 1) m = releasePage pt (releaseData pt n m) (pagLogInitData + n) := by
      rw [releaseData, List.range_succ, List.foldl_append]
      rfl
    rw [hs]
    have := freeCount_releasePage pt (releaseData pt n m) (pagLogInitData + n)
    omega

/-- The places of the heap pages of a table, and the one behind them. -/
def HeapOf (pt k : Nat) : Prop := pt * totalPages + heapPage ≤ k ∧ k ≤ pt * totalPages + totalPages

theorem heapOf_page (h1 : heapPage ≤ page) (h2 : page ≤ totalPages) : HeapOf pt (pt * totalPages + page) :=
  ⟨Nat.add_le_add_left h1 _, Nat.add_le_add_left h2 _⟩

theorem sbrkShrink_keeps {new : Nat} (hn : initHeap ≤ new) : ∀ {fuel hp hp' : Nat} {m m' : Mm}, HeapPtr hp →
    sbrkShrink pt new fuel hp m = some (hp', m') →
    m'.ram = m.ram ∧ m'.physMem = m.physMem ∧ hp' ≤ hp ∧ Touches (HeapOf pt) m m'
  | 0, _, _, _, _, _, h => by cases h
  | fuel + 1, hp, hp', m, m', ho, h => by
    have hle := ho.le
    have hge := ho.ge
    have hal := ho.aligned
    have hpage := ho.page
    have hpage' := ho.page_le
    rw [initHeap_eq] at hge hn
    simp only [totalPages, pageSize] at hle hge hal hn
    unfold sbrkShrink at h
    by_cases hlt : hp > new
    swap
    · rw [if_neg hlt] at h
      obtain ⟨rfl, rfl⟩ := Prod.mk.inj (Option.some.inj h)
      exact ⟨rfl, rfl, Nat.le_refl _, .refl _ m⟩
    rw [if_pos hlt] at h
    have hsub : subPage hp = hp - pageSize := by
      simp only [subPage, pageSize]
      omega
    rw [hsub] at h
    obtain ⟨h1, h2, h3, h4⟩ := sbrkShrink_keeps (by rw [initHeap_eq]; simp only [pageSize]; omega)
      ⟨by rw [initHeap_eq]; simp only [pageSize]; omega, by simp only [totalPages, pageSize]; omega,
        by simp only [pageSize]; omega⟩ h
    rw [h1, h2]
    refine ⟨?_, ?_, by omega, Touches.trans ?_ h4⟩
    · split
      · rw [sbrkDelPage_eq]
        rfl
      · rfl
    · split
      · rw [sbrkDelPage_eq]
        rfl
      · rfl
    · split
      · exact touches_sbrkDelPage m (heapOf_page hpage hpage')
      · exact .refl _ m

/-- Moving the break writes no frame, no page of another table, and costs a frame for every page it goes up. -/
theorem sbrkHeap_keeps {old hp' ret : Nat} (ho : HeapPtr old) (hcode : m.physMem numPagKernel = .used)
    (hfit : old / pageSize + m.freeCount ≤ totalPages) {size : Int} (h : sbrkHeap pt initHeap old size m = some (ret, hp', m')) :
    m'.ram = m.ram ∧ m'.freeCount ≤ m.freeCount ∧ hp' / pageSize + m'.freeCount ≤ old / pageSize + m.freeCount ∧
      Touches (HeapOf pt) m m' := by
  have hpage := ho.page
  by_cases hsize : 0 < size
  · rcases sbrkHeap_grown ho hcode hsize h with ⟨-, rfl, rfl⟩ | ⟨-, hptr, -, n, fr, hg, rfl⟩ | ⟨-, rfl, -, fr, hg⟩
    · exact ⟨rfl, Nat.le_refl _, Nat.le_refl _, .refl _ _⟩
    · have hend := hptr.page_le
      have hcount := hg.count
      have hdiv : (old + pageSize * n) / pageSize = old / pageSize + n := by
        simp only [pageSize]
        omega
      rw [hdiv] at hend ⊢
      refine ⟨hg.ram, by omega, by omega, fun k hk => ?_⟩
      rw [hg.table, if_neg]
      intro hin
      apply hk
      constructor <;> omega
    · have hcount := hg.count
      have hsame : (cleared m (pt * totalPages + hp' / pageSize) m.freeCount).freeCount = m.freeCount := rfl
      refine ⟨hg.ram, by omega, by omega, fun k hk => ?_⟩
      rw [hg.same.1]
      apply if_neg
      intro hin
      apply hk
      constructor <;> omega
  · unfold sbrkHeap at h
    dsimp only at h
    split at h
    · obtain ⟨-, rfl, rfl⟩ : 0 = ret ∧ old = hp' ∧ m = m' := by simpa using h
      exact ⟨rfl, Nat.le_refl _, Nat.le_refl _, .refl _ _⟩
    rename_i hnew
    obtain ⟨⟨hp, m1⟩, hs, h⟩ := Option.bind_eq_some_iff.mp h
    obtain ⟨-, rfl, rfl⟩ : old = ret ∧ hp = hp' ∧ m1 = m' := by simpa using h
    obtain ⟨h1, h2, h3, h4⟩ := sbrkShrink_keeps (Nat.le_of_not_lt hnew) ho hs
    have hfree : m1.freeCount = m.freeCount := by
      unfold freeCount
      rw [h2]
    have := Nat.div_le_div_right (c := pageSize) h3
    exact ⟨h1, by omega, by omega, h4⟩

/-! ## The copy of the parent -/

/-- The child's data pages are on the frames `fr`, where the parent's words are, and no other frame is written. -/
structure Twin (m m' : Mm) (processPT parentPT : Nat) (fr : Nat → Nat) : Prop where
  parent : ∀ k < numPagData, m'.entry parentPT (pagLogInitData + k) = m.entry parentPT (pagLogInitData + k)
  child : ∀ k < numPagData, m'.getFrame processPT (pagLogInitData + k) = fr k
  copied : ∀ k < numPagData, m'.ram (fr k) = m.ram (m.getFrame parentPT (pagLogInitData + k))
  rest : ∀ f, (∀ k < numPagData, f ≠ fr k) → m'.ram f = m.ram f

/-- The loops of the heap copy the data again. -/
theorem Twin.heap {m0 : Mm} {processPT parentPT heapPointer : Nat} {fr : Nat → Nat}
    (hapart : ∀ j < numPagData, ∀ k < numPagData, m0.getFrame parentPT (pagLogInitData + j) ≠ fr k)
    (hinj : ∀ j < numPagData, ∀ k < numPagData, fr j = fr k → j = k) : ∀ {fuel pointer i : Nat} {m m' : Mm},
    Twin m0 m processPT parentPT fr → pagLogInitData ≤ i →
    forkCopyHeap processPT parentPT heapPointer fuel pointer i m = some m' → Twin m0 m' processPT parentPT fr
  | 0, _, _, m, m', h, _, hcopy => by
    obtain rfl : m = m' := Option.some.inj hcopy
    exact h
  | fuel + 1, pointer, i, m, m', h, hi, hcopy => by
    have hd := pagLogInitData_eq
    unfold forkCopyHeap at hcopy
    split at hcopy
    swap
    · obtain rfl : m = m' := Option.some.inj hcopy
      exact h
    obtain ⟨src, hsrc, hcopy⟩ := Option.bind_eq_some_iff.mp hcopy
    have hj := heapIndex_bounds hi
    generalize (if i < numPagKernel + numPagCode + numPagData then i else numPagKernel + numPagCode) = p at hsrc hcopy hj
    obtain ⟨j, rfl⟩ := Nat.exists_eq_add_of_le hj.1
    have hj20 : j < numPagData := Nat.lt_of_add_lt_add_left hj.2
    have hlt : pagLogInitData + j + numPagData < totalPages := by
      simp only [numPagData, totalPages] at *
      omega
    have hentry : ∀ (frame : Int) (pt k : Nat), k < numPagData →
        (m.setSsPag processPT (pagLogInitData + j + numPagData) frame).entry pt (pagLogInitData + k) =
          m.entry pt (pagLogInitData + k) := by
      intro frame pt k hk
      rw [setSsPag, setEntry_entry_lt _ _ hlt (dataPage_lt hk), if_neg (by simp only [numPagData] at *; omega)]
    generalize (m.getFrame parentPT (pointer / pageSize) : Int) = frame at *
    have hsrc' : src = m0.getFrame parentPT (pagLogInitData + j) := by
      unfold Mm.translate at hsrc
      split at hsrc
      · rw [hentry _ _ _ hj20, h.parent j hj20] at hsrc
        exact (Option.some.inj hsrc).symm
      · cases hsrc
    have hdst : (m.setSsPag processPT (pagLogInitData + j + numPagData) frame).getFrame processPT (pagLogInitData + j) = fr j := by
      rw [← h.child j hj20, getFrame, hentry _ _ _ hj20, getFrame]
    rw [hsrc', hdst] at hcopy
    refine Twin.heap hapart hinj ?_ (by omega) hcopy
    have hram : ∀ f, ((((m.setSsPag processPT (pagLogInitData + j + numPagData) frame).copyFrame
        (m0.getFrame parentPT (pagLogInitData + j)) (fr j)).delSsPag parentPT (pagLogInitData + j + numPagData)).ram f) =
        if f = fr j then m.ram (m0.getFrame parentPT (pagLogInitData + j)) else m.ram f := by
      intro f
      exact Function.update_apply ..
    have hafter : ∀ pt k, k < numPagData → (((m.setSsPag processPT (pagLogInitData + j + numPagData) frame).copyFrame
        (m0.getFrame parentPT (pagLogInitData + j)) (fr j)).delSsPag parentPT (pagLogInitData + j + numPagData)).entry pt
        (pagLogInitData + k) = m.entry pt (pagLogInitData + k) := by
      intro pt k hk
      rw [delSsPag, setEntry_entry_lt _ _ hlt (dataPage_lt hk), if_neg (by simp only [numPagData] at *; omega),
        copyFrame_entry, hentry _ _ _ hk]
    refine ⟨fun k hk => ?_, fun k hk => ?_, fun k hk => ?_, fun f hf => ?_⟩
    · rw [hafter _ _ hk, h.parent k hk]
    · rw [← h.child k hk, getFrame, hafter _ _ hk, getFrame]
    · rw [hram]
      split
      · rename_i e
        rw [hinj k hk j hj20 e]
        exact h.rest _ fun i hi => hapart j hj20 i hi
      · exact h.copied k hk
    · rw [hram, if_neg (hf j hj20), h.rest f hf]

/-- A data page that is there has none of the frames that were free. -/
theorem Owned.data_ne {m1 : Mm} {pt base n : Nat} {fr : Nat → Nat} (ho : Owned m) (hpt : pt < nrTasks)
    (hg : Grown m m1 base n fr) {j k : Nat} (hj : j < numPagData) (hk : k < n)
    (hp : (m.entry pt (pagLogInitData + j)).present = true) : m.getFrame pt (pagLogInitData + j) ≠ fr k := by
  intro e
  have hu := (ho.frame pt hpt _ (ownPage_data hj) hp).2.2
  rw [← getFrame, e, hg.free k hk] at hu
  cases hu

/-- The entries of the data pages after a `sys_fork`. -/
theorem fork_dataEntry {m1 : Mm} {processPT parentPT heapStart heapPointer : Nat}
    (hal : forkAllocData processPT numPagData 0 m = (true, m1))
    (hmap : forkMap processPT parentPT heapStart heapPointer m1 = some m') :
    ∃ fr, Grown m m1 (processPT * totalPages + pagLogInitData) numPagData fr ∧
      (∀ k < numPagData, m'.entry processPT (pagLogInitData + k) = ⟨true, true, true, fr k⟩) ∧
      ∀ pt ≠ processPT, ∀ k < numPagData, m'.entry pt (pagLogInitData + k) = m.entry pt (pagLogInitData + k) := by
  obtain ⟨fr, hg, hent⟩ := fork_entry hal hmap
  refine ⟨fr, hg, fun k hk => ?_, fun pt hne k hk => ?_⟩
  · rw [hent _ _ (ownPage_data hk), if_pos ⟨rfl, by omega⟩, Nat.add_sub_cancel_left]
  · rw [hent _ _ (ownPage_data hk), if_neg fun e => hne e.1]

theorem forkMap_twin {m1 : Mm} {processPT parentPT heapStart heapPointer : Nat} {fr : Nat → Nat} (ho : Owned m)
    (hpt : parentPT < nrTasks) (hne : parentPT ≠ processPT)
    (hg : Grown m m1 (processPT * totalPages + pagLogInitData) numPagData fr)
    (h : forkMap processPT parentPT heapStart heapPointer m1 = some m') : Twin m m' processPT parentPT fr ∧
      ∀ k < numPagData, (m.entry parentPT (pagLogInitData + k)).present = true := by
  obtain ⟨m3, h3, hheap⟩ := Option.bind_eq_some_iff.mp h
  have h0 : forkMap processPT parentPT 0 0 m1 = some m3 := by
    unfold forkMap
    rw [h3]
    rfl
  obtain ⟨hpage, hrest, hparent⟩ := forkMap_copied ho hpt hne hg (Nat.le_refl 0) h0
  have hused : ∀ j < numPagData, ∀ k < numPagData, m.getFrame parentPT (pagLogInitData + j) ≠ fr k := fun j hj k hk =>
    ho.data_ne hpt hg hj hk (hpage j hj).1
  refine ⟨Twin.heap hused hg.inj ⟨fun k hk => ?_, fun k hk => (hpage k hk).2.1, fun k hk => (hpage k hk).2.2, hrest⟩
    (Nat.le_refl _) hheap, fun k hk => (hpage k hk).1⟩
  rw [hparent _ (dataPage_lt hk), if_neg (by omega)]

end

/-! ## Steps -/

namespace AbsKernel

/-- A process other than idle. -/
def Runs (a : AbsKernel) (t : TaskId) : Prop := a.Live t ∧ t ≠ a.idleTask

open Classical in
/-- How many processes there are. -/
noncomputable def processes (a : AbsKernel) : Nat := (Finset.univ.filter a.Runs).card

/-- The processes have PIDs that have been given out, and in their data pages is what `x` says. Heap pointers go up by
frames that are not given back. -/
structure Housed (a : AbsKernel) (x : Contents) : Prop where
  pid : ∀ t, a.Runs t → 1 ≤ (a.task t).PID ∧ (a.task t).PID ≤ a.globalPID
  pages : ∀ t, a.Runs t → ∀ k < numPagData, ∃ f, a.mm.entry t.val (pagLogInitData + k) = ⟨true, true, true, f⟩
  spare : ∀ t ∈ a.queue .freequeue, ∀ k < numPagData, a.mm.entry t.val (pagLogInitData + k) = .zero
  budget : ∀ t, a.Runs t → (a.task t).heapPointerProc / pageSize + a.mm.freeCount + numPagData * a.processes ≤ totalPages
  shown : Shown a.Runs (fun t => (a.task t).PID) (fun t (k : Fin numPagData) => dataFrame a.mm t k)
    (fun f (w : Fin 1024) => a.mm.ram f w) x

section
variable {a b : AbsKernel} {x : Contents}

theorem processes_le (h : ∀ t, b.Runs t → a.Runs t) : b.processes ≤ a.processes := by
  apply Finset.card_le_card
  intro t ht
  simp only [Finset.mem_filter, Finset.mem_univ, true_and] at ht ⊢
  exact h t ht

theorem processes_lt {c : TaskId} (hc : a.Runs c) (h : ∀ t, b.Runs t → a.Runs t ∧ t ≠ c) : b.processes + 1 ≤ a.processes := by
  classical
  have hlt : b.processes < a.processes := by
    apply Finset.card_lt_card
    refine ⟨fun t ht => ?_, fun hsub => ?_⟩
    · simp only [Finset.mem_filter, Finset.mem_univ, true_and] at ht ⊢
      exact (h t ht).1
    · have := hsub (Finset.mem_filter.mpr ⟨Finset.mem_univ c, hc⟩)
      simp only [Finset.mem_filter, Finset.mem_univ, true_and] at this
      exact (h c this).2 rfl
  exact hlt

theorem processes_insert {c : TaskId} (h : ∀ t, b.Runs t → t = c ∨ a.Runs t) : b.processes ≤ a.processes + 1 := by
  classical
  have hsub : Finset.univ.filter b.Runs ⊆ insert c (Finset.univ.filter a.Runs) := by
    intro t ht
    simp only [Finset.mem_filter, Finset.mem_univ, true_and, Finset.mem_insert] at ht ⊢
    exact h t ht
  unfold processes
  convert (Finset.card_le_card hsub).trans (Finset.card_insert_le _ _)

theorem runs_current (hne : a.current ≠ a.idleTask) : a.Runs a.current := ⟨.inl rfl, hne⟩

/-- Nothing is done to the pages of those that stay, and no PID is given out. -/
theorem Housed.keep (h : Housed a x) (hr : ∀ t, b.Runs t → a.Runs t) (htask : ∀ t, b.Runs t → (b.task t).PID = (a.task t).PID)
    (hpid : b.globalPID = a.globalPID) (hram : b.mm.ram = a.mm.ram)
    (hent : ∀ t, b.Runs t → ∀ k < numPagData, b.mm.entry t.val (pagLogInitData + k) = a.mm.entry t.val (pagLogInitData + k))
    (hspare : ∀ t ∈ b.queue .freequeue, ∀ k < numPagData, b.mm.entry t.val (pagLogInitData + k) = .zero)
    (hbudget : ∀ t, b.Runs t → (b.task t).heapPointerProc / pageSize + b.mm.freeCount + numPagData * b.processes ≤ totalPages) :
    Housed b x where
  pid t ht := by
    rw [htask t ht, hpid]
    exact h.pid t (hr t ht)
  pages t ht k hk := by
    rw [hent t ht k hk]
    exact h.pages t (hr t ht) k hk
  spare := hspare
  budget := hbudget
  shown := by
    apply h.shown.keep hr htask
    · intro t ht
      funext k
      exact congrArg PageTableEntry.pbaseAddr (hent t ht k k.isLt)
    · intro t ht k
      rw [hram]

theorem Housed.sched (h : Housed a x) (hs : Sched a b) : Housed b x := by
  have hr : ∀ t, b.Runs t → a.Runs t := fun t ht => by
    have hne : t ≠ a.idleTask := hs.idle ▸ ht.2
    exact ⟨(hs.live t ht.1).resolve_left hne, hne⟩
  have htask : ∀ t, (b.task t).PID = (a.task t).PID ∧ (b.task t).heapPointerProc = (a.task t).heapPointerProc := fun t => by
    obtain ⟨st, e⟩ := hs.task t
    rw [e]
    exact ⟨rfl, rfl⟩
  refine h.keep hr (fun t _ => (htask t).1) hs.globalPID (by rw [hs.mm]) (fun t _ k _ => by rw [hs.mm]) (fun t ht k hk => ?_)
    fun t ht => ?_
  · rw [hs.free] at ht
    rw [hs.mm]
    exact h.spare t ht k hk
  have := h.budget t (hr t ht)
  have hle := processes_le hr
  rw [(htask t).2, hs.mm]
  simp only [numPagData] at *
  omega

theorem Housed.exit (h : Housed a x) (ho : a.Owning) (hd : a.OwnDirs) (g : Good a) (hne : a.current ≠ a.idleTask)
    (hb : a.exit = some b) : Housed b x := by
  obtain ⟨pt, hpt, hl⟩ := ho.exit_memory g hne hb
  have hcur := runs_current hne
  obtain rfl : pt = a.current.val := Option.some.inj (hpt.symm.trans (hd _ hcur.1 hcur.2))
  have hr : ∀ t, b.Runs t → a.Runs t ∧ t ≠ a.current := fun t ht => by
    have hi : t ≠ a.idleTask := hl.idle ▸ ht.2
    obtain ⟨hc, hlive⟩ := (hl.live t ht.1).resolve_left hi
    exact ⟨⟨hlive, hi⟩, hc⟩
  have htask : ∀ t, b.Runs t → (b.task t).PID = (a.task t).PID ∧
      (b.task t).heapPointerProc = (a.task t).heapPointerProc := fun t ht => by
    obtain ⟨st, e⟩ := hl.task t (hr t ht).2
    rw [e]
    exact ⟨rfl, rfl⟩
  obtain ⟨hent, -⟩ := releaseData_spec a.current.val a.mm (n := numPagData) (by decide)
  refine h.keep (fun t ht => (hr t ht).1) (fun t ht => (htask t ht).1) hl.globalPID ?_ (fun t ht k hk => ?_)
    (fun t ht k hk => ?_) fun t ht => ?_
  · rw [hl.mm, releaseData_ram]
  · rw [hl.mm, hent _ _ (dataPage_lt hk), if_neg fun e => (hr t ht).2 (Fin.ext e.1)]
  · rw [hl.free, List.mem_append, List.mem_singleton] at ht
    rw [hl.mm, hent _ _ (dataPage_lt hk)]
    rcases ht with ht | rfl
    · split
      · rfl
      · exact h.spare t ht k hk
    · exact if_pos ⟨rfl, Nat.le_add_right _ _, Nat.add_lt_add_left hk _⟩
  · have hbudget := h.budget t (hr t ht).1
    have hlt := processes_lt hcur hr
    have hfree := freeCount_releaseData a.current.val numPagData a.mm
    rw [(htask t ht).2, hl.mm]
    simp only [numPagData] at *
    omega

theorem Housed.sbrk (h : Housed a x) (ho : a.Owning) (hd : a.OwnDirs) (hne : a.current ≠ a.idleTask) {size : Int}
    (hb : a.sbrk size = some b) : Housed b x := by
  have hcur := runs_current hne
  obtain ⟨-, hstart, hheap⟩ := ho.users a.current hcur.1 hcur.2
  rcases sbrk_cases hb with rfl | ⟨pt, ret, hp, mm, hpt, hs, rfl⟩
  · exact h
  obtain rfl : pt = a.current.val := Option.some.inj (hpt.symm.trans (hd _ hcur.1 hcur.2))
  have hcurrent := h.budget a.current hcur
  have hfit : (a.task a.current).heapPointerProc / pageSize + a.mm.freeCount ≤ totalPages := by omega
  rw [hstart] at hs
  obtain ⟨hram, hfree, hup, htouch⟩ := sbrkHeap_keeps hheap ho.mm.codeUsed hfit hs
  have hr : ∀ t, ((a.setMm mm).setHeapPointer hp).Runs t → a.Runs t := fun _ ht => ht
  have hle := processes_le hr
  have hent : ∀ t : TaskId, ∀ k < numPagData, mm.entry t.val (pagLogInitData + k) = a.mm.entry t.val (pagLogInitData + k) := by
    intro t k hk
    apply htouch
    simp only [heapPage_eq, pagLogInitData_eq, HeapOf, numPagData, totalPages] at *
    omega
  refine h.keep hr (fun t _ => ?_) rfl hram (fun t _ => hent t) (fun t ht k hk => ?_) fun t ht => ?_
  · rw [sbrk_task]
    split
    · rename_i e
      rw [e]
    · rfl
  · exact (hent t k hk).trans (h.spare t ht k hk)
  · have hbudget := h.budget t (hr t ht)
    have hsame : ((a.setMm mm).setHeapPointer hp).mm = mm := rfl
    rw [sbrk_task, hsame]
    split
    · simp only [numPagData] at *
      omega
    · simp only [numPagData] at *
      omega

theorem Housed.forkFailed (h : Housed a x) (ho : a.Owning) (g : Good a) {child : TaskId} {rest : List TaskId}
    (hq : a.queue .freequeue = child :: rest) (tab : SemTable) {mm : Mm}
    (hal : forkAllocData child.val numPagData 0 a.mm = (false, mm)) :
    Housed (((a.forkChild child rest tab).setMm mm).push .freequeue child) x := by
  have hfree : child ∈ a.queue .freequeue := by rw [hq]; exact List.mem_cons_self
  obtain ⟨htab, hphys⟩ := forkAllocData_failed (Grown.nil a.mm _ id) (Nat.le_of_eq (Nat.zero_add _)) ho.mm.codeUsed
    (h.spare child hfree) hal
  have hram := @forkAllocData_ram child.val numPagData 0 a.mm
  rw [hal] at hram
  have hent : ∀ pt page, mm.entry pt page = a.mm.entry pt page := fun pt page => congrFun htab _
  have hr : ∀ t, (((a.forkChild child rest tab).setMm mm).push .freequeue child).Runs t → a.Runs t :=
    fun t ht => ⟨forkChild_live hq tab mm ht.1, ht.2⟩
  have htask : ∀ t, a.Runs t → (a.forkChild child rest tab).task t = a.task t := by
    intro t ht
    apply forkChild_task_ne
    rintro rfl
    exact not_live_of_free g hfree ht.1
  refine h.keep hr (fun t ht => ?_) rfl hram (fun t _ k _ => hent _ _) (fun t ht k hk => ?_) fun t ht => ?_
  · exact congrArg TaskCore.PID (htask t (hr t ht))
  · refine (hent _ _).trans (h.spare t ?_ k hk)
    have hmem : t ∈ rest ++ [child] := by
      simpa [AbsKernel.push, AbsKernel.setQueue, AbsKernel.setMm, AbsKernel.forkChild, AbsKernel.resetSemafors,
        AbsKernel.copyTask] using ht
    rw [hq]
    simpa [or_comm] using hmem
  · have hbudget := h.budget t (hr t ht)
    have hle := processes_le hr
    have hcount : mm.freeCount = a.mm.freeCount := by
      unfold freeCount
      rw [hphys]
    change ((a.forkChild child rest tab).task t).heapPointerProc / pageSize + mm.freeCount + _ ≤ totalPages
    rw [htask t (hr t ht), hcount]
    simp only [numPagData] at *
    omega

/-- The child has a heap as long as that of its parent, and takes a frame for each data page. -/
theorem Housed.fork_budget (h : Housed a x) (hcur : a.Runs a.current) {child : TaskId} {task : TaskCore}
    (hold : ∀ t, b.Runs t → t = child ∨ a.Runs t ∧ t ≠ child)
    (htask : ∀ t, b.task t = if t = child then task else a.task t)
    (hheap : task.heapPointerProc = (a.task a.current).heapPointerProc)
    (hcount : b.mm.freeCount + numPagData = a.mm.freeCount) : ∀ t, b.Runs t →
      (b.task t).heapPointerProc / pageSize + b.mm.freeCount + numPagData * b.processes ≤ totalPages := by
  intro t ht
  have hle := processes_insert (a := a) (b := b) (c := child) fun u hu => (hold u hu).imp_right And.left
  have hold' : (b.task t).heapPointerProc / pageSize + a.mm.freeCount + numPagData * a.processes ≤ totalPages := by
    rw [htask]
    rcases hold t ht with rfl | ⟨ht, hc⟩
    · rw [if_pos rfl, hheap]
      exact h.budget a.current hcur
    · rw [if_neg hc]
      exact h.budget t ht
  simp only [numPagData] at *
  omega

theorem Housed.forked (h : Housed a x) (ho : a.Owning) (hd : a.OwnDirs) (g : Good a) (hne : a.current ≠ a.idleTask)
    {child : TaskId} {rest : List TaskId} (hq : a.queue .freequeue = child :: rest) (tab : SemTable) {m1 mm : Mm} {pt : Nat}
    (hal : forkAllocData child.val numPagData 0 a.mm = (true, m1))
    (hpt : (a.task a.current).dirPagesBaseAddr = some pt)
    (hmap : forkMap child.val pt (a.task a.current).heapStartProc (a.task a.current).heapPointerProc m1 = some mm) :
    Housed (((a.forkChild child rest tab).setMm mm).forkStart child)
      ((Action.fork (a.task a.current).PID (a.globalPID + 1)).apply x) := by
  obtain ⟨hcc, -⟩ := g.child_ne hq
  have hcur := runs_current hne
  have hrest : child ∉ rest := by
    have hnodup := g.nodup .freequeue
    rw [hq] at hnodup
    exact (List.nodup_cons.mp hnodup).1
  obtain rfl : pt = a.current.val := Option.some.inj (hpt.symm.trans (hd _ hcur.1 hcur.2))
  have hval : a.current.val ≠ child.val := fun e => hcc (Fin.ext e)
  obtain ⟨fr, hg, hchild, hother⟩ := fork_dataEntry hal hmap
  obtain ⟨ht, -⟩ := forkMap_twin ho.mm a.current.isLt hval hg hmap
  obtain ⟨-, hphys⟩ := forkMap_some hmap
  have htask := forkStart_task (a := a) child rest tab mm
  have hold : ∀ t, (((a.forkChild child rest tab).setMm mm).forkStart child).Runs t → t = child ∨ a.Runs t ∧ t ≠ child := by
    intro t ht
    by_cases hc : t = child
    · exact .inl hc
    · exact .inr ⟨⟨(forkStart_live hq ht.1).resolve_left hc, ht.2⟩, hc⟩
  have hothers : ∀ t : TaskId, t ≠ child → ∀ k < numPagData,
      mm.entry t.val (pagLogInitData + k) = a.mm.entry t.val (pagLogInitData + k) := by
    intro t htc k hk
    exact hother t.val (fun e => htc (Fin.ext e)) k hk
  have hused : ∀ t, a.Runs t → ∀ j < numPagData, ∀ k < numPagData, dataFrame a.mm t j ≠ fr k := by
    intro t ht j hj k hk
    obtain ⟨f, hf⟩ := h.pages t ht j hj
    exact ho.mm.data_ne t.isLt hg hj hk (by rw [hf])
  constructor
  case pid =>
    intro t ht
    rw [htask]
    rcases hold t ht with rfl | ⟨ht, hc⟩
    · rw [if_pos rfl]
      have := h.pid _ hcur
      exact ⟨by change 1 ≤ a.globalPID + 1; omega, Int.le_refl _⟩
    · rw [if_neg hc]
      have := h.pid t ht
      exact ⟨this.1, by change _ ≤ a.globalPID + 1; omega⟩
  case pages =>
    intro t ht k hk
    rcases hold t ht with rfl | ⟨ht, hc⟩
    · exact ⟨fr k, hchild k hk⟩
    · obtain ⟨f, hf⟩ := h.pages t ht k hk
      exact ⟨f, (hothers t hc k hk).trans hf⟩
  case spare =>
    intro t ht k hk
    have hmem : t ∈ rest := by
      simpa [forkStart, forkChild, resetSemafors, copyTask, push, setQueue, modTask, setMm] using ht
    have hc : t ≠ child := fun e => hrest (e ▸ hmem)
    exact (hothers t hc k hk).trans (h.spare t (by rw [hq]; exact List.mem_cons_of_mem _ hmem) k hk)
  case budget =>
    apply h.fork_budget hcur hold htask rfl
    change mm.freeCount + numPagData = a.mm.freeCount
    rw [← hg.count]
    unfold freeCount
    rw [hphys]
  case shown =>
    apply h.shown.fork hcur hold
    · intro t _ hc
      rw [htask, if_neg hc]
    · rw [htask, if_pos rfl]
    · intro t ht e
      have := (h.pid t ht).2
      omega
    · intro t _ hc
      funext k
      exact congrArg PageTableEntry.pbaseAddr (hothers t hc k k.isLt)
    · intro j k e
      exact Fin.ext (hg.inj j j.isLt k k.isLt ((ht.child j j.isLt).symm.trans (Eq.trans e (ht.child k k.isLt))))
    · intro k t hr j e
      exact hused t hr j j.isLt k k.isLt (Eq.trans e (ht.child k k.isLt))
    · intro k
      funext w
      change mm.ram (mm.getFrame child.val (pagLogInitData + k)) w = _
      rw [ht.child k k.isLt, ht.copied k k.isLt]
      rfl
    · intro t hr k
      funext w
      exact congrFun (ht.rest _ fun j hj => hused t hr k k.isLt j hj) w

theorem Housed.fork (h : Housed a x) (ho : a.Owning) (hd : a.OwnDirs) (g : Good a) (hne : a.current ≠ a.idleTask)
    {r : Int × AbsKernel} (hr : a.fork = some r) :
    Housed r.2 (if 0 < r.1 then (Action.fork (a.task a.current).PID r.1).apply x else x) := by
  rcases fork_cases hr with ⟨-, rfl⟩ | ⟨child, rest, tab, hq, -, ⟨mm, hal, rfl⟩ | ⟨m1, pt, mm, hal, hpt, hmap, rfl⟩⟩
  · exact h
  · exact h.forkFailed ho g hq tab hal
  · have hpid := h.pid _ (runs_current hne)
    rw [if_pos (by dsimp only; omega)]
    exact h.forked ho hd g hne hq tab hal hpt hmap

/-- Words change, and nothing else of the memory. -/
theorem Housed.words (h : Housed a x) {m : Mm} {y : Contents} (htab : m.pagusrTable = a.mm.pagusrTable)
    (hphys : m.physMem = a.mm.physMem)
    (hs : Shown a.Runs (fun t => (a.task t).PID) (fun t (k : Fin numPagData) => dataFrame a.mm t k)
      (fun f (w : Fin 1024) => m.ram f w) y) : Housed (a.setMm m) y := by
  have hent : ∀ pt page, m.entry pt page = a.mm.entry pt page := fun pt page => congrFun htab _
  have hcount : m.freeCount = a.mm.freeCount := by
    unfold freeCount
    rw [hphys]
  have hframe : ∀ t k, dataFrame m t k = dataFrame a.mm t k := fun t k => congrArg PageTableEntry.pbaseAddr (hent _ _)
  refine ⟨h.pid, fun t ht k hk => ?_, fun t ht k hk => (hent _ _).trans (h.spare t ht k hk), fun t ht => ?_, ?_⟩
  · obtain ⟨f, hf⟩ := h.pages t ht k hk
    exact ⟨f, (hent _ _).trans hf⟩
  · have hbudget := h.budget t ht
    rw [← hcount] at hbudget
    exact hbudget
  · refine ⟨hs.names, fun t ht u hu j k e => hs.frames t ht u hu j k ?_, fun t ht k w => ?_⟩
    · rw [← hframe, ← hframe]
      exact e
    · change m.ram (dataFrame m t k) w = y (a.task t).PID k w
      rw [hframe]
      exact hs.holds t ht k w

/-- A word of a data page is changed. -/
theorem Housed.change (h : Housed a x) (hne : a.current ≠ a.idleTask) (k : Fin numPagData) (word : Fin 1024)
    (f : UInt32 → UInt32) :
    Housed (a.setMm (stored a.mm (dataFrame a.mm a.current k) word (f (a.mm.ram (dataFrame a.mm a.current k) word))))
      ((Action.change (a.task a.current).PID k word f).apply x) := by
  have hs := h.shown.change (runs_current hne) k word f
  refine h.words rfl rfl ⟨hs.names, hs.frames, fun t ht j w => ?_⟩
  rw [← hs.holds t ht j w]
  by_cases hf : dataFrame a.mm t j = dataFrame a.mm a.current k
  · simp [stored, hf, Function.update_apply, Fin.val_inj]
  · simp [stored, hf]

/-- A store in a frame of no data page. -/
theorem Housed.elsewhere (h : Housed a x) {f : Nat} (hf : ∀ t, a.Runs t → ∀ k : Fin numPagData, dataFrame a.mm t k ≠ f)
    (word : Nat) (v : UInt32) : Housed (a.setMm (stored a.mm f word v)) x := by
  refine h.words rfl rfl (h.shown.keep (fun _ ht => ht) (fun _ _ => rfl) (fun _ _ => rfl) fun t ht k => ?_)
  funext w
  change Function.update a.mm.ram f _ (dataFrame a.mm t k) w = _
  rw [Function.update_of_ne (hf t ht k)]

theorem Housed.step (h : Housed a x) (ho : a.Owning) (hd : a.OwnDirs) (g : Good a) {ok : Bool} {op : Kernel.Op}
    (hop : ¬ op.OnThreads) (hnf : op ≠ .fork) (hb : a.step ok op = some b) : Housed b x := by
  rcases step_cases hb with hs | ⟨hne, ⟨-, hx⟩ | ⟨rfl, -⟩ | ⟨rfl, -⟩ | ⟨f, p, w, rfl, -⟩ | ⟨size, -, hx⟩⟩
  · exact h.sched hs
  · exact h.exit ho hd g hne hx
  · exact absurd trivial hop
  · exact absurd rfl hnf
  · exact absurd trivial hop
  · exact h.sbrk ho hd hne hx

end

end AbsKernel

/-! ## Runs -/

/-- `a` describes the state, and the private memories are what came out of all that happened to them. -/
structure Chronicled (mc : Machine) (x : List Act × Kernel) (a : AbsKernel) : Prop where
  rep : Rep x.2 a
  good : a.Good
  owning : a.Owning
  dirs : a.OwnDirs
  housed : a.Housed (replay (Kernel.firstContents mc) x.1)

section
variable {mc : Machine} {s s' : Kernel} {a : AbsKernel} {as : List Act} {x : Contents}

theorem load_eq (h : Rep s a) (hd : a.OwnDirs) {t : TaskId} (ht : a.Runs t) {k f : Nat} (hk : k < numPagData)
    (hf : a.mm.entry t.val (pagLogInitData + k) = ⟨true, true, true, f⟩) (w : Nat) :
    s.load t k w = some (a.mm.ram (dataFrame a.mm t k) w) := by
  have hpt : s.getPT t = some t.val := (getPT_eq h t).trans (hd t ht.1 ht.2)
  have htr := translate_of_present (dataPage_lt hk) (by rw [hf] : (a.mm.entry t.val (pagLogInitData + k)).present = true)
  rw [Kernel.load, hpt, h.mm]
  exact congrArg (fun f => f.bind fun f => some (a.mm.ram f w)) htr

theorem userStore_some {page word : Nat} {v : UInt32} (h : s.userStore page word v = some s') : s.idleTask ≠ some s.current ∧
    ∃ pt f, s.getPT s.current = some pt ∧ s.mm.translate pt page = some f ∧
      s' = s.setMm (stored s.mm f word v) := by
  unfold Kernel.userStore at h
  split at h
  · cases h
  rename_i hi
  obtain ⟨pt, hpt, h⟩ := Option.bind_eq_some_iff.mp h
  split at h
  · obtain ⟨m, hm, h⟩ := Option.bind_eq_some_iff.mp h
    obtain ⟨f, hf, hm⟩ := Option.bind_eq_some_iff.mp hm
    cases hm
    cases h
    exact ⟨hi, pt, f, hpt, hf, rfl⟩
  · cases h

theorem filled_getKey {b : UInt32} {c : CBuffer} (h : s.happen (.getKey b c) = some s') :
    s.Filled s' (s.copied (.getKey b c)) := by
  unfold Kernel.happen at h
  dsimp only at h
  split at h
  · cases h
  rename_i hi
  refine ⟨hi, ?_⟩
  obtain ⟨r, hr, rfl⟩ := Option.map_eq_some_iff.mp h
  unfold Kernel.copied
  dsimp only
  unfold System.sysGetKey at hr
  by_cases hc : c.bwritten = 0 ∨ b = 0 ∨ ¬ accessOk .verifyWrite b 1 none = true
  · have hsame : r.2.kernel = s := by
      split at hr
      · cases hr
        rfl
      · rcases hc with hc | hc | hc
        · contradiction
        · rw [if_pos hc] at hr
          cases hr
          rfl
        · split at hr
          · cases hr
            rfl
          · cases hr
            rfl
    rw [if_pos hc, hsame]
    exact ⟨s, s.mm, .inl rfl, rfl, fun _ _ => rfl⟩
  · rw [if_neg hc]
    simp only [not_or] at hc
    rw [if_neg hc.1, if_neg hc.2.1, if_neg hc.2.2] at hr
    obtain ⟨pt, hpt, hr⟩ := Option.bind_eq_some_iff.mp hr
    obtain ⟨mm, hmm, hr⟩ := Option.bind_eq_some_iff.mp hr
    cases hr
    refine ⟨s, mm, .inl rfl, rfl, fun pt' hpt' => ?_⟩
    obtain rfl : pt = pt' := Option.some.inj (hpt.symm.trans hpt')
    rw [List.foldlM_cons]
    exact Option.bind_eq_some_iff.mpr ⟨mm, hmm, rfl⟩

theorem filled_getStats {pid : Int} {st : UInt32} (h : s.happen (.getStats pid st) = some s') :
    s.Filled s' (s.copied (.getStats pid st)) := by
  unfold Kernel.happen at h
  dsimp only at h
  split at h
  · cases h
  rename_i hi
  refine ⟨hi, ?_⟩
  obtain ⟨r, hr, rfl⟩ := Option.map_eq_some_iff.mp h
  have hnone : r = (r.1, s) → ∃ k mm, (k = s ∨ ∃ i, k = s.setRemainingTicks i) ∧ r.2 = k.setMm mm ∧
      ∀ pt, s.getPT s.current = some pt → [].foldlM (fun m (x : UInt32 × UInt8) => storeByte pt m x.1 x.2) s.mm = some mm := by
    intro he
    rw [he]
    exact ⟨s, s.mm, .inl rfl, rfl, fun _ _ => rfl⟩
  unfold Kernel.copied
  dsimp only
  unfold Kernel.sysGetStats at hr
  by_cases hok : accessOk .verifyWrite st sizeStats none = true
  swap
  · rw [if_pos hok] at hr
    rw [if_pos (.inl hok)]
    cases hr
    exact hnone rfl
  rw [if_neg (not_not.mpr hok)] at hr
  by_cases hpid : pid < 0
  · rw [if_pos hpid] at hr
    rw [if_pos (.inr hpid)]
    cases hr
    exact hnone rfl
  rw [if_neg hpid] at hr
  rw [if_neg (not_or.mpr ⟨not_not.mpr hok, hpid⟩)]
  cases hfind : (List.finRange nrTasks).find? fun i => (s.task i).PID = pid with
  | none =>
    rw [hfind] at hr
    cases hr
    exact hnone rfl
  | some i =>
    rw [hfind] at hr
    obtain ⟨pt, hpt, hr⟩ := Option.bind_eq_some_iff.mp hr
    obtain ⟨⟨ret, mm⟩, hmm, hr⟩ := Option.bind_eq_some_iff.mp hr
    cases hr
    refine ⟨s.setRemainingTicks i, mm, .inr ⟨i, rfl⟩, rfl, fun pt' hpt' => ?_⟩
    have hsame : (s.setRemainingTicks i).getPT (s.setRemainingTicks i).current = s.getPT s.current :=
      Kernel.setRemainingTicks_getPT ..
    obtain rfl : pt = pt' := Option.some.inj ((hpt.symm.trans hsame).trans hpt')
    have hlen : ((s.setRemainingTicks i).task i).pStats.bytes.length < 2 ^ 32 := by
      rw [Stats.bytes_length]
      decide
    have hcopy := copyToUser_addressed (storeByte pt) s.mm st hlen
    rw [Stats.bytes_length, show copyToUser _ s.mm 0 st sizeStats = some (ret, mm) from hmm] at hcopy
    obtain ⟨mm', hfold, he⟩ := Option.map_eq_some_iff.mp hcopy.symm
    cases he
    exact hfold

theorem Chronicled.currentTable (h : Chronicled mc (as, s) a) (hi : s.idleTask ≠ some s.current) :
    s.getPT s.current = some s.current.val := by
  have hrep : Rep s a := h.rep
  have hcur := AbsKernel.runs_current (hrep.not_idle.mp hi)
  rw [getPT_eq hrep, hrep.current]
  exact h.dirs _ hcur.1 hcur.2

/-- A word is changed through the table of the current process. -/
theorem Chronicled.change (h : Chronicled mc (as, s) a) (hi : s.idleTask ≠ some s.current) {page frame : Nat}
    (hpage : OwnPage page ∨ page < pagLogInitData) (hf : s.mm.translate s.current.val page = some frame) (word : Fin 1024)
    (f : UInt32 → UInt32) :
    ∃ b, Chronicled mc (as ++ s.changed page word f, s.setMm (stored s.mm frame word (f (s.mm.ram frame word)))) b := by
  have hrep : Rep s a := h.rep
  have hne := hrep.not_idle.mp hi
  have hmm : s.mm = a.mm := hrep.mm
  rw [hrep.current, hmm] at hf
  rw [hmm]
  obtain ⟨hpres, rfl⟩ : (a.mm.entry a.current.val page).present = true ∧ a.mm.getFrame a.current.val page = frame := by
    unfold Mm.translate at hf
    split at hf
    · rename_i hc
      exact ⟨hc.2, Option.some.inj hf⟩
    · cases hf
  have hpid : (s.task s.current).PID = (a.task a.current).PID := pid_current h.rep
  refine ⟨_, hrep.setMm _, { h.good with }, ⟨h.owning.users, h.owning.mm.congr rfl rfl⟩, h.dirs, ?_⟩
  unfold Kernel.changed
  by_cases hd : page - pagLogInitData < numPagData ∧ pagLogInitData ≤ page
  · rw [dif_pos hd, replay_snoc, hpid]
    have hst := h.housed.change hne ⟨page - pagLogInitData, hd.1⟩ word f
    rw [dataFrame, Nat.add_sub_cancel' hd.2] at hst
    exact hst
  · rw [dif_neg hd, List.append_nil]
    -- the frame of another page is no frame of a data page
    apply h.housed.elsewhere
    intro t ht k e
    obtain ⟨f, hk⟩ := h.housed.pages t ht k k.isLt
    have hpk : (a.mm.entry t.val (pagLogInitData + k)).present = true := by rw [hk]
    have hown := ownPage_data k.isLt
    have := k.isLt
    rcases hpage with hpage | hlow
    · obtain ⟨-, hsame⟩ := h.owning.mm.inj t.val t.isLt _ hown hpk a.current.val a.current.isLt page hpage hpres e
      omega
    · have hlt := h.owning.mm.low a.current.val a.current.isLt page hlow
      have hge := (h.owning.mm.frame t.val t.isLt _ hown hpk).2.1
      rw [show (a.mm.entry t.val (pagLogInitData + k)).pbaseAddr = _ from e] at hge
      exact absurd hlt (Nat.not_lt.mpr hge)

theorem Chronicled.store (h : Chronicled mc (as, s) a) {page : Nat} {word : Fin 1024} {v : UInt32} (hpage : OwnPage page)
    (hs : s.userStore page word v = some s') : ∃ b, Chronicled mc (as ++ s.acted (.store page word v), s') b := by
  obtain ⟨hi, pt, f, hpt, hf, rfl⟩ := userStore_some hs
  obtain rfl : s.current.val = pt := Option.some.inj ((h.currentTable hi).symm.trans hpt)
  exact h.change hi (.inl hpage) hf word fun _ => v

/-- The kernel stores bytes for the current process. -/
theorem Chronicled.bytes (hi : s.idleTask ≠ some s.current) : ∀ {l : List (UInt32 × UInt8)} {m mm : Mm} {as : List Act}
    {a : AbsKernel}, Chronicled mc (as, s.setMm m) a → (∀ x ∈ l, x.1.toNat < dataEnd) →
    l.foldlM (fun m x => storeByte s.current.val m x.1 x.2) m = some mm →
    ∃ b, Chronicled mc (as ++ l.flatMap s.byteChanged, s.setMm mm) b
  | [], m, mm, as, a, h, _, hm => by
    obtain rfl := Option.some.inj hm
    exact ⟨a, by simpa using h⟩
  | x :: l, m, mm, as, a, h, hl, hm => by
    rw [List.foldlM_cons] at hm
    obtain ⟨m₁, h₁, hm⟩ := Option.bind_eq_some_iff.mp hm
    obtain ⟨frame, hf, h₁⟩ := Option.bind_eq_some_iff.mp h₁
    obtain ⟨frame', hf', h₁⟩ := Option.bind_eq_some_iff.mp h₁
    obtain rfl : frame = frame' := Option.some.inj (hf.symm.trans hf')
    have hpage : OwnPage (x.1.toNat / pageSize) ∨ x.1.toNat / pageSize < pagLogInitData := by
      have hx := hl x List.mem_cons_self
      have hend : dataEnd = 284 * 4096 := rfl
      have hdata := pagLogInitData_eq
      simp only [OwnPage, pageSize, numPagData]
      omega
    have hlt : x.1.toNat % pageSize / 4 < 1024 := Nat.div_lt_of_lt_mul (Nat.mod_lt _ (by decide))
    obtain ⟨b, hb⟩ := h.change hi hpage hf ⟨x.1.toNat % pageSize / 4, hlt⟩ fun w => setByte w (x.1.toNat % pageSize % 4) x.2
    obtain rfl := Option.some.inj h₁
    obtain ⟨b', hb'⟩ := Chronicled.bytes hi hb (fun y hy => hl y (List.mem_cons_of_mem x hy)) hm
    refine ⟨b', ?_⟩
    rw [List.flatMap_cons, ← List.append_assoc]
    exact hb'

theorem addressed_lt {n : Nat} : ∀ {l : List UInt8} {q : UInt32}, q.toNat + l.length ≤ n → n < 2 ^ 32 →
    ∀ x ∈ addressed q l, x.1.toNat < n
  | [], _, _, _, _, hx => absurd hx List.not_mem_nil
  | v :: l, q, hq, hn, x, hx => by
    rw [List.length_cons] at hq
    rw [addressed, List.mem_cons] at hx
    rcases hx with rfl | hx
    · change q.toNat < n
      omega
    · have hone : (q + 1).toNat = q.toNat + 1 := by
        rw [UInt32.toNat_add, UInt32.toNat_one, Nat.mod_eq_of_lt (by omega)]
      exact addressed_lt (by omega) hn x hx

theorem copied_getKey_lt {b : UInt32} {c : CBuffer} (h : (Happening.getKey b c).Allowed) :
    ∀ x ∈ s.copied (.getKey b c), x.1.toNat < dataEnd := by
  intro x hx
  unfold Kernel.copied at hx
  dsimp only at hx
  split at hx
  · cases hx
  · rename_i hc
    simp only [not_or, not_not] at hc
    rw [List.mem_singleton.mp hx]
    exact h hc.2.2

theorem copied_getStats_lt {pid : Int} {st : UInt32} (h : (Happening.getStats pid st).Allowed) :
    ∀ x ∈ s.copied (.getStats pid st), x.1.toNat < dataEnd := by
  intro x hx
  unfold Kernel.copied at hx
  dsimp only at hx
  split at hx
  · cases hx
  rename_i hc
  simp only [not_or, not_not] at hc
  split at hx
  · exact addressed_lt (h hc.1) (by decide) x hx
  · cases hx

theorem Chronicled.filled (h : Chronicled mc (as, s) a) {l : List (UInt32 × UInt8)} (hf : s.Filled s' l)
    (hl : ∀ x ∈ l, x.1.toNat < dataEnd) : ∃ b, Chronicled mc (as ++ l.flatMap s.byteChanged, s') b := by
  obtain ⟨k, mm, hk, rfl, hfold⟩ := hf.stored
  have hi := hf.caller
  have hbytes := hfold _ (h.currentTable hi)
  rcases hk with rfl | ⟨i, rfl⟩
  · exact Chronicled.bytes hi (m := k.mm) h hl hbytes
  · have hrep : Rep (s.setRemainingTicks i) a := h.rep.modTask_core i rfl
    obtain ⟨b, hb⟩ := Chronicled.bytes (s := s.setRemainingTicks i) (m := s.mm) hi
      ⟨hrep, h.good, h.owning, h.dirs, h.housed⟩ hl hbytes
    have hpid : ((s.setRemainingTicks i).task s.current).PID = (s.task s.current).PID := by
      rw [pid_eq hrep, pid_eq h.rep]
    have hsame : (s.setRemainingTicks i).byteChanged = s.byteChanged := by
      funext x
      unfold Kernel.byteChanged Kernel.changed
      rw [show (s.setRemainingTicks i).current = s.current from rfl, hpid]
    rw [hsame] at hb
    exact ⟨b, hb⟩

theorem Chronicled.kernel (h : Chronicled mc (as, s) a) {e : Kernel.Event} (hop : ¬ e.op.OnThreads)
    (hs : s.step e = some s') : ∃ b, Chronicled mc (as ++ s.acted (.kernel e), s') b := by
  obtain ⟨b, hb, h', g'⟩ := h.rep.step_some h.good hs
  refine ⟨b, h', g', h.owning.step h.good hb, h.dirs.step h.good hop hb, ?_⟩
  obtain ⟨op, ebp⟩ := e
  by_cases hf : op = .fork
  · subst hf
    obtain ⟨hne, r, hr, rfl⟩ := AbsKernel.step_fork hb
    obtain ⟨⟨pid, s1⟩, hx, rfl⟩ := ret_some (h.rep.sysFork (h.good.current _) ebp) hr
    have hpid : (s.task s.current).PID = (a.task a.current).PID := pid_current h.rep
    have hfork := h.housed.fork h.owning h.dirs h.good hne hr
    unfold Kernel.acted
    dsimp only at hx ⊢
    rw [hx]
    dsimp only
    split at hfork
    · rename_i hpos
      rw [if_pos hpos, replay_snoc, hpid]
      exact hfork
    · rename_i hpos
      rw [if_neg hpos, List.append_nil]
      exact hfork
  · have hnone : s.acted (.kernel ⟨op, ebp⟩) = [] := by
      unfold Kernel.acted
      dsimp only
      split
      · exact absurd rfl hf
      · rfl
    rw [hnone, List.append_nil]
    exact h.housed.step h.owning h.dirs h.good hop hf hb

theorem boot_runs {t : TaskId} (ht : (bootAbs mc).Runs t) : t = 1 := by
  obtain ⟨h | h | ⟨tab, i, h⟩, -⟩ := ht
  · exact h
  · cases h
  · cases h

theorem boot_dataEntry (mc : Machine) {k : Nat} (hk : k < numPagData) :
    (bootAbs mc).mm.entry 1 (pagLogInitData + k) = ⟨true, true, true, firstDataFrame + 2 * k⟩ := by
  rw [boot_user mc (by decide) (by omega) (dataPage_lt hk), if_pos ⟨rfl, by omega⟩, Nat.add_sub_cancel_left]

theorem boot_dataFrame (mc : Machine) {k : Nat} (hk : k < numPagData) :
    dataFrame (bootAbs mc).mm 1 k = firstDataFrame + 2 * k :=
  congrArg PageTableEntry.pbaseAddr (boot_dataEntry mc hk)

theorem boot_chronicled (mc : Machine) : Chronicled mc ([], Kernel.boot mc) (bootAbs mc) where
  rep := boot_rep mc
  good := boot_good mc
  owning := boot_owning mc
  dirs := boot_ownDirs mc
  housed := by
    have hone : ((bootAbs mc).task 1).PID = 1 ∧ ((bootAbs mc).task 1).heapPointerProc = initHeap := by
      rw [boot_task1]
      exact ⟨rfl, rfl⟩
    constructor
    · intro t ht
      rw [boot_runs ht, hone.1]
      exact ⟨Int.le_refl _, by change (1 : Int) ≤ 1000; decide⟩
    · intro t ht k hk
      rw [boot_runs ht]
      exact ⟨_, boot_dataEntry mc hk⟩
    · intro t ht k hk
      have hne : t.val ≠ 1 := by
        intro e
        rw [show t = 1 from Fin.ext e, show (bootAbs mc).queue .freequeue = [2, 3, 4, 5, 6, 7, 8, 9] from rfl] at ht
        revert ht
        decide
      rw [boot_user mc t.isLt (Nat.le_add_right _ _) (dataPage_lt hk), if_neg fun e => hne e.1]
    · intro t ht
      have hfree := freeCount_le (bootAbs mc).mm
      have hcard : (bootAbs mc).processes ≤ nrTasks := (Finset.card_le_univ _).trans (Fintype.card_fin _).le
      rw [boot_runs ht, hone.2, initHeap_eq]
      simp only [numPagData, totalPages, nrTasks, pageSize] at *
      omega
    · refine ⟨fun t ht u hu _ => ?_, fun t ht u hu j k e => ?_, fun t ht k w => ?_⟩
      · rw [boot_runs ht, boot_runs hu]
      · rw [boot_runs ht, boot_runs hu] at e ⊢
        rw [boot_dataFrame mc j.isLt, boot_dataFrame mc k.isLt] at e
        exact ⟨rfl, Fin.ext (by omega)⟩
      · obtain rfl := boot_runs ht
        have hload := load_eq (boot_rep mc) (boot_ownDirs mc) ht k.isLt (boot_dataEntry mc k.isLt) w
        exact (congrArg (Option.getD · 0) hload).symm

end

theorem exec_chronicled (mc : Machine) {hs : List Happening} (hall : ∀ h ∈ hs, h.Allowed) {as : List Act} {s : Kernel}
    (he : exec Kernel.chronicle ([], Kernel.boot mc) hs = some (as, s)) : ∃ a, Chronicled mc (as, s) a := by
  refine exec_invariant (I := fun x => ∃ a, Chronicled mc x a) (P := fun _ h _ => h.Allowed) ?_
    ⟨_, boot_chronicled mc⟩ (allSteps_of_forall (fun _ _ _ h => h) hall) he
  rintro ⟨as, s⟩ e y ⟨a, h⟩ ha hy
  obtain ⟨s', hs, rfl⟩ := Option.map_eq_some_iff.mp hy
  cases e with
  | kernel e => exact h.kernel ha hs
  | store page word v => exact h.store ha hs
  | getKey b c => exact h.filled (filled_getKey hs) (copied_getKey_lt ha)
  | getStats pid st => exact h.filled (filled_getStats hs) (copied_getStats_lt ha)

/-- However processes run among each other, each has a PID of its own, as long as the counter of the PIDs has not gone over
`INT_MAX`, and in its data and stack pages it finds what it stored there itself, on top of what its parent had when it was
forked. -/
theorem memory_private (mc : Machine) {hs : List Happening} (hall : ∀ h ∈ hs, h.Allowed) {as : List Act} {s : Kernel}
    (he : exec Kernel.chronicle ([], Kernel.boot mc) hs = some (as, s)) {t : TaskId} (ht : s.Live t)
    (hi : s.idleTask ≠ some t) :
    (s.globalPID ≤ intMax →
      ∀ u, s.Live u → s.idleTask ≠ some u → toInt32 (s.task u).PID = toInt32 (s.task t).PID → u = t) ∧
      ∀ (k : Fin numPagData) (w : Fin 1024),
        s.load t k w = some (replay (Kernel.firstContents mc) as (s.task t).PID k w) := by
  obtain ⟨a, h⟩ := exec_chronicled mc hall he
  have hruns : ∀ u, s.Live u → s.idleTask ≠ some u → a.Runs u := fun u hu hui =>
    ⟨(h.rep.live u).mp hu, (h.rep.idle_iff u).mp hui⟩
  have hrun := hruns t ht hi
  refine ⟨fun hmax u hu hui e => ?_, fun k w => ?_⟩
  · -- the PIDs that have been given out are those of the C code
    have hint : ∀ v, a.Runs v → toInt32 (a.task v).PID = (a.task v).PID := by
      intro v hv
      have hpid := h.housed.pid v hv
      rw [show s.globalPID = a.globalPID from h.rep.globalPID] at hmax
      exact toInt32_of_range (by omega) (by omega)
    rw [pid_eq h.rep, pid_eq h.rep, hint u (hruns u hu hui), hint t hrun] at e
    exact h.housed.shown.names u (hruns u hu hui) t hrun e
  · obtain ⟨f, hf⟩ := h.housed.pages t hrun k k.isLt
    rw [pid_eq h.rep, load_eq h.rep h.dirs hrun k.isLt hf]
    exact congrArg some (h.housed.shown.holds t hrun k w)

/-- A character that waits for `sys_getKey`. -/
def sampleKey : CBuffer := ⟨fun _ => 65, 0, 1, 1⟩

/-- A program stores the first word of its data. -/
def storeFirst (v : UInt32) : Happening := .store 264 0 v

/-- Task 1 stores a word and forks, both change it, and task 2 asks for the statistics of its parent. -/
def sharedStart : List Happening :=
  [storeFirst 7, .kernel ⟨.fork, 8⟩, storeFirst 9, .kernel ⟨.yield, 8⟩, .getKey 0x108001 sampleKey, .getStats 1 0x109000]

theorem memory_private_fork : ∃ as s, exec Kernel.chronicle ([], Kernel.boot .blank) sharedStart = some (as, s) ∧
    s.load 2 0 0 = some 0x4107 ∧
    (∀ u, s.Live u → s.idleTask ≠ some u → toInt32 (s.task u).PID = toInt32 (s.task 2).PID → u = 2) ∧
      ∀ (k : Fin numPagData) (w : Fin 1024),
        s.load 2 k w = some (replay (Kernel.firstContents .blank) as (s.task 2).PID k w) := by
  have hrun : (exec Kernel.chronicle ([], Kernel.boot .blank) sharedStart).any (fun x =>
      decide (x.2.load 2 0 0 = some 0x4107 ∧ x.2.globalPID ≤ intMax ∧ x.2.current = 2 ∧ x.2.idleTask ≠ some 2)) = true := by
    decide +kernel
  obtain ⟨⟨as, s⟩, hs, hd⟩ := (Option.any_eq_true _ _).mp hrun
  obtain ⟨hload, hmax, hcur, hi⟩ := of_decide_eq_true hd
  have hall : ∀ h ∈ sharedStart, h.Allowed := by
    intro h hh
    fin_cases hh
    · exact .inl ⟨by decide, by decide⟩
    · exact id
    · exact .inl ⟨by decide, by decide⟩
    · exact id
    · exact fun _ => by decide
    · exact fun _ => by decide
  obtain ⟨hpid, hwords⟩ := memory_private .blank hall hs (.inl hcur.symm) hi
  exact ⟨as, s, hs, hload, hpid hmax, hwords⟩

end ZeosSOA.Sysenter
