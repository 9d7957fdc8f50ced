import ZeosSOA.Sysenter.Contents
import ZeosSOA.Sysenter.HeapRuns
import ZeosSOA.Sysenter.ThreadRuns

/-!
# ZeOSSysenter: the stack of a thread before its first turn

The words for a new thread are at the end of a page that its process shares. The page stays as it is as long as no task
in its table maps it again, removes it or stores to those words.
-/

namespace ZeosSOA.Sysenter

open Mm Runs

/-- The pages `sbrkShrink` removes. -/
def shrinkPages (newPointer : Nat) : Nat → Nat → List Nat
  | 0, _ => []
  | fuel + 1, hp =>
    if hp > newPointer then
      (if hp % pageSize = 0 ∧ hp > dataEnd then [hp / pageSize] else []) ++ shrinkPages newPointer fuel (subPage hp)
    else []

namespace Kernel

/-- The heap pages of the caller's table, which is `pt`, that a call maps or removes. -/
def heapPages (s : Kernel) (pt : Nat) : Op → List Nat
  | .threadCreate f p w => s.threadPages f p w
  | .threadExit => [s.topPage]
  | .sbrk size =>
    let new := (((s.task s.current).heapPointerProc + size) % 2 ^ 32).toNat
    if 0 ≤ size then s.sbrkPages pt size
    else if new < initHeap then []
    else shrinkPages new pointerRounds (s.task s.current).heapPointerProc
  | _ => []

/-- A call of the current task has stored a byte of a thread's start in the frame of the page. -/
def FillsStack (s : Kernel) (pt page : Nat) (l : List (UInt32 × UInt8)) : Prop :=
  ∃ q ∈ s.getPT s.current, ∃ x ∈ l, s.mm.getFrame q (x.1.toNat / pageSize) = s.mm.getFrame pt page ∧
    1021 ≤ x.1.toNat % pageSize / 4

instance (s : Kernel) (pt page : Nat) (l : List (UInt32 × UInt8)) : Decidable (s.FillsStack pt page l) :=
  inferInstanceAs (Decidable (∃ q ∈ s.getPT s.current, ∃ x ∈ l,
    s.mm.getFrame q (x.1.toNat / pageSize) = s.mm.getFrame pt page ∧ 1021 ≤ x.1.toNat % pageSize / 4))

/-- A call of the current task writes the entry of the page, or its program, or the kernel for it, stores a word of a thread's
start in the frame of the page. -/
def Disturbs (s : Kernel) (pt page : Nat) : Happening → Prop
  | .kernel e => ∃ q ∈ s.getPT s.current, ∃ p ∈ s.heapPages q e.op, q * totalPages + p = pt * totalPages + page
  | .store p word _ => ∃ q ∈ s.getPT s.current, s.mm.getFrame q p = s.mm.getFrame pt page ∧ 1021 ≤ word.val
  | .getKey b c => s.FillsStack pt page (s.copied (.getKey b c))
  | .getStats pid st => s.FillsStack pt page (s.copied (.getStats pid st))

instance (s : Kernel) (pt page : Nat) : (x : Happening) → Decidable (s.Disturbs pt page x)
  | .kernel e => inferInstanceAs (Decidable (∃ q ∈ s.getPT s.current, ∃ p ∈ s.heapPages q e.op,
      q * totalPages + p = pt * totalPages + page))
  | .store p word _ => inferInstanceAs (Decidable (∃ q ∈ s.getPT s.current,
      s.mm.getFrame q p = s.mm.getFrame pt page ∧ 1021 ≤ word.val))
  | .getKey b c => inferInstanceAs (Decidable (s.FillsStack pt page (s.copied (.getKey b c))))
  | .getStats pid st => inferInstanceAs (Decidable (s.FillsStack pt page (s.copied (.getStats pid st))))

/-- The page is on the frame, and ends with the words for a thread. -/
structure StackOn (m : Mm) (pt page frame : Nat) (function parameter : UInt32) : Prop where
  entry : m.entry pt page = { present := true, rw := true, user := true, pbaseAddr := frame }
  words : m.ram frame 1021 = 0x777 ∧ m.ram frame 1022 = function ∧ m.ram frame 1023 = parameter

end Kernel

/-! ## What the calls write -/

section
variable {m m' : Mm} {pt old new hp hp' fuel : Nat}

theorem shrinkPages_touches : ∀ {fuel hp : Nat} {m : Mm}, sbrkShrink pt new fuel hp m = some (hp', m') →
    Touches (fun k => ∃ page ∈ shrinkPages new fuel hp, k = pt * totalPages + page) m m'
  | 0, _, _, h => by cases h
  | fuel + 1, hp, m, h => by
    unfold sbrkShrink at h
    unfold shrinkPages
    split at h
    swap
    · cases h
      exact fun _ _ => rfl
    rename_i hlt
    rw [if_pos hlt]
    have hrest : ∀ m1 : Mm, sbrkShrink pt new fuel (subPage hp) m1 = some (hp', m') → ∀ l : List Nat,
        Touches (fun k => ∃ page ∈ l ++ shrinkPages new fuel (subPage hp), k = pt * totalPages + page) m1 m' := by
      intro m1 h1 l k hk
      apply shrinkPages_touches h1 k
      rintro ⟨page, hp, e⟩
      exact hk ⟨page, List.mem_append_right _ hp, e⟩
    split at h
    · rename_i hal
      rw [if_pos hal]
      exact (touches_sbrkDelPage m ⟨_, List.mem_append_left _ List.mem_cons_self, rfl⟩).trans (hrest _ h _)
    · rename_i hal
      rw [if_neg hal]
      exact hrest _ h _

theorem sbrkRollback_ram : ∀ {fuel hp : Nat} {m : Mm}, sbrkRollback pt old fuel hp m = some (hp', m') → m'.ram = m.ram
  | 0, _, _, h => by cases h
  | fuel + 1, hp, m, h => by
    unfold sbrkRollback at h
    split at h
    · rw [sbrkRollback_ram h, releasePage_ram]
    · cases h
      rfl

theorem sbrkGrow_ram {ok : Bool} : ∀ {fuel hp : Nat} {m : Mm}, sbrkGrow pt old new fuel hp m = some (ok, hp', m') →
    m'.ram = m.ram
  | 0, _, _, h => by cases h
  | fuel + 1, hp, m, h => by
    have ha := allocFrame_ram m
    unfold sbrkGrow at h
    split at h
    · split at h
      · generalize m.allocFrame = x at ha h
        obtain ⟨f, m1⟩ := x
        dsimp only at ha h
        split at h
        · obtain ⟨⟨hp1, m2⟩, hr, hret⟩ := Option.bind_eq_some_iff.mp h
          cases hret
          rw [sbrkRollback_ram hr, ha]
        · rw [sbrkGrow_ram h]
          exact ha
      · exact sbrkGrow_ram h
    · cases h
      rfl

theorem sbrkShrink_ram : ∀ {fuel hp : Nat} {m : Mm}, sbrkShrink pt new fuel hp m = some (hp', m') → m'.ram = m.ram
  | 0, _, _, h => by cases h
  | fuel + 1, hp, m, h => by
    unfold sbrkShrink at h
    split at h
    · rw [sbrkShrink_ram h]
      split
      · rw [sbrkDelPage_eq]
        rfl
      · rfl
    · cases h
      rfl

theorem sbrkHeap_ram {heapStart ret : Nat} {size : Int} (h : sbrkHeap pt heapStart old size m = some (ret, hp', m')) :
    m'.ram = m.ram := by
  unfold sbrkHeap at h
  dsimp only at h
  split at h
  · cases h
    rfl
  split at h
  · split at h
    · cases h
      rfl
    · obtain ⟨⟨ok, hp1, m1⟩, hg, hret⟩ := Option.bind_eq_some_iff.mp h
      cases hret
      exact sbrkGrow_ram hg
  · obtain ⟨⟨hp1, m1⟩, hg, hret⟩ := Option.bind_eq_some_iff.mp h
    cases hret
    exact sbrkShrink_ram hg

theorem writeUstack_ram {page frame : Nat} {f p : UInt32} (h : Kernel.writeUstack m pt page f p = some m')
    (hne : frame ≠ (m.entry pt page).pbaseAddr) : m'.ram frame = m.ram frame := by
  obtain ⟨-, -, hlt, hpres⟩ := writeUstack_some h
  have hframe := translate_of_present hlt hpres
  obtain ⟨m1, h1, h⟩ := Option.bind_eq_some_iff.mp h
  obtain ⟨m2, h2, h3⟩ := Option.bind_eq_some_iff.mp h
  have htab1 := translate_congr (writeWord_some h1).1
  have htab2 := translate_congr (writeWord_some h2).1
  rw [Mm.writeWord, hframe] at h1
  cases h1
  rw [Mm.writeWord, htab1, hframe] at h2
  cases h2
  rw [Mm.writeWord, htab2, htab1, hframe] at h3
  cases h3
  simp [hne]

/-! ## The copies of sys_fork -/

/-- The child's data pages have frames, and none of them is `frame`. -/
def Misses (m : Mm) (processPT frame : Nat) : Prop :=
  ∀ k < numPagData, m.getFrame processPT (pagLogInitData + k) ≠ frame ∧
    frameBits (m.getFrame processPT (pagLogInitData + k)) ≠ frame

theorem Misses.congr {processPT frame : Nat} (h : Misses m processPT frame)
    (hent : ∀ k < numPagData, m'.entry processPT (pagLogInitData + k) = m.entry processPT (pagLogInitData + k)) :
    Misses m' processPT frame := fun k hk => by
  rw [getFrame, hent k hk]
  exact h k hk

theorem foldlM_forkCopyPage_ram {processPT parentPT frame : Nat} : ∀ {l : List Nat} {m : Mm},
    (∀ pag ∈ l, pagLogInitData ≤ pag ∧ pag < pagLogInitData + numPagData) → Misses m processPT frame →
    l.foldlM (forkCopyPage processPT parentPT) m = some m' → m'.ram frame = m.ram frame ∧ Misses m' processPT frame
  | [], m, _, hm, h => by
    obtain rfl : m = m' := Option.some.inj h
    exact ⟨rfl, hm⟩
  | pag :: l, m, hl, hm, h => by
    have hd := pagLogInitData_eq
    obtain ⟨m1, h1, hrest⟩ := Option.bind_eq_some_iff.mp h
    obtain ⟨hge, hlt⟩ := hl pag List.mem_cons_self
    have hwin : pag + numPagData < totalPages := by
      simp only [numPagData, totalPages] at *
      omega
    obtain ⟨k, hk, rfl⟩ : ∃ k < numPagData, pag = pagLogInitData + k := ⟨pag - pagLogInitData, by omega, by omega⟩
    have hent := (forkCopyPage_some hwin h1).1
    have hm1 : Misses m1 processPT frame := hm.congr fun j hj => by
      rw [hent _ _ (dataPage_lt hj), if_neg (by simp only [numPagData] at *; omega)]
    obtain ⟨hram, hm'⟩ := foldlM_forkCopyPage_ram (fun p hp => hl p (List.mem_cons_of_mem _ hp)) hm1 hrest
    refine ⟨hram.trans ?_, hm'⟩
    rw [forkCopyPage_eq hwin (forkCopyPage_present hwin h1)] at h1
    cases h1
    exact Function.update_of_ne (hm k hk).2.symm _ _

theorem forkCopyHeap_ram {processPT parentPT heapPointer frame : Nat} : ∀ {fuel pointer i : Nat} {m : Mm},
    pagLogInitData ≤ i → Misses m processPT frame →
    forkCopyHeap processPT parentPT heapPointer fuel pointer i m = some m' → m'.ram frame = m.ram frame
  | 0, _, _, m, _, _, h => by
    obtain rfl : m = m' := Option.some.inj h
    rfl
  | fuel + 1, pointer, i, m, hi, hm, h => by
    have hd := pagLogInitData_eq
    unfold forkCopyHeap at h
    split at h
    swap
    · obtain rfl : m = m' := Option.some.inj h
      rfl
    obtain ⟨src, -, h⟩ := Option.bind_eq_some_iff.mp h
    have hj := heapIndex_bounds hi
    generalize (if i < numPagKernel + numPagCode + numPagData then i else numPagKernel + numPagCode) = p at h hj
    obtain ⟨j, rfl⟩ := Nat.exists_eq_add_of_le hj.1
    have hj20 : j < numPagData := Nat.lt_of_add_lt_add_left hj.2
    have hwin : pagLogInitData + j + numPagData < totalPages := by
      simp only [numPagData, totalPages] at *
      omega
    have hwindow : ∀ (m : Mm) (pt : Nat) (e : PageTableEntry), Misses m processPT frame →
        Misses (m.setEntry pt (pagLogInitData + j + numPagData) e) processPT frame := fun m pt e hm =>
      hm.congr fun k hk => by
        rw [setEntry_entry_lt _ _ hwin (dataPage_lt hk), if_neg (by simp only [numPagData] at *; omega)]
    obtain ⟨hset, hram⟩ : Misses (m.setSsPag processPT (pagLogInitData + j + numPagData)
        (m.getFrame parentPT (pointer / pageSize))) processPT frame ∧ (m.setSsPag processPT (pagLogInitData + j + numPagData)
        (m.getFrame parentPT (pointer / pageSize))).ram = m.ram := ⟨hwindow m processPT _ hm, rfl⟩
    generalize m.setSsPag processPT (pagLogInitData + j + numPagData) (m.getFrame parentPT (pointer / pageSize)) = m1 at *
    have hcopy : Misses (m1.copyFrame src (m1.getFrame processPT (pagLogInitData + j))) processPT frame :=
      hset.congr fun _ _ => rfl
    rw [forkCopyHeap_ram (by omega) (hwindow _ parentPT .zero hcopy) h, ← hram]
    exact Function.update_of_ne (hset j hj20).1.symm _ _

theorem forkMap_ram {processPT parentPT heapStart heapPointer frame : Nat} (hm : Misses m processPT frame)
    (h : forkMap processPT parentPT heapStart heapPointer m = some m') : m'.ram frame = m.ram frame := by
  obtain ⟨m1, h1, h⟩ := Option.bind_eq_some_iff.mp h
  have hcode : numPagKernel + numPagCode = pagLogInitData := rfl
  have hshare : Misses (forkShareSystemCode processPT parentPT m) processPT frame := hm.congr fun k hk => by
    rw [(forkShareSystemCode_spec processPT parentPT m).1 _ _ (dataPage_lt hk), if_neg (by omega)]
  obtain ⟨hram, hm1⟩ := foldlM_forkCopyPage_ram (fun pag hp => mem_dataPages.mp hp) hshare h1
  rw [forkCopyHeap_ram (Nat.le_of_eq hcode.symm) hm1 h, hram, forkShareSystemCode_ram]

end

/-! ## Steps -/

section
variable {s s' : Kernel} {a b : AbsKernel} {e : Kernel.Event} {pt page : Nat}

/-- Nothing of the page has changed. -/
structure SamePage (m m' : Mm) (pt page : Nat) : Prop where
  entry : m'.entry pt page = m.entry pt page
  ram : m'.ram (m.getFrame pt page) = m.ram (m.getFrame pt page)

theorem SamePage.of_eq {m m' : Mm} (h : m' = m) : SamePage m m' pt page := ⟨by rw [h], by rw [h]⟩

/-- The page is one of the heap pages of a table, and mapped. -/
structure AbsKernel.HasPage (a : AbsKernel) (pt page : Nat) : Prop where
  table : pt < nrTasks
  heap : heapPage ≤ page
  lt : page < totalPages
  present : (a.mm.entry pt page).present = true

namespace AbsKernel

theorem HasPage.own (h : a.HasPage pt page) : OwnPage page := .inr ⟨h.heap, h.lt⟩

theorem HasPage.used (h : a.HasPage pt page) (ho : a.Owning) : a.mm.physMem (a.mm.getFrame pt page) = .used :=
  (ho.mm.frame pt h.table page h.own h.present).2.2

/-- The places of the data pages of a table. -/
def DataOf (q k : Nat) : Prop := ∃ i < numPagData, k = q * totalPages + (pagLogInitData + i)

theorem HasPage.not_dataOf (h : a.HasPage pt page) (q : Nat) : ¬ DataOf q (pt * totalPages + page) := by
  rintro ⟨i, hi, e⟩
  have hd := pagLogInitData_eq
  have hh := heapPage_eq
  have hge := h.heap
  have hlt := h.lt
  simp only [numPagData, totalPages] at *
  omega

theorem HasPage.exit (h : a.HasPage pt page) (g : Good a) (ho : a.Owning) (hne : a.current ≠ a.idleTask)
    (hb : a.exit = some b) : SamePage a.mm b.mm pt page := by
  obtain ⟨q, -, hl⟩ := ho.exit_memory g hne hb
  rw [hl.mm]
  exact ⟨touches_releaseData (K := DataOf q) a.mm (fun i hi => ⟨i, hi, rfl⟩) _ (h.not_dataOf q), by rw [releaseData_ram]⟩

theorem HasPage.fork (h : a.HasPage pt page) (ho : a.Owning) {r : Int × AbsKernel} (hr : a.fork = some r) :
    SamePage a.mm r.2.mm pt page := by
  rcases fork_cases hr with ⟨-, rfl⟩ | ⟨child, rest, tab, -, -, ⟨mm, he, rfl⟩ | ⟨m1, q, mm, he, -, hmap, rfl⟩⟩
  · exact .of_eq rfl
  · change SamePage a.mm mm pt page
    have ht := touches_forkAllocData (K := DataOf child.val) child.val numPagData 0 a.mm fun i hi =>
      ⟨i, by omega, rfl⟩
    have hram : (forkAllocData child.val numPagData 0 a.mm).2.ram = a.mm.ram := forkAllocData_ram ..
    rw [he] at ht hram
    exact ⟨ht _ (h.not_dataOf _), by rw [hram]⟩
  · change SamePage a.mm mm pt page
    obtain ⟨fr, hg, hent⟩ := fork_entry he hmap
    have hd := pagLogInitData_eq
    have hh := heapPage_eq
    have hge := h.heap
    refine ⟨?_, ?_⟩
    · rw [hent pt page h.own, if_neg (by simp only [numPagData] at *; omega)]
    rw [forkMap_ram (m := m1) (fun k hk => ?_) hmap, hg.ram]
    have hframe : m1.getFrame child.val (pagLogInitData + k) = fr k := by
      rw [getFrame, hg.entry (by decide) _ (dataPage_lt hk), if_pos (by omega), Nat.add_sub_cancel_left]
    have hfr := (mem_candidates.mp (hg.cand k hk)).2.1
    have hne : fr k ≠ a.mm.getFrame pt page := by
      intro e
      have hu := h.used ho
      rw [← e, hg.free k hk] at hu
      cases hu
    rw [hframe, frameBits_natCast (by simp only [totalPages] at hfr; omega)]
    exact ⟨hne, hne⟩

theorem samePage_threadExit (g : Good a) (hb : a.threadExit = some b)
    (hd : ∀ q, (a.task a.current).dirPagesBaseAddr = some q →
      q * totalPages + (a.task a.current).heapPointerProc / pageSize ≠ pt * totalPages + page) :
    SamePage a.mm b.mm pt page := by
  obtain ⟨q, hq, hl⟩ := leaves_threadExit g hb
  rw [hl.mm]
  refine ⟨?_, by rw [releasePage_ram]⟩
  exact touches_releasePage (K := fun k => k = q * totalPages + (a.task a.current).heapPointerProc / pageSize) a.mm rfl _
    fun e => hd q hq e.symm

theorem HasPage.threadCreate (h : a.HasPage pt page) (ho : a.Owning) (hne : a.current ≠ a.idleTask) {f p : UInt32}
    {r : Int × AbsKernel} (hr : a.threadCreate f p = some r)
    (hd : a.queue .freequeue ≠ [] → a.mm.freeCount ≠ 0 → ∀ q, (a.task a.current).dirPagesBaseAddr = some q →
      q * totalPages + (a.task a.current).heapPointerProc / pageSize ≠ pt * totalPages + page) :
    SamePage a.mm r.2.mm pt page := by
  obtain ⟨-, hstart, hheap⟩ := ho.users a.current (.inl rfl) hne
  rcases threadCreate_cases hr with ⟨-, rfl⟩ | ⟨child, rest, hq, ⟨-, rfl⟩ | ⟨-, q, hpt, ⟨mm, hf, hmm, rfl⟩ | ⟨hp, mm, hf, hrel, rfl⟩⟩⟩
  · exact .of_eq rfl
  · exact .of_eq rfl
  · change SamePage a.mm mm pt page
    have hplace := hd (by rw [hq]; exact List.cons_ne_nil _ _) (fun h0 => hf (allocFrame_eq_neg_one.mpr h0)) q hpt
    have hlt := (writeUstack_some hmm).2.2.1
    rcases allocFrame_cases a.mm with ⟨fr, hc, hfree, hal⟩ | ⟨-, hal⟩
    swap
    · exact absurd (by rw [hal]) hf
    rw [hal] at hmm
    have hent : ∀ k, k ≠ q * totalPages + (a.task a.current).heapPointerProc / pageSize →
        mm.pagusrTable k = a.mm.pagusrTable k := by
      intro k hk
      rw [(writeUstack_some hmm).1]
      exact Function.update_of_ne hk _ _
    refine ⟨hent _ hplace.symm, Eq.trans (writeUstack_ram hmm ?_) rfl⟩
    have hfr := (mem_candidates.mp hc).2.1
    rw [setSsPag, setEntry_entry_lt _ _ hlt hlt, if_pos ⟨rfl, rfl⟩, frameBits_natCast (by simp only [totalPages] at hfr; omega)]
    intro e
    have hu := h.used ho
    rw [e, hfree] at hu
    cases hu
  · obtain ⟨rfl, rfl⟩ := releaseHeap_keeps (hstart ▸ hheap.ge) hrel
    exact .of_eq (allocFrame_refused hf)

end AbsKernel

theorem samePage_sysSbrk {size : Int} {ret : Nat} (hs : s.sysSbrk size = some (ret, s'))
    (hd : ∀ q, s.getPT s.current = some q → ∀ p ∈ s.heapPages q (.sbrk size), q * totalPages + p ≠ pt * totalPages + page) :
    SamePage s.mm s'.mm pt page := by
  have hcall := hs
  unfold Kernel.sysSbrk at hs
  dsimp only at hs
  split at hs
  · cases hs
    exact .of_eq rfl
  obtain ⟨q, hq, hs⟩ := Option.bind_eq_some_iff.mp hs
  obtain ⟨⟨ret', hp, m⟩, hr, hs⟩ := Option.bind_eq_some_iff.mp hs
  cases hs
  have hpage : ¬ ∃ p ∈ s.heapPages q (.sbrk size), pt * totalPages + page = q * totalPages + p := by
    rintro ⟨p, hp, e⟩
    exact hd q hq p hp e.symm
  unfold Kernel.heapPages at hpage
  dsimp only at hpage
  refine ⟨?_, by rw [Kernel.setHeapPointer_mm]; exact congrFun (sbrkHeap_ram hr) _⟩
  by_cases h0 : 0 ≤ size
  · rw [if_pos h0] at hpage
    exact Kernel.sbrkPages_touches hq h0 hcall _ hpage
  rw [if_neg h0] at hpage
  unfold sbrkHeap at hr
  dsimp only at hr
  split at hr
  · cases hr
    rfl
  rename_i hnew
  rw [if_neg hnew] at hpage
  rw [if_neg (by omega)] at hr
  obtain ⟨⟨hp1, m1⟩, hg, hret⟩ := Option.bind_eq_some_iff.mp hr
  cases hret
  exact shrinkPages_touches hg _ hpage

theorem resume_mm (s : Kernel) : s.resume.mm = s.mm := by
  unfold Kernel.resume
  split <;> rfl

/-- A call writes nothing of a heap page that it does not map, remove or store to. -/
theorem Rep.samePage (h : Rep s a) (g : a.Good) (ho : a.Owning) (hp : a.HasPage pt page) (hs : s.step e = some s')
    (hd : ¬ s.Disturbs pt page (.kernel e)) : SamePage s.mm s'.mm pt page := by
  obtain ⟨b, hb, h', g'⟩ := h.step_some g hs
  have hmm : s.mm = a.mm := h.mm
  have hmm' : s'.mm = b.mm := h'.mm
  have hplace : ∀ q, s.getPT s.current = some q → ∀ p ∈ s.heapPages q e.op, q * totalPages + p ≠ pt * totalPages + page :=
    fun q hq p hp e => hd ⟨q, hq, p, hp, e⟩
  rcases AbsKernel.step_cases hb with hx | ⟨hne, ⟨-, hx⟩ | ⟨hop, hx⟩ | ⟨-, r, hr, rfl⟩ | ⟨f, p, w, hop, r, hr, rfl⟩ | ⟨size, hop, -⟩⟩
  · exact .of_eq (hmm'.trans (hx.mm.trans hmm.symm))
  · rw [hmm, hmm']
    exact hp.exit g ho hne hx
  · rw [hmm, hmm']
    refine AbsKernel.samePage_threadExit g hx fun q hq => ?_
    rw [← h.topPage]
    exact hplace q (h.getPT.trans hq) _ (by rw [hop]; exact List.mem_singleton_self _)
  · rw [hmm, hmm']
    exact hp.fork ho hr
  · rw [hop] at hplace hb
    by_cases hok : s.threadArgsOk f p w = true
    · rw [hmm, hmm']
      obtain ⟨-, hstart, hheap⟩ := ho.users a.current (.inl rfl) hne
      refine hp.threadCreate ho hne hr fun hq hfree q hpt => ?_
      rw [← h.topPage]
      exact hplace q (h.getPT.trans hpt) _
        ((h.mem_threadPages hstart hheap).mpr ⟨(h.mapsStack hheap).mpr ⟨hok, hq, hfree⟩, rfl⟩)
    · have hab : a = r.2 := by
        have hb := (AbsKernel.step_call (by simp) hb).2
        simpa [AbsKernel.handle, Rep.argsOk, hok] using hb
      exact .of_eq (by rw [hmm, hmm', ← hab])
  · have hh := hs
    unfold Kernel.step at hh
    split at hh
    · cases hh
    obtain ⟨s1, h1, rfl⟩ := Option.map_eq_some_iff.mp hh
    rw [hop] at hplace
    unfold Kernel.handle at h1
    rw [hop] at h1
    obtain ⟨⟨ret, s2⟩, h2, rfl⟩ := Option.map_eq_some_iff.mp h1
    rw [resume_mm]
    exact samePage_sysSbrk h2 hplace

/-! ## Runs -/

variable {frame : Nat} {f p : UInt32}

theorem Kernel.StackOn.same {m m' : Mm} (h : Kernel.StackOn m pt page frame f p) (hsame : SamePage m m' pt page) :
    Kernel.StackOn m' pt page frame f p := by
  have hframe : m.getFrame pt page = frame := congrArg PageTableEntry.pbaseAddr h.entry
  have hram := hsame.ram
  rw [hframe] at hram
  exact ⟨hsame.entry.trans h.entry, by rw [hram]; exact h.words⟩

/-- A state that a run of calls and stores can be in, with the stack of a thread. -/
structure HasStack (s : Kernel) (pt page frame : Nat) (f p : UInt32) : Prop where
  known : ∃ a, Rep s a ∧ a.Good ∧ a.Owning
  table : pt < nrTasks
  heap : heapPage ≤ page
  lt : page < totalPages
  stack : Kernel.StackOn s.mm pt page frame f p

/-- A word is stored that is not one of the thread's start. -/
theorem Kernel.StackOn.stored {m : Mm} {g word : Nat} {v : UInt32} (h : Kernel.StackOn m pt page frame f p)
    (hne : g = frame → word < 1021) : Kernel.StackOn (stored m g word v) pt page frame f p := by
  have hkept : ∀ w, 1021 ≤ w → (Sysenter.stored m g word v).ram frame w = m.ram frame w := by
    intro w hw
    unfold Sysenter.stored
    by_cases hframe : frame = g
    · subst hframe
      have hlt := hne rfl
      have hword : w ≠ word := by omega
      simp [hword]
    · simp [hframe]
  obtain ⟨h1, h2, h3⟩ := h.words
  exact ⟨h.entry, (hkept _ (by decide)).trans h1, (hkept _ (by decide)).trans h2, (hkept _ (by decide)).trans h3⟩

theorem getFrame_of_translate {m : Mm} {q k g : Nat} (h : m.translate q k = some g) : m.getFrame q k = g := by
  unfold Mm.translate at h
  split at h
  · exact Option.some.inj h
  · cases h

theorem Kernel.StackOn.bytes {q : Nat} : ∀ {l : List (UInt32 × UInt8)} {m mm : Mm}, Kernel.StackOn m pt page frame f p →
    (∀ x ∈ l, m.getFrame q (x.1.toNat / pageSize) = frame → x.1.toNat % pageSize / 4 < 1021) →
    l.foldlM (fun m x => storeByte q m x.1 x.2) m = some mm →
    Kernel.StackOn mm pt page frame f p ∧ mm.pagusrTable = m.pagusrTable ∧ mm.physMem = m.physMem
  | [], m, mm, h, _, hm => by
    obtain rfl := Option.some.inj hm
    exact ⟨h, rfl, rfl⟩
  | x :: l, m, mm, h, hl, hm => by
    rw [List.foldlM_cons] at hm
    obtain ⟨m₁, h₁, hm⟩ := Option.bind_eq_some_iff.mp hm
    obtain ⟨g, hg, h₁⟩ := Option.bind_eq_some_iff.mp h₁
    obtain ⟨g', hg', h₁⟩ := Option.bind_eq_some_iff.mp h₁
    obtain rfl : g = g' := Option.some.inj (hg.symm.trans hg')
    obtain rfl := Option.some.inj h₁
    have hst := h.stored (v := Mm.setByte (m.ram g (x.1.toNat % pageSize / 4)) (x.1.toNat % pageSize % 4) x.2)
      fun e => hl x List.mem_cons_self ((getFrame_of_translate hg).trans e)
    obtain ⟨hstack, htab, hphys⟩ := Kernel.StackOn.bytes hst (fun y hy => hl y (List.mem_cons_of_mem x hy)) hm
    exact ⟨hstack, htab, hphys⟩

/-- The kernel stores bytes for the current process. -/
theorem HasStack.filled (h : HasStack s pt page frame f p) {l : List (UInt32 × UInt8)} (hf : s.Filled s' l)
    (hd : ¬ s.FillsStack pt page l) : HasStack s' pt page frame f p := by
  obtain ⟨a, hrep, g, ho⟩ := h.known
  obtain ⟨k, mm, hk, rfl, hfold⟩ := hf.stored
  obtain ⟨⟨q, hq, -⟩, -, -⟩ := ho.users a.current (.inl rfl) (hrep.not_idle.mp hf.caller)
  have hpt : s.getPT s.current = some q := by rw [getPT_eq hrep, hrep.current, hq]
  have hframe : s.mm.getFrame pt page = frame := congrArg PageTableEntry.pbaseAddr h.stack.entry
  obtain ⟨hstack, htab, hphys⟩ := h.stack.bytes (fun x hx he => by
    by_contra hge
    exact hd ⟨q, hpt, x, hx, he.trans hframe.symm, Nat.le_of_not_lt hge⟩) (hfold q hpt)
  have hrepk : Rep k a := by
    rcases hk with rfl | ⟨i, rfl⟩
    · exact hrep
    · exact hrep.modTask_core i rfl
  rw [hrep.mm] at htab hphys
  exact ⟨⟨_, hrepk.setMm mm, { g with }, ho.users, ho.mm.congr htab hphys⟩, h.table, h.heap, h.lt, hstack⟩

theorem HasStack.happen (h : HasStack s pt page frame f p) {x : Happening} (hs : s.happen x = some s')
    (hd : ¬ s.Disturbs pt page x) : HasStack s' pt page frame f p := by
  obtain ⟨a, hrep, g, ho⟩ := h.known
  cases x with
  | kernel e =>
    obtain ⟨b, hb, h', g'⟩ := hrep.step_some g hs
    have hpres : (a.mm.entry pt page).present = true := by
      rw [← hrep.mm, h.stack.entry]
    exact ⟨⟨b, h', g', ho.step g hb⟩, h.table, h.heap, h.lt,
      h.stack.same (hrep.samePage g ho ⟨h.table, h.heap, h.lt, hpres⟩ hs hd)⟩
  | store p word v =>
    obtain ⟨hi, q, f, hq, hf, rfl⟩ := userStore_some hs
    refine ⟨⟨_, hrep.setMm _, { g with }, ho.users, ?_⟩, h.table, h.heap, h.lt, h.stack.stored fun e => ?_⟩
    · rw [hrep.mm]
      exact ho.mm.congr rfl rfl
    · by_contra hge
      apply hd
      refine ⟨q, hq, ?_, Nat.le_of_not_lt hge⟩
      rw [getFrame_of_translate hf, e]
      exact (congrArg PageTableEntry.pbaseAddr h.stack.entry).symm
  | getKey b c => exact h.filled (filled_getKey hs) hd
  | getStats pid st => exact h.filled (filled_getStats hs) hd

/-- The stack is as it was, whatever the other tasks do that does not disturb it. -/
theorem HasStack.exec (h : HasStack s pt page frame f p) {hs : List Happening} (he : exec Kernel.happen s hs = some s')
    (hd : AllSteps Kernel.happen (fun s x _ => ¬ s.Disturbs pt page x) s hs) : HasStack s' pt page frame f p := by
  refine exec_invariant (I := fun s => HasStack s pt page frame f p) ?_ h hd he
  intro s x s' h hd hs
  exact h.happen hs hd

end

end ZeosSOA.Sysenter
