import ZeosSOA.Sysenter.Ownership

/-!
# ZeOSSysenter: the address space of a child

What `sys_fork` copies, and when the child has what its parent has. The data goes through a
window of the parent's table. The loops for the heap do not use it: they map the parent's
frames in the window of the child, and copy data pages once more.
-/

namespace ZeosSOA.Sysenter

open Mm Runs Intrusive

section
variable {processPT parentPT : Nat} {m m' : Mm}

theorem forkShareSystemCode_ram (processPT parentPT : Nat) (m : Mm) :
    (forkShareSystemCode processPT parentPT m).ram = m.ram := by
  unfold forkShareSystemCode
  dsimp only
  rw [foldl_ram (f := fun m pag => sharePage processPT parentPT m (pagLogInitCode + pag)) fun _ _ => rfl,
    foldl_ram (f := sharePage processPT parentPT) fun _ _ => rfl]

theorem forkCopyPage_eq {pag : Nat} (hp : pag + numPagData < totalPages) (h : (m.entry parentPT pag).present = true) :
    forkCopyPage processPT parentPT m pag = some ((m.copyFrame (m.getFrame parentPT pag)
      (frameBits (m.getFrame processPT pag))).delSsPag parentPT (pag + numPagData)) :=
  copy_round _ (by omega) hp (by simp only [numPagData]; omega) h

theorem forkCopyPage_present {pag : Nat} (hp : pag + numPagData < totalPages)
    (h : forkCopyPage processPT parentPT m pag = some m') : (m.entry parentPT pag).present = true := by
  obtain ⟨src, hsrc, -⟩ := Option.bind_eq_some_iff.mp h
  unfold Mm.translate at hsrc
  split at hsrc
  · rename_i hpres
    rw [setSsPag, setEntry_entry_lt _ _ hp (by omega), if_neg (by simp only [numPagData]; omega)] at hpres
    exact hpres.2
  · cases hsrc

theorem foldlM_forkCopyPage_present : ∀ {l : List Nat} {m m' : Mm}, (∀ pag ∈ l, pag + numPagData < totalPages) →
    (∀ p ∈ l, ∀ q ∈ l, p ≠ q + numPagData) → l.foldlM (forkCopyPage processPT parentPT) m = some m' →
    ∀ pag ∈ l, (m.entry parentPT pag).present = true
  | [], _, _, _, _, _ => by simp
  | pag :: l, m, m', hl, hd, h => by
    obtain ⟨m1, h1, h⟩ := Option.bind_eq_some_iff.mp h
    have hpag := hl pag List.mem_cons_self
    have ih := foldlM_forkCopyPage_present (fun p hp => hl p (List.mem_cons_of_mem _ hp))
      (fun p hp q hq => hd p (List.mem_cons_of_mem _ hp) q (List.mem_cons_of_mem _ hq)) h
    intro p hp
    rcases List.mem_cons.mp hp with rfl | hp
    · exact forkCopyPage_present hpag h1
    · have hlt := hl p (List.mem_cons_of_mem _ hp)
      have := ih p hp
      rwa [(forkCopyPage_some hpag h1).1 parentPT p (by omega),
        if_neg fun e => hd p (List.mem_cons_of_mem _ hp) pag List.mem_cons_self e.2] at this

abbrev dataPages : List Nat := List.range' (numPagKernel + numPagCode) numPagData

theorem dataPages_window {page : Nat} (h : page ∈ dataPages) : page + numPagData < totalPages := by
  have hd := pagLogInitData_eq
  have := mem_dataPages.mp h
  simp only [numPagData, totalPages] at *
  omega

theorem dataPages_apart : ∀ p ∈ dataPages, ∀ q ∈ dataPages, p ≠ q + numPagData := by
  intro p hp q hq
  have := mem_dataPages.mp hp
  have := mem_dataPages.mp hq
  omega

theorem forkCopyData_copied (h : ∀ page ∈ dataPages, (m.entry parentPT page).present = true)
    (hnd : (dataPages.map fun page => frameBits (m.getFrame processPT page)).Nodup)
    (hsd : ∀ p ∈ dataPages, ∀ q ∈ dataPages, m.getFrame parentPT p ≠ frameBits (m.getFrame processPT q)) :
    ∃ m', forkCopyData processPT parentPT m = some m' ∧
      Copied m m' parentPT dataPages (m.getFrame parentPT) (fun page => frameBits (m.getFrame processPT page))
        (· + numPagData) := by
  -- the copy writes to the window, and reads entries below it
  apply foldlM_copied (K := fun k => ∃ q ∈ dataPages, k = parentPT * totalPages + (q + numPagData))
  · exact fun p hp => ⟨p, hp, rfl⟩
  · intro p hp m₁ ht
    have hsame : ∀ pt, m₁.entry pt p = m.entry pt p := by
      intro pt
      apply ht
      rintro ⟨q, hq, e⟩
      have := mem_dataPages.mp hp
      have := mem_dataPages.mp hq
      simp only [numPagData, totalPages] at *
      omega
    rw [forkCopyPage_eq (dataPages_window hp) (by rw [hsame]; exact h p hp), getFrame, getFrame, hsame, hsame]
    rfl
  · exact hnd
  · exact hsd

/-- Without a heap the mapping is the sharing of the code and the copy of the data. -/
theorem forkMap_of_le {heapStart heapPointer : Nat} (hheap : heapPointer ≤ heapStart)
    (h : forkMap processPT parentPT heapStart heapPointer m = some m') :
    forkCopyData processPT parentPT (forkShareSystemCode processPT parentPT m) = some m' := by
  obtain ⟨m3, h3, h⟩ := Option.bind_eq_some_iff.mp h
  obtain rfl : m3 = m' := by
    unfold forkCopyHeap at h
    split at h
    · exact Option.some.inj h
    · rw [if_neg (Nat.not_lt.mpr hheap)] at h
      exact Option.some.inj h
  exact h3

/-- The memory when the copy begins: the parent's table is as before, the data pages of the child are on the
frames `fr`. -/
structure Shared (m m2 : Mm) (processPT parentPT : Nat) (fr : Nat → Nat) : Prop where
  parent : ∀ page < totalPages, m2.entry parentPT page = m.entry parentPT page
  child : ∀ k < numPagData, m2.getFrame processPT (pagLogInitData + k) = fr k
  bits : ∀ k < numPagData, frameBits (fr k) = fr k
  ram : m2.ram = m.ram

theorem shared_of_grown {m1 : Mm} {fr : Nat → Nat} (hne : parentPT ≠ processPT)
    (hg : Grown m m1 (processPT * totalPages + pagLogInitData) numPagData fr) :
    Shared m (forkShareSystemCode processPT parentPT m1) processPT parentPT fr := by
  have hd := pagLogInitData_eq
  obtain ⟨hshare, -⟩ := forkShareSystemCode_spec processPT parentPT m1
  have hend : pagLogInitData + numPagData ≤ totalPages := by decide
  constructor
  · intro page hp
    rw [hshare parentPT page hp, if_neg fun e => hne e.1, hg.entry hend parentPT hp, if_neg fun e => hne e.1]
  · intro k hk
    have hlt : pagLogInitData + k < totalPages := by omega
    rw [getFrame, hshare processPT _ hlt, if_neg (by simp only [numPagKernel, numPagCode]; omega), hg.entry hend processPT hlt,
      if_pos ⟨rfl, by omega, by omega⟩, Nat.add_sub_cancel_left]
  · intro k hk
    have hc := mem_candidates.mp (hg.cand k hk)
    apply frameBits_natCast
    simp only [totalPages] at hc
    omega
  · exact (forkShareSystemCode_ram processPT parentPT m1).trans hg.ram

theorem forkMap_copied {m1 : Mm} {fr : Nat → Nat} {heapStart heapPointer : Nat} (ho : Owned m) (hpt : parentPT < nrTasks)
    (hne : parentPT ≠ processPT) (hg : Grown m m1 (processPT * totalPages + pagLogInitData) numPagData fr)
    (hheap : heapPointer ≤ heapStart) (h : forkMap processPT parentPT heapStart heapPointer m1 = some m') :
    (∀ k < numPagData, (m.entry parentPT (pagLogInitData + k)).present = true ∧
      m'.getFrame processPT (pagLogInitData + k) = fr k ∧
      m'.ram (fr k) = m.ram (m.getFrame parentPT (pagLogInitData + k))) ∧
    (∀ f, (∀ k < numPagData, f ≠ fr k) → m'.ram f = m.ram f) ∧
    ∀ page < totalPages, m'.entry parentPT page =
      if pagLogInitData + numPagData ≤ page ∧ page < pagLogInitData + 2 * numPagData then .zero
      else m.entry parentPT page := by
  have hd := pagLogInitData_eq
  have h3 := forkMap_of_le hheap h
  have hs : Shared m _ processPT parentPT fr := shared_of_grown hne hg
  generalize forkShareSystemCode processPT parentPT m1 = m2 at h3 hs
  have hchild : ∀ k < numPagData, frameBits (m2.getFrame processPT (pagLogInitData + k)) = fr k := by
    intro k hk
    rw [hs.child k hk, hs.bits k hk]
  have hpres : ∀ page ∈ dataPages, (m2.entry parentPT page).present = true :=
    foldlM_forkCopyPage_present (fun p => dataPages_window) dataPages_apart h3
  have hnum : ∀ page ∈ dataPages, ∃ k < numPagData, page = pagLogInitData + k := by
    intro page hp
    have := mem_dataPages.mp hp
    exact ⟨page - pagLogInitData, by omega, by omega⟩
  -- the frames of the parent are in use, those of the child were free
  have hsd : ∀ p ∈ dataPages, ∀ q ∈ dataPages, m2.getFrame parentPT p ≠ frameBits (m2.getFrame processPT q) := by
    intro p hp q hq e
    obtain ⟨k, hk, rfl⟩ := hnum q hq
    have hlt := (dataPages_window hp).trans_le' (Nat.le_add_right p numPagData)
    have hpp := hpres p hp
    rw [hs.parent p hlt] at hpp
    rw [hchild k hk, getFrame, hs.parent p hlt] at e
    have hused := (ho.frame parentPT hpt p (.inl (mem_dataPages.mp hp)) hpp).2.2
    rw [e, hg.free k hk] at hused
    cases hused
  have hnd : (dataPages.map fun page => frameBits (m2.getFrame processPT page)).Nodup := by
    refine List.Nodup.map_on (fun p hp q hq e => ?_) (List.nodup_range' 1 (by decide))
    obtain ⟨j, hj, rfl⟩ := hnum p hp
    obtain ⟨k, hk, rfl⟩ := hnum q hq
    rw [hchild j hj, hchild k hk] at e
    rw [hg.inj j hj k hk e]
  obtain ⟨m4, h4, hc⟩ := forkCopyData_copied hpres hnd hsd
  obtain rfl : m4 = m' := Option.some.inj (h4.symm.trans h3)
  refine ⟨fun k hk => ?_, fun f hf => ?_, fun page hp => ?_⟩
  · have hmem : pagLogInitData + k ∈ dataPages := mem_dataPages.mpr ⟨by omega, by omega⟩
    have hlt : pagLogInitData + k < totalPages := by
      simp only [numPagData, totalPages] at *
      omega
    refine ⟨hs.parent _ hlt ▸ hpres _ hmem, ?_, ?_⟩
    · rw [getFrame, (forkCopyData_some h3).1 processPT _ hlt, if_neg fun e => hne e.1.symm]
      exact hs.child k hk
    · have := hc.copy _ hmem
      rwa [hchild k hk, hs.ram, getFrame, hs.parent _ hlt] at this
  · rw [hc.rest f fun page hpage e => ?_, hs.ram]
    obtain ⟨k, hk, rfl⟩ := hnum page hpage
    exact hf k hk (e.trans (hchild k hk))
  · rw [(forkCopyData_some h3).1 parentPT page hp, hs.parent page hp]
    simp only [true_and]

end

/-! ## What a child has -/

/-- Every page the data copy reads or writes is mapped in the parent's table at that moment. -/
def DataCopyMapped (processPT parentPT : Nat) : List Nat → Mm → Prop
  | [], _ => True
  | pag :: pags, m =>
    let m₁ := m.setSsPag parentPT (pag + numPagData) (m.getFrame processPT pag)
    (m₁.translate parentPT pag).isSome = true ∧ (m₁.translate parentPT (pag + numPagData)).isSome = true ∧
      ∀ m', forkCopyPage processPT parentPT m pag = some m' → DataCopyMapped processPT parentPT pags m'

/-- Likewise for the loops of the heap copy. -/
def HeapCopyMapped (processPT parentPT heapPointer : Nat) : Nat → Nat → Nat → Mm → Prop
  | 0, _, _, _ => True
  | fuel + 1, pointer, i, m =>
    pointer < heapPointer →
      let i := if i < numPagKernel + numPagCode + numPagData then i else numPagKernel + numPagCode
      let m := m.setSsPag processPT (i + numPagData) (m.getFrame parentPT (pointer / pageSize))
      ∃ src, m.translate parentPT i = some src ∧ (m.translate parentPT (i + numPagData)).isSome = true ∧
        HeapCopyMapped processPT parentPT heapPointer fuel (pointer + pageSize) (i + 1)
          ((m.copyFrame src (m.getFrame processPT i)).delSsPag parentPT (i + numPagData))

namespace Kernel

def ForkPage (s : Kernel) (page : Nat) : Prop :=
  pagLogInitData ≤ page ∧ page < pagLogInitData + numPagData ∨
    (s.task s.current).heapStartProc / pageSize ≤ page ∧ page < (s.task s.current).heapPointerProc / pageSize

/-- The copying loops of a `sys_fork` from the state `s`, for the tables of child and parent. -/
def CopyMapped (s : Kernel) (processPT parentPT : Nat) : Prop :=
  let m := forkShareSystemCode processPT parentPT (forkAllocData processPT numPagData 0 s.mm).2
  let heapPointer := (s.task s.current).heapPointerProc
  DataCopyMapped processPT parentPT dataPages m ∧
    ∀ m', forkCopyData processPT parentPT m = some m' →
      HeapCopyMapped processPT parentPT heapPointer heapPointer (s.task s.current).heapStartProc
        (numPagKernel + numPagCode) m'

/-- The child has every data and heap page of the parent, in frames of its own that were free and
with the same contents, and no other; the parent has what it had. -/
structure Duplicated (s s' : Kernel) (processPT parentPT : Nat) : Prop where
  copied : ∀ page, s.ForkPage page → (s.mm.entry parentPT page).present = true →
    (s'.mm.entry processPT page).present = true ∧ s.mm.physMem (s'.mm.getFrame processPT page) = .free ∧
      s'.mm.ram (s'.mm.getFrame processPT page) = s.mm.ram (s.mm.getFrame parentPT page)
  distinct : ∀ p, s.ForkPage p → (s.mm.entry parentPT p).present = true →
    ∀ q, s.ForkPage q → (s.mm.entry parentPT q).present = true →
      s'.mm.getFrame processPT p = s'.mm.getFrame processPT q → p = q
  only : ∀ page, OwnPage page → (s'.mm.entry processPT page).present = true →
    s.ForkPage page ∧ (s.mm.entry parentPT page).present = true
  table : ∀ page < totalPages, s'.mm.entry parentPT page = s.mm.entry parentPT page
  memory : ∀ page < totalPages, (s.mm.entry parentPT page).present = true →
    s'.mm.ram (s.mm.getFrame parentPT page) = s.mm.ram (s.mm.getFrame parentPT page)
  mapped : s.CopyMapped processPT parentPT

/-- There is no heap to copy, the window is not in use, and the struct of the child comes with a
table of its own, without pages of a heap. -/
structure ForkPlain (s : Kernel) (processPT parentPT : Nat) : Prop where
  heap : (s.task s.current).heapPointerProc ≤ (s.task s.current).heapStartProc
  window : ∀ page, pagLogInitData + numPagData ≤ page → page < pagLogInitData + 2 * numPagData →
    (s.mm.entry parentPT page).present = false
  fresh : ∀ page, heapPage ≤ page → page < totalPages → (s.mm.entry processPT page).present = false
  apart : parentPT ≠ processPT

end Kernel

section
variable {processPT parentPT : Nat}

theorem dataCopyMapped_of_some : ∀ {l : List Nat} {m m' : Mm}, l.foldlM (forkCopyPage processPT parentPT) m = some m' →
    DataCopyMapped processPT parentPT l m
  | [], _, _, _ => trivial
  | pag :: l, m, m', h => by
    obtain ⟨m1, h1, h⟩ := Option.bind_eq_some_iff.mp h
    have hround := h1
    obtain ⟨src, hsrc, h1⟩ := Option.bind_eq_some_iff.mp h1
    obtain ⟨dst, hdst, -⟩ := Option.bind_eq_some_iff.mp h1
    refine ⟨by rw [hsrc]; rfl, by rw [hdst]; rfl, fun m2 h2 => ?_⟩
    obtain rfl : m1 = m2 := Option.some.inj (hround.symm.trans h2)
    exact dataCopyMapped_of_some h

theorem heapCopyMapped_of_le {heapPointer pointer : Nat} (h : heapPointer ≤ pointer) (fuel i : Nat) (m : Mm) :
    HeapCopyMapped processPT parentPT heapPointer fuel pointer i m := by
  cases fuel with
  | zero => trivial
  | succ fuel => exact fun hlt => absurd hlt (Nat.not_lt.mpr h)

/-- The first page of the heap is copied to a page of the window, which the data copy has unmapped. -/
theorem not_heapCopyMapped (hne : parentPT ≠ processPT) {m m' : Mm} (hm : forkCopyData processPT parentPT m = some m')
    {heapPointer pointer : Nat} (h : pointer < heapPointer) :
    ¬ HeapCopyMapped processPT parentPT heapPointer heapPointer pointer (numPagKernel + numPagCode) m' := by
  have hlt : numPagKernel + numPagCode + numPagData < totalPages := by decide
  obtain ⟨fuel, rfl⟩ : ∃ fuel, heapPointer = fuel + 1 := ⟨heapPointer - 1, by omega⟩
  intro hmap
  obtain ⟨src, -, hdst, -⟩ := hmap h
  have hzero : (m'.setSsPag processPT (numPagKernel + numPagCode + numPagData)
      (m'.getFrame parentPT (pointer / pageSize))).entry parentPT (numPagKernel + numPagCode + numPagData) = .zero := by
    rw [setSsPag, setEntry_entry_lt _ _ hlt hlt, if_neg fun e => hne e.1, (forkCopyData_some hm).1 parentPT _ hlt,
      if_pos ⟨rfl, by decide, by decide⟩]
  rw [if_pos (by decide), Mm.translate, hzero, if_neg fun e => Bool.false_ne_true e.2] at hdst
  cases hdst

end

section
variable {s s' : Kernel} {processPT parentPT : Nat} {m1 : Mm} (ho : Owned s.mm) (hpt : parentPT < nrTasks)
  (hstart : (s.task s.current).heapStartProc = initHeap)
  (he : forkAllocData processPT numPagData 0 s.mm = (true, m1))
  (hmap : forkMap processPT parentPT (s.task s.current).heapStartProc (s.task s.current).heapPointerProc m1 = some s'.mm)

include he hmap ho hpt

theorem apart_of_table (htable : ∀ page < totalPages, s'.mm.entry parentPT page = s.mm.entry parentPT page) :
    parentPT ≠ processPT := by
  rintro rfl
  obtain ⟨fr, hg, hent⟩ := fork_entry he hmap
  have hpage : OwnPage pagLogInitData := .inl ⟨le_rfl, by decide⟩
  have h := (htable _ hpage.lt).symm.trans (hent parentPT _ hpage)
  rw [if_pos ⟨rfl, by decide⟩, Nat.sub_self] at h
  have hused := (ho.frame parentPT hpt _ hpage (by rw [h])).2.2
  rw [h, hg.free 0 (by decide)] at hused
  cases hused

theorem duplicated_of_plain (h : s.ForkPlain processPT parentPT) : s.Duplicated s' processPT parentPT := by
  have hd := pagLogInitData_eq
  have hh := heapPage_eq
  obtain ⟨fr, hg, hent⟩ := fork_entry he hmap
  obtain ⟨hcopied, hrest, htable⟩ := forkMap_copied ho hpt h.apart hg h.heap hmap
  -- without a heap the pages to copy are the data pages
  have hpages : ∀ {page}, s.ForkPage page → ∃ k < numPagData, page = pagLogInitData + k := by
    rintro page (⟨h1, h2⟩ | ⟨h1, h2⟩)
    · exact ⟨page - pagLogInitData, by omega, by omega⟩
    · have := Nat.div_le_div_right (c := pageSize) h.heap
      omega
  have hwindow : ∀ page, pagLogInitData + numPagData ≤ page → page < pagLogInitData + 2 * numPagData →
      s.mm.entry parentPT page = .zero := by
    intro page h1 h2
    have hp : page < totalPages := by simp only [numPagData, totalPages] at *; omega
    rcases ho.blank parentPT hpt page (by omega) hp with e | e
    · exact e
    · rw [h.window page h1 h2] at e
      cases e
  have hnew : ∀ {f}, s.mm.physMem f = .used → ∀ k < numPagData, f ≠ fr k := by
    intro f hf k hk e
    rw [e, hg.free k hk] at hf
    cases hf
  constructor
  · intro page hpage _
    obtain ⟨k, hk, rfl⟩ := hpages hpage
    obtain ⟨-, hframe, hram⟩ := hcopied k hk
    rw [hframe]
    refine ⟨?_, hg.free k hk, hram⟩
    rw [hent processPT _ (ownPage_data hk), if_pos ⟨rfl, by omega⟩]
  · intro p hp _ q hq _ e
    obtain ⟨j, hj, rfl⟩ := hpages hp
    obtain ⟨k, hk, rfl⟩ := hpages hq
    rw [(hcopied j hj).2.1, (hcopied k hk).2.1] at e
    rw [hg.inj j hj k hk e]
  · intro page hpage hpres
    rw [hent processPT page hpage] at hpres
    rcases hpage with ⟨h1, h2⟩ | ⟨h1, h2⟩
    · obtain ⟨k, hk, rfl⟩ : ∃ k < numPagData, page = pagLogInitData + k :=
        ⟨page - pagLogInitData, by omega, by omega⟩
      exact ⟨.inl ⟨h1, h2⟩, (hcopied k hk).1⟩
    · rw [if_neg (by simp only [numPagData]; omega), h.fresh page h1 h2] at hpres
      cases hpres
  · intro page hp
    rw [htable page hp]
    split
    · rename_i hw
      exact (hwindow page hw.1 hw.2).symm
    · rfl
  · intro page hp hpres
    apply hrest
    -- every frame the parent has mapped is in use, or below all that can be given out
    by_cases hpage : OwnPage page
    · exact hnew (ho.frame parentPT hpt page hpage hpres).2.2
    · intro k hk e
      have hlow : page < pagLogInitData := by
        unfold OwnPage at hpage
        by_contra hge
        have hw := hwindow page (by simp only [numPagData] at *; omega) (by simp only [numPagData] at *; omega)
        rw [hw] at hpres
        cases hpres
      have hlt := ho.low parentPT hpt page hlow
      have hused := ho.code (fr k) (hg.cand k hk) (e ▸ hlt)
      rw [hg.free k hk] at hused
      cases hused
  · obtain ⟨m3, h3, -⟩ := Option.bind_eq_some_iff.mp hmap
    unfold Kernel.CopyMapped
    rw [he]
    exact ⟨dataCopyMapped_of_some h3, fun m' _ => heapCopyMapped_of_le h.heap _ _ m'⟩

include hstart

theorem plain_of_duplicated (h : s.Duplicated s' processPT parentPT) : s.ForkPlain processPT parentPT := by
  have hd := pagLogInitData_eq
  have hh := heapPage_eq
  have hne := apart_of_table ho hpt he hmap h.table
  obtain ⟨m3, h3, hcopy⟩ := Option.bind_eq_some_iff.mp hmap
  have hle : (s.task s.current).heapPointerProc ≤ (s.task s.current).heapStartProc := by
    apply Nat.le_of_not_lt
    intro hlt
    have hmapped := h.mapped.2 m3 (by rw [he]; exact h3)
    exact not_heapCopyMapped hne h3 hlt hmapped
  have hsame : m3 = s'.mm := by
    unfold forkCopyHeap at hcopy
    split at hcopy
    · exact Option.some.inj hcopy
    · rw [if_neg (Nat.not_lt.mpr hle)] at hcopy
      exact Option.some.inj hcopy
  refine ⟨hle, fun page h1 h2 => ?_, fun page h1 h2 => ?_, hne⟩
  · have hp : page < totalPages := by simp only [numPagData, totalPages] at *; omega
    rw [← h.table page hp, ← hsame, (forkCopyData_some h3).1 parentPT page hp, if_pos ⟨rfl, h1, h2⟩]
    rfl
  · apply Bool.eq_false_iff.mpr
    intro hpres
    obtain ⟨fr, -, hent⟩ := fork_entry he hmap
    have hchild := hent processPT page (.inr ⟨h1, h2⟩)
    rw [if_neg (by simp only [numPagData]; omega)] at hchild
    -- the child has it mapped, and it is no page of the parent's heap
    rcases (h.only page (.inr ⟨h1, h2⟩) (by rw [hchild]; exact hpres)).1 with ⟨-, hlt⟩ | ⟨-, hlt⟩
    · simp only [numPagData] at *
      omega
    · rw [hstart, initHeap_eq] at hle
      simp only [pageSize] at *
      omega

end

/-- `sys_fork` duplicates the address space exactly when there is no heap, the window and the
rest of the child's table are not in use, and the child has a table of its own. -/
theorem fork_duplicates_iff {mc : Machine} {s s' : Kernel} (hr : Reachable mc s) (hi : s.idleTask ≠ some s.current)
    {ebp : Nat} {ret : Int} (hf : s.sysFork ebp = some (ret, s')) (hpos : 0 < ret) : ∃ child pt,
      (s.members .freequeue).head? = some child ∧ s.getPT s.current = some pt ∧ s'.getPT child = some child.val ∧
        (s'.task child).PID = ret ∧ (s.Duplicated s' child.val pt ↔ s.ForkPlain child.val pt) := by
  obtain ⟨a, h, g, ho⟩ := hr.owning
  have hne := h.not_idle.mp hi
  obtain ⟨-, hstart, -⟩ := ho.users a.current (.inl rfl) hne
  have hrel := h.sysFork (g.current _) ebp
  rw [hf] at hrel
  cases hx : a.fork with
  | none => rw [hx] at hrel; cases hrel
  | some r =>
    rw [hx] at hrel
    obtain ⟨hret, h'⟩ : Rep.Ret (ret, s') r := by cases hrel; assumption
    rcases AbsKernel.fork_cases hx with
      ⟨-, rfl⟩ | ⟨child, rest, tab, hq, -, ⟨mm, he, rfl⟩ | ⟨m1, pt, mm, he, hpt, hmap, rfl⟩⟩
    · exact absurd hpos (by rw [show ret = -ENOMEM from hret]; decide)
    · exact absurd hpos (by rw [show ret = -EAGAIN from hret]; decide)
    · have hcur : (s.task s.current).core = a.task a.current := h.cur
      have htask := (h'.task child).trans (AbsKernel.forkStart_task child rest tab mm child)
      rw [if_pos rfl] at htask
      have hmm : s.mm = a.mm := h.mm
      rw [← hmm] at he
      rw [← show s'.mm = mm from h'.mm, ← hcur] at hmap
      rw [← hcur] at hstart
      refine ⟨child, pt, by rw [h.members, hq]; rfl, by rw [h.getPT, hpt], congrArg TaskCore.dirPagesBaseAddr htask,
        (congrArg TaskCore.PID htask).trans hret.symm, ?_, ?_⟩
      · exact plain_of_duplicated (hmm ▸ ho.mm) (ho.current hne hpt).1 hstart he hmap
      · exact duplicated_of_plain (hmm ▸ ho.mm) (ho.current hne hpt).1 he hmap

theorem fork_duplicates_boot : ∃ s', (Kernel.boot .blank).sysFork 8 = some (1001, s') ∧
    (Kernel.boot .blank).Duplicated s' 2 1 := by
  have hrun : ((Kernel.boot .blank).sysFork 8).any (fun r => decide (r.1 = 1001)) = true := by
    decide +kernel
  obtain ⟨⟨ret, s'⟩, hs, hd⟩ := (Option.any_eq_true _ _).mp hrun
  obtain rfl : ret = 1001 := of_decide_eq_true hd
  obtain ⟨child, pt, hc, hpt, -, -, hiff⟩ :=
    fork_duplicates_iff (⟨[], rfl⟩ : Reachable .blank _) (by decide) hs (by decide)
  obtain rfl : 2 = child := by
    rw [(boot_rep .blank).members] at hc
    exact Option.some.inj hc
  obtain rfl : 1 = pt := Option.some.inj hpt
  refine ⟨s', hs, hiff.mpr ⟨le_rfl, fun page h1 h2 => ?_, fun page h1 h2 => ?_, by decide⟩⟩
  · have hp : page < totalPages := h2.trans_le (by decide)
    rw [← bootAbs_mm, boot_user .blank (by decide) (by omega) hp, if_neg (by omega)]
    rfl
  · have hge : pagLogInitData ≤ page := h1.trans' (by decide)
    rw [← bootAbs_mm, boot_user .blank (by decide) hge h2, if_neg fun e => absurd e.1 (by decide)]
    rfl

/-- Task 1 asks for a page of heap and forks, and its child has no heap. -/
theorem fork_loses_heap : ∃ s s', exec Kernel.step (Kernel.boot .blank) [⟨.sbrk 4096, 0⟩] = some s ∧
    s.idleTask ≠ some s.current ∧ s.sysFork 8 = some (1001, s') ∧ s.getPT s.current = some 1 ∧
    s'.getPT 2 = some 2 ∧ (s'.task 2).PID = 1001 ∧ ¬ s.Duplicated s' 2 1 := by
  have hrun : (exec Kernel.step (Kernel.boot .blank) [⟨.sbrk 4096, 0⟩]).any (fun s =>
      (s.sysFork 8).any fun r => decide (s.idleTask ≠ some s.current ∧ r.1 = 1001 ∧ s.getPT s.current = some 1 ∧
        r.2.getPT 2 = some 2 ∧ (r.2.task 2).PID = 1001 ∧ (s.task s.current).heapStartProc / pageSize = 304 ∧
        (s.task s.current).heapPointerProc / pageSize = 305 ∧ (s.mm.entry 1 304).present = true ∧
        (r.2.mm.entry 2 304).present = false)) = true := by
    decide +kernel
  obtain ⟨s, hs, hd⟩ := (Option.any_eq_true _ _).mp hrun
  obtain ⟨⟨ret, s'⟩, hs', hd⟩ := (Option.any_eq_true _ _).mp hd
  obtain ⟨hi, hret, hpt, hpt', hpid, hstart, hheap, hpres, hchild⟩ := of_decide_eq_true hd
  obtain rfl : ret = 1001 := hret
  refine ⟨s, s', hs, hi, hs', hpt, hpt', hpid, fun h => ?_⟩
  have hcopied := (h.copied 304 (.inr ⟨hstart.le, by rw [hheap]; decide⟩) hpres).1
  rw [hchild] at hcopied
  cases hcopied

end ZeosSOA.Sysenter
