import ZeosSOA.Sysenter.Sys

/-!
# ZeOSSysenter: what the calls do to frames and page tables

One description for each loop of `sys_fork`, `sys_exit` and `sys_sbrk` over entries and
frames.
-/

namespace ZeosSOA.Sysenter

open Mm

/-- The first frame that is not a code frame of task 1. -/
abbrev firstDataFrame : Nat := numPagKernel + 2 * numPagCode

section
variable {pt pag : Nat} {m : Mm}

@[simp] theorem setSsPag_freeCount (m : Mm) (pt page : Nat) (f : Int) : (m.setSsPag pt page f).freeCount = m.freeCount :=
  rfl

theorem forkAllocData_fst (pt n pag : Nat) (m : Mm) : (forkAllocData pt n pag m).1 = true ↔ n ≤ m.freeCount := by
  induction n generalizing pag m with
  | zero => simp [forkAllocData]
  | succ n ih =>
    unfold forkAllocData
    rcases allocFrame_cases m with ⟨f, hf, hfree, e⟩ | ⟨hused, e⟩
    · rw [e]
      dsimp only
      rw [if_pos (by omega), ih, setSsPag_freeCount, freeCount_alloc hf hfree]
      omega
    · rw [e]
      have := freeCount_eq_zero.mpr hused
      simp [this]

theorem forkAllocData_grown {m₀ : Mm} : ∀ {n pag : Nat} {m m' : Mm} {fr : Nat → Nat},
    Grown m₀ m (pt * totalPages + pagLogInitData) pag fr → forkAllocData pt n pag m = (true, m') →
    ∃ fr', Grown m₀ m' (pt * totalPages + pagLogInitData) (pag + n) fr'
  | 0, pag, m, m', fr, hg, h => by
    obtain rfl : m = m' := (Prod.mk.inj h).2
    exact ⟨fr, hg⟩
  | n + 1, pag, m, m', fr, hg, h => by
    unfold forkAllocData at h
    rcases allocFrame_cases m with ⟨f, hf, hfree, e⟩ | ⟨-, e⟩ <;> rw [e] at h
    · dsimp only at h
      rw [if_pos (by omega)] at h
      obtain ⟨fr', hg'⟩ := forkAllocData_grown (hg.snoc (Nat.add_assoc _ _ _).symm hf hfree) h
      exact ⟨fr', by rwa [Nat.add_right_comm, Nat.add_assoc] at hg'⟩
    · exact absurd (Prod.mk.inj h).1 Bool.false_ne_true

theorem forkAllocData_data {m' : Mm} (h : forkAllocData pt numPagData 0 m = (true, m')) :
    ∃ fr, Grown m m' (pt * totalPages + pagLogInitData) numPagData fr := by
  obtain ⟨fr, hg⟩ := forkAllocData_grown (Grown.nil m _ id) h
  exact ⟨fr, by rwa [Nat.zero_add] at hg⟩

/-! ## Release -/

theorem releaseData_spec (pt : Nat) (m : Mm) : ∀ {n : Nat}, pagLogInitData + n ≤ totalPages →
    (∀ pt' page, page < totalPages → (releaseData pt n m).entry pt' page =
      if pt' = pt ∧ pagLogInitData ≤ page ∧ page < pagLogInitData + n then .zero else m.entry pt' page) ∧
    ∀ f, (releaseData pt n m).physMem f =
      if (∃ k < n, (m.entry pt (pagLogInitData + k)).pbaseAddr = f) ∧ numPagKernel < f ∧ f < totalPages then .free
      else m.physMem f
  | 0, _ => ⟨fun pt' page _ => by rw [if_neg (by omega)]; rfl, fun f => by rw [if_neg (by simp)]; rfl⟩
  | n + 1, hn => by
    obtain ⟨hent, hphys⟩ := releaseData_spec pt m (n := n) (by omega)
    have hs : releaseData pt (n + 1) m = releasePage pt (releaseData pt n m) (pagLogInitData + n) := by
      rw [releaseData, List.range_succ, List.foldl_append]; rfl
    rw [hs]
    refine ⟨fun pt' page hp => ?_, fun f => ?_⟩
    · rw [releasePage_entry _ (by omega) hp, hent pt' page hp]
      grind
    · have hsrc : (releaseData pt n m).entry pt (pagLogInitData + n) = m.entry pt (pagLogInitData + n) := by
        rw [hent pt _ (by omega), if_neg (by omega)]
      have hex : (∃ k < n + 1, (m.entry pt (pagLogInitData + k)).pbaseAddr = f) ↔
          f = (m.entry pt (pagLogInitData + n)).pbaseAddr ∨ ∃ k < n, (m.entry pt (pagLogInitData + k)).pbaseAddr = f := by
        constructor
        · rintro ⟨k, hk, e⟩
          rcases Nat.lt_succ_iff_lt_or_eq.mp hk with hk | rfl
          · exact .inr ⟨k, hk, e⟩
          · exact .inl e.symm
        · rintro (e | ⟨k, hk, e⟩)
          · exact ⟨n, Nat.lt_succ_self n, e.symm⟩
          · exact ⟨k, Nat.lt_succ_of_lt hk, e⟩
      rw [releasePage_phys, hphys f, hsrc]
      simp only [hex]
      by_cases h1 : f = (m.entry pt (pagLogInitData + n)).pbaseAddr ∧ numPagKernel < f ∧ f < totalPages
      · rw [if_pos h1, if_pos ⟨.inl h1.1, h1.2⟩]
      · rw [if_neg h1]
        refine if_congr ⟨fun h => ⟨.inr h.1, h.2⟩, fun h => ⟨h.1.resolve_left fun e => h1 ⟨e, h.2⟩, h.2⟩⟩ rfl rfl

/-! ## The maps of `sys_fork` -/

theorem forkShareSystemCode_spec (processPT parentPT : Nat) (m : Mm) :
    (∀ pt' page, page < totalPages → (forkShareSystemCode processPT parentPT m).entry pt' page =
      if pt' = processPT ∧ page < numPagKernel + numPagCode then
        { present := true, rw := true, user := true, pbaseAddr := frameBits (m.getFrame parentPT page) }
      else m.entry pt' page) ∧ (forkShareSystemCode processPT parentPT m).physMem = m.physMem := by
  obtain ⟨hent, hphys⟩ := foldl_sharePage processPT parentPT 0 m (n := numPagKernel) (by decide)
  simp only [Nat.zero_add] at hent hphys
  unfold forkShareSystemCode
  generalize (List.range numPagKernel).foldl (sharePage processPT parentPT) m = m1 at hent hphys
  obtain ⟨hent', hphys'⟩ := foldl_sharePage processPT parentPT pagLogInitCode m1 (n := numPagCode) (by decide)
  refine ⟨fun pt' page hp => ?_, hphys'.trans hphys⟩
  rw [hent' pt' page hp, hent pt' page hp]
  have hsrc : pagLogInitCode ≤ page → m1.getFrame parentPT page = m.getFrame parentPT page := fun h => by
    rw [getFrame, hent parentPT _ hp, if_neg (fun h' => Nat.not_lt.mpr h h'.2.2), getFrame]
  have hcode : pagLogInitCode = numPagKernel := rfl
  grind

theorem forkCopyPage_some {processPT parentPT pag : Nat} {m m' : Mm} (hp : pag + numPagData < totalPages)
    (h : forkCopyPage processPT parentPT m pag = some m') :
    (∀ pt' page, page < totalPages → m'.entry pt' page =
      if pt' = parentPT ∧ page = pag + numPagData then .zero else m.entry pt' page) ∧ m'.physMem = m.physMem := by
  obtain ⟨src, -, h⟩ := Option.bind_eq_some_iff.mp h
  obtain ⟨dst, -, h⟩ := Option.bind_eq_some_iff.mp h
  cases h
  refine ⟨fun pt' page hpage => ?_, rfl⟩
  rw [delSsPag, setEntry_entry_lt _ _ hp hpage, copyFrame_entry, setSsPag, setEntry_entry_lt _ _ hp hpage]
  split <;> rfl

theorem forkCopyPage_isSome (processPT : Nat) {parentPT pag : Nat} {m : Mm} (hp : pag + numPagData < totalPages)
    (h : (m.entry parentPT pag).present = true) : (forkCopyPage processPT parentPT m pag).isSome = true := by
  have h1 : ((m.setSsPag parentPT (pag + numPagData) (m.getFrame processPT pag)).entry parentPT pag).present = true := by
    rw [setSsPag, setEntry_entry_lt _ _ hp (by omega), if_neg (by simp only [numPagData]; omega)]; exact h
  have h2 : ((m.setSsPag parentPT (pag + numPagData) (m.getFrame processPT pag)).entry parentPT
      (pag + numPagData)).present = true := by
    rw [setSsPag, setEntry_entry_lt _ _ hp hp, if_pos ⟨rfl, rfl⟩]
  unfold forkCopyPage
  simp [translate_of_present (by omega) h1, translate_of_present hp h2]

theorem foldlM_forkCopyPage_some {processPT parentPT : Nat} : ∀ {l : List Nat} {m m' : Mm},
    (∀ pag ∈ l, pag + numPagData < totalPages) → l.foldlM (forkCopyPage processPT parentPT) m = some m' →
    (∀ pt' page, page < totalPages → m'.entry pt' page =
      if pt' = parentPT ∧ ∃ pag ∈ l, page = pag + numPagData then .zero else m.entry pt' page) ∧
    m'.physMem = m.physMem
  | [], m, m', _, h => by
    obtain rfl : m = m' := Option.some.inj h
    exact ⟨fun pt' page _ => by rw [if_neg (by simp)], rfl⟩
  | pag :: l, m, m', hl, h => by
    obtain ⟨m1, h1, h⟩ := Option.bind_eq_some_iff.mp h
    obtain ⟨hent1, hphys1⟩ := forkCopyPage_some (hl pag List.mem_cons_self) h1
    obtain ⟨hent, hphys⟩ := foldlM_forkCopyPage_some (fun p hp => hl p (List.mem_cons_of_mem _ hp)) h
    refine ⟨fun pt' page hpage => ?_, hphys.trans hphys1⟩
    rw [hent pt' page hpage, hent1 pt' page hpage]
    simp only [List.mem_cons, exists_eq_or_imp, and_or_left, ite_or]
    by_cases h1 : pt' = parentPT ∧ page = pag + numPagData
    · rw [if_pos h1, if_pos h1, ite_self]
    · rw [if_neg h1, if_neg h1]

theorem foldlM_forkCopyPage_isSome {processPT parentPT : Nat} : ∀ {l : List Nat} {m : Mm},
    (∀ pag ∈ l, pag + numPagData < totalPages) → (∀ p ∈ l, ∀ q ∈ l, p ≠ q + numPagData) →
    (∀ pag ∈ l, (m.entry parentPT pag).present = true) →
    (l.foldlM (forkCopyPage processPT parentPT) m).isSome = true
  | [], _, _, _, _ => rfl
  | pag :: l, m, hl, hd, hp => by
    have hpag := hl pag List.mem_cons_self
    obtain ⟨m1, h1⟩ := Option.isSome_iff_exists.mp
      (forkCopyPage_isSome processPT hpag (hp pag List.mem_cons_self))
    have hent1 := (forkCopyPage_some hpag h1).1
    rw [List.foldlM_cons, h1]
    refine foldlM_forkCopyPage_isSome (fun p h => hl p (List.mem_cons_of_mem _ h))
      (fun p h q h' => hd p (List.mem_cons_of_mem _ h) q (List.mem_cons_of_mem _ h')) fun p h => ?_
    have hne := hd p (List.mem_cons_of_mem _ h) pag List.mem_cons_self
    rw [hent1 parentPT p (by have := hl p (List.mem_cons_of_mem _ h); omega), if_neg fun e => hne e.2]
    exact hp p (List.mem_cons_of_mem _ h)

theorem mem_dataPages {page : Nat} : page ∈ List.range' (numPagKernel + numPagCode) numPagData ↔
    pagLogInitData ≤ page ∧ page < pagLogInitData + numPagData := List.mem_range'_1

theorem forkCopyData_some {processPT parentPT : Nat} {m m' : Mm} (h : forkCopyData processPT parentPT m = some m') :
    (∀ pt' page, page < totalPages → m'.entry pt' page =
      if pt' = parentPT ∧ pagLogInitData + numPagData ≤ page ∧ page < pagLogInitData + 2 * numPagData then .zero
      else m.entry pt' page) ∧ m'.physMem = m.physMem := by
  obtain ⟨hent, hphys⟩ := foldlM_forkCopyPage_some (fun pag hp => by
    rw [mem_dataPages, pagLogInitData_eq] at hp; simp only [numPagData, totalPages] at *; omega) h
  refine ⟨fun pt' page hp => ?_, hphys⟩
  rw [hent pt' page hp]
  refine if_congr (and_congr_right fun _ => ⟨?_, fun h => ⟨page - numPagData, mem_dataPages.mpr ?_, ?_⟩⟩) rfl rfl
  · rintro ⟨pag, hpag, rfl⟩
    rw [mem_dataPages] at hpag
    omega
  · omega
  · omega

theorem forkCopyData_isSome (processPT : Nat) {parentPT : Nat} {m : Mm}
    (h : ∀ page, pagLogInitData ≤ page → page < pagLogInitData + numPagData → (m.entry parentPT page).present = true) :
    (forkCopyData processPT parentPT m).isSome = true := by
  refine foldlM_forkCopyPage_isSome (fun pag hp => ?_) (fun p hp q hq => ?_) fun pag hp => ?_
  · rw [mem_dataPages, pagLogInitData_eq] at hp; simp only [numPagData, totalPages] at *; omega
  · rw [mem_dataPages] at hp hq; omega
  · rw [mem_dataPages] at hp; exact h pag hp.1 hp.2

/-- The index of the heap copy is that of a data page. -/
theorem heapIndex_bounds {i : Nat} (hi : pagLogInitData ≤ i) :
    pagLogInitData ≤ (if i < numPagKernel + numPagCode + numPagData then i else numPagKernel + numPagCode) ∧
      (if i < numPagKernel + numPagCode + numPagData then i else numPagKernel + numPagCode) < pagLogInitData + numPagData := by
  simp only [pagLogInitData_eq, numPagKernel, numPagCode, numPagData] at *
  split <;> omega

theorem forkCopyHeap_some {processPT parentPT heapPointer : Nat} : ∀ {fuel pointer i : Nat} {m m' : Mm},
    forkCopyHeap processPT parentPT heapPointer fuel pointer i m = some m' → pagLogInitData ≤ i →
    (∀ pt' page, page < totalPages →
      (page < pagLogInitData + numPagData ∨ pagLogInitData + 2 * numPagData ≤ page) →
      m'.entry pt' page = m.entry pt' page) ∧ m'.physMem = m.physMem
  | 0, _, _, m, m', h, _ => by
    obtain rfl : m = m' := Option.some.inj h
    exact ⟨fun _ _ _ _ => rfl, rfl⟩
  | fuel + 1, pointer, i, m, m', h, hi => by
    have hd := pagLogInitData_eq
    unfold forkCopyHeap at h
    split at h
    swap
    · obtain rfl : m = m' := Option.some.inj h
      exact ⟨fun _ _ _ _ => rfl, rfl⟩
    obtain ⟨src, -, h⟩ := Option.bind_eq_some_iff.mp h
    have hj := heapIndex_bounds hi
    generalize (if i < numPagKernel + numPagCode + numPagData then i else numPagKernel + numPagCode) = j at h hj
    obtain ⟨hent, hphys⟩ := forkCopyHeap_some h (by omega)
    refine ⟨fun pt' page hp ho => ?_, hphys⟩
    have hlt : j + numPagData < totalPages := by simp only [numPagData, totalPages] at *; omega
    rw [hent pt' page hp ho, delSsPag, setEntry_entry_lt _ _ hlt hp, if_neg (by omega), copyFrame_entry, setSsPag,
      setEntry_entry_lt _ _ hlt hp, if_neg (by omega)]

/-- What the heap copy leaves in the window: what was there, nothing, or a frame of the parent's heap. -/
theorem forkCopyHeap_window {processPT parentPT heapPointer : Nat} (hle : heapPointer ≤ totalPages * pageSize) :
    ∀ {fuel pointer i : Nat} {m m' : Mm}, initHeap ≤ pointer → pagLogInitData ≤ i →
      forkCopyHeap processPT parentPT heapPointer fuel pointer i m = some m' → ∀ pt' page, page < totalPages →
      m'.entry pt' page = m.entry pt' page ∨ m'.entry pt' page = .zero ∨
        ∃ q, pagLogInitData + 2 * numPagData ≤ q ∧ q < totalPages ∧ m'.entry pt' page =
          { present := true, rw := true, user := true, pbaseAddr := frameBits (m.getFrame parentPT q) }
  | 0, _, _, m, m', _, _, h, pt', page, _ => by
    obtain rfl : m = m' := Option.some.inj h
    exact .inl rfl
  | fuel + 1, pointer, i, m, m', hptr, hi, h, pt', page, hp => by
    have hinit : initHeap = 304 * pageSize := rfl
    unfold forkCopyHeap at h
    split at h
    swap
    · obtain rfl : m = m' := Option.some.inj h
      exact .inl rfl
    rename_i hlt
    obtain ⟨src, -, h⟩ := Option.bind_eq_some_iff.mp h
    have hj := heapIndex_bounds hi
    generalize (if i < numPagKernel + numPagCode + numPagData then i else numPagKernel + numPagCode) = j at h hj
    have hq : pagLogInitData + 2 * numPagData ≤ pointer / pageSize ∧ pointer / pageSize < totalPages := by
      simp only [pagLogInitData_eq, hinit, numPagData, totalPages, pageSize] at *
      omega
    have hwin : j + numPagData < totalPages := by
      simp only [numPagData, totalPages] at *
      omega
    generalize hm : ((m.setSsPag processPT (j + numPagData) (m.getFrame parentPT (pointer / pageSize))).copyFrame src
      ((m.setSsPag processPT (j + numPagData) (m.getFrame parentPT (pointer / pageSize))).getFrame processPT j)).delSsPag
      parentPT (j + numPagData) = m1 at h
    have hent : ∀ pt page, page < totalPages → m1.entry pt page =
        if pt = parentPT ∧ page = j + numPagData then .zero
        else if pt = processPT ∧ page = j + numPagData then
          { present := true, rw := true, user := true, pbaseAddr := frameBits (m.getFrame parentPT (pointer / pageSize)) }
        else m.entry pt page := by
      intro pt page hp
      rw [← hm, delSsPag, setEntry_entry_lt _ _ hwin hp, copyFrame_entry, setSsPag, setEntry_entry_lt _ _ hwin hp]
    rcases forkCopyHeap_window hle (by omega) (by omega) h pt' page hp with e | e | ⟨q, hq1, hq2, e⟩
    · rw [e, hent pt' page hp]
      split
      · exact .inr (.inl rfl)
      · split
        · exact .inr (.inr ⟨_, hq.1, hq.2, rfl⟩)
        · exact .inl rfl
    · exact .inr (.inl e)
    · have hsame : m1.getFrame parentPT q = m.getFrame parentPT q := by
        rw [getFrame, hent parentPT q hq2, if_neg (by omega), if_neg (by omega), getFrame]
      exact .inr (.inr ⟨q, hq1, hq2, by rw [e, hsame]⟩)

/-- After a `sys_fork` that was not refused: the pages of the kernel and of the code have the
frames they have in the parent's table, and no other page outside the window has changed. -/
theorem forkMap_some {processPT parentPT heapStart heapPointer : Nat} {m m' : Mm}
    (h : forkMap processPT parentPT heapStart heapPointer m = some m') :
    (∀ pt' page, page < totalPages →
      (page < pagLogInitData + numPagData ∨ pagLogInitData + 2 * numPagData ≤ page) → m'.entry pt' page =
        if pt' = processPT ∧ page < numPagKernel + numPagCode then
          { present := true, rw := true, user := true, pbaseAddr := frameBits (m.getFrame parentPT page) }
        else m.entry pt' page) ∧ m'.physMem = m.physMem := by
  obtain ⟨m1, h1, h⟩ := Option.bind_eq_some_iff.mp h
  obtain ⟨hent1, hphys1⟩ := forkShareSystemCode_spec processPT parentPT m
  obtain ⟨hent2, hphys2⟩ := forkCopyData_some h1
  obtain ⟨hent3, hphys3⟩ := forkCopyHeap_some h (Nat.le_of_eq (show pagLogInitData = numPagKernel + numPagCode from rfl))
  refine ⟨fun pt' page hp ho => ?_, hphys3.trans (hphys2.trans hphys1)⟩
  rw [hent3 pt' page hp ho, hent2 pt' page hp, if_neg (by omega), hent1 pt' page hp]

theorem forkMap_window {processPT parentPT heapPointer : Nat} {m m' : Mm} (hle : heapPointer ≤ totalPages * pageSize)
    (h : forkMap processPT parentPT initHeap heapPointer m = some m') (pt' : Nat) {page : Nat}
    (hpage : pagLogInitData + numPagData ≤ page) (hp : page < totalPages) :
    m'.entry pt' page = m.entry pt' page ∨ m'.entry pt' page = .zero ∨
      ∃ q, pagLogInitData + 2 * numPagData ≤ q ∧ q < totalPages ∧ m'.entry pt' page =
        { present := true, rw := true, user := true, pbaseAddr := frameBits (m.getFrame parentPT q) } := by
  have hd : pagLogInitData = numPagKernel + numPagCode := rfl
  obtain ⟨m1, h1, h⟩ := Option.bind_eq_some_iff.mp h
  have hent : ∀ pt page, pagLogInitData + numPagData ≤ page → page < totalPages → m1.entry pt page =
      if pt = parentPT ∧ pagLogInitData + numPagData ≤ page ∧ page < pagLogInitData + 2 * numPagData then .zero
      else m.entry pt page := by
    intro pt page hpage hp
    rw [(forkCopyData_some h1).1 pt page hp, (forkShareSystemCode_spec processPT parentPT m).1 pt page hp]
    simp only [numPagKernel, numPagCode, numPagData] at *
    grind
  rcases forkCopyHeap_window hle (Nat.le_refl _) hd.le h pt' page hp with e | e | ⟨q, hq1, hq2, e⟩
  · rw [e, hent pt' page hpage hp]
    split
    · exact .inr (.inl rfl)
    · exact .inl rfl
  · exact .inr (.inl e)
  · refine .inr (.inr ⟨q, hq1, hq2, ?_⟩)
    rw [e, getFrame, hent parentPT q (by omega) hq2, if_neg (by omega), getFrame]

theorem forkMap_isSome (processPT : Nat) {parentPT heapStart heapPointer : Nat} {m : Mm} (hh : heapPointer ≤ heapStart)
    (h : ∀ page, pagLogInitData ≤ page → page < pagLogInitData + numPagData → (m.entry parentPT page).present = true) :
    (forkMap processPT parentPT heapStart heapPointer m).isSome = true := by
  have hshare : ∀ page, pagLogInitData ≤ page → page < pagLogInitData + numPagData →
      ((forkShareSystemCode processPT parentPT m).entry parentPT page).present = true := fun page h1 h2 => by
    have hd : pagLogInitData = numPagKernel + numPagCode := rfl
    rw [(forkShareSystemCode_spec processPT parentPT m).1 parentPT page
      (by simp only [numPagKernel, numPagCode, numPagData, totalPages] at *; omega), if_neg (by omega)]
    exact h page h1 h2
  obtain ⟨m1, h1⟩ := Option.isSome_iff_exists.mp (forkCopyData_isSome processPT hshare)
  have hheap : ∀ fuel i, forkCopyHeap processPT parentPT heapPointer fuel heapStart i m1 = some m1 := fun fuel i => by
    cases fuel with
    | zero => rfl
    | succ fuel => exact if_neg (Nat.not_lt.mpr hh)
  simp [forkMap, h1, hheap]

end

end ZeosSOA.Sysenter
