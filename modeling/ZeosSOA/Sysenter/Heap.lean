import ZeosSOA.Sysenter.Sys

/-!
# ZeOSSysenter: where the calls write

The entries the loops of the calls can change, and what they leave in the heap pointer. It is
a whole number of pages and stays between the start of the heap and the end of the table:
the check of `sys_sbrk` can overflow, but a request that makes it overflow asks for more
frames than there are.
-/

namespace ZeosSOA.Sysenter

open Mm

structure HeapPtr (hp : Nat) : Prop where
  ge : initHeap ≤ hp
  le : hp ≤ totalPages * pageSize
  aligned : hp % pageSize = 0

theorem initHeap_eq : initHeap = 304 * pageSize := rfl

abbrev heapPage : Nat := initHeap / pageSize

@[simp] theorem heapPage_eq : heapPage = 304 := rfl

theorem HeapPtr.page {hp : Nat} (h : HeapPtr hp) : heapPage ≤ hp / pageSize := Nat.div_le_div_right h.ge

theorem HeapPtr.page_le {hp : Nat} (h : HeapPtr hp) : hp / pageSize ≤ totalPages :=
  Nat.div_le_of_le_mul (by rw [Nat.mul_comm]; exact h.le)

theorem HeapPtr.addPage {hp : Nat} (h : HeapPtr hp) (hlt : hp / pageSize < totalPages) : HeapPtr (addPage hp) := by
  obtain ⟨hge, hle, hal⟩ := h
  rw [initHeap_eq] at hge
  simp only [totalPages, pageSize] at hge hle hal hlt
  refine ⟨?_, ?_, ?_⟩
  · rw [initHeap_eq]; simp only [Sysenter.addPage, pageSize]; omega
  · simp only [Sysenter.addPage, totalPages, pageSize]; omega
  · simp only [Sysenter.addPage, pageSize]; omega

section
variable {K : Nat → Prop} {m m' m'' : Mm} {pt : Nat}

/-- The page is gone when `get_frame` looks for its frame, so that no frame is given back. -/
theorem sbrkDelPage_eq (pt : Nat) (m : Mm) (page : Nat) : sbrkDelPage pt m page = m.delSsPag pt page := by
  have hzero : (m.delSsPag pt page).getFrame pt page = 0 := by
    rw [getFrame, delSsPag, setEntry_entry, if_pos rfl]
    rfl
  unfold sbrkDelPage
  dsimp only
  rw [hzero]
  exact if_neg (by simp [numPagKernel])

theorem touches_sbrkDelPage (m : Mm) {page : Nat} (h : K (pt * totalPages + page)) :
    Touches K m (sbrkDelPage pt m page) := (touches_setEntry m _ h).trans (touches_freeFrame _ _)

theorem writeUstack_some {page : Nat} {f p : UInt32} (h : Kernel.writeUstack m pt page f p = some m') :
    m'.pagusrTable = m.pagusrTable ∧ m'.physMem = m.physMem ∧ page < totalPages ∧ (m.entry pt page).present = true := by
  obtain ⟨m1, h1, h⟩ := Option.bind_eq_some_iff.mp h
  obtain ⟨m2, h2, h3⟩ := Option.bind_eq_some_iff.mp h
  obtain ⟨e1, p1, hp, hpres⟩ := writeWord_some h1
  obtain ⟨e2, p2, -⟩ := writeWord_some h2
  obtain ⟨e3, p3, -⟩ := writeWord_some h3
  exact ⟨e3.trans (e2.trans e1), p3.trans (p2.trans p1), hp, hpres⟩

theorem touches_writeUstack {page : Nat} {f p : UInt32} (h : Kernel.writeUstack m pt page f p = some m') :
    Touches K m m' ∧ page < totalPages := by
  obtain ⟨e, -, hp, -⟩ := writeUstack_some h
  exact ⟨fun k _ => by rw [e], hp⟩

theorem freeCount_le (m : Mm) : m.freeCount ≤ 384 := by
  have hl : candidates.length = 384 := List.length_range'
  exact hl ▸ List.countP_le_length

theorem touches_releaseData (m : Mm) {n : Nat} (h : ∀ i < n, K (pt * totalPages + (pagLogInitData + i))) :
    Touches K m (releaseData pt n m) :=
  touches_foldl fun i hi m => touches_releasePage m (h i (List.mem_range.mp hi))

theorem touches_forkAllocData (pt : Nat) : ∀ (n pag : Nat) (m : Mm),
    (∀ i < pag + n, K (pt * totalPages + (pagLogInitData + i))) → Touches K m (forkAllocData pt n pag m).2
  | 0, _, m, _ => .refl K m
  | n + 1, pag, m, h => by
    unfold forkAllocData
    have ha := touches_allocFrame (K := K) m
    generalize m.allocFrame = x at ha
    obtain ⟨f, m1⟩ := x
    dsimp only at ha ⊢
    split
    · exact ha.trans ((touches_setSsPag m1 f (h pag (by omega))).trans
        (touches_forkAllocData pt n (pag + 1) _ fun i hi => h i (by omega)))
    · exact ha.trans (touches_releaseData m1 fun i hi => h i (by omega))

/-! ## sys_sbrk -/

section
variable (hK : ∀ page, heapPage ≤ page → K (pt * totalPages + page)) {old : Nat} (ho : HeapPtr old)

include hK ho in
theorem sbrkRollback_some : ∀ {fuel j : Nat} {m m' : Mm} {hp' : Nat}, j ≤ 384 →
    sbrkRollback pt old fuel (old + pageSize * j) m = some (hp', m') → hp' = old ∧ Touches K m m'
  | 0, _, _, _, _, _, h => nomatch h
  | fuel + 1, 0, m, m', hp', _, h => by
    unfold sbrkRollback at h
    rw [if_neg (by omega)] at h
    obtain ⟨rfl, rfl⟩ := Prod.mk.inj (Option.some.inj h)
    exact ⟨rfl, .refl K m⟩
  | fuel + 1, j + 1, m, m', hp', hj, h => by
    have hle := ho.le
    have hge := ho.ge
    rw [initHeap_eq] at hge
    simp only [totalPages, pageSize] at hle hge
    have hsub : subPage (old + pageSize * (j + 1)) = old + pageSize * j := by
      simp only [subPage, pageSize]; omega
    unfold sbrkRollback at h
    rw [if_pos (by simp only [pageSize]; omega), hsub] at h
    obtain ⟨e, ht⟩ := sbrkRollback_some (by omega) h
    exact ⟨e, (touches_releasePage m (hK _ (by simp only [heapPage, initHeap_eq, pageSize]; omega))).trans ht⟩

include hK ho in
/-- The growth loop: a failure leaves the heap pointer alone, and success costs a frame a page. -/
theorem sbrkGrow_some {new : Nat} : ∀ {fuel j : Nat} {m m' : Mm} {ok : Bool} {hp' : Nat}, j + m.freeCount ≤ 384 →
    sbrkGrow pt old new fuel (old + pageSize * j) m = some (ok, hp', m') → Touches K m m' ∧
      (ok = false ∧ hp' = old ∨
        ∃ k, hp' = old + pageSize * k ∧ k ≤ 384 ∧ new ≤ hp' ∧ (k = j ∨ hp' < new + pageSize))
  | 0, _, _, _, _, _, _, h => nomatch h
  | fuel + 1, j, m, m', ok, hp', hj, h => by
    have hle := ho.le
    have hge := ho.ge
    have hal := ho.aligned
    rw [initHeap_eq] at hge
    simp only [totalPages, pageSize] at hle hge hal
    unfold sbrkGrow at h
    by_cases hlt : old + pageSize * j < new
    swap
    · rw [if_neg hlt] at h
      obtain ⟨-, rfl, rfl⟩ : ok = true ∧ old + pageSize * j = hp' ∧ m = m' := by simpa [eq_comm] using h
      exact ⟨.refl K m, .inr ⟨j, rfl, by omega, Nat.le_of_not_lt hlt, .inl rfl⟩⟩
    rw [if_pos hlt, if_pos (by simp only [pageSize]; omega)] at h
    rcases allocFrame_cases m with ⟨f, hf, hfree, e⟩ | ⟨-, e⟩
    · rw [e] at h
      dsimp only at h
      have hadd : addPage (old + pageSize * j) = old + pageSize * (j + 1) := by
        simp only [addPage, pageSize]; omega
      have hcount := freeCount_alloc hf hfree
      rw [if_neg (by omega), hadd] at h
      obtain ⟨ht, hcase⟩ := sbrkGrow_some (by
        rw [show ((m.setFrame f .used).setSsPag pt _ f).freeCount = (m.setFrame f .used).freeCount from rfl]; omega) h
      refine ⟨Touches.trans ?_ ht, ?_⟩
      · exact touches_setSsPag _ _ (hK _ (by simp only [heapPage, initHeap_eq, pageSize]; omega))
      · refine hcase.imp_right fun ⟨k, h1, h2, h3, h4⟩ => ⟨k, h1, h2, h3, .inr ?_⟩
        rcases h4 with rfl | h4
        · rw [h1]; simp only [pageSize] at *; omega
        · exact h4
    · rw [e] at h
      dsimp only at h
      rw [if_pos rfl] at h
      obtain ⟨⟨hp, m1⟩, hr, hret⟩ := Option.bind_eq_some_iff.mp h
      obtain ⟨hp_eq, ht⟩ := sbrkRollback_some hK ho (by omega) hr
      obtain ⟨rfl, rfl, rfl⟩ : ok = false ∧ hp = hp' ∧ m1 = m' := by simpa [eq_comm] using hret
      exact ⟨ht, .inl ⟨rfl, hp_eq⟩⟩

end

/-! ## The frames of a growth -/

section
variable {old : Nat} (ho : HeapPtr old) (hcode : m.physMem numPagKernel = .used)

include ho hcode in
theorem sbrkRollback_grown {fr : Nat → Nat} : ∀ {fuel j : Nat} {m₁ m' : Mm} {hp' : Nat}, j ≤ 384 →
    (∀ i < j, m.pagusrTable (pt * totalPages + old / pageSize + i) = .zero) →
    Grown m m₁ (pt * totalPages + old / pageSize) j fr →
    sbrkRollback pt old fuel (old + pageSize * j) m₁ = some (hp', m') →
    hp' = old ∧ Grown m m' (pt * totalPages + old / pageSize) 0 fr
  | 0, _, _, _, _, _, _, _, h => nomatch h
  | fuel + 1, 0, m₁, m', hp', _, _, hg, h => by
    unfold sbrkRollback at h
    rw [if_neg (by omega)] at h
    obtain ⟨rfl, rfl⟩ := Prod.mk.inj (Option.some.inj h)
    exact ⟨rfl, hg⟩
  | fuel + 1, j + 1, m₁, m', hp', hj, hzero, hg, h => by
    have hle := ho.le
    have hal := ho.aligned
    simp only [totalPages, pageSize] at hle hal
    have hsub : subPage (old + pageSize * (j + 1)) = old + pageSize * j := by
      simp only [subPage, pageSize]; omega
    have hpage : pt * totalPages + (old + pageSize * j) / pageSize = pt * totalPages + old / pageSize + j := by
      simp only [pageSize]; omega
    have hfr : numPagKernel < fr j := by
      have hc := mem_candidates.mp (hg.cand j (by omega))
      refine Nat.lt_of_le_of_ne hc.1 fun e => ?_
      have hfree := hg.free j (by omega)
      rw [← e, hcode] at hfree
      cases hfree
    unfold sbrkRollback at h
    rw [if_pos (by simp only [pageSize]; omega), hsub] at h
    exact sbrkRollback_grown (by omega) (fun i hi => hzero i (by omega))
      (hg.release hpage (hzero j (by omega)) hfr) h

include ho hcode in
/-- The growth loop gives each new page a frame that was free, or else leaves the pages it had got to unmapped. -/
theorem sbrkGrow_grown {new : Nat} : ∀ {fuel j : Nat} {m₁ m' : Mm} {ok : Bool} {hp' : Nat} {fr : Nat → Nat},
    Grown m m₁ (pt * totalPages + old / pageSize) j fr →
    sbrkGrow pt old new fuel (old + pageSize * j) m₁ = some (ok, hp', m') →
    (ok = true ∧ new ≤ hp' ∧ ∃ n fr', Grown m m' (pt * totalPages + old / pageSize) n fr' ∧ hp' = old + pageSize * n) ∨
      ok = false ∧ hp' = old ∧ old + pageSize * m.freeCount < new ∧
        ∃ fr', Grown (cleared m (pt * totalPages + old / pageSize) m.freeCount) m'
          (pt * totalPages + old / pageSize) 0 fr'
  | 0, _, _, _, _, _, _, _, h => nomatch h
  | fuel + 1, j, m₁, m', ok, hp', fr, hg, h => by
    have hle := ho.le
    have hal := ho.aligned
    have hcount := hg.count
    have hmax := freeCount_le m
    simp only [totalPages, pageSize] at hle hal
    unfold sbrkGrow at h
    by_cases hlt : old + pageSize * j < new
    swap
    · rw [if_neg hlt] at h
      obtain ⟨rfl, rfl, rfl⟩ : ok = true ∧ old + pageSize * j = hp' ∧ m₁ = m' := by simpa [eq_comm] using h
      exact .inl ⟨rfl, Nat.le_of_not_lt hlt, j, fr, hg, rfl⟩
    rw [if_pos hlt, if_pos (by simp only [pageSize]; omega)] at h
    rcases allocFrame_cases m₁ with ⟨f, hf, hfree, e⟩ | ⟨hused, e⟩ <;> rw [e] at h <;> dsimp only at h
    · have hadd : addPage (old + pageSize * j) = old + pageSize * (j + 1) := by
        simp only [addPage, pageSize]; omega
      have hpage : pt * totalPages + (old + pageSize * j) / pageSize = pt * totalPages + old / pageSize + j := by
        simp only [pageSize]; omega
      rw [if_neg (by omega), hadd] at h
      exact sbrkGrow_grown (hg.snoc hpage hf hfree) h
    · -- no frame is left, so `j` is the number of frames that were free
      rw [if_pos rfl] at h
      obtain ⟨⟨hp, m2⟩, hr, hret⟩ := Option.bind_eq_some_iff.mp h
      obtain ⟨rfl, rfl, rfl⟩ : ok = false ∧ hp = hp' ∧ m2 = m' := by simpa [eq_comm] using hret
      have hj : j = m.freeCount := by have := freeCount_eq_zero.mpr hused; omega
      subst hj
      have hzero : ∀ i < m.freeCount, (cleared m (pt * totalPages + old / pageSize) m.freeCount).pagusrTable
          (pt * totalPages + old / pageSize + i) = .zero := fun i hi => if_pos (by omega)
      obtain ⟨hhp, hg'⟩ := sbrkRollback_grown (m := cleared m _ _) ho hcode (by omega) hzero hg.cleared hr
      exact .inr ⟨rfl, hhp, hlt, fr, hg'⟩

end

theorem sbrkShrink_some (hK : ∀ page, heapPage ≤ page → K (pt * totalPages + page)) {new : Nat} (hn : initHeap ≤ new) :
    ∀ {fuel hp hp' : Nat} {m m' : Mm}, HeapPtr hp → sbrkShrink pt new fuel hp m = some (hp', m') →
      HeapPtr hp' ∧ Touches K m m'
  | 0, _, _, _, _, _, h => nomatch h
  | fuel + 1, hp, hp', m, m', ho, h => by
    have hle := ho.le
    have hge := ho.ge
    have hal := ho.aligned
    rw [initHeap_eq] at hge hn
    simp only [totalPages, pageSize] at hle hge hal hn
    unfold sbrkShrink at h
    by_cases hlt : hp > new
    swap
    · rw [if_neg hlt] at h
      obtain ⟨rfl, rfl⟩ := Prod.mk.inj (Option.some.inj h)
      exact ⟨ho, .refl K m⟩
    rw [if_pos hlt] at h
    have hsub : subPage hp = hp - pageSize := by simp only [subPage, pageSize]; omega
    rw [hsub] at h
    obtain ⟨ho', ht⟩ := sbrkShrink_some hK (by rw [initHeap_eq]; simp only [pageSize]; omega)
      ⟨by rw [initHeap_eq]; simp only [pageSize]; omega, by simp only [totalPages, pageSize]; omega,
        by simp only [pageSize]; omega⟩ h
    refine ⟨ho', Touches.trans ?_ ht⟩
    split
    · exact touches_sbrkDelPage m (hK _ (by simp only [heapPage, initHeap_eq, pageSize]; omega))
    · exact .refl K m

theorem sbrkHeap_some (hK : ∀ page, heapPage ≤ page → K (pt * totalPages + page)) {old hp' ret : Nat} (ho : HeapPtr old)
    {size : Int} (h : sbrkHeap pt initHeap old size m = some (ret, hp', m')) : HeapPtr hp' ∧ Touches K m m' := by
  have hle := ho.le
  have hge := ho.ge
  have hal := ho.aligned
  unfold sbrkHeap at h
  dsimp only at h
  split at h
  · obtain ⟨-, rfl, rfl⟩ : 0 = ret ∧ old = hp' ∧ m = m' := by simpa using h
    exact ⟨ho, .refl K m⟩
  rename_i hnew
  split at h
  swap
  · obtain ⟨⟨hp, m1⟩, hs, h⟩ := Option.bind_eq_some_iff.mp h
    obtain ⟨-, rfl, rfl⟩ : old = ret ∧ hp = hp' ∧ m1 = m' := by simpa using h
    exact sbrkShrink_some hK (Nat.le_of_not_lt hnew) ho hs
  split at h
  · obtain ⟨-, rfl, rfl⟩ : 0 = ret ∧ old = hp' ∧ m = m' := by simpa using h
    exact ⟨ho, .refl K m⟩
  rename_i hsize hcheck
  obtain ⟨⟨ok, hp, m1⟩, hg, h⟩ := Option.bind_eq_some_iff.mp h
  obtain ⟨-, rfl, rfl⟩ : (if ok = true then old else 0) = ret ∧ hp = hp' ∧ m1 = m' := by simpa using h
  obtain ⟨ht, hcase⟩ := sbrkGrow_some hK ho (j := 0) (m := m) (by have := freeCount_le m; omega) (by simpa using hg)
  refine ⟨?_, ht⟩
  rcases hcase with ⟨-, rfl⟩ | ⟨k, rfl, hk, hge', hlt'⟩
  · exact ho
  rcases hlt' with rfl | hlt'
  · exact ho
  -- `k` pages were needed, few enough for the check to have been exact
  simp only [initHeap_eq, totalPages, pageSize, numPagCode, numPagData, numPagKernel] at hle hge hal hge' hlt' hcheck
  refine ⟨by rw [initHeap_eq]; simp only [pageSize]; omega, ?_, by simp only [pageSize]; omega⟩
  simp only [totalPages, pageSize]
  have hnec : toInt32 (size + (4096 : Nat) - 1) = ((old + size) % 2 ^ 32) - old + 4095 := by
    unfold toInt32; omega
  have hres : toInt32 ((old : Int) - (304 * 4096 : Nat)) = old - (304 * 4096 : Nat) :=
    toInt32_of_range (by omega) (by simp only [intMax]; omega)
  rw [hnec, hres, Int.tdiv_eq_ediv_of_nonneg (by omega), Int.tdiv_eq_ediv_of_nonneg (by omega)] at hcheck
  omega

/-- A request for more heap passes the two checks of `sys_sbrk`. -/
def SbrkFits (heapStart old : Nat) (size : Int) : Prop :=
  initHeap ≤ ((old + size) % 2 ^ 32).toNat ∧
    numPagCode + 2 * numPagData + numPagKernel + (toInt32 (size + pageSize - 1)).tdiv pageSize +
      (toInt32 (old - heapStart)).tdiv pageSize ≤ totalPages

instance (heapStart old : Nat) (size : Int) : Decidable (SbrkFits heapStart old size) :=
  inferInstanceAs (Decidable (_ ∧ _))

theorem sbrkHeap_refused {heapStart old : Nat} {size : Int} (hsize : 0 < size) (h : ¬ SbrkFits heapStart old size)
    (pt : Nat) (m : Mm) : sbrkHeap pt heapStart old size m = some (0, old, m) := by
  unfold sbrkHeap
  dsimp only
  by_cases hlow : ((old + size) % 2 ^ 32).toNat < initHeap
  · rw [if_pos hlow]
    rfl
  · rw [if_neg hlow, if_pos hsize, if_pos]
    · rfl
    · exact Int.lt_of_not_ge fun hfit => h ⟨Nat.le_of_not_lt hlow, hfit⟩

theorem SbrkFits.pages {old : Nat} (ho : HeapPtr old) {size : Int} (hsize : 0 < size) (hmax : size + pageSize - 1 ≤ intMax)
    (h : SbrkFits initHeap old size) : (old : Int) + size ≤ totalPages * pageSize ∧
      ((old + size) % 2 ^ 32).toNat = old + size := by
  have hge := ho.ge
  have hle := ho.le
  have hal := ho.aligned
  have hcheck := h.2
  simp only [initHeap_eq, totalPages, pageSize, numPagCode, numPagData, numPagKernel, intMax] at *
  have hnec : toInt32 (size + (4096 : Nat) - 1) = size + 4095 := by
    unfold toInt32
    omega
  have hres : toInt32 ((old : Int) - (304 * 4096 : Nat)) = old - (304 * 4096 : Nat) :=
    toInt32_of_range (by omega) (by simp only [intMax]; omega)
  rw [hnec, hres, Int.tdiv_eq_ediv_of_nonneg (by omega), Int.tdiv_eq_ediv_of_nonneg (by omega)] at hcheck
  omega

theorem sbrkHeap_grown {old hp' ret : Nat} (ho : HeapPtr old) (hcode : m.physMem numPagKernel = .used) {size : Int}
    (hsize : 0 < size) (h : sbrkHeap pt initHeap old size m = some (ret, hp', m')) :
    ret = 0 ∧ hp' = old ∧ m' = m ∨
      ret = old ∧ HeapPtr hp' ∧ (size ≤ intMax → (old + size : Int) ≤ hp') ∧
        (∃ n fr, Grown m m' (pt * totalPages + old / pageSize) n fr ∧ hp' = old + pageSize * n) ∨
      ret = 0 ∧ hp' = old ∧ (size + pageSize - 1 ≤ intMax → old / pageSize + m.freeCount ≤ totalPages) ∧
        ∃ fr, Grown (cleared m (pt * totalPages + old / pageSize) m.freeCount) m'
          (pt * totalPages + old / pageSize) 0 fr := by
  have hheap := (sbrkHeap_some (K := fun _ => True) (fun _ _ => trivial) ho h).1
  have hle := ho.le
  simp only [totalPages, pageSize] at hle
  unfold sbrkHeap at h
  dsimp only at h
  split at h
  · obtain ⟨rfl, rfl, rfl⟩ : 0 = ret ∧ old = hp' ∧ m = m' := by simpa using h
    exact .inl ⟨rfl, rfl, rfl⟩
  split at h
  · obtain ⟨rfl, rfl, rfl⟩ : 0 = ret ∧ old = hp' ∧ m = m' := by simpa using h
    exact .inl ⟨rfl, rfl, rfl⟩
  rename_i hcheck
  obtain ⟨⟨ok, hp, m1⟩, hg, h⟩ := Option.bind_eq_some_iff.mp h
  obtain ⟨hret, rfl, rfl⟩ : (if ok = true then old else 0) = ret ∧ hp = hp' ∧ m1 = m' := by simpa using h
  refine .inr ((sbrkGrow_grown ho hcode (Grown.nil m _ id) (by simpa using hg)).imp ?_ ?_)
  · intro ⟨hok, hnew, hgrown⟩
    rw [if_pos hok] at hret
    exact ⟨hret.symm, hheap, fun hint => by simp only [intMax] at hint; omega, hgrown⟩
  · intro ⟨hok, hhp, hnew, hgrown⟩
    rw [if_neg (by rw [hok]; exact Bool.false_ne_true)] at hret
    refine ⟨hret.symm, hhp, fun hint => ?_, hgrown⟩
    -- the check was exact, and there are fewer frames than pages asked for
    have hfits := SbrkFits.pages ho hsize hint ⟨Nat.le_of_not_lt ‹_›, Int.le_of_not_gt hcheck⟩
    have hal := ho.aligned
    simp only [totalPages, pageSize] at *
    omega

end

end ZeosSOA.Sysenter
