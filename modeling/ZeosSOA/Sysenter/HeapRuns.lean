import Mathlib.Data.List.Perm.Subperm
import ZeosSOA.Sysenter.Heap
import ZeosSOA.Sysenter.Ownership

/-!
# ZeOSSysenter: the heap of a process over many calls of sys_sbrk

A process without threads calls `sys_sbrk` again and again, and between its calls the rest of the system
takes and returns frames of its own. Growth takes back everything it got when the frames run out. The
loop that makes the heap smaller returns no frame at all.
-/

namespace ZeosSOA.Sysenter

open Mm

/-! ## The pages a call writes -/

/-- The pages `sbrkRollback` removes. -/
def rollbackPages (oldPointer : Nat) : Nat → Nat → List Nat
  | 0, _ => []
  | fuel + 1, hp =>
    if hp > oldPointer then subPage hp / pageSize :: rollbackPages oldPointer fuel (subPage hp) else []

/-- The pages whose entries `sbrkGrow` writes, those of the rollback last. -/
def growPages (pt oldPointer newPointer : Nat) : Nat → Nat → Mm → List Nat
  | 0, _, _ => []
  | fuel + 1, hp, m =>
    if hp < newPointer then
      if hp % pageSize = 0 then
        let (newPhPg, m) := m.allocFrame
        if newPhPg = -1 then rollbackPages oldPointer pointerRounds hp
        else hp / pageSize :: growPages pt oldPointer newPointer fuel (addPage hp) (m.setSsPag pt (hp / pageSize) newPhPg)
      else growPages pt oldPointer newPointer fuel (addPage hp) m
    else []

section
variable {m m' : Mm} {pt old new : Nat}

theorem rollbackPages_touches {hp' : Nat} : ∀ {fuel hp : Nat} {m : Mm}, sbrkRollback pt old fuel hp m = some (hp', m') →
    Touches (fun k => ∃ page ∈ rollbackPages old fuel hp, k = pt * totalPages + page) m m'
  | 0, _, _, h => by cases h
  | fuel + 1, hp, m, h => by
    unfold sbrkRollback at h
    unfold rollbackPages
    split at h
    · rename_i hlt
      rw [if_pos hlt]
      have ht := touches_releasePage (K := fun k => ∃ page ∈ subPage hp / pageSize :: rollbackPages old fuel (subPage hp),
        k = pt * totalPages + page) m ⟨_, List.mem_cons_self, rfl⟩
      refine ht.trans fun k hk => rollbackPages_touches h k ?_
      rintro ⟨page, hp, e⟩
      exact hk ⟨page, List.mem_cons_of_mem _ hp, e⟩
    · cases h
      exact fun _ _ => rfl

theorem growPages_touches {ok : Bool} {hp' : Nat} : ∀ {fuel hp : Nat} {m : Mm},
    sbrkGrow pt old new fuel hp m = some (ok, hp', m') →
    Touches (fun k => ∃ page ∈ growPages pt old new fuel hp m, k = pt * totalPages + page) m m'
  | 0, _, _, h => by cases h
  | fuel + 1, hp, m, h => by
    unfold sbrkGrow at h
    unfold growPages
    split at h
    swap
    · cases h
      exact fun _ _ => rfl
    rename_i hlt
    rw [if_pos hlt]
    split at h
    · rename_i hal
      rw [if_pos hal]
      have ha := touches_allocFrame (K := fun _ => False) m
      generalize m.allocFrame = x at ha h ⊢
      obtain ⟨f, m1⟩ := x
      dsimp only at ha h ⊢
      split at h
      · rename_i hf
        rw [if_pos hf]
        obtain ⟨⟨hp1, m2⟩, hr, hret⟩ := Option.bind_eq_some_iff.mp h
        cases hret
        exact Touches.trans (fun k _ => ha k id) (rollbackPages_touches hr)
      · rename_i hf
        rw [if_neg hf]
        refine Touches.trans (fun k _ => ha k id) ?_
        refine (touches_setSsPag m1 f ⟨_, List.mem_cons_self, rfl⟩).trans fun k hk => ?_
        apply growPages_touches h k
        rintro ⟨page, hp, e⟩
        exact hk ⟨page, List.mem_cons_of_mem _ hp, e⟩
    · rename_i hal
      rw [if_neg hal]
      exact growPages_touches h

end

/-! ## The loops come to an end -/

section
variable {old : Nat} (ho : HeapPtr old)

include ho in
theorem subPage_heap {j : Nat} (hj : j ≤ 384) : subPage (old + pageSize * (j + 1)) = old + pageSize * j := by
  have hle := ho.le
  simp only [totalPages, pageSize] at hle
  simp only [subPage, pageSize]
  omega

include ho in
theorem addPage_heap {j : Nat} (hj : j ≤ 384) : addPage (old + pageSize * j) = old + pageSize * (j + 1) := by
  have hle := ho.le
  simp only [totalPages, pageSize] at hle
  simp only [addPage, pageSize]
  omega

include ho in
theorem page_heap (j : Nat) : (old + pageSize * j) / pageSize = old / pageSize + j ∧ (old + pageSize * j) % pageSize = 0 := by
  have hal := ho.aligned
  simp only [pageSize] at *
  omega

include ho in
theorem sbrkRollback_isSome {pt : Nat} : ∀ {j fuel : Nat} {m : Mm}, j ≤ 384 → j < fuel →
    (sbrkRollback pt old fuel (old + pageSize * j) m).isSome = true
  | _, 0, _, _, h => absurd h (Nat.not_lt_zero _)
  | 0, fuel + 1, m, _, _ => by
    unfold sbrkRollback
    rw [if_neg (by omega)]
    rfl
  | j + 1, fuel + 1, m, hj, hlt => by
    unfold sbrkRollback
    rw [if_pos (by simp only [pageSize]; omega), subPage_heap ho (by omega)]
    exact sbrkRollback_isSome (by omega) (by omega)

include ho in
theorem sbrkGrow_isSome {pt new : Nat} : ∀ {fuel j : Nat} {m : Mm}, j + m.freeCount ≤ 384 →
    new ≤ old + pageSize * (j + fuel) → (sbrkGrow pt old new (fuel + 1) (old + pageSize * j) m).isSome = true := by
  intro fuel
  induction fuel with
  | zero =>
    intro j m _ hnew
    unfold sbrkGrow
    rw [if_neg (by simpa using hnew)]
    rfl
  | succ fuel ih =>
    intro j m hj hnew
    unfold sbrkGrow
    split
    swap
    · rfl
    rw [if_pos (page_heap ho j).2]
    rcases allocFrame_cases m with ⟨f, hf, hfree, e⟩ | ⟨-, e⟩ <;> rw [e] <;> dsimp only
    · have hcount := freeCount_alloc hf hfree
      rw [if_neg (by omega), addPage_heap ho (by omega)]
      refine ih ?_ (by rwa [Nat.add_right_comm j 1 fuel])
      rw [show ((m.setFrame f .used).setSsPag pt _ f).freeCount = (m.setFrame f .used).freeCount from rfl]
      omega
    · rw [if_pos rfl]
      have hback : (sbrkRollback pt old pointerRounds (old + pageSize * j) m).isSome = true :=
        sbrkRollback_isSome ho (by omega) (by simp only [pointerRounds]; omega)
      obtain ⟨x, hx⟩ := Option.isSome_iff_exists.mp hback
      rw [hx]
      rfl

/-! ## The pages are pages of the table -/

include ho in
theorem rollbackPages_lt : ∀ {j fuel page : Nat}, j ≤ 384 → page ∈ rollbackPages old fuel (old + pageSize * j) →
    page < old / pageSize + j
  | _, 0, _, _, h => absurd h List.not_mem_nil
  | 0, fuel + 1, page, _, h => by
    unfold rollbackPages at h
    rw [if_neg (by omega)] at h
    exact absurd h List.not_mem_nil
  | j + 1, fuel + 1, page, hj, h => by
    unfold rollbackPages at h
    rw [if_pos (by simp only [pageSize]; omega), subPage_heap ho (by omega)] at h
    rcases List.mem_cons.mp h with rfl | h
    · rw [(page_heap ho j).1]
      omega
    · have := rollbackPages_lt (by omega) h
      omega

include ho in
theorem growPages_lt {pt new : Nat} : ∀ {fuel j page : Nat} {m : Mm}, j + m.freeCount ≤ 384 →
    page ∈ growPages pt old new fuel (old + pageSize * j) m → page < old / pageSize + j + m.freeCount
  | 0, _, _, _, _, h => absurd h List.not_mem_nil
  | fuel + 1, j, page, m, hj, h => by
    unfold growPages at h
    split at h
    swap
    · exact absurd h List.not_mem_nil
    rw [if_pos (page_heap ho j).2] at h
    rcases allocFrame_cases m with ⟨f, hf, hfree, e⟩ | ⟨-, e⟩ <;> rw [e] at h <;> dsimp only at h
    · have hcount := freeCount_alloc hf hfree
      rw [if_neg (by omega), addPage_heap ho (by omega)] at h
      rcases List.mem_cons.mp h with rfl | h
      · rw [(page_heap ho j).1]
        omega
      · have hcount' : ((m.setFrame f .used).setSsPag pt ((old + pageSize * j) / pageSize) f).freeCount =
            (m.setFrame f .used).freeCount := rfl
        have := growPages_lt (by rw [hcount']; omega) h
        omega
    · rw [if_pos rfl] at h
      have := rollbackPages_lt ho (by omega) h
      omega

end

/-! ## The pages of a heap -/

/-- The pages of the heap area below `top` have frames of their own, the others the zero words of the loader and of
`del_ss_pag`. -/
structure HeapTo (m : Mm) (pt top : Nat) : Prop where
  ge : heapPage ≤ top
  present : ∀ page, heapPage ≤ page → page < top → (m.entry pt page).present = true
  cand : ∀ page, heapPage ≤ page → page < top → m.getFrame pt page ∈ candidates
  used : ∀ page, heapPage ≤ page → page < top → m.physMem (m.getFrame pt page) = .used
  inj : ∀ p q, heapPage ≤ p → p < top → heapPage ≤ q → q < top → m.getFrame pt p = m.getFrame pt q → p = q
  zero : ∀ page, top ≤ page → page < totalPages → m.entry pt page = .zero
  code : m.physMem numPagKernel = .used

theorem used_add_freeCount_le {m : Mm} {n : Nat} {fr : Nat → Nat} (hc : ∀ i < n, fr i ∈ candidates)
    (hu : ∀ i < n, m.physMem (fr i) = .used) (hi : ∀ i < n, ∀ j < n, fr i = fr j → i = j) : n + m.freeCount ≤ 384 := by
  have hsub : (List.range n).map fr ⊆ candidates.filter fun f => ¬ m.physMem f = .free := by
    intro f hf
    obtain ⟨i, hin, rfl⟩ := List.mem_map.mp hf
    have hin := List.mem_range.mp hin
    exact List.mem_filter.mpr ⟨hc i hin, by simp [hu i hin]⟩
  have hnd : ((List.range n).map fr).Nodup := by
    refine List.Nodup.map_on ?_ List.nodup_range
    intro i h1 j h2 e
    exact hi i (List.mem_range.mp h1) j (List.mem_range.mp h2) e
  have hle := (List.subperm_of_subset hnd hsub).length_le
  have hl : candidates.length = 384 := List.length_range'
  have hadd := List.length_eq_countP_add_countP (fun f => decide (m.physMem f = .free)) (l := candidates)
  rw [List.length_map, List.length_range, ← List.countP_eq_length_filter] at hle
  simp only [decide_eq_true_eq] at hadd
  unfold freeCount
  omega

section
variable {m m' : Mm} {pt top base n : Nat}

/-- However large a heap is, the frames that are left do not take it to the end of the table. -/
theorem HeapTo.room (h : HeapTo m pt top) : top + m.freeCount ≤ 688 := by
  have hge := h.ge
  have hh := heapPage_eq
  have := @used_add_freeCount_le m (top - heapPage) (fun i => m.getFrame pt (heapPage + i))
    (fun i hi => h.cand _ (by omega) (by omega)) (fun i hi => h.used _ (by omega) (by omega))
    (fun i hi j hj e => by have := h.inj _ _ (by omega) (by omega) (by omega) (by omega) e; omega)
  omega

theorem HeapTo.congr (h : HeapTo m pt top)
    (hentry : ∀ page, heapPage ≤ page → page < totalPages → m'.entry pt page = m.entry pt page)
    (hused : ∀ page, heapPage ≤ page → page < top → m'.physMem (m.getFrame pt page) = .used)
    (hcode : m'.physMem numPagKernel = .used) : HeapTo m' pt top := by
  have hroom := h.room
  have hframe : ∀ page, heapPage ≤ page → page < top → m'.getFrame pt page = m.getFrame pt page := by
    intro page h1 h2
    rw [getFrame, hentry page h1 (by simp only [totalPages]; omega), getFrame]
  refine ⟨h.ge, fun page h1 h2 => ?_, fun page h1 h2 => ?_, fun page h1 h2 => ?_, fun p q hp hp' hq hq' e => ?_,
    fun page h1 h2 => ?_, hcode⟩
  · rw [hentry page h1 (by simp only [totalPages]; omega)]
    exact h.present page h1 h2
  · rw [hframe page h1 h2]
    exact h.cand page h1 h2
  · rw [hframe page h1 h2]
    exact hused page h1 h2
  · rw [hframe p hp hp', hframe q hq hq'] at e
    exact h.inj p q hp hp' hq hq' e
  · rw [hentry page (Nat.le_trans h.ge h1) h2]
    exact h.zero page h1 h2

theorem cleared_entry_lt (m : Mm) (hlt : base + n ≤ totalPages) {page : Nat} (hp : page < totalPages) (pt' : Nat) :
    (cleared m (pt * totalPages + base) n).entry pt' page =
      if pt' = pt ∧ base ≤ page ∧ page < base + n then .zero else m.entry pt' page := by
  rw [Mm.entry, cleared]
  refine if_congr ?_ rfl rfl
  simp only [totalPages] at *
  omega

theorem HeapTo.cleared (h : HeapTo m pt top) (hb : heapPage ≤ base) (hbt : base ≤ top) (htn : top ≤ base + n)
    (hlt : base + n ≤ totalPages) : HeapTo (cleared m (pt * totalPages + base) n) pt base := by
  have hkeep : ∀ page, heapPage ≤ page → page < base →
      (ZeosSOA.cleared m (pt * totalPages + base) n).entry pt page = m.entry pt page := by
    intro page h1 h2
    rw [cleared_entry_lt m hlt (by omega), if_neg (by omega)]
  refine ⟨hb, fun page h1 h2 => ?_, fun page h1 h2 => ?_, fun page h1 h2 => ?_, fun p q hp hp' hq hq' e => ?_,
    fun page h1 h2 => ?_, h.code⟩
  · rw [hkeep page h1 h2]
    exact h.present page h1 (by omega)
  · rw [getFrame, hkeep page h1 h2]
    exact h.cand page h1 (by omega)
  · rw [getFrame, hkeep page h1 h2]
    exact h.used page h1 (by omega)
  · rw [getFrame, getFrame, hkeep p hp hp', hkeep q hq hq'] at e
    exact h.inj p q hp (by omega) hq (by omega) e
  · rw [cleared_entry_lt m hlt h2]
    split
    · rfl
    · exact h.zero page (by omega) h2

theorem HeapTo.same (h : HeapTo m pt top) (ht : m'.pagusrTable = m.pagusrTable) (hp : m'.physMem = m.physMem) :
    HeapTo m' pt top :=
  h.congr (fun page _ _ => by rw [Mm.entry, ht, Mm.entry]) (fun page h1 h2 => by rw [hp]; exact h.used page h1 h2)
    (by rw [hp]; exact h.code)

theorem HeapTo.grown {fr : Nat → Nat} (h : HeapTo m pt top) (hb : heapPage ≤ base) (hbt : base ≤ top) (htn : top ≤ base + n)
    (hlt : base + n ≤ totalPages) (hg : Grown m m' (pt * totalPages + base) n fr) : HeapTo m' pt (base + n) := by
  have hentry := fun page (hp : page < totalPages) => hg.entry hlt pt hp
  have hold : ∀ page, heapPage ≤ page → page < base → m'.getFrame pt page = m.getFrame pt page := by
    intro page h1 h2
    rw [getFrame, hentry page (by omega), if_neg (by omega), getFrame]
  have hnew : ∀ page, base ≤ page → page < base + n → m'.getFrame pt page = fr (page - base) := by
    intro page h1 h2
    rw [getFrame, hentry page (by omega), if_pos ⟨rfl, h1, h2⟩]
  have hapart : ∀ page, heapPage ≤ page → page < base → ∀ k < n, m.getFrame pt page ≠ fr k := by
    intro page h1 h2 k hk e
    have hu := h.used page h1 (by omega)
    rw [e, hg.free k hk] at hu
    cases hu
  refine ⟨by omega, fun page h1 h2 => ?_, fun page h1 h2 => ?_, fun page h1 h2 => ?_, fun p q hp hp' hq hq' e => ?_,
    fun page h1 h2 => ?_, ?_⟩
  · rw [hentry page (by omega)]
    split
    · rfl
    · exact h.present page h1 (by omega)
  · rcases Nat.lt_or_ge page base with hlt' | hge
    · rw [hold page h1 hlt']
      exact h.cand page h1 (by omega)
    · rw [hnew page hge h2]
      exact hg.cand _ (by omega)
  · rcases Nat.lt_or_ge page base with hlt' | hge
    · have hother : ¬ ∃ k < n, fr k = m.getFrame pt page := by
        rintro ⟨k, hk, e⟩
        exact hapart page h1 hlt' k hk e.symm
      rw [hold page h1 hlt', hg.phys, if_neg hother]
      exact h.used page h1 (by omega)
    · rw [hnew page hge h2, hg.phys, if_pos ⟨_, by omega, rfl⟩]
  · rcases Nat.lt_or_ge p base with hpl | hpg <;> rcases Nat.lt_or_ge q base with hql | hqg
    · rw [hold p hp hpl, hold q hq hql] at e
      exact h.inj p q hp (by omega) hq (by omega) e
    · rw [hold p hp hpl, hnew q hqg hq'] at e
      exact absurd e (hapart p hp hpl _ (by omega))
    · rw [hnew p hpg hp', hold q hq hql] at e
      exact absurd e.symm (hapart q hq hql _ (by omega))
    · rw [hnew p hpg hp', hnew q hqg hq'] at e
      have := hg.inj _ (by omega) _ (by omega) e
      omega
  · rw [hentry page h2, if_neg (by omega)]
    exact h.zero page (by omega) h2
  · rw [hg.phys]
    split
    · rfl
    · exact h.code

theorem cleared_table_eq (h : ∀ page, base ≤ page → page < base + n → m.entry pt page = .zero) :
    (cleared m (pt * totalPages + base) n).pagusrTable = m.pagusrTable := by
  funext k
  change (if _ then _ else _) = _
  split
  · rename_i hk
    have hz := h (k - pt * totalPages) (by omega) (by omega)
    rw [Mm.entry, Nat.add_sub_cancel' (by omega)] at hz
    exact hz.symm
  · rfl

/-! ## One call -/

variable {old ret hp' : Nat} {size : Int}

theorem sbrkHeap_isSome (m : Mm) (pt : Nat) (ho : HeapPtr old) (hsize : 0 < size) (hmax : size ≤ intMax) :
    ∃ r, sbrkHeap pt initHeap old size m = some r := by
  by_cases hfit : SbrkFits initHeap old size
  swap
  · exact ⟨_, sbrkHeap_refused hsize hfit pt m⟩
  have hle := ho.le
  simp only [totalPages, pageSize] at hle
  simp only [intMax] at hmax
  have hsome : (sbrkGrow pt old ((old + size) % 2 ^ 32).toNat (2 ^ 20 + 1) (old + pageSize * 0) m).isSome = true :=
    sbrkGrow_isSome ho (by have := freeCount_le m; omega) (by simp only [pageSize]; omega)
  obtain ⟨r, hr⟩ := Option.isSome_iff_exists.mp hsome
  unfold sbrkHeap
  dsimp only
  rw [if_neg (Nat.not_lt.mpr hfit.1), if_pos hsize, if_neg (Int.not_lt.mpr hfit.2)]
  have hr : sbrkGrow pt old ((old + size) % 2 ^ 32).toNat pointerRounds old m = some r := hr
  exact ⟨_, by rw [hr]; rfl⟩

theorem HeapTo.growth (h : HeapTo m pt top) (ho : HeapPtr old) (hb : old / pageSize ≤ top) (ht : top ≤ old / pageSize + 1)
    (hsize : 0 < size) (hmax : size ≤ intMax) (hs : sbrkHeap pt initHeap old size m = some (ret, hp', m')) :
    HeapPtr hp' ∧ (∃ top', HeapTo m' pt top' ∧ hp' / pageSize ≤ top' ∧ top' ≤ hp' / pageSize + 1 ∧
      (top = old / pageSize → top' = hp' / pageSize)) ∧
    (ret = old ∧ (old + size : Int) ≤ hp' ∨
      ret = 0 ∧ hp' = old ∧ m'.physMem = m.physMem ∧ (top = old / pageSize → m'.pagusrTable = m.pagusrTable)) := by
  have hroom := h.room
  rcases sbrkHeap_grown ho h.code hsize hs with ⟨rfl, rfl, rfl⟩ | ⟨rfl, hptr, hend, k, fr, hg, rfl⟩ | ⟨rfl, rfl, -, fr, hg⟩
  · exact ⟨ho, ⟨top, h, hb, ht, id⟩, .inr ⟨rfl, rfl, rfl, fun _ => rfl⟩⟩
  · have hpage := (page_heap ho k).1
    have hcount := hg.count
    have hk : 0 < k := by
      have := hend hmax
      rcases Nat.eq_zero_or_pos k with rfl | hk
      · omega
      · exact hk
    refine ⟨hptr, ⟨ret / pageSize + k, ?_, by omega, by omega, fun _ => by omega⟩, .inl ⟨rfl, hend hmax⟩⟩
    exact h.grown ho.page hb (by omega) (by simp only [totalPages]; omega) hg
  · obtain ⟨htab, hphys⟩ := hg.same
    have hclear : HeapTo (ZeosSOA.cleared m (pt * totalPages + hp' / pageSize) m.freeCount) pt
        (if m.freeCount = 0 then top else hp' / pageSize) := by
      split
      · rename_i h0
        exact h.same (cleared_table_eq fun page h1 h2 => by omega) rfl
      · exact h.cleared ho.page hb (by omega) (by simp only [totalPages]; omega)
    refine ⟨ho, ⟨_, hclear.same htab hphys, by split <;> omega, by split <;> omega, fun e => by rw [e, ite_self]⟩,
      .inr ⟨rfl, rfl, hphys, fun e => ?_⟩⟩
    rw [htab, cleared_table_eq]
    intro page h1 h2
    exact h.zero page (by omega) (by simp only [totalPages]; omega)

theorem cleared_nil (m : Mm) (k : Nat) : cleared m k 0 = m := by
  have htab : (cleared m k 0).pagusrTable = m.pagusrTable := by
    funext j
    exact if_neg (by omega)
  change { m with pagusrTable := (cleared m k 0).pagusrTable } = m
  rw [htab]

theorem cleared_delSsPag (m : Mm) {page k : Nat} (hk : pt * totalPages + page = k + n) :
    cleared (m.delSsPag pt page) k n = cleared m k (n + 1) := by
  have htab : (cleared (m.delSsPag pt page) k n).pagusrTable = (cleared m k (n + 1)).pagusrTable := by
    funext j
    change (if k ≤ j ∧ j < k + n then .zero else (m.setEntry pt page .zero).pagusrTable j) =
      if k ≤ j ∧ j < k + (n + 1) then .zero else m.pagusrTable j
    rw [setEntry_table, hk]
    by_cases hj : k ≤ j ∧ j < k + n
    · rw [if_pos hj, if_pos (by omega)]
    · rw [if_neg hj]
      refine if_congr ?_ rfl rfl
      omega
  change { m with pagusrTable := (cleared (m.delSsPag pt page) k n).pagusrTable } = _
  rw [htab]
  rfl

/-- The loop that makes a heap smaller removes the pages above the one with the new end, and not that one. -/
theorem sbrkShrink_eq {new b : Nat} (hn : new / pageSize = b) (hb : heapPage ≤ b) : ∀ {d fuel : Nat} {m : Mm},
    b + d ≤ totalPages → sbrkShrink pt new (fuel + d + 1) (pageSize * (b + d)) m =
      some (pageSize * b, cleared m (pt * totalPages + (b + 1)) d) := by
  intro d
  induction d with
  | zero =>
    intro fuel m _
    unfold sbrkShrink
    rw [if_neg (by simp only [pageSize] at *; omega), cleared_nil]
    rfl
  | succ d ih =>
    intro fuel m hlt
    have hh := heapPage_eq
    have hd : dataEnd = 284 * pageSize := rfl
    simp only [totalPages] at hlt
    have hsub : subPage (pageSize * (b + (d + 1))) = pageSize * (b + d) := by
      simp only [subPage, pageSize]
      omega
    have hpage : pageSize * (b + (d + 1)) / pageSize = b + 1 + d := by
      simp only [pageSize]
      omega
    unfold sbrkShrink
    rw [if_pos (by simp only [pageSize] at *; omega), if_pos (by simp only [pageSize] at *; omega), sbrkDelPage_eq, hsub,
      hpage]
    change sbrkShrink pt new (fuel + d + 1) _ _ = _
    rw [ih (by simp only [totalPages]; omega), cleared_delSsPag m (by omega)]

theorem sbrkHeap_shrink (m : Mm) (pt : Nat) (ho : HeapPtr old) (hsize : size < 0) (hmin : -2 ^ 31 ≤ size) :
    sbrkHeap pt initHeap old size m =
      if (old + size : Int) < 0 then some (old, old, m)
      else if (old + size : Int) < initHeap then some (0, old, m)
      else some (old, pageSize * ((old + size).toNat / pageSize),
        cleared m (pt * totalPages + ((old + size).toNat / pageSize + 1)) (old / pageSize - (old + size).toNat / pageSize)) := by
  have hge := ho.ge
  have hle := ho.le
  have hal := ho.aligned
  have hh : initHeap = 304 * 4096 := rfl
  simp only [totalPages, pageSize] at hle hal
  unfold sbrkHeap
  dsimp only
  rcases Int.lt_or_le (old + size) 0 with hneg | hpos
  · have hnew : old ≤ ((old + size) % 2 ^ 32).toNat := by omega
    rw [if_pos hneg, if_neg (by omega), if_neg (by omega), show pointerRounds = 2 ^ 20 + 1 from rfl]
    unfold sbrkShrink
    rw [if_neg (by omega)]
    rfl
  have hnew : (old + size) % 2 ^ 32 = old + size := by omega
  rw [hnew, if_neg (Int.not_lt.mpr hpos)]
  rcases Int.lt_or_le (old + size) initHeap with hlow | hhigh
  · rw [if_pos hlow, if_pos (show (old + size : Int).toNat < initHeap by omega)]
    rfl
  rw [if_neg (Int.not_lt.mpr hhigh), if_neg (show ¬ (old + size : Int).toNat < initHeap by omega), if_neg (Int.not_lt.mpr hsize.le)]
  generalize hn : (old + size).toNat = new
  have hold : old = pageSize * (new / pageSize + (old / pageSize - new / pageSize)) := by
    simp only [pageSize]
    omega
  have hshrink : sbrkShrink pt new (2 ^ 20 - (old / pageSize - new / pageSize) + (old / pageSize - new / pageSize) + 1)
      (pageSize * (new / pageSize + (old / pageSize - new / pageSize))) m =
      some (pageSize * (new / pageSize), cleared m (pt * totalPages + (new / pageSize + 1)) (old / pageSize - new / pageSize)) :=
    sbrkShrink_eq rfl (by simp only [heapPage, hh, pageSize]; omega) (by simp only [totalPages, pageSize]; omega)
  rw [← hold, show 2 ^ 20 - (old / pageSize - new / pageSize) + (old / pageSize - new / pageSize) + 1 = 2 ^ 20 + 1 by
    simp only [pageSize]; omega] at hshrink
  rw [show pointerRounds = 2 ^ 20 + 1 from rfl, hshrink]
  rfl

end

/-! ## Many calls -/

namespace Kernel

/-- The heap of `t` as `init_task1` leaves it. From `INIT_HEAP` on no page is mapped: the entries are the zero words that the
loader leaves, which a rollback puts back. -/
structure EmptyHeap (s : Kernel) (t : TaskId) (pt : Nat) : Prop where
  dir : s.getPT t = some pt
  start : (s.task t).heapStartProc = initHeap
  pointer : (s.task t).heapPointerProc = initHeap
  zero : ∀ page, heapPage ≤ page → page < totalPages → s.mm.entry pt page = .zero
  code : s.mm.physMem numPagKernel = .used

/-- What the other processes may do between two calls of `t`, whose table is in row `pt`: anything but change
the fields of `t` that describe its heap, the pages of that heap and the use of the frames behind them. -/
structure Others (t : TaskId) (pt : Nat) (s s' : Kernel) : Prop where
  dir : s'.getPT t = s.getPT t
  start : (s'.task t).heapStartProc = (s.task t).heapStartProc
  pointer : (s'.task t).heapPointerProc = (s.task t).heapPointerProc
  entry : ∀ page, heapPage ≤ page → page < totalPages → s'.mm.entry pt page = s.mm.entry pt page
  frame : ∀ page, heapPage ≤ page → page < totalPages → (s.mm.entry pt page).present = true →
    s'.mm.physMem (s.mm.getFrame pt page) = s.mm.physMem (s.mm.getFrame pt page)
  code : s'.mm.physMem numPagKernel = .used

/-- Calls of `sys_sbrk` by `t` with sizes in `P`, and what the others do in between. -/
inductive SbrkRun (t : TaskId) (pt : Nat) (P : Int → Prop) : Kernel → Kernel → Prop
  | refl (s : Kernel) : SbrkRun t pt P s s
  | sbrk {s s₁ s₂ : Kernel} {size : Int} {ret : Nat} : SbrkRun t pt P s s₁ → s₁.current = t → P size →
      s₁.sysSbrk size = some (ret, s₂) → SbrkRun t pt P s s₂
  | others {s s₁ s₂ : Kernel} : SbrkRun t pt P s s₁ → Others t pt s₁ s₂ → SbrkRun t pt P s s₂

/-- The heap of `t` goes up to the heap pointer, or one page further. -/
structure HasHeap (s : Kernel) (t : TaskId) (pt top : Nat) : Prop where
  dir : s.getPT t = some pt
  start : (s.task t).heapStartProc = initHeap
  ptr : HeapPtr (s.task t).heapPointerProc
  heap : HeapTo s.mm pt top
  le : (s.task t).heapPointerProc / pageSize ≤ top
  lt : top ≤ (s.task t).heapPointerProc / pageSize + 1

section
variable {s s' : Kernel} {t : TaskId} {pt top : Nat} {size : Int} {ret : Nat}

theorem EmptyHeap.hasHeap (h : s.EmptyHeap t pt) : s.HasHeap t pt heapPage := by
  have hpage : (s.task t).heapPointerProc / pageSize = heapPage := by rw [h.pointer]
  refine ⟨h.dir, h.start, ⟨?_, ?_, ?_⟩, ⟨Nat.le_refl _, ?_, ?_, ?_, ?_, h.zero, h.code⟩, by rw [hpage], by rw [hpage]; omega⟩
  · rw [h.pointer]
  · rw [h.pointer]
    decide
  · rw [h.pointer]
    rfl
  · intro page h1 h2
    omega
  · intro page h1 h2
    omega
  · intro page h1 h2
    omega
  · intro p q h1 h2
    omega

theorem HasHeap.others (h : s.HasHeap t pt top) (ho : Others t pt s s') : s'.HasHeap t pt top := by
  have hroom := h.heap.room
  refine ⟨ho.dir.trans h.dir, ho.start.trans h.start, by rw [ho.pointer]; exact h.ptr, ?_, by rw [ho.pointer]; exact h.le,
    by rw [ho.pointer]; exact h.lt⟩
  refine h.heap.congr ho.entry (fun page h1 h2 => ?_) ho.code
  rw [ho.frame page h1 (by simp only [totalPages]; omega) (h.heap.present page h1 h2)]
  exact h.heap.used page h1 h2

theorem HasHeap.sysSbrk_eq (h : s.HasHeap t pt top) (hcur : s.current = t) (hsize : size ≠ 0) :
    s.sysSbrk size = (sbrkHeap pt initHeap (s.task t).heapPointerProc size s.mm).map
      fun r => (r.1, (s.setMm r.2.2).setHeapPointer t r.2.1) := by
  subst hcur
  unfold sysSbrk
  dsimp only
  rw [if_neg hsize, h.dir, h.start, Option.map_eq_bind]
  rfl

theorem HasHeap.set (h : s.HasHeap t pt top) {hp top' : Nat} {m : Mm} (ho : HeapPtr hp) (hm : HeapTo m pt top')
    (hle : hp / pageSize ≤ top') (hlt : top' ≤ hp / pageSize + 1) : ((s.setMm m).setHeapPointer t hp).HasHeap t pt top' := by
  have htask : (((s.setMm m).setHeapPointer t hp).task t) = { s.task t with heapPointerProc := hp } := by
    simp [setHeapPointer, modTask]
  refine ⟨?_, ?_, ?_, hm, ?_, ?_⟩
  · change (((s.setMm m).setHeapPointer t hp).task t).dirPagesBaseAddr = _
    rw [htask]
    exact h.dir
  · rw [htask]
    exact h.start
  · rw [htask]
    exact ho
  · rw [htask]
    exact hle
  · rw [htask]
    exact hlt

theorem setHeapPointer_pointer (s : Kernel) (t : TaskId) (hp : Nat) :
    ((s.setHeapPointer t hp).task t).heapPointerProc = hp := by
  simp [setHeapPointer, modTask]

theorem HasHeap.grow (h : s.HasHeap t pt top) (hcur : s.current = t) (h0 : 0 ≤ size) (hmax : size ≤ intMax) :
    ∃ ret s', s.sysSbrk size = some (ret, s') ∧
      (∃ top', s'.HasHeap t pt top' ∧ (top = (s.task t).heapPointerProc / pageSize →
        top' = (s'.task t).heapPointerProc / pageSize)) ∧
      (ret = (s.task t).heapPointerProc ∧ ((s.task t).heapPointerProc + size : Int) ≤ (s'.task t).heapPointerProc ∨
        ret = 0 ∧ (s'.task t).heapPointerProc = (s.task t).heapPointerProc ∧ s'.mm.physMem = s.mm.physMem ∧
          (top = (s.task t).heapPointerProc / pageSize → s'.mm.pagusrTable = s.mm.pagusrTable)) := by
  rcases Int.le_iff_lt_or_eq.mp h0 with hpos | rfl
  swap
  · refine ⟨(s.task t).heapPointerProc, s, ?_, ⟨top, h, id⟩, .inl ⟨rfl, by omega⟩⟩
    subst hcur
    rfl
  obtain ⟨⟨ret, hp, m⟩, hr⟩ := sbrkHeap_isSome s.mm pt h.ptr hpos hmax
  obtain ⟨hptr, ⟨top', hheap, hle, hlt, hclean⟩, hcase⟩ := h.heap.growth h.ptr h.le h.lt hpos hmax hr
  refine ⟨ret, (s.setMm m).setHeapPointer t hp, ?_, ⟨top', h.set hptr hheap hle hlt, ?_⟩, ?_⟩
  · rw [h.sysSbrk_eq hcur hpos.ne', hr]
    rfl
  · rw [setHeapPointer_pointer]
    exact hclean
  · rw [setHeapPointer_pointer]
    exact hcase

theorem HasHeap.shrink (h : s.HasHeap t pt top) (hcur : s.current = t) (hsize : size < 0) (hmin : -2 ^ 31 ≤ size) :
    s.sysSbrk size = some (
      if ((s.task t).heapPointerProc + size : Int) < 0 then ((s.task t).heapPointerProc, s)
      else if ((s.task t).heapPointerProc + size : Int) < initHeap then (0, s)
      else ((s.task t).heapPointerProc, (s.setMm (cleared s.mm (pt * totalPages +
          (((s.task t).heapPointerProc + size).toNat / pageSize + 1))
          ((s.task t).heapPointerProc / pageSize - ((s.task t).heapPointerProc + size).toNat / pageSize))).setHeapPointer t
        (pageSize * (((s.task t).heapPointerProc + size).toNat / pageSize)))) := by
  have hsame : (s.setMm s.mm).setHeapPointer t (s.task t).heapPointerProc = s := by
    unfold setHeapPointer modTask setMm
    rw [Function.update_eq_self]
  rw [h.sysSbrk_eq hcur hsize.ne, sbrkHeap_shrink s.mm pt h.ptr hsize hmin]
  split
  · rw [Option.map_some, hsame]
  · split
    · rw [Option.map_some, hsame]
    · rfl

/-- A smaller heap has the page of its end, although the heap pointer is at the start of that page. -/
theorem HasHeap.shrunk (h : s.HasHeap t pt top) (hcur : s.current = t) (hsize : size < 0) (hmin : -2 ^ 31 ≤ size)
    (hs : s.sysSbrk size = some (ret, s')) : ∃ top', s'.HasHeap t pt top' := by
  rw [h.shrink hcur hsize hmin] at hs
  have hs := Option.some.inj hs
  split at hs
  · obtain ⟨-, rfl⟩ := Prod.mk.inj hs
    exact ⟨top, h⟩
  split at hs
  · obtain ⟨-, rfl⟩ := Prod.mk.inj hs
    exact ⟨top, h⟩
  · rename_i hneg hlow
    obtain ⟨-, rfl⟩ := Prod.mk.inj hs
    have hroom := h.heap.room
    have hle := h.le
    have hlt := h.lt
    have hal := h.ptr.aligned
    have hi : initHeap = 304 * 4096 := rfl
    generalize (s.task t).heapPointerProc = old at *
    generalize hn : (old + size).toNat = new
    simp only [pageSize] at *
    refine ⟨new / 4096 + 1, h.set ⟨?_, ?_, ?_⟩ ?_ ?_ ?_⟩
    · rw [hi]
      omega
    · simp only [totalPages, pageSize]
      omega
    · simp only [pageSize]
      omega
    · refine h.heap.cleared ?_ ?_ ?_ ?_
      · have hh := heapPage_eq
        omega
      · omega
      · omega
      · simp only [totalPages]
        omega
    · simp only [pageSize]
      omega
    · simp only [pageSize]
      omega

/-- Whatever sizes the calls have, the heap keeps its shape, up to the page at the heap pointer. -/
theorem SbrkRun.hasHeap {P : Int → Prop} (hP : ∀ n, P n → -2 ^ 31 ≤ n ∧ n ≤ intMax) (h₀ : s.EmptyHeap t pt)
    (hr : SbrkRun t pt P s s') : ∃ top, s'.HasHeap t pt top := by
  induction hr with
  | refl => exact ⟨_, h₀.hasHeap⟩
  | @sbrk s₁ s₂ size ret _ hcur hsize hs ih =>
    obtain ⟨top, h⟩ := ih
    obtain ⟨hmin, hmax⟩ := hP size hsize
    rcases Int.lt_or_le size 0 with hneg | hpos
    · exact h.shrunk hcur hneg hmin hs
    · obtain ⟨ret', s', hs', ⟨top', h', -⟩, -⟩ := h.grow hcur hpos hmax
      rw [hs] at hs'
      cases hs'
      exact ⟨top', h'⟩
  | others _ ho ih =>
    obtain ⟨top, h⟩ := ih
    exact ⟨top, h.others ho⟩

/-- As long as no call asks for less, no page is mapped above the heap pointer. -/
theorem SbrkRun.grown (h₀ : s.EmptyHeap t pt) (hr : SbrkRun t pt (fun n => 0 ≤ n ∧ n ≤ intMax) s s') :
    s'.HasHeap t pt ((s'.task t).heapPointerProc / pageSize) := by
  induction hr with
  | refl =>
    rw [h₀.pointer]
    exact h₀.hasHeap
  | sbrk _ hcur hsize hs ih =>
    obtain ⟨ret', s', hs', ⟨top', h', hclean⟩, -⟩ := ih.grow hcur hsize.1 hsize.2
    rw [hs] at hs'
    cases hs'
    rw [← hclean rfl]
    exact h'
  | others _ ho ih =>
    rw [ho.pointer]
    exact ih.others ho

/-! ## Growth -/

/-- From the start of its heap on, the process of `t` has the pages up to the heap pointer, each with a used
frame of its own, and no page above. -/
structure HeapMapped (s : Kernel) (t : TaskId) (pt : Nat) : Prop where
  ptr : HeapPtr (s.task t).heapPointerProc
  mapped : ∀ page, (s.task t).heapStartProc / pageSize ≤ page → page < totalPages →
    ((s.mm.entry pt page).present = true ↔ page < (s.task t).heapPointerProc / pageSize)
  used : ∀ page, (s.task t).heapStartProc / pageSize ≤ page → page < (s.task t).heapPointerProc / pageSize →
    s.mm.physMem (s.mm.getFrame pt page) = .used
  apart : ∀ p q, (s.task t).heapStartProc / pageSize ≤ p → p < (s.task t).heapPointerProc / pageSize →
    (s.task t).heapStartProc / pageSize ≤ q → q < (s.task t).heapPointerProc / pageSize →
    s.mm.getFrame pt p = s.mm.getFrame pt q → p = q

theorem HasHeap.heapMapped (h : s.HasHeap t pt ((s.task t).heapPointerProc / pageSize)) : s.HeapMapped t pt := by
  have hstart : (s.task t).heapStartProc / pageSize = heapPage := by rw [h.start]
  refine ⟨h.ptr, ?_, ?_, ?_⟩
  · intro page h1 h2
    rw [hstart] at h1
    refine ⟨fun hp => ?_, h.heap.present page h1⟩
    by_contra hge
    rw [h.heap.zero page (Nat.le_of_not_lt hge) h2] at hp
    cases hp
  · rw [hstart]
    exact h.heap.used
  · rw [hstart]
    exact h.heap.inj

/-- The pages whose entries a call for more heap writes. -/
def sbrkPages (s : Kernel) (pt : Nat) (size : Int) : List Nat :=
  let c := s.task s.current
  if 0 < size ∧ SbrkFits c.heapStartProc c.heapPointerProc size then
    growPages pt c.heapPointerProc ((c.heapPointerProc + size) % 2 ^ 32).toNat pointerRounds c.heapPointerProc s.mm
  else []

theorem sbrkPages_touches (hpt : s.getPT s.current = some pt) (h0 : 0 ≤ size) (hs : s.sysSbrk size = some (ret, s')) :
    Touches (fun k => ∃ page ∈ s.sbrkPages pt size, k = pt * totalPages + page) s.mm s'.mm := by
  unfold sysSbrk at hs
  dsimp only at hs
  split at hs
  · cases hs
    exact .refl _ _
  rename_i hne
  obtain ⟨pt', hpt', hs⟩ := Option.bind_eq_some_iff.mp hs
  obtain rfl : pt = pt' := Option.some.inj (hpt.symm.trans hpt')
  obtain ⟨⟨ret', hp, m⟩, hr, hs⟩ := Option.bind_eq_some_iff.mp hs
  cases hs
  change Touches _ s.mm m
  have hpos : 0 < size := by omega
  unfold sbrkPages
  dsimp only
  by_cases hfit : SbrkFits (s.task s.current).heapStartProc (s.task s.current).heapPointerProc size
  swap
  · rw [sbrkHeap_refused hpos hfit] at hr
    cases hr
    exact .refl _ _
  rw [if_pos ⟨hpos, hfit⟩]
  unfold sbrkHeap at hr
  dsimp only at hr
  rw [if_neg (Nat.not_lt.mpr hfit.1), if_pos hpos, if_neg (Int.not_lt.mpr hfit.2)] at hr
  obtain ⟨⟨ok, hp', m'⟩, hg, hret⟩ := Option.bind_eq_some_iff.mp hr
  cases hret
  exact growPages_touches hg

theorem HasHeap.pages (h : s.HasHeap t pt top) (hcur : s.current = t) {page : Nat} (hp : page ∈ s.sbrkPages pt size) :
    page < totalPages := by
  subst hcur
  have hroom := h.heap.room
  have hle := h.le
  unfold sbrkPages at hp
  dsimp only at hp
  split at hp
  · have := growPages_lt h.ptr (j := 0) (m := s.mm) (by have := freeCount_le s.mm; omega) hp
    simp only [totalPages]
    omega
  · cases hp

end

end Kernel

open Kernel

/-- A process that only asks for more heap has exactly the pages up to its heap pointer after each call, in its
own table. A call writes no entries but those of `sbrkPages`, and one that returns `NULL` has changed nothing. -/
theorem sbrk_grows {s₀ s : Kernel} {t : TaskId} {pt : Nat} (h₀ : s₀.EmptyHeap t pt)
    (hr : SbrkRun t pt (fun n => 0 ≤ n ∧ n ≤ intMax) s₀ s) (hcur : s.current = t) {size : Int} (h0 : 0 ≤ size)
    (hmax : size ≤ intMax) : ∃ ret s', s.sysSbrk size = some (ret, s') ∧ s'.HeapMapped t pt ∧
      (∀ page ∈ s.sbrkPages pt size, page < totalPages) ∧
      Touches (fun k => ∃ page ∈ s.sbrkPages pt size, k = pt * totalPages + page) s.mm s'.mm ∧
      (ret = (s.task t).heapPointerProc ∧
          (∀ a : Nat, ret ≤ a → (a : Int) < ret + size → (s'.mm.translate pt (a / pageSize)).isSome = true) ∨
        ret = 0 ∧ (s'.task t).heapPointerProc = (s.task t).heapPointerProc ∧ s'.mm.pagusrTable = s.mm.pagusrTable ∧
          s'.mm.physMem = s.mm.physMem) := by
  have h := hr.grown h₀
  obtain ⟨ret, s', hs, ⟨top, h', hclean⟩, hcase⟩ := h.grow hcur h0 hmax
  rw [hclean rfl] at h'
  have hpt : s.getPT s.current = some pt := hcur ▸ h.dir
  refine ⟨ret, s', hs, h'.heapMapped, fun page hp => h.pages hcur hp, sbrkPages_touches hpt h0 hs, hcase.imp ?_ ?_⟩
  · intro ⟨hret, hend⟩
    refine ⟨hret, fun a ha hlt => ?_⟩
    have hge := h.ptr.ge
    have hal := h'.ptr.aligned
    have hlast : a / pageSize < (s'.task t).heapPointerProc / pageSize := by
      simp only [pageSize] at *
      omega
    have hfirst : heapPage ≤ a / pageSize := Nat.div_le_div_right (by omega)
    rw [translate_of_present (Nat.lt_of_lt_of_le hlast h'.ptr.page_le) (h'.heap.present _ hfirst hlast)]
    rfl
  · intro ⟨hret, hp, hphys, htab⟩
    exact ⟨hret, hp, htab rfl, hphys⟩

theorem boot_emptyHeap (mc : Machine) : (boot mc).EmptyHeap 1 1 where
  dir := rfl
  start := rfl
  pointer := rfl
  zero page h1 h2 := by
    have hh := heapPage_eq
    have hd := pagLogInitData_eq
    rw [(boot_rep mc).mm, boot_user mc (by decide) (by omega) h2, if_neg (by simp only [numPagData]; omega)]
  code := by
    rw [(boot_rep mc).mm]
    exact ((boot_memory mc).2 _ (by decide)).mpr (.inr (by decide))

theorem sbrk_grows_boot : ∃ ret s', (boot .blank).sysSbrk 5000 = some (ret, s') ∧ s'.HeapMapped 1 1 ∧
    (∀ page ∈ (boot .blank).sbrkPages 1 5000, page < totalPages) ∧
    Touches (fun k => ∃ page ∈ (boot .blank).sbrkPages 1 5000, k = 1 * totalPages + page) (boot .blank).mm s'.mm ∧
    (ret = ((boot .blank).task 1).heapPointerProc ∧
        (∀ a : Nat, ret ≤ a → (a : Int) < ret + 5000 → (s'.mm.translate 1 (a / pageSize)).isSome = true) ∨
      ret = 0 ∧ (s'.task 1).heapPointerProc = ((boot .blank).task 1).heapPointerProc ∧
        s'.mm.pagusrTable = (boot .blank).mm.pagusrTable ∧ s'.mm.physMem = (boot .blank).mm.physMem) :=
  sbrk_grows (boot_emptyHeap .blank) (.refl _) rfl (by decide) (by decide)

/-! ## Shrinking -/

namespace Kernel

/-- The end of the heap that a call asks for, as an integer. -/
def newBreak (s : Kernel) (t : TaskId) (size : Int) : Int := (s.task t).heapPointerProc + size

/-- A call for less heap undoes growth: an end below the heap is refused, and otherwise the pages at or above the new
end are gone and their frames free, and that is all. -/
structure ShrinkUndoes (s : Kernel) (t : TaskId) (pt : Nat) (size : Int) (ret : Nat) (s' : Kernel) : Prop where
  refused : s.newBreak t size < initHeap → ret = 0 ∧ s' = s
  gone : initHeap ≤ s.newBreak t size → ∀ page < totalPages, s.newBreak t size ≤ (page * pageSize : Nat) →
    (s'.mm.entry pt page).present = false ∧
      ((s.mm.entry pt page).present = true → s'.mm.physMem (s.mm.getFrame pt page) = .free)
  kept : initHeap ≤ s.newBreak t size → ∀ k, (∀ page < totalPages, s.newBreak t size ≤ (page * pageSize : Nat) →
    k ≠ pt * totalPages + page) → s'.mm.pagusrTable k = s.mm.pagusrTable k
  frames : initHeap ≤ s.newBreak t size → ∀ f, (∀ page < totalPages, s.newBreak t size ≤ (page * pageSize : Nat) →
    (s.mm.entry pt page).present = true → s.mm.getFrame pt page ≠ f) → s'.mm.physMem f = s.mm.physMem f
  pointer : initHeap ≤ s.newBreak t size → (pageSize : Int) ∣ s.newBreak t size →
    ((s'.task t).heapPointerProc : Int) = s.newBreak t size
  rest : s' = (s.setMm { s'.mm with ram := s.mm.ram }).setHeapPointer t (s'.task t).heapPointerProc

/-- Nothing is to be given back: the new end is below the heap but not below zero, or else less than a page
below the heap pointer, and the page at the heap pointer is not mapped. -/
def NothingToFree (s : Kernel) (t : TaskId) (pt : Nat) (size : Int) : Prop :=
  0 ≤ s.newBreak t size ∧ s.newBreak t size < initHeap ∨
    initHeap ≤ s.newBreak t size ∧ -pageSize < size ∧
      (s.mm.entry pt ((s.task t).heapPointerProc / pageSize)).present = false

section
variable {s s' : Kernel} {t : TaskId} {pt top : Nat} {size : Int} {ret : Nat}

theorem HasHeap.moves (h : s.HasHeap t pt top) (hcur : s.current = t) (hsize : size < 0) (hmin : -2 ^ 31 ≤ size)
    (hlow : initHeap ≤ s.newBreak t size) (hs : s.sysSbrk size = some (ret, s')) :
    s' = (s.setMm s'.mm).setHeapPointer t (pageSize * ((s.newBreak t size).toNat / pageSize)) ∧
      s'.mm = cleared s.mm (pt * totalPages + ((s.newBreak t size).toNat / pageSize + 1))
        ((s.task t).heapPointerProc / pageSize - (s.newBreak t size).toNat / pageSize) := by
  unfold newBreak at hlow ⊢
  rw [h.shrink hcur hsize hmin, if_neg (by omega), if_neg (Int.not_lt.mpr hlow)] at hs
  obtain ⟨-, rfl⟩ := Prod.mk.inj (Option.some.inj hs)
  exact ⟨rfl, rfl⟩

/-- The loop leaves the use of every frame as it was, so that a mapped page above the new end keeps its frame. -/
theorem HasHeap.small_of_undone (h : s.HasHeap t pt top) (hcur : s.current = t) (hsize : size < 0) (hmin : -2 ^ 31 ≤ size)
    (hlow : initHeap ≤ s.newBreak t size) (hs : s.sysSbrk size = some (ret, s')) (hu : s.ShrinkUndoes t pt size ret s') :
    -pageSize < size ∧ (s.mm.entry pt ((s.task t).heapPointerProc / pageSize)).present = false := by
  have hroom := h.heap.room
  have hle := h.le
  have hge := h.ptr.ge
  have hal := h.ptr.aligned
  have hi : initHeap = 304 * 4096 := rfl
  have hh := heapPage_eq
  have hphys : s'.mm.physMem = s.mm.physMem := by
    rw [(h.moves hcur hsize hmin hlow hs).2]
    rfl
  have hbelow : ∀ page, heapPage ≤ page → page < top → ¬ s.newBreak t size ≤ (page * pageSize : Nat) := by
    intro page h1 h2 hb
    have hfree := (hu.gone hlow page (by simp only [totalPages]; omega) hb).2 (h.heap.present page h1 h2)
    rw [hphys, h.heap.used page h1 h2] at hfree
    cases hfree
  constructor
  · by_contra hbig
    unfold newBreak at hbelow hlow
    simp only [pageSize] at *
    apply hbelow ((s.task t).heapPointerProc / 4096 - 1)
    · omega
    · omega
    · omega
  · rw [h.heap.zero]
    · rfl
    · by_contra hmapped
      apply hbelow ((s.task t).heapPointerProc / pageSize) h.ptr.page (Nat.lt_of_not_le hmapped)
      unfold newBreak
      simp only [pageSize] at *
      omega
    · simp only [totalPages]
      omega

theorem HasHeap.undone_of_small (h : s.HasHeap t pt top) (hcur : s.current = t) (hsize : size < 0) (hmin : -2 ^ 31 ≤ size)
    (hlow : initHeap ≤ s.newBreak t size) (hs : s.sysSbrk size = some (ret, s')) (hsmall : -pageSize < size)
    (hpage : (s.mm.entry pt ((s.task t).heapPointerProc / pageSize)).present = false) :
    s.ShrinkUndoes t pt size ret s' := by
  have hle := h.le
  have hlt := h.lt
  have hroom := h.heap.room
  have hal := h.ptr.aligned
  obtain ⟨hs', hm⟩ := h.moves hcur hsize hmin hlow hs
  have hphys : s'.mm.physMem = s.mm.physMem := by
    rw [hm]
    rfl
  -- the page at the heap pointer is the only one that the loop takes out
  have hone : (s.task t).heapPointerProc / pageSize = (s.newBreak t size).toNat / pageSize + 1 := by
    unfold newBreak at *
    simp only [pageSize] at *
    omega
  have habove : ∀ page, page < totalPages → s.newBreak t size ≤ (page * pageSize : Nat) →
      (s.mm.entry pt page).present = false := by
    intro page hp hb
    have hge : (s.task t).heapPointerProc / pageSize ≤ page := by
      unfold newBreak at *
      simp only [pageSize] at *
      omega
    rcases Nat.lt_or_eq_of_le hge with hgt | rfl
    · rw [h.heap.zero page (by omega) hp]
      rfl
    · exact hpage
  refine ⟨fun hb => ?_, fun _ page hp hb => ⟨?_, fun hpr => ?_⟩, fun _ k hk => ?_, fun _ f _ => ?_, fun _ hdvd => ?_, ?_⟩
  · exact absurd hlow (Int.not_le.mpr hb)
  · rw [hm, cleared_entry_lt _ (by simp only [totalPages]; omega) hp]
    split
    · rfl
    · exact habove page hp hb
  · rw [habove page hp hb] at hpr
    cases hpr
  · rw [hm]
    refine if_neg fun hin => hk ((s.task t).heapPointerProc / pageSize) ?_ ?_ ?_
    · simp only [totalPages]
      omega
    · unfold newBreak
      simp only [pageSize] at *
      omega
    · omega
  · rw [hphys]
  · unfold newBreak at hdvd
    simp only [pageSize] at *
    omega
  · have hram : s'.mm.ram = s.mm.ram := by
      rw [hm]
      rfl
    have hp : (s'.task t).heapPointerProc = pageSize * ((s.newBreak t size).toNat / pageSize) := by
      rw [hs', setHeapPointer_pointer]
    rw [hp, ← hram]
    exact hs'

theorem HasHeap.shrinks_iff (h : s.HasHeap t pt top) (hcur : s.current = t) (hsize : size < 0) (hmin : -2 ^ 31 ≤ size)
    (hs : s.sysSbrk size = some (ret, s')) : s.ShrinkUndoes t pt size ret s' ↔ s.NothingToFree t pt size := by
  rcases Int.lt_or_le (s.newBreak t size) initHeap with hlow | hlow
  swap
  · constructor
    · intro hu
      exact .inr ⟨hlow, h.small_of_undone hcur hsize hmin hlow hs hu⟩
    · rintro (⟨-, hn⟩ | ⟨-, hsmall, hpage⟩)
      · exact absurd hlow (Int.not_le.mpr hn)
      · exact h.undone_of_small hcur hsize hmin hlow hs hsmall hpage
  rw [h.shrink hcur hsize hmin] at hs
  have hge := h.ptr.ge
  have hi : initHeap = 304 * 4096 := rfl
  have hs := Option.some.inj hs
  split at hs
  · -- the new end has wrapped around
    rename_i hneg
    obtain ⟨rfl, rfl⟩ := Prod.mk.inj hs
    constructor
    · intro hu
      have := (hu.refused hlow).1
      omega
    · rintro (⟨hn, -⟩ | ⟨hn, -⟩)
      · exact absurd hneg (Int.not_lt.mpr hn)
      · exact absurd hlow (Int.not_lt.mpr hn)
  · rename_i hneg
    rw [if_pos (show ((s.task t).heapPointerProc + size : Int) < initHeap from hlow)] at hs
    obtain ⟨rfl, rfl⟩ := Prod.mk.inj hs
    refine iff_of_true ⟨fun _ => ⟨rfl, rfl⟩, fun hb => ?_, fun hb => ?_, fun hb => ?_, fun hb => ?_, ?_⟩
      (.inl ⟨Int.not_lt.mp hneg, hlow⟩)
    · exact absurd hlow (Int.not_lt.mpr hb)
    · exact absurd hlow (Int.not_lt.mpr hb)
    · exact absurd hlow (Int.not_lt.mpr hb)
    · exact absurd hlow (Int.not_lt.mpr hb)
    · unfold setHeapPointer modTask setMm
      rw [Function.update_eq_self]

end

end Kernel

/-- After any calls of any sizes, a call for less heap undoes growth if and only if it has nothing to free. -/
theorem sbrk_shrinks_iff {s₀ s : Kernel} {t : TaskId} {pt : Nat} (h₀ : s₀.EmptyHeap t pt)
    (hr : SbrkRun t pt (fun n => -2 ^ 31 ≤ n ∧ n ≤ intMax) s₀ s) (hcur : s.current = t) {size : Int} (hsize : size < 0)
    (hmin : -2 ^ 31 ≤ size) : ∃ ret s', s.sysSbrk size = some (ret, s') ∧
      (s.ShrinkUndoes t pt size ret s' ↔ s.NothingToFree t pt size) := by
  obtain ⟨top, h⟩ := hr.hasHeap (fun n hn => hn) h₀
  have hs := h.shrink hcur hsize hmin
  exact ⟨_, _, hs, h.shrinks_iff hcur hsize hmin hs⟩

/-- Task 1 gets two pages of heap and gives back less than one. -/
theorem sbrk_shrinks_part : ∃ p s ret s', (boot .blank).sysSbrk 5000 = some (p, s) ∧
    (s.task 1).heapPointerProc = 306 * pageSize ∧ s.sysSbrk (-100) = some (ret, s') ∧ s.ShrinkUndoes 1 1 (-100) ret s' := by
  have hrun : ((boot .blank).sysSbrk 5000).any (fun r => decide (r.2.current = 1 ∧
      (r.2.task 1).heapPointerProc = 306 * pageSize ∧ (r.2.mm.entry 1 306).present = false)) = true := by
    decide +kernel
  obtain ⟨⟨p, s⟩, hs, hd⟩ := (Option.any_eq_true _ _).mp hrun
  obtain ⟨hcur, hp, hmapped⟩ := of_decide_eq_true hd
  obtain ⟨ret, s', hs', hiff⟩ := sbrk_shrinks_iff (boot_emptyHeap .blank) (.sbrk (.refl _) rfl (by decide) hs) hcur
    (by decide : (-100 : Int) < 0) (by decide)
  refine ⟨p, s, ret, s', hs, hp, hs', hiff.mpr (.inr ⟨?_, by decide, ?_⟩)⟩
  · rw [newBreak, hp]
    decide
  · rw [hp]
    exact hmapped

/-- Task 1 gets a page of heap and gives it back, and the page stays mapped. -/
theorem sbrk_leaks : ∃ p s ret s', (boot .blank).EmptyHeap 1 1 ∧ (boot .blank).sysSbrk 4096 = some (p, s) ∧
    SbrkRun 1 1 (fun n => -2 ^ 31 ≤ n ∧ n ≤ intMax) (boot .blank) s ∧ s.current = 1 ∧
    s.sysSbrk (-4096) = some (ret, s') ∧ ¬ s.ShrinkUndoes 1 1 (-4096) ret s' := by
  have hrun : ((boot .blank).sysSbrk 4096).any (fun r => decide (r.2.current = 1 ∧
      (r.2.task 1).heapPointerProc = 305 * pageSize ∧
      (r.2.sysSbrk (-4096)).any (fun r' => decide ((r'.2.mm.entry 1 304).present = true)) = true)) = true := by
    decide +kernel
  obtain ⟨⟨p, s⟩, hs, hd⟩ := (Option.any_eq_true _ _).mp hrun
  obtain ⟨hcur, hp, hd⟩ := of_decide_eq_true hd
  obtain ⟨⟨ret, s'⟩, hs', hd⟩ := (Option.any_eq_true _ _).mp hd
  have hpresent := of_decide_eq_true hd
  refine ⟨p, s, ret, s', boot_emptyHeap .blank, hs, .sbrk (.refl _) rfl (by decide) hs, hcur, hs', fun hu => ?_⟩
  have hnew : s.newBreak 1 (-4096) = 304 * pageSize := by
    unfold newBreak
    rw [hp]
    rfl
  have hgone := (hu.gone (by rw [hnew]; decide) 304 (by decide) (by rw [hnew]; decide)).1
  rw [hpresent] at hgone
  cases hgone

end ZeosSOA.Sysenter
