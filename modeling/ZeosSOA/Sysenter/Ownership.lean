import ZeosSOA.Sysenter.Frames
import ZeosSOA.Sysenter.Heap
import ZeosSOA.Sysenter.Reach

/-!
# ZeOSSysenter: one page a frame

In every reachable state, whatever the calls, each data page and each heap page that is
mapped in some table has a frame of its own, which is in use. Only the window of `sys_fork`
between the two can hold a frame a second time.
-/

namespace ZeosSOA.Sysenter

open Mm Runs

/-- The pages that get a frame from `alloc_frame`: data, heap and the stacks of threads. -/
def OwnPage (page : Nat) : Prop :=
  pagLogInitData ≤ page ∧ page < pagLogInitData + numPagData ∨ heapPage ≤ page ∧ page < totalPages

/-- Which frames the entries of the tables name. -/
structure Owned (m : Mm) : Prop where
  code : ∀ f ∈ candidates, f < firstDataFrame → m.physMem f = .used
  low : ∀ pt < nrTasks, ∀ page < pagLogInitData, (m.entry pt page).pbaseAddr < firstDataFrame
  null : ∀ pt ≤ nrTasks, (m.entry pt 0).pbaseAddr = 0
  blank : ∀ pt < nrTasks, ∀ page, pagLogInitData ≤ page → page < totalPages →
    m.entry pt page = .zero ∨ (m.entry pt page).present = true
  frame : ∀ pt < nrTasks, ∀ page, OwnPage page → (m.entry pt page).present = true →
    (m.entry pt page).pbaseAddr ∈ candidates ∧ firstDataFrame ≤ (m.entry pt page).pbaseAddr ∧
      m.physMem (m.entry pt page).pbaseAddr = .used
  inj : ∀ pt < nrTasks, ∀ page, OwnPage page → (m.entry pt page).present = true →
    ∀ pt' < nrTasks, ∀ page', OwnPage page' → (m.entry pt' page').present = true →
    (m.entry pt page).pbaseAddr = (m.entry pt' page').pbaseAddr → pt = pt' ∧ page = page'

section
variable {m m' : Mm} {pt page : Nat}

theorem OwnPage.lt (h : OwnPage page) : page < totalPages := by
  rcases h with h | h
  · simp only [pagLogInitData_eq, numPagData, totalPages] at *
    omega
  · exact h.2

theorem OwnPage.ge (h : OwnPage page) : pagLogInitData ≤ page := by
  rcases h with h | h
  · exact h.1
  · have hd := pagLogInitData_eq
    have hh := heapPage_eq
    omega

theorem ownPage_data {k : Nat} (hk : k < numPagData) : OwnPage (pagLogInitData + k) := .inl ⟨by omega, by omega⟩

theorem Owned.congr (h : Owned m) (ht : m'.pagusrTable = m.pagusrTable) (hp : m'.physMem = m.physMem) : Owned m' := by
  have he : m'.entry = m.entry := by
    funext pt page
    rw [entry, entry, ht]
  have hc := h.code
  have hl := h.low
  have hn := h.null
  have hb := h.blank
  have hf := h.frame
  have hi := h.inj
  rw [← hp] at hc hf
  rw [← he] at hl hn hb hf hi
  exact ⟨hc, hl, hn, hb, hf, hi⟩

theorem Owned.codeUsed (h : Owned m) : m.physMem numPagKernel = .used :=
  h.code _ (mem_candidates.mpr ⟨le_rfl, by decide, by decide⟩) (by decide)

theorem cleared_entry (m : Mm) (k₀ n pt page : Nat) : (cleared m k₀ n).entry pt page = .zero ∨
    (cleared m k₀ n).entry pt page = m.entry pt page := by
  simp only [entry, cleared]
  split
  · exact .inl rfl
  · exact .inr rfl

theorem Owned.cleared (h : Owned m) (k₀ n : Nat) : Owned (cleared m k₀ n) := by
  have hpresent : ∀ {pt page}, ((ZeosSOA.cleared m k₀ n).entry pt page).present = true →
      (ZeosSOA.cleared m k₀ n).entry pt page = m.entry pt page := by
    intro pt page hp
    rcases cleared_entry m k₀ n pt page with e | e
    · rw [e] at hp
      cases hp
    · exact e
  constructor
  · exact h.code
  · intro pt hpt page hpage
    rcases cleared_entry m k₀ n pt page with e | e <;> rw [e]
    · exact Nat.zero_lt_of_lt (h.low pt hpt page hpage)
    · exact h.low pt hpt page hpage
  · intro pt hpt
    rcases cleared_entry m k₀ n pt 0 with e | e <;> rw [e]
    · rfl
    · exact h.null pt hpt
  · intro pt hpt page h1 h2
    rcases cleared_entry m k₀ n pt page with e | e
    · exact .inl e
    · rw [e]
      exact h.blank pt hpt page h1 h2
  · intro pt hpt page ho hp
    have e := hpresent hp
    rw [e] at hp ⊢
    exact h.frame pt hpt page ho hp
  · intro pt hpt page ho hp pt' hpt' page' ho' hp' heq
    have e := hpresent hp
    have e' := hpresent hp'
    rw [e] at hp heq
    rw [e'] at hp' heq
    exact h.inj pt hpt page ho hp pt' hpt' page' ho' hp' heq

theorem Owned.grown (h : Owned m) {base n : Nat} {fr : Nat → Nat} (hg : Grown m m' (pt * totalPages + base) n fr)
    (hbase : pagLogInitData ≤ base) (hlt : base + n ≤ totalPages) : Owned m' := by
  have hent : ∀ pt' {page}, page < totalPages → m'.entry pt' page = _ := fun pt' _ => hg.entry hlt pt'
  have hfr : ∀ k < n, m.physMem (fr k) ≠ .used := fun k hk e => by rw [hg.free k hk] at e; cases e
  have hold : ∀ {f}, m.physMem f = .used → m'.physMem f = .used := by
    intro f hf
    rw [hg.phys]
    split
    · rfl
    · exact hf
  have hlow : ∀ pt' page, page < pagLogInitData → m'.entry pt' page = m.entry pt' page := by
    intro pt' page hpage
    have hd := pagLogInitData_eq
    rw [hent pt' (by simp only [totalPages]; omega), if_neg (by omega)]
  -- a mapped page has the frame it had, or one of the new ones
  have hcase : ∀ {pt' page}, OwnPage page → (m'.entry pt' page).present = true →
      (pt' = pt ∧ base ≤ page ∧ page < base + n) ∧ (m'.entry pt' page).pbaseAddr = fr (page - base) ∨
        (m.entry pt' page).present = true ∧ m'.entry pt' page = m.entry pt' page := by
    intro pt' page ho hp
    rw [hent pt' ho.lt] at hp ⊢
    split
    · rename_i hin
      exact .inl ⟨hin, rfl⟩
    · rename_i hn
      rw [if_neg hn] at hp
      exact .inr ⟨hp, rfl⟩
  have hdata : ∀ k < n, firstDataFrame ≤ fr k := fun k hk => Nat.le_of_not_lt fun hlt =>
    hfr k hk (h.code _ (hg.cand k hk) hlt)
  constructor
  · exact fun f hf hlt => hold (h.code f hf hlt)
  · intro pt' hpt' page hpage
    rw [hlow pt' page hpage]
    exact h.low pt' hpt' page hpage
  · intro pt' hpt'
    rw [hlow pt' 0 (by decide)]
    exact h.null pt' hpt'
  · intro pt' hpt' page h1 h2
    rw [hent pt' h2]
    split
    · exact .inr rfl
    · exact h.blank pt' hpt' page h1 h2
  · intro pt' hpt' page ho hp
    rcases hcase ho hp with ⟨hin, e⟩ | ⟨hp', e⟩ <;> rw [e]
    · exact ⟨hg.cand _ (by omega), hdata _ (by omega), by rw [hg.phys, if_pos ⟨_, by omega, rfl⟩]⟩
    · obtain ⟨h1, h2, h3⟩ := h.frame pt' hpt' page ho hp'
      exact ⟨h1, h2, hold h3⟩
  · intro p hp1 page ho hp p' hp1' page' ho' hp' e
    rcases hcase ho hp with ⟨hin, e1⟩ | ⟨hp, e1⟩ <;> rcases hcase ho' hp' with ⟨hin', e2⟩ | ⟨hp', e2⟩ <;> rw [e1, e2] at e
    · have := hg.inj _ (by omega) _ (by omega) e
      omega
    · exact absurd (e ▸ (h.frame p' hp1' page' ho' hp').2.2) (hfr _ (by omega))
    · exact absurd (e ▸ (h.frame p hp1 page ho hp).2.2) (hfr _ (by omega))
    · exact h.inj p hp1 page ho hp p' hp1' page' ho' hp' e

theorem Owned.release (h : Owned m) (hpt : pt < nrTasks) (ho : OwnPage page) : Owned (releasePage pt m page) := by
  have hent : ∀ pt' {page'}, page' < totalPages → (releasePage pt m page).entry pt' page' =
      if pt' = pt ∧ page' = page then .zero else m.entry pt' page' := fun pt' _ => releasePage_entry m ho.lt
  have hkeep : ∀ pt' page', page' < totalPages → (pt' = pt ∧ page' = page) ∨
      (releasePage pt m page).entry pt' page' = m.entry pt' page' := by
    intro pt' page' hp'
    by_cases e : pt' = pt ∧ page' = page
    · exact .inl e
    · exact .inr (by rw [hent pt' hp', if_neg e])
  have hpresent : ∀ {pt' page'}, OwnPage page' → ((releasePage pt m page).entry pt' page').present = true →
      ¬ (pt' = pt ∧ page' = page) ∧ (releasePage pt m page).entry pt' page' = m.entry pt' page' := by
    intro pt' page' ho' hp
    rw [hent pt' ho'.lt] at hp ⊢
    split
    · rename_i e
      rw [if_pos e] at hp
      cases hp
    · rename_i e
      exact ⟨e, rfl⟩
  have hd := pagLogInitData_eq
  have hge := ho.ge
  have hlow : ∀ pt' page', page' < pagLogInitData → (releasePage pt m page).entry pt' page' = m.entry pt' page' :=
    fun pt' page' hp' => (hkeep pt' page' (by simp only [totalPages]; omega)).resolve_left (by omega)
  -- a frame below the data frames, or one of another page, keeps its use
  have hphys : ∀ f, (∀ hp : (m.entry pt page).present = true, f ≠ (m.entry pt page).pbaseAddr) →
      (releasePage pt m page).physMem f = m.physMem f := by
    intro f hf
    rw [releasePage_phys, if_neg]
    rintro ⟨e, h256, -⟩
    rcases h.blank pt hpt page hge ho.lt with e' | hp
    · rw [e, e'] at h256
      exact absurd h256 (Nat.not_lt_zero _)
    · exact hf hp e
  constructor
  · intro f hf hlt
    rw [hphys]
    · exact h.code f hf hlt
    · intro hp e
      have := (h.frame pt hpt page ho hp).2.1
      omega
  · intro pt' hpt' page' hp'
    rw [hlow pt' page' hp']
    exact h.low pt' hpt' page' hp'
  · intro pt' hpt'
    rw [hlow pt' 0 (by decide)]
    exact h.null pt' hpt'
  · intro pt' hpt' page' h1 h2
    rcases hkeep pt' page' h2 with ⟨rfl, rfl⟩ | e
    · exact .inl (by rw [hent pt' h2, if_pos ⟨rfl, rfl⟩])
    · rw [e]
      exact h.blank pt' hpt' page' h1 h2
  · intro pt' hpt' page' ho' hp'
    obtain ⟨hne, e⟩ := hpresent ho' hp'
    rw [e] at hp' ⊢
    obtain ⟨h1, h2, h3⟩ := h.frame pt' hpt' page' ho' hp'
    refine ⟨h1, h2, ?_⟩
    rw [hphys]
    · exact h3
    · exact fun hp e => hne (h.inj pt' hpt' page' ho' hp' pt hpt page ho hp e)
  · intro p hp1 q ho1 hq p' hp1' q' ho1' hq' heq
    have e := (hpresent ho1 hq).2
    have e' := (hpresent ho1' hq').2
    rw [e] at hq heq
    rw [e'] at hq' heq
    exact h.inj p hp1 q ho1 hq p' hp1' q' ho1' hq' heq

/-- After a `sys_fork` the data pages of the child have frames that were free. Of the other pages with a frame of
their own none has changed. -/
theorem fork_entry {m1 : Mm} {processPT parentPT heapStart heapPointer : Nat}
    (he : forkAllocData processPT numPagData 0 m = (true, m1))
    (hmap : forkMap processPT parentPT heapStart heapPointer m1 = some m') :
    ∃ fr, Grown m m1 (processPT * totalPages + pagLogInitData) numPagData fr ∧
      ∀ pt page, OwnPage page → m'.entry pt page =
        if pt = processPT ∧ page < pagLogInitData + numPagData then
          { present := true, rw := true, user := true, pbaseAddr := fr (page - pagLogInitData) }
        else m.entry pt page := by
  have hd := pagLogInitData_eq
  have hh := heapPage_eq
  obtain ⟨fr, hg⟩ := forkAllocData_data he
  refine ⟨fr, hg, fun pt page hpage => ?_⟩
  have hp := hpage.lt
  have hge := hpage.ge
  rw [(forkMap_some hmap).1 pt page hp (by rcases hpage with h | h <;> simp only [numPagData] at * <;> omega),
    if_neg (by simp only [numPagKernel, numPagCode] at *; omega), hg.entry (by decide) pt hp]
  exact if_congr (by simp only [hge, true_and]) rfl rfl

/-! ## The calls -/

theorem delSsPag_eq (m : Mm) (pt page : Nat) : m.delSsPag pt page = cleared m (pt * totalPages + page) 1 := by
  unfold delSsPag setEntry cleared
  congr
  funext k
  rw [Function.update_apply]
  exact if_congr (by omega) rfl rfl

theorem releasePage_eq (h : (m.entry pt page).pbaseAddr ≤ numPagKernel) :
    releasePage pt m page = cleared m (pt * totalPages + page) 1 := by
  rw [← delSsPag_eq, releasePage, freeFrame, getFrame, if_neg fun e => Nat.not_lt.mpr h e.1]

theorem Owned.releaseTop (h : Owned m) (hpt : pt < nrTasks) (hge : heapPage ≤ page) (hle : page ≤ totalPages) :
    Owned (releasePage pt m page) := by
  rcases Nat.lt_or_eq_of_le hle with hlt | rfl
  · exact h.release hpt (.inr ⟨hge, hlt⟩)
  · have hnext : m.entry pt totalPages = m.entry (pt + 1) 0 := by
      have hk : pt * totalPages + totalPages = (pt + 1) * totalPages + 0 := by
        simp only [totalPages]
        omega
      unfold entry
      rw [hk]
    rw [releasePage_eq]
    · exact h.cleared _ _
    · rw [hnext, h.null (pt + 1) hpt]
      exact Nat.zero_le _

theorem Owned.releaseData (h : Owned m) (hpt : pt < nrTasks) {n : Nat} (hn : n ≤ numPagData) :
    Owned (releaseData pt n m) := by
  induction n with
  | zero => exact h
  | succ n ih =>
    have hs : Sysenter.releaseData pt (n + 1) m = releasePage pt (Sysenter.releaseData pt n m) (pagLogInitData + n) := by
      rw [Sysenter.releaseData, List.range_succ, List.foldl_append]
      rfl
    rw [hs]
    exact (ih (by omega)).release hpt (ownPage_data (by omega))

theorem Owned.map (h : Owned m) {f : Nat} (hf : f ∈ candidates) (hfree : m.physMem f = .free)
    (hge : pagLogInitData ≤ page) (hlt : page < totalPages) : Owned ((m.setFrame f .used).setSsPag pt page f) :=
  h.grown ((Grown.nil m (pt * totalPages + page) id).snoc (Nat.add_zero _).symm hf hfree) hge (by omega)

theorem Owned.forkAllocData (hpt : pt < nrTasks) {n pag : Nat} (hn : pag + n ≤ numPagData) (h : Owned m) :
    Owned (forkAllocData pt n pag m).2 := by
  induction n generalizing pag m with
  | zero => exact h
  | succ n ih =>
    have hd := pagLogInitData_eq
    unfold Sysenter.forkAllocData
    rcases allocFrame_cases m with ⟨f, hf, hfree, e⟩ | ⟨-, e⟩ <;> rw [e] <;> dsimp only
    · rw [if_pos (by omega)]
      apply ih (by omega)
      exact h.map hf hfree (by omega) (by simp only [numPagData, totalPages] at *; omega)
    · rw [if_neg (by simp)]
      exact h.releaseData hpt (by omega)

theorem Owned.forkMap (h : Owned m) {processPT parentPT hp : Nat} (hpt : parentPT < nrTasks)
    (hle : hp ≤ totalPages * pageSize) (hm : forkMap processPT parentPT initHeap hp m = some m') : Owned m' := by
  have hd := pagLogInitData_eq
  have hh := heapPage_eq
  obtain ⟨hent, hphys⟩ := forkMap_some hm
  have hkept : ∀ pt page, OwnPage page → m'.entry pt page = m.entry pt page := by
    intro pt page ho
    have hlt := ho.lt
    rw [hent pt page hlt (by rcases ho with ho | ho <;> simp only [numPagData] at * <;> omega),
      if_neg (by have := ho.ge; simp only [numPagKernel, numPagCode] at *; omega)]
  have hlow : ∀ pt < nrTasks, ∀ page < pagLogInitData,
      m'.entry pt page = m.entry pt page ∨ (m'.entry pt page).pbaseAddr = (m.entry parentPT page).pbaseAddr := by
    intro pt _ page hpage
    rw [hent pt page (by simp only [totalPages]; omega) (.inl (by omega))]
    split
    · refine .inr (frameBits_natCast ?_)
      have := h.low parentPT hpt page hpage
      simp only [getFrame, firstDataFrame, numPagKernel, numPagCode] at *
      omega
    · exact .inl rfl
  constructor
  · rw [hphys]
    exact h.code
  · intro pt hpt' page hpage
    rcases hlow pt hpt' page hpage with e | e <;> rw [e]
    · exact h.low pt hpt' page hpage
    · exact h.low parentPT hpt page hpage
  · intro pt hpt'
    rcases Nat.lt_or_eq_of_le hpt' with hlt | rfl
    · rcases hlow pt hlt 0 (by decide) with e | e <;> rw [e]
      · exact h.null pt hpt'
      · exact h.null parentPT hpt.le
    · rw [hent nrTasks 0 (by decide) (.inl (by decide))]
      split
      · rw [getFrame, h.null parentPT hpt.le]
        rfl
      · exact h.null nrTasks le_rfl
  · intro pt hpt' page h1 h2
    by_cases hw : pagLogInitData + numPagData ≤ page
    · rcases forkMap_window hle hm pt hw h2 with e | e | ⟨q, -, -, e⟩ <;> rw [e]
      · exact h.blank pt hpt' page h1 h2
      · exact .inl rfl
      · exact .inr rfl
    · rw [hkept pt page (.inl ⟨h1, by omega⟩)]
      exact h.blank pt hpt' page h1 h2
  · intro pt hpt' page ho hp
    rw [hkept pt page ho] at hp ⊢
    rw [hphys]
    exact h.frame pt hpt' page ho hp
  · intro p hp1 q ho1 hq p' hp1' q' ho1' hq' e
    rw [hkept p q ho1] at hq e
    rw [hkept p' q' ho1'] at hq' e
    exact h.inj p hp1 q ho1 hq p' hp1' q' ho1' hq' e

theorem Owned.sbrkShrink {new : Nat} : ∀ {fuel hp hp' : Nat} {m m' : Mm}, Owned m →
    sbrkShrink pt new fuel hp m = some (hp', m') → Owned m'
  | 0, _, _, _, _, _, h => nomatch h
  | fuel + 1, hp, hp', m, m', ho, h => by
    unfold Sysenter.sbrkShrink at h
    split at h
    · refine Owned.sbrkShrink ?_ h
      split
      · rw [sbrkDelPage_eq, delSsPag_eq]
        exact ho.cleared _ _
      · exact ho
    · obtain ⟨rfl, rfl⟩ := Prod.mk.inj (Option.some.inj h)
      exact ho

theorem Owned.sbrkHeap (h : Owned m) {old hp' ret : Nat} (ho : HeapPtr old) {size : Int}
    (hs : sbrkHeap pt initHeap old size m = some (ret, hp', m')) : Owned m' := by
  by_cases hsize : 0 < size
  · rcases sbrkHeap_grown ho h.codeUsed hsize hs with ⟨-, -, rfl⟩ | ⟨-, hhp, -, n, fr, hg, rfl⟩ | ⟨-, -, -, fr, hg⟩
    · exact h
    · have hle := hhp.le
      have hpage := ho.page
      have hd := pagLogInitData_eq
      have hh := heapPage_eq
      exact h.grown hg (by omega) (by simp only [totalPages, pageSize] at *; omega)
    · -- what the rollback leaves is what was there, with some entries cleared
      exact (h.cleared _ _).congr hg.same.1 hg.same.2
  · unfold Sysenter.sbrkHeap at hs
    dsimp only at hs
    split at hs
    · obtain ⟨-, -, rfl⟩ : 0 = ret ∧ old = hp' ∧ m = m' := by simpa using hs
      exact h
    obtain ⟨⟨hp, m1⟩, hshrink, hs⟩ := Option.bind_eq_some_iff.mp hs
    obtain ⟨-, -, rfl⟩ : old = ret ∧ hp = hp' ∧ m1 = m' := by simpa using hs
    exact h.sbrkShrink hshrink

theorem Owned.ustack (h : Owned m) {f p : UInt32} (hf : m.allocFrame.1 ≠ -1) (hge : pagLogInitData ≤ page)
    (hm : Kernel.writeUstack (m.allocFrame.2.setSsPag pt page m.allocFrame.1) pt page f p = some m') : Owned m' := by
  obtain ⟨ht, hp, hlt, -⟩ := writeUstack_some hm
  refine Owned.congr ?_ ht hp
  rcases allocFrame_cases m with ⟨g, hg, hfree, e⟩ | ⟨-, e⟩
  · rw [e]
    exact h.map hg hfree hge hlt
  · rw [e] at hf
    exact absurd rfl hf

end

/-! ## Runs -/

/-- A directory there is, and a heap pointer in order. -/
structure TaskCore.Placed (c : TaskCore) : Prop where
  dir : ∃ pt, c.dirPagesBaseAddr = some pt ∧ pt < nrTasks
  heapStart : c.heapStartProc = initHeap
  heap : HeapPtr c.heapPointerProc

namespace AbsKernel

structure Owning (a : AbsKernel) : Prop where
  users : a.Users TaskCore.Placed
  mm : Owned a.mm

section
variable {a b : AbsKernel}

theorem placed_state (c : TaskCore) (st : TaskState) (h : c.Placed) : TaskCore.Placed { c with state := st } :=
  ⟨h.dir, h.heapStart, h.heap⟩

theorem Owning.current (h : Owning a) (hne : a.current ≠ a.idleTask) {pt : Nat}
    (hpt : (a.task a.current).dirPagesBaseAddr = some pt) : pt < nrTasks ∧ HeapPtr (a.task a.current).heapPointerProc := by
  obtain ⟨⟨pt', hpt', hlt⟩, -, hheap⟩ := h.users a.current (.inl rfl) hne
  obtain rfl : pt = pt' := Option.some.inj (hpt.symm.trans hpt')
  exact ⟨hlt, hheap⟩

theorem Owning.exit_memory (h : Owning a) (g : Good a) (hne : a.current ≠ a.idleTask) (hb : a.exit = some b) : ∃ pt,
    (a.task a.current).dirPagesBaseAddr = some pt ∧ Leaves a b (Sysenter.releaseData pt numPagData a.mm) := by
  obtain ⟨-, hstart, hheap⟩ := h.users a.current (.inl rfl) hne
  obtain ⟨pt, hp, mm, hpt, hrel, hl⟩ := leaves_exit g hb
  obtain ⟨rfl, rfl⟩ := releaseHeap_keeps (hstart ▸ hheap.ge) hrel
  exact ⟨pt, hpt, hl⟩

theorem Owning.exit (h : Owning a) (g : Good a) (hne : a.current ≠ a.idleTask) (hb : a.exit = some b) : Owning b := by
  obtain ⟨pt, hpt, hl⟩ := h.exit_memory g hne hb
  refine ⟨h.users.leaves placed_state hl, ?_⟩
  rw [hl.mm]
  exact h.mm.releaseData (h.current hne hpt).1 le_rfl

theorem Owning.threadExit (h : Owning a) (g : Good a) (hne : a.current ≠ a.idleTask) (hb : a.threadExit = some b) :
    Owning b := by
  obtain ⟨pt, hpt, hl⟩ := leaves_threadExit g hb
  obtain ⟨hlt, hheap⟩ := h.current hne hpt
  refine ⟨h.users.leaves placed_state hl, ?_⟩
  rw [hl.mm]
  exact h.mm.releaseTop hlt hheap.page hheap.page_le

theorem Owning.fork (h : Owning a) (g : Good a) (hne : a.current ≠ a.idleTask) {r : Int × AbsKernel}
    (hr : a.fork = some r) : Owning r.2 := by
  obtain ⟨-, hstart, hheap⟩ := h.users a.current (.inl rfl) hne
  rcases fork_cases hr with ⟨-, rfl⟩ | ⟨child, rest, tab, hq, -, ⟨mm, he, rfl⟩ | ⟨m1, pt, mm, he, hpt, hmap, rfl⟩⟩
  · exact h
  · refine ⟨h.users.forkFailed g hq, ?_⟩
    have := h.mm.forkAllocData child.isLt (Nat.le_of_eq (Nat.zero_add numPagData))
    rwa [he] at this
  · refine ⟨h.users.forkStart hq ⟨⟨_, rfl, child.isLt⟩, hstart, hheap⟩, ?_⟩
    have := h.mm.forkAllocData child.isLt (Nat.le_of_eq (Nat.zero_add numPagData))
    rw [he] at this
    rw [hstart] at hmap
    exact this.forkMap (h.current hne hpt).1 hheap.le hmap

theorem Owning.threadCreate (h : Owning a) (g : Good a) (hne : a.current ≠ a.idleTask) {f p : UInt32}
    {r : Int × AbsKernel} (hr : a.threadCreate f p = some r) : Owning r.2 := by
  obtain ⟨hdir, hstart, hheap⟩ := h.users a.current (.inl rfl) hne
  rcases threadCreate_cases hr with ⟨-, rfl⟩ | ⟨child, rest, hq, hcase⟩
  · exact h
  have hchild : TaskCore.Placed { a.task a.current with TID := a.globalTID + 1, state := .ready } :=
    ⟨hdir, hstart, hheap⟩
  rcases hcase with ⟨-, rfl⟩ | ⟨hpg, pt, hpt, ⟨mm, hf, hmm, rfl⟩ | ⟨hp, mm, hf, hrel, rfl⟩⟩
  · exact ⟨h.users.threadChild g hq, h.mm⟩
  · obtain ⟨-, hlt⟩ := touches_writeUstack (K := fun _ => True) hmm
    have hpage := hheap.page
    have hd : pagLogInitData ≤ heapPage := by decide
    exact ⟨h.users.thread (g.child_ne hq).1 hchild ⟨hdir, hstart, hheap.addPage hlt⟩, h.mm.ustack hf (hd.trans hpage) hmm⟩
  · obtain ⟨rfl, rfl⟩ := releaseHeap_keeps (hstart ▸ hheap.ge) hrel
    refine ⟨h.users.thread (g.child_ne hq).1 hchild ⟨hdir, hstart, hheap⟩, ?_⟩
    rw [allocFrame_refused hf]
    exact h.mm

theorem Owning.sbrk (h : Owning a) (hne : a.current ≠ a.idleTask) {size : Int} (hb : a.sbrk size = some b) : Owning b := by
  obtain ⟨hdir, hstart, hheap⟩ := h.users a.current (.inl rfl) hne
  rcases sbrk_cases hb with rfl | ⟨pt, ret, hp, mm, hpt, hs, rfl⟩
  · exact h
  rw [hstart] at hs
  obtain ⟨hp', -⟩ := sbrkHeap_some (K := fun _ => True) (fun _ _ => trivial) hheap hs
  exact ⟨h.users.setHeapPointer ⟨hdir, hstart, hp'⟩, h.mm.sbrkHeap hheap hs⟩

theorem Owning.step (h : Owning a) (g : Good a) {ok : Bool} {op : Kernel.Op} (hb : a.step ok op = some b) : Owning b := by
  rcases step_cases hb with hs | ⟨hne, ⟨-, hx⟩ | ⟨-, hx⟩ | ⟨-, r, hr, rfl⟩ | ⟨f, p, w, -, r, hr, rfl⟩ | ⟨size, -, hx⟩⟩
  · exact ⟨h.users.sched placed_state hs, by rw [hs.mm]; exact h.mm⟩
  · exact h.exit g hne hx
  · exact h.threadExit g hne hx
  · exact h.fork g hne hr
  · exact h.threadCreate g hne hr
  · exact h.sbrk hne hx

end

end AbsKernel

theorem boot_user (mc : Machine) {pt page : Nat} (hpt : pt < nrTasks) (hge : pagLogInitData ≤ page)
    (hp : page < totalPages) : (bootAbs mc).mm.entry pt page =
      if pt = 1 ∧ page < pagLogInitData + numPagData then
        { present := true, rw := true, user := true, pbaseAddr := firstDataFrame + 2 * (page - pagLogInitData) }
      else .zero := by
  have hd := pagLogInitData_eq
  have hc := pagLogInitCode_eq
  have hfirst := mc.image.lt
  simp only [numPagKernel] at hfirst
  rw [(boot_memory mc).1 pt page hpt hp, if_neg (by simp only [numPagCode]; omega :
    ¬ (pt = 1 ∧ pagLogInitCode ≤ page ∧ page < pagLogInitCode + numPagCode))]
  by_cases h : pt = 1 ∧ page < pagLogInitData + numPagData
  · rw [if_pos ⟨h.1, hge, h.2⟩, if_pos h]
    rfl
  · rw [if_neg (fun e => h ⟨e.1, e.2.2⟩), if_neg h, bootEntry, if_neg (by omega), kernelEntry,
      if_neg (by simp only [numPagKernel]; omega)]

theorem bootEntry_pbaseAddr (image : Image) (page : Nat) : (bootEntry image page).pbaseAddr ≤ page ∧
    (bootEntry image page).pbaseAddr < numPagKernel := by
  have hk : (kernelEntry page).pbaseAddr ≤ page ∧ (kernelEntry page).pbaseAddr < numPagKernel := by
    unfold kernelEntry
    split
    · rename_i h
      exact ⟨le_rfl, h.2⟩
    · exact ⟨Nat.zero_le _, by decide⟩
  unfold bootEntry
  split
  · exact hk
  · exact hk

theorem boot_behind (mc : Machine) : (bootAbs mc).mm.entry nrTasks 0 = .zero := by
  have hguard : ∀ (m : Mm) (page : Nat), page < totalPages →
      Touches (fun k => k < nrTasks * totalPages) m (m.guardPage page) := by
    intro m page hpage
    apply touches_foldl
    intro j hj m
    apply touches_setEntry
    have := List.mem_range.mp hj
    simp only [nrTasks, totalPages] at *
    omega
  have hfirst := mc.image.lt
  simp only [numPagKernel] at hfirst
  have hplace : ¬ nrTasks * totalPages + 0 < nrTasks * totalPages := by decide
  rw [boot_mm]
  generalize hm : (((Kernel.powerOn mc).mm.initTablePages.guardPage mc.image.first).guardPage
    (mc.image.first + 11)) = m
  have hfrom : m.initFrames.FreeFrom 256 := by
    intro f hf
    have := mem_candidates.mp hf
    change (if f < numPagKernel then FrameUse.used else if f < totalPages then .free else m.physMem f) = .free ↔ _
    rw [if_neg (by omega), if_pos this.2.1]
    simpa using this.1
  rw [(setUserPages_spec 1 pagLogInitCode pagLogInitData hfrom (by decide) (by decide) (by decide) (by decide)
    (by decide)).1 nrTasks 0 (by decide), if_neg (by decide), if_neg (by decide)]
  change m.pagusrTable (nrTasks * totalPages + 0) = .zero
  rw [← hm, hguard _ _ (by simp only [totalPages]; omega) _ hplace, hguard _ _ (by simp only [totalPages]; omega) _ hplace]
  exact initTablePages_behind _ hplace

theorem boot_owning (mc : Machine) : (bootAbs mc).Owning where
  users := by
    rintro t (rfl | ht | ⟨tab, k, ht⟩) -
    · rw [show (bootAbs mc).current = 1 from rfl, boot_task1]
      exact ⟨⟨1, rfl, by decide⟩, rfl, ⟨le_rfl, by decide, by decide⟩⟩
    · cases ht
    · cases ht
  mm := by
    have hd := pagLogInitData_eq
    have hc := pagLogInitCode_eq
    obtain ⟨hent, hphys⟩ := boot_memory mc
    have hlow : ∀ pt < nrTasks, ∀ page < pagLogInitData, ((bootAbs mc).mm.entry pt page).pbaseAddr < firstDataFrame ∧
        (page = 0 → ((bootAbs mc).mm.entry pt page).pbaseAddr = 0) := by
      intro pt hpt page hpage
      have hb := bootEntry_pbaseAddr mc.image page
      simp only [numPagKernel] at hb
      rw [hent pt page hpt (by simp only [totalPages]; omega), if_neg (by omega)]
      split
      · simp only [firstDataFrame, numPagKernel, numPagCode] at *
        omega
      · simp only [firstDataFrame, numPagKernel, numPagCode]
        omega
    -- a mapped page is a data page of task 1
    have hone : ∀ {pt page}, pt < nrTasks → OwnPage page → ((bootAbs mc).mm.entry pt page).present = true →
        pt = 1 ∧ page < pagLogInitData + numPagData ∧
          ((bootAbs mc).mm.entry pt page).pbaseAddr = firstDataFrame + 2 * (page - pagLogInitData) := by
      intro pt page hpt ho hp
      rw [boot_user mc hpt ho.ge ho.lt] at hp ⊢
      split
      · rename_i h
        exact ⟨h.1, h.2, rfl⟩
      · rename_i h
        rw [if_neg h] at hp
        cases hp
    constructor
    · intro f hf hlt
      have := mem_candidates.mp hf
      rw [hphys f this.2.1]
      simp only [firstDataFrame, numPagKernel, numPagCode] at *
      omega
    · exact fun pt hpt page hpage => (hlow pt hpt page hpage).1
    · intro pt hpt
      rcases Nat.lt_or_eq_of_le hpt with hlt | rfl
      · exact (hlow pt hlt 0 (by decide)).2 rfl
      · rw [boot_behind]
        rfl
    · intro pt hpt page h1 h2
      rw [boot_user mc hpt h1 h2]
      split
      · exact .inr rfl
      · exact .inl rfl
    · intro pt hpt page ho hp
      obtain ⟨-, hlt, e⟩ := hone hpt ho hp
      have hge := ho.ge
      simp only [firstDataFrame, numPagKernel, numPagCode, numPagData] at *
      rw [e, mem_candidates, hphys _ (by simp only [totalPages]; omega)]
      simp only [numPagKernel, totalPages]
      omega
    · intro pt hpt page ho hp pt' hpt' page' ho' hp' e
      obtain ⟨e1, -, e2⟩ := hone hpt ho hp
      obtain ⟨e1', -, e2'⟩ := hone hpt' ho' hp'
      have := ho.ge
      have := ho'.ge
      omega

theorem Reachable.owning {mc : Machine} {s : Kernel} (h : Reachable mc s) : ∃ a, Rep s a ∧ a.Good ∧ a.Owning := by
  obtain ⟨es, he⟩ := h
  refine run_invariant (P := fun _ _ _ => True) (fun _ a _ _ b _ g ho _ _ hb _ => ho.step g hb) (boot_rep mc)
    (boot_good mc) (boot_owning mc) ?_ he
  exact allSteps_of_forall (A := fun _ => True) (fun _ _ _ _ => trivial) fun _ _ => trivial

end ZeosSOA.Sysenter
