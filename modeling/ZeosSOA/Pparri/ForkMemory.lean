import ZeosSOA.Pparri.Step

/-!
# zeOSpparri: the memory of a child

The child of `sys_fork` gets new frames for its data and stack. The parent fills them through
the pages behind its code, where each of them is mapped for a moment.
-/

namespace ZeosSOA.Pparri

open Mm

/-! ## The frames -/

/-- From `m` to `m'` the frames `fr 0`, …, `fr (n - 1)`, which were free, were taken. -/
structure Allocated (m m' : Mm) (n : Nat) (fr : Nat → Nat) : Prop where
  cand : ∀ k < n, fr k ∈ candidates
  free : ∀ k < n, m.physMem (fr k) = .free
  inj : ∀ j < n, ∀ k < n, fr j = fr k → j = k
  table : m'.pagusrTable = m.pagusrTable
  phys : ∀ f, m'.physMem f = if ∃ k < n, fr k = f then .used else m.physMem f
  ram : m'.ram = m.ram

section
variable {m m' : Mm} {n : Nat} {fr : Nat → Nat}

theorem Allocated.nil (m : Mm) (fr : Nat → Nat) : Allocated m m 0 fr where
  cand _ hk := absurd hk (Nat.not_lt_zero _)
  free _ hk := absurd hk (Nat.not_lt_zero _)
  inj _ hj := absurd hj (Nat.not_lt_zero _)
  table := rfl
  phys f := by rw [if_neg (by simp)]
  ram := rfl

theorem Allocated.cons {f : Nat} (hf : f ∈ candidates) (hfree : m.physMem f = .free)
    (h : Allocated (m.setFrame f .used) m' n fr) : Allocated m m' (n + 1) (fun | 0 => f | k + 1 => fr k) := by
  have hother : ∀ k < n, fr k ≠ f ∧ m.physMem (fr k) = .free := by
    intro k hk
    have := h.free k hk
    rw [setFrame_physMem] at this
    split at this
    · cases this
    · exact ⟨‹_›, this⟩
  constructor
  · rintro (_ | k) hk
    · exact hf
    · exact h.cand k (by omega)
  · rintro (_ | k) hk
    · exact hfree
    · exact (hother k (by omega)).2
  · rintro (_ | j) hj (_ | k) hk e
    · rfl
    · exact absurd e.symm (hother k (by omega)).1
    · exact absurd e (hother j (by omega)).1
    · exact congrArg (· + 1) (h.inj j (by omega) k (by omega) e)
  · exact h.table
  · intro g
    rw [h.phys g, setFrame_physMem]
    by_cases hg : g = f
    · rw [if_pos hg, ite_self, if_pos ⟨0, Nat.succ_pos n, hg.symm⟩]
    · rw [if_neg hg]
      refine if_congr ⟨?_, ?_⟩ rfl rfl
      · rintro ⟨k, hk, e⟩
        exact ⟨k + 1, by omega, e⟩
      · rintro ⟨_ | k, hk, e⟩
        · exact absurd e.symm hg
        · exact ⟨k, by omega, e⟩
  · exact h.ram

/-- The array has the free frames first, as many as there are, and -1 from there on. -/
theorem allocFrames_spec : ∀ (n : Nat) (m : Mm), ∃ fr : Nat → Nat,
    (allocFrames n m).1 = (List.range n).map (fun k => if k < m.freeCount then (fr k : Int) else -1) ∧
      Allocated m (allocFrames n m).2 (min n m.freeCount) fr
  | 0, m => ⟨fun _ => 0, rfl, by rw [Nat.zero_min]; exact .nil m _⟩
  | n + 1, m => by
    rcases allocFrame_cases m with ⟨f, hf, hfree, e⟩ | ⟨hused, e⟩
    · have hcount := freeCount_alloc hf hfree
      obtain ⟨fr, hfr, ha⟩ := allocFrames_spec n (m.setFrame f .used)
      refine ⟨fun | 0 => f | k + 1 => fr k, ?_, ?_⟩
      · rw [allocFrames, e, List.range_succ_eq_map, List.map_cons, List.map_map, hcount]
        dsimp only
        rw [hfr, if_pos (Nat.succ_pos _)]
        simp only [Function.comp_def, Nat.succ_eq_add_one, Nat.add_lt_add_iff_right]
      · rw [allocFrames, e, hcount, Nat.succ_min_succ]
        exact ha.cons hf hfree
    · obtain ⟨fr, hfr, ha⟩ := allocFrames_spec n m
      rw [freeCount_eq_zero.mpr hused] at hfr ha ⊢
      refine ⟨fr, ?_, ?_⟩
      · rw [allocFrames, e, List.range_succ_eq_map, List.map_cons, List.map_map]
        dsimp only
        rw [hfr]
        simp [Function.comp_def]
      · rw [allocFrames, e, Nat.min_zero]
        rwa [Nat.min_zero] at ha

theorem allocFrames_allocated (hn : n ≤ m.freeCount) : ∃ fr : Nat → Nat,
    (allocFrames n m).1 = (List.range n).map (fun k => (fr k : Int)) ∧ Allocated m (allocFrames n m).2 n fr := by
  obtain ⟨fr, hfr, ha⟩ := allocFrames_spec n m
  rw [Nat.min_eq_left hn] at ha
  refine ⟨fr, hfr.trans (List.map_congr_left fun k hk => ?_), ha⟩
  exact if_pos (lt_of_lt_of_le (List.mem_range.mp hk) hn)

end

/-! ## The tables -/

section
variable {newKidPT dadPT : Nat} {m m' : Mm}

theorem forkInherit_spec (newKidPT dadPT : Nat) (m : Mm) :
    (∀ pt page, page < totalPages → (forkInherit newKidPT dadPT m).entry pt page =
      if pt = newKidPT ∧ (page < numPagKernel ∨ pagLogInitCode ≤ page ∧ page < pagLogInitCode + numPagCode) then
        { present := true, rw := true, user := true, pbaseAddr := frameBits (m.getFrame dadPT page) }
      else m.entry pt page) ∧ (forkInherit newKidPT dadPT m).physMem = m.physMem ∧
      (forkInherit newKidPT dadPT m).ram = m.ram := by
  have hc : pagLogInitCode = 276 := rfl
  have hram : (forkInherit newKidPT dadPT m).ram = m.ram := by
    unfold forkInherit
    dsimp only
    rw [foldl_ram (f := sharePage newKidPT dadPT) fun _ _ => rfl,
      foldl_ram (f := fun m pag => sharePage newKidPT dadPT m (pagLogInitCode + pag)) fun _ _ => rfl]
  obtain ⟨hent, hphys⟩ := foldl_sharePage newKidPT dadPT pagLogInitCode m (n := numPagCode) (by decide)
  refine ⟨?_, ?_, hram⟩ <;> unfold forkInherit <;>
    generalize (List.range numPagCode).foldl (fun m pag => sharePage newKidPT dadPT m (pagLogInitCode + pag)) m = m1
      at hent hphys
  · intro pt page hp
    obtain ⟨hent', -⟩ := foldl_sharePage newKidPT dadPT 0 m1 (n := numPagKernel) (by decide)
    simp only [Nat.zero_add] at hent'
    have hsrc : page < numPagKernel → m1.getFrame dadPT page = m.getFrame dadPT page := by
      intro hk
      rw [getFrame, hent dadPT page hp, if_neg fun e => by simp only [numPagKernel] at hk; omega, getFrame]
    rw [hent' pt page hp, hent pt page hp]
    grind
  · obtain ⟨-, hphys'⟩ := foldl_sharePage newKidPT dadPT 0 m1 (n := numPagKernel) (by decide)
    simp only [Nat.zero_add] at hphys'
    exact hphys'.trans hphys

theorem zipIdx_map_range (g : Nat → Int) (n : Nat) :
    ((List.range n).map g).zipIdx = (List.range n).map fun k => (g k, k) :=
  List.ext_getElem (by simp) (by simp)

theorem forkMapData_spec (newKidPT : Nat) (fr : Nat → Int) (m : Mm) : ∀ {n : Nat}, pagLogInitData + n ≤ totalPages →
    let m' := forkMapData newKidPT ((List.range n).map fr) m
    (∀ pt page, page < totalPages → m'.entry pt page =
      if pt = newKidPT ∧ pagLogInitData ≤ page ∧ page < pagLogInitData + n then
        { present := true, rw := true, user := true, pbaseAddr := frameBits (fr (page - pagLogInitData)) }
      else m.entry pt page) ∧ m'.physMem = m.physMem ∧ m'.ram = m.ram
  | 0, _ => ⟨fun pt page _ => by rw [if_neg (by omega)]; rfl, rfl, rfl⟩
  | n + 1, hn => by
    obtain ⟨hent, hphys, hram⟩ := forkMapData_spec newKidPT fr m (n := n) (by omega)
    unfold forkMapData at hent hphys hram ⊢
    rw [zipIdx_map_range, List.foldl_map] at hent hphys hram ⊢
    dsimp only
    rw [List.range_succ, List.foldl_append, List.foldl_cons, List.foldl_nil]
    refine ⟨fun pt page hp => ?_, hphys, hram⟩
    rw [setSsPag, setEntry_entry_lt _ _ (by omega) hp, hent pt page hp]
    by_cases h : pt = newKidPT ∧ page = pagLogInitData + n
    · obtain ⟨rfl, rfl⟩ := h
      rw [if_pos ⟨rfl, rfl⟩, if_pos ⟨rfl, by omega, by omega⟩, Nat.add_sub_cancel_left]
    · rw [if_neg h]
      exact if_congr ⟨fun e => ⟨e.1, e.2.1, by omega⟩, fun e => ⟨e.1, e.2.1, by omega⟩⟩ rfl rfl

theorem forkCopyPage_eq {f k : Nat} (hk : k < numPagData) (hf : f < 2 ^ 20)
    (h : (m.entry dadPT (pagLogInitData + k)).present = true) : forkCopyPage dadPT m ((f : Int), k) =
      some ((m.copyFrame (m.getFrame dadPT (pagLogInitData + k)) f).delSsPag dadPT (k + diff)) := by
  have hd : pagLogInitData = 256 := rfl
  have hdiff : diff = 284 := rfl
  simp only [numPagData] at hk
  have hround := copy_round (f : Int) (by simp only [totalPages]; omega) (by simp only [totalPages]; omega)
    (by omega : pagLogInitData + k ≠ k + diff) h
  rwa [frameBits_natCast hf] at hround

theorem forkMap_copied {fr : Nat → Nat} (hfr : ∀ k < numPagData, fr k < 2 ^ 20)
    (hinj : ∀ j < numPagData, ∀ k < numPagData, fr j = fr k → j = k) (hne : dadPT ≠ newKidPT)
    (hpres : ∀ k < numPagData, (m.entry dadPT (pagLogInitData + k)).present = true)
    (hsd : ∀ j < numPagData, ∀ k < numPagData, m.getFrame dadPT (pagLogInitData + j) ≠ fr k) :
    ∃ m₂ m', forkMap newKidPT dadPT ((List.range numPagData).map fun k => (fr k : Int)) m = some m' ∧
      Copied m₂ m' dadPT (List.range numPagData) (fun k => m.getFrame dadPT (pagLogInitData + k)) fr (· + diff) ∧
      (∀ pt page, page < totalPages → m₂.entry pt page =
        if pt = newKidPT ∧ pagLogInitData ≤ page ∧ page < pagLogInitData + numPagData then
          { present := true, rw := true, user := true, pbaseAddr := fr (page - pagLogInitData) }
        else (forkInherit newKidPT dadPT m).entry pt page) ∧ m₂.physMem = m.physMem ∧ m₂.ram = m.ram := by
  have hd : pagLogInitData = 256 := rfl
  have hdiff : diff = 284 := rfl
  have hend : pagLogInitData + numPagData ≤ totalPages := by decide
  obtain ⟨hent1, hphys1, hram1⟩ := forkInherit_spec newKidPT dadPT m
  obtain ⟨hent2, hphys2, hram2⟩ := forkMapData_spec newKidPT (fun k => (fr k : Int)) (forkInherit newKidPT dadPT m) hend
  rw [forkMap]
  generalize forkMapData newKidPT ((List.range numPagData).map fun k => (fr k : Int))
    (forkInherit newKidPT dadPT m) = m₂ at hent2 hphys2 hram2
  -- the parent has its data pages as before
  have hdad : ∀ k < numPagData, m₂.entry dadPT (pagLogInitData + k) = m.entry dadPT (pagLogInitData + k) := by
    intro k hk
    simp only [numPagData] at hk
    rw [hent2 _ _ (by simp only [totalPages]; omega), if_neg fun e => hne e.1, hent1 _ _ (by simp only [totalPages]; omega),
      if_neg fun e => hne e.1]
  have hcopied : ∃ m', (List.range numPagData).foldlM (fun m₁ k => forkCopyPage dadPT m₁ ((fr k : Int), k)) m₂ = some m' ∧
      Copied m₂ m' dadPT (List.range numPagData) (fun k => m.getFrame dadPT (pagLogInitData + k)) fr (· + diff) := by
    apply foldlM_copied (K := fun k => ∃ j < numPagData, k = dadPT * totalPages + (j + diff))
    · intro k hk
      exact ⟨k, List.mem_range.mp hk, rfl⟩
    · intro k hk m₁ ht
      have hk := List.mem_range.mp hk
      have hsame : m₁.entry dadPT (pagLogInitData + k) = m.entry dadPT (pagLogInitData + k) := by
        rw [← hdad k hk]
        apply ht
        rintro ⟨j, hj, e⟩
        simp only [numPagData, totalPages] at *
        omega
      rw [forkCopyPage_eq hk (hfr k hk) (by rw [hsame]; exact hpres k hk), getFrame, hsame]
      rfl
    · apply List.Nodup.map_on _ List.nodup_range
      intro j hj k hk
      exact hinj j (List.mem_range.mp hj) k (List.mem_range.mp hk)
    · intro j hj k hk
      exact hsd j (List.mem_range.mp hj) k (List.mem_range.mp hk)
  obtain ⟨m', hm', hc⟩ := hcopied
  refine ⟨m₂, m', ?_, hc, fun pt page hp => ?_, hphys2.trans hphys1, hram2.trans hram1⟩
  · rw [zipIdx_map_range, List.foldlM_map]
    exact hm'
  · rw [hent2 pt page hp]
    split
    · rw [frameBits_natCast (hfr _ (by omega))]
    · rfl

/-- From `m` to `m'` the child got the frames `fr` for its data, with copies of the parent's pages, and the parent's
frames for its code. -/
structure ChildMapped (m m' : Mm) (newKidPT dadPT : Nat) (fr : Nat → Nat) : Prop where
  data : ∀ k < numPagData, m'.entry newKidPT (pagLogInitData + k) =
    { present := true, rw := true, user := true, pbaseAddr := fr k }
  code : ∀ k < numPagCode, m'.entry newKidPT (pagLogInitCode + k) =
    { present := true, rw := true, user := true, pbaseAddr := frameBits (m.getFrame dadPT (pagLogInitCode + k)) }
  window : ∀ page < totalPages, m'.entry dadPT page =
    if diff ≤ page ∧ page < diff + numPagData then .zero else m.entry dadPT page
  others : ∀ pt, pt ≠ dadPT → pt ≠ newKidPT → ∀ page < totalPages, m'.entry pt page = m.entry pt page
  phys : m'.physMem = m.physMem
  copy : ∀ k < numPagData, m'.ram (fr k) = m.ram (m.getFrame dadPT (pagLogInitData + k))
  rest : ∀ f, (∀ k < numPagData, f ≠ fr k) → m'.ram f = m.ram f

theorem forkMap_mapped {fr : Nat → Nat} (hfr : ∀ k < numPagData, fr k < 2 ^ 20)
    (hinj : ∀ j < numPagData, ∀ k < numPagData, fr j = fr k → j = k) (hne : dadPT ≠ newKidPT)
    (hpres : ∀ k < numPagData, (m.entry dadPT (pagLogInitData + k)).present = true)
    (hsd : ∀ j < numPagData, ∀ k < numPagData, m.getFrame dadPT (pagLogInitData + j) ≠ fr k) :
    ∃ m', forkMap newKidPT dadPT ((List.range numPagData).map fun k => (fr k : Int)) m = some m' ∧
      ChildMapped m m' newKidPT dadPT fr := by
  obtain ⟨m₂, m', hm', hc, hent₂, hphys, hram⟩ := forkMap_copied hfr hinj hne hpres hsd
  obtain ⟨hent₁, -, -⟩ := forkInherit_spec newKidPT dadPT m
  have hd : pagLogInitData = 256 := rfl
  have hcode : pagLogInitCode = 276 := rfl
  have hdiff : diff = 284 := rfl
  have hent : ∀ pt page, page < totalPages → m'.entry pt page =
      if pt = dadPT ∧ diff ≤ page ∧ page < diff + numPagData then .zero else m₂.entry pt page := by
    intro pt page hp
    rw [entry, hc.table]
    refine if_congr ⟨?_, ?_⟩ rfl rfl
    · rintro ⟨k, hk, e⟩
      have := List.mem_range.mp hk
      simp only [numPagData, totalPages] at *
      omega
    · rintro ⟨rfl, h1, h2⟩
      exact ⟨page - diff, List.mem_range.mpr (by omega), by omega⟩
  have hchild : ∀ page < totalPages, m'.entry newKidPT page = m₂.entry newKidPT page := by
    intro page hp
    rw [hent _ _ hp, if_neg fun e => hne e.1.symm]
  have hother : ∀ pt, pt ≠ newKidPT → ∀ page < totalPages, m₂.entry pt page = m.entry pt page := by
    intro pt hpt page hp
    rw [hent₂ _ _ hp, if_neg fun e => hpt e.1, hent₁ _ _ hp, if_neg fun e => hpt e.1]
  refine ⟨m', hm', ?_, ?_, ?_, ?_, hc.phys.trans hphys, ?_, ?_⟩
  · intro k hk
    have hp : pagLogInitData + k < totalPages := by
      simp only [numPagData, totalPages] at *
      omega
    rw [hchild _ hp, hent₂ _ _ hp, if_pos ⟨rfl, by omega, by omega⟩, Nat.add_sub_cancel_left]
  · intro k hk
    simp only [numPagCode] at hk
    have hp : pagLogInitCode + k < totalPages := by
      simp only [totalPages]
      omega
    rw [hchild _ hp, hent₂ _ _ hp, if_neg (by simp only [numPagData]; omega), hent₁ _ _ hp,
      if_pos ⟨rfl, .inr ⟨by omega, by simp only [numPagCode]; omega⟩⟩]
  · intro page hp
    rw [hent _ _ hp, hother dadPT hne page hp]
    exact if_congr (and_iff_right rfl) rfl rfl
  · intro pt h1 h2 page hp
    rw [hent _ _ hp, if_neg fun e => h1 e.1, hother pt h2 page hp]
  · intro k hk
    rw [hc.copy k (List.mem_range.mpr hk), hram]
  · intro f hf
    rw [hc.rest f fun k hk => hf k (List.mem_range.mp hk), hram]

end

/-! ## The call -/

namespace Kernel

def dataFrame (s : Kernel) (t : TaskId) (k : Nat) : Nat := s.mm.getFrame t.val (pagLogInitData + k)

/-- The freequeue starts with `child`, there are enough free frames, and in the table of the current task the
data pages are mapped to used frames and the window is not mapped, whatever else is in its entries. -/
def CanFork (s : Kernel) (child : TaskId) (dad : Nat) : Prop :=
  s.listFirst .freequeue = some (.anchor child) ∧ s.getPT s.current = some dad ∧ numPagData ≤ s.mm.freeCount ∧
    (∀ k < numPagData, (s.mm.entry dad (k + diff)).present = false) ∧
    ∀ k < numPagData, (s.mm.entry dad (pagLogInitData + k)).present = true ∧
      s.mm.physMem (s.mm.getFrame dad (pagLogInitData + k)) = .used

instance (s : Kernel) (child : TaskId) (dad : Nat) : Decidable (s.CanFork child dad) :=
  inferInstanceAs (Decidable (_ ∧ _ ∧ _ ∧ _ ∧ _))

/-- The list pointers that `sys_fork` follows are not null. -/
structure ForkLinks (s : Kernel) (child : TaskId) : Prop where
  next : s.links.next (.anchor child) ≠ none
  prev : s.links.prev (.anchor child) ≠ none
  kids : s.links.prev (.head (.kids s.current)) ≠ none
  ready : s.links.prev (.head .readyqueue) ≠ none

/-- The memory after a `sys_fork`: the child has copies of the parent's data in frames that were free, and the same
code; no other frame and, but for the window, no other table has changed. -/
structure ChildMemory (s s' : Kernel) (child : TaskId) (dad : Nat) : Prop where
  table : s'.getPT child = some child.val
  mapped : ∀ k < numPagData, (s'.mm.entry child.val (pagLogInitData + k)).present = true
  fresh : ∀ k < numPagData, s.mm.physMem (s'.dataFrame child k) = .free ∧ s'.mm.physMem (s'.dataFrame child k) = .used
  distinct : ∀ j < numPagData, ∀ k < numPagData, s'.dataFrame child j = s'.dataFrame child k → j = k
  copied : ∀ k < numPagData, s'.mm.ram (s'.dataFrame child k) = s.mm.ram (s.mm.getFrame dad (pagLogInitData + k))
  code : ∀ k < numPagCode, (s'.mm.entry child.val (pagLogInitCode + k)).present = true ∧
    s'.mm.getFrame child.val (pagLogInitCode + k) = s'.mm.getFrame dad (pagLogInitCode + k)
  phys : ∀ f, (∀ k < numPagData, f ≠ s'.dataFrame child k) → s'.mm.physMem f = s.mm.physMem f
  ram : ∀ f, (∀ k < numPagData, f ≠ s'.dataFrame child k) → s'.mm.ram f = s.mm.ram f
  parent : ∀ page < totalPages, s'.mm.entry dad page =
    if diff ≤ page ∧ page < diff + numPagData then .zero else s.mm.entry dad page
  others : ∀ pt, pt ≠ dad → pt ≠ child.val → ∀ page < totalPages, s'.mm.entry pt page = s.mm.entry pt page

section
variable {s : Kernel}

theorem forkStart_of_links {newKid : TaskId} (hne : s.current ≠ newKid)
    (hk : s.links.prev (.head (.kids s.current)) ≠ none) (hr : s.links.prev (.head .readyqueue) ≠ none) :
    ∃ r, s.forkStart newKid = some r := by
  obtain ⟨k, hk⟩ := Option.ne_none_iff_exists'.mp hk
  obtain ⟨r, hr⟩ := Option.ne_none_iff_exists'.mp hr
  have hk' : (ZeosSOA.initListHead s.links (.head (.kids newKid))).prev (.head (.kids s.current)) = some k := by
    simpa [ZeosSOA.initListHead, hne] using hk
  have h1 := listAddTail_of_prev hk' (.anchor newKid)
  have hr' : (internalListAdd (ZeosSOA.initListHead s.links (.head (.kids newKid))) (.anchor newKid) k
      (.head (.kids s.current))).prev (.head .readyqueue) = some r := by
    simpa [internalListAdd_prev, ZeosSOA.initListHead] using hr
  have h2 := listAddTail_of_prev hr' (.anchor newKid)
  unfold forkStart
  simp only [Kernel.listAddTail, modTask, initListHead, h1, h2, Option.bind_eq_bind, Option.bind_some, Option.pure_def]
  exact ⟨_, rfl⟩

theorem CanFork.forkMap {child : TaskId} {dad : Nat} (h : s.CanFork child dad) (hd : dad ≠ child.val)
    (hbits : ∀ k < numPagCode, s.mm.getFrame dad (pagLogInitCode + k) < 2 ^ 20) :
    ∃ mm, forkMap child.val dad (allocFrames numPagData s.mm).1 (allocFrames numPagData s.mm).2 = some mm ∧
      ∀ s' : Kernel, s'.mm = mm → s'.getPT child = some child.val → s.ChildMemory s' child dad := by
  obtain ⟨-, -, hfree, -, hdata⟩ := h
  obtain ⟨fr, hfr, ha⟩ := allocFrames_allocated hfree
  generalize (allocFrames numPagData s.mm).2 = m₁ at ha
  have hent₁ : m₁.entry = s.mm.entry := by
    unfold entry
    rw [ha.table]
  have hlt : ∀ k < numPagData, fr k < 2 ^ 20 := by
    intro k hk
    have := mem_candidates.mp (ha.cand k hk)
    simp only [totalPages] at this
    omega
  -- the parent's frames are in use, those of the child were not
  have hsd : ∀ j < numPagData, ∀ k < numPagData, m₁.getFrame dad (pagLogInitData + j) ≠ fr k := by
    intro j hj k hk e
    have hused := (hdata j hj).2
    rw [getFrame, ← hent₁, ← getFrame, e, ha.free k hk] at hused
    cases hused
  obtain ⟨mm, hmm, hc⟩ := forkMap_mapped hlt ha.inj hd (fun k hk => by rw [hent₁]; exact (hdata k hk).1) hsd
  rw [hfr]
  refine ⟨mm, hmm, ?_⟩
  rintro s' rfl htable
  have hframe : ∀ k < numPagData, s'.dataFrame child k = fr k := by
    intro k hk
    rw [dataFrame, getFrame, hc.data k hk]
  have hnew : ∀ f, (∀ k < numPagData, f ≠ s'.dataFrame child k) → ∀ k < numPagData, f ≠ fr k := by
    intro f hf k hk e
    exact hf k hk (e.trans (hframe k hk).symm)
  refine ⟨htable, fun k hk => ?_, fun k hk => ?_, fun j hj k hk e => ?_, fun k hk => ?_, fun k hk => ?_, fun f hf => ?_,
    fun f hf => ?_, fun page hp => ?_, fun pt h1 h2 page hp => ?_⟩
  · rw [hc.data k hk]
  · rw [hframe k hk, hc.phys, ha.phys, if_pos ⟨k, hk, rfl⟩]
    exact ⟨ha.free k hk, rfl⟩
  · rw [hframe j hj, hframe k hk] at e
    exact ha.inj j hj k hk e
  · rw [hframe k hk, hc.copy k hk, ha.ram, getFrame, hent₁, getFrame]
  · have hdiff : diff = 284 := rfl
    have hcode : pagLogInitCode = 276 := rfl
    have hbit := hbits k hk
    have hk' := hk
    simp only [numPagCode] at hk
    have hp : pagLogInitCode + k < totalPages := by
      simp only [totalPages]
      omega
    have hdad : s'.mm.entry dad (pagLogInitCode + k) = s.mm.entry dad (pagLogInitCode + k) := by
      rw [hc.window _ hp, if_neg (by omega), hent₁]
    have hown : s'.mm.entry child.val (pagLogInitCode + k) =
        { present := true, rw := true, user := true, pbaseAddr := s.mm.getFrame dad (pagLogInitCode + k) } := by
      rw [hc.code k hk', getFrame, hent₁, ← getFrame, frameBits_natCast hbit]
    refine ⟨by rw [hown], ?_⟩
    simp only [getFrame, hown, hdad]
  · have hne : ¬ ∃ k < numPagData, fr k = f := by
      rintro ⟨k, hk, e⟩
      exact hnew f hf k hk e.symm
    rw [hc.phys, ha.phys, if_neg hne]
  · rw [hc.rest f (hnew f hf), ha.ram]
  · rw [hc.window page hp, hent₁]
  · rw [hc.others pt h1 h2 page hp, hent₁]

/-- With its list pointers in place `sys_fork` comes back, and leaves the memory of a child behind. -/
theorem fork_memory {child : TaskId} {dad : Nat} (h : s.CanFork child dad) (hl : s.ForkLinks child)
    (hc : child ≠ s.current) (hd : dad ≠ child.val)
    (hbits : ∀ k < numPagCode, s.mm.getFrame dad (pagLogInitCode + k) < 2 ^ 20) :
    ∃ ret s', s.sysFork = some (ret, s') ∧ s.ChildMemory s' child dad := by
  obtain ⟨hfirst, hpt, -⟩ := id h
  obtain ⟨mm, hmm, hmem⟩ := h.forkMap hd hbits
  obtain ⟨l, hdel⟩ := listDel_of_links hl.next hl.prev
  have hempty : ¬ s.listEmpty .freequeue = true := by
    intro e
    have hself : s.links.next (.head .freequeue) = some (.head .freequeue) := by
      simpa [listEmpty, ZeosSOA.listEmpty] using e
    cases hself.symm.trans hfirst
  have hcur : s.current ≠ child := hc.symm
  have hfork : ∀ s₁ : Kernel, s₁ = ({ s with links := l }.copyTaskUnion s.current child).allocateDIR child →
      s₁.mm = s.mm ∧ s₁.getPT child = some child.val ∧ s₁.getPT s.current = some dad ∧ s₁.current = s.current ∧
        s₁.links.prev (.head (.kids s.current)) ≠ none ∧ s₁.links.prev (.head .readyqueue) ≠ none := by
    rintro s₁ rfl
    refine ⟨rfl, ?_, ?_, rfl, ?_, ?_⟩
    · simp [getPT, allocateDIR, modTask]
    · simpa [getPT, allocateDIR, modTask, copyTaskUnion, hcur] using hpt
    · have := listDel_prev hdel (by simp) hl.kids
      simpa [allocateDIR, modTask, copyTaskUnion, hcur] using this
    · have := listDel_prev hdel (by simp) hl.ready
      simpa [allocateDIR, modTask, copyTaskUnion] using this
  generalize hs₁ : ({ s with links := l }.copyTaskUnion s.current child).allocateDIR child = s₁ at hfork
  obtain ⟨hm, hpt', hdad, hcurrent, hkids, hready⟩ := hfork s₁ rfl
  have hspace : s₁.forkSpace child = some (s₁.setMm mm) := by
    rw [forkSpace, hpt', hcurrent, hdad, hm]
    dsimp only [Option.bind_eq_bind, Option.bind_some]
    rw [hmm]
    rfl
  have hlast : ∃ r, (s₁.setMm mm).forkStart child = some r := by
    apply forkStart_of_links
    · exact hcurrent ▸ hcur
    · rwa [← hcurrent] at hkids
    · exact hready
  obtain ⟨⟨ret, s'⟩, hret⟩ := hlast
  have hstart := forkStart_some hret
  refine ⟨ret, s', ?_, hmem s' hstart.mm ((hstart.getPT child).trans hpt')⟩
  unfold Kernel.sysFork
  rw [if_neg hempty, hfirst]
  dsimp only [Option.bind_eq_bind, Option.bind_some]
  rw [listDel, hdel]
  dsimp only [Option.bind_eq_bind, Option.bind_some, Option.pure_def, listHeadToTaskStruct]
  rw [hs₁, hspace]
  exact hret

end

/-- The booted kernel, with its number in each frame. -/
def bootNumbered : Kernel := boot fun f _ => .ofNat f

theorem fork_memory_boot : ∃ ret s', bootNumbered.sysFork = some (ret, s') ∧ bootNumbered.ChildMemory s' 7 8 := by
  have hcan : bootNumbered.CanFork 7 8 := by
    decide +kernel
  have hlinks : bootNumbered.ForkLinks 7 :=
    ⟨by decide +kernel, by decide +kernel, by decide +kernel, by decide +kernel⟩
  exact fork_memory hcan hlinks (by decide +kernel) (by decide) (by decide +kernel)

/-- States that differ from the booted one in one thing a `sys_fork` relies on: a page is mapped to a free frame; an
entry of the window has a bit set; the parent is in the freequeue, or has the table of the child; its kids have no last
node. -/
theorem fork_disturbs :
    (let s := bootNumbered.setMm (bootNumbered.mm.setSsPag 8 304 312)
     s.CanFork 7 8 ∧ (s.mm.entry 8 304).present = true ∧ s.mm.getFrame 8 304 = 312 ∧
      ∃ r, s.sysFork = some r ∧ r.2.mm.ram 312 0 ≠ s.mm.ram 312 0) ∧
    (let s := bootNumbered.setMm (bootNumbered.mm.setEntry 8 284 ⟨false, true, false, 0⟩)
     s.CanFork 7 8 ∧ ∃ r, s.sysFork = some r ∧ r.2.mm.entry 8 284 ≠ s.mm.entry 8 284) ∧
    (let l := (bootNumbered.links.setNext (.head .freequeue) (some (.anchor 8))).setNext (.anchor 8) (some (.head .freequeue))
     let s : Kernel := { bootNumbered with links := l.setPrev (.anchor 8) (some (.head .freequeue)) }
     s.CanFork 8 8 ∧ ∃ r, s.sysFork = some r ∧ r.2.mm.entry 8 256 ≠ s.mm.entry 8 256) ∧
    (let s := (bootNumbered.setMm (bootNumbered.mm.setUserPages pagLogInitCode pagLogInitData 7)).modTask 8 fun c =>
       { c with dirPagesBaseAddr := some 7 }
     s.CanFork 7 7 ∧ ∃ r, s.sysFork = some r ∧ r.2.mm.entry 7 256 ≠ s.mm.entry 7 256) ∧
    (let s : Kernel := { bootNumbered with links := bootNumbered.links.setPrev (.head (.kids 8)) none }
     s.CanFork 7 8 ∧ s.sysFork = none) := by
  have hsome : ∀ {s : Kernel} {P : Int × Kernel → Prop} [∀ r, Decidable (P r)],
      s.sysFork.any (fun r => decide (P r)) = true → ∃ r, s.sysFork = some r ∧ P r := by
    intro s P _ h
    obtain ⟨r, hr, hd⟩ := (Option.any_eq_true _ _).mp h
    exact ⟨r, hr, of_decide_eq_true hd⟩
  refine ⟨⟨?_, ?_, ?_, hsome ?_⟩, ⟨?_, hsome ?_⟩, ⟨?_, hsome ?_⟩, ⟨?_, hsome ?_⟩, ?_, Option.isNone_iff_eq_none.mp ?_⟩
  all_goals decide +kernel

end Kernel

end ZeosSOA.Pparri
