import Mathlib.Data.Finset.Prod
import Mathlib.Data.Fintype.Card
import ZeosSOA.Sysenter.Frames
import ZeosSOA.Sysenter.Partition
import ZeosSOA.Sysenter.Semaphores

/-!
# ZeOSSysenter: where the frames are

In a system of processes that fork, exit, yield and are interrupted, every frame in use is
one of task 1's code frames or a data frame of exactly one process. There are then always
frames enough for another process.
-/

namespace ZeosSOA.Sysenter

open Mm Runs

/-! ## The frames of a set of processes -/

def dataFrame (m : Mm) (t : TaskId) (k : Nat) : Nat := m.getFrame t.val (pagLogInitData + k)

/-- Each of the processes has its data pages in frames of its own, and no other frame is in use
but the code frames. -/
structure DataFrames (busy : TaskId → Prop) (m : Mm) : Prop where
  present : ∀ t, busy t → ∀ k < numPagData, (m.entry t.val (pagLogInitData + k)).present = true
  range : ∀ t, busy t → ∀ k < numPagData, dataFrame m t k ∈ candidates ∧ firstDataFrame ≤ dataFrame m t k
  inj : ∀ t, busy t → ∀ u, busy u → ∀ j < numPagData, ∀ k < numPagData, dataFrame m t j = dataFrame m u k → t = u ∧ j = k
  used : ∀ f, numPagKernel ≤ f → f < totalPages → (m.physMem f = .used ↔
    f < firstDataFrame ∧ f % 2 = 0 ∨ ∃ t, busy t ∧ ∃ k < numPagData, dataFrame m t k = f)

section
variable {busy busy' : TaskId → Prop} {m m' : Mm}

theorem dataPage_lt {k : Nat} (hk : k < numPagData) : pagLogInitData + k < totalPages := by
  simp only [pagLogInitData_eq, numPagData, totalPages] at *
  omega

theorem DataFrames.congr (h : DataFrames busy m) (hb : ∀ t, busy' t ↔ busy t) : DataFrames busy' m := by
  obtain rfl : busy' = busy := funext fun t => propext (hb t)
  exact h

theorem DataFrames.release (h : DataFrames busy m) {t : TaskId} (ht : busy t) :
    DataFrames (fun u => busy u ∧ u ≠ t) (releaseData t.val numPagData m) := by
  obtain ⟨hent, hphys⟩ := releaseData_spec t.val m (n := numPagData) (by decide)
  have hother : ∀ u, u ≠ t → ∀ k < numPagData,
      (releaseData t.val numPagData m).entry u.val (pagLogInitData + k) = m.entry u.val (pagLogInitData + k) := by
    intro u hu k hk
    rw [hent _ _ (dataPage_lt hk), if_neg fun e => hu (Fin.ext e.1)]
  have hframe : ∀ u, u ≠ t → ∀ k < numPagData, dataFrame (releaseData t.val numPagData m) u k = dataFrame m u k :=
    fun u hu k hk => congrArg PageTableEntry.pbaseAddr (hother u hu k hk)
  refine ⟨fun u hu k hk => ?_, fun u hu k hk => ?_, fun u hu v hv j hj k hk e => ?_, fun f hf hf' => ?_⟩
  · rw [hother u hu.2 k hk]; exact h.present u hu.1 k hk
  · rw [hframe u hu.2 k hk]; exact h.range u hu.1 k hk
  · rw [hframe u hu.2 j hj, hframe v hv.2 k hk] at e
    exact h.inj u hu.1 v hv.1 j hj k hk e
  · rw [hphys f]
    have hown : (∃ k < numPagData, (m.entry t.val (pagLogInitData + k)).pbaseAddr = f) ↔
        ∃ k < numPagData, dataFrame m t k = f := Iff.rfl
    by_cases ho : ∃ k < numPagData, dataFrame m t k = f
    · obtain ⟨k, hk, rfl⟩ := ho
      have hr := (h.range t ht k hk).2
      rw [if_pos ⟨⟨k, hk, rfl⟩, by simp only [firstDataFrame, numPagKernel, numPagCode] at *; omega, hf'⟩]
      refine ⟨fun e => (nomatch e), ?_⟩
      rintro (hc | ⟨u, hu, j, hj, e⟩)
      · omega
      · rw [hframe u hu.2 j hj] at e
        exact absurd (h.inj u hu.1 t ht j hj k hk e).1 hu.2
    · rw [if_neg fun e => ho e.1, h.used f hf hf']
      refine or_congr_right ⟨?_, ?_⟩
      · rintro ⟨u, hu, k, hk, e⟩
        have hne : u ≠ t := fun e' => ho ⟨k, hk, e' ▸ e⟩
        exact ⟨u, ⟨hu, hne⟩, k, hk, (hframe u hne k hk).trans e⟩
      · rintro ⟨u, hu, k, hk, e⟩
        exact ⟨u, hu.1, k, hk, (hframe u hu.2 k hk).symm.trans e⟩

theorem DataFrames.alloc (h : DataFrames busy m) {t : TaskId} (ht : ¬ busy t) {m1 : Mm} {fr : Nat → Nat}
    (hm : Grown m m1 (t.val * totalPages + pagLogInitData) numPagData fr)
    (hent : ∀ (u : TaskId), ∀ k < numPagData, m'.entry u.val (pagLogInitData + k) = m1.entry u.val (pagLogInitData + k))
    (hphys : m'.physMem = m1.physMem) : DataFrames (fun u => u = t ∨ busy u) m' := by
  have hnew : ∀ k < numPagData, m'.entry t.val (pagLogInitData + k) =
      { present := true, rw := true, user := true, pbaseAddr := fr k } := by
    intro k hk
    rw [hent t k hk, hm.entry (by decide) _ (dataPage_lt hk), if_pos (by omega), Nat.add_sub_cancel_left]
  have hold : ∀ u, busy u → ∀ k < numPagData, m'.entry u.val (pagLogInitData + k) = m.entry u.val (pagLogInitData + k) := by
    intro u hu k hk
    have hne : u ≠ t := fun e => ht (e ▸ hu)
    rw [hent u k hk, hm.entry (by decide) _ (dataPage_lt hk), if_neg fun e => hne (Fin.ext e.1)]
  have hfnew : ∀ k < numPagData, dataFrame m' t k = fr k := fun k hk =>
    congrArg PageTableEntry.pbaseAddr (hnew k hk)
  have hfold : ∀ u, busy u → ∀ k < numPagData, dataFrame m' u k = dataFrame m u k := fun u hu k hk =>
    congrArg PageTableEntry.pbaseAddr (hold u hu k hk)
  have hfr : ∀ k < numPagData, numPagKernel ≤ fr k ∧ fr k < totalPages ∧ fr k % 2 = 0 := fun k hk =>
    mem_candidates.mp (hm.cand k hk)
  -- the new frames were free, so they are nobody's
  have hfresh : ∀ k < numPagData, ¬ (fr k < firstDataFrame ∧ fr k % 2 = 0 ∨
      ∃ u, busy u ∧ ∃ j < numPagData, dataFrame m u j = fr k) := fun k hk hu => by
    have := (h.used (fr k) (hfr k hk).1 (hfr k hk).2.1).mpr hu
    rw [hm.free k hk] at this
    cases this
  refine ⟨?_, ?_, ?_, fun f hf hf' => ?_⟩
  · rintro u (rfl | hu) k hk
    · rw [hnew k hk]
    · rw [hold u hu k hk]; exact h.present u hu k hk
  · rintro u (rfl | hu) k hk
    · rw [hfnew k hk]
      exact ⟨hm.cand k hk, Nat.le_of_not_lt fun hlt => hfresh k hk (.inl ⟨hlt, (hfr k hk).2.2⟩)⟩
    · rw [hfold u hu k hk]; exact h.range u hu k hk
  · rintro u (rfl | hu) v (rfl | hv) j hj k hk e
    · rw [hfnew j hj, hfnew k hk] at e
      exact ⟨rfl, hm.inj j hj k hk e⟩
    · rw [hfnew j hj, hfold v hv k hk] at e
      exact absurd (.inr ⟨v, hv, k, hk, e.symm⟩) (hfresh j hj)
    · rw [hfold u hu j hj, hfnew k hk] at e
      exact absurd (.inr ⟨u, hu, j, hj, e⟩) (hfresh k hk)
    · rw [hfold u hu j hj, hfold v hv k hk] at e
      exact h.inj u hu v hv j hj k hk e
  · rw [hphys, hm.phys f]
    by_cases ho : ∃ k < numPagData, fr k = f
    · rw [if_pos ho]
      obtain ⟨k, hk, e⟩ := ho
      exact ⟨fun _ => .inr ⟨t, .inl rfl, k, hk, (hfnew k hk).trans e⟩, fun _ => rfl⟩
    · rw [if_neg ho, h.used f hf hf']
      refine or_congr_right ⟨?_, ?_⟩
      · rintro ⟨u, hu, k, hk, e⟩
        exact ⟨u, .inr hu, k, hk, (hfold u hu k hk).trans e⟩
      · rintro ⟨u, rfl | hu, k, hk, e⟩
        · exact absurd ⟨k, hk, (hfnew k hk).symm.trans e⟩ ho
        · exact ⟨u, hu, k, hk, (hfold u hu k hk).symm.trans e⟩

theorem DataFrames.enough (h : DataFrames busy m) {t u : TaskId} (htu : t ≠ u) (ht : ¬ busy t) (hu : ¬ busy u) :
    numPagData ≤ m.freeCount := by
  classical
  let code : Finset Nat := (Finset.range numPagCode).image fun k => numPagKernel + 2 * k
  let data : Finset Nat := (((Finset.univ.erase t).erase u) ×ˢ Finset.range numPagData).image fun x => dataFrame m x.1 x.2
  have hcode : code.card ≤ numPagCode := Finset.card_image_le.trans_eq (Finset.card_range _)
  have hdata : data.card ≤ 8 * numPagData := by
    refine Finset.card_image_le.trans_eq ?_
    rw [Finset.card_product, Finset.card_range, Finset.card_erase_of_mem (by simp [htu.symm]),
      Finset.card_erase_of_mem (Finset.mem_univ t), Finset.card_univ, Fintype.card_fin]
    rfl
  have hsub : (candidates.filter fun f => ¬ m.physMem f = .free).toFinset ⊆ code ∪ data := by
    intro f hf
    rw [List.mem_toFinset, List.mem_filter] at hf
    obtain ⟨hc, hused⟩ := hf
    obtain ⟨h1, h2, h3⟩ := mem_candidates.mp hc
    have hused' : m.physMem f = .used := by
      cases hx : m.physMem f with
      | free => simp [hx] at hused
      | used => rfl
    rcases (h.used f h1 h2).mp hused' with ⟨hlt, _⟩ | ⟨v, hv, k, hk, e⟩
    · refine Finset.mem_union_left _ (Finset.mem_image.mpr ⟨(f - numPagKernel) / 2, ?_, ?_⟩)
      · rw [Finset.mem_range]
        simp only [firstDataFrame, numPagKernel, numPagCode] at *
        omega
      · simp only [numPagKernel] at *; omega
    · refine Finset.mem_union_right _ (Finset.mem_image.mpr ⟨(v, k), ?_, e⟩)
      have hvt : v ≠ t := fun e => ht (e ▸ hv)
      have hvu : v ≠ u := fun e => hu (e ▸ hv)
      simp [hvt, hvu, hk]
  have hlen : (candidates.filter fun f => ¬ m.physMem f = .free).length ≤ numPagCode + 8 * numPagData := by
    rw [← List.toFinset_card_of_nodup (candidates_nodup.filter _)]
    exact (Finset.card_le_card hsub).trans ((Finset.card_union_le _ _).trans (Nat.add_le_add hcode hdata))
  have htotal := List.length_eq_countP_add_countP (fun f => decide (m.physMem f = .free)) (l := candidates)
  have hcand : candidates.length = 384 := List.length_range'
  rw [List.countP_eq_length_filter (p := fun f => decide ¬ (decide (m.physMem f = .free)) = true)] at htotal
  simp only [decide_eq_true_eq] at htotal
  unfold freeCount
  simp only [numPagCode, numPagData] at *
  omega

end

/-! ## Steps -/

/-- The events of a system of processes that only fork, exit, yield and are interrupted. -/
def Kernel.Op.Plain : Kernel.Op → Prop
  | .clock | .yield | .fork | .exit => True
  | _ => False

namespace AbsKernel

/-- The struct is in use, and not for idle. -/
def Busy (a : AbsKernel) (t : TaskId) : Prop := t ≠ a.idleTask ∧ t ∉ a.queue .freequeue

/-- The process has the directory that goes with its struct, and no heap. -/
structure Own (t : TaskId) (c : TaskCore) : Prop where
  dir : c.dirPagesBaseAddr = some t.val
  semafors : c.semafors ≠ none
  heap : c.heapPointerProc = c.heapStartProc

structure Accounted (a : AbsKernel) : Prop where
  full : a.Full
  unblocked : ∀ tab i, a.queue (.blocked tab i) = []
  own : ∀ t, a.Busy t → Own t (a.task t)
  frames : DataFrames a.Busy a.mm
  pid : 0 < a.globalPID

section
variable {a b : AbsKernel}

theorem Accounted.alike (h : Accounted a) (hs : Alike a b) (hf : b.Full)
    (hu : ∀ tab i, b.queue (.blocked tab i) = []) : Accounted b where
  full := hf
  unblocked := hu
  own t ht := by
    obtain ⟨st, e⟩ := hs.task t
    obtain ⟨h1, h2, h3⟩ := h.own t (by rwa [Busy, hs.idle, hs.free] at ht)
    exact ⟨by rw [e]; exact h1, by rw [e]; exact h2, by rw [e]; exact h3⟩
  frames := by
    rw [hs.mm]
    exact h.frames.congr fun t => by rw [Busy, Busy, hs.idle, hs.free]
  pid := by rw [hs.globalPID]; exact h.pid

theorem busy_current (h : Good a) (hi : a.current ≠ a.idleTask) : a.Busy a.current :=
  ⟨hi, h.current .freequeue⟩

theorem Accounted.exit (h : Accounted a) (g : Good a) (hi : a.current ≠ a.idleTask) (hb : a.exit = some b)
    (hf : b.Full) (hu : ∀ tab i, b.queue (.blocked tab i) = []) : Accounted b := by
  obtain ⟨pt, hp, mm, hpt, hrel, hl⟩ := leaves_exit g hb
  have hcur := busy_current g hi
  obtain ⟨hdir, -, hheap⟩ := h.own _ hcur
  obtain rfl : pt = a.current.val := Option.some.inj (hpt.symm.trans hdir)
  obtain rfl := (releaseHeap_keeps hheap.ge hrel).2
  have hbusy : ∀ t, b.Busy t ↔ a.Busy t ∧ t ≠ a.current := fun t => by
    rw [Busy, Busy, hl.idle, hl.free, List.mem_append, List.mem_singleton, not_or, and_assoc]
  refine ⟨hf, hu, fun t ht => ?_, by rw [hl.mm]; exact (h.frames.release hcur).congr hbusy, by rw [hl.globalPID]; exact h.pid⟩
  obtain ⟨ht, hne⟩ := (hbusy t).mp ht
  obtain ⟨st, e⟩ := hl.task t hne
  obtain ⟨h1, h2, h3⟩ := h.own t ht
  exact ⟨by rw [e]; exact h1, by rw [e]; exact h2, by rw [e]; exact h3⟩

theorem Accounted.enough (h : Accounted a) (g : Good a) {child : TaskId} {rest : List TaskId}
    (hq : a.queue .freequeue = child :: rest) : numPagData ≤ a.mm.freeCount :=
  h.frames.enough (g.child_ne hq).2 (fun hb => hb.2 (by rw [hq]; exact List.mem_cons_self)) fun hb => hb.1 rfl

theorem full_forkStart (hf : a.Full) (hu : ∀ tab i, a.queue (.blocked tab i) = []) {child : TaskId} {rest : List TaskId}
    (hq : a.queue .freequeue = child :: rest) {tab : SemTable} {mm : Mm} :
    (((a.forkChild child rest tab).setMm mm).forkStart child).Full := by
  have hm := hf.move hq .readyqueue (a.queue .readyqueue ++ [child]) fun u hu => by
    simpa [AbsKernel.setQueue, or_comm] using hu
  intro t
  refine (hm t).imp_right (Or.imp_right ?_)
  rintro ⟨i, hi⟩
  cases i with
  | freequeue => exact ⟨.freequeue, hi⟩
  | readyqueue =>
    exact ⟨.readyqueue, by simpa [forkStart, forkChild, resetSemafors, copyTask, push, setQueue, modTask, setMm] using hi⟩
  | blocked tab i =>
    have : t ∈ a.queue (.blocked tab i) := hi
    rw [hu] at this
    cases this

theorem Accounted.fork (h : Accounted a) (g : Good a) (hi : a.current ≠ a.idleTask) {r : Int × AbsKernel}
    (hr : a.fork = some r) : Accounted r.2 := by
  rcases fork_cases hr with ⟨-, rfl⟩ | ⟨child, rest, tab, hq, htab, ⟨mm, he, rfl⟩ |
    ⟨m1, pt, mm, he, hpt, hmap, rfl⟩⟩
  · exact h
  · have := (forkAllocData_fst child.val numPagData 0 a.mm).mpr (h.enough g hq)
    rw [he] at this
    cases this
  · obtain ⟨fr, hm⟩ := forkAllocData_data he
    obtain ⟨hent, hphys⟩ := forkMap_some hmap
    have hchild : ¬ a.Busy child := fun hb => hb.2 (by rw [hq]; exact List.mem_cons_self)
    have hnd : child ∉ rest := by
      have := g.nodup .freequeue
      rw [hq] at this
      exact (List.nodup_cons.mp this).1
    have hbusy : ∀ t, (((a.forkChild child rest tab).setMm mm).forkStart child).Busy t ↔ t = child ∨ a.Busy t := by
      intro t
      have hfree : (((a.forkChild child rest tab).setMm mm).forkStart child).queue .freequeue = rest := by
        simp [forkStart, forkChild, resetSemafors, copyTask, push, setQueue, modTask, setMm]
      have hidle : (((a.forkChild child rest tab).setMm mm).forkStart child).idleTask = a.idleTask := rfl
      rw [Busy, Busy, hfree, hidle, hq, List.mem_cons, not_or]
      have := (g.child_ne hq).2
      grind
    have hcode : numPagKernel + numPagCode = pagLogInitData := rfl
    refine ⟨full_forkStart h.full h.unblocked hq, fun tab' i => ?_, fun t ht => ?_, ?_, ?_⟩
    · have hnil := (forkChild_sublist hq tab (.blocked tab' i)).subset
      rw [h.unblocked] at hnil
      exact List.eq_nil_of_subset_nil hnil
    · rw [forkStart_task]
      split
      · rename_i e; subst e
        exact ⟨rfl, by simp [htab], (h.own _ (busy_current g hi)).heap⟩
      · rename_i hne
        exact h.own t (((hbusy t).mp ht).resolve_left hne)
    · refine (h.frames.alloc hchild hm (fun u k hk => ?_) hphys).congr hbusy
      rw [hent _ _ (dataPage_lt hk) (.inl (by omega)), if_neg fun e => by omega]
    · have := h.pid
      show 0 < a.globalPID + 1
      omega

theorem Accounted.fork_some (h : Accounted a) (g : Good a) (hi : a.current ≠ a.idleTask) : ∃ r, a.fork = some r ∧
    (r.1 = -ENOMEM ∧ a.queue .freequeue = [] ∨ r.1 = a.globalPID + 1) := by
  unfold AbsKernel.fork
  cases hq : a.queue .freequeue with
  | nil => exact ⟨_, rfl, .inl ⟨rfl, rfl⟩⟩
  | cons child rest =>
    have hbusy := busy_current g hi
    obtain ⟨hdir, hsem, hheap⟩ := h.own _ hbusy
    obtain ⟨tab, htab⟩ := Option.ne_none_iff_exists'.mp hsem
    have hal := (forkAllocData_fst child.val numPagData 0 a.mm).mpr (h.enough g hq)
    obtain ⟨m1, he⟩ : ∃ m1, forkAllocData child.val numPagData 0 a.mm = (true, m1) := ⟨_, Prod.ext hal rfl⟩
    obtain ⟨fr, hm⟩ := forkAllocData_data he
    have hpresent : ∀ page, pagLogInitData ≤ page → page < pagLogInitData + numPagData →
        (m1.entry a.current.val page).present = true := by
      intro page h1 h2
      obtain ⟨k, rfl⟩ := Nat.exists_eq_add_of_le h1
      rw [hm.entry (by decide) _ (dataPage_lt (by omega)), if_neg fun e => (g.child_ne hq).1 (Fin.ext e.1)]
      exact h.frames.present _ hbusy k (by omega)
    obtain ⟨mm, hmap⟩ := Option.isSome_iff_exists.mp (forkMap_isSome child.val hheap.le hpresent)
    refine ⟨(a.globalPID + 1, ((a.forkChild child rest tab).setMm mm).forkStart child), ?_, .inr rfl⟩
    simp [htab, he, hdir, hmap]

theorem Accounted.step (h : Accounted a) (g : Good a) {ok : Bool} {op : Kernel.Op} (hop : op.Plain)
    (hb : a.step ok op = some b) : Accounted b := by
  have hsem := AbsKernel.sem_step hb
  unfold AbsKernel.step at hb
  split at hb
  · cases hb
  rename_i hidle
  -- only `sys_fork` can empty a list of blocked tasks, and there are none
  have hu : op ≠ .fork → ∀ tab i, b.queue (.blocked tab i) = [] := by
    intro hne tab i
    rcases hsem hne tab i with hk | ⟨⟨v, rfl⟩, -⟩ | ⟨k, rfl | rfl | rfl, -⟩
    · rw [hk.waiting]; exact h.unblocked tab i
    all_goals cases hop
  cases op <;> simp only [Kernel.Op.Plain, AbsKernel.handle] at hop hb
  case clock =>
    cases hb
    exact h.alike (sched_clock a).toAlike h.full.clock (hu (by simp))
  case yield =>
    cases hb
    exact h.alike (sched_forceTaskSwitch a).toAlike h.full.forceTaskSwitch (hu (by simp))
  case fork =>
    obtain ⟨r, hr, rfl⟩ := Option.map_eq_some_iff.mp hb
    exact h.fork g (fun e => hidle ⟨by simp, e.symm⟩) hr
  case exit =>
    refine h.exit g (fun e => hidle ⟨by simp, e.symm⟩) hb ?_ (hu (by simp))
    obtain ⟨pt, -, hb⟩ := Option.bind_eq_some_iff.mp hb
    obtain ⟨⟨hp, mm⟩, -, hb⟩ := Option.bind_eq_some_iff.mp hb
    cases hb
    exact AbsKernel.Full.leave h.full

end

end AbsKernel

theorem boot_accounted (mc : Machine) : (bootAbs mc).Accounted := by
  obtain ⟨hent, hphys⟩ := boot_memory mc
  have hbusy : ∀ t, (bootAbs mc).Busy t ↔ t = 1 := by
    have key : ∀ t : TaskId, t ≠ 0 ∧ t ∉ [2, 3, 4, 5, 6, 7, 8, (9 : TaskId)] ↔ t = 1 := by decide
    exact key
  have hentry : ∀ k < numPagData, (bootAbs mc).mm.entry 1 (pagLogInitData + k) =
      { present := true, rw := true, user := true, pbaseAddr := 272 + 2 * k } := fun k hk => by
    rw [hent 1 _ (by decide) (dataPage_lt hk), if_pos ⟨rfl, by omega, by omega⟩, Nat.add_sub_cancel_left]
  have hframe : ∀ k < numPagData, dataFrame (bootAbs mc).mm 1 k = 272 + 2 * k := fun k hk =>
    congrArg PageTableEntry.pbaseAddr (hentry k hk)
  refine ⟨boot_full mc, fun _ _ => rfl, fun t ht => ?_, ⟨fun t ht k hk => ?_, fun t ht k hk => ?_,
    fun t ht u hu j hj k hk e => ?_, fun f hf hf' => ?_⟩, show (0 : Int) < 1000 by decide⟩
  · obtain rfl := (hbusy t).mp ht
    rw [boot_task1]
    exact ⟨rfl, nofun, rfl⟩
  · obtain rfl := (hbusy t).mp ht
    exact congrArg PageTableEntry.present (hentry k hk)
  · obtain rfl := (hbusy t).mp ht
    rw [hframe k hk, mem_candidates]
    simp only [firstDataFrame, numPagKernel, numPagCode, numPagData, totalPages] at *
    omega
  · obtain rfl := (hbusy t).mp ht
    obtain rfl := (hbusy u).mp hu
    rw [hframe j hj, hframe k hk] at e
    exact ⟨rfl, by omega⟩
  · rw [hphys f hf']
    simp only [firstDataFrame, numPagKernel, numPagCode, totalPages] at *
    constructor
    · intro h
      by_cases hlt : f < 272
      · exact .inl ⟨hlt, by omega⟩
      · exact .inr ⟨1, (hbusy 1).mpr rfl, (f - 272) / 2, by simp only [numPagData]; omega, by
          rw [hframe _ (by simp only [numPagData]; omega)]; omega⟩
    · rintro (h | ⟨t, ht, k, hk, e⟩)
      · omega
      · obtain rfl := (hbusy t).mp ht
        rw [hframe k hk] at e
        simp only [numPagData] at hk
        omega

/-! ## The accounts -/

namespace Kernel

/-- A process other than idle: without threads, a live task. -/
def Process (s : Kernel) (t : TaskId) : Prop := s.Live t ∧ s.idleTask ≠ some t

def MapsData (s : Kernel) (t : TaskId) (k f : Nat) : Prop :=
  ∃ pt, s.getPT t = some pt ∧ s.mm.translate pt (pagLogInitData + k) = some f

/-- The frames that task 1 got for its code. -/
def CodeFrame (mc : Machine) (f : Nat) : Prop :=
  ∃ k < numPagCode, (boot mc).mm.translate 1 (pagLogInitCode + k) = some f

structure FramesAccounted (mc : Machine) (s : Kernel) : Prop where
  used : ∀ f, numPagKernel ≤ f → f < totalPages → (s.mm.physMem f = .used ↔
    CodeFrame mc f ∨ ∃! x : TaskId × Fin numPagData, s.Process x.1 ∧ s.MapsData x.1 x.2 f)
  data : ∀ t, s.Process t → ∀ k < numPagData, ∃ f, s.MapsData t k f
  apart : ∀ t, s.Process t → ∀ u, s.Process u → ∀ j < numPagData, ∀ k < numPagData, ∀ f,
    s.MapsData t j f → s.MapsData u k f → t = u ∧ j = k
  fork : s.idleTask ≠ some s.current → ∀ ebp, ∃ r, s.sysFork ebp = some r ∧ (r.1 = -ENOMEM ∨ 0 < r.1)

end Kernel

theorem Rep.process {s : Kernel} {a : AbsKernel} (h : Rep s a) (g : a.Good) (ha : a.Accounted) (t : TaskId) :
    s.Process t ↔ a.Busy t := by
  rw [Kernel.Process, h.live, h.idle_iff]
  constructor
  · rintro ⟨hl, hi⟩
    exact ⟨hi, fun hf => AbsKernel.not_live_of_free g hf hl⟩
  · rintro ⟨hi, hf⟩
    refine ⟨?_, hi⟩
    rcases ha.full t with e | e | ⟨i, hm⟩
    · exact .inl e
    · exact absurd e hi
    · cases i with
      | freequeue => exact absurd hm hf
      | readyqueue => exact .inr (.inl hm)
      | blocked tab i => exact .inr (.inr ⟨tab, i, hm⟩)

theorem Rep.mapsData {s : Kernel} {a : AbsKernel} (h : Rep s a) (ha : a.Accounted) {t : TaskId} (ht : a.Busy t)
    {k : Nat} (hk : k < numPagData) (f : Nat) : s.MapsData t k f ↔ dataFrame a.mm t k = f := by
  have hpt : s.getPT t = some t.val := (congrArg TaskCore.dirPagesBaseAddr (h.task t)).trans (ha.own t ht).dir
  have htr := translate_of_present (dataPage_lt hk) (ha.frames.present t ht k hk)
  unfold Kernel.MapsData
  rw [hpt, h.mm]
  constructor
  · rintro ⟨pt, e, hf⟩
    obtain rfl := Option.some.inj e
    exact Option.some.inj (htr.symm.trans hf)
  · rintro rfl
    exact ⟨t.val, rfl, htr⟩

theorem codeFrame_iff (mc : Machine) (f : Nat) :
    Kernel.CodeFrame mc f ↔ numPagKernel ≤ f ∧ f < firstDataFrame ∧ f % 2 = 0 := by
  have hentry : ∀ k < numPagCode, (Kernel.boot mc).mm.entry 1 (pagLogInitCode + k) =
      { present := true, rw := false, user := true, pbaseAddr := 256 + 2 * k } := fun k hk => by
    rw [← bootAbs_mm, (boot_memory mc).1 1 _ (by decide) (by simp only [pagLogInitCode_eq, numPagCode, totalPages] at *; omega),
      if_neg (by simp only [pagLogInitData, pagLogInitCode_eq, numPagCode] at *; omega), if_pos ⟨rfl, by omega, by omega⟩,
      Nat.add_sub_cancel_left]
  have htr : ∀ k < numPagCode, (Kernel.boot mc).mm.translate 1 (pagLogInitCode + k) = some (256 + 2 * k) := fun k hk => by
    rw [translate_of_present (by simp only [pagLogInitCode_eq, numPagCode, totalPages] at *; omega) (by rw [hentry k hk]), hentry k hk]
  simp only [firstDataFrame, numPagKernel, numPagCode] at *
  constructor
  · rintro ⟨k, hk, e⟩
    rw [htr k hk] at e
    obtain rfl := Option.some.inj e
    simp only [numPagCode] at hk
    omega
  · rintro ⟨h1, h2, h3⟩
    refine ⟨(f - 256) / 2, by simp only [numPagCode]; omega, ?_⟩
    rw [htr _ (by omega)]
    exact congrArg some (by omega)

/-- In a system of processes that fork, exit, yield and are interrupted the frames in use are
those of the code and one for each data page, and forking fails only for want of a struct. -/
theorem frames_accounted (mc : Machine) {es : List Kernel.Event} (hes : ∀ e ∈ es, e.op.Plain) {s : Kernel}
    (he : exec Kernel.step (Kernel.boot mc) es = some s) : s.FramesAccounted mc := by
  obtain ⟨a, h, g, ha⟩ := run_invariant (J := AbsKernel.Accounted) (P := fun _ e _ => e.op.Plain)
    (fun _ _ _ _ _ _ g ha hp _ hb _ => ha.step g hp hb) (boot_rep mc) (boot_good mc) (boot_accounted mc)
    (allSteps_of_forall (fun _ _ _ hp => hp) hes) he
  have hproc := h.process g ha
  refine ⟨fun f hf hf' => ?_, fun t ht k hk => ?_, fun t ht u hu j hj k hk f hj' hk' => ?_, fun hi ebp => ?_⟩
  · rw [h.mm, ha.frames.used f hf hf', codeFrame_iff]
    refine or_congr (by simp only [hf, true_and]) ⟨?_, ?_⟩
    · rintro ⟨t, ht, k, hk, e⟩
      refine ⟨(t, ⟨k, hk⟩), ⟨(hproc t).mpr ht, (h.mapsData ha ht hk f).mpr e⟩, ?_⟩
      rintro ⟨u, j⟩ ⟨hu, hm⟩
      have hu' := (hproc u).mp hu
      obtain ⟨rfl, hjk⟩ := ha.frames.inj u hu' t ht j j.isLt k hk (((h.mapsData ha hu' j.isLt f).mp hm).trans e.symm)
      exact Prod.ext rfl (Fin.ext hjk)
    · rintro ⟨⟨t, k⟩, ⟨ht, hm⟩, -⟩
      have ht' := (hproc t).mp ht
      exact ⟨t, ht', k, k.isLt, (h.mapsData ha ht' k.isLt f).mp hm⟩
  · have ht' := (hproc t).mp ht
    exact ⟨_, (h.mapsData ha ht' hk _).mpr rfl⟩
  · have ht' := (hproc t).mp ht
    have hu' := (hproc u).mp hu
    exact ha.frames.inj t ht' u hu' j hj k hk
      (((h.mapsData ha ht' hj f).mp hj').trans ((h.mapsData ha hu' hk f).mp hk').symm)
  · obtain ⟨r, hr, hret⟩ := ha.fork_some g (h.not_idle.mp hi)
    obtain ⟨x, hx, hx1⟩ := ret_some (h.sysFork (g.current _) ebp) hr
    refine ⟨x, hx, ?_⟩
    rw [hx1]
    have := ha.pid
    exact hret.imp And.left fun e => by omega

/-- Task 1 forks twice, the first child exits, and task 1 forks again. -/
theorem frames_accounted_forks : ∃ s, exec Kernel.step (Kernel.boot .blank)
    [⟨.fork, 8⟩, ⟨.fork, 8⟩, ⟨.yield, 0⟩, ⟨.exit, 0⟩, ⟨.yield, 0⟩, ⟨.fork, 8⟩] = some s ∧ s.FramesAccounted .blank := by
  have hrun : (exec Kernel.step (Kernel.boot .blank)
    [⟨.fork, 8⟩, ⟨.fork, 8⟩, ⟨.yield, 0⟩, ⟨.exit, 0⟩, ⟨.yield, 0⟩, ⟨.fork, 8⟩]).isSome = true := by decide +kernel
  obtain ⟨s, hs⟩ := Option.isSome_iff_exists.mp hrun
  exact ⟨s, hs, frames_accounted .blank (by simp [Kernel.Op.Plain]) hs⟩

end ZeosSOA.Sysenter
