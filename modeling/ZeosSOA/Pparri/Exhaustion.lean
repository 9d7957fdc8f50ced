import ZeosSOA.Pparri.ForkMemory

/-!
# zeOSpparri: a fork without frames

The test that should stop `sys_fork` when a frame is missing looks at the address of the
array. So the call goes on: it maps the failure value of `alloc_frame` in the table of the
child, and starts it.
-/

namespace ZeosSOA.Pparri

open Intrusive Mm

/-- What `set_ss_pag` makes of the failure value -1. -/
def failureEntry : PageTableEntry := { present := true, rw := true, user := true, pbaseAddr := 0xFFFFF }

/-! ## The frames and the tables -/

section
variable {newKidPT dadPT : Nat} {m m' : Mm}

theorem allocFrames_freeCount : ∀ (n : Nat) (m : Mm), (allocFrames n m).2.freeCount = m.freeCount - n
  | 0, m => (Nat.sub_zero m.freeCount).symm
  | n + 1, m => by
    rw [allocFrames]
    rcases allocFrame_cases m with ⟨f, hf, hfree, e⟩ | ⟨hused, e⟩ <;> rw [e] <;> dsimp only
    · have hcount := freeCount_alloc hf hfree
      rw [allocFrames_freeCount n]
      omega
    · rw [allocFrames_freeCount n, freeCount_eq_zero.mpr hused]
      simp

theorem forkCopyPage_some {x : Int × Nat} (h : forkCopyPage dadPT m x = some m') :
    Touches (fun i => i = dadPT * totalPages + (x.2 + diff)) m m' ∧ m'.physMem = m.physMem := by
  obtain ⟨src, -, h⟩ := Option.bind_eq_some_iff.mp h
  obtain ⟨dst, -, h⟩ := Option.bind_eq_some_iff.mp h
  cases h
  constructor
  · apply Touches.trans
    · exact touches_setSsPag m x.1 rfl
    · exact touches_setEntry ((m.setSsPag dadPT (x.2 + diff) x.1).copyFrame src dst) _ rfl
  · rfl

theorem forkMap_some {fr : Nat → Int} (h : forkMap newKidPT dadPT ((List.range numPagData).map fr) m = some m') :
    (∀ k < numPagData, m'.entry newKidPT (pagLogInitData + k) =
      { present := true, rw := true, user := true, pbaseAddr := frameBits (fr k) }) ∧ m'.physMem = m.physMem := by
  have hd : pagLogInitData = 256 := rfl
  have hdiff : diff = 284 := rfl
  obtain ⟨hent, hphys, -⟩ := forkMapData_spec newKidPT fr (forkInherit newKidPT dadPT m) (n := numPagData) (by decide)
  obtain ⟨-, hphys', -⟩ := forkInherit_spec newKidPT dadPT m
  rw [forkMap] at h
  generalize forkMapData newKidPT ((List.range numPagData).map fr) (forkInherit newKidPT dadPT m) = m₂ at h hent hphys
  rw [zipIdx_map_range, List.foldlM_map] at h
  have hwin : Touches (fun i => ∃ k < numPagData, i = dadPT * totalPages + (k + diff)) m₂ m' := by
    refine touches_foldlM (fun k hk m₃ m₄ h₁ => ?_) h
    intro i hi
    apply (forkCopyPage_some h₁).1
    exact fun e => hi ⟨k, List.mem_range.mp hk, e⟩
  refine ⟨fun k hk => ?_, ?_⟩
  · simp only [numPagData] at hk
    -- the window is behind the data pages, in whatever table it is
    have hout : m'.entry newKidPT (pagLogInitData + k) = m₂.entry newKidPT (pagLogInitData + k) := by
      apply hwin
      rintro ⟨j, hj, e⟩
      simp only [numPagData, totalPages] at *
      omega
    rw [hout, hent _ _ (by simp only [totalPages]; omega), if_pos ⟨rfl, by omega, by simp only [numPagData]; omega⟩,
      Nat.add_sub_cancel_left]
  · rw [foldlM_physMem (fun _ _ _ h₁ => (forkCopyPage_some h₁).2) h, hphys, hphys']

end

/-! ## The call -/

namespace Kernel

/-- The call has given back what it took: the frames, the tables, the queues and the next PID are as before, except
that the struct which was the first of the freequeue is the last one. -/
structure GivenBack (s s' : Kernel) : Prop where
  frames : s'.mm.physMem = s.mm.physMem
  tables : s'.mm.pagusrTable = s.mm.pagusrTable
  sumPID : s'.sumPID = s.sumPID
  freequeue : ∀ (t : TaskId) (ts : List TaskId), s.links.Ring (.head .freequeue) ((t :: ts).map .anchor) →
    s'.links.Ring (.head .freequeue) ((ts ++ [t]).map .anchor)
  readyqueue : ∀ ts : List TaskId, s.links.Ring (.head .readyqueue) (ts.map .anchor) →
    s'.links.Ring (.head .readyqueue) (ts.map .anchor)
  kids : ∀ ts : List TaskId, s.links.Ring (.head (.kids s.current)) (ts.map .anchor) →
    s'.links.Ring (.head (.kids s.current)) (ts.map .anchor)

section
variable {s : Kernel} {r : Int × Kernel}

theorem sysFork_pid (hne : s.listEmpty .freequeue = false) (h : s.sysFork = some r) :
    r.1 = s.sumPID ∧ r.2.sumPID = s.sumPID + 1 := by
  unfold sysFork at h
  rw [if_neg (by simp [hne])] at h
  obtain ⟨getH, -, h⟩ := Option.bind_eq_some_iff.mp h
  obtain ⟨s1, h1, h⟩ := Option.bind_eq_some_iff.mp h
  obtain ⟨newKid, -, h⟩ := Option.bind_eq_some_iff.mp h
  obtain ⟨s2, h2, h⟩ := Option.bind_eq_some_iff.mp h
  obtain ⟨s3, h3, h⟩ := Option.bind_eq_some_iff.mp h
  obtain ⟨s4, h4, h⟩ := Option.bind_eq_some_iff.mp h
  obtain ⟨l1, -, rfl⟩ := listDel_some h1
  obtain ⟨mm, pt, dad, -, -, -, rfl⟩ := forkSpace_some h2
  obtain ⟨l3, -, rfl⟩ := listAddTail_some h3
  obtain ⟨l4, -, rfl⟩ := listAddTail_some h4
  cases h
  exact ⟨rfl, rfl⟩

/-- With too few free frames a `sys_fork` that comes back has started a child, the frames that were left are taken,
and behind them the child has pages of the failure value. -/
theorem fork_exhausted (hne : s.listEmpty .freequeue = false) (hfew : s.mm.freeCount < numPagData)
    (h : s.sysFork = some r) : ∃ child, s.listFirst .freequeue = some (.anchor child) ∧
      r.1 = s.sumPID ∧ r.2.sumPID = s.sumPID + 1 ∧ r.2.mm.freeCount = 0 ∧
      ∀ k, s.mm.freeCount ≤ k → k < numPagData → r.2.mm.entry child.val (pagLogInitData + k) = failureEntry := by
  obtain ⟨hret, hsum⟩ := sysFork_pid hne h
  rcases sysFork_cases h with ⟨hempty, -⟩ | ⟨-, child, l, dad, mm, hfirst, -, hmm, hstart⟩
  · rw [hne] at hempty
    cases hempty
  · obtain ⟨fr, hfr, -⟩ := allocFrames_spec numPagData s.mm
    rw [hfr] at hmm
    obtain ⟨hmap, hphys⟩ := forkMap_some hmm
    have hmem : r.2.mm = mm := hstart.mm
    refine ⟨child, hfirst, hret, hsum, ?_, fun k hk hlt => ?_⟩
    · have hcount : mm.freeCount = (allocFrames numPagData s.mm).2.freeCount := by
        rw [freeCount, hphys, ← freeCount]
      rw [hmem, hcount, allocFrames_freeCount]
      omega
    · rw [hmem, hmap k hlt, if_neg (by omega)]
      rfl

/-- `sys_fork` never fails for want of a frame. -/
theorem fork_exhausted_not_given_back (hne : s.listEmpty .freequeue = false) (hfew : s.mm.freeCount < numPagData) :
    ¬ ∃ s', s.sysFork = some (-EAGAIN, s') ∧ s.GivenBack s' := by
  rintro ⟨s', h, hback⟩
  obtain ⟨-, -, -, hsum, -⟩ := fork_exhausted hne hfew h
  rw [hback.sumPID] at hsum
  omega

end

/-- The booted kernel with one frame left. -/
def shortOfFrames : Kernel :=
  bootNumbered.setMm { bootNumbered.mm with physMem := fun f => if f = 312 then .free else .used }

theorem fork_exhausted_not_given_back_short :
    ¬ ∃ s', shortOfFrames.sysFork = some (-EAGAIN, s') ∧ shortOfFrames.GivenBack s' :=
  fork_exhausted_not_given_back (by decide +kernel) (by decide +kernel)

/-- The child gets PID 2 and that frame; from the page 257 on its pages are of the failure value. -/
theorem fork_maps_failure : shortOfFrames.listEmpty .freequeue = false ∧ shortOfFrames.mm.freeCount = 1 ∧
    (∃ r, shortOfFrames.sysFork = some r ∧ r.1 = 2 ∧ r.2.mm.entry 7 257 = failureEntry) ∧
    ¬ ∃ s', shortOfFrames.sysFork = some (-EAGAIN, s') ∧ shortOfFrames.GivenBack s' := by
  have hrun : shortOfFrames.sysFork.any (fun r => decide (r.1 = 2 ∧ r.2.mm.entry 7 257 = failureEntry)) = true := by
    decide +kernel
  obtain ⟨r, hr, hd⟩ := (Option.any_eq_true _ _).mp hrun
  obtain ⟨hpid, hent⟩ := of_decide_eq_true hd
  refine ⟨by decide +kernel, by decide +kernel, ⟨r, hr, hpid, hent⟩, ?_⟩
  rintro ⟨s', h, -⟩
  rw [hr] at h
  cases h
  cases hpid

end Kernel

end ZeosSOA.Pparri
