import ZeosSOA.Sysenter.Ownership

/-!
# ZeOSSysenter: what a process leaves behind

Without threads every live task has the table that comes with its struct. `sys_exit`
releases the data pages of its table; the condition of its loop over the heap has the two
pointers the wrong way round, so that the rest of the table stays as it is.
-/

namespace ZeosSOA.Sysenter

open Mm Runs

namespace Kernel

def Op.OnThreads : Op → Prop
  | .threadCreate _ _ _ | .threadExit => True
  | _ => False

/-- The frame is mapped in a data, stack or heap page of the table. -/
def Maps (s : Kernel) (pt frame : Nat) : Prop :=
  ∃ page, OwnPage page ∧ (s.mm.entry pt page).present = true ∧ s.mm.getFrame pt page = frame

/-- The current task, with the table `pt`, has the frame, and no other live task has it. -/
def OwnFrame (s : Kernel) (pt frame : Nat) : Prop :=
  s.Maps pt frame ∧ ∀ t, s.Live t → t ≠ s.current → ∀ pt', s.getPT t = some pt' → ¬ s.Maps pt' frame

/-- The frames of the process that ended are free, no other has changed, and its table has no
page from the first data page on. -/
structure Released (s s' : Kernel) (pt : Nat) : Prop where
  freed : ∀ f, s.OwnFrame pt f → s'.mm.physMem f = .free
  kept : ∀ f, ¬ s.OwnFrame pt f → s'.mm.physMem f = s.mm.physMem f
  unmapped : ∀ page, pagLogInitData ≤ page → page < totalPages → (s'.mm.entry pt page).present = false

def DataOnly (s : Kernel) (pt : Nat) : Prop :=
  ∀ page, pagLogInitData + numPagData ≤ page → page < totalPages → (s.mm.entry pt page).present = false

end Kernel

namespace AbsKernel

def OwnDirs (a : AbsKernel) : Prop :=
  ∀ t, a.Live t → t ≠ a.idleTask → (a.task t).dirPagesBaseAddr = some t.val

section
variable {a b : AbsKernel}

theorem OwnDirs.fork (h : OwnDirs a) (g : Good a) {r : Int × AbsKernel} (hr : a.fork = some r) : OwnDirs r.2 := by
  rcases fork_cases hr with ⟨-, rfl⟩ | ⟨child, rest, tab, hq, -, ⟨mm, he, rfl⟩ | ⟨m1, pt, mm, he, hpt, hmap, rfl⟩⟩
  · exact h
  · intro t ht hi
    have hlive : a.Live t := forkChild_live hq tab mm ht
    have hne : t ≠ child := by
      rintro rfl
      exact not_live_of_free g (by rw [hq]; exact List.mem_cons_self) hlive
    change ((a.forkChild child rest tab).task t).dirPagesBaseAddr = _
    rw [forkChild_task_ne hne]
    exact h t hlive hi
  · intro t ht hi
    rw [forkStart_task]
    split
    · rename_i e
      rw [e]
    · rename_i hne
      exact h t ((forkStart_live hq ht).resolve_left hne) hi

theorem OwnDirs.step (h : OwnDirs a) (g : Good a) {ok : Bool} {op : Kernel.Op} (hop : ¬ op.OnThreads)
    (hb : a.step ok op = some b) : OwnDirs b := by
  rcases step_cases hb with hs | ⟨hne, ⟨rfl, hx⟩ | ⟨rfl, hx⟩ | ⟨rfl, r, hr, rfl⟩ | ⟨f, p, w, rfl, r, hr, rfl⟩ | ⟨size, rfl, hx⟩⟩
  · intro t ht hi
    obtain ⟨st, e⟩ := hs.task t
    rw [hs.idle] at hi
    rw [e]
    exact h t ((hs.live t ht).resolve_left hi) hi
  · obtain ⟨pt, hp, mm, -, -, hl⟩ := leaves_exit g hx
    intro t ht hi
    rw [hl.idle] at hi
    obtain ⟨hcur, hlive⟩ := (hl.live t ht).resolve_left hi
    obtain ⟨st, e⟩ := hl.task t hcur
    rw [e]
    exact h t hlive hi
  · exact absurd trivial hop
  · exact h.fork g hr
  · exact absurd trivial hop
  · rcases sbrk_cases hx with rfl | ⟨pt, ret, hp, mm, -, -, rfl⟩
    · exact h
    · intro t ht hi
      rw [sbrk_task]
      split
      · rename_i e
        rw [e]
        exact h a.current (.inl rfl) hne
      · exact h t ht hi

end

end AbsKernel

theorem boot_ownDirs (mc : Machine) : (bootAbs mc).OwnDirs := by
  rintro t (rfl | ht | ⟨tab, k, ht⟩) -
  · rw [show (bootAbs mc).current = 1 from rfl, boot_task1]
    rfl
  · cases ht
  · cases ht

section
variable {s s' : Kernel} {pt : Nat}

theorem released_iff (ho : Owned s.mm) (hpt : pt < nrTasks) (hmm : s'.mm = releaseData pt numPagData s.mm)
    (hdirs : ∀ t, s.Live t → t ≠ s.current → ∀ pt', s.getPT t = some pt' → pt' ≠ pt ∧ pt' < nrTasks) :
    s.Released s' pt ↔ s.DataOnly pt := by
  obtain ⟨hent, hphys⟩ := releaseData_spec pt s.mm (n := numPagData) (by decide)
  rw [← hmm] at hent hphys
  constructor
  · intro h page h1 h2
    have := h.unmapped page (by omega) h2
    rwa [hent pt page h2, if_neg (by omega)] at this
  intro h
  -- a frame is freed because a data page of the caller has it
  have hdata : ∀ f, s'.mm.physMem f ≠ s.mm.physMem f → ∃ k < numPagData,
      (s.mm.entry pt (pagLogInitData + k)).present = true ∧ s.mm.getFrame pt (pagLogInitData + k) = f := by
    intro f hf
    rw [hphys f] at hf
    split at hf
    · rename_i hc
      obtain ⟨⟨k, hk, e⟩, h256, -⟩ := hc
      refine ⟨k, hk, ?_, e⟩
      rcases ho.blank pt hpt (pagLogInitData + k) (ownPage_data hk).ge (ownPage_data hk).lt with e' | hp
      · rw [e'] at e
        exact absurd (e ▸ h256) (Nat.not_lt_zero _)
      · exact hp
    · exact absurd rfl hf
  constructor
  · rintro f ⟨⟨page, hpage, hpres, hframe⟩, -⟩
    have hlt : page < pagLogInitData + numPagData := by
      apply Nat.lt_of_not_le
      intro hge
      rw [h page hge hpage.lt] at hpres
      cases hpres
    obtain ⟨hcand, hge, -⟩ := ho.frame pt hpt page hpage hpres
    have hge' := hpage.ge
    rw [getFrame] at hframe
    rw [hframe] at hcand hge
    rw [hphys f, if_pos]
    refine ⟨⟨page - pagLogInitData, by omega, ?_⟩, ?_, (mem_candidates.mp hcand).2.1⟩
    · rwa [Nat.add_sub_cancel' hge']
    · simp only [firstDataFrame, numPagKernel, numPagCode] at *
      omega
  · intro f hf
    by_contra hchange
    obtain ⟨k, hk, hpres, e⟩ := hdata f hchange
    refine hf ⟨⟨_, ownPage_data hk, hpres, e⟩, ?_⟩
    rintro t ht hne pt' hpt' ⟨page, hpage, hpres', e'⟩
    obtain ⟨hdiff, hlt⟩ := hdirs t ht hne pt' hpt'
    exact hdiff (ho.inj pt' hlt page hpage hpres' pt hpt _ (ownPage_data hk) hpres (e'.trans e.symm)).1
  · intro page h1 h2
    rw [hent pt page h2]
    split
    · rfl
    · exact h page (by omega) h2

end

/-- Without threads, `sys_exit` releases what the process had exactly when this was data pages only. -/
theorem exit_releases_iff (mc : Machine) {es : List Kernel.Event} (hes : ∀ e ∈ es, ¬ e.op.OnThreads) {s s' : Kernel}
    (hs : exec Kernel.step (Kernel.boot mc) es = some s) {ebp : Nat} (he : s.step ⟨.exit, ebp⟩ = some s') :
    ∃ pt, s.getPT s.current = some pt ∧ (s.Released s' pt ↔ s.DataOnly pt) := by
  have ht : AllSteps Kernel.step (fun _ e _ => ¬ e.op.OnThreads) (Kernel.boot mc) es :=
    allSteps_of_forall (fun _ _ _ h => h) hes
  obtain ⟨a, h, g, ho, hdirs⟩ := run_invariant (J := fun a => a.Owning ∧ a.OwnDirs)
    (fun _ _ _ _ _ _ g hj hop _ hb _ => ⟨hj.1.step g hb, hj.2.step g hop hb⟩) (boot_rep mc) (boot_good mc)
    ⟨boot_owning mc, boot_ownDirs mc⟩ ht hs
  obtain ⟨b, hb, h', -⟩ := h.step_some g he
  obtain ⟨hne, hx⟩ := AbsKernel.step_call (by simp) hb
  have hpt := hdirs a.current (.inl rfl) hne
  refine ⟨a.current.val, by rw [h.getPT, hpt], ?_⟩
  obtain ⟨pt, hpt', hl⟩ := ho.exit_memory g hne hx
  obtain rfl := Option.some.inj (hpt.symm.trans hpt')
  have hmm := hl.mm
  rw [← show s'.mm = b.mm from h'.mm, ← show s.mm = a.mm from h.mm] at hmm
  apply released_iff (h.mm ▸ ho.mm) a.current.isLt hmm
  intro t hlive htc pt' hpt'
  rw [h.live] at hlive
  rw [h.current] at htc
  have hti : t ≠ a.idleTask := by
    rintro rfl
    rcases hlive with e | e | ⟨tab, i, e⟩
    · exact hne e.symm
    · exact g.idle _ e
    · exact g.idle _ e
  rw [getPT_eq h, hdirs t hlive hti] at hpt'
  obtain rfl := Option.some.inj hpt'
  exact ⟨fun e => htc (Fin.ext e), t.isLt⟩

theorem exit_releases_boot : ∃ s', (Kernel.boot .blank).step ⟨.exit, 0⟩ = some s' ∧
    (Kernel.boot .blank).Released s' 1 := by
  have hrun : ((Kernel.boot .blank).step ⟨.exit, 0⟩).isSome = true := by
    decide +kernel
  obtain ⟨s', hs'⟩ := Option.isSome_iff_exists.mp hrun
  have hnone : ∀ e ∈ ([] : List Kernel.Event), ¬ e.op.OnThreads := by
    simp
  obtain ⟨pt, hpt, hiff⟩ := exit_releases_iff .blank hnone rfl hs'
  obtain rfl : 1 = pt := Option.some.inj hpt
  refine ⟨s', hs', hiff.mpr fun page h1 h2 => ?_⟩
  rw [← bootAbs_mm, boot_user .blank (by decide) (by omega) h2, if_neg (by omega)]
  rfl

/-- Task 1 gets a page of heap and exits, and the page stays mapped. -/
theorem exit_keeps_heap : ∃ s s', exec Kernel.step (Kernel.boot .blank) [⟨.sbrk 4096, 0⟩] = some s ∧
    s.step ⟨.exit, 0⟩ = some s' ∧ s.getPT s.current = some 1 ∧ ¬ s.Released s' 1 := by
  have hrun : (exec Kernel.step (Kernel.boot .blank) [⟨.sbrk 4096, 0⟩]).any (fun s =>
      (s.step ⟨.exit, 0⟩).any fun s' => decide (s.getPT s.current = some 1 ∧ (s'.mm.entry 1 304).present = true)) = true := by
    decide +kernel
  obtain ⟨s, hs, hd⟩ := (Option.any_eq_true _ _).mp hrun
  obtain ⟨s', hs', hd⟩ := (Option.any_eq_true _ _).mp hd
  obtain ⟨hpt, hpres⟩ := of_decide_eq_true hd
  refine ⟨s, s', hs, hs', hpt, fun h => ?_⟩
  have hgone := h.unmapped 304 (by decide) (by decide)
  rw [hpres] at hgone
  cases hgone

end ZeosSOA.Sysenter
