import ZeosSOA.Sysenter.Accounting

/-!
# ZeOSSysenter: the kernel's pages

`init_table_pages` gives the pages of the kernel no user bit and leaves page 0, and the two
guard pages, out of every table. `set_ss_pag`, with which `sys_fork` copies these entries,
sets all three bits.
-/

namespace ZeosSOA.Sysenter

open Mm Runs

namespace Kernel

/-- The tasks of a state: the live ones and idle. -/
def Tasked (s : Kernel) (t : TaskId) : Prop := s.Live t ∨ s.idleTask = some t

/-- In the tables of all tasks the pages of the kernel are closed to the user, and page 0 and the
guard pages are not there. -/
def Protected (image : Image) (s : Kernel) : Prop :=
  ∀ t, s.Tasked t → ∀ pt, s.getPT t = some pt → s.mm.KernelClosed pt ∧
    (s.mm.entry pt image.first).present = false ∧ (s.mm.entry pt (image.first + 11)).present = false

end Kernel

/-- The state of a system that has not forked yet. -/
structure AbsKernel.Unforked (image : Image) (a : AbsKernel) : Prop extends Accounted a where
  kernel : ∀ pt < nrTasks, ∀ page < numPagKernel, a.mm.entry pt page = bootEntry image page
  idleDir : ∃ pt < nrTasks, (a.task a.idleTask).dirPagesBaseAddr = some pt
  free : a.queue .freequeue ≠ []

section
variable {image : Image} {s s' : Kernel} {a b : AbsKernel}

theorem bootEntry_user (image : Image) (page : Nat) : (bootEntry image page).user = false := by
  unfold bootEntry
  split <;> exact kernelEntry_user page

theorem bootEntry_zero (image : Image) : (bootEntry image 0).present = false := by
  unfold bootEntry
  split <;> rfl

theorem Rep.protected (h : Rep s a) (g : a.Good) (ha : a.Unforked image) : s.Protected image := by
  intro t ht pt hpt
  have hdir : (a.task t).dirPagesBaseAddr = some pt := (congrArg TaskCore.dirPagesBaseAddr (h.task t)).symm.trans hpt
  have hlt : pt < nrTasks := by
    by_cases hi : t = a.idleTask
    · obtain ⟨pt', hlt, he⟩ := ha.idleDir
      rw [hi, he] at hdir
      exact Option.some.inj hdir ▸ hlt
    · have hidle : s.idleTask ≠ some t := (h.idle_iff t).mpr hi
      have hb := (h.process g ha.toAccounted t).mp ⟨ht.resolve_right hidle, hidle⟩
      rw [(ha.own t hb).dir] at hdir
      exact Option.some.inj hdir ▸ t.isLt
  have hentry : ∀ page < numPagKernel, s.mm.entry pt page = bootEntry image page := fun page hpage => by
    rw [h.mm]; exact ha.kernel pt hlt page hpage
  have hfirst := image.lt
  refine ⟨⟨fun page hpage => ?_, ?_⟩, ?_, ?_⟩
  · rw [hentry page hpage, bootEntry_user]; simp
  · rw [hentry 0 (by decide)]; exact bootEntry_zero image
  · rw [hentry _ (by omega), bootEntry, if_pos (.inl rfl)]
  · rw [hentry _ hfirst, bootEntry, if_pos (.inr rfl)]

theorem AbsKernel.Unforked.alike (h : a.Unforked image) (hb : b.Accounted) (hs : a.Alike b) : b.Unforked image where
  toAccounted := hb
  kernel := by rw [hs.mm]; exact h.kernel
  idleDir := by
    obtain ⟨st, e⟩ := hs.task a.idleTask
    rw [hs.idle, e]
    exact h.idleDir
  free := by rw [hs.free]; exact h.free

theorem AbsKernel.Unforked.exit (h : a.Unforked image) (g : a.Good) (hi : a.current ≠ a.idleTask) (hb : a.exit = some b)
    (hacc : b.Accounted) : b.Unforked image := by
  obtain ⟨pt, hp, mm, hpt, hrel, hl⟩ := AbsKernel.leaves_exit g hb
  obtain ⟨hdir, -, hheap⟩ := h.own _ (AbsKernel.busy_current g hi)
  obtain rfl := (releaseHeap_keeps hheap.ge hrel).2
  have hd := pagLogInitData_eq
  refine ⟨hacc, fun pt' hpt' page hpage => ?_, ?_, by rw [hl.free]; simp⟩
  · simp only [numPagKernel] at hpage
    rw [hl.mm, (releaseData_spec pt a.mm (n := numPagData) (by decide)).1 _ _ (by simp only [totalPages]; omega),
      if_neg (by omega)]
    exact h.kernel pt' hpt' page hpage
  · obtain ⟨st, e⟩ := hl.task a.idleTask fun e => hi e.symm
    rw [hl.idle, e]
    exact h.idleDir

theorem AbsKernel.Unforked.step (h : a.Unforked image) (g : a.Good) {ok : Bool} {op : Kernel.Op} (hop : op.Plain)
    (hne : op ≠ .fork) (hb : a.step ok op = some b) : b.Unforked image := by
  have hacc := h.toAccounted.step g hop hb
  unfold AbsKernel.step at hb
  split at hb
  · cases hb
  rename_i hidle
  cases op <;> simp only [Kernel.Op.Plain, AbsKernel.handle] at hop hb
  case clock => cases hb; exact h.alike hacc (AbsKernel.sched_clock a).toAlike
  case yield => cases hb; exact h.alike hacc (AbsKernel.sched_forceTaskSwitch a).toAlike
  case fork => exact absurd rfl hne
  case exit => exact h.exit g (fun e => hidle ⟨by simp, e.symm⟩) hb hacc

theorem fork_not_protected (h : Rep s a) (g : a.Good) (ha : a.Unforked image) {ebp : Nat}
    (hs : s.step ⟨.fork, ebp⟩ = some s') : ¬ s'.Protected image := by
  obtain ⟨b, hb, h', -⟩ := h.step_some g hs
  obtain ⟨-, r, hr, rfl⟩ := AbsKernel.step_fork hb
  rcases AbsKernel.fork_cases hr with ⟨hq, -⟩ | ⟨child, rest, tab, hq, -, ⟨mm, he, -⟩ | ⟨m1, pt, mm, -, -, hmap, rfl⟩⟩
  · exact absurd hq ha.free
  · have := (forkAllocData_fst child.val numPagData 0 a.mm).mpr (ha.enough g hq)
    rw [he] at this
    cases this
  · intro hp
    have hlive : s'.Live child := (h'.live child).mpr (.inr (.inl (by
      simp [AbsKernel.forkStart, AbsKernel.push, AbsKernel.setQueue])))
    have hdir : s'.getPT child = some child.val := by
      have := congrArg TaskCore.dirPagesBaseAddr (h'.task child)
      rw [AbsKernel.forkStart_task, if_pos rfl] at this
      exact this
    have hnull := (hp child (.inl hlive) _ hdir).1.null
    rw [h'.mm, show ((((a.forkChild child rest tab).setMm mm).forkStart child).mm) = mm from rfl,
      (forkMap_some hmap).1 _ _ (by decide) (.inl (by decide)), if_pos ⟨rfl, by decide⟩] at hnull
    cases hnull

end

theorem boot_unforked (mc : Machine) : (bootAbs mc).Unforked mc.image where
  toAccounted := boot_accounted mc
  kernel pt hpt page hpage := by
    have hc := pagLogInitCode_eq
    have hd := pagLogInitData_eq
    simp only [numPagKernel] at hpage
    rw [(boot_memory mc).1 pt page hpt (by simp only [totalPages]; omega), if_neg (by omega), if_neg (by omega)]
  idleDir := ⟨0, by decide, by rw [show (bootAbs mc).idleTask = 0 from rfl, boot_idle]⟩
  free := by simp [bootAbs]

/-- The kernel's pages stay protected as long as nobody forks. -/
theorem protected_iff (mc : Machine) {es : List Kernel.Event} (hes : ∀ e ∈ es, e.op.Plain) :
    AllStates Kernel.step (Kernel.Protected mc.image) (Kernel.boot mc) es ↔
      AllSteps Kernel.step (fun _ e _ => e.op ≠ .fork) (Kernel.boot mc) es := by
  refine allStates_iff_allSteps (I := fun s => ∃ a, Rep s a ∧ a.Good ∧ a.Unforked mc.image) (A := fun e => e.op.Plain)
    ?_ ?_ ?_ ⟨bootAbs mc, boot_rep mc, boot_good mc, boot_unforked mc⟩ hes
  · rintro s ⟨a, h, g, ha⟩
    exact h.protected g ha
  · rintro s e s' ⟨a, h, g, ha⟩ hop hne hs
    obtain ⟨b, hb, h', g'⟩ := h.step_some g hs
    exact ⟨b, h', g', ha.step g hop hne hb⟩
  · rintro s ⟨op, ebp⟩ s' ⟨a, h, g, ha⟩ - hfork hs
    obtain rfl : op = .fork := not_not.mp hfork
    exact fork_not_protected h g ha hs

end ZeosSOA.Sysenter
