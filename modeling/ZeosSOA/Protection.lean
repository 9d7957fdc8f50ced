import ZeosSOA.Pparri.Tree
import ZeosSOA.Sysenter.Protection

/-!
# The kernel's pages, in both kernels

zeOSpparri copies the entries of the kernel into the table of a child as ZeOSSysenter does, page 0
included, so in both the first `sys_fork` opens the kernel to the user.
-/

namespace ZeosSOA

open Intrusive Mm Runs

namespace Pparri.Kernel

/-- In the tables of all tasks the pages of the kernel are closed to the user, and page 0 is not there. -/
def Protected (s : Kernel) : Prop := ∀ t, s.Live t → ∀ pt, s.getPT t = some pt → s.mm.KernelClosed pt

section
variable {s s' : Kernel} {ph : Phase}

theorem Solo.protected (h : Solo s ph) : s.Protected := by
  have hclosed : ∀ pt < nrTasks, s.mm.KernelClosed pt := fun pt hpt =>
    ⟨fun page hpage => by rw [h.kernel pt hpt page hpage, kernelEntry_user]; simp,
      by rw [h.kernel pt hpt 0 (by decide)]; rfl⟩
  intro t ht pt hpt
  rcases h.live ht with rfl | rfl
  · obtain rfl := Option.some.inj (h.dir.1.symm.trans hpt)
    exact hclosed 8 (by decide)
  · obtain rfl := Option.some.inj (h.dir.2.symm.trans hpt)
    exact hclosed 9 (by decide)

theorem Solo.fork_not_protected (h : Solo s ph) {e : Event} (hop : e.op = .fork) (hs : s.step e = some s') :
    ¬ s'.Protected := by
  obtain ⟨-, hdir, hnull, -, hready, -⟩ := h.step_fork hop hs
  intro hp
  have hlive : s'.Live 7 := by
    refine .inr (.inl ?_)
    rw [show s'.members .readyqueue = s'.links.walk listNodes (s'.links.next (.head .readyqueue)) from rfl, hready]
    exact List.mem_cons_self
  have := (hp 7 hlive 7 hdir).null
  rw [hnull] at this
  cases this

end

end Pparri.Kernel

/-- In both kernels the pages of the kernel stay protected as long as nobody forks. -/
theorem kernel_pages_iff (mc : Sysenter.Machine) {es : List Sysenter.Kernel.Event} (hes : ∀ e ∈ es, e.op.Plain)
    (ram : Nat → Nat → UInt32) (fs : List Pparri.Kernel.Event) :
    (AllStates Sysenter.Kernel.step (Sysenter.Kernel.Protected mc.image) (Sysenter.Kernel.boot mc) es ↔
      AllSteps Sysenter.Kernel.step (fun _ e _ => e.op ≠ .fork) (Sysenter.Kernel.boot mc) es) ∧
    (AllStates Pparri.Kernel.step Pparri.Kernel.Protected (Pparri.Kernel.boot ram) fs ↔
      AllSteps Pparri.Kernel.step (fun _ e _ => e.op ≠ .fork) (Pparri.Kernel.boot ram) fs) := by
  refine ⟨Sysenter.protected_iff mc hes, ?_⟩
  refine allStates_iff_allSteps (I := fun s => ∃ ph, Pparri.Kernel.Solo s ph) (A := fun _ => True) ?_ ?_ ?_
    ⟨_, Pparri.Kernel.boot_solo ram⟩ fun _ _ => trivial
  · rintro s ⟨ph, h⟩
    exact h.protected
  · rintro s e s' ⟨ph, h⟩ - hop hs
    exact h.step hop hs
  · rintro s e s' ⟨ph, h⟩ - hop hs
    exact h.fork_not_protected (not_not.mp hop) hs

/-- A `sys_yield` of task 1, and a clock interrupt in each kernel. -/
theorem kernel_pages_yield :
    (AllStates Sysenter.Kernel.step (Sysenter.Kernel.Protected Sysenter.Machine.blank.image)
        (Sysenter.Kernel.boot .blank) [⟨.yield, 0⟩, ⟨.clock, 0⟩] ↔
      AllSteps Sysenter.Kernel.step (fun _ e _ => e.op ≠ .fork) (Sysenter.Kernel.boot .blank) [⟨.yield, 0⟩, ⟨.clock, 0⟩]) ∧
    (AllStates Pparri.Kernel.step Pparri.Kernel.Protected (Pparri.Kernel.boot fun _ _ => 0) [⟨.clock, 0, fun _ => 0⟩] ↔
      AllSteps Pparri.Kernel.step (fun _ e _ => e.op ≠ .fork) (Pparri.Kernel.boot fun _ _ => 0)
        [⟨.clock, 0, fun _ => 0⟩]) :=
  kernel_pages_iff .blank (by simp [Sysenter.Kernel.Op.Plain]) _ _

theorem fork_opens_kernel :
    ¬ AllStates Sysenter.Kernel.step (Sysenter.Kernel.Protected Sysenter.Machine.blank.image)
        (Sysenter.Kernel.boot .blank) [⟨.fork, 8⟩] ∧
    ¬ AllStates Pparri.Kernel.step Pparri.Kernel.Protected (Pparri.Kernel.boot fun _ _ => 0)
        [⟨.fork, 0, fun _ => 0⟩] := by
  constructor
  · have hrun : (Sysenter.Kernel.step (Sysenter.Kernel.boot .blank) ⟨.fork, 8⟩).isSome = true := by decide +kernel
    obtain ⟨s, hs⟩ := Option.isSome_iff_exists.mp hrun
    intro h
    exact Sysenter.fork_not_protected (Sysenter.boot_rep _) (Sysenter.boot_good _) (Sysenter.boot_unforked _) hs (h.2 s hs)
  · have hrun : (Pparri.Kernel.step (Pparri.Kernel.boot fun _ _ => 0) ⟨.fork, 0, fun _ => 0⟩).isSome = true := by
      decide +kernel
    obtain ⟨s, hs⟩ := Option.isSome_iff_exists.mp hrun
    intro h
    exact (Pparri.Kernel.boot_solo _).fork_not_protected rfl hs (h.2 s hs)

end ZeosSOA
