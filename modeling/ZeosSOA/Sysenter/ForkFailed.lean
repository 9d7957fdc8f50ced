import ZeosSOA.Sysenter.Ownership

/-!
# ZeOSSysenter: a sys_fork that finds too few frames

The frames taken are read back from the child's table before its entries are cleared. The frame 256, which
`free_frame` does not accept, is never among them as long as it is in use.
-/

namespace ZeosSOA.Sysenter

open Mm Intrusive

section
variable {pt : Nat} {m₀ m m' : Mm}

theorem releaseData_grown {pag : Nat} {fr : Nat → Nat} (hg : Grown m₀ m (pt * totalPages + pagLogInitData) pag fr)
    (hpag : pag ≤ numPagData) (hcode : m₀.physMem numPagKernel = .used)
    (hzero : ∀ k < pag, m₀.entry pt (pagLogInitData + k) = .zero) :
    (releaseData pt pag m).pagusrTable = m₀.pagusrTable ∧ (releaseData pt pag m).physMem = m₀.physMem := by
  have hd := pagLogInitData_eq
  have hlt : pagLogInitData + pag ≤ totalPages := by simp only [numPagData, totalPages] at *; omega
  obtain ⟨hent, hphys⟩ := releaseData_spec pt m hlt
  have hframe : ∀ k < pag, (m.entry pt (pagLogInitData + k)).pbaseAddr = fr k := by
    intro k hk
    rw [hg.entry hlt pt (by omega), if_pos ⟨rfl, by omega, by omega⟩, Nat.add_sub_cancel_left]
  constructor
  · funext k
    have hk := hent (k / totalPages) (k % totalPages) (Nat.mod_lt k (by decide))
    rw [Mm.entry, Nat.div_add_mod'] at hk
    rw [hk]
    split
    · rename_i hin
      have hz := hzero (k % totalPages - pagLogInitData) (by omega)
      rw [← hz, Mm.entry, Nat.add_sub_cancel' hin.2.1, ← hin.1, Nat.div_add_mod']
    · rename_i hout
      rw [hg.entry hlt _ (Nat.mod_lt k (by decide)), if_neg hout, Mm.entry, Nat.div_add_mod']
  · funext f
    rw [hphys f, hg.phys f]
    by_cases hf : ∃ k < pag, fr k = f
    · obtain ⟨k, hk, rfl⟩ := hf
      have hfree := hg.free k hk
      have hc := mem_candidates.mp (hg.cand k hk)
      have hne : fr k ≠ numPagKernel := by
        intro e
        rw [e, hcode] at hfree
        cases hfree
      rw [if_pos ⟨⟨k, hk, hframe k hk⟩, by omega, hc.2.1⟩, hfree]
    · rw [if_neg, if_neg hf]
      intro hc
      obtain ⟨k, hk, e⟩ := hc.1
      exact hf ⟨k, hk, (hframe k hk).symm.trans e⟩

theorem forkAllocData_failed : ∀ {n pag : Nat} {m : Mm} {fr : Nat → Nat},
    Grown m₀ m (pt * totalPages + pagLogInitData) pag fr → pag + n ≤ numPagData → m₀.physMem numPagKernel = .used →
    (∀ k < numPagData, m₀.entry pt (pagLogInitData + k) = .zero) → forkAllocData pt n pag m = (false, m') →
    m'.pagusrTable = m₀.pagusrTable ∧ m'.physMem = m₀.physMem
  | 0, _, _, _, _, _, _, _, h => absurd (Prod.mk.inj h).1.symm Bool.false_ne_true
  | n + 1, pag, m, fr, hg, hn, hcode, hzero, h => by
    unfold forkAllocData at h
    rcases allocFrame_cases m with ⟨f, hf, hfree, e⟩ | ⟨-, e⟩ <;> rw [e] at h <;> dsimp only at h
    · rw [if_pos (by omega)] at h
      exact forkAllocData_failed (hg.snoc (Nat.add_assoc _ _ _).symm hf hfree) (by omega) hcode hzero h
    · rw [if_neg (by simp)] at h
      obtain ⟨-, rfl⟩ := Prod.mk.inj h
      exact releaseData_grown hg (by omega) hcode fun k hk => hzero k (by omega)

end

namespace Kernel

/-- The lists of the kernel are in order, idle exists, and the caller's struct is not a free one. -/
structure SetUp (s : Kernel) : Prop where
  idle : s.idleTask.isSome = true
  lists : ∃ q, s.links.Rings Set.univ q
  current : s.current ∉ s.members .freequeue

theorem SetUp.rep {s : Kernel} (h : s.SetUp) : ∃ a, Rep s a ∧ a.current ∉ a.queue .freequeue := by
  obtain ⟨q, hq⟩ := h.lists
  obtain ⟨i, hi⟩ := Option.isSome_iff_exists.mp h.idle
  have hr : Rep s ⟨q, fun t => (s.task t).core, s.current, i, s.remainingQuantum, s.sem, s.behind, s.mm, s.globalPID,
      s.globalTID⟩ :=
    ⟨hq, fun _ => rfl, rfl, hi, rfl, rfl, rfl, rfl, rfl, rfl⟩
  refine ⟨_, hr, ?_⟩
  rw [← hr.members]
  exact h.current

end Kernel

/-- A `sys_fork` that fails for want of frames gives back what it has taken. The data pages of the free struct are not
mapped: their entries are the zero words that `del_ss_pag` leaves. -/
theorem fork_failed_gives_back {s s' : Kernel} (hs : s.SetUp) (hcode : s.mm.physMem numPagKernel = .used)
    (hslot : ∀ child ∈ (s.members .freequeue).head?, ∀ k < numPagData, s.mm.entry child.val (pagLogInitData + k) = .zero)
    (hfew : s.mm.freeCount < numPagData) {ebp : Nat} (hf : s.sysFork ebp = some (-EAGAIN, s')) :
    s'.mm.physMem = s.mm.physMem ∧ s'.mm.pagusrTable = s.mm.pagusrTable ∧
      s'.members .readyqueue = s.members .readyqueue ∧ ∀ t, t ∈ s'.members .freequeue ↔ t ∈ s.members .freequeue := by
  obtain ⟨a, h, hfree⟩ := hs.rep
  have hrel := h.sysFork hfree ebp
  rw [hf] at hrel
  cases hx : a.fork with
  | none => rw [hx] at hrel; cases hrel
  | some r =>
    rw [hx] at hrel
    cases hrel with
    | some hrel =>
      obtain ⟨hr, h'⟩ := hrel
      rw [h.mm] at hfew hcode hslot ⊢
      simp only [h.members, h'.members] at hslot ⊢
      rw [h'.mm]
      rcases AbsKernel.fork_cases hx with ⟨hq, rfl⟩ | ⟨child, rest, tab, hq, -, ⟨mm, hal, rfl⟩ | ⟨mm, pt, mm', hal, -⟩⟩
      · exact absurd (show (-EAGAIN : Int) = -ENOMEM from hr) (by decide)
      · rw [hq] at hslot
        obtain ⟨htab, hphys⟩ := forkAllocData_failed (Grown.nil a.mm _ id) (Nat.le_of_eq (Nat.zero_add _)) hcode
          (hslot child rfl) hal
        refine ⟨hphys, htab, ?_, fun t => ?_⟩
        · simp [AbsKernel.push, AbsKernel.setQueue, AbsKernel.setMm, AbsKernel.forkChild, AbsKernel.resetSemafors,
            AbsKernel.copyTask]
        · simp [AbsKernel.push, AbsKernel.setQueue, AbsKernel.setMm, AbsKernel.forkChild, AbsKernel.resetSemafors,
            AbsKernel.copyTask, hq, or_comm]
      · have hall := forkAllocData_fst child.val numPagData 0 a.mm
        rw [hal] at hall
        exact absurd (hall.mp rfl) (Nat.not_le.mpr hfew)

/-- The kernel with all frames in use but two. -/
def Kernel.crowded (s : Kernel) : Kernel :=
  s.setMm { s.mm with physMem := fun f => if f = 400 ∨ f = 402 then .free else .used }

theorem crowded_entry (s : Kernel) : s.crowded.mm.entry = s.mm.entry := rfl

theorem fork_failed_gives_back_crowded : ∃ s', (Kernel.boot .blank).crowded.sysFork 8 = some (-EAGAIN, s') ∧
    s'.mm.physMem = (Kernel.boot .blank).crowded.mm.physMem ∧ s'.mm.pagusrTable = (Kernel.boot .blank).crowded.mm.pagusrTable ∧
      s'.members .readyqueue = (Kernel.boot .blank).crowded.members .readyqueue ∧
        ∀ t, t ∈ s'.members .freequeue ↔ t ∈ (Kernel.boot .blank).crowded.members .freequeue := by
  have hrun : ((Kernel.boot .blank).crowded.sysFork 8).any (fun r => decide (r.1 = -EAGAIN)) = true := by decide +kernel
  obtain ⟨⟨r, s'⟩, hs, hd⟩ := (Option.any_eq_true _ _).mp hrun
  obtain rfl : r = -EAGAIN := of_decide_eq_true hd
  have hsetup : (Kernel.boot .blank).crowded.SetUp := ⟨rfl, ⟨_, (boot_rep .blank).rings⟩, by decide +kernel⟩
  refine ⟨s', hs, fork_failed_gives_back hsetup (by decide +kernel) ?_ (by decide +kernel) hs⟩
  intro child hchild k hk
  have hd := pagLogInitData_eq
  obtain rfl : child = 2 := by
    have h2 : ((Kernel.boot .blank).crowded.members .freequeue).head? = some 2 := by decide +kernel
    rw [h2] at hchild
    exact (Option.some.inj hchild).symm
  rw [crowded_entry, (boot_rep .blank).mm, boot_user .blank (by decide) (by omega) (by simp only [numPagData, totalPages] at *; omega),
    if_neg fun e => absurd e.1 (by decide)]

end ZeosSOA.Sysenter
