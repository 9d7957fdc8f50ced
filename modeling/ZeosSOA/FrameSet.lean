import Mathlib.Data.Finset.Erase
import Mathlib.Data.Finset.Insert
import ZeosSOA.Mm
import ZeosSOA.Runs

/-!
# The frame allocator as a set of free frames

`alloc_frame` and `free_frame`, called in any order after `init_frames`, beside the set of the frames that
have been handed out and not given back. The loop of the one and the guard of the other describe the
managed frames on their own, and differ in the first of them.
-/

namespace ZeosSOA

open Mm Runs

/-- Every second frame behind those of the kernel. -/
def Managed (f : Nat) : Prop := ∃ k < (totalPages - numPagKernel) / 2, f = numPagKernel + 2 * k

inductive FrameCall where
  | alloc
  | free (frame : Nat)

/-- The memory, and the frames that are outstanding. -/
structure Allocator where
  mm : Mm
  outstanding : Finset Nat

namespace Allocator

/-- A call, of which no frame is given back that is not outstanding. -/
def call (s : Allocator) : FrameCall → Option Allocator
  | .alloc =>
    let (frame, mm) := s.mm.allocFrame
    some ⟨mm, if frame = -1 then s.outstanding else insert frame.toNat s.outstanding⟩
  | .free frame =>
    if frame ∈ s.outstanding then some ⟨s.mm.freeFrame frame, s.outstanding.erase frame⟩ else none

def start (m : Mm) : Allocator := ⟨m.initFrames, ∅⟩

/-- The frame `f` is handed out. -/
structure Takes (s : Allocator) (f : Nat) (s' : Allocator) : Prop where
  managed : Managed f
  fresh : f ∉ s.outstanding
  used : s'.mm.physMem f = .used
  others : ∀ g, g ≠ f → s'.mm.physMem g = s.mm.physMem g

/-- The memory after `n` more calls of `alloc_frame`. -/
def allocs : Nat → Mm → Mm
  | 0, m => m
  | n + 1, m => allocs n m.allocFrame.2

/-- The frame `f` is given back, and comes again. -/
structure GivesBack (s : Allocator) (f : Nat) (s' : Allocator) : Prop where
  free : s'.mm.physMem f = .free
  again : ∃ n, (allocs n s'.mm).allocFrame.1 = f
  others : ∀ g, g ≠ f → s'.mm.physMem g = s.mm.physMem g

/-- What a call does to the set of the frames that are not outstanding. -/
def Faithful (s : Allocator) : FrameCall → Allocator → Prop
  | .alloc, s' =>
    (s.mm.allocFrame.1 = -1 ↔ ∀ f, Managed f → f ∈ s.outstanding) ∧
      ((∃ f : Nat, s.mm.allocFrame.1 = f ∧ s.Takes f s') ∨
        s.mm.allocFrame.1 = -1 ∧ ∀ g, s'.mm.physMem g = s.mm.physMem g)
  | .free f, s' => s.GivesBack f s'

/-- The bytes of `phys_mem` say which of the managed frames are outstanding. -/
structure Marked (s : Allocator) : Prop where
  managed : ∀ f ∈ s.outstanding, f ∈ candidates
  used : ∀ f ∈ candidates, s.mm.physMem f = .used ↔ f ∈ s.outstanding

theorem managed_iff {f : Nat} : Managed f ↔ f ∈ candidates := by
  rw [mem_candidates]
  simp only [Managed, numPagKernel, totalPages]
  constructor
  · rintro ⟨k, hk, rfl⟩
    omega
  · intro h
    exact ⟨(f - 256) / 2, by omega, by omega⟩

/-- A free frame is handed out sooner or later: every call before takes another one. -/
theorem comes_again {f : Nat} (hf : f ∈ candidates) {m : Mm} (h : m.physMem f = .free) :
    ∃ n, (allocs n m).allocFrame.1 = f := by
  generalize hc : m.freeCount = c
  induction c generalizing m with
  | zero =>
    have := freeCount_eq_zero.mp hc f hf
    rw [h] at this
    cases this
  | succ c ih =>
    rcases allocFrame_cases m with ⟨g, hg, hfree, e⟩ | ⟨hused, -⟩
    · by_cases hgf : g = f
      · refine ⟨0, ?_⟩
        rw [allocs, e, hgf]
      · have hcount := freeCount_alloc hg hfree
        obtain ⟨n, hn⟩ := ih (m := m.setFrame g .used) (by rw [setFrame_physMem, if_neg (Ne.symm hgf), h]) (by omega)
        refine ⟨n + 1, ?_⟩
        rw [allocs, e]
        exact hn
    · have := hused f hf
      rw [h] at this
      cases this

section
variable {s s' : Allocator}

theorem start_marked (m : Mm) : (start m).Marked where
  managed := fun _ hf => absurd hf (Finset.notMem_empty _)
  used := by
    intro f hf
    have hc := mem_candidates.mp hf
    have hfree : (start m).mm.physMem f = .free := by
      simp only [start, initFrames]
      rw [if_neg (Nat.not_lt.mpr hc.1), if_pos hc.2.1]
    rw [hfree]
    exact iff_of_false (fun h => by cases h) (Finset.notMem_empty _)

theorem Marked.alloc (h : s.Marked) (hs : s.call .alloc = some s') : s'.Marked ∧ s.Faithful .alloc s' := by
  rcases allocFrame_cases s.mm with ⟨f, hf, hfree, e⟩ | ⟨hused, e⟩
  · have hfresh : f ∉ s.outstanding := fun hm => by
      have := (h.used f hf).mpr hm
      rw [hfree] at this
      cases this
    have hne : (f : Int) ≠ -1 := by omega
    have hothers : ∀ g, g ≠ f → (s.mm.setFrame f .used).physMem g = s.mm.physMem g := by
      intro g hg
      rw [setFrame_physMem, if_neg hg]
    have htaken : (s.mm.setFrame f .used).physMem f = .used := by rw [setFrame_physMem, if_pos rfl]
    simp only [call, e, if_neg hne, Int.toNat_natCast, Option.some.injEq] at hs
    subst hs
    refine ⟨⟨?_, ?_⟩, ?_, ?_⟩
    · intro g hg
      rcases Finset.mem_insert.mp hg with rfl | hg
      · exact hf
      · exact h.managed g hg
    · intro g hg
      rw [Finset.mem_insert]
      by_cases hgf : g = f
      · rw [hgf, htaken]
        exact iff_of_true rfl (.inl rfl)
      · rw [hothers g hgf, h.used g hg]
        exact (or_iff_right hgf).symm
    · rw [e]
      exact iff_of_false hne fun hall => hfresh (hall f (managed_iff.mpr hf))
    · left
      refine ⟨f, by rw [e], ?_⟩
      exact ⟨managed_iff.mpr hf, hfresh, htaken, hothers⟩
  · simp only [call, e, if_pos, Option.some.injEq] at hs
    subst hs
    refine ⟨⟨h.managed, h.used⟩, ?_, ?_⟩
    · rw [e]
      exact iff_of_true rfl fun f hf => (h.used f (managed_iff.mp hf)).mp (hused f (managed_iff.mp hf))
    · right
      exact ⟨by rw [e], fun g => rfl⟩

theorem Marked.free (h : s.Marked) {f : Nat} (hs : s.call (.free f) = some s') (hne : f ≠ numPagKernel) :
    s'.Marked ∧ s.GivesBack f s' := by
  simp only [call, Option.ite_none_right_eq_some, Option.some.injEq] at hs
  obtain ⟨hm, rfl⟩ := hs
  have hf := h.managed f hm
  obtain ⟨hlow, hhigh, -⟩ := mem_candidates.mp hf
  have hfree : ∀ g, (s.mm.freeFrame f).physMem g = if g = f then .free else s.mm.physMem g := by
    intro g
    rw [freeFrame_physMem]
    have hguard : numPagKernel < f ∧ f < totalPages := ⟨by omega, hhigh⟩
    simp only [hguard, and_true]
  refine ⟨⟨fun g hg => h.managed g (Finset.mem_of_mem_erase hg), ?_⟩, ?_, ?_, ?_⟩
  · intro g hg
    rw [hfree, Finset.mem_erase]
    by_cases hgf : g = f
    · rw [if_pos hgf]
      exact iff_of_false (fun he => by cases he) fun he => he.1 hgf
    · rw [if_neg hgf, h.used g hg]
      exact (and_iff_right hgf).symm
  · rw [hfree, if_pos rfl]
  · exact comes_again hf (by rw [hfree, if_pos rfl])
  · intro g hg
    rw [hfree, if_neg hg]

/-- The first managed frame is not behind the guard of `free_frame`. -/
theorem Marked.lost (h : s.Marked) (hs : s.call (.free numPagKernel) = some s') : ¬ s.GivesBack numPagKernel s' := by
  simp only [call, Option.ite_none_right_eq_some, Option.some.injEq] at hs
  obtain ⟨hm, rfl⟩ := hs
  intro hback
  have hfree := hback.free
  rw [freeFrame_physMem, if_neg (by omega), (h.used _ (h.managed _ hm)).mpr hm] at hfree
  cases hfree

end

/-- The calls are faithful to the set as long as the first frame behind the kernel is not given back. -/
theorem faithful_iff (m : Mm) (cs : List FrameCall) : AllSteps call Faithful (start m) cs ↔
    AllSteps call (fun _ e _ => ∀ f, e = .free f → f ≠ numPagKernel) (start m) cs := by
  refine allSteps_iff_allSteps (I := Marked) (A := fun _ => True) ?_ ?_ (start_marked m) fun _ _ => trivial
  · intro s e s' h _ he hs
    cases e with
    | alloc => exact h.alloc hs
    | free f => exact h.free hs (he f rfl)
  · intro s e s' h _ he hs
    cases e with
    | alloc => exact absurd (fun f hf => by cases hf) he
    | free f =>
      have hf : f = numPagKernel := by
        by_contra hne
        exact he fun g hg => by cases hg; exact hne
      subst hf
      exact h.lost hs

/-- The first frame that is handed out does not become free when it is given back. -/
theorem first_frame_lost :
    ¬ AllSteps call Faithful (start ⟨fun _ => .used, fun _ => .zero, fun _ _ => 0⟩) [.alloc, .free numPagKernel] := by
  intro h
  have hs := start_marked ⟨fun _ => .used, fun _ => .zero, fun _ _ => 0⟩
  generalize hm : start _ = s at h hs
  obtain ⟨s', hcall⟩ : ∃ s', s.call .alloc = some s' := ⟨_, rfl⟩
  have hmem : numPagKernel ∈ s'.outstanding := by
    subst hm
    obtain rfl := Option.some.inj hcall
    decide
  have hfree : s'.call (.free numPagKernel) = some _ := if_pos hmem
  exact (hs.alloc hcall).1.lost hfree ((h s' hcall).2 _ hfree).1

end Allocator

end ZeosSOA
