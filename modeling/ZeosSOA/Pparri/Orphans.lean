import ZeosSOA.Pparri.Preemption

/-!
# zeOSpparri: the kids of a process that exits

The loop of `sys_exit` links each kid in the list of idle, and then takes it out of the list
it is in, which is that one. Its cursor is null after the first round.
-/

namespace ZeosSOA.Pparri

open Intrusive

namespace Kernel

/-- From `s` to `s'` the kids `ks` of the current task have become the last ones of idle, whose kids were `l`; no
other list has changed. -/
structure Adopted (s s' : Kernel) (idle : TaskId) (ks l : List TaskId) : Prop where
  idleTask : s.idleTask = some idle
  kids : s'.links.Ring (.head (.kids idle)) ((l ++ ks).map .anchor)
  dad : ∀ k ∈ ks, (s'.task k).dad = some idle
  none : s'.links.Ring (.head (.kids s.current)) []
  others : ∀ (i : Queue) (ts : List TaskId), i ≠ .kids s.current → i ≠ .kids idle →
    s.links.Ring (.head i) (ts.map .anchor) → s'.links.Ring (.head i) (ts.map .anchor)

section
variable {s : Kernel} {idle : TaskId} {ks l : List TaskId}

theorem leaveKids_cons {k : TaskId} (hkids : s.links.Ring (.head (.kids s.current)) ((k :: ks).map .anchor)) :
    s.leaveKids = none := by
  have hfirst : s.listFirst (.kids s.current) = some (.anchor k) := ring_next_head hkids
  unfold leaveKids
  rw [hfirst]
  exact adoptKids_ne nofun

theorem leaveKids_nil (hkids : s.links.Ring (.head (.kids s.current)) []) : s.leaveKids = some s := by
  have hfirst : s.listFirst (.kids s.current) = some (.head (.kids s.current)) := ring_next_head hkids
  unfold leaveKids
  rw [hfirst]
  exact adoptKids_head _

/-- Idle gets the kids of a process that exits exactly when it has none. -/
theorem leaveKids_adopted_iff (hkids : s.links.Ring (.head (.kids s.current)) (ks.map .anchor))
    (hidle : s.idleTask = some idle) (hl : s.links.Ring (.head (.kids idle)) (l.map .anchor)) :
    (∃ s', s.leaveKids = some s' ∧ s.Adopted s' idle ks l) ↔ ks = [] := by
  constructor
  · rintro ⟨s', h, -⟩
    cases ks with
    | nil => rfl
    | cons k ks =>
      rw [leaveKids_cons hkids] at h
      cases h
  · rintro rfl
    refine ⟨s, leaveKids_nil hkids, hidle, ?_, ?_, hkids, fun i ts _ _ h => h⟩
    · rwa [List.append_nil]
    · intro k hk
      cases hk

end

/-- The booted kernel, where task 1 has the struct 7 as its kid. -/
def bootWithKid : Option Kernel := do
  let s ← (boot fun _ _ => 0).listDel (.anchor 7)
  s.listAddTail (.anchor 7) (.kids 8)

theorem bootWithKid_rings : ∃ s, bootWithKid = some s ∧ s.current = 8 ∧ s.idleTask = some 9 ∧
    s.links.Ring (.head (.kids 8)) [.anchor 7] ∧ s.links.Ring (.head (.kids 9)) [] := by
  have hrun : bootWithKid.any (fun s => decide (s.current = 8 ∧ s.idleTask = some 9 ∧
      s.links.Ring (.head (.kids 8)) [.anchor 7] ∧ s.links.Ring (.head (.kids 9)) [])) = true := by
    decide +kernel
  obtain ⟨s, hs, hd⟩ := (Option.any_eq_true _ _).mp hrun
  exact ⟨s, hs, of_decide_eq_true hd⟩

theorem leaveKids_adopted_iff_boot : ∃ s, bootWithKid = some s ∧
    ((∃ s', s.leaveKids = some s' ∧ s.Adopted s' 9 [7] []) ↔ ([7] : List TaskId) = []) := by
  obtain ⟨s, hs, hcur, hidle, hkids, hl⟩ := bootWithKid_rings
  rw [← hcur] at hkids
  exact ⟨s, hs, leaveKids_adopted_iff hkids hidle hl⟩

/-- One kid in a well-formed list; and after the first `sys_fork`, where the kid is ready. -/
theorem exit_loses_kid : (∃ s, bootWithKid = some s ∧ s.current = 8 ∧ s.idleTask = some 9 ∧
      s.links.Ring (.head (.kids 8)) [.anchor 7] ∧ s.links.Ring (.head (.kids 9)) [] ∧
      ¬ ∃ s', s.leaveKids = some s' ∧ s.Adopted s' 9 [7] []) ∧
    ∃ r, (boot fun _ _ => 0).sysFork = some r ∧ r.2.leaveKids.isNone = true := by
  constructor
  · obtain ⟨s, hs, hcur, hidle, hkids, hl⟩ := bootWithKid_rings
    refine ⟨s, hs, hcur, hidle, hkids, hl, ?_⟩
    rintro ⟨s', h, -⟩
    have hring : s.links.Ring (.head (.kids s.current)) (([7] : List TaskId).map .anchor) := hcur ▸ hkids
    rw [leaveKids_cons hring] at h
    cases h
  · have hrun : (boot fun _ _ => 0).sysFork.any (fun r => r.2.leaveKids.isNone) = true := by
      decide +kernel
    exact (Option.any_eq_true _ _).mp hrun

end Kernel

end ZeosSOA.Pparri
