import ZeosSOA.Pparri.Solo

/-!
# zeOSpparri: the process tree and the queues

Task 1 alone keeps every list in order. The first `sys_fork` links the anchor of the child in
two lists, one after the other: the head of the kids still points to the child, but from
there on the list is the readyqueue.
-/

namespace ZeosSOA.Pparri

open Intrusive Runs

namespace Kernel

def members (s : Kernel) (i : Queue) : List TaskId := s.links.elems listNodes i

/-- The task runs, is ready or is blocked, or it is idle. -/
def Live (s : Kernel) (t : TaskId) : Prop :=
  t = s.current ∨ t ∈ s.members .readyqueue ∨ t ∈ s.members .blocked ∨ s.idleTask = some t

/-- The head carries a circular doubly linked list, no task twice in it. -/
def WellFormed (s : Kernel) (i : Queue) : Prop :=
  ∃ ts : List TaskId, ts.Nodup ∧ s.links.Ring (.head i) (ts.map .anchor)

/-- The lists are well formed; in the readyqueue are the ready tasks but idle, in the queue `blocked` the blocked
ones and in the kids of the current task its live children; and `sys_unblock` returns -1 when no live child has
the PID. -/
structure TreeOk (s : Kernel) : Prop where
  queues : s.WellFormed .freequeue ∧ s.WellFormed .readyqueue ∧ s.WellFormed .blocked
  kids : ∀ t, s.Live t → s.WellFormed (.kids t)
  ready : ∀ t, t ∈ s.members .readyqueue ↔
    t ∉ s.members .freequeue ∧ s.idleTask ≠ some t ∧ (s.task t).status = .ready
  blocked : ∀ t, t ∈ s.members .blocked ↔ t ∉ s.members .freequeue ∧ (s.task t).status = .blocked
  children : ∀ t, t ∈ s.members (.kids s.current) ↔ s.Live t ∧ (s.task t).dad = some s.current
  unblock : ∀ pid foreign, (∀ t, s.Live t → (s.task t).dad = some s.current → (s.task t).PID ≠ pid) →
    s.sysUnblock pid foreign = some (-1, s)

section
variable {s s' : Kernel} {ph : Phase}

theorem Solo.members (h : Solo s ph) {i : Queue} (hi : i ∈ soloHeads) : s.members i = ph.queue i :=
  rings_elems h.rings hi ((h.rings.nodup i hi).length_le_card.trans (by rw [Fintype.card_fin]; decide))

theorem Solo.wellFormed (h : Solo s ph) {i : Queue} (hi : i ∈ soloHeads) : s.WellFormed i :=
  ⟨ph.queue i, h.rings.nodup i hi, h.rings.ring i hi⟩

theorem Solo.live (h : Solo s ph) {t : TaskId} (ht : s.Live t) : t = 8 ∨ t = 9 := by
  unfold Live at ht
  rw [h.members (mem_soloHeads.mpr (.inr (.inl rfl))), h.members (mem_soloHeads.mpr (.inr (.inr (.inl rfl)))),
    h.current, h.idleTask] at ht
  cases ph <;> simp [Phase.current, Phase.queue] at ht <;> tauto

theorem Solo.taken (h : Solo s ph) {t : TaskId} (ht : t ∉ ph.queue .freequeue) : t = 8 ∨ t = 9 := by
  cases ph <;> revert t <;> decide

theorem Solo.treeOk (h : Solo s ph) : s.TreeOk := by
  have hfree := mem_soloHeads.mpr (Or.inl (rfl : Queue.freequeue = .freequeue))
  have hready : Queue.readyqueue ∈ soloHeads := mem_soloHeads.mpr (.inr (.inl rfl))
  have hblocked : Queue.blocked ∈ soloHeads := mem_soloHeads.mpr (.inr (.inr (.inl rfl)))
  have hkids : Queue.kids s.current ∈ soloHeads := by
    rw [h.current, mem_soloHeads]
    cases ph <;> simp [Phase.current]
  refine ⟨⟨h.wellFormed hfree, h.wellFormed hready, h.wellFormed hblocked⟩, fun t ht => ?_, fun t => ?_, fun t => ?_,
    fun t => ?_, fun pid foreign _ => h.unblock pid foreign⟩
  · rcases h.live ht with rfl | rfl
    · exact h.wellFormed (mem_soloHeads.mpr (.inr (.inr (.inr (.inl rfl)))))
    · exact h.wellFormed (mem_soloHeads.mpr (.inr (.inr (.inr (.inr rfl)))))
  · rw [h.members hready, h.members hfree, h.idleTask]
    have hnone : t ∉ ph.queue .readyqueue := by cases ph <;> exact List.not_mem_nil
    refine iff_of_false hnone fun ⟨hn, hidle, hst⟩ => ?_
    rcases h.taken hn with rfl | rfl
    · rw [h.task1.1] at hst
      cases ph <;> cases hst
    · exact hidle rfl
  · rw [h.members hblocked, h.members hfree]
    refine ⟨fun ht => ?_, fun ⟨hn, hst⟩ => ?_⟩
    · cases ph with
      | blocked =>
        obtain rfl := List.mem_singleton.mp ht
        exact ⟨by decide, h.task1.1⟩
      | _ => exact absurd ht List.not_mem_nil
    · rcases h.taken hn with rfl | rfl
      · rw [h.task1.1] at hst
        cases ph <;> first | exact List.mem_singleton_self (8 : TaskId) | cases hst
      · rw [h.idle] at hst
        cases hst
  · rw [h.members hkids, h.dad]
    cases ph <;> simp [Phase.queue]

/-- The head of the kids points to the child, and the child to another head. -/
theorem Solo.fork_not_treeOk (h : Solo s ph) {e : Event} (hop : e.op = .fork) (hs : s.step e = some s') : ¬ s'.TreeOk := by
  obtain ⟨hcur, -, -, hkids, -, hanchor⟩ := h.step_fork hop hs
  intro hok
  obtain ⟨ts, -, hring⟩ := hok.kids 8 (.inl hcur.symm)
  have hfirst := hkids.symm.trans (ring_next_head hring)
  cases ts with
  | nil => cases hfirst
  | cons t ts =>
    obtain rfl : t = 7 := by simpa using hfirst.symm
    -- behind the child is the head of the readyqueue, which is no task of the list nor its head
    have hnext := ring_next_cons hring
    rw [hanchor] at hnext
    cases ts <;> cases hnext

end

/-- The tree and the queues stay well formed as long as nobody forks. -/
theorem tree_ok_iff (ram : Nat → Nat → UInt32) (es : List Event) :
    AllStates step TreeOk (boot ram) es ↔ AllSteps step (fun _ e _ => e.op ≠ .fork) (boot ram) es := by
  refine allStates_iff_allSteps (I := fun s => ∃ ph, Solo s ph) (A := fun _ => True) ?_ ?_ ?_ ⟨_, boot_solo ram⟩
    fun _ _ => trivial
  · rintro s ⟨ph, h⟩
    exact h.treeOk
  · rintro s e s' ⟨ph, h⟩ - hop hs
    exact h.step hop hs
  · rintro s e s' ⟨ph, h⟩ - hop hs
    exact h.fork_not_treeOk (not_not.mp hop) hs

theorem fork_breaks_tree : ¬ AllStates step TreeOk (boot fun _ _ => 0) [⟨.fork, 0, fun _ => 0⟩] := by
  have hrun : (step (boot fun _ _ => 0) ⟨.fork, 0, fun _ => 0⟩).isSome = true := by decide +kernel
  obtain ⟨s, hs⟩ := Option.isSome_iff_exists.mp hrun
  intro h
  exact (boot_solo _).fork_not_treeOk rfl hs (h.2 s hs)

end Kernel

end ZeosSOA.Pparri
