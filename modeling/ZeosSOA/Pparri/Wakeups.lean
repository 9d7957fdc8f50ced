import Mathlib.Data.Fintype.Card
import Mathlib.Tactic.FinCases
import ZeosSOA.Pparri.Step

/-!
# zeOSpparri: block and unblock

A history counts the calls of `sys_block` of each process and the calls of `sys_unblock` of
each process for each other that returned 0. Nothing is asked of the lists: what is
remembered of a wake-up are the status and the pending count of the struct.
-/

namespace ZeosSOA.Pparri

open Intrusive Runs

namespace Kernel

/-- `blocks c`: calls of `sys_block` by the process `c`. `unblocks p c`: calls of `sys_unblock` for `c` by `p`
that returned 0. -/
structure Calls where
  blocks : Int → Nat
  unblocks : Int → Int → Nat

def Calls.none : Calls := ⟨fun _ => 0, fun _ _ => 0⟩

def Calls.blocked (h : Calls) (c : Int) : Calls :=
  { h with blocks := Function.update h.blocks c (h.blocks c + 1) }

def Calls.woken (h : Calls) (p c : Int) : Calls :=
  { h with unblocks := Function.update h.unblocks p (Function.update (h.unblocks p) c (h.unblocks p c + 1)) }

def Calls.next (h : Calls) (s : Kernel) (e : Event) : Calls :=
  let c := (s.task s.current).PID
  match e.op with
  | .block => h.blocked c
  | .unblock pid => if (s.call e).map Prod.fst = some 0 then h.woken c pid else h
  | _ => h

/-- A process that calls `sys_block` is left blocked if and only if its parent has woken it fewer times than
it has called. A `sys_unblock` that returns 0 makes its target ready if it is blocked, and otherwise adds one
to the pending count of the target; it changes no other pending count. -/
structure WakeupsKept (x : Calls × Kernel) (e : Event) (x' : Calls × Kernel) : Prop where
  block : e.op = .block → ∀ p, (x.2.task x.2.current).dad = some p →
    ((x'.2.task x.2.current).status = .blocked ↔
      x'.1.unblocks (x.2.task p).PID (x.2.task x.2.current).PID < x'.1.blocks (x.2.task x.2.current).PID)
  unblock : ∀ pid, e.op = .unblock pid → (x.2.call e).map Prod.fst = some 0 → ∃ t, (x.2.task t).PID = pid ∧
    ((x.2.task t).status = .blocked → (x'.2.task t).status = .ready) ∧
    ∀ u, (x'.2.task u).pendingUnblocks =
      if u = t ∧ (x.2.task t).status ≠ .blocked then (x.2.task u).pendingUnblocks + 1 else (x.2.task u).pendingUnblocks

/-- A `sys_unblock` finds its target blocked, if it finds it. -/
def FindsBlocked (s : Kernel) (e : Event) : Prop :=
  ∀ pid, e.op = .unblock pid → ∀ t, s.unblockTarget pid e.foreign = some (some t) → (s.task t).status = .blocked

/-! ## What scheduling leaves alone -/

/-- The structs differ in nothing that counts for a wake-up. -/
def Alike (s s' : Kernel) : Prop :=
  ∀ t, (s'.task t).PID = (s.task t).PID ∧ (s'.task t).pendingUnblocks = (s.task t).pendingUnblocks ∧
    ((s'.task t).status = .blocked ↔ (s.task t).status = .blocked)

section
variable {s s' s'' : Kernel}

theorem Alike.refl (s : Kernel) : Alike s s := fun _ => ⟨rfl, rfl, Iff.rfl⟩

theorem Alike.trans (h : Alike s s') (h' : Alike s' s'') : Alike s s'' := fun t =>
  ⟨(h' t).1.trans (h t).1, (h' t).2.1.trans (h t).2.1, (h' t).2.2.trans (h t).2.2⟩

theorem alike_modTask (s : Kernel) {t : TaskId} {f : TaskStruct → TaskStruct} (hp : (f (s.task t)).PID = (s.task t).PID)
    (hu : (f (s.task t)).pendingUnblocks = (s.task t).pendingUnblocks)
    (hb : (f (s.task t)).status = .blocked ↔ (s.task t).status = .blocked) : Alike s (s.modTask t f) := by
  intro u
  by_cases e : u = t
  · subst e
    simp only [modTask, Function.update_self]
    exact ⟨hp, hu, hb⟩
  · rw [show (s.modTask t f).task u = s.task u from Function.update_of_ne e _ _]
    exact ⟨rfl, rfl, Iff.rfl⟩

theorem alike_listAddTail {n : ListHead} {i : Queue} (h : s.listAddTail n i = some s') : Alike s s' := by
  obtain ⟨l, -, rfl⟩ := listAddTail_some h
  exact .refl s

theorem alike_listDel {n : ListHead} (h : s.listDel n = some s') : Alike s s' := by
  obtain ⟨l, -, rfl⟩ := listDel_some h
  exact .refl s

theorem alike_updateProcessStateRr {t : TaskId} {dst : Option Queue} (h : s.updateProcessStateRr t dst = some s') :
    Alike s s' := by
  unfold updateProcessStateRr at h
  split at h
  · rename_i hst
    obtain ⟨i, -, h⟩ := Option.bind_eq_some_iff.mp h
    obtain ⟨s1, h1, h⟩ := Option.bind_eq_some_iff.mp h
    cases h
    obtain ⟨l, -, rfl⟩ := listAddTail_some h1
    exact (Alike.refl s).trans (alike_modTask _ rfl rfl (by simp [hst]))
  · rename_i hst
    obtain ⟨s1, h1, h⟩ := Option.bind_eq_some_iff.mp h
    cases h
    obtain ⟨l, -, rfl⟩ := listDel_some h1
    exact (Alike.refl s).trans (alike_modTask _ rfl rfl (by simp [hst]))
  · cases h
    exact .refl s

theorem alike_innerTaskSwitch (s : Kernel) (new : TaskId) (ebp : Nat) : Alike s (s.innerTaskSwitch new ebp) :=
  fun u => alike_modTask s (t := s.current) (f := fun c => { c with kernelEsp := some ⟨s.current, ebp⟩ }) rfl rfl Iff.rfl u

theorem alike_schedNextRr {ebp : Nat} (h : s.schedNextRr ebp = some s') : Alike s s' := by
  obtain ⟨⟨getSt, s1⟩, h1, h⟩ := Option.bind_eq_some_iff.mp h
  cases h
  have hnext : Alike s s1 := by
    unfold nextTask at h1
    split at h1
    · obtain ⟨e, -, h1⟩ := Option.bind_eq_some_iff.mp h1
      obtain ⟨t, -, h1⟩ := Option.bind_eq_some_iff.mp h1
      obtain ⟨s2, h2, h1⟩ := Option.bind_eq_some_iff.mp h1
      cases h1
      exact alike_updateProcessStateRr h2
    · obtain ⟨t, -, h1⟩ := Option.bind_eq_some_iff.mp h1
      cases h1
      exact .refl s
  exact hnext.trans (alike_innerTaskSwitch _ _ _)

theorem alike_scheduler {ebp : Nat} (h : s.scheduler ebp = some s') : Alike s s' := by
  unfold scheduler at h
  dsimp only at h
  split at h
  · obtain ⟨s1, h1, h⟩ := Option.bind_eq_some_iff.mp h
    exact (alike_updateProcessStateRr (s := s.updateSchedDataRr) h1).trans (alike_schedNextRr h)
  · cases h
    exact .refl s

theorem alike_clockRoutine {ebp : Nat} (h : s.clockRoutine ebp = some s') : Alike s s' :=
  alike_scheduler (s := { s with zeosTicks := s.zeosTicks + 1 }) h

theorem alike_adoptKids : ∀ {fuel : Nat} {s s' : Kernel} {e : Option ListHead}, adoptKids fuel s e = some s' → Alike s s'
  | 0, _, _, _, h => nomatch h
  | fuel + 1, s, s', e, h => by
    unfold adoptKids at h
    obtain ⟨n, -, h⟩ := Option.bind_eq_some_iff.mp h
    split at h
    · cases h
      exact .refl s
    · obtain ⟨idle, -, h⟩ := Option.bind_eq_some_iff.mp h
      obtain ⟨s1, h1, h⟩ := Option.bind_eq_some_iff.mp h
      obtain ⟨t, -, h⟩ := Option.bind_eq_some_iff.mp h
      obtain ⟨s2, h2, h⟩ := Option.bind_eq_some_iff.mp h
      exact (alike_listAddTail h1).trans ((alike_modTask s1 (t := t) (f := fun c => { c with dad := some idle })
        rfl rfl Iff.rfl).trans ((alike_listDel h2).trans (alike_adoptKids h)))

theorem alike_sysExit {ebp : Nat} (h : s.sysExit ebp = some s') : Alike s s' := by
  obtain ⟨pt, -, h⟩ := Option.bind_eq_some_iff.mp h
  obtain ⟨s1, h1, h⟩ := Option.bind_eq_some_iff.mp h
  obtain ⟨s2, h2, h⟩ := Option.bind_eq_some_iff.mp h
  have hadopt : Alike s s1 := by
    unfold leaveKids at h1
    split at h1
    · cases h1; exact .refl s
    · exact alike_adoptKids h1
  have hmm : Alike s1 (s1.setMm (releaseData pt s1.mm)) := .refl s1
  exact hadopt.trans (hmm.trans ((alike_listAddTail h2).trans (alike_schedNextRr h)))

/-! ## The calls -/

theorem sysFork_task {r : Int × Kernel} (h : s.sysFork = some r) : r.2 = s ∨ ∃ newKid,
    (∀ t, t ≠ newKid → r.2.task t = s.task t) ∧ (r.2.task newKid).status = .ready ∧
      (r.2.task newKid).pendingUnblocks = 0 := by
  rcases sysFork_cases h with ⟨-, e⟩ | ⟨-, newKid, l, dad, mm, -, -, -, hstart⟩
  · exact .inl e
  · refine .inr ⟨newKid, fun t ht => ?_, ?_, ?_⟩
    · rw [hstart.other t ht]
      simp [setMm, allocateDIR, modTask, copyTaskUnion, ht]
    · rw [hstart.self]
    · rw [hstart.self]

theorem sysBlock_task {ebp : Nat} (hpu : (s.task s.current).pendingUnblocks = 0) (h : s.sysBlock ebp = some s') :
    Alike (s.setStatus s.current .blocked) s' := by
  unfold sysBlock at h
  rw [if_pos hpu] at h
  obtain ⟨s1, h1, h⟩ := Option.bind_eq_some_iff.mp h
  exact (alike_listAddTail h1).trans (alike_scheduler h)

theorem sysUnblock_cases {pid : Int} {foreign : Queue → Int} {r : Int × Kernel} (h : s.sysUnblock pid foreign = some r) :
    s.unblockTarget pid foreign = some none ∧ r = (-1, s) ∨
    ∃ t, s.unblockTarget pid foreign = some (some t) ∧ r.1 = 0 ∧
      ((s.task t).status = .blocked ∧ r.2.task = (s.setStatus t .ready).task ∨
        (s.task t).status ≠ .blocked ∧
          r.2 = s.modTask s.current fun c => { c with pendingUnblocks := c.pendingUnblocks + 1 }) := by
  obtain ⟨_ | t, ht, h⟩ := Option.bind_eq_some_iff.mp h
  · cases h
    exact .inl ⟨ht, rfl⟩
  refine .inr ⟨t, ht, ?_⟩
  dsimp only at h
  split at h
  · rename_i hst
    obtain ⟨s1, h1, h⟩ := Option.bind_eq_some_iff.mp h
    obtain ⟨s2, h2, h⟩ := Option.bind_eq_some_iff.mp h
    cases h
    obtain ⟨l1, -, rfl⟩ := listDel_some h1
    obtain ⟨l2, -, rfl⟩ := listAddTail_some h2
    exact ⟨rfl, .inl ⟨hst, rfl⟩⟩
  · rename_i hst
    cases h
    exact ⟨rfl, .inr ⟨hst, rfl⟩⟩

theorem findKid_PID {pid : Int} {foreign : Queue → Int} {t : TaskId} : ∀ {fuel : Nat} {e : Option ListHead},
    s.findKid pid foreign fuel e = some (some t) → (s.task t).PID = pid
  | 0, _, h => nomatch h
  | fuel + 1, e, h => by
    unfold findKid at h
    obtain ⟨_ | u, -, h⟩ := Option.bind_eq_some_iff.mp h
    · dsimp only at h
      split at h
      · cases h
      · split at h
        · cases h
        · exact findKid_PID h
    · dsimp only at h
      split at h
      · rename_i hpid
        cases h
        exact hpid
      · exact findKid_PID h

end

/-! ## The balance of a run -/

def blockedAs (s : Kernel) (c : Int) : Finset TaskId :=
  Finset.univ.filter fun t => (s.task t).PID = c ∧ (s.task t).status = .blocked

/-- Nothing is pending, and no process has been woken more often than it has blocked. -/
structure Balanced (h : Calls) (s : Kernel) : Prop where
  pending : ∀ t, (s.task t).pendingUnblocks = 0
  count : ∀ p c, h.unblocks p c + (s.blockedAs c).card ≤ h.blocks c

section
variable {s s' : Kernel} {h : Calls}

theorem woken_unblocks (p c q d : Int) :
    (h.woken p c).unblocks q d = if q = p ∧ d = c then h.unblocks q d + 1 else h.unblocks q d := by
  by_cases hq : q = p
  · subst hq
    by_cases hd : d = c
    · subst hd; simp [Calls.woken]
    · simp [Calls.woken, hd]
  · simp [Calls.woken, hq]

theorem blocked_blocks (c d : Int) : (h.blocked c).blocks d = if d = c then h.blocks d + 1 else h.blocks d := by
  by_cases hd : d = c
  · subst hd; simp [Calls.blocked]
  · simp [Calls.blocked, hd]

theorem mem_blockedAs {c : Int} {t : TaskId} :
    t ∈ s.blockedAs c ↔ (s.task t).PID = c ∧ (s.task t).status = .blocked := by
  simp [blockedAs]

theorem Alike.blockedAs (ha : Alike s s') (c : Int) : s'.blockedAs c = s.blockedAs c := by
  ext t
  rw [mem_blockedAs, mem_blockedAs, (ha t).1, (ha t).2.2]

theorem Balanced.alike (hb : Balanced h s) (ha : Alike s s') : Balanced h s' :=
  ⟨fun t => (ha t).2.1.trans (hb.pending t), fun p c => by rw [ha.blockedAs]; exact hb.count p c⟩

theorem Balanced.renew (hb : Balanced h s) {kid : TaskId} (ht : ∀ t, t ≠ kid → s'.task t = s.task t)
    (hst : (s'.task kid).status ≠ .blocked) (hpu : (s'.task kid).pendingUnblocks = 0) : Balanced h s' := by
  refine ⟨fun t => ?_, fun p c => ?_⟩
  · by_cases e : t = kid
    · rw [e]; exact hpu
    · rw [ht t e]; exact hb.pending t
  · have hsub : s'.blockedAs c ⊆ s.blockedAs c := by
      intro t hm
      rw [mem_blockedAs] at hm ⊢
      have hne : t ≠ kid := fun e => hst (e ▸ hm.2)
      rwa [ht t hne] at hm
    exact (Nat.add_le_add_left (Finset.card_le_card hsub) _).trans (hb.count p c)

theorem Balanced.block (hb : Balanced h s) {ebp : Nat} (hs : s.sysBlock ebp = some s') :
    Balanced (h.blocked (s.task s.current).PID) s' := by
  have htask : ∀ t, t ≠ s.current → (s.setStatus s.current .blocked).task t = s.task t := fun t ht =>
    Function.update_of_ne ht _ _
  have hcur : (s.setStatus s.current .blocked).task s.current = { s.task s.current with status := .blocked } :=
    Function.update_self _ _ _
  refine Balanced.alike ⟨fun t => ?_, fun p c => ?_⟩ (sysBlock_task (hb.pending s.current) hs)
  · by_cases e : t = s.current
    · rw [e, hcur]; exact hb.pending s.current
    · rw [htask t e]; exact hb.pending t
  · have hc := hb.count p c
    rw [blocked_blocks]
    split
    · have hsub : (s.setStatus s.current .blocked).blockedAs c ⊆ insert s.current (s.blockedAs c) := by
        intro t hm
        by_cases et : t = s.current
        · rw [et]; exact Finset.mem_insert_self _ _
        · rw [mem_blockedAs, htask t et] at hm
          exact Finset.mem_insert_of_mem (mem_blockedAs.mpr hm)
      have := (Finset.card_le_card hsub).trans (Finset.card_insert_le _ _)
      exact (Nat.add_le_add_left this _).trans (Nat.succ_le_succ hc)
    · rename_i hpid
      have hsub : (s.setStatus s.current .blocked).blockedAs c ⊆ s.blockedAs c := by
        intro t hm
        by_cases et : t = s.current
        · rw [mem_blockedAs, et, hcur] at hm
          exact absurd hm.1.symm hpid
        · rw [mem_blockedAs, htask t et] at hm
          exact mem_blockedAs.mpr hm
      exact (Nat.add_le_add_left (Finset.card_le_card hsub) _).trans hc

theorem Balanced.wake (hb : Balanced h s) {t : TaskId} (hst : (s.task t).status = .blocked)
    (hs : s'.task = (s.setStatus t .ready).task) (p : Int) : Balanced (h.woken p (s.task t).PID) s' := by
  have htask : ∀ u, u ≠ t → s'.task u = s.task u := fun u hu => by rw [hs]; exact Function.update_of_ne hu _ _
  have hself : s'.task t = { s.task t with status := .ready } := by rw [hs]; exact Function.update_self _ _ _
  refine ⟨fun u => ?_, fun q c => ?_⟩
  · by_cases e : u = t
    · rw [e, hself]; exact hb.pending t
    · rw [htask u e]; exact hb.pending u
  · have hc := hb.count q c
    have heq : s'.blockedAs c = (s.blockedAs c).erase t := by
      ext u
      rw [Finset.mem_erase, mem_blockedAs, mem_blockedAs]
      by_cases e : u = t
      · rw [e, hself]; simp
      · rw [htask u e]; simp [e]
    rw [heq, woken_unblocks]
    split
    · rename_i e
      have hmem : t ∈ s.blockedAs c := mem_blockedAs.mpr ⟨e.2.symm, hst⟩
      have hpos := Finset.card_pos.mpr ⟨t, hmem⟩
      rw [Finset.card_erase_of_mem hmem]
      exact Nat.le_trans (by omega) hc
    · exact (Nat.add_le_add_left (Finset.card_le_card (Finset.erase_subset t _)) _).trans hc

end

theorem next_unblock {h : Calls} {s : Kernel} {e : Event} {pid : Int} (he : e.op = .unblock pid) : h.next s e =
    if (s.call e).map Prod.fst = some 0 then h.woken (s.task s.current).PID pid else h := by
  simp only [Calls.next, he]

theorem wakeupsKept_of_ne {x x' : Calls × Kernel} {e : Event} (hb : e.op ≠ .block) (hu : ∀ pid, e.op ≠ .unblock pid) :
    WakeupsKept x e x' :=
  ⟨fun he => absurd he hb, fun pid he => absurd he (hu pid)⟩

theorem Balanced.step {h : Calls} {s s' : Kernel} {e : Event} (hb : Balanced h s) (hf : s.FindsBlocked e)
    (hs : s.step e = some s') : Balanced (h.next s e) s' ∧ WakeupsKept (h, s) e (h.next s e, s') := by
  obtain ⟨r, hcall, hr, rfl⟩ := step_some hs
  obtain ⟨op, ebp, foreign⟩ := e
  cases op <;> simp only [handle, Option.map_eq_some_iff] at hr
  case clock =>
    obtain ⟨s1, h1, rfl⟩ := hr
    exact ⟨hb.alike (alike_clockRoutine h1), wakeupsKept_of_ne (by simp) (by simp)⟩
  case fork =>
    refine ⟨?_, wakeupsKept_of_ne (by simp) (by simp)⟩
    rcases sysFork_task hr with e | ⟨kid, hother, hst, hpu⟩
    · rw [e]; exact hb
    · exact hb.renew hother (by rw [hst]; decide) hpu
  case exit =>
    obtain ⟨s1, h1, rfl⟩ := hr
    exact ⟨hb.alike (alike_sysExit h1), wakeupsKept_of_ne (by simp) (by simp)⟩
  case block =>
    obtain ⟨s1, h1, rfl⟩ := hr
    have hb' := hb.block h1
    refine ⟨hb', fun _ p _ => ?_, by simp⟩
    have hst : (s1.task s.current).status = .blocked :=
      (sysBlock_task (hb.pending s.current) h1 s.current).2.2.mpr (by simp [setStatus, modTask])
    have hcur : s.current ∈ s1.blockedAs (s.task s.current).PID := mem_blockedAs.mpr
      ⟨(sysBlock_task (hb.pending s.current) h1 s.current).1.trans (by simp [setStatus, modTask]), hst⟩
    have hcount := hb'.count (s.task p).PID (s.task s.current).PID
    have hpos := Finset.card_pos.mpr ⟨_, hcur⟩
    refine iff_of_true hst ?_
    change (h.blocked _).unblocks (s.task p).PID (s.task s.current).PID < (h.blocked _).blocks (s.task s.current).PID
    omega
  case unblock pid =>
    rcases sysUnblock_cases hr with ⟨-, rfl⟩ | ⟨t, ht, hr0, hcase⟩
    · have hne : ¬ (s.call ⟨.unblock pid, ebp, foreign⟩).map Prod.fst = some 0 := by
        rw [hcall]; simp
      refine ⟨?_, by simp, fun _ _ h0 => absurd h0 hne⟩
      rw [next_unblock rfl, if_neg hne]
      exact hb
    · have hst := hf pid rfl t ht
      have hpid := findKid_PID ht
      have htask := hcase.resolve_right fun hn => hn.1 hst
      have h0 : (s.call ⟨.unblock pid, ebp, foreign⟩).map Prod.fst = some 0 := by
        rw [hcall]; exact congrArg some hr0
      constructor
      · rw [next_unblock rfl, if_pos h0, ← hpid]
        exact hb.wake hst htask.2 _
      · refine ⟨by simp, fun pid' e _ => ⟨t, ?_, fun _ => ?_, fun u => ?_⟩⟩
        · cases e; exact hpid
        · dsimp only
          rw [htask.2]; simp [setStatus, modTask]
        · dsimp only
          rw [if_neg fun hn => hn.2 hst, htask.2]
          by_cases eu : u = t
          · rw [eu]; simp [setStatus, modTask]
          · simp [setStatus, modTask, eu]

end Kernel

end ZeosSOA.Pparri
