import ZeosSOA.Copy
import ZeosSOA.Sysenter.Access

/-!
# ZeOSSysenter: sys_get_stats

The PID is looked up in all task structs, and the statistics of the first one that has it are
copied to the memory of the caller.
-/

namespace ZeosSOA.Sysenter

abbrev ESRCH : Int := 3

/-- `sizeof(struct stats)`. -/
abbrev sizeStats : Nat := 28

/-- The struct in memory: its fields in order, each with its lowest byte first. -/
def Stats.bytes (p : Stats) : List UInt8 :=
  [p.userTicks, p.systemTicks, p.blockedTicks, p.readyTicks, p.elapsedTotalTicks, p.totalTrans, p.remainingTicks].flatMap
    fun w => (List.range 4).map (Mm.byteOf w)

@[simp] theorem Stats.bytes_length (p : Stats) : p.bytes.length = sizeStats := rfl

/-- The byte at an address, through the page table `pt`. -/
def loadByte (pt : Nat) (m : Mm) (a : UInt32) : Option UInt8 := m.readByte pt (a.toNat / pageSize) (a.toNat % pageSize)

def storeByte (pt : Nat) (m : Mm) (a : UInt32) (v : UInt8) : Option Mm :=
  m.writeByte pt (a.toNat / pageSize) (a.toNat % pageSize) v

namespace Kernel

def setRemainingTicks (s : Kernel) (i : TaskId) : Kernel :=
  s.modTask i fun c => { c with pStats := { c.pStats with remainingTicks := .ofInt s.remainingQuantum } }

def sysGetStats (s : Kernel) (pid : Int) (st : UInt32) : Option (Int × Kernel) :=
  if ¬ accessOk .verifyWrite st sizeStats none then some (-EFAULT, s)
  else if pid < 0 then some (-EINVAL, s)
  else
    match (List.finRange nrTasks).find? fun i => (s.task i).PID = pid with
    | some i => do
      let s := s.setRemainingTicks i
      let pt ← s.getPT s.current
      let (_, mm) ← copyToUser (fromArray (s.task i).pStats.bytes (storeByte pt)) s.mm 0 st sizeStats
      return (0, s.setMm mm)
    | none => some (-ESRCH, s)

end Kernel

/-! ## The copy -/

section
variable {m : Mm} {pt : Nat}

theorem storeByte_isSome {a : UInt32} {v : UInt8} (h : ∃ b, loadByte pt m a = some b) : ∃ m', storeByte pt m a v = some m' := by
  obtain ⟨b, hb⟩ := h
  obtain ⟨f, hf, -⟩ := Option.bind_eq_some_iff.mp hb
  unfold storeByte Mm.writeByte Mm.writeWord
  rw [hf]
  exact ⟨_, rfl⟩

/-- Addresses less than a page apart are no two of them at the same offset of a page. -/
theorem offset_ne {q : UInt32} {i j : Nat} (hi : i < pageSize) (hj : j < pageSize) (hne : i ≠ j) :
    (q + .ofNat i).toNat % pageSize ≠ (q + .ofNat j).toNat % pageSize := by
  have := q.toNat_lt
  simp only [pageSize] at *
  rw [UInt32.toNat_add, UInt32.toNat_add, UInt32.toNat_ofNat', UInt32.toNat_ofNat']
  omega

theorem copyBytes_fromArray {bytes : List UInt8} (hlen : bytes.length < 2 ^ 32) : ∀ {bs : List UInt8} {m : Mm}
    {p q : UInt32}, bytes.drop p.toNat = bs → bs.length ≤ pageSize →
    (∀ i < bs.length, ∃ b, loadByte pt m (q + .ofNat i) = some b) →
    ∃ m', copyBytes (fromArray bytes (storeByte pt)) bs.length m p q = some m' ∧ m'.pagusrTable = m.pagusrTable ∧
      m'.physMem = m.physMem ∧ Stored (loadByte pt m') q bs ∧
      ∀ a : UInt32, (∀ i < bs.length, a.toNat % pageSize ≠ (q + .ofNat i).toNat % pageSize) →
        loadByte pt m' a = loadByte pt m a
  | [], m, _, _, _, _, _ => ⟨m, rfl, rfl, rfl, trivial, fun _ _ => rfl⟩
  | c :: bs, m, p, q, hp, hfit, hmap => by
    rw [List.length_cons] at hfit hmap
    have hc : bytes[p.toNat]? = some c := by
      rw [← List.head?_drop, hp]
      rfl
    have hplt : p.toNat < bytes.length := (List.getElem?_eq_some_iff.mp hc).1
    have hp1 : (p + 1).toNat = p.toNat + 1 := by
      rw [UInt32.toNat_add, UInt32.toNat_one, Nat.mod_eq_of_lt (by omega)]
    have hdrop : bytes.drop (p + 1).toNat = bs := by
      rw [hp1, ← List.drop_drop, hp]
      rfl
    have hnext : ∀ i, q + 1 + .ofNat i = q + .ofNat (i + 1) := by
      intro i
      rw [UInt32.add_assoc, UInt32.add_comm 1, UInt32.ofNat_add]
      rfl
    obtain ⟨m₁, h₁⟩ := storeByte_isSome (a := q) (v := c) (by simpa using hmap 0 (Nat.succ_pos _))
    obtain ⟨htab, hphys, hread⟩ := Mm.writeByte_some h₁
    have hne : ∀ a : UInt32, a.toNat % pageSize ≠ q.toNat % pageSize → loadByte pt m₁ a = loadByte pt m a := by
      intro a ha
      exact Mm.writeByte_ne h₁ ha
    have hq : ∀ i < bs.length, (q + .ofNat (i + 1)).toNat % pageSize ≠ q.toNat % pageSize := by
      intro i hi
      simpa using offset_ne (q := q) (i := i + 1) (j := 0) (by omega) (by decide) (by omega)
    obtain ⟨m', hcopy, htab', hphys', hst, hframe⟩ := copyBytes_fromArray hlen (m := m₁) (q := q + 1) hdrop (by omega) (by
      intro i hi
      rw [hnext, hne _ (hq i hi)]
      exact hmap (i + 1) (by omega))
    refine ⟨m', ?_, htab'.trans htab, hphys'.trans hphys, ⟨?_, hst⟩, fun a ha => ?_⟩
    · have hfirst : copyByte (fromArray bytes (storeByte pt)) m p q = some m₁ := by
        simp only [copyByte, fromArray, hc, Option.bind_eq_bind, Option.bind_some]
        exact h₁
      rw [List.length_cons, copyBytes, hfirst]
      exact hcopy
    · rw [hframe q fun i hi => by rw [hnext]; exact (hq i hi).symm]
      exact hread
    · rw [hframe a fun i hi => by rw [hnext]; exact ha (i + 1) (by rw [List.length_cons]; omega)]
      exact hne a (by simpa using ha 0 (Nat.succ_pos _))

theorem copyToUser_stored {bs : List UInt8} {q : UInt32} (hfit : bs.length ≤ pageSize)
    (hmap : ∀ i < bs.length, ∃ b, loadByte pt m (q + .ofNat i) = some b) :
    ∃ m', copyToUser (fromArray bs (storeByte pt)) m 0 q bs.length = some (0, m') ∧ m'.pagusrTable = m.pagusrTable ∧
      m'.physMem = m.physMem ∧ Stored (loadByte pt m') q bs := by
  have hlen : bs.length < 2 ^ 32 := Nat.lt_of_le_of_lt hfit (by decide)
  obtain ⟨m', hcopy, htab, hphys, hst, -⟩ := @copyBytes_fromArray pt bs hlen bs m 0 q rfl hfit hmap
  refine ⟨m', ?_, htab, hphys, hst⟩
  rw [copyToUser_fromArray, show copyBytes _ bs.length m 0 q = some m' from hcopy]
  rfl

end

/-! ## The call -/

namespace Kernel

/-- Every byte of the range is in a page of the current task. -/
def Mapped (s : Kernel) (a : UInt32) (n : Nat) : Prop :=
  ∃ pt, s.getPT s.current = some pt ∧ ∀ i < n, ∃ b, loadByte pt s.mm (a + .ofNat i) = some b

section
variable {s : Kernel} {pid : Int} {st : UInt32}

theorem setRemainingTicks_getPT (s : Kernel) (i t : TaskId) : (s.setRemainingTicks i).getPT t = s.getPT t := by
  unfold getPT setRemainingTicks modTask
  by_cases ht : t = i
  · simp [ht]
  · simp [Function.update_of_ne ht]

theorem sysGetStats_none (hok : accessOk .verifyWrite st sizeStats none = true) (hpid : 0 ≤ pid)
    (hnone : ∀ t, (s.task t).PID ≠ pid) : s.sysGetStats pid st = some (-ESRCH, s) := by
  have hfind : ((List.finRange nrTasks).find? fun i => (s.task i).PID = pid) = none := by
    rw [List.find?_eq_none]
    intro t _
    simpa using hnone t
  rw [sysGetStats, if_neg (not_not.mpr hok), if_neg (Int.not_lt.mpr hpid), hfind]

/-- A PID that some struct has: the statistics of one of those structs are copied, with the quantum that is left, and
apart from that field and the bytes nothing changes. -/
theorem sysGetStats_some (hok : accessOk .verifyWrite st sizeStats none = true) (hpid : 0 ≤ pid)
    (hmap : s.Mapped st sizeStats) (hsome : ∃ t, (s.task t).PID = pid) :
    ∃ i mm pt, s.sysGetStats pid st = some (0, (s.setRemainingTicks i).setMm mm) ∧ (s.task i).PID = pid ∧
      s.getPT s.current = some pt ∧ mm.pagusrTable = s.mm.pagusrTable ∧ mm.physMem = s.mm.physMem ∧
      Stored (loadByte pt mm) st ((s.setRemainingTicks i).task i).pStats.bytes := by
  obtain ⟨t, ht⟩ := hsome
  obtain ⟨pt, hpt, hbytes⟩ := hmap
  obtain ⟨i, hfind⟩ : ∃ i, ((List.finRange nrTasks).find? fun i => (s.task i).PID = pid) = some i := by
    rw [← Option.isSome_iff_exists, List.find?_isSome]
    exact ⟨t, List.mem_finRange t, by simpa using ht⟩
  have hi : (s.task i).PID = pid := by simpa using List.find?_some hfind
  have hpt' : (s.setRemainingTicks i).getPT (s.setRemainingTicks i).current = some pt := (setRemainingTicks_getPT ..).trans hpt
  obtain ⟨mm, hcopy, htab, hphys, hst⟩ := @copyToUser_stored s.mm pt ((s.setRemainingTicks i).task i).pStats.bytes st
    (show sizeStats ≤ pageSize by decide) hbytes
  refine ⟨i, mm, pt, ?_, hi, hpt, htab, hphys, hst⟩
  rw [sysGetStats, if_neg (not_not.mpr hok), if_neg (Int.not_lt.mpr hpid), hfind]
  dsimp only
  rw [Stats.bytes_length] at hcopy
  rw [hpt', show (s.setRemainingTicks i).mm = s.mm from rfl, Option.bind_eq_bind, Option.bind_some,
    show copyToUser _ s.mm 0 st sizeStats = some (0, mm) from hcopy]
  rfl

end

end Kernel

end ZeosSOA.Sysenter
