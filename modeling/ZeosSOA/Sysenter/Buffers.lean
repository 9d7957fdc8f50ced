import ZeosSOA.Sysenter.Stats
import ZeosSOA.Sysenter.Write

/-!
# ZeOSSysenter: buffers of the user

Three calls take the address of a buffer and have it checked without a task, so that the heap and
the stacks of threads are no buffers for them. `answers_iff` says which buffers are.
-/

namespace ZeosSOA.Sysenter

open Runs

/-- The buffer is in pages of the current task that are open to the user, and it can be written there when `write` is
set. -/
def Kernel.UserBuffer (s : Kernel) (write : Bool) (buffer : UInt32) (n : Nat) : Prop :=
  ∀ i < n, lUserStart ≤ buffer.toNat + i ∧ (buffer.toNat + i) / pageSize < totalPages ∧
    ∃ pt, s.getPT s.current = some pt ∧
      let e := s.mm.entry pt ((buffer.toNat + i) / pageSize)
      e.present = true ∧ e.user = true ∧ (write = true → e.rw = true)

/-- The calls with a buffer of the user. -/
inductive BufferCall where
  | write (buffer : UInt32) (nbytes : Nat)
  | getStats (pid : Int) (st : UInt32)
  | getKey (b : UInt32)

namespace BufferCall

def buffer : BufferCall → UInt32
  | .write buffer _ => buffer
  | .getStats _ st => st
  | .getKey b => b

def size : BufferCall → Nat
  | .write _ nbytes => nbytes
  | .getStats _ _ => sizeStats
  | .getKey _ => 1

/-- Whether the kernel stores something in the buffer. -/
def stores : BufferCall → Bool
  | .write _ _ => false
  | .getStats _ _ => true
  | .getKey _ => true

/-- The value the call returns; `k` is the console, `localbuffer` the array on the stack of `sys_write`. -/
def answer (s : System) (k : Terminal) (localbuffer : Nat → UInt8) : BufferCall → Option Int
  | .write buffer nbytes => (k.sysWrite s.byteAt localbuffer 1 buffer nbytes).map Prod.fst
  | .getStats pid st => (s.kernel.sysGetStats pid st).map Prod.fst
  | .getKey b => (s.sysGetKey b).map Prod.fst

end BufferCall

/-- The pages of code, data and stack, and the page behind them up to its last byte. -/
def InFixedPages (a : UInt32) (n : Nat) : Prop := lUserStart ≤ a.toNat ∧ a.toNat + n < dataEnd + pageSize

section
variable {s : Kernel} {write : Bool} {a : UInt32} {n : Nat}

theorem Kernel.UserBuffer.toNat_add (h : s.UserBuffer write a n) {i : Nat} (hi : i < n) :
    (a + .ofNat i).toNat = a.toNat + i := by
  obtain ⟨-, hp, -⟩ := h i hi
  simp only [pageSize, totalPages] at hp
  rw [UInt32.toNat_add, UInt32.toNat_ofNat', Nat.add_mod_mod, Nat.mod_eq_of_lt (by omega)]

theorem Kernel.UserBuffer.accessOk_iff (h : s.UserBuffer write a n) (type : AccessType) :
    accessOk type a n none = true ↔ InFixedPages a n := by
  have hlt := a.toNat_lt
  have hend : a.toNat + n < 2 ^ 32 := by
    cases n with
    | zero => exact hlt
    | succ n =>
      obtain ⟨-, hp, -⟩ := h n (Nat.lt_succ_self n)
      simp only [pageSize, totalPages] at hp
      omega
  rw [accessOk_none_iff, endPage_of_lt hend, InFixedPages]
  have hstart : lUserStart = 256 * 4096 := rfl
  have hdata : dataEnd = 284 * 4096 := rfl
  have hfirst : userFirstPage = 256 := rfl
  simp only [pageSize, numPagCode, numPagData]
  omega

theorem Kernel.UserBuffer.load (h : s.UserBuffer write a n) {i : Nat} (hi : i < n) : ∃ pt b,
    s.getPT s.current = some pt ∧ loadByte pt s.mm (a + .ofNat i) = some b := by
  obtain ⟨-, hp, pt, hpt, hpres, -⟩ := h i hi
  refine ⟨pt, ?_⟩
  unfold loadByte Mm.readByte
  rw [h.toNat_add hi, Mm.translate_of_present hp hpres]
  exact ⟨_, hpt, rfl⟩

end

namespace BufferCall

/-- A buffer that passes the check, or no key to put in it. -/
def Admitted (s : System) : BufferCall → Prop
  | .getKey b => s.cBuffer.bwritten = 0 ∨ InFixedPages b 1
  | c => InFixedPages c.buffer c.size

section
variable {s : System} {a : UInt32} {n : Nat} {write : Bool}

theorem sysWrite_answer (h : s.kernel.UserBuffer write a n) (k : Terminal) (localbuffer : Nat → UInt8) :
    ∃ r, (k.sysWrite s.byteAt localbuffer 1 a n).map Prod.fst = some r ∧ (r ≠ -EFAULT ↔ InFixedPages a n) := by
  have hok := h.accessOk_iff .verifyRead
  by_cases hin : InFixedPages a n
  · have hbytes : AllMapped s.byteAt a n := by
      intro i hi
      obtain ⟨pt, b, hpt, hb⟩ := h.load hi
      rw [System.byteAt, hpt, Option.isSome_iff_exists]
      exact ⟨b, hb⟩
    obtain ⟨bs, rfl, hbs⟩ := hbytes.stored
    refine ⟨bs.length, ?_, iff_of_true (by simp only [EFAULT]; omega) hin⟩
    rw [Terminal.sysWrite_of_stored hbs (hok.mpr hin)]
    rfl
  · refine ⟨-EFAULT, ?_, iff_of_false (not_not.mpr rfl) hin⟩
    rw [Terminal.sysWrite, Int.toNat_natCast]
    dsimp only
    rw [if_neg (by decide), if_neg (Int.not_lt.mpr (Int.natCast_nonneg _)), if_pos fun hc => hin (hok.mp hc)]
    rfl

theorem sysGetStats_answer (h : s.kernel.UserBuffer true a sizeStats) (pid : Int) :
    ∃ r, (s.kernel.sysGetStats pid a).map Prod.fst = some r ∧ (r ≠ -EFAULT ↔ InFixedPages a sizeStats) := by
  have hok := h.accessOk_iff .verifyWrite
  by_cases hin : InFixedPages a sizeStats
  · have hmap : s.kernel.Mapped a sizeStats := by
      obtain ⟨pt, -, hpt, -⟩ := h.load (show 0 < sizeStats by decide)
      refine ⟨pt, hpt, fun i hi => ?_⟩
      obtain ⟨pt', b, hpt', hb⟩ := h.load hi
      obtain rfl := Option.some.inj (hpt.symm.trans hpt')
      exact ⟨b, hb⟩
    by_cases hpid : pid < 0
    · refine ⟨-EINVAL, ?_, iff_of_true (by decide) hin⟩
      rw [Kernel.sysGetStats, if_neg (not_not.mpr (hok.mpr hin)), if_pos hpid]
      rfl
    · have hpid := Int.not_lt.mp hpid
      by_cases hsome : ∃ t, (s.kernel.task t).PID = pid
      · obtain ⟨i, mm, pt, hcall, -⟩ := Kernel.sysGetStats_some (hok.mpr hin) hpid hmap hsome
        exact ⟨0, by rw [hcall]; rfl, iff_of_true (by decide) hin⟩
      · have hcall := Kernel.sysGetStats_none (hok.mpr hin) hpid (not_exists.mp hsome)
        exact ⟨-ESRCH, by rw [hcall]; rfl, iff_of_true (by decide) hin⟩
  · refine ⟨-EFAULT, ?_, iff_of_false (not_not.mpr rfl) hin⟩
    rw [Kernel.sysGetStats, if_pos fun hc => hin (hok.mp hc)]
    rfl

theorem sysGetKey_answer (h : s.kernel.UserBuffer true a 1) :
    ∃ r, (s.sysGetKey a).map Prod.fst = some r ∧ (r ≠ -EFAULT ↔ s.cBuffer.bwritten = 0 ∨ InFixedPages a 1) := by
  have hok := h.accessOk_iff .verifyWrite
  have hne : a ≠ 0 := by
    rintro rfl
    exact absurd (h 0 (by decide)).1 (by decide)
  unfold System.sysGetKey
  by_cases hempty : s.cBuffer.bwritten = 0
  · rw [if_pos hempty]
    exact ⟨0, rfl, iff_of_true (by decide) (.inl hempty)⟩
  rw [if_neg hempty, if_neg hne]
  by_cases hin : InFixedPages a 1
  · obtain ⟨pt, b, hpt, hb⟩ := h.load (show 0 < 1 by decide)
    obtain ⟨mm, hmm⟩ := storeByte_isSome (v := s.cBuffer.buffer s.cBuffer.rpointer.toNat) ⟨b, by simpa using hb⟩
    refine ⟨1, ?_, iff_of_true (by decide) (.inr hin)⟩
    rw [if_neg (not_not.mpr (hok.mpr hin)), hpt, Option.bind_eq_bind, Option.bind_some,
      show s.kernel.mm.writeByte pt (a.toNat / pageSize) (a.toNat % pageSize) _ = some mm from hmm]
    rfl
  · refine ⟨-EFAULT, ?_, iff_of_false (not_not.mpr rfl) (not_or.mpr ⟨hempty, hin⟩)⟩
    rw [if_pos fun hc => hin (hok.mp hc)]
    rfl

end

/-- In every state a call with a valid buffer is answered, and not with `-EFAULT`, if and only if the buffer is in the
fixed pages or in the page behind them, or is not needed. -/
theorem answers_iff (s : System) (c : BufferCall) (h : s.kernel.UserBuffer c.stores c.buffer c.size) (k : Terminal)
    (localbuffer : Nat → UInt8) : (∃ r, c.answer s k localbuffer = some r ∧ r ≠ -EFAULT) ↔ c.Admitted s := by
  obtain ⟨r, hr, hiff⟩ : ∃ r, c.answer s k localbuffer = some r ∧ (r ≠ -EFAULT ↔ c.Admitted s) := by
    cases c with
    | write buffer nbytes => exact sysWrite_answer h k localbuffer
    | getStats pid st => exact sysGetStats_answer h pid
    | getKey b => exact sysGetKey_answer h
  rw [← hiff]
  constructor
  · rintro ⟨r', hr', hne⟩
    obtain rfl := Option.some.inj (hr.symm.trans hr')
    exact hne
  · exact fun hne => ⟨r, hr, hne⟩

/-- A byte of the first data page of task 1. -/
theorem answers_iff_data : (∃ r, (BufferCall.write 0x108000 1).answer (System.boot .blank) (.start fun _ => 0) (fun _ => 0) =
    some r ∧ r ≠ -EFAULT) ↔ (BufferCall.write 0x108000 1).Admitted (System.boot .blank) := by
  refine answers_iff (System.boot .blank) (.write 0x108000 1) (fun i hi => ?_) (.start fun _ => 0) fun _ => 0
  obtain rfl : i = 0 := Nat.lt_one_iff.mp hi
  exact ⟨by decide, by decide, 1, rfl, by decide +kernel⟩

/-- A byte of the heap that task 1 has got from `sys_sbrk`. -/
theorem heap_refused : ∃ s, exec System.step (System.boot .blank) [.event ⟨.sbrk 4096, 0⟩] = some s ∧
    s.kernel.UserBuffer (BufferCall.write 0x130000 1).stores 0x130000 1 ∧
    (BufferCall.write 0x130000 1).answer s (.start fun _ => 0) (fun _ => 0) = some (-EFAULT) := by
  have hrun : (exec System.step (System.boot .blank) [.event ⟨.sbrk 4096, 0⟩]).any (fun s =>
      decide (s.kernel.getPT s.kernel.current = some 1 ∧ s.kernel.mm.entry 1 304 = ⟨true, true, true, 312⟩)) = true := by
    decide +kernel
  obtain ⟨s, hs, hd⟩ := (Option.any_eq_true _ _).mp hrun
  obtain ⟨hpt, hent⟩ := of_decide_eq_true hd
  refine ⟨s, hs, fun i hi => ?_, ?_⟩
  · obtain rfl : i = 0 := Nat.lt_one_iff.mp hi
    exact ⟨by decide, by decide, 1, hpt, by rw [show ((0x130000 : UInt32).toNat + 0) / pageSize = 304 from rfl, hent]; decide⟩
  · rfl

end BufferCall

end ZeosSOA.Sysenter
