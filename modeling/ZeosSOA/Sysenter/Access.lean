import ZeosSOA.Sysenter.Keyboard

/-!
# ZeOSSysenter: what access_ok lets through

The check is on page numbers: the page of the first byte, and the page of the address behind
the last one. Its two branches for the user's pages end in the same answer, so that a pointer
may be written through whenever it may be read through.
-/

namespace ZeosSOA.Sysenter

/-- `addr_fin`. -/
def endPage (addr : UInt32) (size : Nat) : Nat := (addr.toNat + size) % 2 ^ 32 / pageSize

/-- The page numbers that a pointer is compared with: those of code, data and the page behind, and those of the heap
of the task, if there is one. -/
def Bounds (task : Option TaskStruct) (lo hi : Nat) : Prop :=
  lo = userFirstPage ∧ hi = userFirstPage + numPagCode + numPagData ∨
    ∃ t, task = some t ∧ lo = t.heapStartProc / pageSize ∧ hi = t.heapEndProc / pageSize

section
variable {addr : UInt32} {size lo hi : Nat} {task : Option TaskStruct} {type : AccessType}

theorem accessOk_iff : accessOk type addr size task = true ↔ addr.toNat / pageSize ≤ endPage addr size ∧
    ∃ lo hi, Bounds task lo hi ∧ lo ≤ addr.toNat / pageSize ∧ endPage addr size ≤ hi := by
  have hini : addr.toNat >>> 12 = addr.toNat / pageSize := Nat.shiftRight_eq_div_pow _ 12
  have hfin : ((addr.toNat + size) % 2 ^ 32) >>> 12 = endPage addr size := Nat.shiftRight_eq_div_pow _ 12
  unfold accessOk
  dsimp only
  rw [hini, hfin]
  split
  · exact iff_of_false nofun fun h => by omega
  · rename_i hle
    have hle := Nat.not_lt.mp hle
    split
    · rename_i h
      -- the branch for writing is one of the cases of the other
      exact iff_of_true rfl ⟨hle, _, _, .inl ⟨rfl, rfl⟩, by omega, h.2.2⟩
    · split
      · rename_i h
        exact iff_of_true rfl ⟨hle, _, _, .inl ⟨rfl, rfl⟩, h.1, h.2⟩
      · rename_i h
        cases task with
        | none =>
          refine iff_of_false nofun ?_
          rintro ⟨-, lo, hi, ⟨rfl, rfl⟩ | ⟨t, ht, -⟩, hlo, hhi⟩
          · exact h ⟨hlo, hhi⟩
          · cases ht
        | some t =>
          simp only [Nat.shiftRight_eq_div_pow, decide_eq_true_eq]
          refine ⟨fun h => ⟨hle, _, _, .inr ⟨t, rfl, rfl, rfl⟩, h⟩, ?_⟩
          rintro ⟨-, lo, hi, ⟨rfl, rfl⟩ | ⟨t, ht, rfl, rfl⟩, hlo, hhi⟩
          · exact absurd ⟨hlo, hhi⟩ h
          · cases ht
            exact ⟨hlo, hhi⟩

theorem accessOk_none_iff : accessOk type addr size none = true ↔ addr.toNat / pageSize ≤ endPage addr size ∧
    userFirstPage ≤ addr.toNat / pageSize ∧ endPage addr size ≤ userFirstPage + numPagCode + numPagData := by
  rw [accessOk_iff]
  refine and_congr_right fun _ => ⟨?_, fun h => ⟨_, _, .inl ⟨rfl, rfl⟩, h⟩⟩
  rintro ⟨lo, hi, ⟨rfl, rfl⟩ | ⟨t, ht, -⟩, h⟩
  · exact h
  · cases ht

/-! ## Ends of ranges -/

/-- A range that ends below `2 ^ 32` has its end page there, and one that wraps around is let through only when it
comes back to the page it starts in. -/
theorem startPage_le_endPage (hsize : size < 2 ^ 32) : addr.toNat / pageSize ≤ endPage addr size ↔
    addr.toNat + size < 2 ^ 32 ∨ 2 ^ 32 ≤ addr.toNat % pageSize + size := by
  have := addr.toNat_lt
  simp only [endPage, pageSize]
  omega

theorem endPage_of_lt (h : addr.toNat + size < 2 ^ 32) : endPage addr size = (addr.toNat + size) / pageSize := by
  rw [endPage, Nat.mod_eq_of_lt h]

theorem endPage_of_wrap (hsize : size < 2 ^ 32) (h : 2 ^ 32 ≤ addr.toNat % pageSize + size) :
    endPage addr size = addr.toNat / pageSize := by
  have := addr.toNat_lt
  simp only [endPage, pageSize] at *
  omega

end

/-! ## Bytes behind the user's pages -/

/-- The range does not wrap around, and it is in the pages of code, data and stack. -/
def InUserPages (addr : UInt32) (size : Nat) : Prop :=
  addr.toNat + size < 2 ^ 32 ∧ ∀ i < size, lUserStart ≤ addr.toNat + i ∧ addr.toNat + i < dataEnd

/-- The range ends in the page behind the stack, or it wraps around to the page it starts in, which is one of the
user or that one. -/
def PastTheEnd (addr : UInt32) (size : Nat) : Prop :=
  lUserStart ≤ addr.toNat ∧ (dataEnd < addr.toNat + size ∧ addr.toNat + size < dataEnd + pageSize ∨
    addr.toNat < dataEnd + pageSize ∧ 2 ^ 32 ≤ addr.toNat % pageSize + size)

/-- Without a task a range that is let through is in the user's pages, but for those two kinds. -/
theorem accessOk_inUserPages_iff (type : AccessType) (addr : UInt32) {size : Nat} (hpos : 1 ≤ size) (hsize : size < 2 ^ 32) :
    (accessOk type addr size none = true → InUserPages addr size) ↔ ¬ PastTheEnd addr size := by
  have hstart : lUserStart = 256 * 4096 := rfl
  have hend : dataEnd = 284 * 4096 := rfl
  have hfirst : userFirstPage = 256 := rfl
  have hlt := addr.toNat_lt
  rw [accessOk_none_iff, startPage_le_endPage hsize]
  constructor
  · rintro h ⟨hlo, ⟨hgt, hle⟩ | ⟨hle, hwrap⟩⟩
    · have hfin : addr.toNat + size < 2 ^ 32 := by
        simp only [pageSize] at hle
        omega
      obtain ⟨-, hin⟩ := h ⟨.inl hfin, by simp only [pageSize]; omega, by
        rw [endPage_of_lt hfin]
        simp only [pageSize, numPagCode, numPagData] at *
        omega⟩
      have := hin (size - 1) (by omega)
      omega
    · obtain ⟨hfin, -⟩ := h ⟨.inr hwrap, by simp only [pageSize]; omega, by
        rw [endPage_of_wrap hsize hwrap]
        simp only [pageSize, numPagCode, numPagData] at *
        omega⟩
      simp only [pageSize] at hwrap
      omega
  · rintro hpast ⟨hfin | hwrap, hlo, hhi⟩
    · rw [endPage_of_lt hfin] at hhi
      simp only [pageSize, numPagCode, numPagData] at hlo hhi
      have hle : addr.toNat + size ≤ dataEnd := by
        apply Nat.le_of_not_lt
        intro hgt
        exact hpast ⟨by omega, .inl ⟨hgt, by simp only [pageSize]; omega⟩⟩
      exact ⟨hfin, fun i hi => by omega⟩
    · rw [endPage_of_wrap hsize hwrap] at hhi
      simp only [pageSize, numPagCode, numPagData] at hlo hhi
      exact absurd ⟨by omega, .inr ⟨by simp only [pageSize]; omega, hwrap⟩⟩ hpast

theorem accessOk_inUserPages_iff_last : (accessOk .verifyRead 0x11BFFF 2 none = true → InUserPages 0x11BFFF 2) ↔
    ¬ PastTheEnd 0x11BFFF 2 :=
  accessOk_inUserPages_iff .verifyRead 0x11BFFF (by decide) (by decide)

/-- The last byte of the stack and the one behind it, in a page that is not mapped; and a range from the start of the
code round to 16 bytes before it. -/
theorem accessOk_not_inUserPages : accessOk .verifyRead 0x11BFFF 2 none = true ∧ ¬ InUserPages 0x11BFFF 2 ∧
    (System.boot .blank).byteAt 0x11C000 = none ∧
    accessOk .verifyWrite 0x100018 0xFFFFFFF0 none = true ∧ ¬ InUserPages 0x100018 0xFFFFFFF0 := by
  refine ⟨by decide, fun h => ?_, by decide +kernel, by decide, fun h => ?_⟩
  · exact absurd (h.2 1 (by decide)) (by decide)
  · exact absurd h.1 (by decide)

/-! ## Code -/

/-- No byte of the range, which may wrap around, is in a code page. -/
def SparesCode (addr : UInt32) (size : Nat) : Prop :=
  ∀ i < size, ¬ (lUserStart ≤ (addr.toNat + i) % 2 ^ 32 ∧ (addr.toNat + i) % 2 ^ 32 < dataStart)

/-- From the page `lo` on there is a range that ends before it wraps around, at most in the page `hi`, and has a byte
of the code; or one that wraps around to the page it starts in. -/
def ReachesCode (addr : UInt32) (size lo hi : Nat) : Prop :=
  lo ≤ addr.toNat / pageSize ∧ (addr.toNat + size < 2 ^ 32 ∧ (addr.toNat + size) / pageSize ≤ hi ∧
      addr.toNat < dataStart ∧ lUserStart < addr.toNat + size ∨
    addr.toNat / pageSize ≤ hi ∧ 2 ^ 32 ≤ addr.toNat % pageSize + size)

section
variable {addr : UInt32} {size : Nat}

theorem sparesCode_iff_of_lt (hpos : 1 ≤ size) (h : addr.toNat + size < 2 ^ 32) :
    SparesCode addr size ↔ ¬ (addr.toNat < dataStart ∧ lUserStart < addr.toNat + size) := by
  have hstart : lUserStart = 256 * 4096 := rfl
  have hdata : dataStart = 264 * 4096 := rfl
  constructor
  · rintro hs ⟨hlt, hgt⟩
    -- the first byte of the range that is not in front of the code
    apply hs (lUserStart - addr.toNat) (by omega)
    omega
  · intro h i hi
    omega

/-- All but a part of one page is in such a range, and the code has eight of them. -/
theorem not_sparesCode_of_wrap (h : 2 ^ 32 ≤ addr.toNat % pageSize + size) : ¬ SparesCode addr size := by
  have hstart : lUserStart = 256 * 4096 := rfl
  have hdata : dataStart = 264 * 4096 := rfl
  have hlt := addr.toNat_lt
  simp only [pageSize] at h
  intro hs
  by_cases hle : addr.toNat ≤ lUserStart + 4096
  · apply hs (lUserStart + 4096 - addr.toNat) (by omega)
    omega
  · apply hs (2 ^ 32 + lUserStart - addr.toNat) (by omega)
    omega

/-- A range that may be written to has no byte of the code, but for ranges within the bounds that reach it. -/
theorem accessOk_write_sparesCode_iff (addr : UInt32) {size : Nat} (hpos : 1 ≤ size) (hsize : size < 2 ^ 32)
    (task : Option TaskStruct) : (accessOk .verifyWrite addr size task = true → SparesCode addr size) ↔
      ∀ lo hi, Bounds task lo hi → ¬ ReachesCode addr size lo hi := by
  rw [accessOk_iff, startPage_le_endPage hsize]
  constructor
  · rintro h lo hi hb ⟨hlo, ⟨hfin, hhi, hcode⟩ | ⟨hhi, hwrap⟩⟩
    · have hs := h ⟨.inl hfin, lo, hi, hb, hlo, by rwa [endPage_of_lt hfin]⟩
      exact (sparesCode_iff_of_lt hpos hfin).mp hs hcode
    · have hs := h ⟨.inr hwrap, lo, hi, hb, hlo, by rwa [endPage_of_wrap hsize hwrap]⟩
      exact not_sparesCode_of_wrap hwrap hs
  · rintro h ⟨hfin | hwrap, lo, hi, hb, hlo, hhi⟩
    · rw [endPage_of_lt hfin] at hhi
      apply (sparesCode_iff_of_lt hpos hfin).mpr
      exact fun hcode => h lo hi hb ⟨hlo, .inl ⟨hfin, hhi, hcode⟩⟩
    · rw [endPage_of_wrap hsize hwrap] at hhi
      exact absurd ⟨hlo, .inr ⟨hhi, hwrap⟩⟩ (h lo hi hb)

end

theorem accessOk_write_sparesCode_iff_start : (accessOk .verifyWrite 0x100000 1 none = true → SparesCode 0x100000 1) ↔
    ∀ lo hi, Bounds none lo hi → ¬ ReachesCode 0x100000 1 lo hi :=
  accessOk_write_sparesCode_iff 0x100000 (by decide) (by decide) none

/-- With the key `a` in the buffer, `sys_getKey` puts it in the first byte of the code. -/
theorem getKey_writes_code : accessOk .verifyWrite 0x100000 1 none = true ∧ ¬ SparesCode 0x100000 1 ∧
    ((System.boot .blank).keyboardHandler 0x9e 0).byteAt 0x100000 = some 0 ∧
    ∃ r, ((System.boot .blank).keyboardHandler 0x9e 0).sysGetKey 0x100000 = some r ∧ r.1 = 1 ∧
      r.2.byteAt 0x100000 = some 97 := by
  have hrun : (((System.boot .blank).keyboardHandler 0x9e 0).sysGetKey 0x100000).any (fun r =>
      decide (r.1 = 1 ∧ r.2.byteAt 0x100000 = some 97)) = true := by
    decide +kernel
  obtain ⟨r, hr, hd⟩ := (Option.any_eq_true _ _).mp hrun
  refine ⟨by decide, fun h => ?_, by decide +kernel, r, hr, of_decide_eq_true hd⟩
  exact absurd (h 0 (by decide)) (by decide)

end ZeosSOA.Sysenter
