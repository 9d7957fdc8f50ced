import Mathlib.Algebra.Group.Int.Defs
import Mathlib.Algebra.GroupWithZero.Nat
import Mathlib.Tactic.Ring

/-!
# do_div and get_ticks

The division of a 64-bit number by a word in utils.c of both kernels, put together from two
divisions of the processor, each with its divide error.
-/

namespace ZeosSOA

/-- What the constraint `A` makes of two words. -/
def edxEax (edx eax : UInt32) : UInt64 := .ofNat (edx.toNat * 2 ^ 32 + eax.toNat)

def lowWord (n : UInt64) : UInt32 := .ofNat n.toNat

def highWord (n : UInt64) : UInt32 := .ofNat (n.toNat / 2 ^ 32)

/-- `divl`: the quotient and the remainder; `none` is a divide error. -/
def divl (edx eax base : UInt32) : Option (UInt32 × UInt32) :=
  let n := edx.toNat * 2 ^ 32 + eax.toNat
  if base = 0 ∨ 2 ^ 32 ≤ n / base.toNat then none else some (.ofNat (n / base.toNat), .ofNat (n % base.toNat))

/-- `__upper` and `__high` before the second division. The words are divided with nothing above them. -/
def doDivUpper (n : UInt64) (base : UInt32) : Option (UInt32 × UInt32) :=
  let high := highWord n
  if high ≠ 0 then do
    let (quotient, remainder) ← divl 0 high base
    return (remainder, quotient)
  else return (high, high)

/-- `do_div`: what it leaves in `n`, and `__mod`. -/
def doDiv (n : UInt64) (base : UInt32) : Option (UInt64 × UInt32) := do
  let (upper, high) ← doDivUpper n base
  let (low, mod) ← divl upper (lowWord n) base
  return (edxEax high low, mod)

abbrev cyclesPerTick : UInt32 := 109000

/-- `get_ticks`, with what `rdtsc` has put into the two registers. -/
def getTicks (eax edx : UInt32) : Option UInt32 := do
  let ticks := edx.toUInt64 <<< 32 + eax.toUInt64
  let (ticks, _) ← doDiv ticks cyclesPerTick
  return ticks.toUInt32

section
variable {edx eax base : UInt32} {n : UInt64}

theorem toNat_edxEax (edx eax : UInt32) : (edxEax edx eax).toNat = edx.toNat * 2 ^ 32 + eax.toNat := by
  have hd := edx.toNat_lt
  have ha := eax.toNat_lt
  rw [edxEax, UInt64.toNat_ofNat', Nat.mod_eq_of_lt (by omega)]

theorem words_toNat (n : UInt64) : (highWord n).toNat * 2 ^ 32 + (lowWord n).toNat = n.toNat := by
  have hn := n.toNat_lt
  rw [highWord, lowWord, UInt32.toNat_ofNat', UInt32.toNat_ofNat']
  omega

/-- There is no divide error exactly when the upper word is smaller than the divisor. -/
theorem divl_eq_some_iff {x : UInt32 × UInt32} : divl edx eax base = some x ↔ edx < base ∧
    x.1.toNat = (edx.toNat * 2 ^ 32 + eax.toNat) / base.toNat ∧
      x.2.toNat = (edx.toNat * 2 ^ 32 + eax.toNat) % base.toNat := by
  have ha := eax.toNat_lt
  have hb := base.toNat_lt
  by_cases h0 : base = 0
  · rw [divl, if_pos (.inl h0), h0]
    refine iff_of_false (fun h => by cases h) fun h => ?_
    exact absurd (UInt32.lt_iff_toNat_lt.mp h.1) (Nat.not_lt_zero _)
  have hpos : 0 < base.toNat := Nat.pos_of_ne_zero fun h => h0 (UInt32.toNat_inj.mp h)
  have hfits : (edx.toNat * 2 ^ 32 + eax.toNat) / base.toNat < 2 ^ 32 ↔ edx < base := by
    rw [Nat.div_lt_iff_lt_mul hpos, UInt32.lt_iff_toNat_lt]
    constructor <;> intro h <;> omega
  have hmod := Nat.mod_lt (edx.toNat * 2 ^ 32 + eax.toNat) hpos
  by_cases hlt : edx < base
  · have hq := hfits.mpr hlt
    rw [divl, if_neg (by rw [not_or]; exact ⟨h0, Nat.not_le.mpr hq⟩), Option.some.injEq, and_iff_right hlt]
    constructor
    · rintro rfl
      exact ⟨by rw [UInt32.toNat_ofNat', Nat.mod_eq_of_lt hq], by rw [UInt32.toNat_ofNat', Nat.mod_eq_of_lt (by omega)]⟩
    · intro h
      rw [← h.1, ← h.2, UInt32.ofNat_toNat, UInt32.ofNat_toNat]
  · have hq := Nat.not_lt.mp (mt hfits.mp hlt)
    rw [divl, if_pos (.inr hq)]
    exact iff_of_false (fun h => by cases h) fun h => hlt h.1

/-- The first division takes the multiples of the divisor out of the high word. -/
theorem doDivUpper_spec (hb : base ≠ 0) (n : UInt64) : ∃ upper high, doDivUpper n base = some (upper, high) ∧
    upper < base ∧ (highWord n).toNat = high.toNat * base.toNat + upper.toNat := by
  have hpos : 0 < base := UInt32.pos_iff_ne_zero.mpr hb
  by_cases h0 : highWord n = 0
  · refine ⟨0, 0, ?_, hpos, ?_⟩
    · rw [doDivUpper, h0]
      rfl
    · rw [h0]
      simp
  · have hdiv : divl 0 (highWord n) base = some (highWord n / base, highWord n % base) := by
      rw [divl_eq_some_iff]
      simp [hpos]
    refine ⟨highWord n % base, highWord n / base, ?_, ?_, ?_⟩
    · simp only [doDivUpper, if_pos h0, hdiv]
      rfl
    · rw [UInt32.lt_iff_toNat_lt, UInt32.toNat_mod]
      exact Nat.mod_lt _ hpos
    · rw [UInt32.toNat_mod, UInt32.toNat_div]
      exact (Nat.div_add_mod' ..).symm

/-- The remainder of the high word and the low word are divided in one. -/
theorem doDiv_spec (hb : base ≠ 0) (n : UInt64) : ∃ upper high quotient remainder,
    doDivUpper n base = some (upper, high) ∧ upper < base ∧ doDiv n base = some (quotient, remainder) ∧
      quotient.toNat = n.toNat / base.toNat ∧ remainder.toNat = n.toNat % base.toNat := by
  obtain ⟨upper, high, hupper, hlt, hhigh⟩ := doDivUpper_spec hb n
  have hpos : 0 < base.toNat := UInt32.pos_iff_ne_zero.mpr hb
  generalize hm : upper.toNat * 2 ^ 32 + (lowWord n).toNat = m
  have hn : n.toNat = m + base.toNat * (high.toNat * 2 ^ 32) := by
    rw [← words_toNat n, hhigh, ← hm]
    ring
  have hb' := base.toNat_lt
  have hlow' := (lowWord n).toNat_lt
  have hlt' := UInt32.lt_iff_toNat_lt.mp hlt
  have hq : m / base.toNat < 2 ^ 32 := (Nat.div_lt_iff_lt_mul hpos).mpr (by omega)
  have hr := Nat.mod_lt m hpos
  have hquotient : (UInt32.ofNat (m / base.toNat)).toNat = m / base.toNat := by
    rw [UInt32.toNat_ofNat', Nat.mod_eq_of_lt hq]
  have hremainder : (UInt32.ofNat (m % base.toNat)).toNat = m % base.toNat := by
    rw [UInt32.toNat_ofNat', Nat.mod_eq_of_lt (by omega)]
  have hlow : divl upper (lowWord n) base = some (.ofNat (m / base.toNat), .ofNat (m % base.toNat)) := by
    rw [divl_eq_some_iff, hm]
    exact ⟨hlt, hquotient, hremainder⟩
  refine ⟨upper, high, edxEax high (.ofNat (m / base.toNat)), .ofNat (m % base.toNat), hupper, hlt, ?_, ?_, ?_⟩
  · simp only [doDiv, hupper, Option.bind_eq_bind, Option.bind_some, hlow]
    rfl
  · rw [toNat_edxEax, hquotient, hn, Nat.add_mul_div_left _ _ hpos, Nat.add_comm]
  · rw [hremainder, hn, Nat.add_mul_mod_self_left]

theorem toNat_ticks (eax edx : UInt32) : (edx.toUInt64 <<< 32 + eax.toUInt64).toNat = edx.toNat * 2 ^ 32 + eax.toNat := by
  have hd := edx.toNat_lt
  have ha := eax.toNat_lt
  rw [UInt64.toNat_add, UInt64.toNat_shiftLeft, UInt32.toNat_toUInt64, UInt32.toNat_toUInt64, Nat.shiftLeft_eq]
  simp
  omega

end

/-- The division is exact for every divisor but zero, without a divide error, and `get_ticks` returns the low word of
the quotient. -/
theorem do_div_exact {base : UInt32} (hb : base ≠ 0) (n : UInt64) (eax edx : UInt32) :
    (∃ upper high quotient remainder, doDivUpper n base = some (upper, high) ∧ upper < base ∧
      doDiv n base = some (quotient, remainder) ∧ quotient.toNat = n.toNat / base.toNat ∧
        remainder.toNat = n.toNat % base.toNat) ∧
      getTicks eax edx = some (.ofNat ((edx.toNat * 2 ^ 32 + eax.toNat) / 109000)) := by
  refine ⟨doDiv_spec hb n, ?_⟩
  obtain ⟨-, -, quotient, remainder, -, -, hdiv, hq, -⟩ :=
    doDiv_spec (show cyclesPerTick ≠ 0 by decide) (edx.toUInt64 <<< 32 + eax.toUInt64)
  rw [toNat_ticks] at hq
  have hdivisor : cyclesPerTick.toNat = 109000 := rfl
  simp only [getTicks, hdiv, Option.bind_eq_bind, Option.bind_some, Option.pure_def, Option.some.injEq]
  rw [← UInt32.toNat_inj, UInt64.toNat_toUInt32, hq, hdivisor, UInt32.toNat_ofNat']

/-- The high word is larger than the divisor, so that both divisions are made. -/
theorem do_div_exact_tick : ∃ quotient remainder, doDiv 0x123456789abcdef 109000 = some (quotient, remainder) ∧
    quotient.toNat = 0x123456789abcdef / 109000 ∧ remainder.toNat = 0x123456789abcdef % 109000 := by
  obtain ⟨⟨-, -, quotient, remainder, -, -, hdiv, hq, hr⟩, -⟩ :=
    do_div_exact (show (109000 : UInt32) ≠ 0 by decide) 0x123456789abcdef 0 0
  exact ⟨quotient, remainder, hdiv, hq, hr⟩

end ZeosSOA
