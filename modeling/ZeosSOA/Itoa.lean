import Mathlib.Data.Nat.Digits.Lemmas
import Mathlib.Logic.Function.Basic

/-!
# itoa

The number conversion of libc.c, with `strlen`, on an array of characters of which only the first `len`
can be touched. The digits are written with the lowest one first, and then turned around in place.
-/

namespace ZeosSOA

namespace Libc

/-- An access to the characters of an array; behind the end it is `none`. -/
def load (len : Nat) (b : Nat → UInt8) (i : Nat) : Option UInt8 := if i < len then some (b i) else none

def store (len : Nat) (b : Nat → UInt8) (i : Nat) (c : UInt8) : Option (Nat → UInt8) :=
  if i < len then some (Function.update b i c) else none

/-- `(a%10)+'0'` as a character. -/
def digit (a : Int) : UInt8 := .ofNat (a.tmod 10 + 48).toNat

/-- `while (a>0)`: the array, and `i` behind the last digit. -/
def itoaDigits (len : Nat) (a : Int) (b : Nat → UInt8) (i : Nat) : Option ((Nat → UInt8) × Nat) :=
  if a > 0 then do
    let b ← store len b i (digit a)
    itoaDigits len (a.tdiv 10) b (i + 1)
  else some (b, i)
termination_by a.toNat
decreasing_by
  rename_i ha
  rw [Int.tdiv_eq_ediv_of_nonneg (by omega)]
  omega

/-- One round of the loop over `i1`. -/
def itoaSwap (len i : Nat) (b : Nat → UInt8) (i1 : Nat) : Option (Nat → UInt8) := do
  let c ← load len b i1
  let d ← load len b (i - i1 - 1)
  let b ← store len b i1 d
  store len b (i - i1 - 1) c

def itoa (len : Nat) (a : Int) (b : Nat → UInt8) : Option (Nat → UInt8) :=
  if a = 0 then do
    let b ← store len b 0 48
    store len b 1 0
  else do
    let (b, i) ← itoaDigits len a b 0
    let b ← (List.range (i / 2)).foldlM (itoaSwap len i) b
    store len b i 0

/-- `strlen` from the index `i` on, in at most `fuel` rounds. -/
def strlen (a : Nat → UInt8) : Nat → Nat → Option Nat
  | 0, _ => none
  | fuel + 1, i => if a i ≠ 0 then strlen a fuel (i + 1) else some i

/-! ## Strings in an array -/

/-- The array with the string at its start. -/
def place (b : Nat → UInt8) (i : Nat) (cs : List UInt8) : Nat → UInt8 := fun k =>
  if i ≤ k then (cs[k - i]?).getD (b k) else b k

/-- The number that a string of digits stands for. -/
def value (cs : List UInt8) : Nat := cs.foldl (fun v c => 10 * v + (c.toNat - 48)) 0

/-- The first `n` characters are the decimal representation of `a`, and a zero comes behind them. -/
structure Decimal (b : Nat → UInt8) (n a : Nat) : Prop where
  digits : ∀ k < n, 48 ≤ (b k).toNat ∧ (b k).toNat ≤ 57
  stop : b n = 0
  value : value ((List.range n).map b) = a
  leading : b 0 = 48 → a = 0
  count : n = Nat.log 10 a + 1

/-- The digits of `a`, the lowest one first. -/
def digitsOf (a : Nat) : List UInt8 := (Nat.digits 10 a).map fun d => .ofNat (d + 48)

section
variable {len n i a : Nat} {b : Nat → UInt8} {cs : List UInt8} {c : UInt8}

theorem store_some (h : i < len) : store len b i c = some (Function.update b i c) := if_pos h

theorem load_some (h : i < len) : load len b i = some (b i) := if_pos h

theorem place_nil : place b i [] = b := by
  funext k
  simp [place]

theorem place_cons : place b i (c :: cs) = place (Function.update b i c) (i + 1) cs := by
  funext k
  simp only [place]
  by_cases hk : i + 1 ≤ k
  · obtain ⟨j, rfl⟩ := Nat.exists_eq_add_of_le hk
    have hsub : i + 1 + j - i = j + 1 := by omega
    have hsub' : i + 1 + j - (i + 1) = j := by omega
    rw [if_pos (by omega), if_pos hk, hsub, hsub', List.getElem?_cons_succ, Function.update_of_ne (by omega)]
  · rw [if_neg hk]
    by_cases hi : i = k
    · rw [if_pos (by omega), hi, Function.update_self]
      simp
    · rw [if_neg (by omega), Function.update_of_ne (Ne.symm hi)]

theorem digit_eq (a : Nat) : digit a = .ofNat (a % 10 + 48) := by
  have hmod : (a : Int).tmod 10 = (a % 10 : Nat) := by
    rw [Int.tmod_eq_emod_of_nonneg (by omega)]
    rfl
  rw [digit, hmod]
  rfl

theorem digitsOf_pos (h : 0 < a) : digitsOf a = digit a :: digitsOf (a / 10) := by
  rw [digitsOf, Nat.digits_def' (by decide) h, List.map_cons, digit_eq]
  rfl

/-! ## The loops -/

theorem itoaDigits_eq (h : i + (digitsOf a).length ≤ len) :
    itoaDigits len a b i = some (place b i (digitsOf a), i + (digitsOf a).length) := by
  induction a using Nat.strong_induction_on generalizing b i with
  | h a ih =>
    rw [itoaDigits]
    by_cases ha : 0 < a
    · have hdiv : (a : Int).tdiv 10 = (a / 10 : Nat) := by
        rw [Int.tdiv_eq_ediv_of_nonneg (by omega)]
        rfl
      rw [digitsOf_pos ha, List.length_cons] at h ⊢
      rw [if_pos (by omega), hdiv, store_some (by omega), Option.bind_eq_bind, Option.bind_some,
        ih (a / 10) (by omega) (by omega), place_cons]
      simp
      omega
    · obtain rfl : a = 0 := by omega
      rw [if_neg (by omega), digitsOf, Nat.digits_zero, List.map_nil, place_nil]
      rfl

/-- The array after `j` rounds: the first `j` of the `n` characters have changed places with the last. -/
def swapped (b : Nat → UInt8) (n j : Nat) : Nat → UInt8 := fun k =>
  if k < n ∧ (k < j ∨ n ≤ k + j) then b (n - 1 - k) else b k

theorem swaps_eq {j : Nat} (hn : n ≤ len) (hj : j ≤ n / 2) :
    (List.range j).foldlM (itoaSwap len n) b = some (swapped b n j) := by
  induction j with
  | zero =>
    have hsame : swapped b n 0 = b := by
      funext k
      exact if_neg (by omega)
    rw [hsame]
    rfl
  | succ j ih =>
    rw [List.range_succ, List.foldlM_append, ih (by omega), Option.bind_eq_bind, Option.bind_some, List.foldlM_cons,
      itoaSwap, load_some (by omega), load_some (by omega)]
    simp only [Option.bind_eq_bind, Option.bind_some, List.foldlM_nil, store_some (show j < len by omega),
      store_some (show n - j - 1 < len by omega), Option.pure_def]
    congr 1
    funext k
    have hlow : swapped b n j j = b j := if_neg (by omega)
    have hhigh : swapped b n j (n - j - 1) = b (n - j - 1) := if_neg (by omega)
    rw [hlow, hhigh, Function.update_apply, Function.update_apply]
    by_cases h1 : k = n - j - 1
    · rw [if_pos h1, swapped, if_pos (by omega)]
      congr 1
      omega
    · rw [if_neg h1]
      by_cases h2 : k = j
      · rw [if_pos h2, swapped, if_pos (by omega)]
        congr 1
        omega
      · rw [if_neg h2, swapped, swapped]
        have hiff : k < n ∧ (k < j + 1 ∨ n ≤ k + (j + 1)) ↔ k < n ∧ (k < j ∨ n ≤ k + j) := by omega
        simp only [hiff]

theorem swapped_place : swapped (place b 0 cs) cs.length (cs.length / 2) = place b 0 cs.reverse := by
  funext k
  simp only [swapped, place, Nat.zero_le, if_true, Nat.sub_zero]
  by_cases hk : k < cs.length
  · rw [List.getElem?_reverse hk]
    by_cases hmid : k < cs.length / 2 ∨ cs.length ≤ k + cs.length / 2
    · rw [if_pos ⟨hk, hmid⟩]
      have hlt : cs.length - 1 - k < cs.length := by omega
      simp [List.getElem?_eq_getElem hlt]
    · have heq : cs.length - 1 - k = k := by omega
      rw [if_neg (fun h => hmid h.2), heq]
  · rw [if_neg (fun h => hk h.1), List.getElem?_eq_none (by omega), List.getElem?_eq_none (by simp; omega)]

theorem place_stop : Function.update (place b 0 cs) cs.length 0 = place b 0 (cs ++ [0]) := by
  funext k
  by_cases hk : k = cs.length
  · rw [hk, Function.update_self]
    simp [place]
  · rw [Function.update_of_ne hk]
    simp only [place, Nat.zero_le, if_true, Nat.sub_zero]
    by_cases hlt : k < cs.length
    · rw [List.getElem?_append_left hlt]
    · rw [List.getElem?_append_right (by omega), List.getElem?_eq_none (by omega), List.getElem?_eq_none (by simp; omega)]

/-- What `itoa` writes in front of the zero. -/
def text (a : Nat) : List UInt8 := if a = 0 then [48] else (digitsOf a).reverse

theorem length_text (a : Nat) : (text a).length = Nat.log 10 a + 1 := by
  rw [text]
  split
  · rename_i h
    rw [h, Nat.log_zero_right]
    rfl
  · rename_i h
    rw [List.length_reverse, digitsOf, List.length_map, Nat.length_digits 10 a (by decide) h]

theorem itoa_eq (h : (text a).length < len) : itoa len a b = some (place b 0 (text a ++ [0])) := by
  rw [itoa]
  by_cases ha : a = 0
  · rw [text, if_pos ha] at h ⊢
    simp only [List.length_singleton] at h
    rw [if_pos (by omega), store_some (by omega), Option.bind_eq_bind, Option.bind_some, store_some h]
    congr 1
    rw [List.singleton_append, place_cons, place_cons, place_nil]
  · rw [text, if_neg ha] at h ⊢
    rw [List.length_reverse] at h
    rw [if_neg (by omega), itoaDigits_eq (by omega)]
    simp only [Nat.zero_add, Option.bind_eq_bind, Option.bind_some]
    rw [swaps_eq (by omega) (Nat.le_refl _), Option.bind_some, store_some (by omega), swapped_place]
    congr 1
    rw [← List.length_reverse, place_stop]

theorem toNat_digit {d : Nat} (h : d < 10) : (UInt8.ofNat (d + 48)).toNat = d + 48 := by
  rw [UInt8.toNat_ofNat', Nat.mod_eq_of_lt (by omega)]

theorem value_reverse {ds : List Nat} (h : ∀ d ∈ ds, d < 10) :
    value (ds.map fun d => UInt8.ofNat (d + 48)).reverse = Nat.ofDigits 10 ds := by
  induction ds with
  | nil => rfl
  | cons d ds ih =>
    have ih := ih fun x hx => h x (List.mem_cons_of_mem _ hx)
    rw [value] at ih
    rw [value, List.map_cons, List.reverse_cons, List.foldl_append, ih, Nat.ofDigits_cons]
    simp only [List.foldl_cons, List.foldl_nil, toNat_digit (h d List.mem_cons_self)]
    omega

theorem value_text (a : Nat) : value (text a) = a := by
  rw [text]
  split
  · rename_i h
    rw [h]
    rfl
  · rw [digitsOf, value_reverse fun d hd => Nat.digits_lt_base (by decide) hd, Nat.ofDigits_digits]

theorem text_digit (hc : c ∈ text a) : 48 ≤ c.toNat ∧ c.toNat ≤ 57 := by
  rw [text] at hc
  split at hc
  · rw [List.mem_singleton.mp hc]
    decide
  · rw [List.mem_reverse, digitsOf, List.mem_map] at hc
    obtain ⟨d, hd, rfl⟩ := hc
    have hlt : d < 10 := Nat.digits_lt_base (by decide) hd
    rw [toNat_digit hlt]
    omega

theorem text_leading (h : (text a)[0]? = some 48) : a = 0 := by
  rw [text] at h
  split at h
  · assumption
  · rename_i ha
    have hlast := Nat.getLast_digit_ne_zero 10 ha
    have hlt : (Nat.digits 10 a).getLast (Nat.digits_ne_nil_iff_ne_zero.mpr ha) < 10 :=
      Nat.digits_lt_base (by decide) (List.getLast_mem _)
    rw [← List.head?_eq_getElem?, List.head?_reverse, digitsOf, List.getLast?_map,
      List.getLast?_eq_some_getLast (Nat.digits_ne_nil_iff_ne_zero.mpr ha), Option.map_some, Option.some.injEq] at h
    have := congrArg UInt8.toNat h
    rw [toNat_digit hlt] at this
    exact absurd (show _ = 0 by simpa using this) hlast

theorem place_get (k : Nat) (hk : k < cs.length) : place b 0 (cs ++ [0]) k = cs[k] := by
  simp only [place, Nat.zero_le, if_true, Nat.sub_zero]
  rw [List.getElem?_append_left hk, List.getElem?_eq_getElem hk, Option.getD_some]

theorem place_decimal (b : Nat → UInt8) (a : Nat) : Decimal (place b 0 (text a ++ [0])) (text a).length a where
  digits := by
    intro k hk
    rw [place_get k hk]
    exact text_digit (List.getElem_mem hk)
  stop := by simp [place]
  value := by
    have hmap : (List.range (text a).length).map (place b 0 (text a ++ [0])) = text a := by
      apply List.ext_getElem
      · simp
      · intro k h1 h2
        rw [List.getElem_map, List.getElem_range, place_get k h2]
    rw [hmap, value_text]
  leading := by
    intro h
    have hpos : 0 < (text a).length := by
      rw [length_text]
      omega
    rw [place_get 0 hpos] at h
    apply text_leading
    rw [List.getElem?_eq_getElem hpos, h]
  count := length_text a

theorem strlen_eq {fuel : Nat} (hnz : ∀ k, i ≤ k → k < n → b k ≠ 0) (hz : b n = 0) (hi : i ≤ n) (hf : n < i + fuel) :
    strlen b fuel i = some n := by
  induction fuel generalizing i with
  | zero => omega
  | succ fuel ih =>
    rw [strlen]
    by_cases h : i = n
    · rw [if_neg (by rw [h]; exact not_not.mpr hz), h]
    · rw [if_pos (hnz i (Nat.le_refl i) (by omega))]
      exact ih (fun k hk hkn => hnz k (by omega) hkn) (by omega) (by omega)

end

/-- A number that is not negative is written as its decimal representation, in at most eleven characters. -/
theorem itoa_decimal {a : Int} (h0 : 0 ≤ a) (hmax : a < 2 ^ 31) (b : Nat → UInt8) : ∃ b' n, n + 1 ≤ 11 ∧
    (∀ len, n < len → itoa len a b = some b') ∧ (∀ k, n < k → b' k = b k) ∧ Decimal b' n a.toNat ∧
      ∀ fuel, n < fuel → strlen b' fuel 0 = some n := by
  obtain ⟨a, rfl⟩ := Int.eq_ofNat_of_zero_le h0
  have hdec := place_decimal b a
  have hlen : (text a).length ≤ 10 := by
    rw [length_text]
    have : Nat.log 10 a < 10 := Nat.log_lt_of_lt_pow' (by decide) (by omega)
    omega
  refine ⟨_, _, by omega, fun len h => itoa_eq h, fun k hk => ?_, hdec, fun fuel hf => ?_⟩
  · simp only [place, Nat.zero_le, if_true, Nat.sub_zero]
    rw [List.getElem?_eq_none (by simp; omega), Option.getD_none]
  · refine strlen_eq (fun k _ hk hzero => ?_) hdec.stop (Nat.zero_le _) (by omega)
    have := (hdec.digits k hk).1
    rw [hzero] at this
    exact absurd this (by decide)

theorem itoa_decimal_max : ∃ b' n, itoa 11 2147483647 (fun _ => 0) = some b' ∧ Decimal b' n 2147483647 := by
  obtain ⟨b', n, hn, hitoa, -, hdec, -⟩ := itoa_decimal (a := 2147483647) (by decide) (by decide) fun _ => 0
  exact ⟨b', n, hitoa 11 (by omega), hdec⟩

end Libc

end ZeosSOA
