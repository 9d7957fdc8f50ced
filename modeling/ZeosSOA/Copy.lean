import Mathlib.Algebra.Group.Int.Defs
import Mathlib.Algebra.GroupWithZero.Nat
import Mathlib.Logic.Function.Basic

/-!
# utils.c: copying

The copy functions of both kernels copy words as long as more than four bytes are left, then
single bytes. What they read from and write to is a parameter, and `none` is a page fault.
-/

namespace ZeosSOA

/-- Access to the source and the destination of a copy. -/
structure Transfer (σ : Type) where
  load : σ → UInt32 → Option UInt8
  store : σ → UInt32 → UInt8 → Option σ

section
variable {σ : Type} (t : Transfer σ)

/-- `*q1 = *p1` of a `Byte`. -/
def copyByte (s : σ) (p q : UInt32) : Option σ := do
  let v ← t.load s p
  t.store s q v

/-- `*q = *p` of a `DWord`: the whole word is read before it is written. -/
def copyWord (s : σ) (p q : UInt32) : Option σ := do
  let v₀ ← t.load s p
  let v₁ ← t.load s (p + 1)
  let v₂ ← t.load s (p + 2)
  let v₃ ← t.load s (p + 3)
  let s ← t.store s q v₀
  let s ← t.store s (q + 1) v₁
  let s ← t.store s (q + 2) v₂
  t.store s (q + 3) v₃

/-- `while (size > 0)`. -/
def copyBytes : Nat → σ → UInt32 → UInt32 → Option σ
  | 0, s, _, _ => some s
  | size + 1, s, p, q => do
    let s ← copyByte t s p q
    copyBytes size s (p + 1) (q + 1)

/-- `while (size > 4)`, and the other loop from there on. -/
def copyWords : Nat → σ → UInt32 → UInt32 → Option σ
  | size + 4, s, p, q =>
    if size = 0 then copyBytes t 4 s p q
    else do
      let s ← copyWord t s p q
      copyWords size s (p + 4) (q + 4)
  | size, s, p, q => copyBytes t size s p q

/-- Bytes one behind the other, from the address `a` on. -/
def addressed (a : UInt32) : List UInt8 → List (UInt32 × UInt8)
  | [] => []
  | v :: vs => (a, v) :: addressed (a + 1) vs

def copyFromUser (s : σ) (start dest : UInt32) (size : Int) : Option (Int × σ) := do
  let s ← copyWords t size.toNat s start dest
  return (0, s)

def copyToUser (s : σ) (start dest : UInt32) (size : Int) : Option (Int × σ) := do
  let s ← copyWords t size.toNat s start dest
  return (0, s)

/-! ## Words and bytes -/

/-- In a copy of `size` bytes no byte that is still to be read is changed by a byte that is written before it. -/
def Ahead (p q : UInt32) (size : Nat) : Prop := ∀ i j, i < j → j < size → ∀ s s' v,
  t.store s (q + .ofNat i) v = some s' → t.load s' (p + .ofNat j) = t.load s (p + .ofNat j)

end

section
variable {σ : Type} {t : Transfer σ} {p q : UInt32} {n m : Nat}

theorem Ahead.shift (h : Ahead t p q (n + m)) : Ahead t (p + .ofNat m) (q + .ofNat m) n := by
  intro i j hij hj s s' v hs
  have hq : q + .ofNat m + .ofNat i = q + .ofNat (i + m) := by
    rw [UInt32.add_assoc, UInt32.add_comm (.ofNat m), UInt32.ofNat_add]
  have hp : p + .ofNat m + .ofNat j = p + .ofNat (j + m) := by
    rw [UInt32.add_assoc, UInt32.add_comm (.ofNat m), UInt32.ofNat_add]
  rw [hq] at hs
  rw [hp]
  exact h (i + m) (j + m) (by omega) (by omega) s s' v hs

theorem Ahead.mono (h : Ahead t p q n) (hm : m ≤ n) : Ahead t p q m := fun i j hij hj =>
  h i j hij (by omega)

theorem copyBytes_add : ∀ (m n : Nat) (s : σ) (p q : UInt32), copyBytes t (m + n) s p q =
    (copyBytes t m s p q).bind fun s => copyBytes t n s (p + .ofNat m) (q + .ofNat m)
  | 0, n, s, p, q => by
    rw [Nat.zero_add, copyBytes, Option.bind_some]
    simp
  | m + 1, n, s, p, q => by
    have hstep : ∀ a : UInt32, a + 1 + .ofNat m = a + .ofNat (m + 1) := by
      intro a
      rw [UInt32.add_assoc, UInt32.add_comm 1, UInt32.ofNat_add]
      rfl
    rw [Nat.add_right_comm, copyBytes, copyBytes, Option.bind_eq_bind, Option.bind_assoc]
    congr 1
    funext s₁
    rw [copyBytes_add m n, hstep, hstep]

/-- A word that is read as a whole is its four bytes one after the other. -/
theorem copyWord_eq_copyBytes (h : Ahead t p q 4) (s : σ) : copyWord t s p q = copyBytes t 4 s p q := by
  have e2 : ∀ a : UInt32, a + 1 + 1 = a + 2 := fun a => by rw [UInt32.add_assoc]; rfl
  have e3 : ∀ a : UInt32, a + 2 + 1 = a + 3 := fun a => by rw [UInt32.add_assoc]; rfl
  simp only [copyWord, copyBytes, copyByte, e2, e3, Option.bind_eq_bind, Option.bind_assoc]
  cases t.load s p with
  | none => rfl
  | some v₀ =>
    simp only [Option.bind_some]
    cases h₀ : t.store s q v₀ with
    | none => simp
    | some s₁ =>
      have hq : t.store s (q + .ofNat 0) v₀ = some s₁ := by simpa using h₀
      have l₁ : t.load s₁ (p + 1) = t.load s (p + 1) := h 0 1 (by decide) (by decide) s s₁ v₀ hq
      have l₂ : t.load s₁ (p + 2) = t.load s (p + 2) := h 0 2 (by decide) (by decide) s s₁ v₀ hq
      have l₃ : t.load s₁ (p + 3) = t.load s (p + 3) := h 0 3 (by decide) (by decide) s s₁ v₀ hq
      simp only [Option.bind_some, ← l₁, ← l₂, ← l₃]
      cases t.load s₁ (p + 1) with
      | none => rfl
      | some v₁ =>
        simp only [Option.bind_some]
        cases h₁ : t.store s₁ (q + 1) v₁ with
        | none => simp
        | some s₂ =>
          have l₂ : t.load s₂ (p + 2) = t.load s₁ (p + 2) := h 1 2 (by decide) (by decide) s₁ s₂ v₁ h₁
          have l₃ : t.load s₂ (p + 3) = t.load s₁ (p + 3) := h 1 3 (by decide) (by decide) s₁ s₂ v₁ h₁
          simp only [Option.bind_some, ← l₂, ← l₃]
          cases t.load s₂ (p + 2) with
          | none => rfl
          | some v₂ =>
            simp only [Option.bind_some]
            cases h₂ : t.store s₂ (q + 2) v₂ with
            | none => simp
            | some s₃ =>
              have l₃ : t.load s₃ (p + 3) = t.load s₂ (p + 3) := h 2 3 (by decide) (by decide) s₂ s₃ v₂ h₂
              simp only [Option.bind_some, ← l₃]
              cases t.load s₃ (p + 3) with
              | none => rfl
              | some v₃ => simp

theorem copyWords_eq_copyBytes : ∀ {n : Nat} {s : σ} {p q : UInt32}, Ahead t p q n →
    copyWords t n s p q = copyBytes t n s p q
  | 0, _, _, _, _ => rfl
  | 1, _, _, _, _ => rfl
  | 2, _, _, _, _ => rfl
  | 3, _, _, _, _ => rfl
  | n + 4, s, p, q, h => by
    rw [copyWords]
    split
    · rename_i hn
      rw [hn]
    · rw [Nat.add_comm n 4, copyBytes_add, copyWord_eq_copyBytes (h.mono (Nat.le_add_left 4 n)), Option.bind_eq_bind]
      congr 1
      funext s₁
      exact copyWords_eq_copyBytes h.shift

end

/-! ## Bytes in memory -/

/-- The bytes are in memory from the address `p` on. -/
def Stored (mem : UInt32 → Option UInt8) : UInt32 → List UInt8 → Prop
  | _, [] => True
  | p, b :: bs => mem p = some b ∧ Stored mem (p + 1) bs

/-- The `n` bytes from `p` on can be read. -/
def AllMapped (mem : UInt32 → Option UInt8) (p : UInt32) (n : Nat) : Prop := ∀ i < n, (mem (p + .ofNat i)).isSome = true

instance (mem : UInt32 → Option UInt8) (p : UInt32) (n : Nat) : Decidable (AllMapped mem p n) :=
  inferInstanceAs (Decidable (∀ i < n, _))

/-- From memory to an array of `len` bytes, with its addresses counted from its first byte. -/
def toArray (mem : UInt32 → Option UInt8) (len : Nat) : Transfer (Nat → UInt8) where
  load _ a := mem a
  store b q v := if q.toNat < len then some (Function.update b q.toNat v) else none

/-- From an array to memory, the addresses of the array counted from its first byte. -/
def fromArray {σ : Type} (bytes : List UInt8) (store : σ → UInt32 → UInt8 → Option σ) : Transfer σ where
  load _ a := bytes[a.toNat]?
  store := store

section
variable {mem : UInt32 → Option UInt8} {len : Nat} {p q : UInt32} {bs cs : List UInt8} {b b' : Nat → UInt8}

instance : ∀ (p : UInt32) (bs : List UInt8), Decidable (Stored mem p bs)
  | _, [] => inferInstanceAs (Decidable True)
  | p, b :: bs =>
    have := instDecidableStored (p + 1) bs
    inferInstanceAs (Decidable (mem p = some b ∧ Stored mem (p + 1) bs))

theorem stored_append : ∀ {as : List UInt8} {p : UInt32}, Stored mem p (as ++ bs) ↔
    Stored mem p as ∧ Stored mem (p + .ofNat as.length) bs
  | [], p => by simp [Stored]
  | a :: as, p => by
    have hnext : p + 1 + .ofNat as.length = p + .ofNat (a :: as).length := by
      rw [UInt32.add_assoc, UInt32.add_comm 1, List.length_cons, UInt32.ofNat_add]
      rfl
    rw [List.cons_append, Stored, Stored, stored_append, hnext, and_assoc]

theorem Stored.get : ∀ {bs : List UInt8} {p : UInt32}, Stored mem p bs → ∀ i (h : i < bs.length), mem (p + .ofNat i) = some bs[i]
  | [], _, _, _, h => absurd h (Nat.not_lt_zero _)
  | b :: bs, p, hs, 0, _ => by simpa using hs.1
  | b :: bs, p, hs, i + 1, h => by
    have hnext : p + .ofNat (i + 1) = p + 1 + .ofNat i := by
      rw [UInt32.add_assoc, UInt32.add_comm 1, UInt32.ofNat_add]
      rfl
    rw [hnext]
    exact hs.2.get i (Nat.lt_of_succ_lt_succ h)

theorem Stored.unique : ∀ {bs cs : List UInt8} {p : UInt32}, Stored mem p bs → Stored mem p cs → bs.length = cs.length → bs = cs
  | [], [], _, _, _, _ => rfl
  | b :: bs, c :: cs, p, ⟨hb, hs⟩, ⟨hc, ht⟩, hlen => by
    obtain rfl := Option.some.inj (hb.symm.trans hc)
    rw [hs.unique ht (Nat.succ.inj hlen)]

theorem Stored.mapped (h : Stored mem p bs) : AllMapped mem p bs.length := fun i hi => by
  rw [h.get i hi]
  rfl

/-- Bytes that can be read one by one are there. -/
theorem AllMapped.stored {n : Nat} (h : AllMapped mem p n) : ∃ bs, bs.length = n ∧ Stored mem p bs := by
  induction n with
  | zero => exact ⟨[], rfl, trivial⟩
  | succ n ih =>
    obtain ⟨bs, rfl, hbs⟩ := ih fun i hi => h i (Nat.lt_succ_of_lt hi)
    obtain ⟨b, hb⟩ := Option.isSome_iff_exists.mp (h bs.length (Nat.lt_succ_self _))
    exact ⟨bs ++ [b], List.length_append, stored_append.mpr ⟨hbs, hb, trivial⟩⟩

theorem stored_congr {mem' : UInt32 → Option UInt8} : ∀ {bs : List UInt8} {p : UInt32}, Stored mem p bs →
    (∀ i < bs.length, mem' (p + .ofNat i) = mem (p + .ofNat i)) → Stored mem' p bs
  | [], _, _, _ => trivial
  | b :: bs, p, ⟨hb, hs⟩, h => by
    refine ⟨?_, stored_congr hs fun i hi => ?_⟩
    · have h0 : mem' p = mem p := by simpa using h 0 (Nat.succ_pos _)
      rw [h0, hb]
    · have hnext : p + 1 + .ofNat i = p + .ofNat (i + 1) := by
        rw [UInt32.add_assoc, UInt32.add_comm 1, UInt32.ofNat_add]
        rfl
      rw [hnext]
      exact h (i + 1) (Nat.succ_lt_succ hi)

theorem toArray_ahead (mem : UInt32 → Option UInt8) (len : Nat) (p q : UInt32) (n : Nat) : Ahead (toArray mem len) p q n :=
  fun _ _ _ _ _ _ _ _ => rfl

theorem copyBytes_toArray : ∀ {bs : List UInt8} {b : Nat → UInt8} {p q : UInt32}, Stored mem p bs →
    q.toNat + bs.length ≤ len → len < 2 ^ 32 →
    ∃ b', copyBytes (toArray mem len) bs.length b p q = some b' ∧ (∀ i < q.toNat, b' i = b i) ∧
      ∀ i (h : i < bs.length), b' (q.toNat + i) = bs[i]
  | [], b, _, _, _, _, _ => ⟨b, rfl, fun _ _ => rfl, fun _ h => absurd h (Nat.not_lt_zero _)⟩
  | c :: bs, b, p, q, ⟨hc, hbs⟩, hfit, hlen => by
    rw [List.length_cons] at hfit
    have hq : (q + 1).toNat = q.toNat + 1 := by
      rw [UInt32.toNat_add, UInt32.toNat_one, Nat.mod_eq_of_lt (by omega)]
    obtain ⟨b', hcopy, hlow, hnew⟩ := copyBytes_toArray (b := Function.update b q.toNat c) (q := q + 1) hbs (by omega) hlen
    refine ⟨b', ?_, fun i hi => ?_, fun i hi => ?_⟩
    · have hfirst : copyByte (toArray mem len) b p q = some (Function.update b q.toNat c) := by
        simp only [copyByte, toArray, hc, Option.bind_eq_bind, Option.bind_some]
        exact if_pos (by omega)
      rw [List.length_cons, copyBytes, hfirst]
      exact hcopy
    · rw [hlow i (by omega), Function.update_of_ne (by omega)]
    · cases i with
      | zero =>
        rw [Nat.add_zero, hlow q.toNat (by omega), Function.update_self]
        rfl
      | succ i =>
        have := hnew i (by simpa using hi)
        rw [hq, Nat.add_assoc, Nat.add_comm 1] at this
        exact this

theorem stored_of_copyBytes : ∀ {n : Nat} {b : Nat → UInt8} {p q : UInt32},
    copyBytes (toArray mem len) n b p q = some b' → ∃ bs, bs.length = n ∧ Stored mem p bs
  | 0, _, _, _, _ => ⟨[], rfl, trivial⟩
  | n + 1, b, p, q, h => by
    obtain ⟨b₁, h₁, h⟩ := Option.bind_eq_some_iff.mp h
    obtain ⟨v, hv, -⟩ := Option.bind_eq_some_iff.mp h₁
    obtain ⟨bs, hlen, hbs⟩ := stored_of_copyBytes h
    exact ⟨v :: bs, by rw [List.length_cons, hlen], hv, hbs⟩

theorem copyFromUser_toArray (b : Nat → UInt8) (p q : UInt32) (n : Nat) : copyFromUser (toArray mem len) b p q n =
    (copyBytes (toArray mem len) n b p q).map fun b => (0, b) := by
  rw [copyFromUser, Int.toNat_natCast, copyWords_eq_copyBytes (toArray_ahead mem len p q n)]
  cases copyBytes (toArray mem len) n b p q <;> rfl

/-- The stores of a copy out of an array, one after the other. -/
theorem copyBytes_fromArray_eq {σ : Type} (store : σ → UInt32 → UInt8 → Option σ) : ∀ {vs : List UInt8} {s : σ} {p q : UInt32},
    bs.length < 2 ^ 32 → bs.drop p.toNat = vs →
    copyBytes (fromArray bs store) vs.length s p q = (addressed q vs).foldlM (fun s x => store s x.1 x.2) s
  | [], _, _, _, _, _ => rfl
  | v :: vs, s, p, q, hlen, hp => by
    have hv : bs[p.toNat]? = some v := by
      rw [← List.head?_drop, hp]
      rfl
    have hlt : p.toNat < bs.length := (List.getElem?_eq_some_iff.mp hv).1
    have hnext : (p + 1).toNat = p.toNat + 1 := by
      rw [UInt32.toNat_add, UInt32.toNat_one, Nat.mod_eq_of_lt (by omega)]
    have hdrop : bs.drop (p + 1).toNat = vs := by
      rw [hnext, ← List.drop_drop, hp]
      rfl
    have hfirst : copyByte (fromArray bs store) s p q = store s q v := by
      simp only [copyByte, fromArray, hv, Option.bind_eq_bind, Option.bind_some]
    rw [List.length_cons, copyBytes, hfirst, addressed, List.foldlM_cons]
    apply congrArg
    funext s'
    exact copyBytes_fromArray_eq store hlen hdrop

theorem copyToUser_fromArray {σ : Type} (store : σ → UInt32 → UInt8 → Option σ) (s : σ) (p q : UInt32) (n : Nat) :
    copyToUser (fromArray bs store) s p q n = (copyBytes (fromArray bs store) n s p q).map fun s => (0, s) := by
  have ha : Ahead (fromArray bs store) p q n := fun _ _ _ _ _ _ _ _ => rfl
  rw [copyToUser, Int.toNat_natCast, copyWords_eq_copyBytes ha]
  cases copyBytes (fromArray bs store) n s p q <;> rfl

theorem copyToUser_addressed {σ : Type} (store : σ → UInt32 → UInt8 → Option σ) (s : σ) (q : UInt32)
    (hlen : bs.length < 2 ^ 32) : copyToUser (fromArray bs store) s 0 q bs.length =
      ((addressed q bs).foldlM (fun s x => store s x.1 x.2) s).map fun s => (0, s) := by
  have hcopy : copyBytes (fromArray bs store) bs.length s 0 q = (addressed q bs).foldlM (fun s x => store s x.1 x.2) s :=
    copyBytes_fromArray_eq store hlen rfl
  rw [copyToUser_fromArray, hcopy]

end

end ZeosSOA
