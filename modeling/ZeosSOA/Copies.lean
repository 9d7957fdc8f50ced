import ZeosSOA.Sysenter.Stacks

/-!
# The three copies of utils.c

`copy_data`, `copy_from_user` and `copy_to_user` of both kernels on a flat memory in which nothing but the
two regions can be touched.
-/

namespace ZeosSOA

open Sysenter X86

/-- The address is in the `n` bytes from `p` on. -/
def Within (p : UInt32) (n : Nat) (a : UInt32) : Prop := p.toNat ≤ a.toNat ∧ a.toNat < p.toNat + n

instance (p : UInt32) (n : Nat) (a : UInt32) : Decidable (Within p n a) := inferInstanceAs (Decidable (_ ∧ _))

namespace Transfer

def copyData {σ : Type} (t : Transfer σ) (s : σ) (start dest : UInt32) (size : Int) : Option σ :=
  copyWords t size.toNat s start dest

/-- Only the `n` bytes at `start` can be read, and only those at `dest` written. -/
def fenced (start dest : UInt32) (n : Nat) : Transfer Memory where
  load m a := if Within start n a then some (m a) else none
  store m a v := if Within dest n a then some (Function.update m a v) else none

end Transfer

/-- In `m'` the `size` bytes at `dest` are those that were at `start` in `m`, and nothing else has changed. -/
structure CopiesExactly (m m' : Memory) (start dest : UInt32) (size : Int) : Prop where
  bytes : ∀ i : Nat, i < size → m' (dest + .ofNat i) = m (start + .ofNat i)
  others : ∀ a, ¬ Within dest size.toNat a → m' a = m a
  nothing : size ≤ 0 → m' = m

section
variable {m : Memory} {start dest : UInt32} {n : Nat}

theorem within_add {p : UInt32} {i : Nat} (hp : p.toNat + n ≤ 2 ^ 32) (hi : i < n) : Within p n (p + .ofNat i) := by
  have hoff := offset_add (d := p) (k := i) (by omega)
  exact ⟨by omega, by omega⟩

/-- Going up, no byte of the source is written before it is read. -/
theorem copied_below (hs : start.toNat + n ≤ 2 ^ 32) (hd : dest.toNat + n ≤ 2 ^ 32)
    (h : (∀ a, ¬ (Within start n a ∧ Within dest n a)) ∨ dest.toNat ≤ start.toNat) {i : Nat} (hi : i < n) :
    i ≤ (start + .ofNat i - dest).toNat := by
  have hoff := offset_add (d := start) (k := i) (by omega)
  have hdest := dest.toNat_lt
  rw [UInt32.toNat_sub, hoff]
  by_cases hle : dest.toNat ≤ start.toNat
  · omega
  · have hfar : start.toNat + n ≤ dest.toNat := by
      have hapart := h.resolve_right hle dest
      simp only [Within] at hapart
      omega
    omega

theorem fenced_copyWords (hs : start.toNat + n ≤ 2 ^ 32) (hd : dest.toNat + n ≤ 2 ^ 32)
    (h : (∀ a, ¬ (Within start n a ∧ Within dest n a)) ∨ dest.toNat ≤ start.toNat) :
    copyWords (.fenced start dest n) n m start dest = some (copied m start dest n) := by
  apply copyWords_copied
  · intro m i hi
    exact if_pos (within_add hs hi)
  · intro m v i hi
    exact if_pos (within_add hd hi)
  · omega
  · intro i hi
    exact copied_below hs hd h hi

theorem copied_exactly {size : Int} (hd : dest.toNat + size.toNat ≤ 2 ^ 32) :
    CopiesExactly m (copied m start dest size.toNat) start dest size where
  bytes := by
    intro i hi
    have hlt : i < size.toNat := by omega
    have hoff : (UInt32.ofNat i).toNat = i := by rw [UInt32.toNat_ofNat', Nat.mod_eq_of_lt (by omega)]
    rw [copied, add_sub_self, hoff, if_pos hlt]
  others := by
    intro a ha
    apply copied_other
    have hlt := a.toNat_lt
    have hdest := dest.toNat_lt
    rw [UInt32.toNat_sub]
    simp only [Within] at ha
    omega
  nothing := by
    intro hsize
    rw [Int.toNat_of_nonpos hsize]
    exact funext fun a => if_neg (Nat.not_lt_zero _)

end

/-- Without a wrap-around, and when the regions are disjoint or the destination is not above the source, the three
copies touch nothing but the two regions, and copy all bytes. -/
theorem copies_exactly {m : Memory} {start dest : UInt32} {size : Int} (hs : start.toNat + size.toNat ≤ 2 ^ 32)
    (hd : dest.toNat + size.toNat ≤ 2 ^ 32)
    (h : (∀ a, ¬ (Within start size.toNat a ∧ Within dest size.toNat a)) ∨ dest ≤ start) :
    ∃ m', (Transfer.fenced start dest size.toNat).copyData m start dest size = some m' ∧
      copyFromUser (.fenced start dest size.toNat) m start dest size = some (0, m') ∧
      copyToUser (.fenced start dest size.toNat) m start dest size = some (0, m') ∧
      CopiesExactly m m' start dest size := by
  have hcopy := fenced_copyWords (m := m) hs hd (h.imp_right UInt32.le_iff_toNat_le.mp)
  refine ⟨_, hcopy, ?_, ?_, copied_exactly hd⟩
  · rw [copyFromUser, hcopy]
    rfl
  · rw [copyToUser, hcopy]
    rfl

/-- Seven bytes, two places down over themselves. -/
theorem copies_exactly_seven : ∃ m', (Transfer.fenced 0x1002 0x1000 7).copyData (fun a => a.toUInt8) 0x1002 0x1000 7 =
    some m' ∧ CopiesExactly (fun a => a.toUInt8) m' 0x1002 0x1000 7 := by
  obtain ⟨m', hm, -, -, hex⟩ := @copies_exactly (fun a => a.toUInt8) 0x1002 0x1000 7 (by decide) (by decide)
    (.inr (by decide))
  exact ⟨m', hm, hex⟩

end ZeosSOA
