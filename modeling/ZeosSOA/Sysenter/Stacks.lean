import ZeosSOA.Copy
import ZeosSOA.X86
import ZeosSOA.Sysenter.Step

/-!
# ZeOSSysenter: the task unions in memory

Each task union is a page of the kernel's part of memory, which is the same in all address spaces: the
task struct lies at its start, the kernel stack comes down from its end. `copy_data` between two of them
copies the page.
-/

namespace ZeosSOA.Sysenter

open X86

/-- The address of `task[t]`, behind the first guard page. -/
def taskUnion (image : Image) (t : TaskId) : UInt32 := .ofNat ((image.first + 1 + t.val) * 4096)

def StackPtr.address (image : Image) (sp : StackPtr) : UInt32 := taskUnion image sp.page + .ofNat sp.offset

def flat : Transfer Memory where
  load m a := some (m a)
  store m a v := some (Function.update m a v)

def copyData (m : Memory) (start dest : UInt32) (size : Int) : Option Memory := copyWords flat size.toNat m start dest

/-- The first `n` bytes at `dest` are those at `start`. -/
def copied (m : Memory) (start dest : UInt32) (n : Nat) : Memory := fun a =>
  if (a - dest).toNat < n then m (start + (a - dest)) else m a

/-- Between `m0`, where the body of the C function begins, and `m`: the page is copied, and otherwise the caller's stack is
only written below the word `p`, its frame pointer, and the page of the new task only below the copy of it. -/
def Duplicates (cur child : UInt32) (p : Nat) (m0 m : Memory) : Prop :=
  ∃ m1 m2, SameFrom cur p m0 m1 ∧ copyData m1 cur child 4096 = some m2 ∧ SameFrom cur p m2 m ∧ SameFrom child p m2 m

section
variable {image : Image} {m : Memory} {start dest : UInt32} {t t' : TaskId} {n : Nat}

theorem taskUnion_toNat (image : Image) (t : TaskId) : (taskUnion image t).toNat = (image.first + 1 + t.val) * 4096 := by
  have ht : t.val < 10 := t.isLt
  have hi := image.lt
  rw [taskUnion, UInt32.toNat_ofNat', Nat.mod_eq_of_lt]
  simp only [numPagKernel] at hi
  omega

theorem taskUnion_aligned (image : Image) (t : TaskId) : (taskUnion image t).toNat % 4096 = 0 := by
  rw [taskUnion_toNat, Nat.mul_mod_left]

theorem taskUnion_ne (h : t ≠ t') : taskUnion image t ≠ taskUnion image t' := by
  intro he
  have := congrArg UInt32.toNat he
  rw [taskUnion_toNat, taskUnion_toNat] at this
  exact h (Fin.ext (by omega))

theorem address_cell (image : Image) (t : TaskId) (j : Nat) :
    StackPtr.address image ⟨t, 4 * j⟩ = cell (taskUnion image t) j := by
  rw [StackPtr.address, cell, UInt32.ofNat_mul]
  rfl

/-- One page and another: from each byte of the first it is far to the second. -/
theorem pages_apart {p q : UInt32} (hp : p.toNat % 4096 = 0) (hq : q.toNat % 4096 = 0) (hne : p ≠ q) {i : Nat} (hi : i < 4096) :
    4096 ≤ (p + .ofNat i - q).toNat := by
  have hlt := p.toNat_lt
  have hlt' := q.toNat_lt
  have hpages : p.toNat ≠ q.toNat := fun e => hne (UInt32.toNat_inj.mp e)
  rw [UInt32.toNat_sub, offset_add (by omega)]
  omega

theorem copyBytes_copied {t : Transfer Memory}
    (hload : ∀ m, ∀ i < n, t.load m (start + .ofNat i) = some (m (start + .ofNat i)))
    (hstore : ∀ m v, ∀ i < n, t.store m (dest + .ofNat i) v = some (Function.update m (dest + .ofNat i) v))
    (hn : n ≤ 2 ^ 32) (h : ∀ i < n, i ≤ (start + .ofNat i - dest).toNat) :
    copyBytes t n m start dest = some (copied m start dest n) := by
  induction n with
  | zero =>
    have hnone : copied m start dest 0 = m := funext fun a => if_neg (Nat.not_lt_zero _)
    rw [copyBytes, hnone]
  | succ n ih =>
    have hlt : n < n + 1 := Nat.lt_succ_self n
    rw [copyBytes_add, ih (fun m i hi => hload m i (by omega)) (fun m v i hi => hstore m v i (by omega)) (by omega)
      fun i hi => h i (by omega)]
    have hread : copied m start dest n (start + .ofNat n) = m (start + .ofNat n) := if_neg (Nat.not_lt.mpr (h n hlt))
    simp only [Option.bind_some, copyBytes, copyByte, hload _ n hlt, hstore _ _ n hlt, Option.bind_eq_bind, hread]
    congr 1
    funext a
    have hoff : (UInt32.ofNat n).toNat = n := by rw [UInt32.toNat_ofNat', Nat.mod_eq_of_lt (by omega)]
    by_cases ha : a = dest + .ofNat n
    · rw [ha, Function.update_self, copied, add_sub_self, hoff, if_pos hlt]
    · rw [Function.update_of_ne ha, copied, copied]
      have hne : (a - dest).toNat ≠ n := by
        intro he
        apply ha
        rw [← hoff, UInt32.toNat_inj] at he
        rw [← he, UInt32.add_comm, UInt32.sub_add_cancel]
      have hiff : (a - dest).toNat < n + 1 ↔ (a - dest).toNat < n := by omega
      simp only [hiff]

theorem copyWords_copied {t : Transfer Memory}
    (hload : ∀ m, ∀ i < n, t.load m (start + .ofNat i) = some (m (start + .ofNat i)))
    (hstore : ∀ m v, ∀ i < n, t.store m (dest + .ofNat i) v = some (Function.update m (dest + .ofNat i) v))
    (hn : n ≤ 2 ^ 32) (h : ∀ i < n, i ≤ (start + .ofNat i - dest).toNat) :
    copyWords t n m start dest = some (copied m start dest n) := by
  have hahead : Ahead t start dest n := by
    intro i j hij hj s s' v hs
    rw [hstore s v i (by omega), Option.some.injEq] at hs
    have hne : start + .ofNat j ≠ dest + .ofNat i := by
      intro he
      have hfar := h j hj
      rw [he, add_sub_self, UInt32.toNat_ofNat', Nat.mod_eq_of_lt (by omega)] at hfar
      omega
    rw [hload _ j hj, hload _ j hj, ← hs, Function.update_of_ne hne]
  rw [copyWords_eq_copyBytes hahead]
  exact copyBytes_copied hload hstore hn h

theorem copyData_page (hs : start.toNat % 4096 = 0) (hd : dest.toNat % 4096 = 0) (hne : start ≠ dest) :
    copyData m start dest 4096 = some (copied m start dest 4096) := by
  refine copyWords_copied (fun _ _ _ => rfl) (fun _ _ _ _ => rfl) (by decide) fun i hi => ?_
  have hfar := pages_apart hs hd hne hi
  omega

theorem copied_other {a : UInt32} (h : n ≤ (a - dest).toNat) : copied m start dest n a = m a := if_neg (Nat.not_lt.mpr h)

theorem cell_byte (p : UInt32) (j k : Nat) : cell p j + .ofNat k = p + .ofNat (4 * j + k) := by
  rw [cell, UInt32.add_assoc, UInt32.ofNat_add, UInt32.ofNat_mul]
  rfl

theorem load_copied {j : Nat} (hj : j < 1024) : load (copied m start dest 4096) (cell dest j) = load m (cell start j) := by
  apply load_congr
  intro k hk
  have hsum : (UInt32.ofNat (4 * j + k)).toNat = 4 * j + k := by rw [UInt32.toNat_ofNat', Nat.mod_eq_of_lt (by omega)]
  rw [cell_byte, cell_byte, copied, add_sub_self, if_pos (by omega)]

theorem load_copied_other {p : UInt32} (hp : p.toNat % 4096 = 0) (hd : dest.toNat % 4096 = 0) (hne : p ≠ dest) {j : Nat}
    (hj : j < 1024) : load (copied m start dest 4096) (cell p j) = load m (cell p j) := by
  apply load_congr
  intro k hk
  rw [cell_byte]
  exact copied_other (pages_apart hp hd hne (by omega))

theorem Duplicates.words {cur child : UInt32} {p : Nat} {m0 : Memory} {ws : List UInt32}
    (h : Duplicates cur child p m0 m) (hcur : cur.toNat % 4096 = 0) (hchild : child.toNat % 4096 = 0) (hne : cur ≠ child)
    (hlen : p + ws.length ≤ 1024) (hw : Words m0 (cell cur p) ws) :
    Words m (cell cur p) ws ∧ Words m (cell child p) ws := by
  obtain ⟨m1, m2, h1, hcopy, h2, h3⟩ := h
  have hw1 := words_cell.mp (h1.words (Nat.le_refl p) hlen hw)
  rw [copyData_page hcur hchild hne, Option.some.injEq] at hcopy
  subst hcopy
  have hparent : Words (copied m1 cur child 4096) (cell cur p) ws := by
    rw [words_cell]
    intro i hi
    rw [load_copied_other hcur hchild hne (by omega), hw1 i hi]
  have hcopied : Words (copied m1 cur child 4096) (cell child p) ws := by
    rw [words_cell]
    intro i hi
    rw [load_copied (by omega), hw1 i hi]
  exact ⟨h2.words (Nat.le_refl p) hlen hparent, h3.words (Nat.le_refl p) hlen hcopied⟩

end

end ZeosSOA.Sysenter
