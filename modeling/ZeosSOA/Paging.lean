import ZeosSOA.X86

/-!
# Two-level paging

Fields of words, and the page tables of a 32-bit x86: a directory and tables of 1024 entries each, no large pages,
and a supervisor that may write to every page that is present. No translation is cached.
-/

namespace Paging

open X86

/-! ## Fields of a word -/

/-- `len` bits of a word, from the bit `off` on. -/
structure BitField where
  off : Nat
  len : Nat
  fits : off + len ≤ 32

namespace BitField

def mask (f : BitField) : BitVec 32 := (BitVec.allOnes f.len).setWidth 32 <<< f.off

def get (f : BitField) (w : UInt32) : UInt32 := .ofBitVec ((w.toBitVec &&& f.mask) >>> f.off)

/-- The word with other bits in the field; of `v` only the lowest ones are kept. -/
def set (f : BitField) (w v : UInt32) : UInt32 := .ofBitVec (w.toBitVec &&& ~~~f.mask ||| v.toBitVec <<< f.off &&& f.mask)

section
variable (f g : BitField) (w v : UInt32) {i : Nat}

theorem getLsbD_mask (hi : i < 32) : f.mask.getLsbD i = decide (f.off ≤ i ∧ i < f.off + f.len) := by
  by_cases h : f.off ≤ i
  · simp [mask, hi, h, Nat.sub_lt_iff_lt_add h, Nat.add_comm]
  · simp [mask, h]

theorem getLsbD_set (hi : i < 32) : (f.set w v).toBitVec.getLsbD i =
    if f.off ≤ i ∧ i < f.off + f.len then v.toBitVec.getLsbD (i - f.off) else w.toBitVec.getLsbD i := by
  simp only [set, BitVec.getLsbD_or, BitVec.getLsbD_and, BitVec.getLsbD_not, BitVec.getLsbD_shiftLeft, getLsbD_mask f hi]
  by_cases h : f.off ≤ i ∧ i < f.off + f.len
  · simp [h, hi, Nat.not_lt.mpr h.1]
  · simp [h, hi]

theorem getLsbD_get : (f.get w).toBitVec.getLsbD i = (decide (i < f.len) && w.toBitVec.getLsbD (f.off + i)) := by
  simp only [get, BitVec.getLsbD_ushiftRight, BitVec.getLsbD_and]
  by_cases hi : f.off + i < 32
  · simp [getLsbD_mask f hi, Bool.and_comm]
  · have hw : w.toBitVec.getLsbD (f.off + i) = false := BitVec.getLsbD_of_ge _ _ (Nat.not_lt.mp hi)
    simp [hw]

theorem get_toNat : (f.get w).toNat = w.toNat / 2 ^ f.off % 2 ^ f.len := by
  apply Nat.eq_of_testBit_eq
  intro i
  have h := f.getLsbD_get w (i := i)
  simp only [BitVec.getLsbD, UInt32.toNat_toBitVec] at h
  rw [h, Nat.testBit_mod_two_pow, Nat.testBit_div_two_pow, Nat.add_comm i]

/-- What was put in a field is there, as far as it fits. -/
theorem get_set_toNat : (f.get (f.set w v)).toNat = v.toNat % 2 ^ f.len := by
  have hfits := f.fits
  apply Nat.eq_of_testBit_eq
  intro i
  have h := f.getLsbD_get (f.set w v) (i := i)
  rw [BitVec.getLsbD, UInt32.toNat_toBitVec] at h
  rw [h, Nat.testBit_mod_two_pow]
  by_cases hi : i < f.len
  · rw [getLsbD_set f w v (by omega), if_pos ⟨Nat.le_add_right _ _, by omega⟩, Nat.add_sub_cancel_left]
    rfl
  · simp [hi]

/-- A field keeps its bits when another one is written. -/
theorem get_set_apart (h : f.off + f.len ≤ g.off ∨ g.off + g.len ≤ f.off) : g.get (f.set w v) = g.get w := by
  have hfits := g.fits
  apply UInt32.toBitVec_inj.mp
  apply BitVec.eq_of_getLsbD_eq
  intro i _
  rw [getLsbD_get, getLsbD_get]
  by_cases hi : i < g.len
  · rw [getLsbD_set f w v (by omega), if_neg (by omega)]
  · simp [hi]

theorem get_zero : f.get 0 = 0 := by
  apply UInt32.toNat_inj.mp
  rw [get_toNat]
  simp

end

end BitField

/-! ## Words and bytes in memory -/

section
variable {m : Memory} {a b v w : UInt32} {x : UInt8}

theorem store_store (m : Memory) (a v w : UInt32) : store (store m a v) a w = store m a w := by
  funext c
  unfold store
  split <;> rfl

theorem byteOf_load {k : Nat} (hk : k < 4) : byteOf (load m a) k = m (a + .ofNat k) := by
  have h0 := (m a).toNat_lt
  have h1 := (m (a + 1)).toNat_lt
  have h2 := (m (a + 2)).toNat_lt
  have h3 := (m (a + 3)).toNat_lt
  apply UInt8.toNat_inj.mp
  rw [toNat_byteOf, load, UInt32.toNat_ofNat']
  have hz : a + .ofNat 0 = a := UInt32.add_zero a
  have e1 : a + .ofNat 1 = a + 1 := rfl
  have e2 : a + .ofNat 2 = a + 2 := rfl
  have e3 : a + .ofNat 3 = a + 3 := rfl
  obtain rfl | rfl | rfl | rfl : k = 0 ∨ k = 1 ∨ k = 2 ∨ k = 3 := by omega
  · rw [hz]
    omega
  · rw [e1]
    omega
  · rw [e2]
    omega
  · rw [e3]
    omega

theorem store_load (m : Memory) (a : UInt32) : store m a (load m a) = m := by
  funext c
  unfold store
  split
  · rename_i h
    have hc : a + .ofNat (c - a).toNat = c := by
      rw [UInt32.ofNat_toNat, UInt32.add_comm, UInt32.sub_add_cancel]
    rw [byteOf_load h, hc]
  · rfl

end

/-- Between `m` and `m'` only the `n` bytes from the address `a` on may differ. -/
def ChangedIn (a n : Nat) (m m' : Memory) : Prop := ∀ b : UInt32, b.toNat < a ∨ a + n ≤ b.toNat → m' b = m b

section
variable {m m' : Memory} {a b v : UInt32} {x : UInt8} {c n : Nat}

theorem changedIn_store (ha : a.toNat + 4 ≤ 2 ^ 32) : ChangedIn a.toNat 4 m (store m a v) := by
  intro b hb
  have hlt := b.toNat_lt
  have hsub := UInt32.toNat_sub b a
  apply store_other
  omega

theorem changedIn_update : ChangedIn a.toNat 1 m (Function.update m a x) := by
  intro b hb
  apply Function.update_of_ne
  rintro rfl
  omega

theorem ChangedIn.load (h : ChangedIn c n m m') (hb : b.toNat + 4 ≤ 2 ^ 32) (hbc : b.toNat + 4 ≤ c ∨ c + n ≤ b.toNat) :
    load m' b = load m b := by
  apply load_congr
  intro k hk
  apply h
  have hadd : (b + .ofNat k).toNat = b.toNat + k := offset_add (by omega)
  omega

end

/-! ## The walk -/

/-- Who wants a place in memory, and for what. -/
structure Access where
  user : Bool
  write : Bool

/-- The address that an entry has in its bits from 12 on. -/
def pageBase (e : UInt32) : UInt32 := e / 4096 * 4096

/-- Bit 0 of an entry says that there is a page, bit 1 that programs may write to it, bit 2 that it is open to them. -/
def allows (acc : Access) (e : UInt32) : Bool :=
  e.toBitVec.getLsbD 0 && (!acc.user || e.toBitVec.getLsbD 2 && (!acc.write || e.toBitVec.getLsbD 1))

/-- The address behind `va`; `none` is a page fault. -/
def walk (m : Memory) (cr3 : UInt32) (acc : Access) (va : UInt32) : Option UInt32 :=
  let pde := load m (pageBase cr3 + 4 * (va / 0x400000))
  if allows acc pde then
    let pte := load m (pageBase pde + 4 * (va / 4096 % 1024))
    if allows acc pte then some (pageBase pte + va % 4096) else none
  else none

/-- Memory behind page tables; `paging` is the flag of `CR0` that turns them on. -/
structure Machine where
  mem : Memory
  cr3 : UInt32
  paging : Bool

namespace Machine

def translate (s : Machine) (acc : Access) (va : UInt32) : Option UInt32 :=
  if s.paging then walk s.mem s.cr3 acc va else some va

def withMem (s : Machine) (m : Memory) : Machine := { s with mem := m }

/-! Words lie at multiples of four, and so in one page. -/

def loadWord (s : Machine) (user : Bool) (va : UInt32) : Option UInt32 :=
  (s.translate ⟨user, false⟩ va).map (load s.mem)

def storeWord (s : Machine) (user : Bool) (va v : UInt32) : Option Machine :=
  (s.translate ⟨user, true⟩ va).map fun a => s.withMem (store s.mem a v)

def loadByte (s : Machine) (user : Bool) (va : UInt32) : Option UInt8 := (s.translate ⟨user, false⟩ va).map s.mem

def storeByte (s : Machine) (user : Bool) (va : UInt32) (x : UInt8) : Option Machine :=
  (s.translate ⟨user, true⟩ va).map fun a => s.withMem (Function.update s.mem a x)

/-- The supervisor assigns to a field of a word. -/
def setBits (s : Machine) (a : UInt32) (f : BitField) (v : UInt32) : Option Machine := do
  let w ← s.loadWord false a
  s.storeWord false a (f.set w v)

/-- Assignments to fields of one word, one after the other. -/
def assign (s : Machine) (a : UInt32) (fs : List (BitField × UInt32)) : Option Machine :=
  fs.foldlM (fun s p => s.setBits a p.1 p.2) s

/-- The supervisor finds the address where it is in memory. -/
def Direct (s : Machine) (a : UInt32) : Prop := ∀ write, s.translate ⟨false, write⟩ a = some a

def Steady (s : Machine) (a : UInt32) : Prop := ∀ w, (s.withMem (store s.mem a w)).Direct a

section
variable {s : Machine} {a v w : UInt32} {x : UInt8} {fs : List (BitField × UInt32)}

@[simp] theorem withMem_mem (s : Machine) (m : Memory) : (s.withMem m).mem = m := rfl

@[simp] theorem withMem_withMem (s : Machine) (m m' : Memory) : (s.withMem m).withMem m' = s.withMem m' := rfl

@[simp] theorem withMem_self (s : Machine) : s.withMem s.mem = s := rfl

theorem Direct.loadWord (h : s.Direct a) : s.loadWord false a = some (load s.mem a) := by
  rw [Machine.loadWord, h false]
  rfl

theorem Direct.storeWord (h : s.Direct a) (v : UInt32) : s.storeWord false a v = some (s.withMem (store s.mem a v)) := by
  rw [Machine.storeWord, h true]
  rfl

theorem Direct.loadByte (h : s.Direct a) : s.loadByte false a = some (s.mem a) := by
  rw [Machine.loadByte, h false]
  rfl

theorem Direct.storeByte (h : s.Direct a) (x : UInt8) :
    s.storeByte false a x = some (s.withMem (Function.update s.mem a x)) := by
  rw [Machine.storeByte, h true]
  rfl

theorem Steady.direct (h : s.Steady a) : s.Direct a := by
  have := h (load s.mem a)
  rwa [store_load, withMem_self] at this

theorem Steady.store (h : s.Steady a) (w : UInt32) : (s.withMem (X86.store s.mem a w)).Steady a := by
  intro v
  rw [withMem_mem, withMem_withMem, store_store]
  exact h v

theorem direct_off (h : s.paging = false) (a : UInt32) : s.Direct a := by
  intro write
  rw [translate, h]
  exact if_neg Bool.false_ne_true

theorem steady_off (h : s.paging = false) (a : UInt32) : s.Steady a := fun w =>
  direct_off (s := s.withMem (X86.store s.mem a w)) h a

theorem Steady.assign (h : s.Steady a) : ∀ fs : List (BitField × UInt32),
    s.assign a fs = some (s.withMem (X86.store s.mem a (fs.foldl (fun w p => p.1.set w p.2) (load s.mem a)))) := by
  intro fs
  induction fs generalizing s with
  | nil =>
    rw [List.foldl_nil, store_load]
    rfl
  | cons p fs ih =>
    have hp : s.setBits a p.1 p.2 = some (s.withMem (X86.store s.mem a (p.1.set (load s.mem a) p.2))) := by
      rw [setBits, h.direct.loadWord]
      exact h.direct.storeWord _
    have hrest := ih (h.store (p.1.set (load s.mem a) p.2))
    rw [Machine.assign] at hrest ⊢
    rw [List.foldlM_cons, hp, Option.bind_eq_bind, Option.bind_some, hrest, withMem_mem, withMem_withMem, store_store,
      load_store, List.foldl_cons]

theorem Steady.refill (h : s.Steady a) (fs : List (BitField × UInt32)) :
    ((s.storeWord false a 0).bind fun s => s.assign a fs) =
      some (s.withMem (X86.store s.mem a (fs.foldl (fun w p => p.1.set w p.2) 0))) := by
  rw [h.direct.storeWord, Option.bind_some, (h.store 0).assign, withMem_mem, withMem_withMem, store_store, load_store]

end

end Machine

/-! ## A directory with one table -/

/-- The directory at `dir` lets everyone into the table at `table`, for the first 4 MB, and has no other entry. -/
structure OneTable (m : Memory) (dir table : UInt32) : Prop where
  aligned : dir.toNat % 4096 = 0
  first : allows ⟨true, true⟩ (load m dir) = true
  base : pageBase (load m dir) = table
  rest : ∀ i, 0 < i → i < 1024 → allows ⟨false, false⟩ (load m (cell dir i)) = false

section
variable {m : Memory} {dir table : UInt32} {acc : Access} {e : UInt32}

theorem pageBase_toNat (e : UInt32) : (pageBase e).toNat = e.toNat / 4096 * 4096 := by
  have hlt := e.toNat_lt
  have hdiv : (e / 4096).toNat = e.toNat / 4096 := UInt32.toNat_div ..
  rw [pageBase, UInt32.toNat_mul, hdiv]
  exact Nat.mod_eq_of_lt (by simp only [UInt32.reduceToNat]; omega)

theorem pageBase_aligned (h : e.toNat % 4096 = 0) : pageBase e = e := by
  apply UInt32.toNat_inj.mp
  rw [pageBase_toNat]
  omega

theorem allows_mono (h : allows ⟨true, true⟩ e = true) (acc : Access) : allows acc e = true := by
  unfold allows at h ⊢
  cases acc.user <;> cases acc.write <;> simp_all

theorem not_allows (h : allows ⟨false, false⟩ e = false) (acc : Access) : allows acc e = false := by
  unfold allows at h ⊢
  simp_all

theorem OneTable.walk (h : OneTable m dir table) (acc : Access) (va : UInt32) : walk m dir acc va =
    if va.toNat < 0x400000 then
      if allows acc (load m (table + 4 * (va / 4096))) then
        some (pageBase (load m (table + 4 * (va / 4096))) + va % 4096)
      else none
    else none := by
  have hlt := va.toNat_lt
  have hdiv : (va / 0x400000).toNat = va.toNat / 0x400000 := UInt32.toNat_div ..
  have hpage : (va / 4096).toNat = va.toNat / 4096 := UInt32.toNat_div ..
  have hentry : 4 * (va / 0x400000) = 4 * .ofNat (va.toNat / 0x400000) := by
    rw [← hdiv, UInt32.ofNat_toNat]
  rw [Paging.walk, pageBase_aligned h.aligned, hentry]
  by_cases hva : va.toNat < 0x400000
  · have hzero : va.toNat / 0x400000 = 0 := Nat.div_eq_of_lt hva
    have hmod : va / 4096 % 1024 = va / 4096 := by
      apply UInt32.toNat_inj.mp
      rw [UInt32.toNat_mod, hpage]
      exact Nat.mod_eq_of_lt (by simp only [UInt32.reduceToNat]; omega)
    have hdir : dir + 4 * UInt32.ofNat 0 = dir := UInt32.add_zero dir
    rw [hzero, hdir, if_pos hva, h.base, hmod]
    exact if_pos (allows_mono h.first acc)
  · rw [if_neg hva]
    have hcell := h.rest (va.toNat / 0x400000) (by omega) (by omega)
    apply if_neg
    rw [show dir + 4 * .ofNat (va.toNat / 0x400000) = cell dir (va.toNat / 0x400000) from rfl, not_allows hcell]
    exact Bool.false_ne_true

end

/-! ## Loops -/

/-- A loop that may stop follows one that cannot, from related states. -/
theorem foldlM_follows {σ τ α : Type} {R : σ → τ → Prop} {f : σ → α → Option σ} {g : τ → α → τ} {l : List α} {s : σ}
    {t : τ} (hstep : ∀ x ∈ l, ∀ s t, R s t → ∃ s', f s x = some s' ∧ R s' (g t x)) (h : R s t) :
    ∃ s', l.foldlM f s = some s' ∧ R s' (l.foldl g t) := by
  induction l generalizing s t with
  | nil => exact ⟨s, rfl, h⟩
  | cons x l ih =>
    obtain ⟨s', hs', h'⟩ := hstep x List.mem_cons_self s t h
    obtain ⟨s'', hs'', h''⟩ := ih (fun y hy => hstep y (List.mem_cons_of_mem x hy)) h'
    refine ⟨s'', ?_, h''⟩
    rw [List.foldlM_cons, hs']
    exact hs''

end Paging
