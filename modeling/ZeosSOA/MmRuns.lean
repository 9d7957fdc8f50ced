import ZeosSOA.MmMirror
import ZeosSOA.Sysenter.Stacks

/-!
# mm.c: runs on the bytes of the memory

Calls of `mm.c` for any of the tasks, `set_cr3`, copies of whole pages by the kernel and accesses of programs, in any
order, from `init_mm` on. The machine walks the tables anew for each access. A processor that keeps translations until
`CR3` is loaded finds the same, since a page whose entry was changed is not used before that.
-/

namespace ZeosSOA

open X86 Paging Mm

/-! ## Copies between two memories -/

section
variable {σ τ : Type} {t : Transfer σ} {u : Transfer τ} {R : σ → τ → Prop} {p q p' q' : UInt32} {n : Nat} {s : σ}
  {x y : τ}

/-- The bytes that a copy of `n` bytes reads and writes are the same in related states. -/
structure Alike (t : Transfer σ) (u : Transfer τ) (R : σ → τ → Prop) (p q p' q' : UInt32) (n : Nat) : Prop where
  load : ∀ s x, R s x → ∀ i < n, t.load s (p + .ofNat i) = u.load x (p' + .ofNat i)
  store : ∀ s x, R s x → ∀ i < n, ∀ v y, u.store x (q' + .ofNat i) v = some y →
    ∃ s', t.store s (q + .ofNat i) v = some s' ∧ R s' y

theorem Alike.shift {m : Nat} (h : Alike t u R p q p' q' (n + m)) :
    Alike t u R (p + .ofNat m) (q + .ofNat m) (p' + .ofNat m) (q' + .ofNat m) n := by
  have hadd : ∀ (a : UInt32) i, a + .ofNat m + .ofNat i = a + .ofNat (i + m) := by
    intro a i
    rw [UInt32.add_assoc, UInt32.add_comm (.ofNat m), UInt32.ofNat_add]
  constructor
  · intro s x hr i hi
    rw [hadd, hadd]
    exact h.load s x hr (i + m) (by omega)
  · intro s x hr i hi v y hy
    rw [hadd] at hy ⊢
    exact h.store s x hr (i + m) (by omega) v y hy

theorem Alike.first (h : Alike t u R p q p' q' n) (hn : 0 < n) (hr : R s x) :
    t.load s p = u.load x p' ∧ ∀ v y, u.store x q' v = some y → ∃ s', t.store s q v = some s' ∧ R s' y := by
  have hzero : ∀ a : UInt32, a + .ofNat 0 = a := UInt32.add_zero
  have hload := h.load s x hr 0 hn
  have hstore := h.store s x hr 0 hn
  rw [hzero, hzero] at hload
  rw [hzero, hzero] at hstore
  exact ⟨hload, hstore⟩

theorem Alike.copyBytes (h : Alike t u R p q p' q' n) (hr : R s x) (hy : copyBytes u n x p' q' = some y) :
    ∃ s', copyBytes t n s p q = some s' ∧ R s' y := by
  induction n generalizing s x p q p' q' with
  | zero =>
    cases hy
    exact ⟨s, rfl, hr⟩
  | succ n ih =>
    obtain ⟨x₁, hx₁, hy⟩ := Option.bind_eq_some_iff.mp hy
    obtain ⟨v, hv, hx₁⟩ := Option.bind_eq_some_iff.mp hx₁
    obtain ⟨hload, hstore⟩ := h.first (Nat.succ_pos n) hr
    obtain ⟨s₁, hs₁, hr₁⟩ := hstore v x₁ hx₁
    obtain ⟨s₂, hs₂, hr₂⟩ := ih h.shift hr₁ hy
    refine ⟨s₂, ?_, hr₂⟩
    rw [ZeosSOA.copyBytes, copyByte, hload, hv, Option.bind_eq_bind, Option.bind_eq_bind, Option.bind_some, hs₁]
    exact hs₂

theorem Alike.copyWord (h : Alike t u R p q p' q' 4) (hr : R s x) (hy : copyWord u x p' q' = some y) :
    ∃ s', copyWord t s p q = some s' ∧ R s' y := by
  obtain ⟨v₀, h₀, hy⟩ := Option.bind_eq_some_iff.mp hy
  obtain ⟨v₁, h₁, hy⟩ := Option.bind_eq_some_iff.mp hy
  obtain ⟨v₂, h₂, hy⟩ := Option.bind_eq_some_iff.mp hy
  obtain ⟨v₃, h₃, hy⟩ := Option.bind_eq_some_iff.mp hy
  obtain ⟨x₀, e₀, hy⟩ := Option.bind_eq_some_iff.mp hy
  obtain ⟨x₁, e₁, hy⟩ := Option.bind_eq_some_iff.mp hy
  obtain ⟨x₂, e₂, e₃⟩ := Option.bind_eq_some_iff.mp hy
  obtain ⟨hload, hstore⟩ := h.first (by decide) hr
  have l₁ : t.load s (p + 1) = some v₁ := (h.load s x hr 1 (by decide)).trans h₁
  have l₂ : t.load s (p + 2) = some v₂ := (h.load s x hr 2 (by decide)).trans h₂
  have l₃ : t.load s (p + 3) = some v₃ := (h.load s x hr 3 (by decide)).trans h₃
  obtain ⟨s₀, f₀, r₀⟩ := hstore v₀ x₀ e₀
  obtain ⟨s₁, f₁, r₁⟩ := h.store s₀ x₀ r₀ 1 (by decide) v₁ x₁ e₁
  obtain ⟨s₂, f₂, r₂⟩ := h.store s₁ x₁ r₁ 2 (by decide) v₂ x₂ e₂
  obtain ⟨s₃, f₃, r₃⟩ := h.store s₂ x₂ r₂ 3 (by decide) v₃ y e₃
  refine ⟨s₃, ?_, r₃⟩
  have f₁ : t.store s₀ (q + 1) v₁ = some s₁ := f₁
  have f₂ : t.store s₁ (q + 2) v₂ = some s₂ := f₂
  simp only [ZeosSOA.copyWord, hload, h₀, l₁, l₂, l₃, f₀, f₁, f₂, Option.bind_eq_bind, Option.bind_some]
  exact f₃

/-- A copy that goes through in one memory goes through in the other. -/
theorem Alike.copyWords : ∀ {n : Nat} {s : σ} {x : τ} {p q p' q' : UInt32}, Alike t u R p q p' q' n → R s x →
    copyWords u n x p' q' = some y → ∃ s', copyWords t n s p q = some s' ∧ R s' y
  | 0, _, _, _, _, _, _, h, hr, hy => h.copyBytes hr hy
  | 1, _, _, _, _, _, _, h, hr, hy => h.copyBytes hr hy
  | 2, _, _, _, _, _, _, h, hr, hy => h.copyBytes hr hy
  | 3, _, _, _, _, _, _, h, hr, hy => h.copyBytes hr hy
  | n + 4, s, x, p, q, p', q', h, hr, hy => by
    rw [ZeosSOA.copyWords] at hy ⊢
    by_cases hn : n = 0
    · subst hn
      exact h.copyBytes hr hy
    · rw [if_neg hn] at hy ⊢
      have hword : Alike t u R p q p' q' 4 :=
        ⟨fun s x hr i hi => h.load s x hr i (by omega), fun s x hr i hi => h.store s x hr i (by omega)⟩
      obtain ⟨x₁, hx₁, hy⟩ := Option.bind_eq_some_iff.mp hy
      obtain ⟨s₁, hs₁, hr₁⟩ := hword.copyWord hr hx₁
      obtain ⟨s₂, hs₂, hr₂⟩ := h.shift.copyWords hr₁ hy
      refine ⟨s₂, ?_, hr₂⟩
      rw [hs₁]
      exact hs₂

end

/-! ## The calls -/

/-- What is asked of the memory management; tasks are named by their directory. `setCr3` is what `task_switch` does,
`copyPage` a `copy_data` of a page, `load` and `store` are a program's, of a word. -/
inductive Call where
  | allocFrame
  | freeFrame (frame : UInt32)
  | setSsPag (t : Nat) (page frame : UInt32)
  | delSsPag (t : Nat) (page : UInt32)
  | getFrame (t : Nat) (page : UInt32)
  | setUserPages (t : Nat)
  | freeUserPages (t : Nat)
  | setCr3 (t : Nat)
  | copyPage (src dst : Nat)
  | load (va : UInt32)
  | store (va v : UInt32)

inductive Answer where
  | done
  | word (v : UInt32)
  | fault
  deriving DecidableEq

namespace MmC

/-- `none` is a page fault of the kernel. -/
def step (L : Layout) (s : Machine) : Call → Option (Answer × Machine)
  | .allocFrame => do
    let (frame, s) ← allocFrame L s
    return (.word frame, s)
  | .freeFrame frame => do
    let s ← freeFrame L s frame
    return (.done, s)
  | .setSsPag t page frame => do
    let PT ← getPT s (L.dir t)
    let s ← setSsPag s PT page frame
    return (.done, s)
  | .delSsPag t page => do
    let PT ← getPT s (L.dir t)
    let s ← delSsPag s PT page
    return (.done, s)
  | .getFrame t page => do
    let PT ← getPT s (L.dir t)
    let frame ← getFrame s PT page
    return (.word frame, s)
  | .setUserPages t => do
    let s ← setUserPages L s (L.dir t)
    return (.done, s)
  | .freeUserPages t => do
    let s ← freeUserPages L s (L.dir t)
    return (.done, s)
  | .setCr3 t => some (.done, { s with cr3 := L.dir t })
  | .copyPage src dst => do
    let s ← copyData s (.ofNat (src * 4096)) (.ofNat (dst * 4096)) 4096
    return (.done, s)
  | .load va => some ((s.loadWord true va).elim .fault .word, s)
  | .store va v =>
    match s.storeWord true va v with
    | some s => some (.done, s)
    | none => some (.fault, s)

def run (L : Layout) : Machine → List Call → Option (List Answer × Machine)
  | s, [] => some ([], s)
  | s, c :: cs => do
    let (r, s) ← step L s c
    let (rs, s) ← run L s cs
    return (r :: rs, s)

end MmC

namespace Mm

def wordAt (m : Mm) (pa : Nat) : UInt32 := m.ram (pa / pageSize) (pa % pageSize / 4)

def setWordAt (m : Mm) (pa : Nat) (v : UInt32) : Mm :=
  { m with ram := Function.update m.ram (pa / pageSize) (Function.update (m.ram (pa / pageSize)) (pa % pageSize / 4) v) }

/-- The same calls in `m`, while the task with the table `cur` runs. -/
def call (m : Mm) (cur : Nat) : Call → Answer × Mm × Nat
  | .allocFrame => (.word (wordOf m.allocFrame.1), m.allocFrame.2, cur)
  | .freeFrame frame => (.done, m.freeFrame frame.toNat, cur)
  | .setSsPag t page frame => (.done, m.setSsPag t page.toNat frame.toNat, cur)
  | .delSsPag t page => (.done, m.delSsPag t page.toNat, cur)
  | .getFrame t page => (.word (.ofNat (m.getFrame t page.toNat)), m, cur)
  | .setUserPages t => (.done, setUserPages MmC.pagLogInitCode MmC.pagLogInitData m t, cur)
  | .freeUserPages t => (.done, m.freeUserPages t, cur)
  | .setCr3 t => (.done, m, t)
  | .copyPage src dst => (.done, m.copyFrame (m.getFrame cur src) (m.getFrame cur dst), cur)
  | .load va => (((m.lookup cur ⟨true, false⟩ va.toNat).map m.wordAt).elim .fault .word, m, cur)
  | .store va v =>
    match m.lookup cur ⟨true, true⟩ va.toNat with
    | some pa => (.done, m.setWordAt pa v, cur)
    | none => (.fault, m, cur)

def run (m : Mm) (cur : Nat) : List Call → List Answer × Mm × Nat
  | [] => ([], m, cur)
  | c :: cs =>
    let (r, m, cur) := m.call cur c
    let (rs, x) := m.run cur cs
    (r :: rs, x)

/-- The pages of the task that runs whose entry was there and has been changed since `CR3` was loaded: the processor may
still go by the old one. -/
def stale (m : Mm) (cur : Nat) (old : Nat → Bool) : Call → Nat → Bool
  | .setCr3 _ => fun _ => false
  | c => fun page => old page ||
    (page < totalPages && (m.entry cur page).present && (m.call cur c).2.1.entry cur page != m.entry cur page)

def staleAfter (m : Mm) (cur : Nat) (old : Nat → Bool) : List Call → Nat → Bool
  | [] => old
  | c :: cs => (m.call cur c).2.1.staleAfter (m.call cur c).2.2 (m.stale cur old c) cs

end Mm

/-! ## What the kernel and the programs get at -/

/-- A page of the table that is there, behind those of the kernel. -/
structure UserMapped (mm : Mm) (pt page : Nat) : Prop where
  ge : numPagKernel ≤ page
  lt : page < totalPages
  present : (mm.entry pt page).present = true

section
variable {L : Layout} {mm : Mm} {s : Machine} {m : Memory} {cur src dst a n page i : Nat} {acc : Access} {va v : UInt32}

theorem Mirrors.translate (h : Mirrors L s mm cur) (acc : Access) (va : UInt32) :
    s.translate acc va = (mm.lookup cur acc va.toNat).map .ofNat := by
  obtain ⟨dir, hh, hd⟩ := h.holds
  rw [Machine.translate, h.paging, if_pos rfl, h.cr3, hh.walk hd h.running]

/-- What is in the frames of programs says nothing about the tables. -/
theorem Mirrors.changed (h : Mirrors L s mm cur) (hc : ChangedIn a n s.mem m) (ha : numPagKernel * pageSize ≤ a)
    {ram : Nat → Nat → UInt32}
    (hram : ∀ f, numPagKernel ≤ f → f < 2 ^ 20 → ∀ w < 1024, load m (cell (.ofNat (4096 * f)) w) = ram f w) :
    Mirrors L (s.withMem m) { mm with ram := ram } cur := by
  obtain ⟨dir, hh, hd⟩ := h.holds
  exact ⟨⟨dir, hh.above hc ha hram, hd⟩, h.rooted, h.above, h.running, h.cr3, h.paging⟩

theorem Mirrors.translate_changed (h : Mirrors L s mm cur) (hc : ChangedIn a n s.mem m) (ha : numPagKernel * pageSize ≤ a)
    (acc : Access) (va : UInt32) : (s.withMem m).translate acc va = (mm.lookup cur acc va.toNat).map .ofNat :=
  (h.changed hc ha fun _ _ _ _ _ => rfl).translate acc va

theorem Mirrors.base_lt (h : Mirrors L s mm cur) (hp : page < totalPages) : (mm.entry cur page).pbaseAddr < 2 ^ 20 := by
  have hcur := h.running
  rw [← h.table_word (by simp only [nrTasks, totalPages, entries] at *; omega)]
  exact pbaseAddr_lt _

theorem UserMapped.lookup (hu : UserMapped mm cur page) (hi : i < 4096) (write : Bool) :
    mm.lookup cur ⟨false, write⟩ (page * 4096 + i) = some ((mm.entry cur page).pbaseAddr * 4096 + i) := by
  have hdiv : (page * 4096 + i) / pageSize = page := by
    simp only [pageSize]
    omega
  have hall : (mm.entry cur page).allows ⟨false, write⟩ = true := by simp [PageTableEntry.allows, hu.present]
  rw [Mm.lookup, hdiv, if_pos ⟨hu.lt, hall⟩]
  simp only [pageSize]
  congr 2
  omega

theorem page_add (page i : Nat) : UInt32.ofNat (page * 4096) + .ofNat i = .ofNat (page * 4096 + i) := (UInt32.ofNat_add ..).symm

theorem page_toNat (hp : page < 2 ^ 20) (hi : i < 4096) : (UInt32.ofNat (page * 4096 + i)).toNat = page * 4096 + i :=
  UInt32.toNat_ofNat_of_lt (by simp only [UInt32.size]; omega)

/-- The copy of a page goes from frame to frame. -/
theorem Mirrors.alike (h : Mirrors L s mm cur) (hs : UserMapped mm cur src) (hd : UserMapped mm cur dst) :
    Alike MmC.supervisor Sysenter.flat
      (fun s' m => s' = s.withMem m ∧ ChangedIn ((mm.entry cur dst).pbaseAddr * 4096) 4096 s.mem m)
      (.ofNat (src * 4096)) (.ofNat (dst * 4096)) (.ofNat ((mm.entry cur src).pbaseAddr * 4096))
      (.ofNat ((mm.entry cur dst).pbaseAddr * 4096)) 4096 := by
  have hfd := h.above cur h.running dst hd.ge hd.lt hd.present
  have hlt := h.base_lt hd.lt
  have hge : numPagKernel * pageSize ≤ (mm.entry cur dst).pbaseAddr * 4096 := Nat.mul_le_mul_right 4096 hfd
  constructor
  · rintro s' m ⟨rfl, hc⟩ i hi
    have hsrc := hs.lt
    simp only [totalPages] at hsrc
    have hva := page_toNat (by omega : src < 2 ^ 20) hi
    simp only [MmC.supervisor, Sysenter.flat, Machine.loadByte, page_add, h.translate_changed hc hge, hva, hs.lookup hi]
    rfl
  · rintro s' m ⟨rfl, hc⟩ i hi v y hy
    have hdst := hd.lt
    simp only [totalPages] at hdst
    have hva := page_toNat (by omega : dst < 2 ^ 20) hi
    have hpa := page_toNat hlt hi
    simp only [Sysenter.flat, page_add, Option.some.injEq] at hy
    refine ⟨s.withMem y, ?_, rfl, fun b hb => ?_⟩
    · simp only [MmC.supervisor, Machine.storeByte, page_add, h.translate_changed hc hge, hva, hd.lookup hi]
      rw [← hy]
      rfl
    · rw [← hy, Function.update_of_ne, hc b hb]
      rintro rfl
      omega

theorem Mirrors.copyPage (h : Mirrors L s mm cur) (hs : UserMapped mm cur src) (hd : UserMapped mm cur dst)
    (hne : mm.getFrame cur src ≠ mm.getFrame cur dst) :
    ∃ s', MmC.copyData s (.ofNat (src * 4096)) (.ofNat (dst * 4096)) 4096 = some s' ∧
      Mirrors L s' (mm.copyFrame (mm.getFrame cur src) (mm.getFrame cur dst)) cur := by
  have hfs := h.above cur h.running src hs.ge hs.lt hs.present
  have hfd := h.above cur h.running dst hd.ge hd.lt hd.present
  have hlts := h.base_lt hs.lt
  have hltd := h.base_lt hd.lt
  rw [Mm.getFrame, Mm.getFrame] at *
  have haddr : ∀ {f g : Nat}, f < 2 ^ 20 → g < 2 ^ 20 → f ≠ g → UInt32.ofNat (f * 4096) ≠ .ofNat (g * 4096) := by
    intro f g hf hg hfg he
    have he := congrArg UInt32.toNat he
    have hfn := page_toNat (i := 0) hf (by decide)
    have hgn := page_toNat (i := 0) hg (by decide)
    rw [Nat.add_zero] at hfn hgn
    omega
  have halign : ∀ {f : Nat}, f < 2 ^ 20 → (UInt32.ofNat (f * 4096)).toNat % 4096 = 0 := by
    intro f hf
    have hfn := page_toNat (i := 0) hf (by decide)
    rw [Nat.add_zero] at hfn
    omega
  have hcopy := Sysenter.copyData_page (m := s.mem) (halign hlts) (halign hltd) (haddr hlts hltd hne)
  obtain ⟨s', hs', rfl, hc⟩ := (h.alike hs hd).copyWords ⟨rfl, fun _ _ => rfl⟩ hcopy
  refine ⟨_, hs', h.changed hc (Nat.mul_le_mul_right 4096 hfd) fun f hf hlt w hw => ?_⟩
  obtain ⟨dir, hh, -⟩ := h.holds
  rw [Nat.mul_comm 4096 f]
  by_cases hfd' : f = (mm.entry cur dst).pbaseAddr
  · subst hfd'
    rw [Sysenter.load_copied hw, Function.update_self, Nat.mul_comm, hh.ram _ hfs hlts w hw]
  · rw [Sysenter.load_copied_other (halign hlt) (halign hltd) (haddr hlt hltd hfd') hw, Function.update_of_ne hfd',
      Nat.mul_comm, hh.ram f hf hlt w hw]

/-- Through user pages programs get above the kernel's part of memory. -/
theorem Mirrors.lookup_some (h : Mirrors L s mm cur) {va pa : Nat} (hva : numPagKernel ≤ va / pageSize)
    (hpa : mm.lookup cur acc va = some pa) : numPagKernel ≤ pa / pageSize ∧ pa / pageSize < 2 ^ 20 ∧ pa % 4 = va % 4 := by
  unfold Mm.lookup at hpa
  dsimp only at hpa
  split at hpa
  · rename_i hc
    have hp : (mm.entry cur (va / pageSize)).present = true := (Bool.and_eq_true_iff.mp hc.2).1
    have hge := h.above cur h.running _ hva hc.1 hp
    have hlt := h.base_lt hc.1
    have hpa := Option.some.inj hpa
    simp only [pageSize, numPagKernel] at *
    omega
  · cases hpa

theorem place_eq {pa : Nat} (hlt : pa / pageSize < 2 ^ 20) (h4 : pa % 4 = 0) :
    UInt32.ofNat pa = cell (.ofNat (4096 * (pa / pageSize))) (pa % pageSize / 4) := by
  simp only [pageSize] at hlt ⊢
  apply UInt32.toNat_inj.mp
  rw [frame_toNat hlt (by omega), UInt32.toNat_ofNat']
  omega

theorem Mirrors.loadWord (h : Mirrors L s mm cur) (h4 : va.toNat % 4 = 0)
    (hva : numPagKernel ≤ va.toNat / pageSize ∨ mm.lookup cur ⟨true, false⟩ va.toNat = none) :
    s.loadWord true va = (mm.lookup cur ⟨true, false⟩ va.toNat).map mm.wordAt := by
  rw [Machine.loadWord, h.translate]
  cases hpa : mm.lookup cur ⟨true, false⟩ va.toNat with
  | none => rfl
  | some pa =>
    obtain ⟨hge, hlt, hmod⟩ := h.lookup_some (hva.resolve_right (by rw [hpa]; exact Option.some_ne_none pa)) hpa
    obtain ⟨dir, hh, -⟩ := h.holds
    have hram := hh.ram _ hge hlt (pa % pageSize / 4) (by simp only [pageSize]; omega)
    rw [← place_eq hlt (by omega)] at hram
    exact congrArg some hram

theorem Mirrors.storeWord (h : Mirrors L s mm cur) (h4 : va.toNat % 4 = 0) (v : UInt32) {pa : Nat}
    (hva : numPagKernel ≤ va.toNat / pageSize) (hpa : mm.lookup cur ⟨true, true⟩ va.toNat = some pa) :
    ∃ s', s.storeWord true va v = some s' ∧ Mirrors L s' (mm.setWordAt pa v) cur := by
  obtain ⟨hge, hlt, hmod⟩ := h.lookup_some hva hpa
  have hrun : s.storeWord true va v = some (s.withMem (store s.mem (.ofNat pa) v)) := by
    rw [Machine.storeWord, h.translate, hpa]
    rfl
  rw [place_eq hlt (by omega)] at hrun
  obtain ⟨dir, hh, hd⟩ := h.holds
  have hw : pa % pageSize / 4 < 1024 := by
    simp only [pageSize]
    omega
  exact ⟨_, hrun, ⟨dir, hh.setWord hge hlt hw v, hd⟩, h.rooted, h.above, h.running, h.cr3, h.paging⟩

/-! ## Runs -/

/-- What a call may ask for, while the processor may hold old translations of the pages `old`: these are not used. Entries
of the kernel's pages are only made as they are, for a task that does not run; programs do not use such an entry. -/
def Mm.Admits (m : Mm) (cur : Nat) (old : Nat → Bool) : Call → Prop
  | .allocFrame | .freeFrame _ => True
  | .setSsPag t page frame => Enters cur t page.toNat frame.toNat
  | .delSsPag t page => t < nrTasks ∧ numPagKernel ≤ page.toNat ∧ page.toNat < totalPages
  | .getFrame t page => t < nrTasks ∧ page.toNat < totalPages
  | .setUserPages t | .freeUserPages t | .setCr3 t => t < nrTasks
  | .copyPage src dst => UserMapped m cur src ∧ UserMapped m cur dst ∧ m.getFrame cur src ≠ m.getFrame cur dst ∧
    old src = false ∧ old dst = false
  | .load va => va.toNat % 4 = 0 ∧ old (va.toNat / pageSize) = false ∧
    (numPagKernel ≤ va.toNat / pageSize ∨ m.lookup cur ⟨true, false⟩ va.toNat = none)
  | .store va _ => va.toNat % 4 = 0 ∧ old (va.toNat / pageSize) = false ∧
    (numPagKernel ≤ va.toNat / pageSize ∨ m.lookup cur ⟨true, true⟩ va.toNat = none)

def Mm.AdmitsAll (m : Mm) (cur : Nat) (old : Nat → Bool) : List Call → Prop
  | [] => True
  | c :: cs => m.Admits cur old c ∧ (m.call cur c).2.1.AdmitsAll (m.call cur c).2.2 (m.stale cur old c) cs

variable {c : Call} {cs cs₁ cs₂ : List Call} {old : Nat → Bool} {pa : Nat}

theorem Mirrors.setCr3 (h : Mirrors L s mm cur) {t : Nat} (ht : t < nrTasks) : Mirrors L { s with cr3 := L.dir t } mm t :=
  ⟨h.holds, h.rooted, h.above, ht, rfl, h.paging⟩

/-- Each call does to the bytes what it does to `mm`. -/
theorem Mirrors.call (h : Mirrors L s mm cur) (hc : mm.Admits cur old c) :
    ∃ s', MmC.step L s c = some ((mm.call cur c).1, s') ∧ Mirrors L s' (mm.call cur c).2.1 (mm.call cur c).2.2 := by
  cases c with
  | allocFrame =>
    obtain ⟨s', hs', h'⟩ := h.allocFrame
    refine ⟨s', ?_, h'⟩
    rw [MmC.step, hs']
    rfl
  | freeFrame frame =>
    obtain ⟨s', hs', h'⟩ := h.freeFrame frame
    refine ⟨s', ?_, h'⟩
    rw [MmC.step, hs']
    rfl
  | setSsPag t page frame =>
    obtain ⟨s', hs', h'⟩ := h.setSsPag hc
    refine ⟨s', ?_, h'⟩
    rw [MmC.step, h.getPT hc.task, Option.bind_eq_bind, Option.bind_some, hs']
    rfl
  | delSsPag t page =>
    obtain ⟨ht, hge, hlt⟩ := hc
    obtain ⟨s', hs', h'⟩ := h.delSsPag ht hlt hge
    refine ⟨s', ?_, h'⟩
    rw [MmC.step, h.getPT ht, Option.bind_eq_bind, Option.bind_some, hs']
    rfl
  | getFrame t page =>
    obtain ⟨ht, hlt⟩ := hc
    have hget := h.getFrame (t := t) (p := page) (by simp only [entries, nrTasks, totalPages] at *; omega)
    refine ⟨s, ?_, h⟩
    rw [MmC.step, h.getPT ht, Option.bind_eq_bind, Option.bind_some, hget]
    rfl
  | setUserPages t =>
    obtain ⟨s', hs', h'⟩ := h.setUserPages hc
    rw [MmC.step, hs', Mm.call]
    dsimp only
    exact ⟨s', rfl, h'⟩
  | freeUserPages t =>
    obtain ⟨s', hs', h'⟩ := h.freeUserPages hc
    rw [MmC.step, hs', Mm.call]
    dsimp only
    exact ⟨s', rfl, h'⟩
  | setCr3 t => exact ⟨_, rfl, h.setCr3 hc⟩
  | copyPage src dst =>
    obtain ⟨hs, hd, hne, -, -⟩ := hc
    obtain ⟨s', hs', h'⟩ := h.copyPage hs hd hne
    refine ⟨s', ?_, h'⟩
    rw [MmC.step, hs']
    rfl
  | load va =>
    refine ⟨s, ?_, h⟩
    rw [MmC.step, h.loadWord hc.1 hc.2.2]
    rfl
  | store va v =>
    rw [MmC.step, Mm.call]
    cases hpa : mm.lookup cur ⟨true, true⟩ va.toNat with
    | none =>
      have hrun : s.storeWord true va v = none := by
        rw [Machine.storeWord, h.translate, hpa]
        rfl
      rw [hrun]
      exact ⟨s, rfl, h⟩
    | some pa =>
      obtain ⟨s', hs', h'⟩ := h.storeWord hc.1 v (hc.2.2.resolve_right (by rw [hpa]; exact Option.some_ne_none pa)) hpa
      rw [hs']
      exact ⟨s', rfl, h'⟩

theorem Mirrors.run (h : Mirrors L s mm cur) (hcs : mm.AdmitsAll cur old cs) :
    ∃ s', MmC.run L s cs = some ((mm.run cur cs).1, s') ∧ Mirrors L s' (mm.run cur cs).2.1 (mm.run cur cs).2.2 := by
  induction cs generalizing s mm cur old with
  | nil => exact ⟨s, rfl, h⟩
  | cons c cs ih =>
    obtain ⟨hc, hcs⟩ := hcs
    obtain ⟨s₁, hs₁, h₁⟩ := h.call hc
    obtain ⟨s₂, hs₂, h₂⟩ := ih h₁ hcs
    refine ⟨s₂, ?_, h₂⟩
    rw [MmC.run, hs₁, Option.bind_eq_bind, Option.bind_some]
    dsimp only
    rw [hs₂]
    rfl

/-! ## Translations that are kept -/

theorem run_append (mm : Mm) (cur : Nat) (cs₁ cs₂ : List Call) : (mm.run cur (cs₁ ++ cs₂)).2 =
    ((mm.run cur cs₁).2.1.run (mm.run cur cs₁).2.2 cs₂).2 := by
  induction cs₁ generalizing mm cur with
  | nil => rfl
  | cons c cs ih => exact ih (mm.call cur c).2.1 (mm.call cur c).2.2

theorem staleAfter_append (mm : Mm) (cur : Nat) (old : Nat → Bool) (cs₁ cs₂ : List Call) :
    mm.staleAfter cur old (cs₁ ++ cs₂) =
      (mm.run cur cs₁).2.1.staleAfter (mm.run cur cs₁).2.2 (mm.staleAfter cur old cs₁) cs₂ := by
  induction cs₁ generalizing mm cur old with
  | nil => rfl
  | cons c cs ih => exact ih (mm.call cur c).2.1 (mm.call cur c).2.2 (mm.stale cur old c)

theorem Mm.AdmitsAll.left (h : mm.AdmitsAll cur old (cs₁ ++ cs₂)) : mm.AdmitsAll cur old cs₁ := by
  induction cs₁ generalizing mm cur old with
  | nil => trivial
  | cons c cs ih => exact ⟨h.1, ih h.2⟩

theorem stale_eq (hc : ∀ t, c ≠ .setCr3 t) : mm.stale cur old c page = (old page ||
    (page < totalPages && (mm.entry cur page).present && (mm.call cur c).2.1.entry cur page != mm.entry cur page)) := by
  cases c <;> first | rfl | exact absurd rfl (hc _)

theorem call_running (hc : ∀ t, c ≠ .setCr3 t) : (mm.call cur c).2.2 = cur := by
  cases c with
  | setCr3 t => exact absurd rfl (hc t)
  | store va v =>
    rw [Mm.call]
    split <;> rfl
  | _ => rfl

theorem entry_of_fresh (hc : ∀ t, c ≠ .setCr3 t) (hp : page < totalPages) (hpresent : (mm.entry cur page).present = true)
    (hfresh : mm.stale cur old c page = false) : (mm.call cur c).2.1.entry cur page = mm.entry cur page := by
  rw [stale_eq hc] at hfresh
  simpa [hp, hpresent] using (Bool.or_eq_false_iff.mp hfresh).2

theorem fresh_before (hcs : ∀ t, Call.setCr3 t ∉ cs) (hfresh : mm.staleAfter cur old cs page = false) :
    old page = false := by
  induction cs generalizing mm cur old with
  | nil => exact hfresh
  | cons c cs ih =>
    have hc : ∀ t, c ≠ .setCr3 t := fun t e => hcs t (e ▸ List.mem_cons_self)
    have hstale := ih (fun t ht => hcs t (List.mem_cons_of_mem c ht)) hfresh
    rw [stale_eq hc] at hstale
    exact (Bool.or_eq_false_iff.mp hstale).1

theorem lookup_entry (h : mm.lookup cur acc a = some pa) :
    a / pageSize < totalPages ∧ (mm.entry cur (a / pageSize)).present = true := by
  unfold Mm.lookup at h
  dsimp only at h
  split at h
  · rename_i hc
    exact ⟨hc.1, (Bool.and_eq_true_iff.mp hc.2).1⟩
  · cases h

/-- What was found before calls that do not load `CR3` is found after them, unless the page has become stale. -/
theorem lookup_kept (hcs : ∀ t, Call.setCr3 t ∉ cs) (hfresh : mm.staleAfter cur old cs (a / pageSize) = false)
    (hpa : mm.lookup cur acc a = some pa) :
    (mm.run cur cs).2.1.lookup cur acc a = some pa ∧ (mm.run cur cs).2.2 = cur := by
  induction cs generalizing mm old with
  | nil => exact ⟨hpa, rfl⟩
  | cons c cs ih =>
    have hc : ∀ t, c ≠ .setCr3 t := fun t e => hcs t (e ▸ List.mem_cons_self)
    have hrest : ∀ t, Call.setCr3 t ∉ cs := fun t ht => hcs t (List.mem_cons_of_mem c ht)
    have hrun : (mm.call cur c).2.2 = cur := call_running hc
    have hafter : (mm.call cur c).2.1.staleAfter cur (mm.stale cur old c) cs (a / pageSize) = false := by
      rw [← hfresh, Mm.staleAfter, hrun]
    obtain ⟨hlt, hpresent⟩ := lookup_entry hpa
    have hentry := entry_of_fresh hc hlt hpresent (fresh_before hrest hafter)
    have hfound : (mm.call cur c).2.1.lookup cur acc a = some pa := by
      rw [← hpa, Mm.lookup, Mm.lookup, hentry]
    have hcons : (mm.run cur (c :: cs)).2 = ((mm.call cur c).2.1.run (mm.call cur c).2.2 cs).2 := rfl
    rw [hcons, hrun]
    exact ih hrest hafter hfound

theorem touches_setUserPage {K : Nat → Prop} (rw : Bool) (t : Nat) (mm : Mm) (hk : K (t * totalPages + page)) :
    Touches K mm (setUserPage rw t mm page) := (touches_allocFrame mm).trans (touches_setEntry _ _ hk)

/-- No call that is admitted changes an entry of the kernel's pages in the table that is in use. -/
theorem Mm.Admits.kernel_entry (h : mm.Admits cur old c) (hp : page < numPagKernel) :
    (mm.call cur c).2.1.entry cur page = mm.entry cur page := by
  have huser : ∀ {t q : Nat}, q < totalPages → numPagKernel ≤ q ∨ t ≠ cur →
      t * totalPages + q ≠ cur * totalPages + page := by
    intro t q hq hsafe e
    simp only [totalPages, numPagKernel] at *
    omega
  have hcode : ∀ {t i : Nat}, i < numPagCode → t * totalPages + (MmC.pagLogInitCode + i) ≠ cur * totalPages + page := by
    intro t i hi
    apply huser <;> simp only [MmC.pagLogInitCode_eq, numPagCode, numPagKernel, totalPages] at * <;> omega
  have hdata : ∀ {t i : Nat}, i < numPagData → t * totalPages + (MmC.pagLogInitData + i) ≠ cur * totalPages + page := by
    intro t i hi
    apply huser <;> simp only [MmC.pagLogInitData_eq, numPagData, numPagKernel, totalPages] at * <;> omega
  suffices htouch : Touches (· ≠ cur * totalPages + page) mm (mm.call cur c).2.1 from htouch _ (not_not.mpr rfl)
  cases c with
  | allocFrame => exact touches_allocFrame mm
  | freeFrame frame => exact touches_freeFrame mm frame.toNat
  | setSsPag t q frame => exact touches_setSsPag mm _ (huser h.inTable h.safe)
  | delSsPag t q => exact touches_setEntry mm _ (huser h.2.2 (.inl h.2.1))
  | setUserPages t =>
    rw [Mm.call]
    dsimp only
    rw [Mm.setUserPages]
    apply Touches.trans
    · exact touches_foldl fun i hi m => touches_setUserPage false t m (hcode (List.mem_range.mp hi))
    · exact touches_foldl fun i hi m => touches_setUserPage true t m (hdata (List.mem_range.mp hi))
  | freeUserPages t =>
    rw [Mm.call]
    dsimp only
    rw [Mm.freeUserPages]
    exact touches_foldl fun i hi m => touches_releasePage m (hdata (List.mem_range.mp hi))
  | getFrame t q => exact .refl _ mm
  | setCr3 t => exact .refl _ mm
  | copyPage src dst => exact fun _ _ => rfl
  | load va => exact .refl _ mm
  | store va v =>
    rw [Mm.call]
    split <;> exact fun _ _ => rfl

/-- The kernel's own translations never become stale. -/
theorem Mm.AdmitsAll.kernel_fresh (h : mm.AdmitsAll cur old cs) (hold : ∀ p < numPagKernel, old p = false)
    (hp : page < numPagKernel) : mm.staleAfter cur old cs page = false := by
  induction cs generalizing mm cur old with
  | nil => exact hold page hp
  | cons c cs ih =>
    refine ih h.2 fun p hp => ?_
    have hsame := h.1.kernel_entry hp
    cases c <;> simp [Mm.stale, hold p hp, hsame]

/-- A translation that the machine found after some of the calls and that could have been kept since is the one that it
finds after all of them, unless the page has become stale, and the kernel's have not. -/
def Coherent (L : Layout) (s s' : Machine) (cs : List Call) (old : Nat → Bool) : Prop :=
  (∀ page < numPagKernel, old page = false) ∧
  ∀ cs₁ cs₂, cs = cs₁ ++ cs₂ → (∀ t, Call.setCr3 t ∉ cs₂) → ∃ rs s₁, MmC.run L s cs₁ = some (rs, s₁) ∧
    ∀ acc va pa, old (va.toNat / pageSize) = false → s₁.translate acc va = some pa → s'.translate acc va = some pa

theorem Mirrors.coherent {s' : Machine} (h : Mirrors L s mm cur) (hcs : mm.AdmitsAll cur (fun _ => false) cs)
    (h' : Mirrors L s' (mm.run cur cs).2.1 (mm.run cur cs).2.2) :
    Coherent L s s' cs (mm.staleAfter cur (fun _ => false) cs) := by
  refine ⟨fun page hp => hcs.kernel_fresh (fun _ _ => rfl) hp, ?_⟩
  rintro cs₁ cs₂ rfl hcr3
  obtain ⟨s₁, hs₁, h₁⟩ := h.run hcs.left
  refine ⟨_, s₁, hs₁, fun acc va pa hfresh hpa => ?_⟩
  rw [h₁.translate] at hpa
  obtain ⟨n, hn, rfl⟩ := Option.map_eq_some_iff.mp hpa
  rw [staleAfter_append] at hfresh
  obtain ⟨hkept, hrun⟩ := lookup_kept hcr3 hfresh hn
  rw [run_append] at h'
  rw [h'.translate, hrun, hkept]
  rfl

/-- From whatever is in memory, with directories that have no entry but the first, `init_mm` and any calls after it run
without a page fault of the kernel, answer what `mm` answers, and leave tables through which the hardware finds for every
task, access and address what `mm` says. To keep translations would not have changed anything. -/
theorem mm_follows (L : Layout) {dir : Nat → PageTableEntry} (h : Holds L m dir mm)
    (hdir : ∀ t < nrTasks, ∀ i, 0 < i → i < totalPages → (dir (t * totalPages + i)).present = false) (cr3 : UInt32)
    (hcs : (mm.initial L.guards).AdmitsAll 0 (fun _ => false) cs) :
    ∃ s s', MmC.initMm L ⟨m, cr3, false⟩ = some s ∧ MmC.run L s cs = some (((mm.initial L.guards).run 0 cs).1, s') ∧
      Mirrors L s' ((mm.initial L.guards).run 0 cs).2.1 ((mm.initial L.guards).run 0 cs).2.2 ∧
      (∀ t < nrTasks, ∀ acc va, walk s'.mem (L.dir t) acc va =
        (((mm.initial L.guards).run 0 cs).2.1.lookup t acc va.toNat).map .ofNat) ∧
      Coherent L s s' cs ((mm.initial L.guards).staleAfter 0 (fun _ => false) cs) := by
  have hstart : Unpaged L dir ⟨m, cr3, false⟩ mm := ⟨rfl, h⟩
  obtain ⟨s, hs, h₀⟩ := hstart.initMm hdir
  obtain ⟨s', hs', h'⟩ := h₀.run hcs
  refine ⟨s, s', hs, hs', h', fun t ht acc va => ?_, h₀.coherent hcs h'⟩
  obtain ⟨dir', hh, hd⟩ := h'.holds
  exact hh.walk hd ht acc va

end

/-- Where the linker put the arrays of zeOSpparri, which has no guard pages. -/
def Layout.linked : Layout where
  dirPages := 0x29000
  pagusrTable := 0x1f000
  physMem := 0x13d80
  guards := []
  dirPage := rfl
  tablePage := rfl
  dirIn := ⟨by decide, by decide, by simp⟩
  tableIn := ⟨by decide, by decide, by simp⟩
  physIn := ⟨by decide, by decide, by simp⟩
  dirTable := .inr (by decide)
  dirPhys := .inr (by decide)
  tablePhys := .inr (by decide)
  guard := by simp

def Mm.blank : Mm := ⟨fun _ => .free, fun _ => .zero, fun _ _ => 0⟩

theorem holds_blank (L : Layout) : Holds L (fun _ => 0) (fun _ => .zero) .blank :=
  ⟨fun _ _ => entryOf_zero, fun _ _ => entryOf_zero, fun _ _ => rfl, fun _ _ _ _ _ => rfl⟩

/-- A program gets a page, uses it, tries a page of the kernel, loses its page and tries again, with `CR3` loaded anew. -/
theorem mm_follows_program : ∃ s s', MmC.initMm .linked ⟨fun _ => 0, 0, false⟩ = some s ∧
    MmC.run .linked s [.allocFrame, .setSsPag 0 256 256, .store 0x100008 7, .load 0x100008, .load 0x1000, .delSsPag 0 256,
      .setCr3 0, .load 0x100008, .setCr3 3] =
        some ([.word 256, .done, .done, .word 7, .fault, .done, .done, .fault, .done], s') ∧
    s'.cr3 = Layout.linked.dir 3 := by
  have hcs : (Mm.blank.initial Layout.linked.guards).AdmitsAll 0 (fun _ => false) [.allocFrame, .setSsPag 0 256 256,
      .store 0x100008 7, .load 0x100008, .load 0x1000, .delSsPag 0 256, .setCr3 0, .load 0x100008, .setCr3 3] :=
    ⟨trivial, ⟨by decide, by decide, .inl (by decide), by decide, by decide⟩,
      ⟨by decide, by decide +kernel, .inl (by decide)⟩, ⟨by decide, by decide +kernel, .inl (by decide)⟩,
      ⟨by decide, by decide +kernel, .inr (by decide +kernel)⟩, ⟨by decide, by decide, by decide⟩,
      (by decide : 0 < nrTasks), ⟨by decide, rfl, .inl (by decide)⟩, (by decide : 3 < nrTasks), trivial⟩
  obtain ⟨s, s', hs, hs', hm, -⟩ := mm_follows .linked (holds_blank _) (fun _ _ _ _ _ => rfl) 0 hcs
  have hanswers : ((Mm.blank.initial Layout.linked.guards).run 0 [.allocFrame, .setSsPag 0 256 256, .store 0x100008 7,
      .load 0x100008, .load 0x1000, .delSsPag 0 256, .setCr3 0, .load 0x100008, .setCr3 3]).1 =
      [.word 256, .done, .done, .word 7, .fault, .done, .done, .fault, .done] := by decide +kernel
  rw [hanswers] at hs'
  exact ⟨s, s', hs, hs', hm.cr3⟩

end ZeosSOA
