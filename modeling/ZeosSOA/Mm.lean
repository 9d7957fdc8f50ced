import Mathlib.Algebra.Group.Int.Defs
import Mathlib.Algebra.GroupWithZero.Nat
import Mathlib.Data.List.Nodup
import Mathlib.Logic.Function.Basic

/-!
# mm.c

Frames and page tables, common to both kernels. `pagusrTable` is the whole array
`pagusr_table[NR_TASKS][TOTAL_PAGES]` laid out flat as in memory, so that an index past
the end of one table lands in the next one. A page table is named by its row, and a page
directory by the same number, since `init_dir_pages` points `dir_pages[i]` at row `i` and
nothing writes it afterwards. Of an entry only the bits that the code ever sets are kept.
`ram` is the contents of the frames, by 32-bit words.
-/

namespace ZeosSOA

abbrev nrTasks : Nat := 10
abbrev totalPages : Nat := 1024
abbrev numPagKernel : Nat := 256
abbrev numPagCode : Nat := 8
abbrev numPagData : Nat := 20
abbrev pageSize : Nat := 0x1000

instance : NeZero nrTasks := ⟨by decide⟩

instance (t : Fin nrTasks) (ts : List (Fin nrTasks)) : Decidable (t ∈ ts) := inferInstance

/-- The values of a byte of `phys_mem`: `FREE_FRAME` and `USED_FRAME`. -/
inductive FrameUse where
  | free
  | used
  deriving DecidableEq

structure PageTableEntry where
  present : Bool
  rw : Bool
  user : Bool
  pbaseAddr : Nat
  deriving DecidableEq

def PageTableEntry.zero : PageTableEntry := ⟨false, false, false, 0⟩

structure Mm where
  physMem : Nat → FrameUse
  pagusrTable : Nat → PageTableEntry
  ram : Nat → Nat → UInt32

namespace Mm

/-- `PT[page]` for the page table in row `pt`. -/
def entry (m : Mm) (pt page : Nat) : PageTableEntry := m.pagusrTable (pt * totalPages + page)

def setEntry (m : Mm) (pt page : Nat) (e : PageTableEntry) : Mm :=
  { m with pagusrTable := Function.update m.pagusrTable (pt * totalPages + page) e }

def setFrame (m : Mm) (frame : Nat) (u : FrameUse) : Mm :=
  { m with physMem := Function.update m.physMem frame u }

/-- What a frame number leaves in the 20 bits of `pbase_addr`. -/
def frameBits (frame : Int) : Nat := (frame % 2 ^ 20).toNat

/-- The frames `alloc_frame` looks at, in order. -/
def candidates : List Nat := List.range' numPagKernel ((totalPages - numPagKernel) / 2) 2

def allocFrame (m : Mm) : Int × Mm :=
  match candidates.find? fun i => m.physMem i = .free with
  | some i => (i, m.setFrame i .used)
  | none => (-1, m)

def freeFrame (m : Mm) (frame : Nat) : Mm :=
  if frame > numPagKernel ∧ frame < totalPages then m.setFrame frame .free else m

def setSsPag (m : Mm) (pt page : Nat) (frame : Int) : Mm :=
  m.setEntry pt page { present := true, rw := true, user := true, pbaseAddr := frameBits frame }

def delSsPag (m : Mm) (pt page : Nat) : Mm := m.setEntry pt page .zero

def getFrame (m : Mm) (pt page : Nat) : Nat := (m.entry pt page).pbaseAddr

/-! ## Start-up -/

/-- The entry of page `i` after the first two loops of `init_table_pages`. -/
def kernelEntry (i : Nat) : PageTableEntry :=
  if 1 ≤ i ∧ i < numPagKernel then { present := true, rw := true, user := false, pbaseAddr := i } else .zero

def initTablePages (m : Mm) : Mm :=
  { m with pagusrTable := fun k =>
      if k < nrTasks * totalPages then kernelEntry (k % totalPages) else m.pagusrTable k }

/-- `pagusr_table[j][page].bits.present = 0` for every `j`. -/
def guardPage (m : Mm) (page : Nat) : Mm :=
  (List.range nrTasks).foldl (fun m j => m.setEntry j page { m.entry j page with present := false }) m

def initFrames (m : Mm) : Mm :=
  { m with physMem := fun i =>
      if i < numPagKernel then .used else if i < totalPages then .free else m.physMem i }

/-- One round of a loop of `set_user_pages`. -/
def setUserPage (rw : Bool) (pt : Nat) (m : Mm) (page : Nat) : Mm :=
  let (newPhPag, m) := m.allocFrame
  m.setEntry pt page { present := true, rw := rw, user := true, pbaseAddr := frameBits newPhPag }

def setUserPages (pagLogInitCode pagLogInitData : Nat) (m : Mm) (pt : Nat) : Mm :=
  let m := (List.range numPagCode).foldl (fun m pag => setUserPage false pt m (pagLogInitCode + pag)) m
  (List.range numPagData).foldl (fun m pag => setUserPage true pt m (pagLogInitData + pag)) m

/-! ## Protection -/

/-- No page of the kernel is open to the user through the table, and page 0 is not in it. -/
structure KernelClosed (m : Mm) (pt : Nat) : Prop where
  user : ∀ page < numPagKernel, ¬ ((m.entry pt page).present = true ∧ (m.entry pt page).user = true)
  null : (m.entry pt 0).present = false

theorem kernelEntry_user (page : Nat) : (kernelEntry page).user = false := by
  unfold kernelEntry; split <;> rfl

/-! ## Access through a page table -/

/-- The frame behind a page, for kernel code; only directory entry 0 is present, so pages from
`TOTAL_PAGES` on are never mapped. -/
def translate (m : Mm) (pt page : Nat) : Option Nat :=
  if page < totalPages ∧ (m.entry pt page).present then some (m.entry pt page).pbaseAddr else none

def copyFrame (m : Mm) (src dst : Nat) : Mm := { m with ram := Function.update m.ram dst (m.ram src) }

/-- A store of one word in a page; `none` is a page fault. -/
def writeWord (m : Mm) (pt page word : Nat) (v : UInt32) : Option Mm := do
  let frame ← m.translate pt page
  return { m with ram := Function.update m.ram frame (Function.update (m.ram frame) word v) }

/-- The byte `k` of a word, which holds four of them, the lowest one first. -/
def byteOf (w : UInt32) (k : Nat) : UInt8 := UInt8.ofNat (w.toNat / 256 ^ k)

def setByte (w : UInt32) (k : Nat) (v : UInt8) : UInt32 :=
  UInt32.ofNat (w.toNat - (byteOf w k).toNat * 256 ^ k + v.toNat * 256 ^ k)

def readByte (m : Mm) (pt page offset : Nat) : Option UInt8 := do
  let frame ← m.translate pt page
  return byteOf (m.ram frame (offset / 4)) (offset % 4)

/-- A store of one byte in a page; `none` is a page fault. -/
def writeByte (m : Mm) (pt page offset : Nat) (v : UInt8) : Option Mm := do
  let frame ← m.translate pt page
  m.writeWord pt page (offset / 4) (setByte (m.ram frame (offset / 4)) (offset % 4) v)

end Mm

/-! ## Reading after writing -/

namespace Mm

theorem setEntry_entry (m : Mm) (pt page pt' page' : Nat) (e : PageTableEntry) :
    (m.setEntry pt page e).entry pt' page' =
      if pt' * totalPages + page' = pt * totalPages + page then e else m.entry pt' page' := by
  simp [setEntry, entry, Function.update_apply]

theorem setEntry_entry_lt (m : Mm) {pt page pt' page' : Nat} (e : PageTableEntry)
    (h : page < totalPages) (h' : page' < totalPages) :
    (m.setEntry pt page e).entry pt' page' = if pt' = pt ∧ page' = page then e else m.entry pt' page' := by
  rw [setEntry_entry]
  have : pt' * totalPages + page' = pt * totalPages + page ↔ pt' = pt ∧ page' = page := by
    simp only [totalPages] at *; omega
  simp only [this]

@[simp] theorem setEntry_physMem (m : Mm) (pt page : Nat) (e : PageTableEntry) :
    (m.setEntry pt page e).physMem = m.physMem := rfl

@[simp] theorem setFrame_entry (m : Mm) (f : Nat) (u : FrameUse) : (m.setFrame f u).entry = m.entry := rfl

@[simp] theorem setFrame_physMem (m : Mm) (f g : Nat) (u : FrameUse) :
    (m.setFrame f u).physMem g = if g = f then u else m.physMem g := Function.update_apply ..

@[simp] theorem setSsPag_physMem (m : Mm) (pt page : Nat) (f : Int) :
    (m.setSsPag pt page f).physMem = m.physMem := rfl

@[simp] theorem delSsPag_physMem (m : Mm) (pt page : Nat) : (m.delSsPag pt page).physMem = m.physMem := rfl

@[simp] theorem copyFrame_entry (m : Mm) (a b : Nat) : (m.copyFrame a b).entry = m.entry := rfl

@[simp] theorem freeFrame_entry (m : Mm) (f : Nat) : (m.freeFrame f).entry = m.entry := by
  unfold freeFrame; split <;> rfl

theorem freeFrame_physMem (m : Mm) (f g : Nat) : (m.freeFrame f).physMem g =
    if g = f ∧ numPagKernel < f ∧ f < totalPages then .free else m.physMem g := by
  unfold freeFrame
  split
  · rename_i h; simp [h]
  · rename_i h; rw [if_neg fun hc => h hc.2]

theorem frameBits_natCast {f : Nat} (h : f < 2 ^ 20) : frameBits f = f := by
  unfold frameBits; omega

theorem translate_of_present {m : Mm} {pt page : Nat} (hp : page < totalPages) (h : (m.entry pt page).present = true) :
    m.translate pt page = some (m.entry pt page).pbaseAddr := if_pos ⟨hp, h⟩

theorem translate_congr {m m' : Mm} (h : m'.pagusrTable = m.pagusrTable) : m'.translate = m.translate := by
  unfold translate entry
  rw [h]

theorem writeWord_of_present {m : Mm} {pt page : Nat} (hp : page < totalPages)
    (h : (m.entry pt page).present = true) (word : Nat) (v : UInt32) :
    ∃ m', m.writeWord pt page word v = some m' ∧ m'.entry = m.entry ∧ m'.physMem = m.physMem := by
  unfold writeWord
  rw [translate_of_present hp h]
  exact ⟨_, rfl, rfl, rfl⟩

theorem writeWord_some {m m' : Mm} {pt page word : Nat} {v : UInt32} (h : m.writeWord pt page word v = some m') :
    m'.pagusrTable = m.pagusrTable ∧ m'.physMem = m.physMem ∧ page < totalPages ∧
      (m.entry pt page).present = true := by
  obtain ⟨f, hf, h⟩ := Option.bind_eq_some_iff.mp h
  cases h
  unfold translate at hf
  split at hf
  · rename_i hc
    exact ⟨rfl, rfl, hc⟩
  · cases hf

theorem byteOf_setByte (w : UInt32) {k : Nat} (hk : k < 4) (v : UInt8) : byteOf (setByte w k v) k = v := by
  have hw := w.toNat_lt
  have hv := v.toNat_lt
  apply UInt8.toNat_inj.mp
  simp only [byteOf, setByte, UInt8.toNat_ofNat', UInt32.toNat_ofNat']
  obtain rfl | rfl | rfl | rfl : k = 0 ∨ k = 1 ∨ k = 2 ∨ k = 3 := by omega
  all_goals omega

theorem writeByte_some {m m' : Mm} {pt page offset : Nat} {v : UInt8} (h : m.writeByte pt page offset v = some m') :
    m'.pagusrTable = m.pagusrTable ∧ m'.physMem = m.physMem ∧ m'.readByte pt page offset = some v := by
  obtain ⟨f, hf, h⟩ := Option.bind_eq_some_iff.mp h
  obtain ⟨hpt, hph, -⟩ := writeWord_some h
  obtain ⟨f', hf', h⟩ := Option.bind_eq_some_iff.mp h
  obtain rfl : f = f' := Option.some.inj (hf.symm.trans hf')
  have ht : m'.translate pt page = some f := by rw [translate_congr hpt]; exact hf
  cases h
  refine ⟨hpt, hph, ?_⟩
  unfold readByte
  rw [ht]
  simp [byteOf_setByte _ (Nat.mod_lt offset (by decide : 0 < 4))]

theorem byteOf_setByte_ne (w : UInt32) {j k : Nat} (hj : j < 4) (hk : k < 4) (hne : j ≠ k) (v : UInt8) :
    byteOf (setByte w k v) j = byteOf w j := by
  have hw := w.toNat_lt
  have hv := v.toNat_lt
  apply UInt8.toNat_inj.mp
  simp only [byteOf, setByte, UInt8.toNat_ofNat', UInt32.toNat_ofNat']
  obtain rfl | rfl | rfl | rfl : k = 0 ∨ k = 1 ∨ k = 2 ∨ k = 3 := by omega
  all_goals
    obtain rfl | rfl | rfl | rfl : j = 0 ∨ j = 1 ∨ j = 2 ∨ j = 3 := by omega
    all_goals first | exact absurd rfl hne | omega

/-- A byte at another offset of a page stays, whichever frames the two pages have. -/
theorem writeByte_ne {m m' : Mm} {pt page offset page' offset' : Nat} {v : UInt8}
    (h : m.writeByte pt page offset v = some m') (hne : offset' ≠ offset) :
    m'.readByte pt page' offset' = m.readByte pt page' offset' := by
  have ht := translate_congr (writeByte_some h).1
  obtain ⟨f, hf, h⟩ := Option.bind_eq_some_iff.mp h
  obtain ⟨f', hf', h⟩ := Option.bind_eq_some_iff.mp h
  obtain rfl : f = f' := Option.some.inj (hf.symm.trans hf')
  cases h
  unfold readByte
  rw [ht]
  cases m.translate pt page' with
  | none => rfl
  | some g =>
    simp only [Option.bind_eq_bind, Option.bind_some]
    congr 1
    by_cases hg : g = f
    · subst hg
      rw [Function.update_self]
      by_cases hw : offset' / 4 = offset / 4
      · rw [hw, Function.update_self]
        exact byteOf_setByte_ne _ (Nat.mod_lt _ (by decide)) (Nat.mod_lt _ (by decide)) (by omega) v
      · rw [Function.update_of_ne hw]
    · rw [Function.update_of_ne hg]

/-! ## The allocator -/

theorem mem_candidates {f : Nat} : f ∈ candidates ↔ numPagKernel ≤ f ∧ f < totalPages ∧ f % 2 = 0 := by
  simp only [candidates, List.mem_range', numPagKernel, totalPages]
  constructor
  · rintro ⟨k, hk, rfl⟩; omega
  · rintro ⟨h1, h2, h3⟩; exact ⟨(f - 256) / 2, by omega, by omega⟩

theorem allocFrame_cases (m : Mm) :
    (∃ f ∈ candidates, m.physMem f = .free ∧ m.allocFrame = ((f : Int), m.setFrame f .used)) ∨
      ((∀ f ∈ candidates, m.physMem f = .used) ∧ m.allocFrame = (-1, m)) := by
  unfold allocFrame
  cases h : candidates.find? fun i => decide (m.physMem i = .free) with
  | some f => exact .inl ⟨f, List.mem_of_find?_eq_some h, by simpa using List.find?_some h, rfl⟩
  | none =>
    refine .inr ⟨fun f hf => ?_, rfl⟩
    have := List.find?_eq_none.mp h f hf
    cases hu : m.physMem f with
    | free => simp [hu] at this
    | used => rfl

/-- The number of frames `alloc_frame` can still hand out. -/
def freeCount (m : Mm) : Nat := candidates.countP fun f => m.physMem f = .free

theorem candidates_nodup : candidates.Nodup := List.nodup_range' 2 (by decide)

theorem countP_setFrame_used {m : Mm} {f : Nat} (hf : m.physMem f = .free) {l : List Nat} (hl : l.Nodup)
    (hm : f ∈ l) :
    l.countP (fun g => m.physMem g = .free) = l.countP (fun g => (m.setFrame f .used).physMem g = .free) + 1 := by
  induction l with
  | nil => cases hm
  | cons g l ih =>
    obtain ⟨hg, hl⟩ := List.nodup_cons.mp hl
    by_cases hgf : g = f
    · subst hgf
      have : l.countP (fun x => decide (m.physMem x = .free)) =
          l.countP (fun x => decide ((m.setFrame g .used).physMem x = .free)) := by
        refine List.countP_congr fun x hx => ?_
        have hxg : x ≠ g := fun e => hg (e ▸ hx)
        simp [hxg]
      simp [hf, this]
    · have hm' : f ∈ l := (List.mem_cons.mp hm).resolve_left (Ne.symm hgf)
      have := ih hl hm'
      simp only [List.countP_cons, this, setFrame_physMem, hgf, if_false]
      omega

theorem freeCount_alloc {m : Mm} {f : Nat} (hf : f ∈ candidates) (h : m.physMem f = .free) :
    m.freeCount = (m.setFrame f .used).freeCount + 1 :=
  countP_setFrame_used h candidates_nodup hf

theorem freeCount_eq_zero {m : Mm} : m.freeCount = 0 ↔ ∀ f ∈ candidates, m.physMem f = .used := by
  unfold freeCount
  rw [List.countP_eq_zero]
  refine forall_congr' fun f => forall_congr' fun _ => ?_
  cases m.physMem f <;> simp

theorem allocFrame_eq_neg_one {m : Mm} : m.allocFrame.1 = -1 ↔ m.freeCount = 0 := by
  rcases allocFrame_cases m with ⟨f, hf, hfree, e⟩ | ⟨hused, e⟩ <;> rw [e]
  · have := freeCount_alloc hf hfree
    exact iff_of_false (by dsimp only; omega) (by omega)
  · exact iff_of_true rfl (freeCount_eq_zero.mpr hused)

theorem allocFrame_refused {m : Mm} (h : m.allocFrame.1 = -1) : m.allocFrame.2 = m := by
  rcases allocFrame_cases m with ⟨f, -, -, e⟩ | ⟨-, e⟩ <;> rw [e]
  rw [e] at h
  exact absurd h (by simp)

/-! ## The memory at start-up -/

/-- Of the frames that can be handed out, exactly those from `n` on are free. -/
def FreeFrom (m : Mm) (n : Nat) : Prop := ∀ f ∈ candidates, m.physMem f = .free ↔ n ≤ f

theorem allocFrame_freeFrom {m : Mm} {n : Nat} (h : m.FreeFrom n) (hn : n ∈ candidates) :
    m.allocFrame = ((n : Int), m.setFrame n .used) ∧ (m.setFrame n .used).FreeFrom (n + 2) := by
  constructor
  · obtain ⟨as, bs, hab⟩ := List.append_of_mem hn
    have hs : (as ++ n :: bs).Pairwise (· < ·) := hab ▸ List.pairwise_lt_range' 2 (by decide)
    have hfind : candidates.find? (fun i => decide (m.physMem i = .free)) = some n := by
      refine List.find?_eq_some_iff_append.mpr ⟨by simpa using (h n hn).mpr (Nat.le_refl n), as, bs, hab, ?_⟩
      intro f hf
      have hlt : f < n := (List.pairwise_append.mp hs).2.2 f hf n List.mem_cons_self
      have hfc : f ∈ candidates := by rw [hab]; exact List.mem_append_left _ hf
      simpa using fun e => Nat.not_lt.mpr ((h f hfc).mp e) hlt
    unfold allocFrame
    rw [hfind]
  · intro f hf
    have hff := (mem_candidates.mp hf).2.2
    have hnn := (mem_candidates.mp hn).2.2
    rw [setFrame_physMem]
    split
    · simp; omega
    · rw [h f hf]; omega

theorem foldl_setUserPage (rw : Bool) (pt base : Nat) {n : Nat} : ∀ {k : Nat} {m : Mm}, m.FreeFrom n →
    numPagKernel ≤ n → n % 2 = 0 → n + 2 * k ≤ totalPages → base + k ≤ totalPages →
    let m' := (List.range k).foldl (fun m pag => setUserPage rw pt m (base + pag)) m
    m'.FreeFrom (n + 2 * k) ∧
    (∀ pt' page, page < totalPages → m'.entry pt' page =
      if pt' = pt ∧ base ≤ page ∧ page < base + k then
        { present := true, rw := rw, user := true, pbaseAddr := n + 2 * (page - base) }
      else m.entry pt' page) ∧
    ∀ f, m'.physMem f = if n ≤ f ∧ f < n + 2 * k ∧ f % 2 = 0 then .used else m.physMem f
  | 0, m, h, _, _, _, _ => by
    refine ⟨by simpa using h, fun pt' page _ => ?_, fun f => ?_⟩
    · rw [if_neg (by omega)]; rfl
    · rw [if_neg (by omega)]; rfl
  | k + 1, m, h, hn, h2, hf, hb => by
    simp only [numPagKernel, totalPages] at hn hf hb
    obtain ⟨hfree, hent, hphys⟩ := foldl_setUserPage rw pt base (k := k) h hn h2
      (by simp only [totalPages]; omega) (by simp only [totalPages]; omega)
    rw [List.range_succ, List.foldl_append, List.foldl_cons, List.foldl_nil]
    generalize (List.range k).foldl (fun m pag => setUserPage rw pt m (base + pag)) m = m1 at hfree hent hphys
    have hc : n + 2 * k ∈ candidates := mem_candidates.mpr (by simp only [numPagKernel, totalPages]; omega)
    obtain ⟨e, hfree'⟩ := allocFrame_freeFrom hfree hc
    have hbits : frameBits (n + 2 * k : Nat) = n + 2 * k :=
      frameBits_natCast (by omega)
    dsimp only
    unfold setUserPage
    rw [e]
    dsimp only
    rw [hbits]
    refine ⟨hfree', fun pt' page hp => ?_, fun f => ?_⟩
    · rw [setEntry_entry_lt _ _ (by simp only [totalPages]; omega) hp, setFrame_entry, hent pt' page hp]
      by_cases hpt : pt' = pt ∧ page = base + k
      · rw [if_pos hpt, if_pos (by omega)]
        simp; omega
      · rw [if_neg hpt]
        by_cases hr : pt' = pt ∧ base ≤ page ∧ page < base + k
        · rw [if_pos hr, if_pos (by omega)]
        · rw [if_neg hr, if_neg (by omega)]
    · rw [setEntry_physMem, setFrame_physMem, hphys f]
      grind

theorem setUserPages_spec {m : Mm} (pt code data : Nat) {n : Nat} (h : m.FreeFrom n) (hn : numPagKernel ≤ n)
    (h2 : n % 2 = 0) (hf : n + 2 * (numPagCode + numPagData) ≤ totalPages) (hc : code + numPagCode ≤ totalPages)
    (hd : data + numPagData ≤ totalPages) :
    (∀ pt' page, page < totalPages → (setUserPages code data m pt).entry pt' page =
      if pt' = pt ∧ data ≤ page ∧ page < data + numPagData then
        { present := true, rw := true, user := true, pbaseAddr := n + 2 * numPagCode + 2 * (page - data) }
      else if pt' = pt ∧ code ≤ page ∧ page < code + numPagCode then
        { present := true, rw := false, user := true, pbaseAddr := n + 2 * (page - code) }
      else m.entry pt' page) ∧
    ∀ f, (setUserPages code data m pt).physMem f =
      if n ≤ f ∧ f < n + 2 * (numPagCode + numPagData) ∧ f % 2 = 0 then .used else m.physMem f := by
  simp only [numPagKernel, numPagCode, numPagData, totalPages] at hn hf hc hd
  obtain ⟨hfree, hent, hphys⟩ := foldl_setUserPage false pt code (k := numPagCode) h hn h2
    (by simp only [numPagCode, totalPages]; omega) hc
  obtain ⟨-, hent', hphys'⟩ := foldl_setUserPage true pt data (k := numPagData) hfree
    (by simp only [numPagKernel, numPagCode]; omega) (by simp only [numPagCode]; omega)
    (by simp only [numPagCode, numPagData, totalPages]; omega) hd
  unfold setUserPages
  refine ⟨fun pt' page hp => ?_, fun f => ?_⟩
  · rw [hent' pt' page hp, hent pt' page hp]
  · rw [hphys' f, hphys f]
    simp only [numPagCode, numPagData]
    grind

theorem guardPage_entry (m : Mm) {page page' pt : Nat} (hp : page < totalPages) (hp' : page' < totalPages)
    (hpt : pt < nrTasks) : (m.guardPage page).entry pt page' =
      if page' = page then { m.entry pt page' with present := false } else m.entry pt page' := by
  have key : ∀ k, ((List.range k).foldl (fun m j => m.setEntry j page { m.entry j page with present := false })
      m).entry pt page' =
      if page' = page ∧ pt < k then { m.entry pt page' with present := false } else m.entry pt page' := by
    intro k
    induction k with
    | zero => simp
    | succ k ih =>
      rw [List.range_succ, List.foldl_append, List.foldl_cons, List.foldl_nil, setEntry_entry_lt _ _ hp hp']
      by_cases hk : pt = k ∧ page' = page
      · obtain ⟨rfl, rfl⟩ := hk
        rw [ih]; simp
      · rw [if_neg hk, ih]
        by_cases he : page' = page ∧ pt < k
        · rw [if_pos he, if_pos (by omega)]
        · rw [if_neg he, if_neg (by omega)]
  rw [guardPage, key]
  simp [hpt]

theorem initTablePages_entry (m : Mm) {pt page : Nat} (hpt : pt < nrTasks) (hp : page < totalPages) :
    m.initTablePages.entry pt page = kernelEntry page := by
  simp only [nrTasks, totalPages] at hpt hp
  simp only [entry, initTablePages, totalPages, nrTasks]
  rw [if_pos (by omega), Nat.mul_add_mod_of_lt hp]

theorem initTablePages_behind (m : Mm) {k : Nat} (h : ¬ k < nrTasks * totalPages) :
    m.initTablePages.pagusrTable k = m.pagusrTable k := if_neg h

end Mm

/-! ## Releasing and sharing pages -/

/-- `free_frame` of the frame behind the page, then `del_ss_pag`. -/
def releasePage (pt : Nat) (m : Mm) (page : Nat) : Mm := (m.freeFrame (m.getFrame pt page)).delSsPag pt page

def sharePage (processPT parentPT : Nat) (m : Mm) (page : Nat) : Mm :=
  m.setSsPag processPT page (m.getFrame parentPT page)

open Mm

section
variable {pt : Nat}

theorem releasePage_entry (m : Mm) {pt page pt' page' : Nat} (hp : page < totalPages) (hp' : page' < totalPages) :
    (releasePage pt m page).entry pt' page' = if pt' = pt ∧ page' = page then .zero else m.entry pt' page' := by
  rw [releasePage, delSsPag, setEntry_entry_lt _ _ hp hp', freeFrame_entry]

theorem releasePage_phys (m : Mm) (pt page f : Nat) : (releasePage pt m page).physMem f =
    if f = (m.entry pt page).pbaseAddr ∧ numPagKernel < f ∧ f < totalPages then .free else m.physMem f := by
  rw [releasePage, delSsPag_physMem, freeFrame_physMem, getFrame]
  refine if_congr ⟨?_, ?_⟩ rfl rfl
  · rintro ⟨rfl, h⟩; exact ⟨rfl, h⟩
  · rintro ⟨rfl, h⟩; exact ⟨rfl, h⟩

theorem sharePage_entry (m : Mm) (processPT parentPT : Nat) {page pt' page' : Nat} (hp : page < totalPages)
    (hp' : page' < totalPages) : (sharePage processPT parentPT m page).entry pt' page' =
      if pt' = processPT ∧ page' = page then
        { present := true, rw := true, user := true, pbaseAddr := frameBits (m.getFrame parentPT page) }
      else m.entry pt' page' := by
  rw [sharePage, setSsPag, setEntry_entry_lt _ _ hp hp']

theorem foldl_sharePage (processPT parentPT base : Nat) (m : Mm) : ∀ {n : Nat}, base + n ≤ totalPages →
    let m' := (List.range n).foldl (fun m pag => sharePage processPT parentPT m (base + pag)) m
    (∀ pt' page, page < totalPages → m'.entry pt' page =
      if pt' = processPT ∧ base ≤ page ∧ page < base + n then
        { present := true, rw := true, user := true, pbaseAddr := frameBits (m.getFrame parentPT page) }
      else m.entry pt' page) ∧ m'.physMem = m.physMem
  | 0, _ => ⟨fun pt' page _ => by rw [if_neg (by omega)]; rfl, rfl⟩
  | n + 1, hn => by
    obtain ⟨hent, hphys⟩ := foldl_sharePage processPT parentPT base m (n := n) (by omega)
    dsimp only at hent hphys ⊢
    rw [List.range_succ, List.foldl_append, List.foldl_cons, List.foldl_nil]
    generalize (List.range n).foldl (fun m pag => sharePage processPT parentPT m (base + pag)) m = m1 at hent hphys
    refine ⟨fun pt' page hp => ?_, hphys⟩
    have hsrc : m1.getFrame parentPT (base + n) = m.getFrame parentPT (base + n) := by
      rw [getFrame, hent parentPT _ (by omega), if_neg (by omega), getFrame]
    rw [sharePage_entry _ _ _ (by omega) hp, hent pt' page hp, hsrc]
    grind

end

theorem foldl_ram {α : Type} {f : Mm → α → Mm} (h : ∀ m x, (f m x).ram = m.ram) (l : List α) (m : Mm) :
    (l.foldl f m).ram = m.ram := by
  induction l generalizing m with
  | nil => rfl
  | cons x l ih => rw [List.foldl_cons, ih, h]

theorem foldlM_physMem {α : Type} {f : Mm → α → Option Mm} (hf : ∀ m x m', f m x = some m' → m'.physMem = m.physMem)
    {l : List α} {m m' : Mm} (h : l.foldlM f m = some m') : m'.physMem = m.physMem := by
  induction l generalizing m with
  | nil =>
    cases h
    rfl
  | cons x l ih =>
    rw [List.foldlM_cons] at h
    obtain ⟨m₁, h₁, h⟩ := Option.bind_eq_some_iff.mp h
    exact (ih h).trans (hf m x m₁ h₁)

/-! ## Frames for a row of pages -/

/-- From `m` to `m'` the `n` places from `k₀` on in the array of tables got the frames `fr 0`, `fr 1`, …, which were
free. -/
structure Grown (m m' : Mm) (k₀ n : Nat) (fr : Nat → Nat) : Prop where
  cand : ∀ k < n, fr k ∈ candidates
  free : ∀ k < n, m.physMem (fr k) = .free
  inj : ∀ j < n, ∀ k < n, fr j = fr k → j = k
  table : ∀ k, m'.pagusrTable k =
    if k₀ ≤ k ∧ k < k₀ + n then { present := true, rw := true, user := true, pbaseAddr := fr (k - k₀) }
    else m.pagusrTable k
  phys : ∀ f, m'.physMem f = if ∃ k < n, fr k = f then .used else m.physMem f
  count : m'.freeCount + n = m.freeCount
  ram : m'.ram = m.ram

section
variable {m m' : Mm} {k₀ n : Nat} {fr : Nat → Nat}

theorem setEntry_table (m : Mm) (pt page k : Nat) (e : PageTableEntry) :
    (m.setEntry pt page e).pagusrTable k = if k = pt * totalPages + page then e else m.pagusrTable k :=
  Function.update_apply ..

theorem Grown.nil (m : Mm) (k₀ : Nat) (fr : Nat → Nat) : Grown m m k₀ 0 fr where
  cand _ hk := absurd hk (Nat.not_lt_zero _)
  free _ hk := absurd hk (Nat.not_lt_zero _)
  inj _ hj := absurd hj (Nat.not_lt_zero _)
  table k := by rw [if_neg (by omega)]
  phys f := by rw [if_neg (by simp)]
  count := rfl
  ram := rfl

theorem Grown.same (h : Grown m m' k₀ 0 fr) : m'.pagusrTable = m.pagusrTable ∧ m'.physMem = m.physMem := by
  constructor
  · funext k
    rw [h.table k, if_neg (by omega)]
  · funext f
    rw [h.phys f, if_neg (by simp)]

theorem Grown.snoc (h : Grown m m' k₀ n fr) {pt page f : Nat} (hk : pt * totalPages + page = k₀ + n)
    (hf : f ∈ candidates) (hfree : m'.physMem f = .free) :
    Grown m ((m'.setFrame f .used).setSsPag pt page f) k₀ (n + 1) (fun k => if k = n then f else fr k) := by
  have hfm : m.physMem f = .free ∧ ∀ k < n, fr k ≠ f := by
    rw [h.phys f] at hfree
    split at hfree
    · cases hfree
    · rename_i hn
      exact ⟨hfree, fun k hk e => hn ⟨k, hk, e⟩⟩
  have hbits : frameBits f = f := frameBits_natCast (by have := mem_candidates.mp hf; simp only [totalPages] at this; omega)
  refine ⟨fun k hkn => ?_, fun k hkn => ?_, fun i hi j hj e => ?_, fun k => ?_, fun g => ?_, ?_, h.ram⟩
  · split
    · exact hf
    · exact h.cand k (by omega)
  · split
    · exact hfm.1
    · exact h.free k (by omega)
  · split at e <;> split at e
    · omega
    · exact absurd e.symm (hfm.2 j (by omega))
    · exact absurd e (hfm.2 i (by omega))
    · exact h.inj i (by omega) j (by omega) e
  · rw [setSsPag, setEntry_table, hk, hbits]
    by_cases e : k = k₀ + n
    · subst e
      rw [if_pos rfl, if_pos (by omega)]
      simp
    · rw [if_neg e, show (m'.setFrame f .used).pagusrTable = m'.pagusrTable from rfl, h.table k]
      by_cases hin : k₀ ≤ k ∧ k < k₀ + n
      · rw [if_pos hin, if_pos (by omega), if_neg (by omega)]
      · rw [if_neg hin, if_neg (by omega)]
  · rw [setSsPag_physMem, setFrame_physMem, h.phys g]
    by_cases e : g = f
    · subst e
      rw [if_pos rfl, if_pos ⟨n, by omega, if_pos rfl⟩]
    · rw [if_neg e]
      refine if_congr ⟨fun ⟨k, hk, e'⟩ => ⟨k, by omega, ?_⟩, fun ⟨k, hk, e'⟩ => ⟨k, ?_, ?_⟩⟩ rfl rfl
      · rw [if_neg (by omega)]
        exact e'
      · have : k ≠ n := fun ek => e (by rw [if_pos ek] at e'; exact e'.symm)
        omega
      · rwa [if_neg (fun ek => e (by rw [if_pos ek] at e'; exact e'.symm))] at e'
  · have := h.count
    have := freeCount_alloc hf hfree
    change (m'.setFrame f .used).freeCount + (n + 1) = m.freeCount
    omega

theorem Grown.release (h : Grown m m' k₀ (n + 1) fr) {pt page : Nat} (hk : pt * totalPages + page = k₀ + n)
    (hzero : m.pagusrTable (k₀ + n) = .zero) (hfr : numPagKernel < fr n) :
    Grown m (releasePage pt m' page) k₀ n fr := by
  have hlt := (mem_candidates.mp (h.cand n (by omega))).2.1
  have hentry : m'.entry pt page = { present := true, rw := true, user := true, pbaseAddr := fr n } := by
    rw [entry, hk, h.table, if_pos (by omega), Nat.add_sub_cancel_left]
  have hphys : ∀ g, (releasePage pt m' page).physMem g = if ∃ k < n, fr k = g then .used else m.physMem g := by
    intro g
    rw [releasePage_phys, hentry, h.phys g]
    by_cases e : g = fr n
    · subst e
      rw [if_pos ⟨rfl, hfr, hlt⟩, if_neg]
      · exact (h.free n (by omega)).symm
      · intro ⟨k, hk, e⟩
        have := h.inj k (by omega) n (by omega) e
        omega
    · rw [if_neg fun e' => e e'.1]
      refine if_congr ⟨fun ⟨k, hk, e'⟩ => ⟨k, ?_, e'⟩, fun ⟨k, hk, e'⟩ => ⟨k, by omega, e'⟩⟩ rfl rfl
      have : k ≠ n := fun ek => e (by rw [← e', ek])
      omega
  refine ⟨fun k hkn => h.cand k (by omega), fun k hkn => h.free k (by omega),
    fun i hi j hj => h.inj i (by omega) j (by omega), fun k => ?_, hphys, ?_, ?_⟩
  · rw [releasePage, delSsPag, setEntry_table, hk]
    by_cases e : k = k₀ + n
    · rw [if_pos e, if_neg (by omega), e, hzero]
    · rw [if_neg e, show (m'.freeFrame (m'.getFrame pt page)).pagusrTable = m'.pagusrTable by unfold freeFrame; split <;> rfl,
        h.table k]
      by_cases hin : k₀ ≤ k ∧ k < k₀ + n
      · rw [if_pos hin, if_pos (by omega)]
      · rw [if_neg hin, if_neg (by omega)]
  · have hused : m'.physMem (fr n) = .used := by rw [h.phys, if_pos ⟨n, by omega, rfl⟩]
    have hfree : (releasePage pt m' page).physMem (fr n) = .free := by
      rw [releasePage_phys, hentry, if_pos ⟨rfl, hfr, hlt⟩]
    have hback : ((releasePage pt m' page).setFrame (fr n) .used).freeCount = m'.freeCount := by
      unfold freeCount
      refine List.countP_congr fun g _ => ?_
      rw [setFrame_physMem, releasePage_phys, hentry]
      by_cases e : g = fr n
      · simp [e, hused]
      · simp [e]
    have := freeCount_alloc (h.cand n (by omega)) hfree
    have := h.count
    omega
  · rw [← h.ram]
    unfold releasePage delSsPag freeFrame
    split <;> rfl

def cleared (m : Mm) (k₀ n : Nat) : Mm :=
  { m with pagusrTable := fun k => if k₀ ≤ k ∧ k < k₀ + n then .zero else m.pagusrTable k }

theorem Grown.cleared (h : Grown m m' k₀ n fr) : Grown (cleared m k₀ n) m' k₀ n fr :=
  ⟨h.cand, h.free, h.inj, fun k => by
    rw [h.table k]
    split
    · rfl
    · rename_i hn
      exact (if_neg hn).symm, h.phys, h.count, h.ram⟩

theorem Grown.entry {pt base : Nat} (h : Grown m m' (pt * totalPages + base) n fr) (hlt : base + n ≤ totalPages)
    (pt' : Nat) {page : Nat} (hp : page < totalPages) : m'.entry pt' page =
      if pt' = pt ∧ base ≤ page ∧ page < base + n then
        { present := true, rw := true, user := true, pbaseAddr := fr (page - base) }
      else m.entry pt' page := by
  rw [Mm.entry, h.table]
  have hiff : pt * totalPages + base ≤ pt' * totalPages + page ∧ pt' * totalPages + page < pt * totalPages + base + n ↔
      pt' = pt ∧ base ≤ page ∧ page < base + n := by
    simp only [totalPages] at *
    omega
  by_cases hin : pt' = pt ∧ base ≤ page ∧ page < base + n
  · rw [if_pos (hiff.mpr hin), if_pos hin, hin.1]
    congr 2
    omega
  · rw [if_neg fun e => hin (hiff.mp e), if_neg hin]
    rfl

end

/-! ## Where the tables are written -/

/-- The entries whose place in the array of tables is not in `K` are the same. -/
def Touches (K : Nat → Prop) (m m' : Mm) : Prop := ∀ k, ¬ K k → m'.pagusrTable k = m.pagusrTable k

section
variable {K : Nat → Prop} {m m' m'' : Mm} {pt : Nat}

theorem Touches.refl (K : Nat → Prop) (m : Mm) : Touches K m m := fun _ _ => rfl

theorem Touches.trans (h : Touches K m m') (h' : Touches K m' m'') : Touches K m m'' := fun k hk =>
  (h' k hk).trans (h k hk)

theorem touches_setEntry (m : Mm) {page : Nat} (e : PageTableEntry) (h : K (pt * totalPages + page)) :
    Touches K m (m.setEntry pt page e) := fun k hk =>
  Function.update_of_ne (fun (e : k = pt * totalPages + page) => hk (e ▸ h)) _ _

theorem touches_freeFrame (m : Mm) (f : Nat) : Touches K m (m.freeFrame f) := by
  unfold freeFrame
  split <;> exact fun _ _ => rfl

theorem touches_allocFrame (m : Mm) : Touches K m m.allocFrame.2 := by
  rcases allocFrame_cases m with ⟨f, -, -, e⟩ | ⟨-, e⟩ <;> rw [e] <;> exact fun _ _ => rfl

theorem touches_setSsPag (m : Mm) {page : Nat} (f : Int) (h : K (pt * totalPages + page)) :
    Touches K m (m.setSsPag pt page f) := touches_setEntry m _ h

theorem touches_releasePage (m : Mm) {page : Nat} (h : K (pt * totalPages + page)) :
    Touches K m (releasePage pt m page) := (touches_freeFrame m _).trans (touches_setEntry _ _ h)

theorem touches_foldl {α : Type} {f : Mm → α → Mm} : ∀ {l : List α} {m : Mm}, (∀ x ∈ l, ∀ m, Touches K m (f m x)) →
    Touches K m (l.foldl f m)
  | [], m, _ => .refl K m
  | x :: _, m, h =>
    (h x List.mem_cons_self m).trans (touches_foldl fun y hy => h y (List.mem_cons_of_mem _ hy))

theorem touches_foldlM {α : Type} {f : Mm → α → Option Mm} : ∀ {l : List α} {m m' : Mm},
    (∀ x ∈ l, ∀ m m', f m x = some m' → Touches K m m') → l.foldlM f m = some m' → Touches K m m'
  | [], m, m', _, h => by cases h; exact .refl K m
  | x :: l, m, m', hf, h => by
    rw [List.foldlM_cons] at h
    obtain ⟨m1, h1, h⟩ := Option.bind_eq_some_iff.mp h
    exact (hf x List.mem_cons_self m m1 h1).trans (touches_foldlM (fun y hy => hf y (List.mem_cons_of_mem _ hy)) h)

end

/-! ## Copying through a window -/

/-- From `m` to `m'` the frame `src x` was copied to `dst x` for each `x` of `l`, through the page `win x` of the
table `pt`, which is not mapped any more. -/
structure Copied {α : Type} (m m' : Mm) (pt : Nat) (l : List α) (src dst win : α → Nat) : Prop where
  table : ∀ k, m'.pagusrTable k = if ∃ x ∈ l, k = pt * totalPages + win x then .zero else m.pagusrTable k
  phys : m'.physMem = m.physMem
  copy : ∀ x ∈ l, m'.ram (dst x) = m.ram (src x)
  rest : ∀ f, (∀ x ∈ l, f ≠ dst x) → m'.ram f = m.ram f

section
variable {α : Type} {m : Mm} {pt : Nat} {src dst win : α → Nat}

theorem copy_round {page w : Nat} (frame : Int) (hp : page < totalPages) (hw : w < totalPages) (hne : page ≠ w)
    (h : (m.entry pt page).present = true) :
    (((m.setSsPag pt w frame).translate pt page).bind fun s => ((m.setSsPag pt w frame).translate pt w).bind fun d =>
      some (((m.setSsPag pt w frame).copyFrame s d).delSsPag pt w)) =
      some ((m.copyFrame (m.getFrame pt page) (frameBits frame)).delSsPag pt w) := by
  have h1 : (m.setSsPag pt w frame).translate pt page = some (m.getFrame pt page) := by
    have he : (m.setSsPag pt w frame).entry pt page = m.entry pt page := by
      rw [setSsPag, setEntry_entry_lt _ _ hw hp, if_neg fun e => hne e.2]
    rw [translate_of_present hp (by rw [he]; exact h), he, getFrame]
  have h2 : (m.setSsPag pt w frame).translate pt w = some (frameBits frame) := by
    have he : (m.setSsPag pt w frame).entry pt w =
        { present := true, rw := true, user := true, pbaseAddr := frameBits frame } := by
      rw [setSsPag, setEntry_entry_lt _ _ hw hw, if_pos ⟨rfl, rfl⟩]
    rw [translate_of_present hw (by rw [he]), he]
  rw [h1, h2]
  simp only [Option.bind_some, delSsPag, setSsPag, setEntry, copyFrame, Function.update_idem]

theorem foldlM_copied {K : Nat → Prop} {f : Mm → α → Option Mm} : ∀ {l : List α} {m : Mm},
    (∀ x ∈ l, K (pt * totalPages + win x)) →
    (∀ x ∈ l, ∀ m₁, Touches K m m₁ → f m₁ x = some ((m₁.copyFrame (src x) (dst x)).delSsPag pt (win x))) →
    (l.map dst).Nodup → (∀ x ∈ l, ∀ y ∈ l, src x ≠ dst y) →
    ∃ m', l.foldlM f m = some m' ∧ Copied m m' pt l src dst win
  | [], m, _, _, _, _ => ⟨m, rfl, fun k => (if_neg (by simp)).symm, rfl, by simp, fun _ _ => rfl⟩
  | x :: l, m, hK, hf, hnd, hsd => by
    obtain ⟨hx, hnd⟩ := List.nodup_cons.mp hnd
    have ht : Touches K m ((m.copyFrame (src x) (dst x)).delSsPag pt (win x)) :=
      touches_setEntry (m.copyFrame (src x) (dst x)) _ (hK x List.mem_cons_self)
    obtain ⟨m', hm', hc⟩ := foldlM_copied (fun y hy => hK y (List.mem_cons_of_mem _ hy))
      (fun y hy m₁ h₁ => hf y (List.mem_cons_of_mem _ hy) m₁ (ht.trans h₁)) hnd
      fun y hy z hz => hsd y (List.mem_cons_of_mem _ hy) z (List.mem_cons_of_mem _ hz)
    have hram : ∀ g, ((m.copyFrame (src x) (dst x)).delSsPag pt (win x)).ram g =
        if g = dst x then m.ram (src x) else m.ram g := fun g => Function.update_apply ..
    refine ⟨m', ?_, fun k => ?_, hc.phys, fun y hy => ?_, fun g hg => ?_⟩
    · rw [List.foldlM_cons, hf x List.mem_cons_self m (.refl K m)]
      exact hm'
    · rw [hc.table k, delSsPag, setEntry_table]
      simp only [List.mem_cons, exists_eq_or_imp, ite_or]
      by_cases hk : k = pt * totalPages + win x
      · simp only [hk, if_true, ite_self]
      · simp only [hk, if_false]
        rfl
    · rcases List.mem_cons.mp hy with rfl | hy
      · rw [hc.rest (dst y) fun z hz e => hx (by rw [e]; exact List.mem_map_of_mem hz), hram, if_pos rfl]
      · rw [hc.copy y hy, hram, if_neg (hsd y (List.mem_cons_of_mem _ hy) x List.mem_cons_self)]
    · rw [hc.rest g fun z hz => hg z (List.mem_cons_of_mem _ hz), hram, if_neg (hg x List.mem_cons_self)]

end

end ZeosSOA
