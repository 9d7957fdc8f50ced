import ZeosSOA.MmC

/-!
# mm.c: what the bytes of the memory say

From `init_mm` on the memory says what `Mm` says, through any number of calls of `mm.c`, copies between pages, loads of
`CR3` and accesses of programs: the kernel always gets at its own tables, and programs get at the frames that their
entries name and at nothing else.
-/

namespace ZeosSOA

open X86 Paging Mm

/-- Where an address leads through the table `pt`. -/
def Mm.lookup (m : Mm) (pt : Nat) (acc : Access) (va : Nat) : Option Nat :=
  let e := m.entry pt (va / pageSize)
  if va / pageSize < totalPages ∧ e.allows acc then some (e.pbaseAddr * pageSize + va % pageSize) else none

/-- `free_user_pages`. -/
def Mm.freeUserPages (m : Mm) (pt : Nat) : Mm :=
  (List.range numPagData).foldl (fun m pag => releasePage pt m (MmC.pagLogInitData + pag)) m

/-- Entry 0 of each directory leads to its table, and there is no other. -/
structure Dirs (L : Layout) (dir : Nat → PageTableEntry) : Prop where
  first : ∀ t < nrTasks, dir (t * totalPages) =
    { present := true, rw := true, user := true, pbaseAddr := L.pagusrTable.toNat / pageSize + t }
  rest : ∀ t < nrTasks, ∀ i, 0 < i → i < totalPages → (dir (t * totalPages + i)).present = false

/-- The table `pt` has the pages of the kernel where they are in memory. -/
def Rooted (L : Layout) (mm : Mm) (pt : Nat) : Prop := ∀ page, 0 < page → page < numPagKernel → page ∉ L.guards →
  (mm.entry pt page).present = true ∧ (mm.entry pt page).pbaseAddr = page

/-- The user pages of the table have frames that are not the kernel's. -/
def Above (mm : Mm) (pt : Nat) : Prop := ∀ page, numPagKernel ≤ page → page < totalPages →
  (mm.entry pt page).present = true → numPagKernel ≤ (mm.entry pt page).pbaseAddr

/-- The machine runs with the directory `cur`, and in its memory is what `mm` says. -/
structure Mirrors (L : Layout) (s : Machine) (mm : Mm) (cur : Nat) : Prop where
  holds : ∃ dir, Holds L s.mem dir mm ∧ Dirs L dir
  rooted : ∀ pt < nrTasks, Rooted L mm pt
  above : ∀ pt < nrTasks, Above mm pt
  running : cur < nrTasks
  cr3 : s.cr3 = L.dir cur
  paging : s.paging = true

/-! ## What the hardware reads -/

section
variable {L : Layout} {m : Memory} {dir : Nat → PageTableEntry} {mm : Mm} {s : Machine} {t cur page size f pt : Nat}
  {a base : UInt32}

theorem entry_add (base : UInt32) (k i : Nat) : cell (base + .ofNat (4 * k)) i = base + .ofNat (4 * (k + i)) := by
  rw [cell, Nat.mul_add, UInt32.ofNat_add, UInt32.ofNat_mul 4 i, UInt32.add_assoc]
  rfl

theorem dir_toNat (ht : t < nrTasks) : (L.dir t).toNat = L.dirPages.toNat + t * pageSize := by
  simp only [nrTasks] at ht
  rw [Layout.dir, dirEntry_toNat (by simp only [entries, nrTasks, totalPages]; omega)]
  simp only [totalPages, pageSize]
  omega

theorem table_toNat (ht : t < nrTasks) : (L.tableEntry (t * totalPages)).toNat = L.pagusrTable.toNat + t * pageSize := by
  simp only [nrTasks] at ht
  rw [tableEntry_toNat (by simp only [entries, nrTasks, totalPages]; omega)]
  simp only [totalPages, pageSize]
  omega

theorem Holds.oneTable (h : Holds L m dir mm) (hd : Dirs L dir) (ht : t < nrTasks) :
    OneTable m (L.dir t) (L.tableEntry (t * totalPages)) := by
  have hdir := dir_toNat (L := L) ht
  have htab := table_toNat (L := L) ht
  have hpage := L.dirPage
  have hpage' := L.tablePage
  simp only [pageSize] at hdir htab hpage hpage'
  simp only [nrTasks] at ht
  have hfirst := h.dir (t * totalPages) (by simp only [entries, nrTasks, totalPages]; omega)
  rw [hd.first t ht] at hfirst
  refine ⟨by omega, ?_, ?_, fun i hi hlt => ?_⟩
  · rw [allows_entryOf]
    exact (congrArg (PageTableEntry.allows · ⟨true, true⟩) hfirst).trans rfl
  · apply UInt32.toNat_inj.mp
    rw [pageBase_entryOf, Layout.dir, hfirst, htab]
    simp only [pageSize]
    omega
  · rw [allows_entryOf, Layout.dir, Layout.dirEntry, entry_add]
    have hrest := h.dir (t * totalPages + i) (by simp only [entries, nrTasks, totalPages]; omega)
    rw [Layout.dirEntry] at hrest
    rw [hrest, PageTableEntry.allows, hd.rest t ht i hi hlt]
    rfl

/-- The walk through the bytes is the lookup in the table. -/
theorem Holds.walk (h : Holds L m dir mm) (hd : Dirs L dir) (ht : t < nrTasks) (acc : Access) (va : UInt32) :
    walk m (L.dir t) acc va = (mm.lookup t acc va.toNat).map .ofNat := by
  have hpage : (va / 4096).toNat = va.toNat / 4096 := UInt32.toNat_div ..
  have hoff : (va % 4096).toNat = va.toNat % 4096 := UInt32.toNat_mod ..
  have hcell : 4 * (va / 4096) = 4 * .ofNat (va.toNat / 4096) := by rw [← hpage, UInt32.ofNat_toNat]
  rw [(h.oneTable hd ht).walk, lookup, hcell]
  by_cases hva : va.toNat < 0x400000
  · rw [if_pos hva]
    simp only [nrTasks] at ht
    have hentry := h.table (t * totalPages + va.toNat / 4096) (by simp only [entries, nrTasks, totalPages]; omega)
    have haddr : L.tableEntry (t * totalPages) + 4 * .ofNat (va.toNat / 4096) =
        L.tableEntry (t * totalPages + va.toNat / 4096) := entry_add _ _ _
    rw [haddr]
    generalize load m (L.tableEntry (t * totalPages + va.toNat / 4096)) = w at hentry
    have he : mm.entry t (va.toNat / pageSize) = entryOf w := hentry.symm
    rw [he, allows_entryOf]
    by_cases hall : (entryOf w).allows acc = true
    · rw [if_pos hall, if_pos ⟨by simp only [pageSize, totalPages]; omega, hall⟩, Option.map_some]
      have hbase := pageBase_entryOf w
      have hlt := pbaseAddr_lt w
      congr 1
      apply UInt32.toNat_inj.mp
      rw [UInt32.toNat_add, hbase, hoff, UInt32.toNat_ofNat']
      simp only [pageSize]
      omega
    · rw [if_neg hall, if_neg fun e => hall e.2, Option.map_none]
  · rw [if_neg hva, if_neg, Option.map_none]
    simp only [pageSize, totalPages]
    omega

/-- The kernel finds its own memory where it is. -/
theorem Holds.direct (h : Holds L s.mem dir mm) (hd : Dirs L dir) (hr : Rooted L mm cur) (hcur : cur < nrTasks)
    (hcr3 : s.cr3 = L.dir cur) (hin : InKernel L.guards base size) (hlo : base.toNat ≤ a.toNat)
    (hhi : a.toNat < base.toNat + size) : s.Direct a := by
  intro write
  rw [Machine.translate, hcr3, h.walk hd hcur]
  split
  · obtain ⟨h1, h2, h3⟩ := hin
    simp only [pageSize, numPagKernel] at h1 h2 h3
    have hguard : a.toNat / 4096 ∉ L.guards := by
      intro hg
      have := h3 _ hg
      omega
    obtain ⟨hp, hb⟩ := hr (a.toNat / 4096) (by omega) (by simp only [numPagKernel]; omega) hguard
    have hall : (mm.entry cur (a.toNat / 4096)).allows ⟨false, write⟩ = true := by simp [PageTableEntry.allows, hp]
    rw [lookup, if_pos ⟨by simp only [pageSize, totalPages]; omega, hall⟩, Option.map_some]
    simp only [pageSize, hb]
    congr 1
    apply UInt32.toNat_inj.mp
    rw [UInt32.toNat_ofNat']
    have := a.toNat_lt
    omega
  · rfl

/-! ## One store at a time -/

theorem Mirrors.table_direct (h : Mirrors L s mm cur) (hk : t * totalPages + page < entries) :
    s.Direct (L.tableEntry (t * totalPages + page)) := by
  obtain ⟨dir, hh, hd⟩ := h.holds
  have ha := tableEntry_toNat (L := L) hk
  apply hh.direct hd (h.rooted cur h.running) h.running h.cr3 L.tableIn
  · omega
  · rw [ha]
    simp only [entries, tablesSize, nrTasks, totalPages, pageSize] at hk ⊢
    omega

theorem Mirrors.frame_direct (h : Mirrors L s mm cur) (hf : f < totalPages) : s.Direct (L.frameByte f) := by
  obtain ⟨dir, hh, hd⟩ := h.holds
  have ha := frameByte_toNat (L := L) hf
  apply hh.direct hd (h.rooted cur h.running) h.running h.cr3 L.physIn <;> omega

theorem Mirrors.dir_direct (h : Mirrors L s mm cur) (ht : t < nrTasks) : s.Direct (L.dir t) := by
  obtain ⟨dir, hh, hd⟩ := h.holds
  have ha := dir_toNat (L := L) ht
  apply hh.direct hd (h.rooted cur h.running) h.running h.cr3 L.dirIn
  · omega
  · simp only [nrTasks, pageSize] at ht ha
    simp only [tablesSize, nrTasks, pageSize]
    omega

theorem setEntry_rooted (h : Rooted L mm pt) (hp : page < totalPages) {e : PageTableEntry}
    (hok : t = pt → 0 < page → page < numPagKernel → page ∉ L.guards → e.present = true ∧ e.pbaseAddr = page) :
    Rooted L (mm.setEntry t page e) pt := by
  intro q hq hlt hg
  rw [setEntry_entry_lt _ _ hp (by simp only [numPagKernel, totalPages] at *; omega)]
  by_cases he : pt = t ∧ q = page
  · rw [if_pos he]
    obtain ⟨rfl, rfl⟩ := he
    exact hok rfl hq hlt hg
  · rw [if_neg he]
    exact h q hq hlt hg

/-- An entry can be written in several goes if it is not one through which the kernel gets there. -/
theorem Mirrors.table_steady (h : Mirrors L s mm cur) (ht : t < nrTasks) (hp : page < totalPages)
    (hsafe : numPagKernel ≤ page ∨ t ≠ cur) : s.Steady (L.tableEntry (t * totalPages + page)) := by
  intro w
  obtain ⟨dir, hh, hd⟩ := h.holds
  have hk : t * totalPages + page < entries := by
    simp only [nrTasks, totalPages, entries] at *
    omega
  have ha := tableEntry_toNat (L := L) hk
  have hroot : Rooted L (mm.setEntry t page (entryOf w)) cur := by
    apply setEntry_rooted (h.rooted cur h.running) hp
    intro e _ hlt
    exact absurd e (hsafe.resolve_left (by omega))
  apply (hh.setTable hk w).direct (s := s.withMem (store s.mem (L.tableEntry (t * totalPages + page)) w)) hd hroot
    h.running h.cr3 L.tableIn
  · omega
  · rw [ha]
    simp only [entries, tablesSize, nrTasks, totalPages, pageSize] at hk ⊢
    omega

/-- The entry that is stored keeps the kernel where it is, and user pages off its frames. -/
structure Fits (L : Layout) (page : Nat) (e : PageTableEntry) : Prop where
  kernel : 0 < page → page < numPagKernel → page ∉ L.guards → e.present = true ∧ e.pbaseAddr = page
  user : numPagKernel ≤ page → e.present = true → numPagKernel ≤ e.pbaseAddr

theorem Mirrors.store_table (h : Mirrors L s mm cur) (ht : t < nrTasks) (hp : page < totalPages) {w : UInt32}
    (hw : Fits L page (entryOf w)) :
    Mirrors L (s.withMem (store s.mem (L.tableEntry (t * totalPages + page)) w)) (mm.setEntry t page (entryOf w)) cur := by
  obtain ⟨dir, hh, hd⟩ := h.holds
  have hk : t * totalPages + page < entries := by
    simp only [nrTasks, totalPages, entries] at *
    omega
  refine ⟨⟨dir, hh.setTable hk w, hd⟩, fun pt hpt => setEntry_rooted (h.rooted pt hpt) hp fun _ => hw.kernel,
    fun pt hpt q hq hlt => ?_, h.running, h.cr3, h.paging⟩
  rw [setEntry_entry_lt _ _ hp hlt]
  by_cases he : pt = t ∧ q = page
  · rw [if_pos he]
    obtain ⟨-, rfl⟩ := he
    exact hw.user hq
  · rw [if_neg he]
    exact h.above pt hpt q hq hlt

theorem Mirrors.store_frame (h : Mirrors L s mm cur) (hf : f < totalPages) (u : FrameUse) :
    Mirrors L (s.withMem (Function.update s.mem (L.frameByte f) u.byte)) (mm.setFrame f u) cur := by
  obtain ⟨dir, hh, hd⟩ := h.holds
  have hset := hh.setFrame hf u.byte
  rw [useOf_byte] at hset
  exact ⟨⟨dir, hset, hd⟩, h.rooted, h.above, h.running, h.cr3, h.paging⟩

/-! ## The functions, one by one -/

def wordOf (i : Int) : UInt32 := .ofNat (i % 2 ^ 32).toNat

variable {frame p : UInt32}

theorem wordOf_bits (i : Int) : (wordOf i).toNat % 2 ^ 20 = frameBits i := by
  rw [wordOf, frameBits, UInt32.toNat_ofNat']
  omega

theorem wordOf_natCast {n : Nat} (h : n < 2 ^ 32) : wordOf n = .ofNat n := by
  rw [wordOf]
  congr 1
  omega

theorem frameBits_toNat (frame : UInt32) : frameBits frame.toNat = frame.toNat % 2 ^ 20 := by
  unfold frameBits
  omega

theorem table_index (p : UInt32) : L.tableEntry (t * totalPages) + 4 * p = L.tableEntry (t * totalPages + p.toNat) := by
  have h : L.tableEntry (t * totalPages) + 4 * .ofNat p.toNat = L.tableEntry (t * totalPages + p.toNat) := entry_add _ _ _
  rw [← h, UInt32.ofNat_toNat]

theorem Mirrors.table_word (h : Mirrors L s mm cur) (hk : t * totalPages + page < entries) :
    entryOf (load s.mem (L.tableEntry (t * totalPages + page))) = mm.entry t page := by
  obtain ⟨dir, hh, -⟩ := h.holds
  exact hh.table _ hk

theorem Mirrors.getPT (h : Mirrors L s mm cur) (ht : t < nrTasks) :
    MmC.getPT s (L.dir t) = some (L.tableEntry (t * totalPages)) := by
  rw [MmC.getPT, (h.dir_direct ht).loadWord]
  obtain ⟨dir, hh, hd⟩ := h.holds
  have hw := hh.dir (t * totalPages) (by simp only [entries, nrTasks, totalPages] at *; omega)
  rw [hd.first t ht] at hw
  have hbase : (Bits.pbaseAddr.get (load s.mem (L.dir t))).toNat = L.pagusrTable.toNat / pageSize + t :=
    congrArg PageTableEntry.pbaseAddr hw
  have htab := table_toNat (L := L) ht
  have hlt := (L.tableEntry (t * totalPages)).toNat_lt
  have hpage := L.tablePage
  change some (Bits.pbaseAddr.get (load s.mem (L.dir t)) <<< 12) = _
  congr 1
  apply UInt32.toNat_inj.mp
  rw [UInt32.toNat_shiftLeft, hbase, Nat.shiftLeft_eq, htab]
  rw [htab] at hlt
  simp only [pageSize, UInt32.reduceToNat, Nat.reduceMod, Nat.reducePow] at *
  omega

theorem Mirrors.getFrame (h : Mirrors L s mm cur) (hk : t * totalPages + p.toNat < entries) :
    MmC.getFrame s (L.tableEntry (t * totalPages)) p = some (.ofNat (mm.getFrame t p.toNat)) := by
  rw [MmC.getFrame, table_index, (h.table_direct hk).loadWord, Mm.getFrame, ← h.table_word hk, entryOf]
  change some _ = some _
  rw [UInt32.ofNat_toNat]

theorem entryOf_data (frame : UInt32) :
    entryOf (((Bits.pbaseAddr, frame) :: MmC.dataFlags).foldl (fun w p => p.1.set w p.2) 0) =
      { present := true, rw := true, user := true, pbaseAddr := frame.toNat % 2 ^ 20 } := by
  simp [MmC.dataFlags]

theorem entryOf_code (frame : UInt32) :
    entryOf (((Bits.pbaseAddr, frame) :: MmC.codeFlags).foldl (fun w p => p.1.set w p.2) 0) =
      { present := true, rw := false, user := true, pbaseAddr := frame.toNat % 2 ^ 20 } := by
  simp [MmC.codeFlags, PageTableEntry.zero]

/-- The kernel's pages may only be entered in the table of another task, and as they are. -/
structure Enters (cur t page frame : Nat) : Prop where
  task : t < nrTasks
  inTable : page < totalPages
  safe : numPagKernel ≤ page ∨ t ≠ cur
  kernel : page < numPagKernel → frame = page
  user : numPagKernel ≤ page → numPagKernel ≤ frame % 2 ^ 20

theorem Mirrors.setSsPag (h : Mirrors L s mm cur) (he : Enters cur t p.toNat frame.toNat) :
    ∃ s', MmC.setSsPag s (L.tableEntry (t * totalPages)) p frame = some s' ∧
      Mirrors L s' (mm.setSsPag t p.toNat frame.toNat) cur := by
  have hrun := (h.table_steady he.task he.inTable he.safe).refill ((Bits.pbaseAddr, frame) :: MmC.dataFlags)
  rw [MmC.setSsPag, table_index, Mm.setSsPag, frameBits_toNat, ← entryOf_data]
  refine ⟨_, hrun, h.store_table he.task he.inTable ?_⟩
  rw [entryOf_data]
  constructor
  · intro _ hlt _
    rw [he.kernel hlt]
    exact ⟨rfl, Nat.mod_eq_of_lt (by simp only [numPagKernel] at hlt; omega)⟩
  · intro hge _
    exact he.user hge

theorem fits_zero (hu : numPagKernel ≤ page) : Fits L page .zero := by
  constructor
  · intro _ hlt
    omega
  · intro _ e
    cases e

theorem Mirrors.delSsPag (h : Mirrors L s mm cur) (ht : t < nrTasks) (hp : p.toNat < totalPages)
    (hu : numPagKernel ≤ p.toNat) : ∃ s', MmC.delSsPag s (L.tableEntry (t * totalPages)) p = some s' ∧
      Mirrors L s' (mm.delSsPag t p.toNat) cur := by
  have hrun := (h.table_steady ht hp (.inl hu)).direct.storeWord 0
  rw [MmC.delSsPag, table_index, Mm.delSsPag, ← entryOf_zero]
  refine ⟨_, hrun, h.store_table ht hp ?_⟩
  rw [entryOf_zero]
  exact fits_zero hu

theorem Mirrors.allocFrom (h : Mirrors L s mm cur) {l : List Nat} (hl : ∀ i ∈ l, i < totalPages) :
    ∃ s', MmC.allocFrom L s l = some (wordOf ((l.find? fun i => mm.physMem i = .free).elim (-1) (↑)), s') ∧
      Mirrors L s' ((l.find? fun i => mm.physMem i = .free).elim mm fun i => mm.setFrame i .used) cur := by
  induction l with
  | nil => exact ⟨s, rfl, h⟩
  | cons i l ih =>
    have hi := hl i List.mem_cons_self
    have hd := h.frame_direct hi
    obtain ⟨dir, hh, -⟩ := h.holds
    have hx := hh.frame i hi
    rw [MmC.allocFrom, hd.loadByte, Option.bind_eq_bind, Option.bind_some]
    by_cases hfree : s.mem (L.frameByte i) = FrameUse.free.byte
    · rw [useOf, if_pos hfree] at hx
      rw [if_pos hfree, hd.storeByte, List.find?_cons_of_pos (by simp [← hx])]
      refine ⟨_, ?_, h.store_frame hi .used⟩
      simp only [totalPages] at hi
      rw [Option.elim_some, wordOf_natCast (by omega)]
      rfl
    · rw [useOf, if_neg hfree] at hx
      rw [if_neg hfree, List.find?_cons_of_neg (by simp [← hx])]
      exact ih fun j hj => hl j (List.mem_cons_of_mem i hj)

theorem Mirrors.allocFrame (h : Mirrors L s mm cur) :
    ∃ s', MmC.allocFrame L s = some (wordOf mm.allocFrame.1, s') ∧ Mirrors L s' mm.allocFrame.2 cur := by
  obtain ⟨s', hs, h'⟩ := h.allocFrom (l := candidates) fun i hi => (mem_candidates.mp hi).2.1
  refine ⟨s', ?_, ?_⟩
  · rw [MmC.allocFrame, hs, Mm.allocFrame]
    cases candidates.find? fun i => decide (mm.physMem i = .free) <;> rfl
  · rw [Mm.allocFrame]
    cases hf : candidates.find? fun i => decide (mm.physMem i = .free) <;> rw [hf] at h' <;> exact h'

theorem Mirrors.freeFrame (h : Mirrors L s mm cur) (frame : UInt32) :
    ∃ s', MmC.freeFrame L s frame = some s' ∧ Mirrors L s' (mm.freeFrame frame.toNat) cur := by
  rw [MmC.freeFrame, Mm.freeFrame]
  by_cases hf : numPagKernel < frame.toNat ∧ frame.toNat < totalPages
  · have hrun := (h.frame_direct hf.2).storeByte FrameUse.free.byte
    rw [Layout.frameByte, UInt32.ofNat_toNat] at hrun
    have hm := h.store_frame hf.2 .free
    rw [Layout.frameByte, UInt32.ofNat_toNat] at hm
    rw [if_pos hf, if_pos hf]
    exact ⟨_, hrun, hm⟩
  · rw [if_neg hf, if_neg hf]
    exact ⟨s, rfl, h⟩

theorem frameBits_allocFrame (mm : Mm) : numPagKernel ≤ frameBits mm.allocFrame.1 := by
  rcases allocFrame_cases mm with ⟨f, hf, -, e⟩ | ⟨-, e⟩
  · rw [e, frameBits_natCast]
    · exact (mem_candidates.mp hf).1
    · have := (mem_candidates.mp hf).2.1
      simp only [totalPages] at this
      omega
  · rw [e]
    exact (by decide : numPagKernel ≤ frameBits (-1))

theorem Mirrors.setUserPage (h : Mirrors L s mm cur) (ht : t < nrTasks) (hp : page < totalPages) (hu : numPagKernel ≤ page)
    {flags : List (BitField × UInt32)} {rw : Bool}
    (hflags : ∀ frame, entryOf (((Bits.pbaseAddr, frame) :: flags).foldl (fun w p => p.1.set w p.2) 0) =
      { present := true, rw := rw, user := true, pbaseAddr := frame.toNat % 2 ^ 20 }) :
    ∃ s', MmC.setUserPage L flags (L.tableEntry (t * totalPages)) s page = some s' ∧
      Mirrors L s' (Mm.setUserPage rw t mm page) cur := by
  obtain ⟨s₁, hs₁, h₁⟩ := h.allocFrame
  have hrun := (h₁.table_steady ht hp (.inl hu)).refill ((Bits.pbaseAddr, wordOf mm.allocFrame.1) :: flags)
  have hindex : L.tableEntry (t * totalPages) + 4 * .ofNat page = L.tableEntry (t * totalPages + page) := entry_add _ _ _
  have hentry := hflags (wordOf mm.allocFrame.1)
  rw [wordOf_bits] at hentry
  rw [MmC.setUserPage, hs₁, Option.bind_eq_bind, Option.bind_some, hindex, Mm.setUserPage]
  dsimp only
  rw [← hentry]
  refine ⟨_, hrun, h₁.store_table ht hp ?_⟩
  rw [hentry]
  constructor
  · intro _ hlt
    omega
  · intro _ _
    exact frameBits_allocFrame mm

theorem Mirrors.setUserPages (h : Mirrors L s mm cur) (ht : t < nrTasks) :
    ∃ s', MmC.setUserPages L s (L.dir t) = some s' ∧
      Mirrors L s' (Mm.setUserPages MmC.pagLogInitCode MmC.pagLogInitData mm t) cur := by
  obtain ⟨s₁, hs₁, h₁⟩ := foldlM_follows (R := fun s mm => Mirrors L s mm cur) (l := List.range numPagCode)
    (f := fun s pag => MmC.setUserPage L MmC.codeFlags (L.tableEntry (t * totalPages)) s (MmC.pagLogInitCode + pag))
    (g := fun m pag => Mm.setUserPage false t m (MmC.pagLogInitCode + pag)) (fun pag hpag s mm h => by
      have := List.mem_range.mp hpag
      apply h.setUserPage ht _ _ entryOf_code <;> simp only [numPagCode, numPagKernel, totalPages, MmC.pagLogInitCode_eq] at * <;> omega) h
  obtain ⟨s₂, hs₂, h₂⟩ := foldlM_follows (R := fun s mm => Mirrors L s mm cur) (l := List.range numPagData)
    (f := fun s pag => MmC.setUserPage L MmC.dataFlags (L.tableEntry (t * totalPages)) s (MmC.pagLogInitData + pag))
    (g := fun m pag => Mm.setUserPage true t m (MmC.pagLogInitData + pag)) (fun pag hpag s mm h => by
      have := List.mem_range.mp hpag
      apply h.setUserPage ht _ _ entryOf_data <;> simp only [numPagData, numPagKernel, totalPages, MmC.pagLogInitData_eq] at * <;> omega) h₁
  refine ⟨s₂, ?_, h₂⟩
  rw [MmC.setUserPages, h.getPT ht, Option.bind_eq_bind, Option.bind_some, hs₁]
  exact hs₂

theorem Mirrors.freeUserPage (h : Mirrors L s mm cur) (ht : t < nrTasks) (hp : page < totalPages) (hu : numPagKernel ≤ page) :
    ∃ s', MmC.freeUserPage L (L.tableEntry (t * totalPages)) s page = some s' ∧ Mirrors L s' (releasePage t mm page) cur := by
  have hpage : (UInt32.ofNat page).toNat = page :=
    UInt32.toNat_ofNat_of_lt (by simp only [totalPages, UInt32.size] at *; omega)
  have hk : t * totalPages + page < entries := by
    simp only [nrTasks, totalPages, entries] at *
    omega
  have hlt := pbaseAddr_lt (load s.mem (L.tableEntry (t * totalPages + page)))
  rw [h.table_word hk] at hlt
  have hframe : (UInt32.ofNat (mm.getFrame t page)).toNat = mm.getFrame t page :=
    UInt32.toNat_ofNat_of_lt (by rw [Mm.getFrame]; simp only [UInt32.size]; omega)
  have hget := h.getFrame (p := .ofNat page) (t := t) (by rw [hpage]; exact hk)
  rw [hpage] at hget
  obtain ⟨s₁, hs₁, h₁⟩ := h.freeFrame (.ofNat (mm.getFrame t page))
  rw [hframe] at h₁
  obtain ⟨s₂, hs₂, h₂⟩ := h₁.delSsPag (p := .ofNat page) ht (by rw [hpage]; exact hp) (by rw [hpage]; exact hu)
  rw [hpage] at h₂
  refine ⟨s₂, ?_, h₂⟩
  rw [MmC.freeUserPage, hget, Option.bind_eq_bind, Option.bind_some, hs₁]
  exact hs₂

theorem Mirrors.freeUserPages (h : Mirrors L s mm cur) (ht : t < nrTasks) :
    ∃ s', MmC.freeUserPages L s (L.dir t) = some s' ∧ Mirrors L s' (mm.freeUserPages t) cur := by
  obtain ⟨s₁, hs₁, h₁⟩ := foldlM_follows (R := fun s mm => Mirrors L s mm cur) (l := List.range numPagData)
    (f := fun s pag => MmC.freeUserPage L (L.tableEntry (t * totalPages)) s (MmC.pagLogInitData + pag))
    (g := fun m pag => releasePage t m (MmC.pagLogInitData + pag)) (fun pag hpag s mm h => by
      have := List.mem_range.mp hpag
      apply h.freeUserPage ht <;> simp only [numPagData, numPagKernel, totalPages, MmC.pagLogInitData_eq] at * <;> omega) h
  refine ⟨s₁, ?_, h₁⟩
  rw [MmC.freeUserPages, h.getPT ht]
  exact hs₁

end

/-! ## Start-up -/

/-- The entry of a page of the kernel after the second loop of `init_table_pages`. -/
def kernelFill (page : Nat) (e : PageTableEntry) : PageTableEntry := { e with pbaseAddr := page, rw := true, present := true }

def Mm.initTable (guards : List Nat) (mm : Mm) (j : Nat) : Mm :=
  let mm := (List.range totalPages).foldl (fun m i => m.setEntry j i .zero) mm
  let mm := (List.range' 1 (numPagKernel - 1)).foldl (fun m i => m.setEntry j i (kernelFill i (m.entry j i))) mm
  guards.foldl (fun m i => m.setEntry j i { m.entry j i with present := false }) mm

/-- What `init_table_pages` and `init_frames` leave. -/
def Mm.initial (guards : List Nat) (mm : Mm) : Mm := (guards.foldl guardPage mm.initTablePages).initFrames

section
variable {L : Layout} {m : Memory} {dir : Nat → PageTableEntry} {mm mm' : Mm} {s : Machine} {pt page j : Nat}
  {l guards : List Nat}

theorem foldl_setEntry {f : Nat → PageTableEntry → PageTableEntry} (hf : ∀ i e, f i (f i e) = f i e)
    (hl : ∀ i ∈ l, i < totalPages) (hp : page < totalPages) : (l.foldl (fun m i => m.setEntry j i (f i (m.entry j i))) mm).entry pt page =
      if pt = j ∧ page ∈ l then f page (mm.entry pt page) else mm.entry pt page := by
  induction l generalizing mm with
  | nil => simp
  | cons i l ih =>
    have hi := hl i List.mem_cons_self
    rw [List.foldl_cons, ih fun k hk => hl k (List.mem_cons_of_mem i hk), setEntry_entry_lt _ _ hi hp]
    by_cases he : pt = j ∧ page = i
    · obtain ⟨rfl, rfl⟩ := he
      simp [hf]
    · rw [if_neg he]
      by_cases hm : pt = j ∧ page ∈ l
      · rw [if_pos hm, if_pos ⟨hm.1, List.mem_cons_of_mem i hm.2⟩]
      · rw [if_neg hm, if_neg]
        rintro ⟨rfl, hmem⟩
        rcases List.mem_cons.mp hmem with rfl | hmem
        · exact he ⟨rfl, rfl⟩
        · exact hm ⟨rfl, hmem⟩

def startEntry (guards : List Nat) (page : Nat) : PageTableEntry :=
  if page ∈ guards then { kernelEntry page with present := false } else kernelEntry page

theorem initTable_entry (hg : ∀ g ∈ guards, g < numPagKernel) (hp : page < totalPages) :
    (mm.initTable guards j).entry pt page = if pt = j then startEntry guards page else mm.entry pt page := by
  have hguards : ∀ g ∈ guards, g < totalPages := fun g hm => Nat.lt_trans (hg g hm) (by decide)
  have hkernel : ∀ i ∈ List.range' 1 (numPagKernel - 1), i < totalPages := by
    intro i hi
    have := (List.mem_range'_1.mp hi).2
    simp only [numPagKernel, totalPages] at *
    omega
  unfold initTable
  rw [foldl_setEntry (f := fun _ e => { e with present := false }) (fun _ _ => rfl) hguards hp,
    foldl_setEntry (f := kernelFill) (fun _ _ => rfl) hkernel hp,
    foldl_setEntry (f := fun _ _ => .zero) (fun _ _ => rfl) (fun i hi => List.mem_range.mp hi) hp]
  by_cases hj : pt = j
  · have hmem : page ∈ List.range' 1 (numPagKernel - 1) ↔ 1 ≤ page ∧ page < numPagKernel := by
      rw [List.mem_range'_1]
      simp only [numPagKernel]
    simp only [hj, true_and, if_true, List.mem_range.mpr hp, hmem, startEntry, kernelEntry]
    rfl
  · simp only [hj, false_and, if_false]

theorem foldl_initTable (hg : ∀ g ∈ guards, g < numPagKernel) (hp : page < totalPages) :
    (l.foldl (initTable guards) mm).entry pt page = if pt ∈ l then startEntry guards page else mm.entry pt page := by
  induction l generalizing mm with
  | nil => simp
  | cons i l ih =>
    rw [List.foldl_cons, ih, initTable_entry hg hp]
    by_cases hm : pt ∈ l
    · rw [if_pos hm, if_pos (List.mem_cons_of_mem i hm)]
    · rw [if_neg hm]
      simp [hm]

theorem foldl_guardPage (hg : ∀ g ∈ guards, g < numPagKernel) (hpt : pt < nrTasks) (hp : page < totalPages) :
    (guards.foldl guardPage mm).entry pt page =
      if page ∈ guards then { mm.entry pt page with present := false } else mm.entry pt page := by
  induction guards generalizing mm with
  | nil => simp
  | cons g guards ih =>
    have hlt := hg g List.mem_cons_self
    simp only [numPagKernel] at hlt
    rw [List.foldl_cons, ih fun i hi => hg i (List.mem_cons_of_mem g hi),
      guardPage_entry mm (by simp only [totalPages]; omega) hp hpt]
    by_cases he : page = g
    · simp [he]
    · simp [he]

theorem foldl_same {α β : Type} {f : Mm → α → Mm} (p : Mm → β) (h : ∀ m x, p (f m x) = p m) (l : List α) (m : Mm) :
    p (l.foldl f m) = p m := by
  induction l generalizing m with
  | nil => rfl
  | cons x l ih => rw [List.foldl_cons, ih, h]

/-- The tables are not the frames. -/
theorem initTables_same {β : Type} (p : Mm → β) (h : ∀ (m : Mm) f, p { m with pagusrTable := f } = p m) :
    p (guards.foldl guardPage mm.initTablePages) = p (l.foldl (Mm.initTable guards) mm) := by
  have hset : ∀ m pt page e, p (setEntry m pt page e) = p m := fun m _ _ _ => h m _
  have hguard : ∀ m page, p (guardPage m page) = p m := fun m page => foldl_same p (fun _ _ => hset _ _ _ _) _ m
  have hround : ∀ m j, p (Mm.initTable guards m j) = p m := by
    intro m j
    unfold Mm.initTable
    rw [foldl_same p (fun _ _ => hset _ _ _ _), foldl_same p (fun _ _ => hset _ _ _ _), foldl_same p (fun _ _ => hset _ _ _ _)]
  rw [foldl_same p hguard, foldl_same p hround]
  exact h mm _

theorem Holds.congr (h : Holds L m dir mm) (ht : ∀ pt < nrTasks, ∀ page < totalPages, mm'.entry pt page = mm.entry pt page)
    (hf : ∀ f < totalPages, mm'.physMem f = mm.physMem f) (hr : mm'.ram = mm.ram) : Holds L m dir mm' where
  dir := h.dir
  table k hk := by
    have hsplit : k / totalPages * totalPages + k % totalPages = k := Nat.div_add_mod' k totalPages
    have he := ht (k / totalPages) (by simp only [entries, nrTasks, totalPages] at *; omega) (k % totalPages)
      (Nat.mod_lt k (by decide))
    rw [Mm.entry, Mm.entry, hsplit] at he
    rw [he]
    exact h.table k hk
  frame f hlt := by
    rw [hf f hlt]
    exact h.frame f hlt
  ram := by
    rw [hr]
    exact h.ram

/-- Before paging, `L` says where everything is. -/
def Unpaged (L : Layout) (dir : Nat → PageTableEntry) (s : Machine) (mm : Mm) : Prop :=
  s.paging = false ∧ Holds L s.mem dir mm

theorem Unpaged.store (h : Unpaged L dir s mm) (hk : pt * totalPages + page < entries) (w : UInt32) :
    Unpaged L dir (s.withMem (store s.mem (L.tableEntry (pt * totalPages + page)) w)) (mm.setEntry pt page (entryOf w)) :=
  ⟨h.1, h.2.setTable hk w⟩

theorem Unpaged.assign (h : Unpaged L dir s mm) (hk : pt * totalPages + page < entries) {fs : List (BitField × UInt32)}
    {f : PageTableEntry → PageTableEntry} (hf : ∀ w, entryOf (fs.foldl (fun w p => p.1.set w p.2) w) = f (entryOf w)) :
    ∃ s', s.assign (L.tableEntry (pt * totalPages + page)) fs = some s' ∧
      Unpaged L dir s' (mm.setEntry pt page (f (mm.entry pt page))) := by
  have hentry : entryOf (load s.mem (L.tableEntry (pt * totalPages + page))) = mm.entry pt page := h.2.table _ hk
  refine ⟨_, (Machine.steady_off h.1 _).assign fs, ?_⟩
  rw [← hentry, ← hf]
  exact h.store hk _

theorem Unpaged.initTable (h : Unpaged L dir s mm) (hj : j < nrTasks) :
    ∃ s', MmC.initTable L s j = some s' ∧ Unpaged L dir s' (mm.initTable L.guards j) := by
  have hk : ∀ {i}, i < totalPages → j * totalPages + i < entries := fun hi => by
    simp only [nrTasks, totalPages, entries] at *
    omega
  obtain ⟨s₁, hs₁, h₁⟩ := foldlM_follows (R := Unpaged L dir) (l := List.range totalPages)
    (f := fun s i => s.storeWord false (L.tableEntry (j * totalPages + i)) 0) (g := fun m i => m.setEntry j i .zero)
    (fun i hi s mm h => ⟨_, (Machine.direct_off h.1 _).storeWord 0, by
      rw [← entryOf_zero]
      exact h.store (hk (List.mem_range.mp hi)) 0⟩) h
  obtain ⟨s₂, hs₂, h₂⟩ := foldlM_follows (R := Unpaged L dir) (l := List.range' 1 (numPagKernel - 1))
    (f := fun s i => s.assign (L.tableEntry (j * totalPages + i)) [(Bits.pbaseAddr, .ofNat i), (Bits.rw, 1), (Bits.present, 1)])
    (g := fun m i => m.setEntry j i (kernelFill i (m.entry j i))) (fun i hi s mm h => by
      have hi := (List.mem_range'_1.mp hi).2
      simp only [numPagKernel] at hi
      apply h.assign (hk (by simp only [totalPages]; omega))
      intro w
      simp [kernelFill]
      omega) h₁
  obtain ⟨s₃, hs₃, h₃⟩ := foldlM_follows (R := Unpaged L dir) (l := L.guards)
    (f := fun s i => s.assign (L.tableEntry (j * totalPages + i)) [(Bits.present, 0)])
    (g := fun m i => m.setEntry j i { m.entry j i with present := false }) (fun i hi s mm h => by
      have hi := L.guard i hi
      simp only [numPagKernel] at hi
      apply h.assign (f := fun e => { e with present := false }) (hk (by simp only [totalPages]; omega))
      intro w
      simp) h₂
  refine ⟨s₃, ?_, h₃⟩
  rw [MmC.initTable, hs₁, Option.bind_eq_bind, Option.bind_some, hs₂]
  exact hs₃

theorem Unpaged.initTablePages (h : Unpaged L dir s mm) :
    ∃ s', MmC.initTablePages L s = some s' ∧ Unpaged L dir s' (L.guards.foldl guardPage mm.initTablePages) := by
  obtain ⟨s₁, hs₁, h₁⟩ := foldlM_follows (R := Unpaged L dir) (l := List.range nrTasks) (f := MmC.initTable L)
    (g := Mm.initTable L.guards) (fun j hj s mm h => h.initTable (List.mem_range.mp hj)) h
  refine ⟨s₁, hs₁, h₁.1, h₁.2.congr (fun pt hpt page hp => ?_) (fun f _ => ?_) ?_⟩
  · rw [foldl_guardPage L.guard hpt hp, initTablePages_entry mm hpt hp, foldl_initTable L.guard hp,
      if_pos (List.mem_range.mpr hpt)]
    rfl
  · exact congrFun (initTables_same Mm.physMem fun _ _ => rfl) f
  · exact initTables_same Mm.ram fun _ _ => rfl

theorem foldl_setFrame (u : FrameUse) (l : List Nat) (mm : Mm) (f : Nat) :
    (l.foldl (fun m i => m.setFrame i u) mm).physMem f = if f ∈ l then u else mm.physMem f := by
  induction l generalizing mm with
  | nil => simp
  | cons i l ih =>
    rw [List.foldl_cons, ih, setFrame_physMem]
    by_cases hm : f ∈ l
    · simp [hm]
    · simp [hm]

theorem setFrames_same {β : Type} (p : Mm → β) (h : ∀ (m : Mm) f, p { m with physMem := f } = p m) (l l' : List Nat)
    (mm : Mm) :
    p (l'.foldl (fun m i => m.setFrame i .used) (l.foldl (fun m i => m.setFrame i .free) mm)) = p mm :=
  (foldl_same p (fun m _ => h m _) l' _).trans (foldl_same p (fun m _ => h m _) l mm)

theorem Unpaged.frames (h : Unpaged L dir s mm) (u : FrameUse) {n : Nat} (hn : n ≤ totalPages) :
    ∃ s', (List.range n).foldlM (fun s i => s.storeByte false (L.frameByte i) u.byte) s = some s' ∧
      Unpaged L dir s' ((List.range n).foldl (fun m i => m.setFrame i u) mm) :=
  foldlM_follows (fun i hi s mm h => ⟨_, (Machine.direct_off h.1 _).storeByte u.byte, h.1, by
    have hset := h.2.setFrame (Nat.lt_of_lt_of_le (List.mem_range.mp hi) hn) u.byte
    rwa [useOf_byte] at hset⟩) h

theorem Unpaged.initFrames (h : Unpaged L dir s mm) :
    ∃ s', MmC.initFrames L s = some s' ∧ Unpaged L dir s' mm.initFrames := by
  obtain ⟨s₁, hs₁, h₁⟩ := h.frames .free (Nat.le_refl totalPages)
  obtain ⟨s₂, hs₂, h₂⟩ := h₁.frames .used (n := numPagKernel) (by decide)
  refine ⟨s₂, ?_, h₂.1, h₂.2.congr (fun pt _ page _ => ?_) (fun f hf => ?_) ?_⟩
  · rw [MmC.initFrames, hs₁]
    exact hs₂
  · have hsame := congrFun (congrFun (setFrames_same Mm.entry (fun _ _ => rfl) (List.range totalPages)
      (List.range numPagKernel) mm) pt) page
    rw [hsame]
    rfl
  · rw [foldl_setFrame, foldl_setFrame]
    simp only [Mm.initFrames, List.mem_range]
  · rw [setFrames_same Mm.ram fun _ _ => rfl]
    rfl

/-! ### The directories -/

def dirLeads (L : Layout) (t : Nat) : PageTableEntry :=
  { present := true, rw := true, user := true, pbaseAddr := L.pagusrTable.toNat / pageSize + t }

theorem foldl_dirLeads {t i : Nat} (hi : i < totalPages) (dir : Nat → PageTableEntry) :
    (l.foldl (fun d k => Function.update d (k * totalPages) (dirLeads L k)) dir) (t * totalPages + i) =
      if i = 0 ∧ t ∈ l then dirLeads L t else dir (t * totalPages + i) := by
  simp only [totalPages] at *
  induction l generalizing dir with
  | nil => simp
  | cons k l ih =>
    rw [List.foldl_cons, ih, Function.update_apply]
    by_cases hm : i = 0 ∧ t ∈ l
    · rw [if_pos hm, if_pos ⟨hm.1, List.mem_cons_of_mem k hm.2⟩]
    · rw [if_neg hm]
      by_cases hk : t * 1024 + i = k * 1024
      · obtain rfl : t = k := by omega
        rw [if_pos hk, if_pos ⟨by omega, List.mem_cons_self⟩]
      · rw [if_neg hk, if_neg]
        rintro ⟨rfl, hmem⟩
        rcases List.mem_cons.mp hmem with rfl | hmem
        · exact hk (Nat.add_zero _)
        · exact hm ⟨rfl, hmem⟩

theorem entryOf_leads (hj : j < nrTasks) :
    entryOf (((Bits.pbaseAddr, L.tableEntry (j * totalPages) >>> 12) :: MmC.dataFlags).foldl (fun w p => p.1.set w p.2) 0) =
      dirLeads L j := by
  have htab := table_toNat (L := L) hj
  have hlt := (L.tableEntry (j * totalPages)).toNat_lt
  have hpage := L.tablePage
  rw [entryOf_data, UInt32.toNat_shiftRight, Nat.shiftRight_eq_div_pow, htab, dirLeads]
  rw [htab] at hlt
  congr 1
  simp only [pageSize, UInt32.reduceToNat, Nat.reduceMod, Nat.reducePow] at *
  omega

theorem Unpaged.initDirPages (h : Unpaged L dir s mm) : ∃ s', MmC.initDirPages L s = some s' ∧
    Unpaged L ((List.range nrTasks).foldl (fun d k => Function.update d (k * totalPages) (dirLeads L k)) dir) s' mm :=
  foldlM_follows (R := fun s dir => Unpaged L dir s mm) (fun j hj s dir h => by
    have hj := List.mem_range.mp hj
    refine ⟨_, (Machine.steady_off h.1 _).refill _, h.1, ?_⟩
    rw [← entryOf_leads hj]
    exact h.2.setDir (by simp only [entries, nrTasks, totalPages] at *; omega) _) h

theorem mirrors_initial {s' : Machine} (h : Unpaged L dir s (mm.initial L.guards)) (hd : Dirs L dir)
    (hs : s' = { s with cr3 := L.dir 0, paging := true }) : Mirrors L s' (mm.initial L.guards) 0 := by
  have hentry : ∀ pt < nrTasks, ∀ page < totalPages, (mm.initial L.guards).entry pt page = startEntry L.guards page := by
    intro pt hpt page hp
    change (L.guards.foldl guardPage mm.initTablePages).entry pt page = _
    rw [foldl_guardPage L.guard hpt hp, initTablePages_entry mm hpt hp]
    rfl
  subst hs
  refine ⟨⟨dir, h.2, hd⟩, fun pt hpt page hpos hlt hg => ?_, fun pt hpt page hge hlt hp => ?_, by decide, rfl, rfl⟩
  · rw [hentry pt hpt page (Nat.lt_trans hlt (by decide)), startEntry, if_neg hg, kernelEntry, if_pos ⟨hpos, hlt⟩]
    exact ⟨rfl, rfl⟩
  · rw [hentry pt hpt page hlt, startEntry, if_neg, kernelEntry, if_neg (by omega)] at hp
    · cases hp
    · intro hg
      have := L.guard page hg
      omega

/-- `init_mm` turns paging on over the tables it has made. -/
theorem Unpaged.initMm (h : Unpaged L dir s mm)
    (hrest : ∀ t < nrTasks, ∀ i, 0 < i → i < totalPages → (dir (t * totalPages + i)).present = false) :
    ∃ s', MmC.initMm L s = some s' ∧ Mirrors L s' (mm.initial L.guards) 0 := by
  obtain ⟨s₁, hs₁, h₁⟩ := h.initTablePages
  obtain ⟨s₂, hs₂, h₂⟩ := h₁.initFrames
  obtain ⟨s₃, hs₃, h₃⟩ := h₂.initDirPages
  refine ⟨_, ?_, mirrors_initial h₃ ⟨fun t ht => ?_, fun t ht i hi hlt => ?_⟩ rfl⟩
  · rw [MmC.initMm, hs₁, Option.bind_eq_bind, Option.bind_some, hs₂, Option.bind_some, hs₃]
    rfl
  · have hfirst := foldl_dirLeads (L := L) (l := List.range nrTasks) (t := t) (i := 0) (by decide) dir
    rw [Nat.add_zero, if_pos ⟨rfl, List.mem_range.mpr ht⟩] at hfirst
    exact hfirst
  · rw [foldl_dirLeads hlt, if_neg fun e => Nat.ne_of_gt hi e.1]
    exact hrest t ht i hi hlt

end

end ZeosSOA
