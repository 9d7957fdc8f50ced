import ZeosSOA.Copy
import ZeosSOA.Mm
import ZeosSOA.Paging

/-!
# mm.c on the bytes of the memory

The functions of `mm.c` once more, this time as they store bits: `page_table_entry` is a word with fields, `dir_pages`,
`pagusr_table` and `phys_mem` are places in memory, and the kernel gets there through the tables it writes. What the
memory then says is the memory management of `Mm`.
-/

namespace ZeosSOA

open X86 Paging

/-! ## `page_table_entry` -/

namespace Bits

def present : BitField := ⟨0, 1, by decide⟩

def rw : BitField := ⟨1, 1, by decide⟩

def user : BitField := ⟨2, 1, by decide⟩

def pbaseAddr : BitField := ⟨12, 20, by decide⟩

end Bits

/-- What a word says as a `page_table_entry`. -/
def entryOf (w : UInt32) : PageTableEntry where
  present := Bits.present.get w = 1
  rw := Bits.rw.get w = 1
  user := Bits.user.get w = 1
  pbaseAddr := (Bits.pbaseAddr.get w).toNat

def PageTableEntry.allows (e : PageTableEntry) (acc : Access) : Bool :=
  e.present && (!acc.user || e.user && (!acc.write || e.rw))

/-- `FREE_FRAME` is 0, `USED_FRAME` is 1. -/
def FrameUse.byte : FrameUse → UInt8
  | free => 0
  | used => 1

def useOf (x : UInt8) : FrameUse := if x = FrameUse.free.byte then .free else .used

section
variable (w v : UInt32)

theorem flag_get {f : BitField} (h : f.len = 1) : decide (f.get w = 1) = w.toBitVec.getLsbD f.off := by
  have hget := f.get_toNat w
  have hbit : w.toBitVec.getLsbD f.off = w.toNat.testBit f.off := rfl
  rw [hbit, Nat.testBit_eq_decide_div_mod_eq, decide_eq_decide, ← UInt32.toNat_inj, hget, h]
  rfl

theorem allows_entryOf (acc : Access) : allows acc w = (entryOf w).allows acc := by
  simp only [allows, PageTableEntry.allows, entryOf, flag_get w (f := Bits.present) rfl, flag_get w (f := Bits.rw) rfl,
    flag_get w (f := Bits.user) rfl]
  rfl

theorem pageBase_entryOf : (pageBase w).toNat = 4096 * (entryOf w).pbaseAddr := by
  have hlt := w.toNat_lt
  have hget : (entryOf w).pbaseAddr = w.toNat / 4096 % 2 ^ 20 := Bits.pbaseAddr.get_toNat w
  rw [pageBase_toNat, hget]
  omega

theorem pbaseAddr_lt : (entryOf w).pbaseAddr < 2 ^ 20 := by
  rw [entryOf, BitField.get_toNat]
  exact Nat.mod_lt _ (by decide)

@[simp] theorem entryOf_zero : entryOf 0 = .zero := by
  simp [entryOf, BitField.get_zero, PageTableEntry.zero]

theorem flag_set {f : BitField} (h : f.len = 1) : decide (f.get (f.set w v) = 1) = decide (v.toNat % 2 = 1) := by
  rw [decide_eq_decide, ← UInt32.toNat_inj, f.get_set_toNat, h]
  rfl

@[simp] theorem entryOf_present : entryOf (Bits.present.set w v) = { entryOf w with present := v.toNat % 2 = 1 } := by
  rw [entryOf, flag_set w v rfl, BitField.get_set_apart _ _ _ _ (by decide), BitField.get_set_apart _ _ _ _ (by decide),
    BitField.get_set_apart _ _ _ _ (by decide)]
  rfl

@[simp] theorem entryOf_rw : entryOf (Bits.rw.set w v) = { entryOf w with rw := v.toNat % 2 = 1 } := by
  rw [entryOf, flag_set w v rfl, BitField.get_set_apart _ _ _ _ (by decide), BitField.get_set_apart _ _ _ _ (by decide),
    BitField.get_set_apart _ _ _ _ (by decide)]
  rfl

@[simp] theorem entryOf_user : entryOf (Bits.user.set w v) = { entryOf w with user := v.toNat % 2 = 1 } := by
  rw [entryOf, flag_set w v rfl, BitField.get_set_apart _ _ _ _ (by decide), BitField.get_set_apart _ _ _ _ (by decide),
    BitField.get_set_apart _ _ _ _ (by decide)]
  rfl

@[simp] theorem entryOf_pbaseAddr : entryOf (Bits.pbaseAddr.set w v) = { entryOf w with pbaseAddr := v.toNat % 2 ^ 20 } := by
  rw [entryOf, BitField.get_set_toNat, BitField.get_set_apart _ _ _ _ (by decide),
    BitField.get_set_apart _ _ _ _ (by decide), BitField.get_set_apart _ _ _ _ (by decide)]
  rfl

@[simp] theorem useOf_byte (u : FrameUse) : useOf u.byte = u := by cases u <;> rfl

end

/-! ## Where the arrays lie -/

/-- The bytes lie in the kernel's part of memory, behind page 0, and not in one of the pages `guards`. -/
def InKernel (guards : List Nat) (a : UInt32) (size : Nat) : Prop :=
  pageSize ≤ a.toNat ∧ a.toNat + size ≤ numPagKernel * pageSize ∧
    ∀ g ∈ guards, a.toNat + size ≤ g * pageSize ∨ (g + 1) * pageSize ≤ a.toNat

def Beside (a : UInt32) (size : Nat) (b : UInt32) (size' : Nat) : Prop :=
  a.toNat + size ≤ b.toNat ∨ b.toNat + size' ≤ a.toNat

abbrev tablesSize : Nat := nrTasks * pageSize

/-- The addresses that the linker gives to the arrays; `guards` are the pages that `init_table_pages` takes out of the
tables again. -/
structure Layout where
  dirPages : UInt32
  pagusrTable : UInt32
  physMem : UInt32
  guards : List Nat
  dirPage : dirPages.toNat % pageSize = 0
  tablePage : pagusrTable.toNat % pageSize = 0
  dirIn : InKernel guards dirPages tablesSize
  tableIn : InKernel guards pagusrTable tablesSize
  physIn : InKernel guards physMem totalPages
  dirTable : Beside dirPages tablesSize pagusrTable tablesSize
  dirPhys : Beside dirPages tablesSize physMem totalPages
  tablePhys : Beside pagusrTable tablesSize physMem totalPages
  guard : ∀ g ∈ guards, g < numPagKernel

namespace Layout

/-- The entries of `dir_pages` in a row: `dir_pages[t][i]` is number `1024 * t + i`. -/
def dirEntry (L : Layout) (k : Nat) : UInt32 := L.dirPages + .ofNat (4 * k)

def tableEntry (L : Layout) (k : Nat) : UInt32 := L.pagusrTable + .ofNat (4 * k)

def frameByte (L : Layout) (f : Nat) : UInt32 := L.physMem + .ofNat f

def dir (L : Layout) (t : Nat) : UInt32 := L.dirEntry (t * totalPages)

end Layout

abbrev entries : Nat := nrTasks * totalPages

/-- What is in memory: the entries of the directories, and the tables, the frames' states and the frames from
`NUM_PAG_KERNEL` on as in `mm`. -/
structure Holds (L : Layout) (m : Memory) (dir : Nat → PageTableEntry) (mm : Mm) : Prop where
  dir : ∀ k < entries, entryOf (load m (L.dirEntry k)) = dir k
  table : ∀ k < entries, entryOf (load m (L.tableEntry k)) = mm.pagusrTable k
  frame : ∀ f < totalPages, useOf (m (L.frameByte f)) = mm.physMem f
  ram : ∀ f, numPagKernel ≤ f → f < 2 ^ 20 → ∀ w < 1024, load m (cell (.ofNat (4096 * f)) w) = mm.ram f w

section
variable {L : Layout} {m : Memory} {dir : Nat → PageTableEntry} {mm : Mm} {k f j : Nat}

theorem dirEntry_toNat (hk : k < entries) : (L.dirEntry k).toNat = L.dirPages.toNat + 4 * k := by
  have h := L.dirIn.2.1
  simp only [entries, tablesSize, nrTasks, totalPages, pageSize, numPagKernel] at hk h
  exact offset_add (by omega)

theorem tableEntry_toNat (hk : k < entries) : (L.tableEntry k).toNat = L.pagusrTable.toNat + 4 * k := by
  have h := L.tableIn.2.1
  simp only [entries, tablesSize, nrTasks, totalPages, pageSize, numPagKernel] at hk h
  exact offset_add (by omega)

theorem frameByte_toNat (hf : f < totalPages) : (L.frameByte f).toNat = L.physMem.toNat + f := by
  have h := L.physIn.2.1
  simp only [totalPages, pageSize, numPagKernel] at hf h
  exact offset_add (by omega)

theorem frame_toNat (hf : f < 2 ^ 20) (hj : j < 1024) : (cell (.ofNat (4096 * f)) j).toNat = 4096 * f + 4 * j := by
  have hbase : (UInt32.ofNat (4096 * f)).toNat = 4096 * f := UInt32.toNat_ofNat_of_lt (by simp only [UInt32.size]; omega)
  rw [cell_toNat (by omega) hj, hbase]

theorem Layout.numbers (L : Layout) : L.dirPages.toNat + 40960 ≤ 1048576 ∧ L.pagusrTable.toNat + 40960 ≤ 1048576 ∧
    L.physMem.toNat + 1024 ≤ 1048576 ∧
    (L.dirPages.toNat + 40960 ≤ L.pagusrTable.toNat ∨ L.pagusrTable.toNat + 40960 ≤ L.dirPages.toNat) ∧
    (L.dirPages.toNat + 40960 ≤ L.physMem.toNat ∨ L.physMem.toNat + 1024 ≤ L.dirPages.toNat) ∧
    (L.pagusrTable.toNat + 40960 ≤ L.physMem.toNat ∨ L.physMem.toNat + 1024 ≤ L.pagusrTable.toNat) :=
  ⟨L.dirIn.2.1, L.tableIn.2.1, L.physIn.2.1, L.dirTable, L.dirPhys, L.tablePhys⟩

def Misses (a n : Nat) (b : UInt32) (size : Nat) : Prop := a + n ≤ b.toNat ∨ b.toNat + size ≤ a

variable {m' : Memory} {a n : Nat}

theorem dir_same (h : ChangedIn a n m m') (hd : Misses a n L.dirPages tablesSize) (hk : k < entries) :
    load m' (L.dirEntry k) = load m (L.dirEntry k) := by
  have hb := dirEntry_toNat (L := L) hk
  have hl := L.numbers.1
  simp only [entries, nrTasks, totalPages] at hk
  simp only [Misses, tablesSize, nrTasks, pageSize] at hd
  apply h.load <;> omega

theorem table_same (h : ChangedIn a n m m') (ht : Misses a n L.pagusrTable tablesSize) (hk : k < entries) :
    load m' (L.tableEntry k) = load m (L.tableEntry k) := by
  have hb := tableEntry_toNat (L := L) hk
  have hl := L.numbers.2.1
  simp only [entries, nrTasks, totalPages] at hk
  simp only [Misses, tablesSize, nrTasks, pageSize] at ht
  apply h.load <;> omega

theorem frame_same (h : ChangedIn a n m m') (hp : Misses a n L.physMem totalPages) (hf : f < totalPages) :
    m' (L.frameByte f) = m (L.frameByte f) := by
  have hb := frameByte_toNat (L := L) hf
  simp only [totalPages] at hf
  simp only [Misses, totalPages] at hp
  apply h
  omega

theorem ram_same (h : ChangedIn a n m m') (hl : a + n ≤ numPagKernel * pageSize) (hf : numPagKernel ≤ f)
    (hlt : f < 2 ^ 20) (hj : j < 1024) : load m' (cell (.ofNat (4096 * f)) j) = load m (cell (.ofNat (4096 * f)) j) := by
  have hb := frame_toNat hlt hj
  simp only [numPagKernel, pageSize] at hf hl
  apply h.load <;> omega

theorem Holds.setDir (h : Holds L m dir mm) (hk : k < entries) (w : UInt32) :
    Holds L (store m (L.dirEntry k) w) (Function.update dir k (entryOf w)) mm := by
  have ha := dirEntry_toNat (L := L) hk
  obtain ⟨hd, -, -, hdt, hdp, -⟩ := L.numbers
  simp only [entries, nrTasks, totalPages] at hk
  have hc : ChangedIn (L.dirEntry k).toNat 4 m (store m (L.dirEntry k) w) := changedIn_store (by omega)
  refine ⟨fun j hj => ?_, fun j hj => ?_, fun f hf => ?_, fun f hf hlt j hj => ?_⟩
  · by_cases hjk : j = k
    · rw [hjk, load_store, Function.update_self]
    · have hb := dirEntry_toNat (L := L) hj
      simp only [entries, nrTasks, totalPages] at hj
      rw [Function.update_of_ne hjk, hc.load (by omega) (by omega)]
      exact h.dir j hj
  · rw [table_same hc (by simp only [Misses, tablesSize, nrTasks, pageSize]; omega) hj]
    exact h.table j hj
  · rw [frame_same hc (by simp only [Misses, totalPages]; omega) hf]
    exact h.frame f hf
  · rw [ram_same hc (by simp only [numPagKernel, pageSize]; omega) hf hlt hj]
    exact h.ram f hf hlt j hj

theorem Holds.setTable (h : Holds L m dir mm) {pt page : Nat} (hk : pt * totalPages + page < entries) (w : UInt32) :
    Holds L (store m (L.tableEntry (pt * totalPages + page)) w) dir (mm.setEntry pt page (entryOf w)) := by
  have ha := tableEntry_toNat (L := L) hk
  obtain ⟨-, ht, -, hdt, -, htp⟩ := L.numbers
  generalize hkp : pt * totalPages + page = k at hk ha
  simp only [entries, nrTasks, totalPages] at hk
  have hc : ChangedIn (L.tableEntry k).toNat 4 m (store m (L.tableEntry k) w) := changedIn_store (by omega)
  refine ⟨fun j hj => ?_, fun j hj => ?_, fun f hf => ?_, fun f hf hlt j hj => ?_⟩
  · rw [dir_same hc (by simp only [Misses, tablesSize, nrTasks, pageSize]; omega) hj]
    exact h.dir j hj
  · rw [setEntry_table, hkp]
    by_cases hjk : j = k
    · rw [hjk, load_store, if_pos rfl]
    · have hb := tableEntry_toNat (L := L) hj
      simp only [entries, nrTasks, totalPages] at hj
      rw [if_neg hjk, hc.load (by omega) (by omega)]
      exact h.table j hj
  · rw [frame_same hc (by simp only [Misses, totalPages]; omega) hf]
    exact h.frame f hf
  · rw [ram_same hc (by simp only [numPagKernel, pageSize]; omega) hf hlt hj]
    exact h.ram f hf hlt j hj

theorem Holds.setFrame (h : Holds L m dir mm) (hf : f < totalPages) (x : UInt8) :
    Holds L (Function.update m (L.frameByte f) x) dir (mm.setFrame f (useOf x)) := by
  have ha := frameByte_toNat (L := L) hf
  obtain ⟨-, -, hp, -, hdp, htp⟩ := L.numbers
  simp only [totalPages] at hf
  have hc : ChangedIn (L.frameByte f).toNat 1 m (Function.update m (L.frameByte f) x) := changedIn_update
  refine ⟨fun j hj => ?_, fun j hj => ?_, fun g hg => ?_, fun g hg hlt j hj => ?_⟩
  · rw [dir_same hc (by simp only [Misses, tablesSize, nrTasks, pageSize]; omega) hj]
    exact h.dir j hj
  · rw [table_same hc (by simp only [Misses, tablesSize, nrTasks, pageSize]; omega) hj]
    exact h.table j hj
  · rw [Mm.setFrame_physMem]
    by_cases hgf : g = f
    · rw [hgf, Function.update_self, if_pos rfl]
    · have hb := frameByte_toNat (L := L) hg
      rw [if_neg hgf, hc _ (by omega)]
      exact h.frame g hg
  · rw [ram_same hc (by simp only [numPagKernel, pageSize]; omega) hg hlt hj]
    exact h.ram g hg hlt j hj

/-- Frames that programs have lie above all three arrays. -/
theorem Holds.above (h : Holds L m dir mm) (hc : ChangedIn a n m m') (ha : numPagKernel * pageSize ≤ a)
    {ram : Nat → Nat → UInt32}
    (hram : ∀ f, numPagKernel ≤ f → f < 2 ^ 20 → ∀ w < 1024, load m' (cell (.ofNat (4096 * f)) w) = ram f w) :
    Holds L m' dir { mm with ram := ram } := by
  obtain ⟨hd, ht, hp, -, -, -⟩ := L.numbers
  simp only [numPagKernel, pageSize] at ha
  refine ⟨fun j hj => ?_, fun j hj => ?_, fun f hf => ?_, hram⟩
  · rw [dir_same hc (by simp only [Misses, tablesSize, nrTasks, pageSize]; omega) hj]
    exact h.dir j hj
  · rw [table_same hc (by simp only [Misses, tablesSize, nrTasks, pageSize]; omega) hj]
    exact h.table j hj
  · rw [frame_same hc (by simp only [Misses, totalPages]; omega) hf]
    exact h.frame f hf

/-- A word goes to a frame that a program has. -/
theorem Holds.setWord (h : Holds L m dir mm) (hf : numPagKernel ≤ f) (hlt : f < 2 ^ 20) (hj : j < 1024) (v : UInt32) :
    Holds L (store m (cell (.ofNat (4096 * f)) j) v) dir
      { mm with ram := Function.update mm.ram f (Function.update (mm.ram f) j v) } := by
  have hnum := frame_toNat hlt hj
  have hc : ChangedIn (cell (.ofNat (4096 * f)) j).toNat 4 m (store m (cell (.ofNat (4096 * f)) j) v) :=
    changedIn_store (by omega)
  refine h.above hc (by simp only [numPagKernel, pageSize] at *; omega) fun g hg hglt w hw => ?_
  have hnum' := frame_toNat hglt hw
  by_cases hgf : g = f
  · subst hgf
    rw [Function.update_self]
    by_cases hwj : w = j
    · subst hwj
      rw [load_store, Function.update_self]
    · rw [Function.update_of_ne hwj, hc.load (by omega) (by omega)]
      exact h.ram g hg hglt w hw
  · rw [Function.update_of_ne hgf, hc.load (by omega) (by omega)]
    exact h.ram g hg hglt w hw

end

/-! ## The functions -/

namespace MmC

abbrev pagLogInitCode : Nat := 0x100000 >>> 12
abbrev pagLogInitData : Nat := pagLogInitCode + numPagCode

@[simp] theorem pagLogInitCode_eq : pagLogInitCode = 256 := rfl

@[simp] theorem pagLogInitData_eq : pagLogInitData = 264 := rfl

/-- The flags of a page that programs only read, and of one that they write to, in the order they are assigned in. -/
def codeFlags : List (BitField × UInt32) := [(Bits.user, 1), (Bits.present, 1)]

def dataFlags : List (BitField × UInt32) := [(Bits.user, 1), (Bits.rw, 1), (Bits.present, 1)]

/-- `get_PT` of the task with the directory `dir`. -/
def getPT (s : Machine) (dir : UInt32) : Option UInt32 := do
  let w ← s.loadWord false dir
  return Bits.pbaseAddr.get w <<< 12

def setSsPag (s : Machine) (PT page frame : UInt32) : Option Machine := do
  let s ← s.storeWord false (PT + 4 * page) 0
  s.assign (PT + 4 * page) ((Bits.pbaseAddr, frame) :: dataFlags)

def delSsPag (s : Machine) (PT logicalPage : UInt32) : Option Machine := s.storeWord false (PT + 4 * logicalPage) 0

def getFrame (s : Machine) (PT logicalPage : UInt32) : Option UInt32 := do
  let w ← s.loadWord false (PT + 4 * logicalPage)
  return Bits.pbaseAddr.get w

section
variable (L : Layout)

/-- The loop of `alloc_frame`, from the frame numbers that are left. -/
def allocFrom (s : Machine) : List Nat → Option (UInt32 × Machine)
  | [] => some (-1, s)
  | i :: is => do
    let x ← s.loadByte false (L.frameByte i)
    if x = FrameUse.free.byte then
      let s ← s.storeByte false (L.frameByte i) FrameUse.used.byte
      return (.ofNat i, s)
    else allocFrom s is

def allocFrame (s : Machine) : Option (UInt32 × Machine) := allocFrom L s Mm.candidates

def freeFrame (s : Machine) (frame : UInt32) : Option Machine :=
  if numPagKernel < frame.toNat ∧ frame.toNat < totalPages then s.storeByte false (L.physMem + frame) FrameUse.free.byte
  else some s

/-- One round of a loop of `set_user_pages`. -/
def setUserPage (flags : List (BitField × UInt32)) (processPT : UInt32) (s : Machine) (page : Nat) : Option Machine := do
  let (newPhPag, s) ← allocFrame L s
  let s ← s.storeWord false (processPT + 4 * .ofNat page) 0
  s.assign (processPT + 4 * .ofNat page) ((Bits.pbaseAddr, newPhPag) :: flags)

/-- For the task with the directory `dir`. -/
def setUserPages (s : Machine) (dir : UInt32) : Option Machine := do
  let processPT ← getPT s dir
  let s ← (List.range numPagCode).foldlM (fun s pag => setUserPage L codeFlags processPT s (pagLogInitCode + pag)) s
  (List.range numPagData).foldlM (fun s pag => setUserPage L dataFlags processPT s (pagLogInitData + pag)) s

/-- One round of the loop of `free_user_pages`. -/
def freeUserPage (processPT : UInt32) (s : Machine) (page : Nat) : Option Machine := do
  let frame ← getFrame s processPT (.ofNat page)
  let s ← freeFrame L s frame
  delSsPag s processPT (.ofNat page)

def freeUserPages (s : Machine) (dir : UInt32) : Option Machine := do
  let processPT ← getPT s dir
  (List.range numPagData).foldlM (fun s pag => freeUserPage L processPT s (pagLogInitData + pag)) s

/-! ### Start-up -/

/-- The round `j` of the loop of `init_table_pages`. -/
def initTable (s : Machine) (j : Nat) : Option Machine := do
  let s ← (List.range totalPages).foldlM (fun s i => s.storeWord false (L.tableEntry (j * totalPages + i)) 0) s
  let s ← (List.range' 1 (numPagKernel - 1)).foldlM (fun s i => s.assign (L.tableEntry (j * totalPages + i))
    [(Bits.pbaseAddr, .ofNat i), (Bits.rw, 1), (Bits.present, 1)]) s
  L.guards.foldlM (fun s i => s.assign (L.tableEntry (j * totalPages + i)) [(Bits.present, 0)]) s

def initTablePages (s : Machine) : Option Machine := (List.range nrTasks).foldlM (initTable L) s

def initFrames (s : Machine) : Option Machine := do
  let s ← (List.range totalPages).foldlM (fun s i => s.storeByte false (L.frameByte i) FrameUse.free.byte) s
  (List.range numPagKernel).foldlM (fun s i => s.storeByte false (L.frameByte i) FrameUse.used.byte) s

/-- The round `i` of the loop of `init_dir_pages`. -/
def initDir (s : Machine) (i : Nat) : Option Machine := do
  let s ← s.storeWord false (L.dir i) 0
  s.assign (L.dir i) ((Bits.pbaseAddr, L.tableEntry (i * totalPages) >>> 12) :: dataFlags)

def initDirPages (s : Machine) : Option Machine := (List.range nrTasks).foldlM (initDir L) s

/-- With `set_cr3` of the directory of `task[0]` and `set_pe_flag`. -/
def initMm (s : Machine) : Option Machine := do
  let s ← initTablePages L s
  let s ← initFrames L s
  let s ← initDirPages L s
  return { s with cr3 := L.dir 0, paging := true }

end

/-- The kernel copies from page to page through the tables. -/
def supervisor : Transfer Machine where
  load s a := s.loadByte false a
  store s a x := s.storeByte false a x

def copyData (s : Machine) (start dest : UInt32) (size : Int) : Option Machine :=
  copyWords supervisor size.toNat s start dest

end MmC

end ZeosSOA
