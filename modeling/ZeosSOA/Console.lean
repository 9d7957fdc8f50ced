import ZeosSOA.Copy

/-!
# io.c and devices.c: the console

The screen of both kernels has 80 columns and 25 rows; the one of ZeOSSysenter has colours.
`printc` also writes each byte to a port, and so `port` is the sequence of its calls.
-/

namespace ZeosSOA

abbrev numColumns : Nat := 80
abbrev numRows : Nat := 25

structure Console where
  x : UInt8
  y : UInt8
  /-- The words from 0xb8000 on. -/
  screen : Nat → UInt16
  /-- What has been written to the port 0xe9. -/
  port : List UInt8

namespace Console

def nextRow (y : UInt8) : UInt8 := .ofNat ((y.toNat + 1) % numRows)

/-- The word of a byte on the screen, `attr` being the bits of the colours. -/
def word (attr : UInt32) (c : UInt8) : UInt16 := (c.toUInt32 ||| attr).toUInt16

def printc (attr : UInt32) (k : Console) (c : UInt8) : Console :=
  let k := { k with port := k.port ++ [c] }
  if c = 10 then { k with x := 0, y := nextRow k.y }
  else
    let ch := word attr c
    let k := { k with screen := Function.update k.screen (k.y.toNat * numColumns + k.x.toNat) ch, x := k.x + 1 }
    if k.x.toNat ≥ numColumns then { k with x := 0, y := nextRow k.y } else k

/-! ## The screen as one row of cells -/

/-- A position in the cells of the screen, and what is in them. -/
structure Cells where
  pos : Nat
  screen : Nat → UInt16

/-- A newline goes to the start of the next row, and every other byte is written where the position is; after the last
cell comes the first. -/
def Cells.put (cell : UInt8 → UInt16) (s : Cells) (c : UInt8) : Cells :=
  if c = 10 then { s with pos := (s.pos / numColumns + 1) * numColumns % (numRows * numColumns) }
  else { pos := (s.pos + 1) % (numRows * numColumns), screen := Function.update s.screen s.pos (cell c) }

def cells (k : Console) : Cells := ⟨numColumns * k.y.toNat + k.x.toNat, k.screen⟩

/-- The cursor is on the screen. -/
def OnScreen (k : Console) : Prop := k.x.toNat < numColumns ∧ k.y.toNat < numRows

instance (k : Console) : Decidable k.OnScreen := inferInstanceAs (Decidable (_ ∧ _))

section
variable {k : Console}

theorem nextRow_toNat (y : UInt8) : (nextRow y).toNat = (y.toNat + 1) % numRows := by
  have : (y.toNat + 1) % numRows < 25 := Nat.mod_lt _ (by decide)
  rw [nextRow, UInt8.toNat_ofNat']
  omega

@[simp] theorem printc_port (attr : UInt32) (k : Console) (c : UInt8) : (k.printc attr c).port = k.port ++ [c] := by
  unfold printc
  dsimp only
  split
  · rfl
  · split <;> rfl

/-- On the screen `printc` is the same on the row of cells. -/
theorem OnScreen.printc (h : k.OnScreen) (attr : UInt32) (c : UInt8) : (k.printc attr c).OnScreen ∧
    (k.printc attr c).cells = k.cells.put (word attr) c := by
  obtain ⟨hx, hy⟩ := h
  have hrow := nextRow_toNat k.y
  have hnext : (k.x + 1).toNat = k.x.toNat + 1 := by
    simp only [numColumns] at hx
    rw [UInt8.toNat_add, UInt8.toNat_one, Nat.mod_eq_of_lt (by omega)]
  simp only [numColumns, numRows] at *
  unfold Console.printc
  dsimp only
  split
  · rename_i hc
    refine ⟨⟨by simp, by simp only [numRows]; omega⟩, ?_⟩
    simp only [cells, Cells.put, hc, if_true, numColumns, numRows, Cells.mk.injEq, and_true]
    rw [hrow, UInt8.toNat_zero]
    omega
  · rename_i hc
    have hput : k.cells.put (word attr) c = ⟨(k.y.toNat * 80 + k.x.toNat + 1) % 2000,
        Function.update k.screen (k.y.toNat * 80 + k.x.toNat) (word attr c)⟩ := by
      rw [Cells.put, if_neg hc, cells, Nat.mul_comm numColumns]
      rfl
    rw [hput]
    split
    · rename_i hge
      simp only [numColumns] at hge
      refine ⟨⟨by simp, by simp only [numRows]; omega⟩, ?_⟩
      simp only [cells, numColumns, Cells.mk.injEq, and_true]
      rw [hrow, UInt8.toNat_zero]
      omega
    · rename_i hlt
      simp only [numColumns] at hlt
      refine ⟨⟨Nat.lt_of_not_le hlt, hy⟩, ?_⟩
      simp only [cells, numColumns, Cells.mk.injEq, and_true]
      omega

theorem OnScreen.pos_lt (h : k.OnScreen) : k.cells.pos < numRows * numColumns := by
  obtain ⟨hx, hy⟩ := h
  simp only [cells, numRows, numColumns] at *
  omega

theorem OnScreen.foldl_printc (h : k.OnScreen) (attr : UInt32) (cs : List UInt8) : (cs.foldl (Console.printc attr) k).OnScreen ∧
    (cs.foldl (Console.printc attr) k).cells = cs.foldl (Cells.put (word attr)) k.cells ∧
    (cs.foldl (Console.printc attr) k).port = k.port ++ cs := by
  induction cs generalizing k with
  | nil => exact ⟨h, rfl, (List.append_nil _).symm⟩
  | cons c cs ih =>
    obtain ⟨hon, hcells⟩ := h.printc attr c
    obtain ⟨h₁, h₂, h₃⟩ := ih hon
    refine ⟨h₁, ?_, ?_⟩
    · rw [List.foldl_cons, h₂, hcells, List.foldl_cons]
    · rw [List.foldl_cons, h₃, printc_port, List.append_assoc, List.singleton_append]

end

end Console

/-! ## Printing a buffer -/

section
variable {κ : Type} (printc : κ → UInt8 → κ)

/-- `sys_write_console`. -/
def writeConsole (k : κ) (buffer : Nat → UInt8) (size : Nat) : Nat × κ :=
  (size, (List.range size).foldl (fun k i => printc k (buffer i)) k)

theorem writeConsole_eq_foldl {buffer : Nat → UInt8} {bs : List UInt8} (h : ∀ i (hi : i < bs.length), buffer i = bs[i])
    (k : κ) : writeConsole printc k buffer bs.length = (bs.length, bs.foldl printc k) := by
  have hmap : (List.range bs.length).map buffer = bs :=
    List.ext_getElem (by simp) fun i _ hi => by rw [List.getElem_map, List.getElem_range, h i hi]
  rw [writeConsole, ← List.foldl_map, hmap]

theorem copied_printed {mem : UInt32 → Option UInt8} {len : Nat} {p : UInt32} {bs : List UInt8} (hs : Stored mem p bs)
    (hfit : bs.length ≤ len) (hlen : len < 2 ^ 32) (b : Nat → UInt8) :
    ∃ b', copyFromUser (toArray mem len) b p 0 bs.length = some (0, b') ∧
      ∀ k, writeConsole printc k b' bs.length = (bs.length, bs.foldl printc k) := by
  obtain ⟨b', hcopy, -, hnew⟩ := copyBytes_toArray (b := b) (q := 0) hs (by simpa using hfit) hlen
  refine ⟨b', ?_, writeConsole_eq_foldl printc fun i hi => ?_⟩
  · rw [copyFromUser_toArray, hcopy]
    rfl
  · simpa using hnew i hi

end

end ZeosSOA
