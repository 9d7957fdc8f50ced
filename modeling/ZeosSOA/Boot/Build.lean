import Mathlib.Algebra.GroupWithZero.Nat
import Mathlib.Algebra.Group.Int.Defs
import Mathlib.Data.List.Basic

/-!
# build.c: the boot image

The program that puts the boot sector, the system and the user program into one file, for both kernels. Its output is a
list of bytes, into which `lseek` and `write` put the sizes afterwards. Files that cannot be opened or read are left out.
-/

namespace ZeosSOA.Boot

abbrev minixHeaderLen : Nat := 32

/-- `buf`, the copy buffer. -/
abbrev bufSize : Nat := 1024

def hdr : List UInt8 := [0x01, 0x03, 0x10, 0x04, 0x20, 0x00, 0x00, 0x00]

/-- `lb[i]`, a double word of the header, is not zero. -/
def lb (buf : List UInt8) (i : Nat) : Bool := (buf.drop (4 * i)).take 4 ≠ [0, 0, 0, 0]

/-- What is left to be read of the file. -/
def minixOpen (name : String) (file : List UInt8) : Except String (List UInt8) := do
  let buf := file.take minixHeaderLen
  if buf.length ≠ minixHeaderLen then throw (name ++ ": Unable to read header")
  if buf.take hdr.length ≠ hdr ∨ lb buf 5 then throw (name ++ ": Non-Minix header")
  if lb buf 3 then throw (name ++ ": Illegal data segment")
  if lb buf 4 then throw (name ++ ": Illegal bss segment")
  if lb buf 7 then throw (name ++ ": Illegal symbol table")
  return file.drop minixHeaderLen

/-- `while (sz > 0)`: the file is copied by the buffer. -/
def copyFile (name : String) : Nat → List UInt8 → List UInt8 → Except String (List UInt8)
  | 0, _, out => return out
  | sz + 1, file, out => do
    let l := if sz + 1 > bufSize then bufSize else sz + 1
    let buf := file.take l
    if buf.length ≠ l then throw (name ++ ": Unexpected EOF")
    copyFile name (sz + 1 - l) (file.drop l) (out ++ buf)
termination_by sz => sz
decreasing_by split <;> simp only [bufSize] at * <;> omega

/-- `lseek` and `write`; a gap is filled with zeros. -/
def writeAt (out : List UInt8) (offset : Nat) (buf : List UInt8) : List UInt8 :=
  out.take offset ++ List.replicate (offset - out.length) 0 ++ buf ++ out.drop (offset + buf.length)

/-- `buf[i]` after `buf[i] = (n >> (8 * i)) & 0xff`. -/
def byteAt (n i : Nat) : UInt8 := .ofNat (n / 256 ^ i)

def length16 (n : Nat) : List UInt8 := [byteAt n 0, byteAt n 1]

/-- The fourth byte is zero, whatever the length. -/
def length24 (n : Nat) : List UInt8 := [byteAt n 0, byteAt n 1, byteAt n 2, 0]

/-- The sizes are `u32`; `rdtr` goes to offset 520. -/
def writeSizes (rdtr sysSize usrSize : Nat) (out : List UInt8) : List UInt8 :=
  let imSize := (sysSize + usrSize + 15) % 2 ^ 32 / 16
  let out := writeAt out 500 (length16 imSize)
  let out := writeAt out 512 (length24 sysSize)
  let out := writeAt out 516 (length24 usrSize)
  writeAt out 520 (length24 rdtr)

def bootSector (name : String) (file : List UInt8) : Except String (List UInt8) := do
  let rest ← minixOpen name file
  let buf := rest.take bufSize
  if buf.length ≠ 512 then throw "Boot block must be exactly 512 bytes"
  if buf[510]? ≠ some 0x55 ∨ buf[511]? ≠ some 0xAA then throw "Boot block hasn't got boot flag (0xAA55)"
  return (buf.set 508 0).set 509 0

def main (rdtr : Nat) (argv : Fin 4 → String) (bootsect system user : List UInt8) : Except String (List UInt8) := do
  let out ← bootSector (argv 1) bootsect
  let sysSize := system.length % 2 ^ 32
  let out ← copyFile (argv 2) sysSize system out
  let usrSize := user.length % 2 ^ 32
  let out ← copyFile (argv 3) usrSize user out
  return writeSizes rdtr sysSize usrSize out

section
variable {name : String} {out buf file : List UInt8}

/-! ## What comes out -/

theorem copyFile_eq {sz : Nat} (h : sz ≤ file.length) : copyFile name sz file out = .ok (out ++ file.take sz) := by
  induction sz using Nat.strongRecOn generalizing file out with
  | ind sz ih =>
    cases sz with
    | zero =>
      rw [copyFile, List.take_zero, List.append_nil]
      rfl
    | succ sz =>
      rw [copyFile]
      generalize hl : (if sz + 1 > bufSize then bufSize else sz + 1) = l
      have hle : 1 ≤ l ∧ l ≤ sz + 1 := by
        rw [← hl]
        split <;> simp only [bufSize] at * <;> omega
      have hlen : (file.take l).length = l := by
        rw [List.length_take]
        omega
      have hrest : sz + 1 - l ≤ (file.drop l).length := by
        rw [List.length_drop]
        omega
      have hsplit : file.take l ++ (file.drop l).take (sz + 1 - l) = file.take (sz + 1) := by
        rw [← List.take_add, Nat.add_sub_cancel' hle.2]
      simp only [hlen, ne_eq, not_true, if_false]
      rw [← hsplit, ← List.append_assoc]
      exact ih _ (by omega) hrest

theorem writeAt_length {offset : Nat} (h : offset + buf.length ≤ out.length) :
    (writeAt out offset buf).length = out.length := by
  simp only [writeAt, List.length_append, List.length_take, List.length_replicate, List.length_drop]
  omega

theorem writeAt_getElem? {offset : Nat} (h : offset + buf.length ≤ out.length) (i : Nat) : (writeAt out offset buf)[i]? =
    if offset ≤ i ∧ i < offset + buf.length then buf[i - offset]? else out[i]? := by
  have hgap : offset - out.length = 0 := by omega
  have htake : (out.take offset).length = offset := by
    rw [List.length_take]
    omega
  rw [writeAt, hgap, List.replicate_zero, List.append_nil]
  by_cases hlow : i < offset
  · rw [if_neg (by omega), List.append_assoc, List.getElem?_append_left (by omega), List.getElem?_take_of_lt hlow]
  · rw [List.append_assoc, List.getElem?_append_right (by omega), htake]
    by_cases hin : i < offset + buf.length
    · rw [if_pos ⟨by omega, hin⟩, List.getElem?_append_left (by omega)]
    · rw [if_neg (by omega), List.getElem?_append_right (by omega), List.getElem?_drop]
      congr 1
      omega

theorem writeAt_spec (out buf : List UInt8) (offset : Nat) (h : offset + buf.length ≤ out.length) :
    (writeAt out offset buf).length = out.length ∧ ∀ i, (writeAt out offset buf)[i]? =
      if offset ≤ i ∧ i < offset + buf.length then buf[i - offset]? else out[i]? :=
  ⟨writeAt_length h, writeAt_getElem? h⟩

/-- What is in the image at `i`, by the place of `i` among the sizes. -/
theorem writeSizes_spec (rdtr sysSize usrSize : Nat) (out : List UInt8) (h : 524 ≤ out.length) :
    (writeSizes rdtr sysSize usrSize out).length = out.length ∧ ∀ i, (writeSizes rdtr sysSize usrSize out)[i]? =
      if 520 ≤ i ∧ i < 524 then (length24 rdtr)[i - 520]?
      else if 516 ≤ i ∧ i < 520 then (length24 usrSize)[i - 516]?
      else if 512 ≤ i ∧ i < 516 then (length24 sysSize)[i - 512]?
      else if 500 ≤ i ∧ i < 502 then (length16 ((sysSize + usrSize + 15) % 2 ^ 32 / 16))[i - 500]?
      else out[i]? := by
  have h16 (n : Nat) : (length16 n).length = 2 := rfl
  have h24 (n : Nat) : (length24 n).length = 4 := rfl
  simp only [writeSizes]
  obtain ⟨hl₁, hg₁⟩ := writeAt_spec out (length16 ((sysSize + usrSize + 15) % 2 ^ 32 / 16)) 500 (by rw [h16]; omega)
  generalize writeAt out 500 _ = out₁ at *
  obtain ⟨hl₂, hg₂⟩ := writeAt_spec out₁ (length24 sysSize) 512 (by rw [h24]; omega)
  generalize writeAt out₁ 512 _ = out₂ at *
  obtain ⟨hl₃, hg₃⟩ := writeAt_spec out₂ (length24 usrSize) 516 (by rw [h24]; omega)
  generalize writeAt out₂ 516 _ = out₃ at *
  obtain ⟨hl₄, hg₄⟩ := writeAt_spec out₃ (length24 rdtr) 520 (by rw [h24]; omega)
  refine ⟨by omega, fun i => ?_⟩
  rw [hg₄, hg₃, hg₂, hg₁, h16, h24, h24, h24]

theorem bind_ok {α β : Type} {x : Except String α} {f : α → Except String β} {b : β} (h : x >>= f = .ok b) :
    ∃ a, x = .ok a ∧ f a = .ok b := by
  cases x with
  | error e => cases h
  | ok a => exact ⟨a, rfl, h⟩

/-- A check that ends in `die` has been passed. -/
theorem check_ok {p : Prop} [Decidable p] {e : String} {β : Type} {f : PUnit → Except String β} {b : β}
    (h : (if p then (throw e >>= f) else f ⟨⟩) = .ok b) : ¬ p ∧ f ⟨⟩ = .ok b := by
  by_cases hp : p
  · rw [if_pos hp] at h
    cases h
  · rw [if_neg hp] at h
    exact ⟨hp, h⟩

theorem minixOpen_ok {rest : List UInt8} (h : minixOpen name file = .ok rest) : rest = file.drop minixHeaderLen := by
  simp only [minixOpen] at h
  have hrest := (check_ok (check_ok (check_ok (check_ok (check_ok h).2).2).2).2).2
  cases hrest
  rfl

theorem bootSector_ok (h : bootSector name file = .ok out) : out.length = 512 ∧
    ∀ i < 508, out[i]? = file[minixHeaderLen + i]? := by
  obtain ⟨rest, hrest, h⟩ := bind_ok h
  obtain ⟨hlen, h⟩ := check_ok h
  have hout := (check_ok h).2
  cases hout
  rw [not_not] at hlen
  refine ⟨by rw [List.length_set, List.length_set, hlen], fun i hi => ?_⟩
  have hbuf : i < bufSize := Nat.lt_trans hi (by decide)
  rw [List.getElem?_set_ne (by omega), List.getElem?_set_ne (by omega), List.getElem?_take_of_lt hbuf]
  rw [minixOpen_ok hrest, List.getElem?_drop]

/-- The boot sector, the system and the user program, and the sizes over them. -/
theorem main_eq {rdtr : Nat} {argv : Fin 4 → String} {bootsect system user : List UInt8} (hsys : system.length < 2 ^ 32)
    (husr : user.length < 2 ^ 32) : main rdtr argv bootsect system user = (bootSector (argv 1) bootsect).map fun boot =>
      writeSizes rdtr system.length user.length (boot ++ system ++ user) := by
  rw [main, Nat.mod_eq_of_lt hsys, Nat.mod_eq_of_lt husr]
  cases bootSector (argv 1) bootsect with
  | error e => rfl
  | ok boot =>
    simp only [bind, Except.bind, copyFile_eq (Nat.le_refl _), List.take_length]
    rfl

end

end ZeosSOA.Boot
