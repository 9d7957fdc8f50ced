import ZeosSOA.Console
import ZeosSOA.Sysenter.Access

/-!
# ZeOSSysenter: sys_write

The buffer goes to the console in pieces of `TAM_BUFFER` bytes, each copied to the stack first.
`mem` is the memory as the calling task sees it, and `none` is a call that does not come back.
-/

namespace ZeosSOA.Sysenter

abbrev EBADF : Int := 9
abbrev EACCES : Int := 13

abbrev escriptura : Int := 1

abbrev tamBuffer : Nat := 512

/-- The console and the colours of the next character. -/
structure Terminal where
  console : Console
  textColor : UInt32
  textBackground : UInt32

def checkFd (fd permissions : Int) : Int :=
  if fd ≠ 1 then -EBADF
  else if permissions ≠ escriptura then -EACCES
  else 0

namespace Terminal

/-- As `main` finds it. -/
def start (screen : Nat → UInt16) : Terminal := ⟨⟨0, 19, screen, []⟩, 2, 0⟩

def attr (k : Terminal) : UInt32 := k.textColor <<< 8 ||| k.textBackground <<< 12

def printc (k : Terminal) (c : UInt8) : Terminal := { k with console := k.console.printc k.attr c }

def sysWriteConsole (k : Terminal) (buffer : Nat → UInt8) (size : Nat) : Nat × Terminal :=
  writeConsole printc k buffer size

/-- `while (bytes_left > TAM_BUFFER)`. -/
def writeLoop (mem : UInt32 → Option UInt8) : Nat → Terminal → (Nat → UInt8) → UInt32 → Nat →
    Option (Terminal × (Nat → UInt8) × UInt32 × Nat)
  | 0, _, _, _, _ => none
  | fuel + 1, k, localbuffer, buffer, bytesLeft =>
    if bytesLeft > tamBuffer then do
      let (_, localbuffer) ← copyFromUser (toArray mem tamBuffer) localbuffer buffer 0 tamBuffer
      let (ret, k) := k.sysWriteConsole localbuffer tamBuffer
      writeLoop mem fuel k localbuffer (buffer + .ofNat ret) (bytesLeft - ret)
    else some (k, localbuffer, buffer, bytesLeft)

/-- `localbuffer` is what the array on the stack holds when the call starts. -/
def sysWrite (mem : UInt32 → Option UInt8) (localbuffer : Nat → UInt8) (k : Terminal) (fd : Int) (buffer : UInt32)
    (nbytes : Int) : Option (Int × Terminal) :=
  let ret := checkFd fd escriptura
  if ret ≠ 0 then some (ret, k)
  else if nbytes < 0 then some (-EINVAL, k)
  else if ¬ accessOk .verifyRead buffer nbytes.toNat none then some (-EFAULT, k)
  else do
    let (k, localbuffer, buffer, bytesLeft) ← writeLoop mem (nbytes.toNat + 1) k localbuffer buffer nbytes.toNat
    if bytesLeft > 0 then
      let (_, localbuffer) ← copyFromUser (toArray mem tamBuffer) localbuffer buffer 0 bytesLeft
      let (ret, k) := k.sysWriteConsole localbuffer bytesLeft
      return (nbytes - ↑(bytesLeft - ret), k)
    else return (nbytes - bytesLeft, k)

/-! ## The pieces -/

section
variable {mem : UInt32 → Option UInt8} {k : Terminal} {buffer : UInt32} {bs : List UInt8}

theorem foldl_printc (bs : List UInt8) (k : Terminal) : bs.foldl printc k =
    { k with console := bs.foldl (Console.printc k.attr) k.console } := by
  induction bs generalizing k with
  | nil => rfl
  | cons c bs ih =>
    rw [List.foldl_cons, ih]
    rfl

theorem writeLoop_printed : ∀ {fuel : Nat} {bs : List UInt8} {k : Terminal} {b : Nat → UInt8} {buffer : UInt32},
    bs.length < fuel → Stored mem buffer bs →
    ∃ pre rest b' buffer', bs = pre ++ rest ∧ rest.length ≤ tamBuffer ∧ Stored mem buffer' rest ∧
      writeLoop mem fuel k b buffer bs.length = some (pre.foldl printc k, b', buffer', rest.length)
  | 0, _, _, _, _, h, _ => absurd h (Nat.not_lt_zero _)
  | fuel + 1, bs, k, b, buffer, h, hbs => by
    rw [writeLoop]
    split
    · rename_i hgt
      obtain ⟨c, r, rfl, hc⟩ : ∃ c r, bs = c ++ r ∧ c.length = tamBuffer :=
        ⟨_, _, (List.take_append_drop tamBuffer bs).symm, List.length_take_of_le (Nat.le_of_lt hgt)⟩
      obtain ⟨hcs, hrs⟩ := stored_append.mp hbs
      obtain ⟨b₁, hcopy, hprint⟩ := copied_printed printc hcs (Nat.le_of_eq hc) (by decide) b
      have hk := hprint k
      rw [hc] at hcopy hk hrs
      have hlen : (c ++ r).length - tamBuffer = r.length := by
        rw [List.length_append, hc, Nat.add_sub_cancel_left]
      simp only [tamBuffer] at hgt hlen
      have hfuel : r.length < fuel := by omega
      obtain ⟨pre, rest, b', buffer', rfl, hle, hstored, hloop⟩ := writeLoop_printed (k := c.foldl printc k) (b := b₁)
        hfuel hrs
      refine ⟨c ++ pre, rest, b', buffer', (List.append_assoc ..).symm, hle, hstored, ?_⟩
      rw [hcopy]
      simp only [Option.bind_eq_bind, Option.bind_some, sysWriteConsole, hk, hlen]
      rw [hloop, List.foldl_append]
    · rename_i hle
      exact ⟨[], bs, b, buffer, rfl, Nat.le_of_not_lt hle, hbs, rfl⟩

theorem writeLoop_stored : ∀ {fuel : Nat} {k k' : Terminal} {b b' : Nat → UInt8} {buffer buffer' : UInt32}
    {left left' : Nat}, writeLoop mem fuel k b buffer left = some (k', b', buffer', left') →
    ∃ bs, left = bs.length + left' ∧ Stored mem buffer bs ∧ buffer' = buffer + .ofNat bs.length
  | 0, _, _, _, _, _, _, _, _, h => by cases h
  | fuel + 1, k, k', b, b', buffer, buffer', left, left', h => by
    rw [writeLoop] at h
    split at h
    · rename_i hgt
      obtain ⟨⟨r, b₁⟩, hcopy, h⟩ := Option.bind_eq_some_iff.mp h
      rw [copyFromUser_toArray] at hcopy
      obtain ⟨b₂, hcopy, -⟩ := Option.map_eq_some_iff.mp hcopy
      obtain ⟨cs, hlen, hcs⟩ := stored_of_copyBytes hcopy
      change writeLoop mem fuel _ b₁ (buffer + .ofNat tamBuffer) (left - tamBuffer) = _ at h
      obtain ⟨bs, hleft, hbs, rfl⟩ := writeLoop_stored h
      refine ⟨cs ++ bs, ?_, stored_append.mpr ⟨hcs, by rwa [hlen]⟩, ?_⟩
      · rw [List.length_append]
        omega
      · rw [List.length_append, UInt32.ofNat_add, UInt32.add_assoc, hlen]
    · cases h
      exact ⟨[], by simp, trivial, by simp⟩

/-- An accepted call that comes back has read every byte of the buffer. -/
theorem sysWrite_mapped {localbuffer : Nat → UInt8} {n : Nat} {r : Int × Terminal}
    (hok : accessOk .verifyRead buffer n none = true) (h : sysWrite mem localbuffer k 1 buffer n = some r) :
    AllMapped mem buffer n := by
  rw [sysWrite, Int.toNat_natCast] at h
  dsimp only at h
  rw [if_neg (by decide), if_neg (Int.not_lt.mpr (Int.natCast_nonneg _)), if_neg (not_not.mpr hok)] at h
  obtain ⟨⟨k₁, b₁, buffer', left⟩, hloop, h⟩ := Option.bind_eq_some_iff.mp h
  obtain ⟨bs, hleft, hbs, rfl⟩ := writeLoop_stored hloop
  dsimp only at h
  split at h
  · obtain ⟨⟨r', b₂⟩, hcopy, -⟩ := Option.bind_eq_some_iff.mp h
    rw [copyFromUser_toArray] at hcopy
    obtain ⟨b₃, hcopy, -⟩ := Option.map_eq_some_iff.mp hcopy
    obtain ⟨cs, hlen, hcs⟩ := stored_of_copyBytes hcopy
    have hall := (stored_append.mpr ⟨hbs, hcs⟩).mapped
    rwa [List.length_append, hlen, ← hleft] at hall
  · rename_i hnone
    obtain rfl : n = bs.length := by omega
    exact hbs.mapped

theorem sysWrite_of_stored (hbs : Stored mem buffer bs) (hok : accessOk .verifyRead buffer bs.length none = true)
    (localbuffer : Nat → UInt8) :
    sysWrite mem localbuffer k 1 buffer bs.length = some ((bs.length : Int), bs.foldl printc k) := by
  obtain ⟨pre, rest, b, buffer', rfl, hle, hstored, hloop⟩ := writeLoop_printed (k := k) (b := localbuffer)
    (Nat.lt_succ_self _) hbs
  rw [sysWrite, Int.toNat_natCast]
  dsimp only
  rw [if_neg (by decide), if_neg (Int.not_lt.mpr (Int.natCast_nonneg _)), if_neg (not_not.mpr hok), hloop,
    Option.bind_eq_bind, Option.bind_some]
  dsimp only
  split
  · obtain ⟨b', hcopy, hprint⟩ := copied_printed printc hstored hle (by decide) b
    rw [hcopy]
    simp [sysWriteConsole, hprint]
  · rename_i hempty
    obtain rfl := List.length_eq_zero_iff.mp (Nat.eq_zero_of_not_pos hempty)
    simp

/-- `sys_write` comes back with the number of bytes and has printed the buffer, each byte once, as if the screen were one
row of 2000 cells. -/
def PrintsBuffer (mem : UInt32 → Option UInt8) (localbuffer : Nat → UInt8) (k : Terminal) (buffer : UInt32) (n : Nat) : Prop :=
  ∃ console, sysWrite mem localbuffer k 1 buffer n = some ((n : Int), { k with console := console }) ∧ console.OnScreen ∧
    ∀ bs, bs.length = n → Stored mem buffer bs → console.port = k.console.port ++ bs ∧
      console.cells = bs.foldl (Console.Cells.put (Console.word k.attr)) k.console.cells ∧
      ∀ i, ((bs.take i).foldl (Console.Cells.put (Console.word k.attr)) k.console.cells).pos < 2000

/-- Of the buffers that `access_ok` accepts, exactly those are printed whose bytes are all mapped. -/
theorem sysWrite_prints (hon : k.console.OnScreen) {n : Nat} (hok : accessOk .verifyRead buffer n none = true)
    (localbuffer : Nat → UInt8) : PrintsBuffer mem localbuffer k buffer n ↔ AllMapped mem buffer n := by
  constructor
  · rintro ⟨console, h, -⟩
    exact sysWrite_mapped hok h
  · intro hread
    obtain ⟨bs, rfl, hbs⟩ := hread.stored
    obtain ⟨hon', hcells, hport⟩ := hon.foldl_printc k.attr bs
    refine ⟨bs.foldl (Console.printc k.attr) k.console, ?_, hon', fun cs hlen hcs => ?_⟩
    · rw [← foldl_printc]
      exact sysWrite_of_stored hbs hok localbuffer
    · obtain rfl := hcs.unique hbs hlen
      refine ⟨hport, hcells, fun i => ?_⟩
      obtain ⟨h₁, h₂, -⟩ := hon.foldl_printc k.attr (cs.take i)
      rw [← h₂]
      exact h₁.pos_lt

/-- Two pieces and a byte. -/
theorem sysWrite_prints_pieces : PrintsBuffer (fun _ => some 65) (fun _ => 0) (start fun _ => 0) 0x108000 1025 :=
  (sysWrite_prints (by decide) (by decide +kernel) fun _ => 0).mpr fun _ _ => rfl

/-- The code and data pages, and nothing behind them. -/
def userPages (a : UInt32) : Option UInt8 := if 0x100000 ≤ a ∧ a < 0x11C000 then some 65 else none

/-- The last byte of the data pages and one behind it are accepted, and the call faults there. -/
theorem sysWrite_faults : (start fun _ => 0).console.OnScreen ∧ accessOk .verifyRead 0x11BFFF 2 none = true ∧
    sysWrite userPages (fun _ => 0) (start fun _ => 0) 1 0x11BFFF 2 = none ∧
    ¬ PrintsBuffer userPages (fun _ => 0) (start fun _ => 0) 0x11BFFF 2 := by
  have hnone : sysWrite userPages (fun _ => 0) (start fun _ => 0) 1 0x11BFFF 2 = none := by
    apply Option.isNone_iff_eq_none.mp
    decide +kernel
  refine ⟨by decide, by decide +kernel, hnone, ?_⟩
  rintro ⟨console, h, -⟩
  exact Option.some_ne_none _ (h.symm.trans hnone)

end

end Terminal

end ZeosSOA.Sysenter
