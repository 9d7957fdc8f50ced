import ZeosSOA.Console
import ZeosSOA.Pparri.Kernel

/-!
# zeOSpparri: sys_write

The loop moves the pointer to the buffer on, and also adds to it the number of bytes that have
been written. `mem` is the memory as the calling task sees it.
-/

namespace ZeosSOA.Pparri

abbrev EBADF : Int := 9
abbrev EACCES : Int := 13
abbrev EFAULT : Int := 14
abbrev EINVAL : Int := 22

abbrev escriptura : Int := 1

abbrev userFirstPage : Nat := lUserStart >>> 12

abbrev bufferSize : Nat := 256

inductive AccessType where
  | verifyRead
  | verifyWrite
  deriving DecidableEq

/-- The `case VERIFY_WRITE` falls through into the `default` of the switch. -/
def accessOk (type : AccessType) (addr : UInt32) (size : Nat) : Bool :=
  let addrIni := addr.toNat >>> 12
  let addrFin := ((addr.toNat + size) % 2 ^ 32) >>> 12
  if addrFin < addrIni then false
  else if type = .verifyWrite ∧ addrIni ≥ userFirstPage ∧ addrFin ≤ userFirstPage + numPagData then true
  else addrIni ≥ userFirstPage ∧ addrFin ≤ userFirstPage + numPagCode + numPagData

def checkFd (fd permissions : Int) : Int :=
  if fd ≠ 1 then -EBADF
  else if permissions ≠ escriptura then -EACCES
  else 0

/-- The console, and the array `buffer_k`. -/
structure Output where
  console : Console
  bufferK : Nat → UInt8

namespace Output

def printc (k : Console) (c : UInt8) : Console := k.printc 0x0200 c

def sysWriteConsole (s : Output) (size : Nat) : Nat × Output :=
  let (written, console) := writeConsole printc s.console s.bufferK size
  (written, { s with console := console })

def copyToBuffer (mem : UInt32 → Option UInt8) (s : Output) (start : UInt32) (size : Nat) : Option Output := do
  let (_, bufferK) ← copyFromUser (toArray mem bufferSize) s.bufferK start 0 size
  return { s with bufferK := bufferK }

/-- `while (bytes > BUFFER_SIZE)`. -/
def writeLoop (mem : UInt32 → Option UInt8) (size : Nat) : Nat → Output → UInt32 → Nat → Option (Output × UInt32 × Nat)
  | 0, _, _, _ => none
  | fuel + 1, s, buffer, bytes =>
    if bytes > bufferSize then do
      let s ← s.copyToBuffer mem (buffer + .ofNat (size - bytes)) bufferSize
      let (written, s) := s.sysWriteConsole bufferSize
      writeLoop mem size fuel s (buffer + .ofNat bufferSize) (bytes - written)
    else some (s, buffer, bytes)

def sysWrite (mem : UInt32 → Option UInt8) (s : Output) (fd : Int) (buffer : UInt32) (size : Int) :
    Option (Int × Output) :=
  let fdError := checkFd fd escriptura
  if fdError ≠ 0 then some (fdError, s)
  else if buffer = 0 then some (-EFAULT, s)
  else if size < 0 then some (-EINVAL, s)
  else if ¬ accessOk .verifyWrite buffer size.toNat then some (-EFAULT, s)
  else do
    let (s, buffer, bytes) ← writeLoop mem size.toNat (size.toNat + 1) s buffer size.toNat
    let s ← s.copyToBuffer mem (buffer + .ofNat (size.toNat - bytes)) bytes
    let (written, s) := s.sysWriteConsole bytes
    return (size - ↑(bytes - written), s)

/-! ## The buffer and nothing else -/

/-- The memory where only the `n` bytes from `p` on can be read. -/
def only (mem : UInt32 → Option UInt8) (p : UInt32) (n : Nat) (a : UInt32) : Option UInt8 :=
  if (a - p).toNat < n then mem a else none

/-- `sys_write` returns the size and prints the bytes, and it comes back also when they are all there is to be read. -/
def PrintsBuffer (mem : UInt32 → Option UInt8) (s : Output) (buffer : UInt32) (n : Nat) : Prop :=
  (∃ s', sysWrite mem s 1 buffer n = some ((n : Int), s') ∧
      ∀ bs, bs.length = n → Stored mem buffer bs → s'.console.port = s.console.port ++ bs) ∧
    ∃ r, sysWrite (only mem buffer n) s 1 buffer n = some r

section
variable {mem : UInt32 → Option UInt8} {s s' : Output} {buffer buffer' : UInt32} {bs : List UInt8}

theorem foldl_printc_port (bs : List UInt8) (k : Console) : (bs.foldl printc k).port = k.port ++ bs := by
  induction bs generalizing k with
  | nil => exact (List.append_nil _).symm
  | cons c bs ih =>
    rw [List.foldl_cons, ih, printc, Console.printc_port, List.append_assoc, List.singleton_append]

theorem writeLoop_some {size : Nat} : ∀ {fuel : Nat} {s : Output} {buffer : UInt32} {bytes bytes' : Nat},
    writeLoop mem size fuel s buffer bytes = some (s', buffer', bytes') →
    ∃ j, bytes = bytes' + 256 * j ∧ buffer' = buffer + .ofNat (256 * j) ∧ bytes' ≤ 256 ∧ (0 < bytes → 0 < bytes') ∧
      (256 < bytes → 0 < j)
  | 0, _, _, _, _, h => by cases h
  | fuel + 1, s, buffer, bytes, bytes', h => by
    rw [writeLoop] at h
    split at h
    · rename_i hgt
      obtain ⟨s₁, -, h⟩ := Option.bind_eq_some_iff.mp h
      change writeLoop mem size fuel (s₁.sysWriteConsole bufferSize).2 (buffer + .ofNat 256) (bytes - 256) = _ at h
      obtain ⟨j, hb, hp, hle, hpos, -⟩ := writeLoop_some h
      simp only [bufferSize] at hgt
      refine ⟨j + 1, by omega, ?_, hle, fun _ => hpos (by omega), fun _ => Nat.succ_pos j⟩
      rw [hp, UInt32.add_assoc, ← UInt32.ofNat_add, Nat.mul_add, Nat.mul_one, Nat.add_comm 256]
    · rename_i hle
      cases h
      exact ⟨0, rfl, by simp, Nat.le_of_not_lt hle, id, fun hlt => absurd hlt hle⟩

theorem copyToBuffer_stored {start : UInt32} {size : Nat} (h : s.copyToBuffer mem start size = some s') :
    ∃ cs, cs.length = size ∧ Stored mem start cs := by
  obtain ⟨x, hx, -⟩ := Option.bind_eq_some_iff.mp h
  rw [copyFromUser_toArray] at hx
  obtain ⟨b, hb, -⟩ := Option.map_eq_some_iff.mp hx
  exact stored_of_copyBytes hb

theorem only_add (mem : UInt32 → Option UInt8) (p : UInt32) (n : Nat) {i : Nat} (h : i < 2 ^ 32) :
    only mem p n (p + .ofNat i) = if i < n then mem (p + .ofNat i) else none := by
  have hback : p + .ofNat i - p = .ofNat i := by rw [UInt32.add_comm, UInt32.add_sub_cancel]
  rw [only, hback, UInt32.toNat_ofNat_of_lt' h]

theorem stored_only {p : UInt32} {n : Nat} : ∀ {bs : List UInt8} {i : Nat}, Stored mem (p + .ofNat i) bs →
    i + bs.length ≤ n → n < 2 ^ 32 → Stored (only mem p n) (p + .ofNat i) bs
  | [], _, _, _, _ => trivial
  | b :: bs, i, hs, hle, hlt => by
    rw [List.length_cons] at hle
    have hnext : p + .ofNat i + 1 = p + .ofNat (i + 1) := by
      rw [UInt32.add_assoc, UInt32.ofNat_add]
      rfl
    refine ⟨?_, ?_⟩
    · rw [only_add mem p n (by omega), if_pos (by omega)]
      exact hs.1
    · have htail := hs.2
      rw [hnext] at htail ⊢
      exact stored_only htail (by omega) hlt

theorem sysWrite_one_piece (hbs : Stored mem buffer bs) (hok : accessOk .verifyWrite buffer bs.length = true)
    (hle : bs.length ≤ bufferSize) (s : Output) : ∃ b, sysWrite mem s 1 buffer bs.length =
      some ((bs.length : Int), ⟨bs.foldl printc s.console, b⟩) := by
  obtain ⟨b, hcopy, hprint⟩ := copied_printed printc hbs hle (by decide) s.bufferK
  have hne : buffer ≠ 0 := by
    rintro rfl
    simp [accessOk] at hok
  have hloop : writeLoop mem bs.length (bs.length + 1) s buffer bs.length = some (s, buffer, bs.length) :=
    if_neg (Nat.not_lt.mpr hle)
  refine ⟨b, ?_⟩
  rw [sysWrite, Int.toNat_natCast]
  dsimp only
  rw [if_neg (by decide), if_neg hne, if_neg (Int.not_lt.mpr (Int.natCast_nonneg _)), if_neg (not_not.mpr hok), hloop]
  simp [copyToBuffer, hcopy, sysWriteConsole, hprint]

theorem sysWrite_accepted {n : Nat} (hok : accessOk .verifyWrite buffer n = true) {r : Int × Output}
    (h : sysWrite mem s 1 buffer n = some r) : ∃ s₁ buffer' bytes' s₂,
      writeLoop mem n (n + 1) s buffer n = some (s₁, buffer', bytes') ∧
      s₁.copyToBuffer mem (buffer' + .ofNat (n - bytes')) bytes' = some s₂ := by
  have hne : buffer ≠ 0 := by
    rintro rfl
    simp [accessOk] at hok
  rw [sysWrite, Int.toNat_natCast] at h
  dsimp only at h
  rw [if_neg (by decide), if_neg hne, if_neg (Int.not_lt.mpr (Int.natCast_nonneg _)), if_neg (not_not.mpr hok)] at h
  obtain ⟨⟨s₁, buffer', bytes'⟩, hloop, h⟩ := Option.bind_eq_some_iff.mp h
  dsimp only at h
  obtain ⟨s₂, hcopy, -⟩ := Option.bind_eq_some_iff.mp h
  exact ⟨s₁, buffer', bytes', s₂, hloop, hcopy⟩

/-- The last part starts once more behind the buffer as much as the loop has written. -/
theorem sysWrite_reads_past {n : Nat} (hlt : n < 2 ^ 31) (hok : accessOk .verifyWrite buffer n = true)
    (hgt : bufferSize < n) (s : Output) : sysWrite (only mem buffer n) s 1 buffer n = none := by
  apply Option.eq_none_iff_forall_ne_some.mpr
  intro r h
  obtain ⟨s₁, buffer', bytes', s₂, hloop, hcopy⟩ := sysWrite_accepted hok h
  obtain ⟨j, hb, hp, hle, hpos, hj⟩ := writeLoop_some hloop
  obtain ⟨cs, hlen, hcs⟩ := copyToBuffer_stored hcopy
  simp only [bufferSize] at hgt
  have hpos := hpos (by omega)
  have hj := hj hgt
  -- the last byte that is read
  have hlast := hcs.get (bytes' - 1) (by omega)
  rw [hp, UInt32.add_assoc, ← UInt32.ofNat_add, UInt32.add_assoc, ← UInt32.ofNat_add, only_add _ _ _ (by omega),
    if_neg (by omega)] at hlast
  cases hlast

/-- Without the loop the last part is the buffer. -/
theorem sysWrite_mapped {n : Nat} (hok : accessOk .verifyWrite buffer n = true) (hle : n ≤ bufferSize)
    {r : Int × Output} (h : sysWrite mem s 1 buffer n = some r) : AllMapped mem buffer n := by
  obtain ⟨s₁, buffer', bytes', s₂, hloop, hcopy⟩ := sysWrite_accepted hok h
  rw [writeLoop, if_neg (Nat.not_lt.mpr hle)] at hloop
  cases hloop
  obtain ⟨cs, rfl, hcs⟩ := copyToBuffer_stored hcopy
  rw [Nat.sub_self, show buffer + .ofNat 0 = buffer by simp] at hcs
  exact hcs.mapped

/-- Exactly the buffers of one piece are printed whose bytes are all mapped. -/
theorem sysWrite_prints_iff {n : Nat} (hlt : n < 2 ^ 31) (hok : accessOk .verifyWrite buffer n = true) (s : Output) :
    PrintsBuffer mem s buffer n ↔ n ≤ bufferSize ∧ AllMapped mem buffer n := by
  constructor
  · rintro ⟨⟨s', hs', -⟩, r, hr⟩
    have hle : n ≤ bufferSize := by
      apply Nat.le_of_not_lt
      intro hgt
      rw [sysWrite_reads_past hlt hok hgt] at hr
      cases hr
    exact ⟨hle, sysWrite_mapped hok hle hs'⟩
  · rintro ⟨hle, hread⟩
    obtain ⟨bs, rfl, hbs⟩ := hread.stored
    obtain ⟨b, h⟩ := sysWrite_one_piece hbs hok hle s
    have hbs' : Stored (only mem buffer bs.length) buffer bs := by
      have hstart : Stored mem (buffer + .ofNat 0) bs := by simpa using hbs
      simpa using stored_only (n := bs.length) hstart (by omega) (by omega)
    obtain ⟨b', h'⟩ := sysWrite_one_piece hbs' hok hle s
    refine ⟨⟨_, h, fun cs hlen hcs => ?_⟩, _, h'⟩
    obtain rfl := hcs.unique hbs hlen
    exact foldl_printc_port cs s.console

end

def start : Output := ⟨⟨0, 19, fun _ => 0, []⟩, fun _ => 0⟩

/-- A piece and a byte. -/
def letters : List UInt8 := List.replicate 257 65

/-- The letters from 0x100000 on, and another letter behind them. -/
def lettersMem (a : UInt32) : Option UInt8 := some (if (a - 0x100000).toNat < 257 then 65 else 66)

theorem sysWrite_prints_iff_letters : PrintsBuffer lettersMem start 0x100000 256 :=
  (sysWrite_prints_iff (by decide) (by decide +kernel) start).mpr ⟨by decide, fun _ _ => rfl⟩

/-- The last letter that is printed is one from behind the buffer. -/
theorem sysWrite_prints_wrong : Stored lettersMem 0x100000 letters ∧ accessOk .verifyWrite 0x100000 letters.length = true ∧
    (∃ r, sysWrite lettersMem start 1 0x100000 letters.length = some r ∧
      r.2.console.port = List.replicate 256 65 ++ [66]) ∧ ¬ PrintsBuffer lettersMem start 0x100000 letters.length := by
  have hrun : (sysWrite lettersMem start 1 0x100000 letters.length).any (fun r =>
      decide (r.2.console.port = List.replicate 256 65 ++ [66])) = true := by
    decide +kernel
  obtain ⟨r, hr, hd⟩ := (Option.any_eq_true _ _).mp hrun
  have hport := of_decide_eq_true hd
  have hstored : Stored lettersMem 0x100000 letters := by decide +kernel
  refine ⟨hstored, by decide +kernel, ⟨r, hr, hport⟩, ?_⟩
  rintro ⟨⟨s', h, hprinted⟩, -⟩
  obtain rfl : r = (_, s') := Option.some.inj (hr.symm.trans h)
  have hletters := hprinted letters rfl hstored
  rw [hport] at hletters
  exact absurd hletters (by decide +kernel)

end Output

end ZeosSOA.Pparri
