import ZeosSOA.CircularBuffer
import ZeosSOA.Sysenter.Reach

/-!
# ZeOSSysenter: the keyboard

The kernel together with `cBuffer`: besides the events of the kernel there are the interrupts
of the keyboard and `sys_getKey`. `fifo_iff` says when the buffer is a bounded FIFO.
-/

namespace ZeosSOA.Sysenter

open CircularBuffer Runs

abbrev cbufferSize : Nat := 256

abbrev EINVAL : Int := 22

structure CBuffer where
  buffer : Nat → UInt8
  rpointer : UInt32
  wpointer : UInt32
  bwritten : UInt32

/-- `char_map`. Its four letters outside ASCII stand in the file as a character of three bytes, of
which a `char` keeps the last. -/
def charMap : List UInt8 :=
  [0, 0, 49, 50, 51, 52, 53, 54,
   55, 56, 57, 48, 39, 0xBD, 0, 0,
   113, 119, 101, 114, 116, 121, 117, 105,
   111, 112, 96, 43, 0, 0, 97, 115,
   100, 102, 103, 104, 106, 107, 108, 0xBD,
   0, 0xBD, 0, 0xBD, 122, 120, 99, 118,
   98, 110, 109, 44, 46, 45, 0, 42,
   0, 0, 0, 0, 0, 0, 0, 0,
   0, 0, 0, 0, 0, 0, 0, 55,
   56, 57, 45, 52, 53, 54, 43, 49,
   50, 51, 48, 0, 0, 0, 60, 0,
   0, 0, 0, 0, 0, 0, 0, 0,
   0, 0]

/-- `char_map[c&0x7f]`. The table is shorter than the codes go; `past` is the byte found behind it. -/
def keyChar (c past : UInt8) : UInt8 := charMap.getD (c &&& 0x7f).toNat past

def isRelease (c : UInt8) : Bool := c &&& 0x80 ≠ 0

/-- The guard is on the index to write at, which is always in range. -/
def keyboardRoutine (k : CBuffer) (c past : UInt8) : CBuffer :=
  if isRelease c then
    if k.wpointer.toNat < cbufferSize then
      { buffer := Function.update k.buffer k.wpointer.toNat (keyChar c past)
        rpointer := k.rpointer
        wpointer := (k.wpointer + 1) % 256
        bwritten := k.bwritten + 1 }
    else k
  else k

structure System where
  kernel : Kernel
  cBuffer : CBuffer

namespace System

def boot (mc : Machine) : System := ⟨Kernel.boot mc, ⟨fun _ => 0, 0, 0, 0⟩⟩

def byteAt (s : System) (b : UInt32) : Option UInt8 := do
  let pt ← s.kernel.getPT s.kernel.current
  s.kernel.mm.readByte pt (b.toNat / pageSize) (b.toNat % pageSize)

def sysGetKey (s : System) (b : UInt32) : Option (Int × System) :=
  if s.cBuffer.bwritten = 0 then some (0, s)
  else if b = 0 then some (-EINVAL, s)
  else if ¬ accessOk .verifyWrite b 1 none then some (-EFAULT, s)
  else do
    let pt ← s.kernel.getPT s.kernel.current
    let mm ← s.kernel.mm.writeByte pt (b.toNat / pageSize) (b.toNat % pageSize)
      (s.cBuffer.buffer s.cBuffer.rpointer.toNat)
    return (1, ⟨s.kernel.setMm mm, { s.cBuffer with
      rpointer := (s.cBuffer.rpointer + 1) % 256, bwritten := s.cBuffer.bwritten - 1 }⟩)

def keyboardHandler (s : System) (c past : UInt8) : System :=
  ⟨s.kernel.userToSystem.systemToUser, keyboardRoutine s.cBuffer c past⟩

inductive Input where
  | event (e : Kernel.Event)
  | key (c past : UInt8)
  | getKey (b : UInt32)

/-- One input; `none` also when idle is to make a system call. -/
def step (s : System) : Input → Option System
  | .event e => (s.kernel.step e).map fun k => { s with kernel := k }
  | .key c past => some (s.keyboardHandler c past)
  | .getKey b => if s.kernel.idleTask = some s.kernel.current then none else (s.sysGetKey b).map Prod.snd

theorem keyboardHandler_rep {s : System} {a : AbsKernel} (h : Rep s.kernel a) (c past : UInt8) :
    Rep (s.keyboardHandler c past).kernel a :=
  (h.updateStats s.kernel.current .user).updateStats s.kernel.current .system

theorem sysGetKey_cases {s s' : System} {b : UInt32} {r : Int} (h : s.sysGetKey b = some (r, s')) :
    s.cBuffer.bwritten = 0 ∧ r = 0 ∧ s' = s ∨ s.cBuffer.bwritten ≠ 0 ∧ (r = -EINVAL ∨ r = -EFAULT) ∧ s' = s ∨
    s.cBuffer.bwritten ≠ 0 ∧ r = 1 ∧ s'.byteAt b = some (s.cBuffer.buffer s.cBuffer.rpointer.toNat) ∧
      (∃ mm, s'.kernel = s.kernel.setMm mm ∧ mm.pagusrTable = s.kernel.mm.pagusrTable ∧
        mm.physMem = s.kernel.mm.physMem) ∧
      s'.cBuffer = { s.cBuffer with
        rpointer := (s.cBuffer.rpointer + 1) % 256, bwritten := s.cBuffer.bwritten - 1 } := by
  unfold sysGetKey at h
  split at h
  · rename_i h0
    cases h; exact .inl ⟨h0, rfl, rfl⟩
  rename_i h0
  split at h
  · cases h; exact .inr (.inl ⟨h0, .inl rfl, rfl⟩)
  split at h
  · cases h; exact .inr (.inl ⟨h0, .inr rfl, rfl⟩)
  obtain ⟨pt, hpt, h⟩ := Option.bind_eq_some_iff.mp h
  obtain ⟨mm, hmm, h⟩ := Option.bind_eq_some_iff.mp h
  obtain ⟨htab, hphys, hbyte⟩ := Mm.writeByte_some hmm
  cases h
  refine .inr (.inr ⟨h0, rfl, ?_, ⟨mm, rfl, htab, hphys⟩, rfl⟩)
  unfold byteAt
  rw [show Kernel.getPT (s.kernel.setMm mm) (s.kernel.setMm mm).current = some pt from hpt]
  exact hbyte

/-! ## What has been accepted and what has been delivered -/

/-- `accepted`: the characters of the keys released while fewer than `CBUFFER_SIZE` characters were
waiting. `delivered`: the characters `sys_getKey` has stored where it was told to. -/
structure History where
  accepted : List UInt8
  delivered : List UInt8

namespace History

def start : History := ⟨[], []⟩

def waiting (h : History) : Nat := h.accepted.length - h.delivered.length

def next (h : History) (s : System) : Input → History
  | .event _ => h
  | .key c past =>
    if isRelease c ∧ h.waiting < cbufferSize then { h with accepted := h.accepted ++ [keyChar c past] } else h
  | .getKey b =>
    match s.sysGetKey b with
    | some (r, s') => if r = 1 then { h with delivered := h.delivered ++ (s'.byteAt b).toList } else h
    | none => h

end History

/-- The buffer is a bounded FIFO: what has been delivered is, in order, the first part of what has
been accepted, and nothing is delivered exactly when that is all of it. -/
structure Fifo (x : History × System) : Prop where
  bound : x.2.cBuffer.bwritten.toNat ≤ cbufferSize
  order : x.1.delivered <+: x.1.accepted
  pending : ∀ b, (x.2.sysGetKey b).map Prod.fst = some 0 ↔ x.1.delivered = x.1.accepted

def InTime (s : System) : Input → Prop
  | .key c _ => isRelease c = true → s.cBuffer.bwritten ≠ 256
  | _ => True

/-- The cells of the buffer hold the sequence `xs` of characters that are waiting. -/
structure Keeps (k : CBuffer) (xs : List UInt8) : Prop where
  cells : Holds k.buffer cbufferSize k.rpointer.toNat xs
  written : k.bwritten.toNat = xs.length
  write : k.wpointer.toNat = (k.rpointer.toNat + xs.length) % cbufferSize

/-- The invariant: what has been accepted is what has been delivered and what is waiting. -/
def Delivered (x : History × System) : Prop :=
  ∃ xs, Keeps x.2.cBuffer xs ∧ x.1.accepted = x.1.delivered ++ xs

section
variable {k : CBuffer} {xs : List UInt8} {s s' : System} {h : History}

theorem succ_mod (p : UInt32) : ((p + 1) % 256).toNat = (p.toNat + 1) % cbufferSize := by
  simp only [UInt32.toNat_mod, UInt32.toNat_add, UInt32.reduceToNat, cbufferSize]
  omega

theorem Keeps.push (hk : Keeps k xs) {c : UInt8} (hc : isRelease c = true) (hr : xs.length < cbufferSize) (past : UInt8) :
    Keeps (keyboardRoutine k c past) (xs ++ [keyChar c past]) := by
  have hw : k.wpointer.toNat < cbufferSize := by rw [hk.write]; exact Nat.mod_lt _ (by decide)
  have hn := hk.written
  unfold keyboardRoutine
  rw [if_pos hc, if_pos hw]
  refine ⟨?_, ?_, ?_⟩
  · dsimp only
    rw [hk.write]
    exact hk.cells.push hr _
  · simp only [UInt32.toNat_add, UInt32.reduceToNat, List.length_append, List.length_singleton, cbufferSize] at hr ⊢
    omega
  · dsimp only
    rw [succ_mod, hk.write, Nat.mod_add_mod, List.length_append, List.length_singleton, Nat.add_assoc]

theorem Keeps.pop {x : UInt8} (hk : Keeps k (x :: xs)) :
    Keeps { k with rpointer := (k.rpointer + 1) % 256, bwritten := k.bwritten - 1 } xs := by
  have hroom := hk.cells.room
  have hn := hk.written
  rw [List.length_cons] at hroom hn
  have hr : ((k.rpointer + 1) % 256).toNat = (k.rpointer.toNat + 1) % cbufferSize := succ_mod _
  refine ⟨?_, ?_, ?_⟩
  · dsimp only
    rw [hr]
    exact hk.cells.pop
  · simp only [UInt32.toNat_sub, UInt32.reduceToNat, cbufferSize] at hroom ⊢
    omega
  · dsimp only
    rw [hr, hk.write, List.length_cons, Nat.mod_add_mod, Nat.add_assoc, Nat.add_comm 1]

theorem Keeps.overflow (hk : Keeps k xs) {c : UInt8} (hc : isRelease c = true) (hf : k.bwritten = 256) (past : UInt8) :
    ¬ (keyboardRoutine k c past).bwritten.toNat ≤ cbufferSize := by
  have hw : k.wpointer.toNat < cbufferSize := by rw [hk.write]; exact Nat.mod_lt _ (by decide)
  unfold keyboardRoutine
  rw [if_pos hc, if_pos hw, hf]
  show ¬ ((256 : UInt32) + 1).toNat ≤ 256
  decide

theorem Keeps.bwritten_eq_zero (hk : Keeps k xs) : k.bwritten = 0 ↔ xs = [] := by
  rw [← UInt32.toNat_inj, hk.written, UInt32.toNat_zero, List.length_eq_zero_iff]

theorem Delivered.fifo {x : History × System} (hx : Delivered x) : Fifo x := by
  obtain ⟨xs, hk, hacc⟩ := hx
  refine ⟨?_, ⟨xs, hacc.symm⟩, fun b => ?_⟩
  · rw [hk.written]; exact hk.cells.room
  · have hret : (x.2.sysGetKey b).map Prod.fst = some 0 ↔ x.2.cBuffer.bwritten = 0 := by
      constructor
      · intro h
        obtain ⟨⟨r, s'⟩, hr, hr0⟩ := Option.map_eq_some_iff.mp h
        obtain rfl : r = 0 := hr0
        rcases sysGetKey_cases hr with ⟨h0, -⟩ | ⟨-, hneg, -⟩ | ⟨-, hone, -⟩
        · exact h0
        · exact absurd hneg (by decide)
        · exact absurd hone (by decide)
      · intro h0
        simp [sysGetKey, h0]
    rw [hret, hk.bwritten_eq_zero, hacc]
    simp

theorem delivered_step {x y : History × System} {i : Input} (hx : Delivered x) (hi : InTime x.2 i)
    (hy : recorded step History.next x i = some y) : Delivered y := by
  obtain ⟨h, s⟩ := x
  obtain ⟨s', hs, rfl⟩ := Option.map_eq_some_iff.mp hy
  obtain ⟨xs, hk, hacc⟩ := hx
  dsimp only at hk hacc hs hi ⊢
  cases i with
  | event e =>
    obtain ⟨k, -, rfl⟩ := Option.map_eq_some_iff.mp hs
    exact ⟨xs, hk, hacc⟩
  | key c past =>
    obtain rfl := Option.some.inj hs
    by_cases hc : isRelease c = true
    · have hlt : xs.length < cbufferSize := by
        have hroom := hk.cells.room
        have hne : xs.length ≠ 256 := fun e => hi hc (UInt32.toNat_inj.mp (hk.written.trans e))
        simp only [cbufferSize] at hroom ⊢
        omega
      refine ⟨xs ++ [keyChar c past], hk.push hc hlt past, ?_⟩
      have hwait : h.waiting < cbufferSize := by simpa [History.waiting, hacc] using hlt
      simp [History.next, hc, hwait, hacc]
    · refine ⟨xs, ?_, ?_⟩
      · simpa [keyboardHandler, keyboardRoutine, hc] using hk
      · simpa [History.next, hc] using hacc
  | getKey b =>
    simp only [step] at hs
    split at hs
    · cases hs
    obtain ⟨⟨r, t⟩, hr, rfl⟩ := Option.map_eq_some_iff.mp hs
    rcases sysGetKey_cases hr with ⟨h0, rfl, rfl⟩ | ⟨h0, hneg, rfl⟩ | ⟨h0, rfl, hbyte, -, hbuf⟩
    · exact ⟨xs, hk, by simpa [History.next, hr] using hacc⟩
    · refine ⟨xs, hk, ?_⟩
      have hne : r ≠ 1 := by rcases hneg with rfl | rfl <;> decide
      simpa [History.next, hr, hne] using hacc
    · cases xs with
      | nil => exact absurd (hk.bwritten_eq_zero.mpr rfl) h0
      | cons x xs =>
        refine ⟨xs, hbuf ▸ hk.pop, ?_⟩
        rw [hk.cells.head] at hbyte
        simp [History.next, hr, hbyte, hacc]

theorem overflow_step {x y : History × System} {i : Input} (hx : Delivered x) (hi : ¬ InTime x.2 i)
    (hy : recorded step History.next x i = some y) : ¬ Fifo y := by
  obtain ⟨h, s⟩ := x
  obtain ⟨s', hs, rfl⟩ := Option.map_eq_some_iff.mp hy
  obtain ⟨xs, hk, -⟩ := hx
  cases i with
  | key c past =>
    obtain ⟨hc, hf⟩ := Classical.not_imp.mp hi
    obtain rfl := Option.some.inj hs
    exact fun hfifo => hk.overflow hc (not_not.mp hf) past hfifo.bound
  | _ => exact absurd trivial hi

end

/-- In a run of events, keys and `sys_getKey` the buffer is a bounded FIFO all along if and only if
no key is released while it is full. -/
theorem fifo_iff (mc : Machine) (is : List Input) :
    AllStates (recorded step History.next) Fifo (.start, boot mc) is ↔
      AllSteps (recorded step History.next) (fun x i _ => InTime x.2 i) (.start, boot mc) is := by
  have hstart : Delivered (.start, boot mc) :=
    ⟨[], ⟨holds_nil _ (show (0 : UInt32).toNat < cbufferSize by decide), rfl, rfl⟩, rfl⟩
  apply allStates_iff_allSteps (I := Delivered) (Q := Fifo) (A := fun _ => True) (P := fun x i _ => InTime x.2 i)
  · exact fun _ => Delivered.fifo
  · exact fun _ _ _ hx _ hi hy => delivered_step hx hi hy
  · exact fun _ _ _ hx _ hi hy => overflow_step hx hi hy
  · exact hstart
  · exact fun _ _ => trivial

/-- One key more than fit, with nobody reading. -/
theorem fifo_overflow : ¬ AllStates (recorded step History.next) Fifo (.start, boot .blank)
    (List.replicate 257 (.key 0x9e 0)) := by
  intro hall
  have hrun : (exec (recorded step History.next) (.start, boot .blank) (List.replicate 257 (.key 0x9e 0))).any
      (fun x => decide (x.2.cBuffer.bwritten.toNat = 257)) = true := by decide +kernel
  obtain ⟨x, hx, hw⟩ := (Option.any_eq_true _ _).mp hrun
  have hbound := (allStates_last _ hall hx).bound
  rw [of_decide_eq_true hw] at hbound
  exact absurd hbound (by decide)

end System

end ZeosSOA.Sysenter
