import ZeosSOA.Boot.Build
import ZeosSOA.Copies

/-!
# bootsect.S and system.c: loading the boot image

The boot sector reads the image from the disk to `0x10000`, as many sectors at a time as the track and the 64 KB segment
allow; `main` then moves the user program to its pages. The words `sread`, `head` and `track` of the boot sector are kept
apart from memory. The messages, the A20 line, the interrupt controllers and the switch to protected mode are left out.
-/

namespace ZeosSOA.Boot

/-- `SEC_PISTA`, the value of `sectors`. -/
abbrev secPista : Nat := 18
abbrev bootseg : Nat := 0x07C0
abbrev initseg : Nat := 0x9000
abbrev sysseg : Nat := 0x1000

/-- Physical memory, or the bytes of the disk. -/
abbrev Bytes : Type := Nat → UInt8

def word (m : Bytes) (a : Nat) : Nat := (m a).toNat + 256 * (m (a + 1)).toNat

def setupSects (m : Bytes) : Nat := (m (initseg * 16 + 497)).toNat

def syssize (m : Bytes) : Nat := word m (initseg * 16 + 500)

/-- The place on a disk with two sides; sectors count from 1. -/
def linear (cylinder head sector : Nat) : Nat := (cylinder * 2 + head) * secPista + (sector - 1)

/-- `len` bytes from `src` on are put at `dest`. -/
def place (m : Bytes) (dest len : Nat) (src : Bytes) : Bytes := fun a =>
  if dest ≤ a ∧ a < dest + len then src (a - dest) else m a

/-- `int 0x13` with `ah = 2`. An error is `none`: what is read ends with the track, and does not cross 64 KB. -/
def int13 (disk : Bytes) (al ch cl dh es bx : Nat) (m : Bytes) : Option Bytes :=
  if 1 ≤ al ∧ 1 ≤ cl ∧ cl + al ≤ secPista + 1 ∧ ch < 80 ∧ (es * 16 + bx) % 0x10000 + 512 * al ≤ 0x10000 then
    some (place m (es * 16 + bx) (512 * al) fun i => disk (512 * linear ch dh cl + i))
  else none

structure ReadState where
  es : Nat
  bx : Nat
  sread : Nat
  head : Nat
  track : Nat
  mem : Bytes

/-- `ax` sectors from `track`, `head` and `sread` on. -/
def readTrack (disk : Bytes) (ax : Nat) (s : ReadState) : Option ReadState := do
  let mem ← int13 disk (ax % 256) (s.track % 256) ((s.sread + 1) % 256) (s.head % 2) s.es s.bx s.mem
  return { s with mem }

/-- The sectors up to the end of the track, or, if these go beyond the segment, up to its end. -/
def sectorsToRead (s : ReadState) : Nat :=
  let ax := (secPista + 2 ^ 16 - s.sread) % 2 ^ 16
  let cx := ax * 512 % 2 ^ 16
  if cx + s.bx ≤ 2 ^ 16 then ax else (2 ^ 16 - s.bx) % 2 ^ 16 / 512

def advanceTrack (ax : Nat) (s : ReadState) : ReadState :=
  if (ax + s.sread) % 2 ^ 16 = secPista then
    let head := (1 + 2 ^ 16 - s.head) % 2 ^ 16
    { s with head, track := if head = 0 then (s.track + 1) % 2 ^ 16 else s.track, sread := 0 }
  else { s with sread := (ax + s.sread) % 2 ^ 16 }

def advanceSegment (cx : Nat) (s : ReadState) : ReadState :=
  let bx := s.bx + cx * 512 % 2 ^ 16
  if bx < 2 ^ 16 then { s with bx } else { s with es := (s.es + 0x1000) % 2 ^ 16, bx := 0 }

/-- From `ok1_read` to `jmp rp_read`. -/
def readRound (disk : Bytes) (s : ReadState) : Option ReadState := do
  let ax := sectorsToRead s
  let s ← readTrack disk ax s
  return advanceSegment ax (advanceTrack ax s)

/-- `rp_read`; `none` when the rounds do not suffice. -/
def rpRead (disk : Bytes) : Nat → ReadState → Option ReadState
  | 0, _ => none
  | fuel + 1, s =>
    if (s.es + 2 ^ 16 - sysseg) % 2 ^ 16 ≤ syssize s.mem then do
      let s ← readRound disk s
      rpRead disk fuel s
    else return s

/-- `none` also stands for the endless loop at `die`. -/
def readIt (disk : Bytes) (fuel es : Nat) (mem : Bytes) : Option ReadState :=
  if es % 0x1000 = 0 then
    rpRead disk fuel { es, bx := 0, sread := (setupSects mem + 1) % 256, head := 0, track := 0, mem }
  else none

/-- From `_main` on; what the BIOS has put at `0x7C00` is moved first. -/
def bootsect (disk : Bytes) (fuel : Nat) (mem : Bytes) : Option Bytes := do
  let s ← readIt disk fuel sysseg (place mem (initseg * 16) 512 fun i => mem (bootseg * 16 + i))
  return s.mem

abbrev kernelStart : Nat := 0x10000

def dword (m : Bytes) (a : Nat) : Nat :=
  (m a).toNat + 256 * (m (a + 1)).toNat + 65536 * (m (a + 2)).toNat + 16777216 * (m (a + 3)).toNat

/-- What `main` and the user program find in memory: the system behind the twelve bytes of the sizes, and the user program
behind the system. From there to the boot sector's new place is what was there, or what the disk has behind the image. Nothing
is said of the data of the BIOS, nor of the boot sector and of its stack behind it. -/
structure Booted (rdtr : Nat) (system user : List UInt8) (disk mem mem' : Bytes) : Prop where
  sysSize : dword mem' kernelStart = system.length
  usrSize : dword mem' (kernelStart + 4) = user.length
  rdtr : dword mem' (kernelStart + 8) = rdtr
  kernel : ∀ i, 12 ≤ i → ∀ h : i < system.length, mem' (kernelStart + i) = system[i]
  program : ∀ i, ∀ h : i < user.length, mem' (kernelStart + system.length + i) = user[i]
  behind : ∀ a, kernelStart + system.length + user.length ≤ a → a < initseg * 16 →
    mem' a = mem a ∨ mem' a = disk (512 + (a - kernelStart))
  before : ∀ a, 0x500 ≤ a → a < kernelStart → mem' a = mem a

/-- The bytes that `main` still needs when it comes to the user program. -/
def Needed (system user : List UInt8) (a : Nat) : Prop := (kernelStart ≤ a ∧ a < kernelStart + 8) ∨
  (kernelStart + system.length ≤ a ∧ a < kernelStart + system.length + user.length)

/-- Task 1's memory, for the kernel: the first megabyte but for page 0 and the guard pages, and the user pages of code and
data. -/
def task1Space (guard : Nat → Bool) : Transfer X86.Memory where
  load m a := if Within 0x1000 0xFF000 a ∧ guard (a.toNat / 4096) = false then some (m a) else none
  store m a v := if Within 0x100000 (28 * 4096) a then some (Function.update m a v) else none

/-- The last `copy_data` of `main`: `copy_data(KERNEL_START + *p_sys_size, usr_main, *p_usr_size)`. -/
def moveUser (guard : Nat → Bool) (m : X86.Memory) : Option X86.Memory :=
  let pSysSize := X86.load m 0x10000
  let pUsrSize := X86.load m 0x10004
  (task1Space guard).copyData m (0x10000 + pSysSize) 0x100000 (X86.signed pUsrSize)

/-! ## One round -/

/-- `n` sectors after the boot sector lie at `0x10000`. -/
structure Loaded (disk mem : Bytes) (n : Nat) (s : ReadState) : Prop where
  next : linear s.track s.head (s.sread + 1) = 1 + n
  sread : s.sread < secPista
  head : s.head < 2
  aligned : s.es % 0x1000 = 0
  sectors : s.bx % 512 = 0
  position : s.es * 16 + s.bx = 0x10000 + 512 * n
  bx : s.bx < 2 ^ 16
  count : n ≤ 1024
  mem : s.mem = place mem 0x10000 (512 * n) fun i => disk (512 + i)

section
variable {disk mem : Bytes} {n : Nat} {s : ReadState}

theorem place_inside {m src : Bytes} {dest len a : Nat} (h : dest ≤ a ∧ a < dest + len) :
    place m dest len src a = src (a - dest) :=
  if_pos h

theorem place_outside {m src : Bytes} {dest len a : Nat} (h : ¬ (dest ≤ a ∧ a < dest + len)) :
    place m dest len src a = m a :=
  if_neg h

theorem place_place {m src src' : Bytes} {dest len len' : Nat} (h : ∀ i < len', src' i = src (len + i)) :
    place (place m dest len src) (dest + len) len' src' = place m dest (len + len') src := by
  funext a
  by_cases hlow : a < dest + len
  · rw [place_outside (by omega)]
    by_cases ha : dest ≤ a
    · rw [place_inside ⟨ha, hlow⟩, place_inside (by omega)]
    · rw [place_outside (by omega), place_outside (by omega)]
  · by_cases ha : a < dest + len + len'
    · rw [place_inside (by omega), place_inside (by omega), h _ (by omega)]
      congr 1
      omega
    · rw [place_outside (by omega), place_outside (by omega), place_outside (by omega)]

@[simp] theorem advanceTrack_es {k : Nat} : (advanceTrack k s).es = s.es := by
  unfold advanceTrack
  split <;> rfl

@[simp] theorem advanceTrack_bx {k : Nat} : (advanceTrack k s).bx = s.bx := by
  unfold advanceTrack
  split <;> rfl

@[simp] theorem advanceTrack_mem {k : Nat} : (advanceTrack k s).mem = s.mem := by
  unfold advanceTrack
  split <;> rfl

@[simp] theorem advanceSegment_sread {k : Nat} : (advanceSegment k s).sread = s.sread := by
  simp only [advanceSegment]
  split <;> rfl

@[simp] theorem advanceSegment_head {k : Nat} : (advanceSegment k s).head = s.head := by
  simp only [advanceSegment]
  split <;> rfl

@[simp] theorem advanceSegment_track {k : Nat} : (advanceSegment k s).track = s.track := by
  simp only [advanceSegment]
  split <;> rfl

@[simp] theorem advanceSegment_mem {k : Nat} : (advanceSegment k s).mem = s.mem := by
  simp only [advanceSegment]
  split <;> rfl

/-- Behind the last sector of one side comes the first one of the other side, and then of the next track. -/
theorem advanceTrack_next {k : Nat} (hk : s.sread + k ≤ secPista) (hs : s.sread < secPista) (hh : s.head < 2)
    (ht : s.track < 80) : (advanceTrack k s).sread < secPista ∧ (advanceTrack k s).head < 2 ∧
      linear (advanceTrack k s).track (advanceTrack k s).head ((advanceTrack k s).sread + 1) =
        linear s.track s.head (s.sread + 1) + k := by
  simp only [linear, secPista, Nat.add_sub_cancel] at *
  unfold advanceTrack
  by_cases hend : (k + s.sread) % 2 ^ 16 = secPista
  · rw [if_pos hend]
    simp only [secPista] at hend
    by_cases hhead : s.head = 0
    · have hother : (1 + 2 ^ 16 - s.head) % 2 ^ 16 = 1 := by omega
      simp only [hother, Nat.one_ne_zero, if_false]
      omega
    · have hother : (1 + 2 ^ 16 - s.head) % 2 ^ 16 = 0 := by omega
      simp only [hother, if_true]
      omega
  · rw [if_neg hend]
    simp only [secPista] at hend ⊢
    omega

theorem advanceSegment_next {k : Nat} (hk : s.bx + 512 * k ≤ 2 ^ 16) (hlt : s.bx < 2 ^ 16) (hsec : s.bx % 512 = 0)
    (hal : s.es % 0x1000 = 0) (hes : s.es < initseg) (hle : k ≤ secPista) : (advanceSegment k s).bx < 2 ^ 16 ∧
      (advanceSegment k s).bx % 512 = 0 ∧ (advanceSegment k s).es % 0x1000 = 0 ∧
      (advanceSegment k s).es * 16 + (advanceSegment k s).bx = s.es * 16 + s.bx + 512 * k := by
  simp only [initseg, secPista] at *
  simp only [advanceSegment]
  split
  · dsimp only
    omega
  · dsimp only
    have hover : (s.es + 0x1000) % 2 ^ 16 = s.es + 0x1000 := Nat.mod_eq_of_lt (by omega)
    rw [hover]
    omega

/-- At least one sector is read, in the track and in the segment, and what is read goes to the end of one of them. -/
theorem Loaded.toRead (h : Loaded disk mem n s) : 1 ≤ sectorsToRead s ∧ s.sread + sectorsToRead s ≤ secPista ∧
    s.bx + 512 * sectorsToRead s ≤ 2 ^ 16 ∧
    (s.sread + sectorsToRead s < secPista → s.bx + 512 * sectorsToRead s = 2 ^ 16) := by
  have hs := h.sread
  have hbx := h.bx
  have hsec := h.sectors
  simp only [sectorsToRead, secPista] at *
  split <;> omega

theorem Loaded.number (h : Loaded disk mem n s) : (s.track * 2 + s.head) * 18 + s.sread = 1 + n := h.next

theorem Loaded.bound (h : Loaded disk mem n s) (hes : s.es < initseg) : n < 1024 := by
  have hpos := h.position
  have hal := h.aligned
  have hbx := h.bx
  simp only [initseg] at hes
  omega

theorem Loaded.readTrack (h : Loaded disk mem n s) (hes : s.es < initseg) : readTrack disk (sectorsToRead s) s =
    some { s with mem := place mem 0x10000 (512 * (n + sectorsToRead s)) fun i => disk (512 + i) } := by
  obtain ⟨hone, hend, hseg, -⟩ := h.toRead
  have hlt := h.bound hes
  have hnum := h.number
  have hpos := h.position
  have hal := h.aligned
  generalize sectorsToRead s = k at hone hend hseg ⊢
  simp only [secPista] at hend
  have htrack : s.track % 256 = s.track := Nat.mod_eq_of_lt (by omega)
  have hhead : s.head % 2 = s.head := Nat.mod_eq_of_lt h.head
  have hsread : (s.sread + 1) % 256 = s.sread + 1 := Nat.mod_eq_of_lt (by omega)
  have hk : k % 256 = k := Nat.mod_eq_of_lt (by omega)
  have hok : 1 ≤ k ∧ 1 ≤ s.sread + 1 ∧ s.sread + 1 + k ≤ secPista + 1 ∧ s.track < 80 ∧
      (s.es * 16 + s.bx) % 0x10000 + 512 * k ≤ 0x10000 := by
    simp only [secPista]
    omega
  rw [Boot.readTrack, int13, htrack, hhead, hsread, hk, h.next, if_pos hok, h.mem, hpos, place_place, ← Nat.mul_add]
  · rfl
  · intro i hi
    congr 1
    omega

/-- A disk sector may be the last one of its track, and of its side, and a memory sector the last one of its segment. -/
theorem Loaded.round (h : Loaded disk mem n s) (hes : s.es < initseg) : ∃ k s', 1 ≤ k ∧ readRound disk s = some s' ∧
    Loaded disk mem (n + k) s' := by
  obtain ⟨hone, hend, hseg, hfull⟩ := h.toRead
  have hnum := h.number
  have hs := h.sread
  have hh := h.head
  have hpos := h.position
  have hal := h.aligned
  have hsec := h.sectors
  have hlt := h.bound hes
  refine ⟨sectorsToRead s, _, hone, by rw [readRound, h.readTrack hes]; rfl, ?_⟩
  generalize sectorsToRead s = k at hone hend hseg ⊢
  generalize hm : place mem 0x10000 (512 * (n + k)) (fun i => disk (512 + i)) = m
  obtain ⟨hsread, hhead, hlin⟩ := advanceTrack_next (s := { s with mem := m }) hend hs hh (by simp only; omega)
  obtain ⟨hbx, hsectors, haligned, hposition⟩ :=
    advanceSegment_next (s := advanceTrack k { s with mem := m }) (k := k) (by simpa using hseg) (by simpa using h.bx)
      (by simpa using h.sectors) (by simpa using h.aligned) (by simpa using hes)
      (Nat.le_of_add_left_le hend)
  constructor
  case next => simpa [h.next, Nat.add_assoc] using hlin
  case sread => simpa using hsread
  case head => simpa using hhead
  case position =>
    rw [hposition]
    simp only [advanceTrack_es, advanceTrack_bx, hpos]
    omega
  case count =>
    simp only [initseg] at hes
    omega
  case mem => simp [hm]
  all_goals assumption


/-! ## The whole image -/

theorem syssize_place {src : Bytes} (h : n ≤ 1024) : syssize (place mem 0x10000 (512 * n) src) = syssize mem := by
  rw [syssize, word, place_outside (by simp only [initseg]; omega), place_outside (by simp only [initseg]; omega)]
  rfl

theorem Loaded.rounds (h : Loaded disk mem n s) (hsize : syssize mem < 0x8000) : ∃ n' s', Loaded disk mem n' s' ∧
    16 * syssize mem ≤ 512 * n' ∧ ∀ fuel, 1024 - n < fuel → rpRead disk fuel s = some s' := by
  induction hd : 1024 - n using Nat.strongRecOn generalizing n s with
  | ind d ih =>
    have hmore : syssize s.mem = syssize mem := by rw [h.mem, syssize_place h.count]
    have hpos := h.position
    have hal := h.aligned
    have hbx := h.bx
    have hcount := h.count
    by_cases hlast : (s.es + 2 ^ 16 - sysseg) % 2 ^ 16 ≤ syssize s.mem
    · have hes : s.es < initseg := by
        simp only [initseg, sysseg] at *
        omega
      obtain ⟨k, s', hk, hround, hs'⟩ := h.round hes
      have hleft := h.bound hes
      obtain ⟨n', s'', hs'', hall, hrun⟩ := ih (1024 - (n + k)) (by omega) hs' rfl
      refine ⟨n', s'', hs'', hall, ?_⟩
      intro fuel hfuel
      cases fuel with
      | zero => omega
      | succ fuel =>
        rw [rpRead, if_pos hlast, hround]
        exact hrun fuel (by omega)
    · refine ⟨n, s, h, ?_, ?_⟩
      · rw [hmore] at hlast
        simp only [sysseg] at hlast
        omega
      · intro fuel hfuel
        cases fuel with
        | zero => omega
        | succ fuel =>
          rw [rpRead, if_neg hlast]
          rfl

theorem loaded_start (disk mem : Bytes) :
    Loaded disk mem 0 { es := sysseg, bx := 0, sread := 1, head := 0, track := 0, mem } where
  next := rfl
  sread := (by decide : 1 < 18)
  head := (by decide : 0 < 2)
  aligned := Nat.mod_self _
  sectors := Nat.zero_mod _
  position := (by decide : 0x1000 * 16 + 0 = 0x10000 + 512 * 0)
  bx := Nat.two_pow_pos 16
  count := Nat.zero_le _
  mem := funext fun a => (place_outside (by omega)).symm

theorem bootsect_loads (hsetup : mem (bootseg * 16 + 497) = 0) (hsize : word mem (bootseg * 16 + 500) < 0x8000) :
    ∃ n ≤ 1024, 16 * word mem (bootseg * 16 + 500) ≤ 512 * n ∧ ∀ fuel, 1024 < fuel →
      bootsect disk fuel mem = some (place (place mem (initseg * 16) 512 fun i => mem (bootseg * 16 + i)) 0x10000 (512 * n)
        fun i => disk (512 + i)) := by
  generalize hm : place mem (initseg * 16) 512 (fun i => mem (bootseg * 16 + i)) = m
  have hat : ∀ i < 512, m (initseg * 16 + i) = mem (bootseg * 16 + i) := by
    intro i hi
    rw [← hm, place_inside (by omega), Nat.add_sub_cancel_left]
  have hsys : syssize m = word mem (bootseg * 16 + 500) := by
    rw [syssize, word, word, hat 500 (by decide), Nat.add_assoc (initseg * 16), hat (500 + 1) (by decide), Nat.add_assoc]
  have hsects : setupSects m = 0 := by
    rw [setupSects, hat 497 (by decide), hsetup]
    rfl
  obtain ⟨n, s, hs, hall, hrun⟩ := (loaded_start disk m).rounds (by omega)
  refine ⟨n, hs.count, by omega, ?_⟩
  intro fuel hfuel
  rw [bootsect, hm, readIt, if_pos (by decide), hsects]
  simp only [Nat.zero_add, Nat.one_mod]
  rw [hrun fuel (by omega), ← hs.mem]
  rfl

theorem dword_length24 {a : Nat} (h : ∀ k < 4, (length24 n)[k]? = some (mem (a + k))) (hn : n < 2 ^ 24) :
    dword mem a = n := by
  have h0 := h 0 (by decide)
  have h1 := h 1 (by decide)
  have h2 := h 2 (by decide)
  have h3 := h 3 (by decide)
  simp only [length24, byteAt, List.getElem?_cons_zero, List.getElem?_cons_succ, Option.some.injEq,
    Nat.add_zero] at h0 h1 h2 h3
  rw [dword, ← h0, ← h1, ← h2, ← h3]
  simp only [UInt8.toNat_ofNat', UInt8.toNat_zero, Nat.reducePow, Nat.div_one]
  omega

theorem load_dword {m : X86.Memory} {b : UInt32} {a : Nat} (hb : b.toNat = a) (ha : a + 4 ≤ 2 ^ 32)
    (h : ∀ c : UInt32, a ≤ c.toNat → c.toNat < a + 4 → m c = mem c.toNat) : X86.load m b = .ofNat (dword mem a) := by
  have hbyte : ∀ k < 4, m (b + .ofNat k) = mem (a + k) := by
    intro k hk
    have hoff := X86.offset_add (d := b) (k := k) (by omega)
    rw [h _ (by omega) (by omega), hoff, hb]
  have h0 : m b = mem a := by simpa using hbyte 0 (by decide)
  have h1 : m (b + 1) = mem (a + 1) := hbyte 1 (by decide)
  have h2 : m (b + 2) = mem (a + 2) := hbyte 2 (by decide)
  have h3 : m (b + 3) = mem (a + 3) := hbyte 3 (by decide)
  rw [X86.load, h0, h1, h2, h3, dword]

variable {rdtr : Nat} {system user image : List UInt8} {mem' : Bytes}

theorem moveUser_moves (h : Booted rdtr system user disk mem mem') (hsize : system.length + user.length ≤ 0x7FFF0)
    (husr : user.length ≤ 28 * 4096) {guard : Nat → Bool}
    (hguard : ∀ page, guard page = true → page * 4096 + 4096 ≤ kernelStart + system.length) {m : X86.Memory}
    (hm : ∀ a : UInt32, Needed system user a.toNat → m a = mem' a.toNat) :
    ∃ m', moveUser guard m = some m' ∧ (∀ i, ∀ h : i < user.length, m' (0x100000 + .ofNat i) = user[i]) ∧
      ∀ a, ¬ Within 0x100000 user.length a → m' a = m a := by
  simp only [Needed, kernelStart] at hm hguard
  have hsys : X86.load m 0x10000 = .ofNat system.length := by
    rw [← h.sysSize]
    exact load_dword (a := 0x10000) rfl (by decide) fun c hlow hhigh => hm c (.inl (by omega))
  have husz : X86.load m 0x10004 = .ofNat user.length := by
    rw [← h.usrSize]
    exact load_dword (a := 0x10004) rfl (by decide) fun c hlow hhigh => hm c (.inl (by omega))
  have hulen : (UInt32.ofNat user.length).toNat = user.length := by rw [UInt32.toNat_ofNat', Nat.mod_eq_of_lt (by omega)]
  have hsigned : X86.signed (.ofNat user.length) = user.length := by
    rw [X86.signed, X86.negative_eq, hulen, decide_eq_false (by omega)]
    rfl
  have hten : (0x10000 : UInt32).toNat = 0x10000 := rfl
  have hdest : (0x100000 : UInt32).toNat = 0x100000 := rfl
  have hsrc : (0x10000 + UInt32.ofNat system.length).toNat = 0x10000 + system.length := by
    rw [X86.offset_add (by omega), hten]
  rw [moveUser, hsys, husz, hsigned, Transfer.copyData, Int.toNat_natCast]
  generalize 0x10000 + UInt32.ofNat system.length = src at hsrc
  have hoff : ∀ i < user.length, (src + .ofNat i).toNat = 0x10000 + system.length + i := by
    intro i hi
    rw [X86.offset_add (by omega), hsrc]
  have hcopy : copyWords (task1Space guard) user.length m src 0x100000 =
      some (Sysenter.copied m src 0x100000 user.length) := by
    apply Sysenter.copyWords_copied
    · intro m i hi
      have hin := hoff i hi
      have hwithin : 0x1000 ≤ (src + .ofNat i).toNat ∧ (src + .ofNat i).toNat < 0x1000 + 0xFF000 := by omega
      refine if_pos ⟨hwithin, Bool.eq_false_iff.mpr fun hpage => ?_⟩
      have hbelow := hguard _ hpage
      omega
    · intro m v i hi
      exact if_pos (within_add (by decide) (by omega))
    · omega
    · intro i hi
      rw [UInt32.toNat_sub, hoff i hi]
      omega
  refine ⟨_, hcopy, ?_, ?_⟩
  · intro i hi
    have hi' : (UInt32.ofNat i).toNat = i := by rw [UInt32.toNat_ofNat', Nat.mod_eq_of_lt (by omega)]
    rw [Sysenter.copied, X86.add_sub_self, hi', if_pos hi, hm _ (.inr (by rw [hoff i hi]; omega)), hoff i hi]
    exact h.program i hi
  · intro a ha
    apply Sysenter.copied_other
    have hlt := a.toNat_lt
    rw [UInt32.toNat_sub]
    simp only [Within] at ha
    omega

theorem image_written {sector : List UInt8} {argv : Fin 4 → String}
    (hmain : main rdtr argv sector system user = .ok image) (hsys : 12 ≤ system.length)
    (hsize : system.length + user.length ≤ 0x7FFF0) : image.length = 512 + system.length + user.length ∧
      ∃ boot : List UInt8, boot.length = 512 ∧ (∀ i < 508, boot[i]? = sector[32 + i]?) ∧
        image = writeSizes rdtr system.length user.length (boot ++ system ++ user) := by
  rw [main_eq (by omega) (by omega)] at hmain
  cases hboot : bootSector (argv 1) sector with
  | error e =>
    rw [hboot] at hmain
    cases hmain
  | ok boot =>
    rw [hboot] at hmain
    have himage := Except.ok.inj hmain
    obtain ⟨hlen, hbytes⟩ := bootSector_ok hboot
    have hall : (boot ++ system ++ user).length = 512 + system.length + user.length := by
      rw [List.length_append, List.length_append, hlen]
    refine ⟨?_, boot, hlen, hbytes, himage.symm⟩
    rw [← himage, (writeSizes_spec _ _ _ _ (by omega)).1, hall]

/-- The image behind its boot sector, put at `0x10000`. -/
theorem image_booted {boot : List UInt8}
    (himage : image = writeSizes rdtr system.length user.length (boot ++ system ++ user))
    (hboot : boot.length = 512) (hrdtr : rdtr < 2 ^ 24) (hsys : 12 ≤ system.length)
    (hsize : system.length + user.length ≤ 0x7FFF0)
    (hbyte : ∀ j < system.length + user.length, image[512 + j]? = some (mem' (kernelStart + j)))
    (hbehind : ∀ a, kernelStart ≤ a → a < initseg * 16 → mem' a = mem a ∨ mem' a = disk (512 + (a - kernelStart)))
    (hbefore : ∀ a, a < kernelStart → mem' a = mem a) : Booted rdtr system user disk mem mem' := by
  have hall : (boot ++ system ++ user).length = 512 + system.length + user.length := by
    rw [List.length_append, List.length_append, hboot]
  have hat := (writeSizes_spec rdtr system.length user.length (boot ++ system ++ user) (by omega)).2
  simp only [himage, hat] at hbyte
  constructor
  case sysSize =>
    apply dword_length24 _ (by omega)
    intro k hk
    rw [← hbyte k (by omega), if_neg (by omega), if_neg (by omega), if_pos (by omega), Nat.add_sub_cancel_left]
  case usrSize =>
    apply dword_length24 _ (by omega)
    intro k hk
    have hk' : 512 + (4 + k) - 516 = k := by omega
    rw [Nat.add_assoc, ← hbyte (4 + k) (by omega), if_neg (by omega), if_pos (by omega), hk']
  case rdtr =>
    apply dword_length24 _ hrdtr
    intro k hk
    have hk' : 512 + (8 + k) - 520 = k := by omega
    rw [Nat.add_assoc, ← hbyte (8 + k) (by omega), if_pos (by omega), hk']
  case kernel =>
    intro i hi h
    apply Option.some.inj
    rw [← hbyte i (by omega), if_neg (by omega), if_neg (by omega), if_neg (by omega), if_neg (by omega)]
    rw [List.append_assoc, List.getElem?_append_right (by omega), List.getElem?_append_left (by omega), hboot,
      Nat.add_sub_cancel_left]
    exact List.getElem?_eq_getElem h
  case program =>
    intro i h
    apply Option.some.inj
    have hi : 512 + (system.length + i) - (512 + system.length) = i := by omega
    rw [Nat.add_assoc, ← hbyte (system.length + i) (by omega), if_neg (by omega), if_neg (by omega), if_neg (by omega)]
    rw [if_neg (by omega), List.getElem?_append_right (by rw [List.length_append]; omega), List.length_append, hboot, hi]
    exact List.getElem?_eq_getElem h
  case behind => exact fun a ha => hbehind a (by omega)
  case before => exact fun a _ => hbefore a

/-- From the files to the user program: what `build` puts together, the boot sector loads, and `main` moves the user program
to where it is entered. -/
theorem image_boots {sector : List UInt8} {argv : Fin 4 → String} (disk mem : Bytes)
    (hmain : main rdtr argv sector system user = .ok image) (hrdtr : rdtr < 2 ^ 24) (hsetup : sector[32 + 497]? = some 0)
    (hsys : 12 ≤ system.length) (hsize : system.length + user.length ≤ 0x7FFF0) (husr : user.length ≤ 28 * 4096)
    {guard : Nat → Bool} (hguard : ∀ page, guard page = true → page * 4096 + 4096 ≤ kernelStart + system.length)
    (hdisk : ∀ i < image.length, image[i]? = some (disk i)) (hbios : ∀ i < 512, mem (bootseg * 16 + i) = disk i) :
    ∃ mem', (∀ fuel, 1024 < fuel → bootsect disk fuel mem = some mem') ∧ Booted rdtr system user disk mem mem' ∧
      ∀ m : X86.Memory, (∀ a : UInt32, Needed system user a.toNat → m a = mem' a.toNat) → ∃ m',
        moveUser guard m = some m' ∧ (∀ i, ∀ h : i < user.length, m' (0x100000 + .ofNat i) = user[i]) ∧
        ∀ a, ¬ Within 0x100000 user.length a → m' a = m a := by
  obtain ⟨hlen, boot, hboot, hbytes, himage⟩ := image_written hmain hsys hsize
  have hall : (boot ++ system ++ user).length = 512 + system.length + user.length := by
    rw [List.length_append, List.length_append, hboot]
  have hat : ∀ i < 512, some (disk i) = _ := fun i hi => (hdisk i (by omega)).symm.trans
    ((congrArg (fun l : List UInt8 => l[i]?) himage).trans ((writeSizes_spec _ _ _ _ (by omega)).2 i))
  have hsects : mem (bootseg * 16 + 497) = 0 := by
    have h497 := hat 497 (by decide)
    rw [List.append_assoc, List.getElem?_append_left (by omega), hbytes 497 (by decide), hsetup] at h497
    rw [hbios 497 (by decide)]
    exact Option.some.inj h497
  have hword : word mem (bootseg * 16 + 500) = (system.length + user.length + 15) / 16 := by
    have h500 := hat 500 (by decide)
    have h501 := hat 501 (by decide)
    simp only [length16, byteAt] at h500 h501
    rw [word, hbios 500 (by decide), Nat.add_assoc, hbios (500 + 1) (by decide), Option.some.inj h500, Option.some.inj h501]
    simp only [UInt8.toNat_ofNat', Nat.reducePow, Nat.div_one]
    omega
  obtain ⟨n, hn, hcount, hrun⟩ := @bootsect_loads disk mem hsects (by omega)
  generalize hmoved : place mem (initseg * 16) 512 (fun i => mem (bootseg * 16 + i)) = moved at hrun
  have hkept : ∀ a, a < initseg * 16 → moved a = mem a := fun a ha => by
    rw [← hmoved, place_outside (by omega)]
  have hbooted : Booted rdtr system user disk mem (place moved kernelStart (512 * n) fun i => disk (512 + i)) := by
    apply image_booted himage hboot hrdtr hsys hsize
    · intro j hj
      rw [place_inside (by omega), Nat.add_sub_cancel_left, hdisk _ (by omega)]
    · intro a ha hlt
      by_cases hin : a < kernelStart + 512 * n
      · exact .inr (place_inside ⟨ha, hin⟩)
      · exact .inl ((place_outside (by omega)).trans (hkept a hlt))
    · intro a ha
      have hlt : a < initseg * 16 := Nat.lt_trans ha (by decide)
      exact (place_outside (by omega)).trans (hkept a hlt)
  exact ⟨_, hrun, hbooted, fun m hm => moveUser_moves hbooted hsize husr hguard hm⟩

end

/-- A boot sector without code, a system that is one guard page and a user program of three bytes. -/
theorem image_boots_small : ∃ image disk mem mem', main 0x7E1A (fun _ => "")
      (hdr ++ List.replicate 534 0 ++ [0x55, 0xAA]) (List.replicate 4096 0x90) [1, 2, 3] = .ok image ∧
    (∀ fuel, 1024 < fuel → bootsect disk fuel mem = some mem') ∧
      Booted 0x7E1A (List.replicate 4096 0x90) [1, 2, 3] disk mem mem' := by
  have hlen : (List.replicate 4096 (0x90 : UInt8)).length = 4096 := List.length_replicate
  have hboot : (bootSector "" (hdr ++ List.replicate 534 0 ++ [0x55, 0xAA])).isOk = true := by decide +kernel
  have hmain : main 0x7E1A (fun _ => "") (hdr ++ List.replicate 534 0 ++ [0x55, 0xAA]) (List.replicate 4096 0x90) [1, 2, 3] =
    _ := main_eq (by omega) (by decide)
  cases hok : bootSector "" (hdr ++ List.replicate 534 0 ++ [0x55, 0xAA]) with
  | error e =>
    rw [hok] at hboot
    cases hboot
  | ok boot =>
    rw [hok] at hmain
    have hguard : ∀ page, (page == 16) = true → page * 4096 + 4096 ≤ kernelStart + (List.replicate 4096 (0x90 : UInt8)).length := by
      intro page hpage
      rw [beq_iff_eq.mp hpage, hlen]
    obtain ⟨mem', hrun, hbooted, -⟩ := image_boots (fun i => (writeSizes _ _ _ _)[i]?.getD 0)
      (fun a => (writeSizes _ _ _ _)[a - bootseg * 16]?.getD 0) hmain (by decide) (by decide +kernel) (by omega)
      (by rw [hlen]; decide) (by decide) hguard (fun i hi => by rw [List.getElem?_eq_getElem hi]; rfl)
      (fun i hi => by rw [Nat.add_sub_cancel_left])
    exact ⟨_, _, _, mem', hmain, hrun, hbooted⟩

end ZeosSOA.Boot
