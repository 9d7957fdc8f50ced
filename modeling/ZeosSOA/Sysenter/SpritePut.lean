import ZeosSOA.Sysenter.Sprite

/-!
# ZeOSSysenter: sys_spritePut

The first argument of the call is a row and the second a column. `draws_iff` compares what is drawn
with the rectangle of the sprite, `failed_iff` is about calls that return an error, and
`private_iff` says which bytes the screen can show.
-/

namespace ZeosSOA.Sysenter.Terminal

/-- The call gets as far as the content. -/
structure Accepted (posX posY : Int) (sp : UInt32) (s : Sprite) : Prop where
  access : accessOk .verifyRead sp sizeSprite none = true
  row : 0 ≤ posX ∧ posX < numRows
  col : 0 ≤ posY ∧ posY < numColumns
  content : s.content ≠ 0
  rows : 0 < s.x ∧ s.x ≤ numRows
  cols : 0 < s.y ∧ s.y ≤ numColumns

/-- The cell of the byte `j` of the content. -/
def cellOf (posX posY : Int) (s : Sprite) (j : Nat) : Nat := spriteCell posY.toNat posX.toNat s.y.toNat j

section
variable {mem : UInt32 → Option UInt8} {k k' : Terminal} {posX posY r : Int} {sp : UInt32} {s : Sprite}

theorem sysSpritePut_of_accepted (hs : loadSprite mem sp = some s) (h : Accepted posX posY sp s) :
    sysSpritePut mem k posX posY sp =
      let cs := text mem (s.size) s.content
      let k' := k.drawn (cellOf posX posY s) 0 cs
      if cs.length = s.size then some (0, k') else (mem (s.content + .ofNat cs.length)).map fun _ => (-EFAULT, k') := by
  obtain ⟨content, hcontent, hs⟩ := Option.bind_eq_some_iff.mp hs
  obtain ⟨x, hx, hs⟩ := Option.bind_eq_some_iff.mp hs
  obtain ⟨y, hy, hs⟩ := Option.bind_eq_some_iff.mp hs
  cases hs
  obtain ⟨hacc, hrow, hcol, hc, hrows, hcols⟩ := h
  dsimp only at hc hrows hcols
  lift posX to Nat using hrow.1 with px
  lift posY to Nat using hcol.1 with py
  lift x to Nat using hrows.1.le with x
  lift y to Nat using hcols.1.le with y
  simp only [numRows, numColumns] at *
  have hsp : sp ≠ 0 := by
    rintro rfl
    exact absurd hacc (by decide)
  have hpos : ¬ (((px : Int) ≥ (25 : Nat) ∨ (px : Int) < 0) ∨ ((py : Int) ≥ (80 : Nat) ∨ (py : Int) < 0)) := by omega
  have hdim : ¬ (((x : Int) ≤ 0 ∨ (y : Int) ≤ 0) ∨ ((x : Int) > (25 : Nat) ∨ (y : Int) > (80 : Nat))) := by omega
  have hrun : spriteRows mem (py : Int) px ⟨x, y, content⟩ x 0 k = spriteFrom mem py px y content (x * y) (0 * y) k :=
    spriteRows_eq x 0 k (Nat.le_of_eq (Nat.zero_add x))
  have hfrom := @spriteFrom_eq mem py px x y content (by omega) (by omega) (x * y) 0 k (Nat.le_of_eq (Nat.zero_add _))
  rw [Nat.zero_mul] at hrun
  have hcall : sysSpritePut mem k px py sp =
      (spriteFrom mem py px y content (x * y) 0 k).map fun r => (if r.1 then 0 else -EFAULT, r.2) := by
    unfold sysSpritePut spriteDraw
    rw [if_neg (not_not.mpr hacc), if_neg hpos, if_neg hsp, hcontent]
    simp only [Option.bind_eq_bind, Option.bind_some, if_neg hc, hx, hy, if_neg hdim, Int.toNat_natCast, hrun]
    cases spriteFrom mem py px y content (x * y) 0 k <;> rfl
  have hsize : Sprite.size ⟨x, y, content⟩ = x * y := rfl
  rw [hcall, hfrom, hsize, show content + UInt32.ofNat 0 = content by simp]
  dsimp only
  rw [Nat.zero_add]
  by_cases hlen : (text mem (x * y) content).length = x * y
  · rw [if_pos hlen, if_pos hlen]
    rfl
  · rw [if_neg hlen, if_neg hlen]
    cases mem (content + .ofNat (text mem (x * y) content).length) <;> rfl

theorem accepted_of_checks {content : UInt32} {x y : Int} (hacc : ¬ ¬ accessOk .verifyRead sp sizeSprite none = true)
    (hpos : ¬ ((posX ≥ numRows ∨ posX < 0) ∨ (posY ≥ numColumns ∨ posY < 0))) (hcontent : loadWord mem (sp + 8) = some content)
    (h0 : content ≠ 0) (hx : loadInt mem sp = some x) (hy : loadInt mem (sp + 4) = some y)
    (hdim : ¬ ((x ≤ 0 ∨ y ≤ 0) ∨ (x > numRows ∨ y > numColumns))) :
    loadSprite mem sp = some ⟨x, y, content⟩ ∧ Accepted posX posY sp ⟨x, y, content⟩ := by
  constructor
  · unfold loadSprite
    rw [hcontent, hx, hy]
    rfl
  · refine ⟨not_not.mp hacc, ?_, ?_, h0, ?_, ?_⟩
    all_goals
      simp only [numRows, numColumns] at *
      omega

/-- A call that comes back without having looked at the content has changed nothing. -/
theorem sysSpritePut_early (h : sysSpritePut mem k posX posY sp = some (r, k'))
    (hn : ∀ s, loadSprite mem sp = some s → ¬ Accepted posX posY sp s) : k' = k := by
  unfold sysSpritePut spriteDraw at h
  split at h
  · cases h; rfl
  rename_i hacc
  split at h
  · cases h; rfl
  rename_i hpos
  split at h
  · cases h; rfl
  obtain ⟨content, hcontent, h⟩ := Option.bind_eq_some_iff.mp h
  split at h
  · cases h; rfl
  rename_i hc
  obtain ⟨x, hx, h⟩ := Option.bind_eq_some_iff.mp h
  obtain ⟨y, hy, h⟩ := Option.bind_eq_some_iff.mp h
  split at h
  · cases h; rfl
  rename_i hdim
  obtain ⟨hs, ha⟩ := accepted_of_checks hacc hpos hcontent hc hx hy hdim
  exact absurd ha (hn _ hs)

end

/-! ## What it finds in memory -/

/-- The call gets as far as the byte `i` of the content: there is a byte in all places in front of it, and no zero. -/
structure LooksAt (mem : UInt32 → Option UInt8) (s : Sprite) (i : Nat) : Prop where
  lt : i < s.size
  before : ∀ j < i, ∃ c, c ≠ 0 ∧ mem (s.content + .ofNat j) = some c

section
variable {mem mem' : UInt32 → Option UInt8} {k : Terminal} {posX posY : Int} {sp : UInt32} {s : Sprite}

theorem loadWord_congr {a : UInt32} (h : ∀ i < 4, mem' (a + .ofNat i) = mem (a + .ofNat i)) :
    loadWord mem' a = loadWord mem a := by
  have h0 : mem' a = mem a := by simpa using h 0 (by decide)
  have h1 : mem' (a + 1) = mem (a + 1) := h 1 (by decide)
  have h2 : mem' (a + 2) = mem (a + 2) := h 2 (by decide)
  have h3 : mem' (a + 3) = mem (a + 3) := h 3 (by decide)
  rw [loadWord, loadWord, h0, h1, h2, h3]

theorem words_congr (h : ∀ i < sizeSprite, mem' (sp + .ofNat i) = mem (sp + .ofNat i)) :
    loadInt mem' sp = loadInt mem sp ∧ loadInt mem' (sp + 4) = loadInt mem (sp + 4) ∧
      loadWord mem' (sp + 8) = loadWord mem (sp + 8) := by
  have hadd : ∀ j i, sp + .ofNat j + .ofNat i = sp + .ofNat (j + i) := by
    intro j i
    rw [UInt32.add_assoc, UInt32.ofNat_add]
  refine ⟨?_, ?_, ?_⟩
  · rw [loadInt, loadInt, loadWord_congr fun i hi => h i (by simp only [sizeSprite]; omega)]
  · rw [loadInt, loadInt, loadWord_congr fun i hi => ?_]
    have h4 := h (4 + i) (by simp only [sizeSprite]; omega)
    rw [← hadd] at h4
    exact h4
  · apply loadWord_congr
    intro i hi
    have h8 := h (8 + i) (by simp only [sizeSprite]; omega)
    rw [← hadd] at h8
    exact h8

theorem loadSprite_congr (h : ∀ i < sizeSprite, mem' (sp + .ofNat i) = mem (sp + .ofNat i)) :
    loadSprite mem' sp = loadSprite mem sp := by
  obtain ⟨hx, hy, hc⟩ := words_congr h
  rw [loadSprite, loadSprite, hx, hy, hc]

/-- A call that does not get as far as the content depends on the struct only. -/
theorem sysSpritePut_early_congr (h : accessOk .verifyRead sp sizeSprite none = true →
      ∀ i < sizeSprite, mem' (sp + .ofNat i) = mem (sp + .ofNat i))
    (hn : ∀ s, loadSprite mem sp = some s → ¬ Accepted posX posY sp s) :
    sysSpritePut mem' k posX posY sp = sysSpritePut mem k posX posY sp := by
  unfold sysSpritePut spriteDraw
  split
  · rfl
  rename_i hacc
  obtain ⟨hx, hy, hc⟩ := words_congr (h (not_not.mp hacc))
  rw [hx, hy, hc]
  split
  · rfl
  rename_i hpos
  split
  · rfl
  refine Option.bind_congr fun content hcontent => ?_
  split
  · rfl
  rename_i h0
  refine Option.bind_congr fun x hx' => Option.bind_congr fun y hy' => ?_
  split
  · rfl
  rename_i hdim
  obtain ⟨hs, ha⟩ := accepted_of_checks hacc hpos hcontent h0 hx' hy' hdim
  exact absurd ha (hn _ hs)

theorem text_congr : ∀ {n : Nat} {a : UInt32}, (∀ i ≤ (text mem n a).length, i < n → mem' (a + .ofNat i) = mem (a + .ofNat i)) →
    text mem' n a = text mem n a
  | 0, _, _ => rfl
  | n + 1, a, h => by
    have h0 : mem' a = mem a := by simpa using h 0 (Nat.zero_le _) (Nat.succ_pos n)
    rw [text] at h ⊢
    rw [text, h0]
    cases hc : mem a with
    | none => rfl
    | some c =>
      rw [hc] at h
      dsimp only at h ⊢
      by_cases hz : c = 0
      · rw [if_pos hz, if_pos hz]
      · rw [if_neg hz] at h
        rw [if_neg hz, if_neg hz, text_congr fun i hi hn => ?_]
        rw [add_one_ofNat]
        exact h (i + 1) (by rw [List.length_cons]; omega) (by omega)

theorem looksAt_of_le_text {i : Nat} (hi : i ≤ (text mem s.size s.content).length) (hlt : i < s.size) : LooksAt mem s i :=
  ⟨hlt, fun j hj => ⟨_, text_ne_zero _ (List.getElem_mem (Nat.lt_of_lt_of_le hj hi)),
    (text_stored s.size s.content).get j (Nat.lt_of_lt_of_le hj hi)⟩⟩

/-- The call depends on the struct and on the bytes of the content that it looks at. -/
theorem sysSpritePut_congr (hsp : accessOk .verifyRead sp sizeSprite none = true →
      ∀ i < sizeSprite, mem' (sp + .ofNat i) = mem (sp + .ofNat i))
    (hcontent : ∀ s, loadSprite mem sp = some s → Accepted posX posY sp s → ∀ i, LooksAt mem s i →
      mem' (s.content + .ofNat i) = mem (s.content + .ofNat i)) :
    sysSpritePut mem' k posX posY sp = sysSpritePut mem k posX posY sp := by
  by_cases hex : ∃ s, loadSprite mem sp = some s ∧ Accepted posX posY sp s
  · obtain ⟨s, hs, ha⟩ := hex
    have hread : ∀ i ≤ (text mem s.size s.content).length, i < s.size →
        mem' (s.content + .ofNat i) = mem (s.content + .ofNat i) := fun i hi hlt =>
      hcontent s hs ha i (looksAt_of_le_text hi hlt)
    rw [sysSpritePut_of_accepted hs ha, sysSpritePut_of_accepted ((loadSprite_congr (hsp ha.access)).trans hs) ha,
      text_congr hread]
    dsimp only
    by_cases hlen : (text mem s.size s.content).length = s.size
    · rw [if_pos hlen, if_pos hlen]
    · rw [if_neg hlen, if_neg hlen, hread _ (Nat.le_refl _) (lt_of_le_of_ne (text_length_le _ _) hlen)]
  · exact sysSpritePut_early_congr hsp fun s hs ha => hex ⟨s, hs, ha⟩

/-- Where the call stores while it draws: the cells that a sprite can reach, and the page `stack` of the kernel with its
own stack frames. -/
def StoredTo (stack : Nat) (a : UInt32) : Prop :=
  0xb8000 ≤ a.toNat ∧ a.toNat < 0xb8000 + 2 * (2 * (numRows * numColumns)) ∨ a.toNat / pageSize = stack

instance (stack : Nat) (a : UInt32) : Decidable (StoredTo stack a) := inferInstanceAs (Decidable (_ ∨ _))

/-- No byte of the content that the call looks at is one that it stores to. -/
def Apart (stack : Nat) (mem : UInt32 → Option UInt8) (s : Sprite) : Prop :=
  ∀ i, LooksAt mem s i → ¬ StoredTo stack (s.content + .ofNat i)

end

/-! ## The rectangle -/

/-- `sp->content[i]`. -/
def contentAt (mem : UInt32 → Option UInt8) (s : Sprite) (i : Nat) : UInt8 := (mem (s.content + .ofNat i)).getD 0

/-- At that position the sprite is on the screen as a whole. -/
def Fits (posX posY : Int) (s : Sprite) : Prop :=
  0 ≤ posX ∧ posX + s.x ≤ numRows ∧ 0 ≤ posY ∧ posY + s.y ≤ numColumns

instance (posX posY : Int) (s : Sprite) : Decidable (Fits posX posY s) := inferInstanceAs (Decidable (_ ∧ _))

section
variable {mem : UInt32 → Option UInt8} {k : Terminal} {posX posY : Int} {sp : UInt32} {s : Sprite}

theorem Accepted.cellOf_inj (h : Accepted posX posY sp s) {i j : Nat}
    (e : cellOf posX posY s i = cellOf posX posY s j) : i = j := by
  obtain ⟨hpos, hle⟩ := h.cols
  simp only [numColumns] at hle
  exact spriteCell_inj (by omega) (by simp only [numColumns]; omega) e

theorem contentAt_of_text {i : Nat} (hi : i < (text mem s.size s.content).length) :
    contentAt mem s i = (text mem s.size s.content)[i] := by
  rw [contentAt, (text_stored s.size s.content).get i hi]
  rfl

theorem Accepted.drawn_cell (h : Accepted posX posY sp s) {i : Nat} (hi : i < (text mem s.size s.content).length) :
    (k.drawn (cellOf posX posY s) 0 (text mem s.size s.content)).console.screen (cellOf posX posY s i) =
      if contentAt mem s i = 10 then k.console.screen (cellOf posX posY s i) else Console.word k.attr (contentAt mem s i) := by
  have hinj : ∀ i < (text mem s.size s.content).length, ∀ j < (text mem s.size s.content).length,
      cellOf posX posY s (0 + i) = cellOf posX posY s (0 + j) → i = j := by
    intro i _ j _ e
    rw [Nat.zero_add, Nat.zero_add] at e
    exact h.cellOf_inj e
  have hcell := @putCells_cell (Console.word k.attr) (cellOf posX posY s) _ 0 k.console.screen hinj i hi
  rw [Nat.zero_add] at hcell
  rw [contentAt_of_text hi]
  exact hcell

/-- Memory with the bytes `bs` from 0x108000 on, and `c` in every other place. -/
def memoryWith (bs : List UInt8) (c : UInt8) (a : UInt32) : Option UInt8 := some (bs.getD (a - 0x108000).toNat c)

/-- A sprite of one row with the bytes `a` and `b`. -/
def pair (a b : UInt8) : UInt32 → Option UInt8 := memoryWith [1, 0, 0, 0, 2, 0, 0, 0, 12, 128, 16, 0, a, b] 0

end

/-! ## Failed calls -/

/-- The first zero byte of the content is the byte `z`. -/
structure EndsAt (mem : UInt32 → Option UInt8) (s : Sprite) (z : Nat) : Prop where
  lt : z < s.size
  zero : mem (s.content + .ofNat z) = some 0
  before : ∀ i < z, ∃ c, c ≠ 0 ∧ mem (s.content + .ofNat i) = some c

section
variable {mem : UInt32 → Option UInt8} {k : Terminal} {posX posY : Int} {sp : UInt32} {s : Sprite} {z : Nat}

theorem EndsAt.text_length (h : EndsAt mem s z) : (text mem s.size s.content).length = z := by
  have hle := le_text_length h.lt.le h.before
  by_cases hlt : z < (text mem s.size s.content).length
  · have hz := (text_stored s.size s.content).get z hlt
    rw [h.zero] at hz
    exact absurd (Option.some.inj hz).symm (text_ne_zero _ (List.getElem_mem hlt))
  · omega

end

/-! ## What the screen can show -/

/-- An address in the pages of code, data and stack, or in the heap. -/
def UserByte (t : TaskStruct) (a : UInt32) : Prop :=
  lUserStart ≤ a.toNat ∧ a.toNat < dataEnd ∨ t.heapStartProc ≤ a.toNat ∧ a.toNat < t.heapPointerProc

/-- The same pages are mapped, and the memory of the user `t` and the struct at `sp` are the same. -/
structure Similar (t : TaskStruct) (sp : UInt32) (mem mem' : UInt32 → Option UInt8) : Prop where
  mapped : ∀ a, (mem' a).isSome = (mem a).isSome
  user : ∀ a, UserByte t a → mem' a = mem a
  sprite : ∀ i < sizeSprite, mem' (sp + .ofNat i) = mem (sp + .ofNat i)

/-- The value the call returns and the screen it leaves. -/
def outcome (mem : UInt32 → Option UInt8) (k : Terminal) (posX posY : Int) (sp : UInt32) : Option (Int × (Nat → UInt16)) :=
  (sysSpritePut mem k posX posY sp).map fun r => (r.1, r.2.console.screen)

/-- The byte `i` of the content is mapped, and there is no zero in front of it. -/
structure Reads (mem : UInt32 → Option UInt8) (s : Sprite) (i : Nat) : Prop where
  lt : i < s.size
  mapped : ∃ c, mem (s.content + .ofNat i) = some c
  before : ∀ j < i, ∃ c, c ≠ 0 ∧ mem (s.content + .ofNat j) = some c

section
variable {mem mem' : UInt32 → Option UInt8} {k : Terminal} {posX posY : Int} {sp : UInt32} {s : Sprite} {t : TaskStruct}

theorem Similar.loadSprite (h : Similar t sp mem mem') : loadSprite mem' sp = loadSprite mem sp :=
  loadSprite_congr h.sprite

/-- The bytes the call reads are those of the user or of the struct. -/
def ReadsUser (mem : UInt32 → Option UInt8) (posX posY : Int) (sp : UInt32) (t : TaskStruct) : Prop :=
  ∀ s, Sysenter.loadSprite mem sp = some s → Accepted posX posY sp s → ∀ i, Reads mem s i →
    UserByte t (s.content + .ofNat i) ∨ ∃ j < sizeSprite, s.content + .ofNat i = sp + .ofNat j

theorem Similar.same (h : Similar t sp mem mem') (hu : ReadsUser mem posX posY sp t) :
    sysSpritePut mem' k posX posY sp = sysSpritePut mem k posX posY sp := by
  apply sysSpritePut_congr fun _ => h.sprite
  intro s hs ha i hi
  cases hm : mem (s.content + .ofNat i) with
  | none =>
    have := h.mapped (s.content + .ofNat i)
    rw [hm] at this
    exact Option.isNone_iff_eq_none.mp (by simpa using this)
  | some c =>
    rcases hu s hs ha i ⟨hi.lt, ⟨c, hm⟩, hi.before⟩ with huser | ⟨j, hj, e⟩
    · rw [h.user _ huser, hm]
    · rw [e, h.sprite j hj, ← e, hm]

/-- Memory with another byte at one address. -/
def withByte (mem : UInt32 → Option UInt8) (a : UInt32) (c : UInt8) : UInt32 → Option UInt8 := Function.update mem a (some c)

@[simp] theorem withByte_self (mem : UInt32 → Option UInt8) (a : UInt32) (c : UInt8) : withByte mem a c a = some c :=
  Function.update_self ..

theorem withByte_ne {a b : UInt32} (h : b ≠ a) (c : UInt8) : withByte mem a c b = mem b := Function.update_of_ne h ..

theorem similar_withByte {a : UInt32} (hm : ∃ c, mem a = some c) (hu : ¬ UserByte t a)
    (hsp : ¬ ∃ j < sizeSprite, a = sp + .ofNat j) (c : UInt8) : Similar t sp mem (withByte mem a c) where
  mapped b := by
    by_cases e : b = a
    · obtain ⟨c', hc'⟩ := hm
      rw [e, withByte_self, hc']
      rfl
    · rw [withByte_ne e]
  user b hb := withByte_ne (by rintro rfl; exact hu hb) c
  sprite j hj := withByte_ne (fun e => hsp ⟨j, hj, e.symm⟩) c

theorem Reads.before_withByte {i : Nat} (h : Reads mem s i) (hsize : s.size < 2 ^ 32) (c : UInt8) (j : Nat) (hj : j < i) :
    ∃ b, b ≠ 0 ∧ withByte mem (s.content + .ofNat i) c (s.content + .ofNat j) = some b := by
  have hlt := h.lt
  have hne : s.content + .ofNat j ≠ s.content + .ofNat i := by
    intro e
    have := congrArg UInt32.toNat ((UInt32.add_right_inj s.content).mp e)
    rw [UInt32.toNat_ofNat', UInt32.toNat_ofNat', Nat.mod_eq_of_lt (by omega), Nat.mod_eq_of_lt (by omega)] at this
    omega
  rw [withByte_ne hne]
  exact h.before j hj

theorem Accepted.size_lt (h : Accepted posX posY sp s) : s.size < 2 ^ 32 := by
  obtain ⟨-, hx⟩ := h.rows
  obtain ⟨-, hy⟩ := h.cols
  simp only [numRows, numColumns] at hx hy
  have : s.x.toNat * s.y.toNat ≤ 25 * 80 := Nat.mul_le_mul (by omega) (by omega)
  unfold Sprite.size
  omega

/-- With a zero at the byte `i` the call ends there, and the cell of the byte is as it was. -/
theorem Reads.outcome_zero {i : Nat} (h : Reads mem s i) (ha : Accepted posX posY sp s)
    (hs : Sysenter.loadSprite (withByte mem (s.content + .ofNat i) 0) sp = some s) :
    ∃ screen, outcome (withByte mem (s.content + .ofNat i) 0) k posX posY sp = some (-EFAULT, screen) ∧
      screen (cellOf posX posY s i) = k.console.screen (cellOf posX posY s i) := by
  have hz : withByte mem (s.content + .ofNat i) 0 (s.content + .ofNat i) = some 0 := withByte_self ..
  have hlen := EndsAt.text_length ⟨h.lt, hz, h.before_withByte ha.size_lt 0⟩
  refine ⟨(k.drawn (cellOf posX posY s) 0 (text (withByte mem (s.content + .ofNat i) 0) s.size s.content)).console.screen,
    ?_, ?_⟩
  · rw [outcome, sysSpritePut_of_accepted hs ha]
    dsimp only
    rw [if_neg (by rw [hlen]; exact h.lt.ne), hlen, hz]
    rfl
  · apply putCells_other
    intro j hj e
    rw [Nat.zero_add] at e
    have := ha.cellOf_inj e
    omega

theorem Reads.outcome_shown {i : Nat} (h : Reads mem s i) (ha : Accepted posX posY sp s) {c : UInt8} (hc : c ≠ 0) (h10 : c ≠ 10)
    (hs : Sysenter.loadSprite (withByte mem (s.content + .ofNat i) c) sp = some s) {r : Int} {screen : Nat → UInt16}
    (ho : outcome (withByte mem (s.content + .ofNat i) c) k posX posY sp = some (r, screen)) :
    screen (cellOf posX posY s i) = Console.word k.attr c := by
  have hz : withByte mem (s.content + .ofNat i) c (s.content + .ofNat i) = some c := withByte_self ..
  have hlen : i + 1 ≤ (text (withByte mem (s.content + .ofNat i) c) s.size s.content).length := by
    apply le_text_length h.lt
    intro j hj
    by_cases e : j = i
    · subst e
      exact ⟨c, hc, hz⟩
    · exact h.before_withByte ha.size_lt c j (by omega)
  have hcell := ha.drawn_cell (k := k) (show i < _ from hlen)
  rw [contentAt, hz, Option.getD_some, if_neg h10] at hcell
  obtain ⟨⟨r', k'⟩, hcall, hk⟩ := Option.map_eq_some_iff.mp ho
  obtain ⟨-, rfl⟩ := Prod.mk.inj hk
  rw [sysSpritePut_of_accepted hs ha] at hcall
  dsimp only at hcall
  split at hcall
  · obtain ⟨-, rfl⟩ := Prod.mk.inj (Option.some.inj hcall)
    exact hcell
  · obtain ⟨b, -, hb⟩ := Option.map_eq_some_iff.mp hcall
    obtain ⟨-, rfl⟩ := Prod.mk.inj hb
    exact hcell

theorem word_ne (k : Terminal) : Console.word k.attr 65 ≠ Console.word k.attr 66 := by
  intro h
  have hbit := congrArg (fun w : UInt16 => w.toBitVec.getLsbD 0) h
  simp [Console.word, attr] at hbit

/-- The value and the screen are the same for all memories that agree on the user `t` and the struct, if and only if
all bytes the call reads are those of the user or of the struct. -/
theorem private_iff (mem : UInt32 → Option UInt8) (k : Terminal) (posX posY : Int) (sp : UInt32) (t : TaskStruct) :
    (∀ mem', Similar t sp mem mem' → outcome mem' k posX posY sp = outcome mem k posX posY sp) ↔
      ReadsUser mem posX posY sp t := by
  constructor
  · intro hsame s hs ha i hr
    by_contra hn
    obtain ⟨hu, hsp⟩ := not_or.mp hn
    have hsim := similar_withByte hr.mapped hu hsp
    obtain ⟨screen, h0, hscreen⟩ := hr.outcome_zero (k := k) ha ((hsim 0).loadSprite.trans hs)
    have hmem : outcome mem k posX posY sp = some (-EFAULT, screen) := (hsame _ (hsim 0)).symm.trans h0
    have hA := hr.outcome_shown (c := 65) ha (by decide) (by decide) ((hsim 65).loadSprite.trans hs) ((hsame _ (hsim 65)).trans hmem)
    have hB := hr.outcome_shown (c := 66) ha (by decide) (by decide) ((hsim 66).loadSprite.trans hs) ((hsame _ (hsim 66)).trans hmem)
    exact word_ne k (hA.symm.trans hB)
  · intro hu mem' hsim
    rw [outcome, outcome, hsim.same hu]

/-- One byte of the kernel, at 0x10000, on the screen. -/
theorem kernel_byte_shown : Similar ((Kernel.boot .blank).task 1) 0x108000 (memoryWith [1, 0, 0, 0, 1, 0, 0, 0, 0, 0, 1, 0] 65)
      (withByte (memoryWith [1, 0, 0, 0, 1, 0, 0, 0, 0, 0, 1, 0] 65) 0x10000 66) ∧
    outcome (withByte (memoryWith [1, 0, 0, 0, 1, 0, 0, 0, 0, 0, 1, 0] 65) 0x10000 66) (start fun _ => 0) 0 0 0x108000 ≠
      outcome (memoryWith [1, 0, 0, 0, 1, 0, 0, 0, 0, 0, 1, 0] 65) (start fun _ => 0) 0 0 0x108000 := by
  refine ⟨similar_withByte ⟨65, by decide⟩ (by unfold UserByte; decide +kernel) (by decide) 66, fun h => ?_⟩
  have hcell := congrArg (Option.map fun r => r.2 0) h
  exact absurd hcell (by decide +kernel)

end

end ZeosSOA.Sysenter.Terminal
