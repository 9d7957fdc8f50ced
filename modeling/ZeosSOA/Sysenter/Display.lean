import ZeosSOA.Runs
import ZeosSOA.Sysenter.SpritePut

/-!
# ZeOSSysenter: the display over whole runs

`sys_write`, `sys_gotoXY`, `sys_SetColor` and `sys_spritePut` one after the other, with any arguments and any memory
behind them. No call can take the cursor off the screen or a colour out of its four bits, and what is on the screen is
always a byte that was printed, in colours that were asked for.
-/

namespace ZeosSOA.Sysenter.Terminal

open Runs

/-! ## The calls -/

def cursorMove (k : Terminal) (posX posY : Int) : Int × Terminal :=
  if (posX ≥ numRows ∨ posX < 0) ∨ (posY ≥ numColumns ∨ posY < 0) then (-EINVAL, k)
  else (0, { k with console := { k.console with x := .ofInt posY, y := .ofInt posX } })

def astheticChange (k : Terminal) (color background : Int) : Int × Terminal :=
  if (color > 15 ∨ color < 0) ∨ (background > 15 ∨ background < 0) then (-EINVAL, k)
  else (0, { k with textColor := .ofInt color, textBackground := .ofInt background })

def sysGotoXY (k : Terminal) (posX posY : Int) : Int × Terminal := k.cursorMove posX posY

def sysSetColor (k : Terminal) (color background : Int) : Int × Terminal := k.astheticChange color background

inductive Op where
  | write (fd : Int) (buffer : UInt32) (nbytes : Int)
  | gotoXY (posX posY : Int)
  | setColor (color background : Int)
  | spritePut (posX posY : Int) (sp : UInt32)

/-- A call, with the memory as it finds it, and what `sys_write` finds in its array. -/
structure Event where
  op : Op
  mem : UInt32 → Option UInt8
  localbuffer : Nat → UInt8

/-- `none` is a page fault in the call. -/
def handle (k : Terminal) (e : Event) : Option (Int × Terminal) :=
  match e.op with
  | .write fd buffer nbytes => sysWrite e.mem e.localbuffer k fd buffer nbytes
  | .gotoXY posX posY => some (k.sysGotoXY posX posY)
  | .setColor color background => some (k.sysSetColor color background)
  | .spritePut posX posY sp => sysSpritePut e.mem k posX posY sp

def step (k : Terminal) (e : Event) : Option Terminal := (k.handle e).map Prod.snd

/-- The colours that a call asks for, when they are in range. -/
def Op.pen : Op → Option (Nat × Nat)
  | .setColor color background =>
    if (color > 15 ∨ color < 0) ∨ (background > 15 ∨ background < 0) then none else some (color.toNat, background.toNat)
  | _ => none

/-- The colours that were in force, those at the start first. -/
def pens (es : List Event) : List (Nat × Nat) := (2, 0) :: es.filterMap fun e => e.op.pen

/-- The cells that a call can reach: those of the screen, and a sprite that does not fit goes on below. -/
def Event.reach (e : Event) : Nat :=
  match e.op with
  | .spritePut posX posY sp =>
    if (loadSprite e.mem sp).all fun s => decide (Fits posX posY s) then numRows * numColumns
    else 2 * (numRows * numColumns)
  | _ => numRows * numColumns

/-! ## The bits of a cell -/

/-- The word shows the byte in the colours. -/
def Shows (w : UInt16) (c : UInt8) (pen : Nat × Nat) : Prop := w.toNat = c.toNat + 256 * pen.1 + 4096 * pen.2

theorem shift_toNat {a : UInt32} {i : Nat} (hi : i < 32) (ha : a.toNat * 2 ^ i < 2 ^ 32) :
    (a <<< .ofNat i).toNat = a.toNat <<< i := by
  have hmod : (UInt32.ofNat i).toNat % 32 = i := by
    rw [UInt32.toNat_ofNat', Nat.mod_eq_of_lt (show i < 2 ^ 32 by omega), Nat.mod_eq_of_lt hi]
  rw [UInt32.toNat_shiftLeft, hmod, Nat.shiftLeft_eq, Nat.mod_eq_of_lt ha]

theorem or_shift {a i : Nat} (b : Nat) (h : a < 2 ^ i) : a ||| b <<< i = a + 2 ^ i * b := by
  rw [Nat.or_comm, ← Nat.shiftLeft_add_eq_or_of_lt h, Nat.shiftLeft_eq, Nat.mul_comm, Nat.add_comm]

/-- No bit of a colour gets into the other one or into the byte. -/
theorem shows_word {k : Terminal} (hfg : k.textColor.toNat ≤ 15) (hbg : k.textBackground.toNat ≤ 15) (c : UInt8) :
    Shows (Console.word k.attr c) c (k.textColor.toNat, k.textBackground.toNat) := by
  have hc := c.toNat_lt
  have h8 : (k.textColor <<< 8).toNat = k.textColor.toNat <<< 8 := shift_toNat (i := 8) (by decide) (by omega)
  have h12 : (k.textBackground <<< 12).toNat = k.textBackground.toNat <<< 12 := shift_toNat (i := 12) (by decide) (by omega)
  have hword : (c.toUInt32 ||| k.attr).toNat = c.toNat + 2 ^ 8 * k.textColor.toNat + 2 ^ 12 * k.textBackground.toNat := by
    rw [attr, UInt32.toNat_or, UInt32.toNat_or, UInt8.toNat_toUInt32, h8, h12, ← Nat.or_assoc, or_shift _ hc,
      or_shift _ (by omega)]
  rw [Shows, Console.word, UInt32.toNat_toUInt16, hword]
  dsimp only
  omega

/-! ## One call -/

/-- From `k` to `k'` the bytes `bs` were printed, into cells below `n`. -/
structure Prints (n : Nat) (k k' : Terminal) (bs : List UInt8) : Prop where
  port : k'.console.port = k.console.port ++ bs
  screen : ∀ i, k'.console.screen i = k.console.screen i ∨
    i < n ∧ ∃ c ∈ bs, k'.console.screen i = Console.word k.attr c
  onScreen : k'.console.OnScreen
  textColor : k'.textColor = k.textColor
  textBackground : k'.textBackground = k.textBackground

section
variable {k k' : Terminal} {mem : UInt32 → Option UInt8} {bs : List UInt8} {n : Nat}

theorem Prints.refl (h : k.console.OnScreen) : Prints n k k [] where
  port := (List.append_nil _).symm
  screen _ := .inl rfl
  onScreen := h
  textColor := rfl
  textBackground := rfl

/-- The row of cells changes where a byte is put. -/
theorem put_screen (word : UInt8 → UInt16) (s : Console.Cells) (c : UInt8) (i : Nat) :
    (s.put word c).screen i = s.screen i ∨ i = s.pos ∧ (s.put word c).screen i = word c := by
  by_cases hc : c = 10
  · rw [Console.Cells.put, if_pos hc]
    exact .inl rfl
  · rw [Console.Cells.put, if_neg hc]
    by_cases hi : i = s.pos
    · subst hi
      exact .inr ⟨rfl, Function.update_self ..⟩
    · exact .inl (Function.update_of_ne hi ..)

theorem prints_foldl (bs : List UInt8) (h : k.console.OnScreen) :
    Prints (numRows * numColumns) k (bs.foldl printc k) bs := by
  rw [foldl_printc]
  obtain ⟨hon, hcells, hport⟩ := h.foldl_printc k.attr bs
  refine ⟨hport, fun i => ?_, hon, rfl, rfl⟩
  change (bs.foldl (Console.printc k.attr) k.console).cells.screen i = k.console.cells.screen i ∨ _ ∧ ∃ c ∈ bs,
    (bs.foldl (Console.printc k.attr) k.console).cells.screen i = _
  generalize k.attr = attr at *
  generalize k.console = con at *
  clear hport hcells
  induction bs using List.reverseRecOn with
  | nil => exact .inl rfl
  | append_singleton bs c ih =>
    obtain ⟨hmid, -, -⟩ := h.foldl_printc attr bs
    rw [List.foldl_append, List.foldl_cons, List.foldl_nil, (hmid.printc attr c).2]
    rcases put_screen (Console.word attr) (bs.foldl (Console.printc attr) con).cells c i with he | ⟨hi, he⟩
    · rw [he]
      rcases ih hmid with ih | ⟨hlt, d, hd, ih⟩
      · exact .inl ih
      · exact .inr ⟨hlt, d, List.mem_append_left _ hd, ih⟩
    · exact .inr ⟨hi ▸ hmid.pos_lt, c, by simp, he⟩

/-- Whatever the pieces of `sys_write` are, they are printed one after the other. -/
theorem writeLoop_some {fuel : Nat} {b b' : Nat → UInt8} {buffer buffer' : UInt32} {left left' : Nat}
    (h : writeLoop mem fuel k b buffer left = some (k', b', buffer', left')) : ∃ bs : List UInt8, k' = bs.foldl printc k := by
  induction fuel generalizing k b buffer left with
  | zero => simp [writeLoop] at h
  | succ fuel ih =>
    rw [writeLoop] at h
    split at h
    · obtain ⟨⟨r, b₁⟩, -, h⟩ := Option.bind_eq_some_iff.mp h
      obtain ⟨bs, rfl⟩ := ih h
      refine ⟨(List.range tamBuffer).map b₁ ++ bs, ?_⟩
      rw [List.foldl_append, List.foldl_map]
    · cases h
      exact ⟨[], rfl⟩

theorem sysWrite_some {localbuffer : Nat → UInt8} {fd nbytes r : Int} {buffer : UInt32}
    (h : sysWrite mem localbuffer k fd buffer nbytes = some (r, k')) : ∃ bs : List UInt8, k' = bs.foldl printc k := by
  unfold sysWrite at h
  dsimp only at h
  split at h
  · cases h
    exact ⟨[], rfl⟩
  split at h
  · cases h
    exact ⟨[], rfl⟩
  split at h
  · cases h
    exact ⟨[], rfl⟩
  obtain ⟨⟨k₁, b, buffer', left⟩, hloop, h⟩ := Option.bind_eq_some_iff.mp h
  obtain ⟨bs, rfl⟩ := writeLoop_some hloop
  dsimp only at h
  split at h
  · obtain ⟨⟨r', b₁⟩, -, h⟩ := Option.bind_eq_some_iff.mp h
    cases h
    refine ⟨bs ++ (List.range left).map b₁, ?_⟩
    rw [List.foldl_append, List.foldl_map]
    rfl
  · cases h
    exact ⟨bs, rfl⟩

/-- A sprite gets into its own cells. -/
theorem putCells_screen {word : UInt8 → UInt16} {cell : Nat → Nat} (i : Nat) {cs : List UInt8} {j : Nat} {screen : Nat → UInt16} :
    putCells word cell j cs screen i = screen i ∨
      (∃ m < cs.length, i = cell (j + m)) ∧ ∃ c ∈ cs, putCells word cell j cs screen i = word c := by
  induction cs generalizing j screen with
  | nil => exact .inl rfl
  | cons c cs ih =>
    rw [putCells]
    rcases @ih (j + 1) (if c = 10 then screen else Function.update screen (cell j) (word c)) with he | ⟨⟨m, hm, hi⟩, d, hd, he⟩
    · rw [he]
      by_cases hc : c = 10
      · rw [if_pos hc]
        exact .inl rfl
      · rw [if_neg hc]
        by_cases hi : i = cell j
        · subst hi
          exact .inr ⟨⟨0, Nat.succ_pos _, rfl⟩, c, List.mem_cons_self, Function.update_self ..⟩
        · exact .inl (Function.update_of_ne hi ..)
    · refine .inr ⟨⟨m + 1, Nat.succ_lt_succ hm, ?_⟩, d, List.mem_cons_of_mem _ hd, he⟩
      rw [hi, Nat.add_assoc, Nat.add_comm 1]

theorem cellOf_lt {posX posY : Int} {sp : UInt32} {s : Sprite} {m : Nat} (ha : Accepted posX posY sp s) (hm : m < s.size) :
    cellOf posX posY s m < 2 * (numRows * numColumns) ∧ (Fits posX posY s → cellOf posX posY s m < numRows * numColumns) := by
  obtain ⟨-, ⟨hx, hx'⟩, ⟨hy, hy'⟩, -, ⟨hsx, hsx'⟩, hsy, hsy'⟩ := ha
  have hmod := Nat.mod_lt m (show 0 < s.y.toNat by omega)
  have hdiv : m / s.y.toNat < s.x.toNat := Nat.div_lt_of_lt_mul (by rwa [Nat.mul_comm])
  simp only [cellOf, spriteCell, Fits, numRows, numColumns] at *
  omega

theorem sysSpritePut_some {posX posY r : Int} {sp : UInt32} (hon : k.console.OnScreen)
    (h : sysSpritePut mem k posX posY sp = some (r, k')) (b : Nat → UInt8) :
    ∃ bs, Prints (Event.reach ⟨.spritePut posX posY sp, mem, b⟩) k k' bs := by
  by_cases hacc : ∃ s, loadSprite mem sp = some s ∧ Accepted posX posY sp s
  · obtain ⟨s, hs, ha⟩ := hacc
    have hcall := sysSpritePut_of_accepted (k := k) hs ha
    have hlen := @text_length_le mem s.size s.content
    dsimp only at hcall
    rw [h] at hcall
    refine ⟨text mem s.size s.content, ?_⟩
    generalize text mem s.size s.content = cs at *
    have hk : k' = k.drawn (cellOf posX posY s) 0 cs := by
      split at hcall
      · exact (Prod.mk.inj (Option.some.inj hcall)).2
      · obtain ⟨c, -, hk⟩ := Option.map_eq_some_iff.mp hcall.symm
        exact (Prod.mk.inj hk).2.symm
    subst hk
    refine ⟨rfl, fun i => ?_, hon, rfl, rfl⟩
    apply putCells_screen i |>.imp_right
    rintro ⟨⟨m, hm, rfl⟩, hc⟩
    refine ⟨?_, hc⟩
    obtain ⟨hall, hfit⟩ := cellOf_lt ha (show 0 + m < s.size by omega)
    simp only [Event.reach, hs, Option.all_some, decide_eq_true_eq]
    split
    · rename_i hf
      exact hfit hf
    · exact hall
  · rw [sysSpritePut_early h fun s hs ha => hacc ⟨s, hs, ha⟩]
    exact ⟨[], Prints.refl hon⟩

end

/-! ## Runs -/

/-- What holds after the calls `es`. -/
structure Sound (screen : Nat → UInt16) (es : List Event) (k : Terminal) : Prop where
  onScreen : k.console.OnScreen
  pen : (pens es).getLast? = some (k.textColor.toNat, k.textBackground.toNat)
  cells : ∀ i, k.console.screen i = screen i ∨ (∃ e ∈ es, i < e.reach) ∧
    ∃ c ∈ k.console.port, ∃ p ∈ pens es, Shows (k.console.screen i) c p

section
variable {k k' : Terminal} {screen : Nat → UInt16} {es : List Event} {e : Event} {bs : List UInt8} {n : Nat}

theorem pens_le : ∀ p ∈ pens es, p.1 ≤ 15 ∧ p.2 ≤ 15 := by
  intro p hp
  simp only [pens, List.mem_cons, List.mem_filterMap] at hp
  rcases hp with rfl | ⟨e, -, he⟩
  · decide
  · cases hop : e.op with
    | setColor color background =>
      simp only [hop, Op.pen] at he
      split at he
      · cases he
      · cases he
        dsimp only
        omega
    | write | gotoXY | spritePut => simp [hop, Op.pen] at he

theorem pens_append (es : List Event) (e : Event) : pens (es ++ [e]) = pens es ++ e.op.pen.toList := by
  rw [pens, List.filterMap_append, ← List.cons_append, ← pens]
  cases h : e.op.pen <;> simp [h]

theorem Sound.cells_append (h : Sound screen es k) (e : Event) (hscreen : k'.console.screen = k.console.screen)
    (hport : k'.console.port = k.console.port) (i : Nat) : k'.console.screen i = screen i ∨
      (∃ d ∈ es ++ [e], i < d.reach) ∧ ∃ c ∈ k'.console.port, ∃ p ∈ pens (es ++ [e]), Shows (k'.console.screen i) c p := by
  rw [hscreen, hport, pens_append]
  apply (h.cells i).imp_right
  rintro ⟨⟨d, hd, hlt⟩, c, hc, p, hp, hs⟩
  exact ⟨⟨d, List.mem_append_left _ hd, hlt⟩, c, hc, p, List.mem_append_left _ hp, hs⟩

/-- A call that prints, in the colours in force. -/
theorem Sound.prints (h : Sound screen es k) (hp : Prints n k k' bs) (hn : e.reach = n) (hpen : e.op.pen = none) :
    Sound screen (es ++ [e]) k' := by
  subst hn
  have hpens : pens (es ++ [e]) = pens es := by rw [pens_append, hpen, Option.toList_none, List.append_nil]
  refine ⟨hp.onScreen, ?_, fun i => ?_⟩
  · rw [hpens, h.pen, hp.textColor, hp.textBackground]
  · rw [hpens, hp.port]
    have hlast := List.mem_of_getLast? h.pen
    rcases hp.screen i with he | ⟨hlt, c, hc, he⟩
    · rw [he]
      apply (h.cells i).imp_right
      rintro ⟨⟨d, hd, hlt⟩, c, hc, hs⟩
      exact ⟨⟨d, List.mem_append_left _ hd, hlt⟩, c, List.mem_append_left _ hc, hs⟩
    · refine .inr ⟨⟨e, by simp, hlt⟩, c, List.mem_append_right _ hc, _, hlast, ?_⟩
      rw [he]
      exact shows_word (pens_le _ hlast).1 (pens_le _ hlast).2 c

theorem Sound.gotoXY (h : Sound screen es k) {posX posY : Int} (he : e.op = .gotoXY posX posY) :
    Sound screen (es ++ [e]) (k.sysGotoXY posX posY).2 := by
  have hpen : e.op.pen = none := by
    rw [he]
    rfl
  have hpens : pens (es ++ [e]) = pens es := by rw [pens_append, hpen, Option.toList_none, List.append_nil]
  unfold sysGotoXY cursorMove
  split
  · exact ⟨h.onScreen, by rw [hpens, h.pen], h.cells_append e rfl rfl⟩
  · rename_i hin
    refine ⟨?_, by rw [hpens, h.pen], h.cells_append e rfl rfl⟩
    simp only [numRows, numColumns] at hin
    lift posX to Nat using (by omega) with px
    lift posY to Nat using (by omega) with py
    refine ⟨?_, ?_⟩
    · change (UInt8.ofInt (py : Int)).toNat < numColumns
      rw [ofInt_natCast8, UInt8.toNat_ofNat', numColumns]
      omega
    · change (UInt8.ofInt (px : Int)).toNat < numRows
      rw [ofInt_natCast8, UInt8.toNat_ofNat', numRows]
      omega

theorem Sound.setColor (h : Sound screen es k) {color background : Int} (he : e.op = .setColor color background) :
    Sound screen (es ++ [e]) (k.sysSetColor color background).2 := by
  have hpens := pens_append es e
  rw [he, Op.pen] at hpens
  unfold sysSetColor astheticChange
  split
  · rename_i hout
    rw [if_pos hout, Option.toList_none, List.append_nil] at hpens
    exact ⟨h.onScreen, by rw [hpens, h.pen], h.cells_append e rfl rfl⟩
  · rename_i hin
    rw [if_neg hin, Option.toList_some] at hpens
    refine ⟨h.onScreen, ?_, h.cells_append e rfl rfl⟩
    rw [hpens, List.getLast?_append, List.getLast?_singleton, Option.some_or]
    lift color to Nat using (by omega) with fg
    lift background to Nat using (by omega) with bg
    rw [ofInt_natCast32, ofInt_natCast32, UInt32.toNat_ofNat', UInt32.toNat_ofNat', Int.toNat_natCast, Int.toNat_natCast,
      Nat.mod_eq_of_lt (by omega), Nat.mod_eq_of_lt (by omega)]

theorem Sound.step (h : Sound screen es k) (hs : k.step e = some k') : Sound screen (es ++ [e]) k' := by
  obtain ⟨⟨r, k₁⟩, hcall, rfl⟩ := Option.map_eq_some_iff.mp hs
  unfold handle at hcall
  cases hop : e.op with
  | write fd buffer nbytes =>
    rw [hop] at hcall
    obtain ⟨bs, rfl⟩ := sysWrite_some hcall
    exact h.prints (prints_foldl bs h.onScreen) (by rw [Event.reach, hop]) (by rw [hop]; rfl)
  | gotoXY posX posY =>
    rw [hop] at hcall
    have hg := h.gotoXY hop
    rwa [Option.some.inj hcall] at hg
  | setColor color background =>
    rw [hop] at hcall
    have hg := h.setColor hop
    rwa [Option.some.inj hcall] at hg
  | spritePut posX posY sp =>
    rw [hop] at hcall
    obtain ⟨bs, hp⟩ := sysSpritePut_some h.onScreen hcall e.localbuffer
    exact h.prints hp (by rw [Event.reach, Event.reach, hop]) (by rw [hop]; rfl)

theorem start_sound (screen : Nat → UInt16) : Sound screen [] (start screen) where
  onScreen := ⟨(by decide : (0 : UInt8).toNat < numColumns), (by decide : (19 : UInt8).toNat < numRows)⟩
  pen := rfl
  cells _ := .inl rfl

/-- After any calls the cursor is on the screen, the colours are those asked for last, and a cell that has changed shows a
byte that was printed, in colours that were in force. No call reaches cells behind those of the screen, but a sprite
that does not fit, and that none behind as many again. -/
theorem display_sound (h : exec Terminal.step (start screen) es = some k) : k.console.OnScreen ∧
    (pens es).getLast? = some (k.textColor.toNat, k.textBackground.toNat) ∧ (∀ p ∈ pens es, p.1 ≤ 15 ∧ p.2 ≤ 15) ∧
    ∀ i, k.console.screen i = screen i ∨ (∃ e ∈ es, i < e.reach) ∧
      ∃ c ∈ k.console.port, ∃ p ∈ pens es, Shows (k.console.screen i) c p := by
  have hsound : Sound screen es k := by
    induction es using List.reverseRecOn generalizing k with
    | nil =>
      cases h
      exact start_sound screen
    | append_singleton es e ih =>
      obtain ⟨k₁, h₁, h⟩ := exec_append.mp h
      obtain ⟨k₂, h₂, h⟩ := exec_cons.mp h
      cases h
      exact (ih h₁).step h₂
  exact ⟨hsound.onScreen, hsound.pen, pens_le, hsound.cells⟩

/-- Three bytes from the last cell on, in yellow, after a colour that is refused, and a sprite that does not fit. -/
def sampleCalls : List Event :=
  [⟨.setColor 14 1, fun _ => some 65, fun _ => 0⟩, ⟨.setColor 16 0, fun _ => some 65, fun _ => 0⟩,
    ⟨.gotoXY 24 79, fun _ => some 65, fun _ => 0⟩, ⟨.write 1 0x108000 3, fun _ => some 65, fun _ => 0⟩,
    ⟨.spritePut 24 79 0x108000, pair 65 66, fun _ => 0⟩]

theorem display_sound_corner : ∃ k, exec Terminal.step (start fun _ => 0) sampleCalls = some k ∧ k.console.OnScreen ∧
    (k.textColor.toNat, k.textBackground.toNat) = (14, 1) := by
  have hrun : (exec Terminal.step (start fun _ => 0) sampleCalls).isSome = true := by decide +kernel
  obtain ⟨k, hk⟩ := Option.isSome_iff_exists.mp hrun
  obtain ⟨hon, hpen, -⟩ := display_sound hk
  exact ⟨k, hk, hon, (Option.some.inj hpen).symm⟩

end

end ZeosSOA.Sysenter.Terminal
