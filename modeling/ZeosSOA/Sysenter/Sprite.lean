import ZeosSOA.Sysenter.Write

/-!
# ZeOSSysenter: sprites

`sys_spritePut` reads a struct of the user, and then its content byte by byte while it draws. `mem`
is the byte that the call finds at an address when it gets there: of the content each byte is looked
at in one round only, and the struct lies in user pages, which `printc` does not write to. A content
in video memory is found as the rounds before have left it. `none` is a page fault.
-/

namespace ZeosSOA.Sysenter

/-- `x` is the number of rows and `y` the number of columns. -/
structure Sprite where
  x : Int
  y : Int
  content : UInt32
  deriving DecidableEq

/-- `x * y`, the number of bytes in the content. -/
def Sprite.size (s : Sprite) : Nat := s.x.toNat * s.y.toNat

/-- `sizeof(Sprite)`. -/
abbrev sizeSprite : Nat := 12

def loadWord (mem : UInt32 → Option UInt8) (a : UInt32) : Option UInt32 := do
  let b₀ ← mem a
  let b₁ ← mem (a + 1)
  let b₂ ← mem (a + 2)
  let b₃ ← mem (a + 3)
  return .ofNat (b₀.toNat + 256 * b₁.toNat + 65536 * b₂.toNat + 16777216 * b₃.toNat)

def loadInt (mem : UInt32 → Option UInt8) (a : UInt32) : Option Int := (loadWord mem a).map fun w => toInt32 w.toNat

/-- The struct at the address `sp`. -/
def loadSprite (mem : UInt32 → Option UInt8) (sp : UInt32) : Option Sprite := do
  let content ← loadWord mem (sp + 8)
  let x ← loadInt mem sp
  let y ← loadInt mem (sp + 4)
  return ⟨x, y, content⟩

namespace Terminal

def printcXy (k : Terminal) (mx my c : UInt8) : Terminal :=
  let cx := k.console.x
  let cy := k.console.y
  let k := printc { k with console := { k.console with x := mx, y := my } } c
  { k with console := { k.console with x := cx, y := cy } }

section
variable (mem : UInt32 → Option UInt8) (posX posY : Int) (sp : Sprite)

/-- The inner loop with `n` rounds to go; `false` when it returns `-EFAULT`. -/
def spriteCols (row : Nat) : Nat → Nat → Terminal → Option (Bool × Terminal)
  | 0, _, k => some (true, k)
  | n + 1, col, k =>
    if row * sp.y + col > sp.x * sp.y then some (false, k)
    else do
      let c ← mem (sp.content + .ofInt (row * sp.y + col))
      if c = 0 then return (false, k)
      let xPos := posX + col
      let yPos := posY + row
      spriteCols row n (col + 1) (k.printcXy (.ofInt xPos) (.ofInt yPos) c)

/-- The outer loop with `n` rounds to go. -/
def spriteRows : Nat → Nat → Terminal → Option (Bool × Terminal)
  | 0, _, k => some (true, k)
  | n + 1, row, k => do
    match ← spriteCols mem posX posY sp row sp.y.toNat 0 k with
    | (true, k) => spriteRows n (row + 1) k
    | (false, k) => return (false, k)

end

def spriteDraw (mem : UInt32 → Option UInt8) (k : Terminal) (posX posY : Int) (sp : UInt32) : Option (Int × Terminal) :=
  if ¬ accessOk .verifyRead sp sizeSprite none then some (-EINVAL, k)
  else if (posY ≥ numRows ∨ posY < 0) ∨ (posX ≥ numColumns ∨ posX < 0) then some (-EINVAL, k)
  else if sp = 0 then some (-EFAULT, k)
  else do
    let content ← loadWord mem (sp + 8)
    if content = 0 then return (-EFAULT, k)
    let x ← loadInt mem sp
    let y ← loadInt mem (sp + 4)
    if (x ≤ 0 ∨ y ≤ 0) ∨ (x > numRows ∨ y > numColumns) then return (-EINVAL, k)
    let (ok, k) ← spriteRows mem posX posY ⟨x, y, content⟩ x.toNat 0 k
    return (if ok then 0 else -EFAULT, k)

def sysSpritePut (mem : UInt32 → Option UInt8) (k : Terminal) (posX posY : Int) (sp : UInt32) : Option (Int × Terminal) :=
  spriteDraw mem k posY posX sp

/-! ## The two loops as one -/

theorem ofInt_natCast32 (n : Nat) : UInt32.ofInt n = .ofNat n := by
  apply UInt32.toNat_inj.mp
  rw [UInt32.ofInt, UInt32.toNat_ofNat', UInt32.toNat_ofNat']
  omega

theorem ofInt_natCast8 (n : Nat) : UInt8.ofInt n = .ofNat n := by
  apply UInt8.toNat_inj.mp
  rw [UInt8.ofInt, UInt8.toNat_ofNat', UInt8.toNat_ofNat']
  omega

theorem printcXy_eq (k : Terminal) (mx my c : UInt8) : k.printcXy mx my c = { k with console := { k.console with
    screen := if c = 10 then k.console.screen
      else Function.update k.console.screen (my.toNat * numColumns + mx.toNat) (Console.word k.attr c)
    port := k.console.port ++ [c] } } := by
  unfold printcXy printc Console.printc
  dsimp only
  split
  · rfl
  · split <;> rfl

/-- The cell of the byte `j`, with `posX` and `posY` as in `spriteDraw`. -/
def spriteCell (posX posY y j : Nat) : Nat := (posY + j / y) * numColumns + (posX + j % y)

/-- `n` rounds from the byte `j` on. -/
def spriteFrom (mem : UInt32 → Option UInt8) (posX posY y : Nat) (content : UInt32) : Nat → Nat → Terminal →
    Option (Bool × Terminal)
  | 0, _, k => some (true, k)
  | n + 1, j, k => do
    let c ← mem (content + .ofNat j)
    if c = 0 then return (false, k)
    spriteFrom mem posX posY y content n (j + 1) (k.printcXy (.ofNat (posX + j % y)) (.ofNat (posY + j / y)) c)

section
variable {mem : UInt32 → Option UInt8} {posX posY x y : Nat} {content : UInt32}

theorem spriteFrom_add : ∀ (m n j : Nat) (k : Terminal), spriteFrom mem posX posY y content (m + n) j k =
    (spriteFrom mem posX posY y content m j k).bind fun r =>
      if r.1 then spriteFrom mem posX posY y content n (j + m) r.2 else some r
  | 0, n, j, k => by
    rw [Nat.zero_add, Nat.add_zero]
    rfl
  | m + 1, n, j, k => by
    rw [Nat.add_right_comm, spriteFrom, spriteFrom]
    cases mem (content + .ofNat j) with
    | none => rfl
    | some c =>
      simp only [Option.bind_eq_bind, Option.bind_some]
      by_cases hc : c = 0
      · rw [if_pos hc, if_pos hc]
        rfl
      · rw [if_neg hc, if_neg hc, spriteFrom_add m n, Nat.add_right_comm j 1 m, Nat.add_assoc j m 1]

theorem spriteCols_eq {row : Nat} (hrow : row < x) : ∀ (n col : Nat) (k : Terminal), col + n ≤ y →
    spriteCols mem posX posY ⟨x, y, content⟩ row n col k = spriteFrom mem posX posY y content n (row * y + col) k
  | 0, _, _, _ => rfl
  | n + 1, col, k, h => by
    have hlt : col < y := by omega
    have hle : row * y + col ≤ x * y := by
      have : row * y + y ≤ x * y := by
        rw [← Nat.succ_mul]
        exact Nat.mul_le_mul_right y hrow
      omega
    have hindex : (row : Int) * (y : Int) + (col : Int) = ((row * y + col : Nat) : Int) := by simp
    have hbound : ¬ ((row * y + col : Nat) : Int) > (x : Int) * (y : Int) := by
      rw [← Int.natCast_mul]
      omega
    have hdiv : (row * y + col) / y = row := by
      rw [Nat.mul_comm, Nat.mul_add_div (by omega), Nat.div_eq_of_lt hlt, Nat.add_zero]
    have hmod : (row * y + col) % y = col := by
      rw [Nat.mul_comm, Nat.mul_add_mod, Nat.mod_eq_of_lt hlt]
    rw [spriteCols, spriteFrom]
    dsimp only
    rw [hindex, if_neg hbound, hdiv, hmod, ofInt_natCast32]
    congr 1
    funext c
    by_cases hc : c = 0
    · rw [if_pos hc, if_pos hc]
    · have hx : UInt8.ofInt ((posX : Int) + (col : Int)) = .ofNat (posX + col) := ofInt_natCast8 (posX + col)
      have hy : UInt8.ofInt ((posY : Int) + (row : Int)) = .ofNat (posY + row) := ofInt_natCast8 (posY + row)
      rw [if_neg hc, if_neg hc, hx, hy, spriteCols_eq hrow n (col + 1) _ (by omega)]
      rfl

theorem spriteRows_eq : ∀ (n row : Nat) (k : Terminal), row + n ≤ x →
    spriteRows mem posX posY ⟨x, y, content⟩ n row k = spriteFrom mem posX posY y content (n * y) (row * y) k
  | 0, _, _, _ => by rw [Nat.zero_mul]; rfl
  | n + 1, row, k, h => by
    rw [spriteRows, Nat.succ_mul, Nat.add_comm (n * y), spriteFrom_add]
    dsimp only
    rw [Int.toNat_natCast, spriteCols_eq (by omega) y 0 k (by omega), Nat.add_zero, Option.bind_eq_bind]
    congr 1
    funext ⟨ok, k⟩
    cases ok with
    | true =>
      rw [if_pos rfl, ← Nat.succ_mul]
      exact spriteRows_eq n (row + 1) k (by omega)
    | false => rfl

end

/-! ## What is drawn -/

/-- The bytes from `a` on up to the first that is zero, at most `n` of them. -/
def text (mem : UInt32 → Option UInt8) : Nat → UInt32 → List UInt8
  | 0, _ => []
  | n + 1, a =>
    match mem a with
    | some c => if c = 0 then [] else c :: text mem n (a + 1)
    | none => []

/-- Bytes put in the cells from the number `j` on; a newline leaves its cell as it is. -/
def putCells (word : UInt8 → UInt16) (cell : Nat → Nat) : Nat → List UInt8 → (Nat → UInt16) → Nat → UInt16
  | _, [], screen => screen
  | j, c :: cs, screen =>
    putCells word cell (j + 1) cs (if c = 10 then screen else Function.update screen (cell j) (word c))

def drawn (k : Terminal) (cell : Nat → Nat) (j : Nat) (cs : List UInt8) : Terminal :=
  { k with console := { k.console with
      screen := putCells (Console.word k.attr) cell j cs k.console.screen, port := k.console.port ++ cs } }

section
variable {mem mem' : UInt32 → Option UInt8} {n : Nat} {a : UInt32}

theorem text_length_le : ∀ (n : Nat) (a : UInt32), (text mem n a).length ≤ n
  | 0, _ => Nat.le_refl 0
  | n + 1, a => by
    rw [text]
    split
    · split
      · exact Nat.zero_le _
      · exact Nat.succ_le_succ (text_length_le n (a + 1))
    · exact Nat.zero_le _

theorem text_stored : ∀ (n : Nat) (a : UInt32), Stored mem a (text mem n a)
  | 0, _ => trivial
  | n + 1, a => by
    rw [text]
    split
    · rename_i c hc
      split
      · trivial
      · exact ⟨hc, text_stored n (a + 1)⟩
    · trivial

theorem text_ne_zero : ∀ {n : Nat} {a : UInt32}, ∀ c ∈ text mem n a, c ≠ 0
  | 0, _, _, h => absurd h List.not_mem_nil
  | n + 1, a, c, h => by
    rw [text] at h
    split at h
    · split at h
      · cases h
      · rename_i hne
        rcases List.mem_cons.mp h with rfl | h
        · exact hne
        · exact text_ne_zero c h
    · cases h

theorem add_one_ofNat (a : UInt32) (i : Nat) : a + 1 + .ofNat i = a + .ofNat (i + 1) := by
  rw [UInt32.add_assoc, UInt32.add_comm 1, UInt32.ofNat_add]
  rfl

theorem le_text_length : ∀ {m n : Nat} {a : UInt32}, m ≤ n → (∀ i < m, ∃ c, c ≠ 0 ∧ mem (a + .ofNat i) = some c) →
    m ≤ (text mem n a).length
  | 0, _, _, _, _ => Nat.zero_le _
  | m + 1, 0, _, h, _ => absurd h (Nat.not_succ_le_zero _)
  | m + 1, n + 1, a, h, hb => by
    obtain ⟨c, hc, hm⟩ := hb 0 (Nat.succ_pos m)
    rw [show a + .ofNat 0 = a by simp] at hm
    rw [text, hm]
    dsimp only
    rw [if_neg hc, List.length_cons]
    apply Nat.succ_le_succ
    refine le_text_length (Nat.le_of_succ_le_succ h) fun i hi => ?_
    rw [add_one_ofNat]
    exact hb (i + 1) (Nat.succ_lt_succ hi)

end

section
variable {word : UInt8 → UInt16} {cell : Nat → Nat}

theorem putCells_other : ∀ {cs : List UInt8} {j : Nat} {screen : Nat → UInt16} {p : Nat},
    (∀ i < cs.length, p ≠ cell (j + i)) → putCells word cell j cs screen p = screen p
  | [], _, _, _, _ => rfl
  | c :: cs, j, screen, p, h => by
    have hp : p ≠ cell j := h 0 (Nat.succ_pos _)
    rw [putCells, putCells_other fun i hi => by rw [Nat.add_assoc, Nat.add_comm 1]; exact h (i + 1) (Nat.succ_lt_succ hi)]
    split
    · rfl
    · rw [Function.update_of_ne hp]

theorem putCells_cell : ∀ {cs : List UInt8} {j : Nat} {screen : Nat → UInt16},
    (∀ i < cs.length, ∀ i' < cs.length, cell (j + i) = cell (j + i') → i = i') → ∀ i (h : i < cs.length),
    putCells word cell j cs screen (cell (j + i)) = if cs[i] = 10 then screen (cell (j + i)) else word cs[i]
  | [], _, _, _, _, h => absurd h (Nat.not_lt_zero _)
  | c :: cs, j, screen, hinj, 0, _ => by
    rw [putCells, putCells_other fun i hi e => by
      have := hinj 0 (Nat.succ_pos _) (i + 1) (Nat.succ_lt_succ hi) (by rw [e, Nat.add_assoc, Nat.add_comm 1])
      omega]
    rw [Nat.add_zero, List.getElem_cons_zero]
    split
    · rfl
    · rw [Function.update_self]
  | c :: cs, j, screen, hinj, i + 1, h => by
    have hj : ∀ i, j + 1 + i = j + (i + 1) := fun i => by rw [Nat.add_assoc, Nat.add_comm 1]
    have hi : i < cs.length := Nat.lt_of_succ_lt_succ h
    have hinj' : ∀ i < cs.length, ∀ i' < cs.length, cell (j + 1 + i) = cell (j + 1 + i') → i = i' := by
      intro i hi i' hi' e
      rw [hj, hj] at e
      exact Nat.succ.inj (hinj (i + 1) (Nat.succ_lt_succ hi) (i' + 1) (Nat.succ_lt_succ hi') e)
    rw [putCells, ← hj i, putCells_cell hinj' i hi, hj, List.getElem_cons_succ]
    have hne : cell (j + (i + 1)) ≠ cell j := by
      intro e
      have := hinj (i + 1) h 0 (Nat.succ_pos _) e
      omega
    congr 1
    split
    · rfl
    · rw [Function.update_of_ne hne]

end

theorem spriteCell_inj {posX posY y i j : Nat} (hy : 0 < y) (hle : y ≤ numColumns)
    (h : spriteCell posX posY y i = spriteCell posX posY y j) : i = j := by
  have hi := Nat.mod_lt i hy
  have hj := Nat.mod_lt j hy
  simp only [spriteCell, numColumns] at *
  rw [← Nat.div_add_mod i y, ← Nat.div_add_mod j y, show i / y = j / y by omega, show i % y = j % y by omega]

section
variable {mem : UInt32 → Option UInt8} {posX posY x y : Nat} {content : UInt32}

theorem spriteFrom_eq (hX : posX + y ≤ 256) (hY : posY + x ≤ 256) : ∀ (n j : Nat) (k : Terminal), j + n ≤ x * y →
    spriteFrom mem posX posY y content n j k =
      let cs := text mem n (content + .ofNat j)
      let k' := k.drawn (spriteCell posX posY y) j cs
      if cs.length = n then some (true, k') else (mem (content + .ofNat (j + cs.length))).map fun _ => (false, k')
  | 0, j, k, _ => by simp [spriteFrom, text, drawn, putCells]
  | n + 1, j, k, h => by
    have hpos : 0 < y := Nat.pos_of_ne_zero (by rintro rfl; omega)
    have hmod := Nat.mod_lt j hpos
    have hdiv : j / y < x := Nat.div_lt_of_lt_mul (by rw [Nat.mul_comm]; omega)
    rw [spriteFrom, text]
    cases hc : mem (content + .ofNat j) with
    | none => simp [hc]
    | some c =>
      dsimp only
      rw [Option.bind_eq_bind, Option.bind_some]
      by_cases h0 : c = 0
      · subst h0
        simp [hc, drawn, putCells]
      · rw [if_neg h0, if_neg h0, spriteFrom_eq hX hY n (j + 1) _ (by omega)]
        dsimp only
        have hnext : content + .ofNat (j + 1) = content + .ofNat j + 1 := by
          rw [UInt32.ofNat_add, ← UInt32.add_assoc]
          rfl
        have hk : ∀ cs, (k.printcXy (.ofNat (posX + j % y)) (.ofNat (posY + j / y)) c).drawn (spriteCell posX posY y)
            (j + 1) cs = k.drawn (spriteCell posX posY y) j (c :: cs) := by
          intro cs
          rw [printcXy_eq, UInt8.toNat_ofNat', UInt8.toNat_ofNat', Nat.mod_eq_of_lt (by omega), Nat.mod_eq_of_lt (by omega)]
          simp only [drawn, putCells, spriteCell, List.append_assoc, List.singleton_append]
          rfl
        rw [hnext, hk, List.length_cons, Nat.add_right_comm j 1, Nat.add_assoc j]
        simp only [Nat.add_right_cancel_iff]

end

end Terminal

end ZeosSOA.Sysenter
