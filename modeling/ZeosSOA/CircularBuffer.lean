import Mathlib.Logic.Function.Basic

/-!
# Circular buffers

`Holds buf cap r xs`: the cells of a buffer of `cap` cells hold the sequence `xs` from the index
`r` on, round the end. A cell is written behind the sequence while there is room, and read at its
front.
-/

namespace CircularBuffer

variable {α : Type}

structure Holds (buf : Nat → α) (cap r : Nat) (xs : List α) : Prop where
  start : r < cap
  room : xs.length ≤ cap
  cell : ∀ i (h : i < xs.length), buf ((r + i) % cap) = xs[i]

section
variable {buf : Nat → α} {cap r : Nat} {xs : List α}

theorem holds_nil (buf : Nat → α) (h : r < cap) : Holds buf cap r [] := ⟨h, Nat.zero_le _, by simp⟩

theorem add_mod_ne {i j : Nat} (h : i < j) (hj : j < i + cap) : (r + i) % cap ≠ (r + j) % cap := by
  intro he
  have hd : cap ∣ (r + j) - (r + i) := Nat.dvd_of_mod_eq_zero (Nat.sub_mod_eq_zero_of_mod_eq he.symm)
  have := Nat.le_of_dvd (by omega) hd
  omega

theorem Holds.push (h : Holds buf cap r xs) (hr : xs.length < cap) (x : α) :
    Holds (Function.update buf ((r + xs.length) % cap) x) cap r (xs ++ [x]) where
  start := h.start
  room := by simp; omega
  cell i hi := by
    rw [List.length_append, List.length_singleton] at hi
    rcases Nat.lt_or_ge i xs.length with hlt | hge
    · rw [Function.update_of_ne (add_mod_ne hlt (by omega)), h.cell i hlt, List.getElem_append_left hlt]
    · obtain rfl : i = xs.length := by omega
      simp

theorem Holds.head {x : α} (h : Holds buf cap r (x :: xs)) : buf r = x := by
  have := h.cell 0 (by simp)
  rwa [Nat.add_zero, Nat.mod_eq_of_lt h.start] at this

theorem Holds.pop {x : α} (h : Holds buf cap r (x :: xs)) : Holds buf cap ((r + 1) % cap) xs where
  start := Nat.mod_lt _ (Nat.zero_lt_of_lt h.start)
  room := Nat.le_of_succ_le h.room
  cell i hi := by
    have := h.cell (i + 1) (by simp; omega)
    rw [Nat.mod_add_mod, Nat.add_assoc, Nat.add_comm 1 i, this, List.getElem_cons_succ]

end

end CircularBuffer
