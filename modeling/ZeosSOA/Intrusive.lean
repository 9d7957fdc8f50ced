import Mathlib.Data.List.Chain
import Mathlib.Data.List.Nodup
import Mathlib.Data.Set.Insert

/-!
# Intrusive circular lists

A list is threaded through `next`/`prev` words stored inside its elements. A node
is a list head or the anchor of an element, and a head that is linked to itself
stands for the empty list. `Rings l D q` says that the heads in `D` carry pairwise
disjoint well-formed circular lists with the element sequences `q`. The rules at the
end say what linking in, linking out and resetting a head do to the sequences.
-/

namespace Intrusive

inductive Node (ι τ : Type) where
  | head (i : ι)
  | anchor (t : τ)
  deriving DecidableEq

/-- The link words of every node; `none` is the null pointer. -/
structure Links (ι τ : Type) where
  next : Node ι τ → Option (Node ι τ)
  prev : Node ι τ → Option (Node ι τ)

section
variable {ι τ : Type}

/-! ## Chains and rings -/

namespace Links

def Linked (l : Links ι τ) (a b : Node ι τ) : Prop :=
  l.next a = some b ∧ l.prev b = some a

/-- The circular list of the head `h` with the members `xs`, in `next` order. -/
def Ring (l : Links ι τ) (h : Node ι τ) (xs : List (Node ι τ)) : Prop :=
  List.IsChain l.Linked (h :: (xs ++ [h]))

instance [DecidableEq ι] [DecidableEq τ] (l : Links ι τ) : DecidableRel l.Linked := fun _ _ =>
  inferInstanceAs (Decidable (_ ∧ _))

instance [DecidableEq ι] [DecidableEq τ] (l : Links ι τ) (h : Node ι τ) (xs : List (Node ι τ)) : Decidable (l.Ring h xs) :=
  inferInstanceAs (Decidable (List.IsChain _ _))

end Links

theorem chain_congr {l l' : Links ι τ} : ∀ {c : List (Node ι τ)},
    (∀ a ∈ c.dropLast, l'.next a = l.next a) → (∀ b ∈ c.tail, l'.prev b = l.prev b) →
    c.IsChain l.Linked → c.IsChain l'.Linked
  | [], _, _, _ => .nil
  | [a], _, _, _ => .singleton a
  | a :: b :: c, hn, hp, hc => by
    rw [List.isChain_cons_cons] at hc ⊢
    have ha := hn a (by simp)
    have hb := hp b (by simp)
    refine ⟨⟨ha.trans hc.1.1, hb.trans hc.1.2⟩, chain_congr (fun x hx => hn x ?_) (fun x hx => hp x ?_) hc.2⟩
    · simpa using Or.inr hx
    · exact List.mem_of_mem_tail hx

theorem ring_congr {l l' : Links ι τ} {h : Node ι τ} {xs : List (Node ι τ)}
    (hn : ∀ a ∈ h :: xs, l'.next a = l.next a) (hp : ∀ a ∈ h :: xs, l'.prev a = l.prev a)
    (hr : l.Ring h xs) : l'.Ring h xs := by
  refine chain_congr (fun a ha => hn a ?_) (fun a ha => hp a ?_) hr
  · rwa [← List.cons_append, List.dropLast_concat] at ha
  · simpa [or_comm] using ha

theorem ring_prev_head {l : Links ι τ} {h : Node ι τ} {xs : List (Node ι τ)} (hr : l.Ring h xs) :
    ∃ pre a, h :: xs = pre ++ [a] ∧ l.prev h = some a := by
  obtain ⟨pre, a, e⟩ := (h :: xs).eq_nil_or_concat.resolve_left (List.cons_ne_nil _ _)
  rw [List.concat_eq_append] at e
  unfold Links.Ring at hr
  rw [← List.cons_append, e, List.append_assoc, List.singleton_append, List.isChain_split] at hr
  exact ⟨pre, a, e, (List.isChain_pair.mp hr.2).2⟩

theorem ring_next_head {l : Links ι τ} {h : Node ι τ} {xs : List (Node ι τ)} (hr : l.Ring h xs) :
    l.next h = some (xs.headD h) := by
  cases xs with
  | nil => exact (List.isChain_pair.mp hr).1
  | cons x xs => exact (List.isChain_cons_cons.mp hr).1.1

theorem ring_next_cons {l : Links ι τ} {h x : Node ι τ} {xs : List (Node ι τ)} (hr : l.Ring h (x :: xs)) :
    l.next x = some (xs.headD h) := by
  have hr' := (List.isChain_cons_cons.mp hr).2
  cases xs with
  | nil => exact (List.isChain_pair.mp hr').1
  | cons y ys => exact (List.isChain_cons_cons.mp hr').1.1

theorem ring_next {l : Links ι τ} {h a : Node ι τ} {xs : List (Node ι τ)} (hr : l.Ring h xs) (ha : a ∈ h :: xs) :
    ∃ b ∈ h :: xs, l.next a = some b ∧ l.prev b = some a := by
  obtain ⟨pre, post, e⟩ := List.append_of_mem ha
  obtain ⟨b, rest, eb⟩ := List.exists_cons_of_ne_nil (List.concat_ne_nil h post)
  have hb : b ∈ post ++ [h] := by rw [eb]; exact List.mem_cons_self
  unfold Links.Ring at hr
  rw [← List.cons_append, e, List.append_assoc, List.cons_append, eb, List.isChain_split] at hr
  refine ⟨b, ?_, (List.isChain_cons_cons.mp hr.2).1⟩
  rcases List.mem_append.mp hb with hb | hb
  · rw [e]
    exact List.mem_append_right _ (List.mem_cons_of_mem _ hb)
  · rw [List.mem_singleton.mp hb]
    exact List.mem_cons_self

theorem ring_prev {l : Links ι τ} {h a : Node ι τ} {xs : List (Node ι τ)} (hr : l.Ring h xs) (ha : a ∈ h :: xs) :
    ∃ b ∈ h :: xs, l.prev a = some b ∧ l.next b = some a := by
  have ha' : a ∈ xs ++ [h] := by
    rw [List.mem_append, List.mem_singleton, or_comm]
    exact List.mem_cons.mp ha
  obtain ⟨pre, post, e⟩ := List.append_of_mem ha'
  obtain ⟨pre', b, eb⟩ := (h :: pre).eq_nil_or_concat.resolve_left (List.cons_ne_nil _ _)
  rw [List.concat_eq_append] at eb
  unfold Links.Ring at hr
  rw [e, ← List.cons_append, eb, List.append_assoc, List.singleton_append, List.isChain_split] at hr
  obtain ⟨hn, hp⟩ := (List.isChain_cons_cons.mp hr.2).1
  refine ⟨b, ?_, hp, hn⟩
  have hb : b ∈ h :: pre := by rw [eb]; simp
  rcases List.mem_cons.mp hb with hb | hb
  · exact hb ▸ List.mem_cons_self
  · have hbx : b ∈ xs ++ [h] := by
      rw [e]
      exact List.mem_append_left _ hb
    rw [List.mem_append, List.mem_singleton, or_comm] at hbx
    exact List.mem_cons.mpr hbx

theorem ring_nil {l : Links ι τ} {h : Node ι τ} (hr : l.Ring h []) : l.Linked h h := List.isChain_pair.mp hr

/-! ## Disjoint rings -/

/-- The heads in `D` carry pairwise disjoint rings with the element sequences `q`. -/
structure Links.Rings (l : Links ι τ) (D : Set ι) (q : ι → List τ) : Prop where
  ring : ∀ i ∈ D, l.Ring (.head i) ((q i).map .anchor)
  nodup : ∀ i ∈ D, (q i).Nodup
  apart : ∀ i ∈ D, ∀ j ∈ D, ∀ t, t ∈ q i → t ∈ q j → i = j

def cycle (q : ι → List τ) (i : ι) : List (Node ι τ) := .head i :: (q i).map .anchor

section
variable {l : Links ι τ} {D : Set ι} {q : ι → List τ}

theorem cycle_nodup {i : ι} (h : (q i).Nodup) : (cycle q i).Nodup :=
  List.nodup_cons.mpr ⟨by simp, h.map fun _ _ e => Node.anchor.inj e⟩

theorem cycle_apart (h : l.Rings D q) {i j : ι} (hi : i ∈ D) (hj : j ∈ D) (hij : i ≠ j)
    {a : Node ι τ} (ha : a ∈ cycle q i) : a ∉ cycle q j := by
  intro hb
  cases a with
  | head k =>
    have h1 : k = i := by simpa [cycle] using ha
    have h2 : k = j := by simpa [cycle] using hb
    exact hij (h1.symm.trans h2)
  | anchor t =>
    have h1 : t ∈ q i := by simpa [cycle] using ha
    have h2 : t ∈ q j := by simpa [cycle] using hb
    exact hij (h.apart i hi j hj t h1 h2)

theorem rings_congr {l' : Links ι τ} (h : l.Rings D q)
    (hn : ∀ i ∈ D, ∀ a ∈ cycle q i, l'.next a = l.next a ∧ l'.prev a = l.prev a) : l'.Rings D q :=
  ⟨fun i hi => ring_congr (fun a ha => (hn i hi a ha).1) (fun a ha => (hn i hi a ha).2) (h.ring i hi),
    h.nodup, h.apart⟩

theorem rings_mono {D' : Set ι} (h : l.Rings D q) (hs : D' ⊆ D) : l.Rings D' q :=
  ⟨fun i hi => h.ring i (hs hi), fun i hi => h.nodup i (hs hi),
    fun i hi j hj => h.apart i (hs hi) j (hs hj)⟩

theorem rings_congr_seq {q' : ι → List τ} (h : l.Rings D q) (hq : ∀ i ∈ D, q' i = q i) : l.Rings D q' :=
  ⟨fun i hi => by rw [hq i hi]; exact h.ring i hi, fun i hi => by rw [hq i hi]; exact h.nodup i hi,
    fun i hi j hj t => by rw [hq i hi, hq j hj]; exact h.apart i hi j hj t⟩

theorem anchor_not_mem_cycle {t : τ} {i : ι} (ht : t ∉ q i) : Node.anchor t ∉ cycle q i := by
  simpa [cycle] using ht

/-- Along the lists `next` and `prev` undo one another. -/
def Links.Inverse (l : Links ι τ) (D : Set ι) (q : ι → List τ) : Prop :=
  ∀ i ∈ D, ∀ a ∈ cycle q i, (∃ b ∈ cycle q i, l.next a = some b ∧ l.prev b = some a) ∧
    ∃ b ∈ cycle q i, l.prev a = some b ∧ l.next b = some a

theorem rings_inverse (h : l.Rings D q) : l.Inverse D q := fun i hi _ ha =>
  ⟨ring_next (h.ring i hi) ha, ring_prev (h.ring i hi) ha⟩

end

/-! ## Walking a list -/

/-- The elements met on the way from the node `a` back to a head, at most `n` of them. -/
def Links.walk (l : Links ι τ) : Nat → Option (Node ι τ) → List τ
  | n + 1, some (.anchor t) => t :: l.walk n (l.next (.anchor t))
  | _, _ => []

def Links.elems (l : Links ι τ) (n : Nat) (i : ι) : List τ := l.walk n (l.next (.head i))

theorem walk_chain {l : Links ι τ} {i : ι} : ∀ {xs : List τ} {n : Nat} {a : Node ι τ},
    List.IsChain l.Linked (a :: (xs.map .anchor ++ [.head i])) → xs.length ≤ n →
    l.walk n (l.next a) = xs
  | [], n, a, hc, _ => by
    rw [(List.isChain_pair.mp hc).1]; cases n <;> rfl
  | x :: xs, 0, _, _, hn => by simp at hn
  | x :: xs, n + 1, a, hc, hn => by
    rw [List.map_cons, List.cons_append, List.isChain_cons_cons] at hc
    rw [hc.1.1, Links.walk, walk_chain hc.2 (Nat.le_of_succ_le_succ hn)]

theorem rings_elems {l : Links ι τ} {D : Set ι} {q : ι → List τ} (h : l.Rings D q) {i : ι} (hi : i ∈ D)
    {n : Nat} (hn : (q i).length ≤ n) : l.elems n i = q i :=
  walk_chain (h.ring i hi) hn

end

section
variable {ι τ : Type} [DecidableEq ι] [DecidableEq τ]

/-! ## Changing links -/

namespace Links

def setNext (l : Links ι τ) (a : Node ι τ) (b : Option (Node ι τ)) : Links ι τ :=
  { l with next := Function.update l.next a b }

def setPrev (l : Links ι τ) (a : Node ι τ) (b : Option (Node ι τ)) : Links ι τ :=
  { l with prev := Function.update l.prev a b }

@[simp] theorem setNext_next (l : Links ι τ) (a x : Node ι τ) (b : Option (Node ι τ)) :
    (l.setNext a b).next x = if x = a then b else l.next x := Function.update_apply ..

@[simp] theorem setNext_prev (l : Links ι τ) (a : Node ι τ) (b : Option (Node ι τ)) :
    (l.setNext a b).prev = l.prev := rfl

@[simp] theorem setPrev_prev (l : Links ι τ) (a x : Node ι τ) (b : Option (Node ι τ)) :
    (l.setPrev a b).prev x = if x = a then b else l.prev x := Function.update_apply ..

@[simp] theorem setPrev_next (l : Links ι τ) (a : Node ι τ) (b : Option (Node ι τ)) :
    (l.setPrev a b).next = l.next := rfl

/-- `x` put between the neighbours `a` and `b`. -/
def linkIn (l : Links ι τ) (a x b : Node ι τ) : Links ι τ :=
  (((l.setPrev b (some x)).setNext x (some b)).setPrev x (some a)).setNext a (some x)

/-- `x` taken out from between `a` and `b`; its own words become null. -/
def linkOut (l : Links ι τ) (a x b : Node ι τ) : Links ι τ :=
  (((l.setPrev b (some a)).setNext a (some b)).setNext x none).setPrev x none

def loop (l : Links ι τ) (a : Node ι τ) : Links ι τ :=
  (l.setNext a (some a)).setPrev a (some a)

end Links

theorem chain_linkIn {l : Links ι τ} {pre post : List (Node ι τ)} {a b x : Node ι τ}
    (hc : (pre ++ a :: b :: post).IsChain l.Linked) (ha : a ∉ pre ++ (b :: post).dropLast)
    (hb : b ∉ (pre ++ [a]).tail ++ post) (hx : x ∉ pre ++ a :: b :: post) :
    (pre ++ a :: x :: b :: post).IsChain (l.linkIn a x b).Linked := by
  simp only [List.mem_append, List.mem_cons, not_or] at ha hb hx
  rw [List.isChain_split] at hc ⊢
  obtain ⟨hpre, hab⟩ := hc
  rw [List.isChain_cons_cons] at hab
  have hxa : x ≠ a := hx.2.1
  have hxb : x ≠ b := hx.2.2.1
  refine ⟨chain_congr ?_ ?_ hpre, ?_⟩
  · intro u hu
    rw [List.dropLast_concat] at hu
    have hua : u ≠ a := fun e => ha.1 (e ▸ hu)
    have hux : u ≠ x := fun e => hx.1 (e ▸ hu)
    simp [Links.linkIn, hua, hux]
  · intro v hv
    have hvb : v ≠ b := fun e => hb.1 (e ▸ hv)
    have hvx : v ≠ x := by
      rintro rfl
      rcases List.mem_append.mp (List.mem_of_mem_tail hv) with h | h
      · exact hx.1 h
      · exact hxa (by simpa using h)
    simp [Links.linkIn, hvb, hvx]
  · rw [List.isChain_cons_cons, List.isChain_cons_cons]
    refine ⟨?_, ?_, chain_congr ?_ ?_ hab.2⟩
    · simp [Links.Linked, Links.linkIn]
    · simp [Links.Linked, Links.linkIn, hxa, hxb.symm]
    · intro u hu
      have hua : u ≠ a := fun e => ha.2 (e ▸ hu)
      have hux : u ≠ x := by
        rintro rfl
        rcases List.mem_cons.mp (List.dropLast_subset _ hu) with h | h
        · exact hxb h
        · exact hx.2.2.2 h
      simp [Links.linkIn, hua, hux]
    · intro v hv
      have hvb : v ≠ b := fun e => hb.2 (e ▸ hv)
      have hvx : v ≠ x := fun e => hx.2.2.2 (e ▸ hv)
      simp [Links.linkIn, hvb, hvx]

theorem chain_linkOut {l : Links ι τ} {pre post : List (Node ι τ)} {a b x : Node ι τ}
    (hc : (pre ++ a :: x :: b :: post).IsChain l.Linked) (ha : a ∉ pre ++ (b :: post).dropLast)
    (hb : b ∉ (pre ++ [a]).tail ++ post) (hx : x ∉ pre ++ a :: b :: post) :
    (pre ++ a :: b :: post).IsChain (l.linkOut a x b).Linked := by
  simp only [List.mem_append, List.mem_cons, not_or] at ha hb hx
  rw [List.isChain_split] at hc ⊢
  obtain ⟨hpre, hab⟩ := hc
  rw [List.isChain_cons_cons, List.isChain_cons_cons] at hab
  have hxa : a ≠ x := fun e => hx.2.1 e.symm
  have hxb : b ≠ x := fun e => hx.2.2.1 e.symm
  refine ⟨chain_congr ?_ ?_ hpre, ?_⟩
  · intro u hu
    rw [List.dropLast_concat] at hu
    have hua : u ≠ a := fun e => ha.1 (e ▸ hu)
    have hux : u ≠ x := fun e => hx.1 (e ▸ hu)
    simp [Links.linkOut, hua, hux]
  · intro v hv
    have hvb : v ≠ b := fun e => hb.1 (e ▸ hv)
    have hvx : v ≠ x := by
      rintro rfl
      rcases List.mem_append.mp (List.mem_of_mem_tail hv) with h | h
      · exact hx.1 h
      · exact hxa (List.mem_singleton.mp h).symm
    simp [Links.linkOut, hvb, hvx]
  · rw [List.isChain_cons_cons]
    refine ⟨?_, chain_congr ?_ ?_ hab.2.2⟩
    · simp [Links.Linked, Links.linkOut, hxa, hxb]
    · intro u hu
      have hua : u ≠ a := fun e => ha.2 (e ▸ hu)
      have hux : u ≠ x := by
        rintro rfl
        rcases List.mem_cons.mp (List.dropLast_subset _ hu) with h | h
        · exact hxb h.symm
        · exact hx.2.2.2 h
      simp [Links.linkOut, hua, hux]
    · intro v hv
      have hvb : v ≠ b := fun e => hb.2 (e ▸ hv)
      have hvx : v ≠ x := fun e => hx.2.2.2 (e ▸ hv)
      simp [Links.linkOut, hvb, hvx]

theorem ring_snoc {l : Links ι τ} {h a x : Node ι τ} {xs : List (Node ι τ)} (hr : l.Ring h xs)
    (hd : (h :: xs).Nodup) (hx : x ∉ h :: xs) (ha : l.prev h = some a) :
    (l.linkIn a x h).Ring h (xs ++ [x]) := by
  obtain ⟨pre, a', e, ha'⟩ := ring_prev_head hr
  obtain rfl : a' = a := Option.some.inj (ha'.symm.trans ha)
  have hc : (pre ++ a' :: h :: []).IsChain l.Linked := by
    have : h :: (xs ++ [h]) = pre ++ a' :: h :: [] := by rw [← List.cons_append, e]; simp
    rw [← this]; exact hr
  have hpd : a' ∉ pre := by
    rw [e] at hd
    exact fun hm => (List.disjoint_of_nodup_append hd) hm (by simp)
  have ht : h ∉ (pre ++ [a']).tail := by rw [← e]; exact (List.nodup_cons.mp hd).1
  have hxm : x ∉ pre ++ a' :: h :: [] := by
    have : pre ++ a' :: h :: [] = (h :: xs) ++ [h] := by rw [e]; simp
    rw [this]; simp only [List.mem_append, List.mem_singleton, not_or]
    exact ⟨hx, fun he => hx (he ▸ List.mem_cons_self)⟩
  have := chain_linkIn hc (by simpa using hpd) (by simpa using ht) hxm
  have e' : h :: (xs ++ [x] ++ [h]) = pre ++ a' :: x :: h :: [] := by
    rw [← List.cons_append, ← List.cons_append, e]; simp
  unfold Links.Ring; rw [e']; exact this

theorem ring_cons {l : Links ι τ} {h b x : Node ι τ} {xs : List (Node ι τ)} (hr : l.Ring h xs)
    (hd : (h :: xs).Nodup) (hx : x ∉ h :: xs) (hb : l.next h = some b) :
    (l.linkIn h x b).Ring h (x :: xs) := by
  obtain ⟨hh, hxs⟩ := List.nodup_cons.mp hd
  have hb' := Option.some.inj ((ring_next_head hr).symm.trans hb)
  have key : ∃ post, xs ++ [h] = b :: post ∧ b ∉ post ∧ h ∉ (b :: post).dropLast := by
    cases xs with
    | nil => exact ⟨[], by simpa using hb', by simp, by simp⟩
    | cons y ys =>
      obtain rfl : y = b := hb'
      refine ⟨ys ++ [h], rfl, ?_, ?_⟩
      · simp only [List.mem_append, List.mem_singleton, not_or]
        exact ⟨(List.nodup_cons.mp hxs).1, fun e => hh (e ▸ List.mem_cons_self)⟩
      · rw [← List.cons_append, List.dropLast_concat]; exact hh
  obtain ⟨post, e, hbp, hhp⟩ := key
  have hc : ([] ++ h :: b :: post).IsChain l.Linked := by rw [List.nil_append, ← e]; exact hr
  have hxm : x ∉ [] ++ h :: b :: post := by
    rw [List.nil_append, ← e, ← List.cons_append, List.mem_append, List.mem_singleton, not_or]
    exact ⟨hx, fun he => hx (he ▸ List.mem_cons_self)⟩
  have := chain_linkIn hc (by simpa using hhp) (by simpa using hbp) hxm
  unfold Links.Ring; rw [List.cons_append, e]; exact this

theorem ring_remove {l : Links ι τ} {h x : Node ι τ} {xs ys : List (Node ι τ)}
    (hr : l.Ring h (xs ++ x :: ys)) (hd : (h :: (xs ++ x :: ys)).Nodup) :
    ∃ a b, l.prev x = some a ∧ l.next x = some b ∧ a ∈ h :: xs ∧ b ∈ ys ++ [h] ∧
      (l.linkOut a x b).Ring h (xs ++ ys) := by
  obtain ⟨pre, a, ea⟩ := (h :: xs).eq_nil_or_concat.resolve_left (List.cons_ne_nil _ _)
  obtain ⟨b, post, eb⟩ := List.exists_cons_of_ne_nil (List.concat_ne_nil h ys)
  rw [List.concat_eq_append] at ea
  have ec : h :: (xs ++ x :: ys ++ [h]) = pre ++ a :: x :: b :: post := by
    rw [List.append_assoc, ← List.cons_append, ea, List.cons_append, eb]; simp
  have hc : (pre ++ a :: x :: b :: post).IsChain l.Linked := by rw [← ec]; exact hr
  have ha' : a ∈ h :: xs := by rw [ea]; simp
  have hb' : b ∈ ys ++ [h] := by rw [eb]; simp
  have hxy : (h :: xs).Nodup ∧ (x :: ys).Nodup ∧ (h :: xs).Disjoint (x :: ys) := by
    rw [← List.cons_append] at hd; exact List.nodup_append'.mp hd
  have hxh : x ≠ h := fun e => hxy.2.2 (List.mem_cons_self) (e ▸ List.mem_cons_self)
  have hla : a ∉ pre ++ (b :: post).dropLast := by
    rw [← eb, List.dropLast_concat, List.mem_append, not_or]
    refine ⟨fun hm => ?_, fun hm => hxy.2.2 ha' (List.mem_cons_of_mem _ hm)⟩
    have := hxy.1; rw [ea] at this
    exact List.disjoint_of_nodup_append this hm (by simp)
  have hlb : b ∉ (pre ++ [a]).tail ++ post := by
    rw [← ea, List.tail_cons, List.mem_append, not_or]
    constructor
    · intro hm
      rcases List.mem_append.mp hb' with h1 | h1
      · exact hxy.2.2 (List.mem_cons_of_mem _ hm) (List.mem_cons_of_mem _ h1)
      · rw [List.mem_singleton] at h1; subst h1
        exact (List.nodup_cons.mp hxy.1).1 hm
    · have : (b :: post).Nodup := by
        rw [← eb, List.nodup_append']
        refine ⟨(List.nodup_cons.mp hxy.2.1).2, by simp, fun u hu hv => ?_⟩
        rw [List.mem_singleton] at hv; subst hv
        exact hxy.2.2 List.mem_cons_self (List.mem_cons_of_mem _ hu)
      exact (List.nodup_cons.mp this).1
  have hlx : x ∉ pre ++ a :: b :: post := by
    have : pre ++ a :: b :: post = (h :: xs) ++ (ys ++ [h]) := by rw [ea, eb]; simp
    rw [this, List.mem_append, List.mem_append, List.mem_singleton, not_or, not_or]
    exact ⟨fun hm => hxy.2.2 hm List.mem_cons_self, (List.nodup_cons.mp hxy.2.1).1, hxh⟩
  have hl := (List.isChain_split.mp hc).2
  rw [List.isChain_cons_cons, List.isChain_cons_cons] at hl
  refine ⟨a, b, hl.1.2, hl.2.1.1, ha', hb', ?_⟩
  have e' : h :: (xs ++ ys ++ [h]) = pre ++ a :: b :: post := by
    rw [List.append_assoc, ← List.cons_append, ea, eb]; simp
  unfold Links.Ring; rw [e']; exact chain_linkOut hc hla hlb hlx

theorem ring_loop (l : Links ι τ) (h : Node ι τ) : (l.loop h).Ring h [] :=
  List.isChain_pair.mpr (by simp [Links.Linked, Links.loop])

/-! ## What the changes do to disjoint rings -/

section
variable {l : Links ι τ} {D : Set ι} {q : ι → List τ}

omit [DecidableEq τ] in
theorem rings_update (l' : Links ι τ) (i : ι) (xs : List τ) (h : l.Rings D q)
    (hr : l'.Ring (.head i) (xs.map .anchor)) (hx : xs.Nodup)
    (ho : ∀ j ∈ D, j ≠ i → ∀ t ∈ xs, t ∉ q j)
    (hn : ∀ j ∈ D, j ≠ i → ∀ a ∈ cycle q j, l'.next a = l.next a ∧ l'.prev a = l.prev a) :
    l'.Rings (insert i D) (Function.update q i xs) := by
  refine ⟨fun j hj => ?_, fun j hj => ?_, fun j hj k hk t htj htk => ?_⟩
  · by_cases e : j = i
    · subst e; rwa [Function.update_self]
    · have hjD := Set.mem_of_mem_insert_of_ne hj e
      rw [Function.update_of_ne e]
      exact ring_congr (fun a ha => (hn j hjD e a ha).1) (fun a ha => (hn j hjD e a ha).2) (h.ring j hjD)
  · by_cases e : j = i
    · subst e; rwa [Function.update_self]
    · rw [Function.update_of_ne e]; exact h.nodup j (Set.mem_of_mem_insert_of_ne hj e)
  · by_cases ej : j = i <;> by_cases ek : k = i
    · exact ej.trans ek.symm
    · subst ej; rw [Function.update_self] at htj; rw [Function.update_of_ne ek] at htk
      exact absurd htk (ho k (Set.mem_of_mem_insert_of_ne hk ek) ek t htj)
    · subst ek; rw [Function.update_self] at htk; rw [Function.update_of_ne ej] at htj
      exact absurd htj (ho j (Set.mem_of_mem_insert_of_ne hj ej) ej t htk)
    · rw [Function.update_of_ne ej] at htj; rw [Function.update_of_ne ek] at htk
      exact h.apart j (Set.mem_of_mem_insert_of_ne hj ej) k (Set.mem_of_mem_insert_of_ne hk ek) t htj htk

theorem linkIn_frame (l : Links ι τ) {a x b c : Node ι τ} (ha : c ≠ a) (hx : c ≠ x) (hb : c ≠ b) :
    (l.linkIn a x b).next c = l.next c ∧ (l.linkIn a x b).prev c = l.prev c := by
  simp [Links.linkIn, ha, hx, hb]

theorem linkOut_frame (l : Links ι τ) {a x b c : Node ι τ} (ha : c ≠ a) (hx : c ≠ x) (hb : c ≠ b) :
    (l.linkOut a x b).next c = l.next c ∧ (l.linkOut a x b).prev c = l.prev c := by
  simp [Links.linkOut, ha, hx, hb]

theorem rings_snoc (h : l.Rings D q) {t : τ} (ht : ∀ i ∈ D, t ∉ q i) {i : ι} (hi : i ∈ D) :
    ∃ a, l.prev (.head i) = some a ∧
      (l.linkIn a (.anchor t) (.head i)).Rings D (Function.update q i (q i ++ [t])) := by
  obtain ⟨pre, a, e, ha⟩ := ring_prev_head (h.ring i hi)
  have hac : a ∈ cycle q i := by unfold cycle; rw [e]; simp
  refine ⟨a, ha, ?_⟩
  have := rings_update (l.linkIn a (.anchor t) (.head i)) i (q i ++ [t]) h ?_ ?_ ?_ ?_
  · rwa [Set.insert_eq_of_mem hi] at this
  · rw [List.map_append]
    exact ring_snoc (h.ring i hi) (cycle_nodup (h.nodup i hi)) (anchor_not_mem_cycle (ht i hi)) ha
  · exact List.nodup_append'.mpr ⟨h.nodup i hi, by simp, by simpa using ht i hi⟩
  · intro j hj hji u hu
    rcases List.mem_append.mp hu with hu | hu
    · exact fun hm => hji (h.apart j hj i hi u hm hu)
    · rw [List.mem_singleton] at hu; subst hu; exact ht j hj
  · intro j hj hji c hc
    refine linkIn_frame l ?_ ?_ ?_
    · rintro rfl; exact cycle_apart h hj hi hji hc hac
    · rintro rfl; exact anchor_not_mem_cycle (ht j hj) hc
    · rintro rfl; exact cycle_apart h hj hi hji hc List.mem_cons_self

theorem rings_cons (h : l.Rings D q) {t : τ} (ht : ∀ i ∈ D, t ∉ q i) {i : ι} (hi : i ∈ D) :
    ∃ b, l.next (.head i) = some b ∧
      (l.linkIn (.head i) (.anchor t) b).Rings D (Function.update q i (t :: q i)) := by
  have hb := ring_next_head (h.ring i hi)
  have hbc : ((q i).map Node.anchor).headD (Node.head i) ∈ cycle q i := by
    unfold cycle; cases q i <;> simp
  refine ⟨_, hb, ?_⟩
  have := rings_update (l.linkIn (.head i) (.anchor t) _) i (t :: q i) h
    (ring_cons (h.ring i hi) (cycle_nodup (h.nodup i hi)) (anchor_not_mem_cycle (ht i hi)) hb)
    (List.nodup_cons.mpr ⟨ht i hi, h.nodup i hi⟩) ?_ ?_
  · rwa [Set.insert_eq_of_mem hi] at this
  · intro j hj hji u hu
    rcases List.mem_cons.mp hu with rfl | hu
    · exact ht j hj
    · exact fun hm => hji (h.apart j hj i hi u hm hu)
  · intro j hj hji c hc
    refine linkIn_frame l ?_ ?_ ?_
    · rintro rfl; exact cycle_apart h hj hi hji hc List.mem_cons_self
    · rintro rfl; exact anchor_not_mem_cycle (ht j hj) hc
    · rintro rfl; exact cycle_apart h hj hi hji hc hbc

theorem rings_remove (h : l.Rings D q) {i : ι} (hi : i ∈ D) {xs ys : List τ} {t : τ}
    (hq : q i = xs ++ t :: ys) :
    ∃ a b, l.prev (.anchor t) = some a ∧ l.next (.anchor t) = some b ∧
      (l.linkOut a (.anchor t) b).Rings D (Function.update q i (xs ++ ys)) := by
  have hr := h.ring i hi
  have hd := cycle_nodup (h.nodup i hi)
  unfold cycle at hd
  rw [hq, List.map_append, List.map_cons] at hr hd
  obtain ⟨a, b, ha, hb, hac, hbc, hrem⟩ := ring_remove hr hd
  have hqn := h.nodup i hi
  rw [hq] at hqn
  have hmem : ∀ {c : Node ι τ}, c ∈ cycle q i ↔
      c = .head i ∨ c ∈ xs.map Node.anchor ∨ c = .anchor t ∨ c ∈ ys.map Node.anchor := by
    intro c; unfold cycle; rw [hq]; simp
  have hai : a ∈ cycle q i := by
    rw [hmem]; rcases List.mem_cons.mp hac with h1 | h1
    · exact .inl h1
    · exact .inr (.inl h1)
  have hbi : b ∈ cycle q i := by
    rw [hmem]; rcases List.mem_append.mp hbc with h1 | h1
    · exact .inr (.inr (.inr h1))
    · exact .inl (List.mem_singleton.mp h1)
  have hti : Node.anchor t ∈ cycle q i := hmem.mpr (.inr (.inr (.inl rfl)))
  refine ⟨a, b, ha, hb, ?_⟩
  have := rings_update (l.linkOut a (.anchor t) b) i (xs ++ ys) h ?_ ?_ ?_ ?_
  · rwa [Set.insert_eq_of_mem hi] at this
  · rwa [List.map_append]
  · exact hqn.sublist ((List.sublist_cons_self t ys).append_left xs)
  · intro j hj hji u hu hm
    refine hji (h.apart j hj i hi u hm ?_)
    rw [hq]
    exact ((List.sublist_cons_self t ys).append_left xs).subset hu
  · intro j hj hji c hc
    refine linkOut_frame l ?_ ?_ ?_
    · rintro rfl; exact cycle_apart h hj hi hji hc hai
    · rintro rfl; exact cycle_apart h hj hi hji hc hti
    · rintro rfl; exact cycle_apart h hj hi hji hc hbi

/-- Resetting a head empties its list, whatever the head held before. -/
theorem rings_loop (h : l.Rings D q) (i : ι) :
    (l.loop (.head i)).Rings (insert i D) (Function.update q i []) := by
  refine rings_update _ _ _ h (ring_loop l _) List.nodup_nil (fun _ _ _ _ hm => absurd hm List.not_mem_nil) ?_
  intro j _ hji c hc
  have : c ≠ .head i := by
    rintro rfl
    exact hji (by simpa [cycle] using hc : i = j).symm
  simp [Links.loop, this]

end

end

end Intrusive
