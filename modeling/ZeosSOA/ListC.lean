import ZeosSOA.Intrusive

/-!
# list.c

The list functions that both kernels share, on the link words of all `list_head`s. A
null pointer that is dereferenced stops the model (`none`). It stops the code as well as
long as page 0 is not present; in a child of `sys_fork`, whose page 0 is mapped and
writable, the code goes on with the words there. Each function is then described by what
it does to the sequences of a family of disjoint lists.
-/

namespace ZeosSOA

open Intrusive

section
variable {ι τ : Type} [DecidableEq ι] [DecidableEq τ]

def initListHead (l : Links ι τ) (list : Node ι τ) : Links ι τ :=
  (l.setNext list (some list)).setPrev list (some list)

/-- `__list_add`. -/
def internalListAdd (l : Links ι τ) (new prev next : Node ι τ) : Links ι τ :=
  let l := l.setPrev next (some new)
  let l := l.setNext new (some next)
  let l := l.setPrev new (some prev)
  l.setNext prev (some new)

def listAdd (l : Links ι τ) (new head : Node ι τ) : Option (Links ι τ) := do
  let next ← l.next head
  return internalListAdd l new head next

def listAddTail (l : Links ι τ) (new head : Node ι τ) : Option (Links ι τ) := do
  let prev ← l.prev head
  return internalListAdd l new prev head

/-- `__list_del`. -/
def internalListDel (l : Links ι τ) (prev next : Node ι τ) : Links ι τ :=
  let l := l.setPrev next (some prev)
  l.setNext prev (some next)

def listDel (l : Links ι τ) (entry : Node ι τ) : Option (Links ι τ) := do
  let prev ← l.prev entry
  let next ← l.next entry
  let l := internalListDel l prev next
  let l := l.setNext entry none
  return l.setPrev entry none

def listEmpty (l : Links ι τ) (head : Node ι τ) : Bool := l.next head = some head

/-- `list_first`: the pointer stored in the head, which is the head itself when the list is empty. -/
def listFirst (l : Links ι τ) (head : Node ι τ) : Option (Node ι τ) := l.next head

/-! ## Single link words -/

theorem internalListAdd_next (l : Links ι τ) (new prev next a : Node ι τ) : (internalListAdd l new prev next).next a =
    if a = prev then some new else if a = new then some next else l.next a := by
  simp [internalListAdd]

theorem internalListAdd_prev (l : Links ι τ) (new prev next a : Node ι τ) : (internalListAdd l new prev next).prev a =
    if a = new then some prev else if a = next then some new else l.prev a := by
  simp [internalListAdd]

theorem listAddTail_of_prev {l : Links ι τ} {head prev : Node ι τ} (h : l.prev head = some prev) (new : Node ι τ) :
    listAddTail l new head = some (internalListAdd l new prev head) := by
  simp [listAddTail, h]

theorem listAddTail_self {l : Links ι τ} {head : Node ι τ} (h : l.prev head = some head) (new : Node ι τ) :
    listAddTail l new head = some (internalListAdd l new head head) :=
  listAddTail_of_prev h new

theorem listDel_prev {l l' : Links ι τ} {entry : Node ι τ} (h : listDel l entry = some l') {a : Node ι τ} (ha : a ≠ entry)
    (hp : l.prev a ≠ none) : l'.prev a ≠ none := by
  obtain ⟨prev, -, h⟩ := Option.bind_eq_some_iff.mp h
  obtain ⟨next, -, h⟩ := Option.bind_eq_some_iff.mp h
  cases h
  simp only [internalListDel, Links.setNext_prev, Links.setPrev_prev, if_neg ha]
  split
  · simp
  · exact hp

theorem listDel_of_links {l : Links ι τ} {entry : Node ι τ} (hn : l.next entry ≠ none) (hp : l.prev entry ≠ none) :
    ∃ l', listDel l entry = some l' := by
  obtain ⟨next, hn⟩ := Option.ne_none_iff_exists'.mp hn
  obtain ⟨prev, hp⟩ := Option.ne_none_iff_exists'.mp hp
  exact ⟨_, by simp [listDel, hn, hp]; rfl⟩

/-! ## What they do to sequences -/

section
variable {l : Links ι τ} {D : Set ι} {q : ι → List τ}

theorem initListHead_rings (h : l.Rings D q) (i : ι) :
    (initListHead l (.head i)).Rings (insert i D) (Function.update q i []) :=
  rings_loop h i

theorem listAddTail_rings (h : l.Rings D q) {t : τ} (ht : ∀ i ∈ D, t ∉ q i) {i : ι} (hi : i ∈ D) :
    ∃ l', listAddTail l (.anchor t) (.head i) = some l' ∧
      l'.Rings D (Function.update q i (q i ++ [t])) := by
  obtain ⟨a, ha, hr⟩ := rings_snoc h ht hi
  exact ⟨_, by simp [listAddTail, ha]; rfl, hr⟩

theorem listAdd_rings (h : l.Rings D q) {t : τ} (ht : ∀ i ∈ D, t ∉ q i) {i : ι} (hi : i ∈ D) :
    ∃ l', listAdd l (.anchor t) (.head i) = some l' ∧ l'.Rings D (Function.update q i (t :: q i)) := by
  obtain ⟨b, hb, hr⟩ := rings_cons h ht hi
  exact ⟨_, by simp [listAdd, hb]; rfl, hr⟩

theorem listDel_rings (h : l.Rings D q) {i : ι} (hi : i ∈ D) {xs ys : List τ} {t : τ}
    (hq : q i = xs ++ t :: ys) :
    ∃ l', listDel l (.anchor t) = some l' ∧ l'.Rings D (Function.update q i (xs ++ ys)) := by
  obtain ⟨a, b, ha, hb, hr⟩ := rings_remove h hi hq
  exact ⟨_, by simp [listDel, ha, hb]; rfl, hr⟩

theorem listDel_frame (h : l.Rings D q) {i : ι} (hi : i ∈ D) {xs ys : List τ} {t : τ} (hq : q i = xs ++ t :: ys)
    {l' : Links ι τ} (hd : listDel l (.anchor t) = some l') {c : Node ι τ} (hc : c ∉ cycle q i) :
    l'.next c = l.next c ∧ l'.prev c = l.prev c := by
  have hr := h.ring i hi
  have hn := cycle_nodup (h.nodup i hi)
  unfold cycle at hn hc
  rw [hq, List.map_append, List.map_cons] at hr hn hc
  obtain ⟨a, b, ha, hb, hac, hbc, -⟩ := ring_remove hr hn
  simp only [listDel, ha, hb, Option.bind_some, Option.pure_def, Option.some.injEq, Option.bind_eq_bind] at hd
  rw [← hd]
  refine linkOut_frame l ?_ ?_ ?_ <;> rintro rfl <;> apply hc
  · rw [← List.cons_append]
    exact List.mem_append_left _ hac
  · simp
  · have : c = .head i ∨ c ∈ ys.map Node.anchor := by simpa [or_comm] using hbc
    rcases this with rfl | h
    · exact List.mem_cons_self
    · simp [h]

/-- A node linked at the end of a list outside the family and then at the end of one of its lists. The first leaves
the lists of the family alone if the last node of that other list is its head, or the last of the second list. -/
theorem listAddTail_twice (h : l.Rings D q) {t : τ} (ht : ∀ i ∈ D, t ∉ q i) {i k : ι} (hi : i ∈ D) (hk : k ∉ D)
    {l₁ l₂ : Links ι τ} (h₁ : listAddTail l (.anchor t) (.head k) = some l₁)
    (h₂ : listAddTail l₁ (.anchor t) (.head i) = some l₂)
    (hp : l.prev (.head k) = some (.head k) ∨ l.prev (.head k) = l.prev (.head i)) :
    l₂.Rings D (Function.update q i (q i ++ [t])) := by
  obtain ⟨l', hl', hr⟩ := listAddTail_rings h ht hi
  obtain ⟨p, hprev, h₁⟩ := Option.bind_eq_some_iff.mp h₁
  obtain ⟨a, ha, hl'⟩ := Option.bind_eq_some_iff.mp hl'
  obtain ⟨a', ha', h₂⟩ := Option.bind_eq_some_iff.mp h₂
  cases h₁
  cases h₂
  cases hl'
  have hik : i ≠ k := fun e => hk (e ▸ hi)
  have haa : a' = a := by
    rw [internalListAdd_prev, if_neg nofun, if_neg (fun e => hik (Node.head.inj e)), ha] at ha'
    exact (Option.some.inj ha').symm
  subst haa
  refine rings_congr hr fun j hj c hc => ?_
  have hck : c ≠ .head k := by
    rintro rfl
    have : k = j := by simpa [cycle] using hc
    exact hk (this ▸ hj)
  constructor
  · simp only [internalListAdd_next]
    by_cases hca : c = a'
    · rw [if_pos hca, if_pos hca]
    · have hcp : c ≠ p := by
        rintro rfl
        rcases hp with hp | hp
        · exact hck (Option.some.inj (hprev.symm.trans hp))
        · exact hca (Option.some.inj (hprev.symm.trans (hp.trans ha)))
      by_cases hct : c = .anchor t
      · simp [hct]
      · simp [hca, hct, hcp]
  · by_cases hct : c = .anchor t
    · simp [internalListAdd_prev, hct]
    · simp [internalListAdd_prev, hct, hck]

omit [DecidableEq ι] [DecidableEq τ] in
theorem listFirst_rings (h : l.Rings D q) {i : ι} (hi : i ∈ D) {t : τ} {ts : List τ} (hq : q i = t :: ts) :
    listFirst l (.head i) = some (.anchor t) := by
  have := ring_next_head (h.ring i hi)
  rwa [hq] at this

theorem listEmpty_rings (h : l.Rings D q) {i : ι} (hi : i ∈ D) :
    listEmpty l (.head i) = true ↔ q i = [] := by
  have := ring_next_head (h.ring i hi)
  unfold listEmpty
  cases hq : q i with
  | nil => rw [hq] at this; simpa using this
  | cons t ts => rw [hq] at this; simp [this]

theorem listAddTail_frame (h : l.Rings D q) {i : ι} (hi : i ∈ D) {t : τ} {l' : Links ι τ}
    (ha : listAddTail l (.anchor t) (.head i) = some l') {c : Node ι τ} (hc : c ∉ cycle q i) (ht : c ≠ .anchor t) :
    l'.next c = l.next c ∧ l'.prev c = l.prev c := by
  obtain ⟨pre, a, e, hp⟩ := ring_prev_head (h.ring i hi)
  have hac : a ∈ cycle q i := by
    unfold cycle
    rw [e]
    simp
  rw [listAddTail_of_prev hp, Option.some.injEq] at ha
  rw [← ha]
  refine linkIn_frame l ?_ ht ?_
  · intro he
    exact hc (he ▸ hac)
  · intro he
    exact hc (he ▸ List.mem_cons_self)

theorem listAdd_frame (h : l.Rings D q) {i : ι} (hi : i ∈ D) {t : τ} {l' : Links ι τ}
    (ha : listAdd l (.anchor t) (.head i) = some l') {c : Node ι τ} (hc : c ∉ cycle q i) (ht : c ≠ .anchor t) :
    l'.next c = l.next c ∧ l'.prev c = l.prev c := by
  obtain ⟨b, hb, hn, -⟩ := ring_next (h.ring i hi) List.mem_cons_self
  simp only [listAdd, hn, Option.bind_some, Option.bind_eq_bind, Option.pure_def, Option.some.injEq] at ha
  rw [← ha]
  refine linkIn_frame l ?_ ht ?_
  · intro he
    exact hc (he ▸ List.mem_cons_self)
  · intro he
    exact hc (he ▸ hb)

theorem listDel_null {entry : Node ι τ} {l' : Links ι τ} (h : listDel l entry = some l') :
    l'.next entry = none ∧ l'.prev entry = none := by
  obtain ⟨prev, -, h⟩ := Option.bind_eq_some_iff.mp h
  obtain ⟨next, -, h⟩ := Option.bind_eq_some_iff.mp h
  cases h
  simp

/-! ## Lists as sequences -/

/-- The lists have become `q'`. No word was written but those of `e` and of the nodes of the list `i`. -/
structure Becomes (l l' : Links ι τ) (D : Set ι) (q q' : ι → List τ) (i : ι) (e : τ) : Prop where
  rings : l'.Rings D q'
  inverse : l'.Inverse D q'
  others : ∀ a, a ∉ cycle q i → a ≠ .anchor e → l'.next a = l.next a ∧ l'.prev a = l.prev a

/-- The functions of list.c on lists that hold the sequences `q`. -/
structure ImplementsSequences (l : Links ι τ) (D : Set ι) (q : ι → List τ) : Prop where
  add : ∀ i ∈ D, ∀ e, (∀ j ∈ D, e ∉ q j) → ∃ l', listAdd l (.anchor e) (.head i) = some l' ∧
    Becomes l l' D q (Function.update q i (e :: q i)) i e
  addTail : ∀ i ∈ D, ∀ e, (∀ j ∈ D, e ∉ q j) → ∃ l', listAddTail l (.anchor e) (.head i) = some l' ∧
    Becomes l l' D q (Function.update q i (q i ++ [e])) i e
  del : ∀ i ∈ D, ∀ xs e ys, q i = xs ++ e :: ys → ∃ l', listDel l (.anchor e) = some l' ∧
    Becomes l l' D q (Function.update q i (xs ++ ys)) i e ∧ l'.next (.anchor e) = none ∧ l'.prev (.anchor e) = none
  empty : ∀ i ∈ D, listEmpty l (.head i) = true ↔ q i = []
  first : ∀ i ∈ D, ∀ e es, q i = e :: es → listFirst l (.head i) = some (.anchor e)

theorem implements_sequences (h : l.Rings D q) : ImplementsSequences l D q where
  add := by
    intro i hi e he
    obtain ⟨l', hl, hr⟩ := listAdd_rings h he hi
    exact ⟨l', hl, hr, rings_inverse hr, fun a ha hne => listAdd_frame h hi hl ha hne⟩
  addTail := by
    intro i hi e he
    obtain ⟨l', hl, hr⟩ := listAddTail_rings h he hi
    exact ⟨l', hl, hr, rings_inverse hr, fun a ha hne => listAddTail_frame h hi hl ha hne⟩
  del := by
    intro i hi xs e ys hq
    obtain ⟨l', hl, hr⟩ := listDel_rings h hi hq
    exact ⟨l', hl, ⟨hr, rings_inverse hr, fun a ha _ => listDel_frame h hi hq hl ha⟩, listDel_null hl⟩
  empty := fun i hi => listEmpty_rings h hi
  first := fun i hi e es hq => listFirst_rings h hi hq

end

end

/-- A list of two elements, an empty one, and an element in none. -/
def twoLists : Links (Fin 2) (Fin 3) where
  next := fun
    | .head 0 => some (.anchor 0)
    | .head 1 => some (.head 1)
    | .anchor 0 => some (.anchor 1)
    | .anchor 1 => some (.head 0)
    | .anchor 2 => none
  prev := fun
    | .head 0 => some (.anchor 1)
    | .head 1 => some (.head 1)
    | .anchor 0 => some (.head 0)
    | .anchor 1 => some (.anchor 0)
    | .anchor 2 => none

theorem implements_sequences_two : ImplementsSequences twoLists Set.univ fun i => if i = 0 then [0, 1] else [] :=
  implements_sequences ⟨fun i _ => by revert i; decide, fun i _ => by revert i; decide,
    fun i _ j _ => by revert i j; decide⟩

end ZeosSOA
