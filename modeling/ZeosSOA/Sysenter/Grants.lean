import ZeosSOA.Sysenter.Ownership

/-!
# ZeOSSysenter: pages handed out to threads

HasStacks of threads and heap come from one region, but each task has its own copy of the
position in it, taken when the thread was created. The history says which pages
`sys_threadCreate` and `sys_sbrk` have handed out. They stay apart as long as only the task
whose struct the table comes with asks for more.
-/

namespace ZeosSOA.Sysenter

open Mm Runs

/-- A page handed out to a process, as the stack of a thread or as heap. -/
structure Grant where
  PID : Int
  page : Nat
  thread : Option TaskId
  deriving DecidableEq

/-- Every entry that the growth loop of `sys_sbrk` writes was not present before. -/
def GrowFresh (pt newPointer : Nat) : Nat → Nat → Mm → Prop
  | 0, _, _ => True
  | fuel + 1, hp, m =>
    hp < newPointer →
      if hp % pageSize = 0 then
        m.allocFrame.1 ≠ -1 → (m.entry pt (hp / pageSize)).present = false ∧
          GrowFresh pt newPointer fuel (addPage hp) (m.allocFrame.2.setSsPag pt (hp / pageSize) m.allocFrame.1)
      else GrowFresh pt newPointer fuel (addPage hp) m

namespace Kernel

def topPage (s : Kernel) : Nat := (s.task s.current).heapPointerProc / pageSize

/-- `sys_threadCreate` passes its checks and finds a frame for the stack. -/
def MapsStack (s : Kernel) (function parameter wrapp : UInt32) : Prop :=
  s.threadArgsOk function parameter wrapp = true ∧ s.members .freequeue ≠ [] ∧ s.topPage ≤ totalPages ∧ s.mm.freeCount ≠ 0

/-- A `sys_sbrk` for more heap passes its checks and finds a frame. -/
def MapsHeap (s : Kernel) (size : Int) : Prop :=
  0 < size ∧ SbrkFits (s.task s.current).heapStartProc (s.task s.current).heapPointerProc size ∧ s.mm.freeCount ≠ 0

instance (s : Kernel) (f p w : UInt32) : Decidable (s.MapsStack f p w) :=
  inferInstanceAs (Decidable (_ ∧ _ ∧ _ ∧ _))

/-- The pages handed out so far; those of a thread end with it. The pointer `sys_sbrk` returns is
the start of a page. -/
def grant (gs : List Grant) (s : Kernel) (e : Event) : List Grant :=
  match e.op with
  | .threadCreate f p w =>
    match s.members .freequeue with
    | child :: _ => if s.MapsStack f p w then ⟨(s.task s.current).PID, s.topPage, some child⟩ :: gs else gs
    | [] => gs
  | .sbrk size =>
    match s.sysSbrk size with
    | some (ret, _) =>
      if 0 < size ∧ ret ≠ 0 then
        (List.range' (ret / pageSize) ((size.toNat + pageSize - 1) / pageSize)).map
          (⟨(s.task s.current).PID, ·, none⟩) ++ gs
      else gs
    | none => gs
  | .exit | .threadExit => gs.filter fun g => g.thread ≠ some s.current
  | _ => gs

/-- The pages handed out to the live processes are mapped, each to a frame of its own, and no page
was handed out twice. -/
def GrantsApart (gs : List Grant) (s : Kernel) : Prop :=
  ∀ t, s.Live t → s.idleTask ≠ some t → ∀ pt, s.getPT t = some pt →
    (∀ g ∈ gs, g.PID = (s.task t).PID → (s.mm.entry pt g.page).present = true) ∧
      gs.Pairwise fun g g' => g.PID = (s.task t).PID → g'.PID = (s.task t).PID →
        g.page ≠ g'.page ∧ s.mm.getFrame pt g.page ≠ s.mm.getFrame pt g'.page

/-- No entry that `sys_threadCreate` or `sys_sbrk` writes for a new page was present. -/
def WritesFresh (s : Kernel) (e : Event) : Prop :=
  s.idleTask ≠ some s.current → ∀ pt, s.getPT s.current = some pt →
    match e.op with
    | .threadCreate f p w => s.MapsStack f p w → (s.mm.entry pt s.topPage).present = false
    | .sbrk size => s.MapsHeap size →
        GrowFresh pt (((s.task s.current).heapPointerProc + size) % 2 ^ 32).toNat pointerRounds
          (s.task s.current).heapPointerProc s.mm
    | _ => True

/-- The current task has the table that comes with its struct, as no thread has. -/
def OwnsTable (s : Kernel) : Prop := s.getPT s.current = some s.current.val

instance (s : Kernel) : Decidable s.OwnsTable := inferInstanceAs (Decidable (_ = _))

/-- Threads ask for no pages, and pages are asked for inside the table only; the table that a child
gets has no page left from where the parent's heap ends. -/
def OwnerAsks (s : Kernel) (e : Event) : Prop :=
  s.idleTask ≠ some s.current →
    match e.op with
    | .threadCreate f p w => s.MapsStack f p w → s.OwnsTable ∧ s.topPage < totalPages
    | .sbrk size => s.MapsHeap size →
        s.OwnsTable ∧ (size + pageSize - 1 ≤ intMax ∨ s.topPage + s.mm.freeCount ≤ totalPages)
    | .fork => numPagData ≤ s.mm.freeCount → ∀ child ∈ (s.members .freequeue).head?, ∀ page, s.topPage ≤ page →
        page < totalPages → (s.mm.entry child.val page).present = false
    | _ => True

/-- The size given to `sys_sbrk` is an `int`, and not negative. -/
def Event.Grows (e : Event) : Prop := ∀ size, e.op = .sbrk size → 0 ≤ size ∧ size ≤ intMax

end Kernel

/-! ## The growth loop -/

theorem growFresh_of_blank {pt new : Nat} : ∀ {fuel hp : Nat} {m : Mm}, hp % pageSize = 0 →
    hp + pageSize * m.freeCount < 2 ^ 31 →
    (∀ j < m.freeCount, hp + pageSize * j < new → (m.entry pt (hp / pageSize + j)).present = false) →
    GrowFresh pt new fuel hp m
  | 0, _, _, _, _, _ => trivial
  | fuel + 1, hp, m, hal, hlt, hblank => by
    unfold GrowFresh
    intro hnew
    rw [if_pos hal]
    intro hf
    rcases allocFrame_cases m with ⟨f, hc, hfree, e⟩ | ⟨-, e⟩
    swap
    · rw [e] at hf
      exact absurd rfl hf
    have hcount := freeCount_alloc hc hfree
    have hadd : addPage hp = hp + pageSize := by
      simp only [addPage, pageSize] at *
      omega
    have hdiv : (hp + pageSize) / pageSize = hp / pageSize + 1 := Nat.add_div_right hp (by decide)
    refine ⟨hblank 0 (by omega) (by omega), ?_⟩
    rw [e, hadd]
    dsimp only
    apply growFresh_of_blank
    · simp only [pageSize] at *
      omega
    · rw [setSsPag_freeCount]
      simp only [pageSize] at *
      omega
    · intro j hj hjn
      rw [setSsPag_freeCount] at hj
      rw [hdiv, setSsPag, setEntry_entry, if_neg (by omega)]
      have := hblank (j + 1) (by omega) (by simp only [pageSize] at *; omega)
      rwa [show hp / pageSize + 1 + j = hp / pageSize + (j + 1) by omega]

def SameHeap (m m' : Mm) : Prop :=
  ∀ pt page, heapPage ≤ page → page < totalPages → m'.entry pt page = m.entry pt page

/-! ## The invariant -/

namespace AbsKernel

def UsesTable (a : AbsKernel) (pid : Int) (pt : Nat) : Prop :=
  ∃ t, a.Live t ∧ t ≠ a.idleTask ∧ (a.task t).PID = pid ∧ (a.task t).dirPagesBaseAddr = some pt

/-- Of a task in the table of its own struct, nothing is mapped from the heap pointer on. -/
def Fresh (a : AbsKernel) : Prop :=
  ∀ t, a.Live t → t ≠ a.idleTask → (a.task t).dirPagesBaseAddr = some t.val → ∀ page,
    (a.task t).heapPointerProc / pageSize ≤ page → page < totalPages → (a.mm.entry t.val page).present = false

def HasStacks (gs : List Grant) (a : AbsKernel) : Prop :=
  ∀ t, a.Live t → t ≠ a.idleTask → (a.task t).dirPagesBaseAddr ≠ some t.val →
    ∃ g ∈ gs, g.thread = some t ∧ g.PID = (a.task t).PID ∧ g.page = (a.task t).heapPointerProc / pageSize

structure Laid (gs : List Grant) (a : AbsKernel) : Prop where
  owning : a.Owning
  pid : ∀ {pid pt}, a.UsesTable pid pt → pid ≤ a.globalPID
  unique : ∀ {pid pt pt'}, a.UsesTable pid pt → a.UsesTable pid pt' → pt = pt'
  fresh : a.Fresh
  stack : a.HasStacks gs
  old : ∀ g ∈ gs, g.PID ≤ a.globalPID
  page : ∀ g ∈ gs, heapPage ≤ g.page ∧ g.page < totalPages
  mapped : ∀ g ∈ gs, ∀ pt, a.UsesTable g.PID pt → (a.mm.entry pt g.page).present = true
  apart : gs.Pairwise fun g g' => ∀ pt, a.UsesTable g.PID pt → a.UsesTable g'.PID pt → g.page ≠ g'.page

/-- The live tasks of `b` are live tasks of `a`, with the same table and heap pointer. -/
def Follows (a b : AbsKernel) : Prop :=
  ∀ t, b.Live t → t ≠ b.idleTask → a.Live t ∧ t ≠ a.idleTask ∧ (b.task t).PID = (a.task t).PID ∧
    (b.task t).dirPagesBaseAddr = (a.task t).dirPagesBaseAddr ∧ (b.task t).heapPointerProc = (a.task t).heapPointerProc

section
variable {a b : AbsKernel} {gs gs' : List Grant}

theorem follows_sched (h : Sched a b) : Follows a b := by
  intro t ht hi
  rw [h.idle] at hi
  obtain ⟨st, e⟩ := h.task t
  rw [e]
  exact ⟨(h.live t ht).resolve_left hi, hi, rfl, rfl, rfl⟩

theorem follows_leaves {mm : Mm} (h : Leaves a b mm) : Follows a b := by
  intro t ht hi
  rw [h.idle] at hi
  obtain ⟨hne, hlive⟩ := (h.live t ht).resolve_left hi
  obtain ⟨st, e⟩ := h.task t hne
  rw [e]
  exact ⟨hlive, hi, rfl, rfl, rfl⟩

theorem follows_of_ne {child : TaskId} (hn : ¬ a.Live child) (hi : b.idleTask = a.idleTask)
    (hl : ∀ t, b.Live t → a.Live t) (ht : ∀ t, t ≠ child → b.task t = a.task t) : Follows a b := by
  intro t hlive hti
  have hne : t ≠ child := fun e => hn (e ▸ hl t hlive)
  rw [hi] at hti
  rw [ht t hne]
  exact ⟨hl t hlive, hti, rfl, rfl, rfl⟩

theorem Follows.uses (h : Follows a b) {pid : Int} {pt : Nat} (hu : b.UsesTable pid pt) : a.UsesTable pid pt := by
  obtain ⟨t, hlive, hi, hp, hd⟩ := hu
  obtain ⟨hlive', hi', ep, ed, -⟩ := h t hlive hi
  exact ⟨t, hlive', hi', ep ▸ hp, ed ▸ hd⟩

theorem uses_current (hne : a.current ≠ a.idleTask) {pt : Nat}
    (hpt : (a.task a.current).dirPagesBaseAddr = some pt) : a.UsesTable (a.task a.current).PID pt :=
  ⟨a.current, .inl rfl, hne, rfl, hpt⟩

theorem Laid.follows (h : Laid gs a) (hf : Follows a b) (ho : b.Owning) (hg : b.globalPID = a.globalPID)
    (hsub : gs'.Sublist gs) (hkeep : ∀ g ∈ gs, ∀ t, g.thread = some t → b.Live t → t ≠ b.idleTask → g ∈ gs')
    (hmapped : ∀ g ∈ gs', ∀ pt, a.UsesTable g.PID pt → (a.mm.entry pt g.page).present = true →
      (b.mm.entry pt g.page).present = true)
    (hfresh : ∀ pt page, heapPage ≤ page → page < totalPages → (a.mm.entry pt page).present = false →
      (b.mm.entry pt page).present = false) : Laid gs' b where
  owning := ho
  pid hu := hg ▸ h.pid (hf.uses hu)
  unique hu hu' := h.unique (hf.uses hu) (hf.uses hu')
  fresh t hlive hi hd page h1 h2 := by
    obtain ⟨hlive', hi', -, ed, eh⟩ := hf t hlive hi
    rw [ed] at hd
    rw [eh] at h1
    have hheap := (h.owning.users t hlive' hi').heap
    exact hfresh _ page (hheap.page.trans h1) h2 (h.fresh t hlive' hi' hd page h1 h2)
  stack t hlive hi hd := by
    obtain ⟨hlive', hi', ep, ed, eh⟩ := hf t hlive hi
    rw [ed] at hd
    obtain ⟨g, hg, e1, e2, e3⟩ := h.stack t hlive' hi' hd
    exact ⟨g, hkeep g hg t e1 hlive hi, e1, e2.trans ep.symm, by rw [eh]; exact e3⟩
  old g hgs := hg ▸ h.old g (hsub.subset hgs)
  page g hgs := h.page g (hsub.subset hgs)
  mapped g hgs pt hu := hmapped g hgs pt (hf.uses hu) (h.mapped g (hsub.subset hgs) pt (hf.uses hu))
  apart := (h.apart.sublist hsub).imp fun hp pt hu hu' => hp pt (hf.uses hu) (hf.uses hu')

theorem Laid.same (h : Laid gs a) (hf : Follows a b) (ho : b.Owning) (hg : b.globalPID = a.globalPID)
    (hm : SameHeap a.mm b.mm) : Laid gs b := by
  apply h.follows hf ho hg (List.Sublist.refl gs) fun g hgs _ _ _ _ => hgs
  · intro g hgs pt _ hp
    obtain ⟨h1, h2⟩ := h.page g hgs
    rwa [hm pt g.page h1 h2]
  · intro pt page h1 h2 hp
    rwa [hm pt page h1 h2]

theorem Laid.leaves (h : Laid gs a) {mm : Mm} (hl : Leaves a b mm) (ho : b.Owning)
    (hmapped : ∀ g ∈ gs, g.thread ≠ some a.current → ∀ pt, a.UsesTable g.PID pt → (a.mm.entry pt g.page).present = true →
      (mm.entry pt g.page).present = true)
    (hfresh : ∀ pt page, heapPage ≤ page → page < totalPages → (a.mm.entry pt page).present = false →
      (mm.entry pt page).present = false) : Laid (gs.filter fun g => g.thread ≠ some a.current) b := by
  apply h.follows (follows_leaves hl) ho hl.globalPID List.filter_sublist
  · intro g hgs t ht hlive hi
    rw [hl.idle] at hi
    have hne := ((hl.live t hlive).resolve_left hi).1
    apply List.mem_filter.mpr ⟨hgs, ?_⟩
    rw [ht]
    simpa using hne
  · intro g hgs pt hu hp
    obtain ⟨hgs, hthread⟩ := List.mem_filter.mp hgs
    rw [hl.mm]
    exact hmapped g hgs (by simpa using hthread) pt hu hp
  · intro pt page h1 h2 hp
    rw [hl.mm]
    exact hfresh pt page h1 h2 hp

theorem Laid.exit (h : Laid gs a) (g : Good a) (hne : a.current ≠ a.idleTask) (hb : a.exit = some b) :
    Laid (gs.filter fun g => g.thread ≠ some a.current) b := by
  obtain ⟨pt, -, hl⟩ := h.owning.exit_memory g hne hb
  have hd := pagLogInitData_eq
  have hh := heapPage_eq
  have hsame : SameHeap a.mm (releaseData pt numPagData a.mm) := by
    intro pt' page h1 h2
    rw [(releaseData_spec pt a.mm (by decide)).1 pt' page h2, if_neg (by simp only [numPagData]; omega)]
  apply h.leaves hl (h.owning.exit g hne hb)
  · intro g hgs _ pt _ hp
    obtain ⟨h1, h2⟩ := h.page g hgs
    rwa [hsame pt g.page h1 h2]
  · intro pt page h1 h2 hp
    rwa [hsame pt page h1 h2]

theorem Laid.threadExit (h : Laid gs a) (g : Good a) (hne : a.current ≠ a.idleTask) (hb : a.threadExit = some b) :
    Laid (gs.filter fun g => g.thread ≠ some a.current) b := by
  obtain ⟨pt, hpt, hl⟩ := leaves_threadExit g hb
  obtain ⟨hlt, hheap⟩ := h.owning.current hne hpt
  have hle := hheap.page_le
  have huse := uses_current hne hpt
  have hent : ∀ pt' page, heapPage ≤ page → page < totalPages →
      (releasePage pt a.mm ((a.task a.current).heapPointerProc / pageSize)).entry pt' page =
        if pt' = pt ∧ page = (a.task a.current).heapPointerProc / pageSize then .zero else a.mm.entry pt' page := by
    intro pt' page h1 h2
    rcases Nat.lt_or_eq_of_le hle with hlt | heq
    · exact releasePage_entry a.mm hlt h2
    · have hh := heapPage_eq
      rw [releasePage, delSsPag, setEntry_entry, freeFrame_entry, heq, if_neg (by simp only [totalPages] at *; omega),
        if_neg (by omega)]
  apply h.leaves hl (h.owning.threadExit g hne hb)
  · intro g hgs hthread pt' hu hp
    obtain ⟨h1, h2⟩ := h.page g hgs
    rw [hent pt' g.page h1 h2]
    split
    · -- the page that goes was handed out to nobody else
      rename_i e
      exfalso
      rw [e.1] at hu hp
      by_cases hown : (a.task a.current).dirPagesBaseAddr = some a.current.val
      · obtain rfl : pt = a.current.val := Option.some.inj (hpt.symm.trans hown)
        rw [h.fresh a.current (.inl rfl) hne hown g.page e.2.ge h2] at hp
        cases hp
      · obtain ⟨g', hgs', e1, e2, e3⟩ := h.stack a.current (.inl rfl) hne hown
        have hgg : g' ≠ g := fun e' => hthread (e' ▸ e1)
        have : Std.Symm fun g g' : Grant => ∀ pt, a.UsesTable g.PID pt → a.UsesTable g'.PID pt → g.page ≠ g'.page :=
          ⟨fun _ _ hp pt hu hu' => (hp pt hu' hu).symm⟩
        exact h.apart.forall hgs' hgs hgg pt (e2 ▸ huse) hu (e3.trans e.2.symm)
    · exact hp
  · intro pt' page h1 h2 hp
    rw [hent pt' page h1 h2]
    split
    · rfl
    · exact hp

theorem forked_uses {child : TaskId} {rest : List TaskId} {tab : SemTable} {mm : Mm} {pid : Int} {pt : Nat}
    (hq : a.queue .freequeue = child :: rest)
    (hu : (((a.forkChild child rest tab).setMm mm).forkStart child).UsesTable pid pt) :
    a.UsesTable pid pt ∨ pid = a.globalPID + 1 ∧ pt = child.val := by
  obtain ⟨t, ht, hi, hp, hdir⟩ := hu
  rw [forkStart_task] at hp hdir
  by_cases htc : t = child
  · rw [if_pos htc] at hp hdir
    exact .inr ⟨hp.symm, (Option.some.inj hdir).symm⟩
  · rw [if_neg htc] at hp hdir
    exact .inl ⟨t, (forkStart_live hq ht).resolve_left htc, hi, hp, hdir⟩

/-- The child has a table that has no page of a heap, and the grants are of older processes. -/
theorem Laid.forked (h : Laid gs a) (hne : a.current ≠ a.idleTask) {child : TaskId} {rest : List TaskId} {tab : SemTable}
    {mm : Mm} (hq : a.queue .freequeue = child :: rest)
    (ho : (((a.forkChild child rest tab).setMm mm).forkStart child).Owning) (hsame : SameHeap a.mm mm)
    (hc : ∀ page, (a.task a.current).heapPointerProc / pageSize ≤ page → page < totalPages →
      (a.mm.entry child.val page).present = false) :
    Laid gs (((a.forkChild child rest tab).setMm mm).forkStart child) := by
  have htask := forkStart_task (a := a) child rest tab mm
  have hold : ∀ t, (((a.forkChild child rest tab).setMm mm).forkStart child).Live t → t ≠ child → a.Live t :=
    fun t ht htc => (forkStart_live hq ht).resolve_left htc
  have hgrant : ∀ g ∈ gs, ∀ pt, (((a.forkChild child rest tab).setMm mm).forkStart child).UsesTable g.PID pt →
      a.UsesTable g.PID pt := by
    intro g hg pt hu
    have := h.old g hg
    exact (forked_uses hq hu).resolve_right fun e => by omega
  refine ⟨ho, fun hu => ?_, fun hu hu' => ?_, fun t ht hi hdir page h1 h2 => ?_, fun t ht hi hdir => ?_,
    fun g hg => ?_, h.page, fun g hg pt hu => ?_, ?_⟩
  · change _ ≤ a.globalPID + 1
    rcases forked_uses hq hu with hu | ⟨e, -⟩
    · have := h.pid hu
      omega
    · omega
  · rcases forked_uses hq hu with hu | ⟨e, e1⟩ <;> rcases forked_uses hq hu' with hu' | ⟨e', e2⟩
    · exact h.unique hu hu'
    · have := h.pid hu
      omega
    · have := h.pid hu'
      omega
    · rw [e1, e2]
  · rw [htask] at hdir h1
    change (mm.entry t.val page).present = false
    by_cases htc : t = child
    · rw [if_pos htc] at h1
      have hheap := (h.owning.users a.current (.inl rfl) hne).heap
      rw [hsame t.val page (hheap.page.trans h1) h2, htc]
      exact hc page h1 h2
    · rw [if_neg htc] at hdir h1
      have hheap := (h.owning.users t (hold t ht htc) hi).heap
      rw [hsame t.val page (hheap.page.trans h1) h2]
      exact h.fresh t (hold t ht htc) hi hdir page h1 h2
  · rw [htask] at hdir ⊢
    by_cases htc : t = child
    · rw [if_pos htc] at hdir
      exact absurd (by rw [htc]) hdir
    · rw [if_neg htc] at hdir ⊢
      exact h.stack t (hold t ht htc) hi hdir
  · have := h.old g hg
    exact this.trans (Int.le_add_one le_rfl)
  · obtain ⟨h1, h2⟩ := h.page g hg
    change (mm.entry pt g.page).present = true
    rw [hsame pt g.page h1 h2]
    exact h.mapped g hg pt (hgrant g hg pt hu)
  · exact h.apart.imp_of_mem fun {g g'} hg hg' hp pt hu hu' => hp pt (hgrant g hg pt hu) (hgrant g' hg' pt hu')

theorem Laid.fork (h : Laid gs a) (g : Good a) (hne : a.current ≠ a.idleTask) {r : Int × AbsKernel} (hr : a.fork = some r)
    (hc : numPagData ≤ a.mm.freeCount → ∀ child ∈ (a.queue .freequeue).head?, ∀ page,
      (a.task a.current).heapPointerProc / pageSize ≤ page → page < totalPages →
        (a.mm.entry child.val page).present = false) : Laid gs r.2 := by
  have ho := h.owning.fork g hne hr
  have hd := pagLogInitData_eq
  have hh := heapPage_eq
  rcases fork_cases hr with ⟨-, rfl⟩ | ⟨child, rest, tab, hq, -, ⟨mm, he, rfl⟩ | ⟨m1, pt, mm, he, hpt, hmap, rfl⟩⟩
  · exact h
  · have hnl : ¬ a.Live child := not_live_of_free g (by rw [hq]; exact List.mem_cons_self)
    refine h.same (follows_of_ne hnl rfl (fun t ht => forkChild_live hq tab mm ht) fun t ht =>
      forkChild_task_ne ht rest tab) ho rfl fun pt page h1 h2 => ?_
    have ht := touches_forkAllocData (K := fun k => ∃ i < numPagData, k = child.val * totalPages + (pagLogInitData + i))
      child.val numPagData 0 a.mm fun i hi => ⟨i, by omega, rfl⟩
    rw [he] at ht
    apply ht
    rintro ⟨i, hi, e⟩
    simp only [numPagData, totalPages] at *
    omega
  · have hfree := (forkAllocData_fst child.val numPagData 0 a.mm).mp (by rw [he])
    obtain ⟨fr, -, hent⟩ := fork_entry he hmap
    refine h.forked hne hq ho (fun pt page h1 h2 => ?_) (hc hfree child (by rw [hq]; rfl))
    rw [hent pt page (.inr ⟨h1, h2⟩), if_neg (by simp only [numPagData]; omega)]

/-- The current task, in the table of its own struct, has been given the `n` pages from its heap pointer on, which `ns`
notes; there may be a new task, a thread of it with one of the pages as stack. -/
structure Extended (a b : AbsKernel) (base n : Nat) (ns : List Grant) : Prop where
  own : (a.task a.current).dirPagesBaseAddr = some a.current.val
  idle : b.idleTask = a.idleTask
  globalPID : b.globalPID = a.globalPID
  pointer : (a.task a.current).heapPointerProc / pageSize = base
  fits : base + n ≤ totalPages
  given : ∀ page, base ≤ page → page < base + n → (b.mm.entry a.current.val page).present = true
  other : ∀ pt page, heapPage ≤ page → page < totalPages → ¬ (pt = a.current.val ∧ base ≤ page ∧ page < base + n) →
    b.mm.entry pt page = a.mm.entry pt page
  noted : ∀ g ∈ ns, g.PID = (a.task a.current).PID ∧ base ≤ g.page ∧ g.page < base + n
  once : ns.Pairwise fun g g' => g.page ≠ g'.page
  task : ∀ t, b.Live t → t ≠ a.idleTask →
    (t = a.current ∧ (b.task t).PID = (a.task t).PID ∧ (b.task t).dirPagesBaseAddr = (a.task t).dirPagesBaseAddr ∧
      (b.task t).heapPointerProc / pageSize = base + n) ∨
    (t ≠ a.current ∧ a.Live t ∧ b.task t = a.task t) ∨
    (t ≠ a.current ∧ (b.task t).PID = (a.task a.current).PID ∧ (b.task t).dirPagesBaseAddr = some a.current.val ∧
      ∃ g ∈ ns, g.thread = some t ∧ g.page = (b.task t).heapPointerProc / pageSize)

section
variable {base n : Nat} {ns : List Grant}

theorem Extended.uses (x : Extended a b base n ns) (hne : a.current ≠ a.idleTask) {pid : Int} {pt : Nat}
    (hu : b.UsesTable pid pt) : a.UsesTable pid pt := by
  obtain ⟨t, hlive, hti, hp, hd⟩ := hu
  rw [x.idle] at hti
  rcases x.task t hlive hti with ⟨e, e1, e2, -⟩ | ⟨-, hl, e⟩ | ⟨-, e1, e2, -⟩
  · rw [e1] at hp
    rw [e2] at hd
    exact ⟨t, e ▸ .inl rfl, hti, hp, hd⟩
  · rw [e] at hp hd
    exact ⟨t, hl, hti, hp, hd⟩
  · rw [← hp, e1, ← Option.some.inj (e2.symm.trans hd)]
    exact uses_current hne x.own

theorem Extended.table (x : Extended a b base n ns) (h : Laid gs a) (hne : a.current ≠ a.idleTask) {g : Grant} (hg : g ∈ ns)
    {pt : Nat} (hu : b.UsesTable g.PID pt) : pt = a.current.val := by
  rw [(x.noted g hg).1] at hu
  exact h.unique (x.uses hne hu) (uses_current hne x.own)

theorem Extended.fresh (x : Extended a b base n ns) (h : Laid gs a) (hne : a.current ≠ a.idleTask) : b.Fresh := by
  intro t hlive hti hd page h1 h2
  have hheap := (h.owning.users a.current (.inl rfl) hne).heap.page
  rw [x.pointer] at hheap
  rw [x.idle] at hti
  rcases x.task t hlive hti with ⟨e, -, e2, e3⟩ | ⟨hc, hl, e⟩ | ⟨hc, -, e2, -⟩
  · rw [e3] at h1
    rw [x.other _ page (by omega) h2 (by omega)]
    rw [e2] at hd
    exact h.fresh t (e ▸ .inl rfl) hti hd page (by rw [e, x.pointer]; omega) h2
  · rw [e] at hd h1
    have hp := (h.owning.users t hl hti).heap.page
    rw [x.other _ page (hp.trans h1) h2 fun e' => hc (Fin.ext e'.1)]
    exact h.fresh t hl hti hd page h1 h2
  · exact absurd (Fin.ext (Option.some.inj (hd.symm.trans e2))) hc

theorem Extended.stack (x : Extended a b base n ns) (h : Laid gs a) : b.HasStacks (ns ++ gs) := by
  intro t hlive hti hd
  rw [x.idle] at hti
  rcases x.task t hlive hti with ⟨e, -, e2, -⟩ | ⟨-, hl, e⟩ | ⟨-, e1, -, g, hgs, e2, e3⟩
  · rw [e2, e, x.own] at hd
    exact absurd rfl hd
  · rw [e] at hd ⊢
    obtain ⟨g, hgs, hst⟩ := h.stack t hl hti hd
    exact ⟨g, List.mem_append_right _ hgs, hst⟩
  · exact ⟨g, List.mem_append_left _ hgs, e2, (x.noted g hgs).1.trans e1.symm, e3⟩

theorem Extended.mapped (x : Extended a b base n ns) (h : Laid gs a) (hne : a.current ≠ a.idleTask) {g : Grant}
    (hg : g ∈ ns ++ gs) {pt : Nat} (hu : b.UsesTable g.PID pt) : (b.mm.entry pt g.page).present = true := by
  rcases List.mem_append.mp hg with hg | hg
  · rw [x.table h hne hg hu]
    exact x.given g.page (x.noted g hg).2.1 (x.noted g hg).2.2
  · obtain ⟨h1, h2⟩ := h.page g hg
    by_cases hpt : pt = a.current.val ∧ base ≤ g.page ∧ g.page < base + n
    · rw [hpt.1]
      exact x.given g.page hpt.2.1 hpt.2.2
    · rw [x.other pt g.page h1 h2 hpt]
      exact h.mapped g hg pt (x.uses hne hu)

/-- What was handed out before is mapped, and the new pages were not. -/
theorem Extended.apart (x : Extended a b base n ns) (h : Laid gs a) (hne : a.current ≠ a.idleTask) :
    (ns ++ gs).Pairwise fun g g' => ∀ pt, b.UsesTable g.PID pt → b.UsesTable g'.PID pt → g.page ≠ g'.page := by
  refine List.pairwise_append.mpr ⟨x.once.imp fun hp pt _ _ => hp,
    h.apart.imp fun hp pt hu hu' => hp pt (x.uses hne hu) (x.uses hne hu'), fun g hg g' hg' pt hu hu' e => ?_⟩
  obtain ⟨-, h1, h2⟩ := x.noted g hg
  have hfits := x.fits
  have hpointer := x.pointer
  have hblank := h.fresh a.current (.inl rfl) hne x.own g.page (by omega) (by omega)
  have hmapped := h.mapped g' hg' pt (x.uses hne hu')
  rw [← e, x.table h hne hg hu, hblank] at hmapped
  cases hmapped

theorem Laid.extended (h : Laid gs a) (hne : a.current ≠ a.idleTask) (ho : b.Owning) (x : Extended a b base n ns) :
    Laid (ns ++ gs) b where
  owning := ho
  pid hu := x.globalPID ▸ h.pid (x.uses hne hu)
  unique hu hu' := h.unique (x.uses hne hu) (x.uses hne hu')
  fresh := x.fresh h hne
  stack := x.stack h
  old g hg := by
    rw [x.globalPID]
    rcases List.mem_append.mp hg with hg | hg
    · rw [(x.noted g hg).1]
      exact h.pid (uses_current hne x.own)
    · exact h.old g hg
  page g hg := by
    rcases List.mem_append.mp hg with hg | hg
    · have hheap := (h.owning.users a.current (.inl rfl) hne).heap.page
      have hfits := x.fits
      have hpointer := x.pointer
      have hnoted := (x.noted g hg).2
      omega
    · exact h.page g hg
  mapped g hg pt hu := x.mapped h hne hg hu
  apart := x.apart h hne

end

/-- A new thread has its stack on the page at the heap pointer. -/
theorem Extended.threadCreate (hown : (a.task a.current).dirPagesBaseAddr = some a.current.val) {child : TaskId}
    (hcc : a.current ≠ child) (rest : List TaskId) {mm : Mm} {f p : UInt32}
    (hmm : Kernel.writeUstack (a.mm.allocFrame.2.setSsPag a.current.val
      ((a.task a.current).heapPointerProc / pageSize) a.mm.allocFrame.1) a.current.val
      ((a.task a.current).heapPointerProc / pageSize) f p = some mm) :
    Extended a ((((a.threadChild child rest).setMm mm).setHeapPointer
        (addPage (a.task a.current).heapPointerProc)).push .readyqueue child)
      ((a.task a.current).heapPointerProc / pageSize) 1
      [⟨(a.task a.current).PID, (a.task a.current).heapPointerProc / pageSize, some child⟩] := by
  obtain ⟨htab, -, hlt, hpres⟩ := writeUstack_some hmm
  refine ⟨hown, rfl, rfl, rfl, hlt, fun page h1 h2 => ?_, fun pt' page h1 h2 hout => ?_, fun g hg => ?_,
    List.pairwise_singleton _ _, fun t ht hti => ?_⟩
  · obtain rfl : page = (a.task a.current).heapPointerProc / pageSize := by omega
    change (mm.pagusrTable _).present = true
    rw [htab]
    exact hpres
  · change mm.pagusrTable _ = _
    rw [htab]
    change (a.mm.allocFrame.2.setSsPag _ _ _).entry pt' page = _
    have hother : ¬ (pt' = a.current.val ∧ page = (a.task a.current).heapPointerProc / pageSize) :=
      fun e => hout ⟨e.1, e.2.ge, e.2 ▸ Nat.lt_succ_self _⟩
    rw [setSsPag, setEntry_entry_lt _ _ hlt h2, if_neg hother]
    exact touches_allocFrame (K := fun _ => False) a.mm _ id
  · obtain rfl := List.mem_singleton.mp hg
    exact ⟨rfl, le_rfl, Nat.lt_succ_self _⟩
  · have hadd : addPage (a.task a.current).heapPointerProc / pageSize =
        (a.task a.current).heapPointerProc / pageSize + 1 := by
      simp only [addPage, totalPages, pageSize] at *
      omega
    have htask : ∀ t, ((((a.threadChild child rest).setMm mm).setHeapPointer
        (addPage (a.task a.current).heapPointerProc)).push .readyqueue child).task t = _ := threadCreate_task hcc rest mm _
    have hlive := threadCreate_live ht
    rw [htask]
    by_cases htc : t = child
    · rw [if_pos htc]
      exact .inr (.inr ⟨fun e => hcc (e.symm.trans htc), rfl, hown, _, List.mem_singleton_self _, congrArg some htc.symm, rfl⟩)
    rw [if_neg htc]
    by_cases htcur : t = a.current
    · rw [if_pos htcur, htcur]
      exact .inl ⟨rfl, rfl, rfl, hadd⟩
    · rw [if_neg htcur]
      exact .inr (.inl ⟨htcur, hlive.resolve_left htc, rfl⟩)

theorem Laid.threadCreate (h : Laid gs a) (g : Good a) (hne : a.current ≠ a.idleTask) {f p : UInt32}
    {r : Int × AbsKernel} (hr : a.threadCreate f p = some r)
    (hown : a.queue .freequeue ≠ [] → (a.task a.current).heapPointerProc / pageSize ≤ totalPages → a.mm.freeCount ≠ 0 →
      (a.task a.current).dirPagesBaseAddr = some a.current.val) :
    (a.queue .freequeue = [] ∨ ¬ (a.task a.current).heapPointerProc / pageSize ≤ totalPages ∨ a.mm.freeCount = 0) ∧
      Laid gs r.2 ∨
    ∃ child rest, a.queue .freequeue = child :: rest ∧ (a.task a.current).heapPointerProc / pageSize ≤ totalPages ∧
      a.mm.freeCount ≠ 0 ∧
      Laid (⟨(a.task a.current).PID, (a.task a.current).heapPointerProc / pageSize, some child⟩ :: gs) r.2 := by
  have ho := h.owning.threadCreate g hne hr
  obtain ⟨-, hstart, hheap⟩ := h.owning.users a.current (.inl rfl) hne
  rcases threadCreate_cases hr with ⟨hq, rfl⟩ | ⟨child, rest, hq, hcase⟩
  · exact .inl ⟨.inl hq, h⟩
  have hnl : ¬ a.Live child := not_live_of_free g (by rw [hq]; exact List.mem_cons_self)
  have hcc := (g.child_ne hq).1
  rcases hcase with ⟨hpg, rfl⟩ | ⟨hpg, pt, hpt, ⟨mm, hf, hmm, rfl⟩ | ⟨hp, mm, hf, hrel, rfl⟩⟩
  · exact .inl ⟨.inr (.inl (Nat.not_le.mpr hpg)), h.same (follows_of_ne hnl rfl (fun _ ht => ht) fun t ht =>
      threadChild_task_ne ht) ho rfl fun _ _ _ _ => rfl⟩
  · have hfree : a.mm.freeCount ≠ 0 := fun e => hf (allocFrame_eq_neg_one.mpr e)
    have hdir := hown (by rw [hq]; exact List.cons_ne_nil _ _) (Nat.le_of_not_lt hpg) hfree
    obtain rfl : pt = a.current.val := Option.some.inj (hpt.symm.trans hdir)
    exact .inr ⟨child, rest, hq, Nat.le_of_not_lt hpg, hfree, h.extended hne ho (.threadCreate hdir hcc rest hmm)⟩
  · obtain ⟨rfl, rfl⟩ := releaseHeap_keeps (hstart ▸ hheap.ge) hrel
    refine .inl ⟨.inr (.inr (allocFrame_eq_neg_one.mp hf)), h.same (follows_of_ne hnl rfl (fun _ ht => ht) fun t ht => ?_)
      ho rfl ?_⟩
    · refine (threadCreate_task hcc rest _ _ t).trans ?_
      rw [if_neg ht]
      split
      · rename_i e
        rw [e]
      · rfl
    · change SameHeap a.mm a.mm.allocFrame.2
      rw [allocFrame_refused hf]
      exact fun _ _ _ _ => rfl

theorem Laid.rolledBack (h : Laid gs a) (hne : a.current ≠ a.idleTask) {pt base : Nat} {mm : Mm} {fr : Nat → Nat}
    (hbase : (a.task a.current).heapPointerProc / pageSize = base)
    (hg : Grown (cleared a.mm (pt * totalPages + base) a.mm.freeCount) mm (pt * totalPages + base) 0 fr)
    (hask : a.mm.freeCount ≠ 0 → pt = a.current.val ∧ (a.task a.current).dirPagesBaseAddr = some a.current.val ∧
      base + a.mm.freeCount ≤ totalPages)
    (hf : Follows a b) (ho : b.Owning) (hglob : b.globalPID = a.globalPID) (hmm : b.mm = mm) : Laid gs b := by
  have hent : ∀ pt' page, b.mm.entry pt' page = (cleared a.mm (pt * totalPages + base) a.mm.freeCount).entry pt' page := by
    intro pt' page
    rw [entry, hmm, hg.same.1]
    rfl
  apply h.follows hf ho hglob (List.Sublist.refl gs) fun g hgs _ _ _ _ => hgs
  · intro g hgs pt' hu hp
    obtain ⟨h1, h2⟩ := h.page g hgs
    rw [hent]
    by_cases hin : pt * totalPages + base ≤ pt' * totalPages + g.page ∧
        pt' * totalPages + g.page < pt * totalPages + base + a.mm.freeCount
    · obtain ⟨rfl, hown, hle⟩ := hask (by omega)
      have hpage := (h.owning.users a.current (.inl rfl) hne).heap.page
      have hpt : pt' = a.current.val := by
        simp only [totalPages] at *
        omega
      rw [hpt] at hp hin
      rw [h.fresh a.current (.inl rfl) hne hown g.page (by omega) h2] at hp
      cases hp
    · rw [entry, cleared]
      dsimp only
      rwa [if_neg hin]
  · intro pt' page _ _ hp
    rw [hent]
    rcases cleared_entry a.mm (pt * totalPages + base) a.mm.freeCount pt' page with e | e <;> rw [e]
    · rfl
    · exact hp

theorem sbrk_follows (hne : a.current ≠ a.idleTask) (mm : Mm) :
    Follows a ((a.setMm mm).setHeapPointer (a.task a.current).heapPointerProc) := by
  intro t ht hi
  rw [sbrk_task]
  by_cases htc : t = a.current
  · rw [if_pos htc, htc]
    exact ⟨.inl rfl, hne, rfl, rfl, rfl⟩
  · rw [if_neg htc]
    exact ⟨ht, hi, rfl, rfl, rfl⟩

/-- The heap has got `n` pages, with those that were asked for among them. -/
theorem Extended.sbrk (hown : (a.task a.current).dirPagesBaseAddr = some a.current.val) {n : Nat} {mm : Mm}
    {fr : Nat → Nat} (hlt : (a.task a.current).heapPointerProc / pageSize + n ≤ totalPages)
    (hg : Grown a.mm mm (a.current.val * totalPages + (a.task a.current).heapPointerProc / pageSize) n fr) {k : Nat}
    (hk : k ≤ n) : Extended a ((a.setMm mm).setHeapPointer ((a.task a.current).heapPointerProc + pageSize * n))
      ((a.task a.current).heapPointerProc / pageSize) n
      ((List.range' ((a.task a.current).heapPointerProc / pageSize) k).map (⟨(a.task a.current).PID, ·, none⟩)) where
  own := hown
  idle := rfl
  globalPID := rfl
  pointer := rfl
  fits := hlt
  given page h1 h2 := by
    change (mm.entry _ page).present = true
    rw [hg.entry hlt _ (by omega), if_pos ⟨rfl, h1, h2⟩]
  other pt page _ h2 hout := by
    change mm.entry pt page = _
    rw [hg.entry hlt _ h2, if_neg hout]
  noted g hgs := by
    obtain ⟨page, hpage, rfl⟩ := List.mem_map.mp hgs
    obtain ⟨h1, h2⟩ := List.mem_range'_1.mp hpage
    exact ⟨rfl, h1, by dsimp only; omega⟩
  once := by
    rw [List.pairwise_map]
    exact List.nodup_range'
  task t ht hti := by
    rw [sbrk_task]
    by_cases htc : t = a.current
    · rw [if_pos htc]
      subst htc
      exact .inl ⟨rfl, rfl, rfl, Nat.add_mul_div_left _ _ (by decide)⟩
    · rw [if_neg htc]
      exact .inr (.inl ⟨htc, ht, rfl⟩)

theorem Laid.sbrk (h : Laid gs a) (hne : a.current ≠ a.idleTask) {size : Int} (h0 : 0 < size) (hmax : size ≤ intMax)
    {pt ret hp : Nat} {mm : Mm} (hpt : (a.task a.current).dirPagesBaseAddr = some pt)
    (hs : sbrkHeap pt (a.task a.current).heapStartProc (a.task a.current).heapPointerProc size a.mm = some (ret, hp, mm))
    (ho : ((a.setMm mm).setHeapPointer hp).Owning)
    (hask : SbrkFits (a.task a.current).heapStartProc (a.task a.current).heapPointerProc size → a.mm.freeCount ≠ 0 →
      (a.task a.current).dirPagesBaseAddr = some a.current.val ∧
        (size + pageSize - 1 ≤ intMax ∨ (a.task a.current).heapPointerProc / pageSize + a.mm.freeCount ≤ totalPages)) :
    Laid (if ret ≠ 0 then (List.range' (ret / pageSize) ((size.toNat + pageSize - 1) / pageSize)).map
      (⟨(a.task a.current).PID, ·, none⟩) ++ gs else gs) ((a.setMm mm).setHeapPointer hp) := by
  obtain ⟨-, hstart, hheap⟩ := h.owning.users a.current (.inl rfl) hne
  have hfollows := sbrk_follows hne mm
  by_cases hfits : SbrkFits (a.task a.current).heapStartProc (a.task a.current).heapPointerProc size
  swap
  · rw [sbrkHeap_refused h0 hfits] at hs
    obtain ⟨rfl, rfl, rfl⟩ := by simpa only [Option.some.injEq, Prod.mk.injEq] using hs
    rw [if_neg (by decide)]
    exact h.same hfollows ho rfl fun _ _ _ _ => rfl
  have hask := hask hfits
  rw [hstart] at hs
  have hge := hheap.ge
  have hal := hheap.aligned
  rw [initHeap_eq] at hge
  rcases sbrkHeap_grown hheap h.owning.mm.codeUsed h0 hs with ⟨rfl, rfl, rfl⟩ | ⟨rfl, hheap', hnew, n, fr, hg, rfl⟩ |
    ⟨rfl, rfl, hle, fr, hg⟩
  · rw [if_neg (by decide)]
    exact h.same hfollows ho rfl fun _ _ _ _ => rfl
  · have hcount := hg.count
    have hle' := hheap'.le
    have hnew := hnew hmax
    have hlt : (a.task a.current).heapPointerProc / pageSize + n ≤ totalPages := by
      simp only [totalPages, pageSize] at *
      omega
    have hpages : (size.toNat + pageSize - 1) / pageSize ≤ n := by
      simp only [pageSize] at *
      omega
    have hown : (a.task a.current).dirPagesBaseAddr = some a.current.val := by
      apply (hask _).1
      simp only [pageSize] at *
      omega
    obtain rfl : pt = a.current.val := Option.some.inj (hpt.symm.trans hown)
    have hret : (a.task a.current).heapPointerProc ≠ 0 := by
      simp only [pageSize] at hge
      omega
    rw [if_pos hret]
    exact h.extended hne ho (.sbrk hown hlt hg hpages)
  · rw [if_neg (by decide)]
    apply h.rolledBack hne rfl hg _ hfollows ho rfl rfl
    intro hc
    obtain ⟨hown, hor⟩ := hask hc
    exact ⟨Option.some.inj (hpt.symm.trans hown), hown, hor.elim hle id⟩

end

end AbsKernel

/-! ## Runs -/

section
variable {s : Kernel} {a : AbsKernel} {gs : List Grant} {e : Kernel.Event}

theorem Rep.topPage (h : Rep s a) : s.topPage = (a.task a.current).heapPointerProc / pageSize :=
  congrArg (·.heapPointerProc / pageSize) h.cur

theorem Rep.PID (h : Rep s a) : (s.task s.current).PID = (a.task a.current).PID := congrArg TaskCore.PID h.cur

theorem Rep.ownsTable (h : Rep s a) : s.OwnsTable ↔ (a.task a.current).dirPagesBaseAddr = some a.current.val := by
  rw [Kernel.OwnsTable, h.getPT, h.current]

theorem AbsKernel.Laid.writesFresh (hl : AbsKernel.Laid gs a) (h : Rep s a) (hask : s.OwnerAsks e) : s.WritesFresh e := by
  intro hidle pt hpt
  have hask := hask hidle
  have hne := h.not_idle.mp hidle
  obtain ⟨-, hstart, hheap⟩ := hl.owning.users a.current (.inl rfl) hne
  have hblank : s.OwnsTable → ∀ page, s.topPage ≤ page → page < totalPages → (s.mm.entry pt page).present = false := by
    intro hown page h1 h2
    have hdir := h.ownsTable.mp hown
    rw [h.getPT, hdir] at hpt
    obtain rfl := Option.some.inj hpt
    rw [h.mm]
    rw [h.topPage] at h1
    exact hl.fresh a.current (.inl rfl) hne hdir page h1 h2
  cases hop : e.op <;> simp only [hop] at hask ⊢
  case threadCreate f p w =>
    intro hms
    obtain ⟨hown, hlt⟩ := hask hms
    exact hblank hown s.topPage le_rfl hlt
  case sbrk size =>
    intro hmh
    obtain ⟨hown, hor⟩ := hask hmh
    obtain ⟨h0, hfits, -⟩ := hmh
    have hcur : (s.task s.current).heapPointerProc = (a.task a.current).heapPointerProc := h.heapPointerProc
    rw [Kernel.topPage, hcur] at hor hblank
    rw [h.heapStartProc, hstart, hcur] at hfits
    rw [hcur]
    have hal := hheap.aligned
    have hle := hheap.le
    have hcount := freeCount_le s.mm
    simp only [totalPages, pageSize] at hal hle
    apply growFresh_of_blank hal
    · simp only [pageSize]
      omega
    · intro j hj hnew
      apply hblank hown _ (Nat.le_add_right _ _)
      rcases hor with hint | hle'
      · obtain ⟨hend, he⟩ := hfits.pages hheap h0 hint
        simp only [totalPages, pageSize] at *
        omega
      · omega

theorem AbsKernel.Laid.noteStack (hl : AbsKernel.Laid gs a) (h : Rep s a) (g : a.Good) (hne : a.current ≠ a.idleTask)
    {f p w : UInt32} {ebp : Nat} (hask : s.OwnerAsks ⟨.threadCreate f p w, ebp⟩)
    (hx : (if s.threadArgsOk f p w = true then (a.threadCreate f p).map Prod.snd else some a) = some b) :
    AbsKernel.Laid (s.grant gs ⟨.threadCreate f p w, ebp⟩) b := by
  have hask := hask (h.not_idle.mpr hne)
  simp only [Kernel.MapsStack, h.members, h.mm, h.topPage] at hask
  simp only [Kernel.grant, Kernel.MapsStack, h.members, h.mm, h.topPage, h.PID]
  by_cases hok : s.threadArgsOk f p w = true
  · rw [if_pos hok] at hx
    obtain ⟨r, hr, rfl⟩ := Option.map_eq_some_iff.mp hx
    rcases hl.threadCreate g hne hr fun hq hle hc => h.ownsTable.mp (hask ⟨hok, hq, hle, hc⟩).1 with
      ⟨hno, hl'⟩ | ⟨child, rest, hq, hle, hc, hl'⟩
    · cases hq : a.queue .freequeue with
      | nil => exact hl'
      | cons child rest =>
        dsimp only
        rw [if_neg fun e => ?_]
        · exact hl'
        · rcases hno with hn | hn | hn
          · rw [hq] at hn
            cases hn
          · exact hn e.2.2.1
          · exact e.2.2.2 hn
    · rw [hq]
      dsimp only
      rw [if_pos ⟨hok, List.cons_ne_nil _ _, hle, hc⟩]
      exact hl'
  · rw [if_neg hok] at hx
    cases hx
    cases a.queue .freequeue with
    | nil => exact hl
    | cons child rest =>
      dsimp only
      rw [if_neg fun e => hok e.1]
      exact hl

theorem AbsKernel.Laid.noteHeap (hl : AbsKernel.Laid gs a) (h : Rep s a) (hne : a.current ≠ a.idleTask) {size : Int}
    {ebp : Nat} (h0 : 0 ≤ size) (hmax : size ≤ intMax) (hask : s.OwnerAsks ⟨.sbrk size, ebp⟩) (ho : b.Owning)
    (hx : a.sbrk size = some b) : AbsKernel.Laid (s.grant gs ⟨.sbrk size, ebp⟩) b := by
  have hask := hask (h.not_idle.mpr hne)
  simp only [Kernel.MapsHeap, h.heapStartProc, h.heapPointerProc, h.mm, h.topPage] at hask
  simp only [AbsKernel.sbrk] at hx
  simp only [Kernel.grant, Kernel.sysSbrk, h.getPT, h.heapStartProc, h.heapPointerProc, h.mm, h.PID]
  by_cases hz : size = 0
  · rw [if_pos hz] at hx ⊢
    cases hx
    rw [hz]
    exact hl
  rw [if_neg hz] at hx ⊢
  obtain ⟨pt, hpt, hx⟩ := Option.bind_eq_some_iff.mp hx
  obtain ⟨⟨ret, hp, mm⟩, hs, hx⟩ := Option.bind_eq_some_iff.mp hx
  cases hx
  have hpos : 0 < size := by omega
  have hl' := hl.sbrk hne hpos hmax hpt hs ho fun hfits hc => by
    rw [← h.ownsTable]
    exact hask ⟨hpos, hfits, hc⟩
  simp only [hpt, hs, Option.bind_eq_bind, Option.bind_some]
  simp only [hpos, true_and]
  exact hl'

theorem AbsKernel.Laid.step (hl : AbsKernel.Laid gs a) (h : Rep s a) (g : a.Good) (he : e.Grows) (hask : s.OwnerAsks e)
    {s' : Kernel} (hs : s.step e = some s') : ∃ b, Rep s' b ∧ b.Good ∧ AbsKernel.Laid (s.grant gs e) b := by
  obtain ⟨b, hb, h', g'⟩ := h.step_some g hs
  refine ⟨b, h', g', ?_⟩
  have ho := hl.owning.step g hb
  obtain ⟨op, ebp⟩ := e
  cases op
  case exit =>
    obtain ⟨hne, hx⟩ := AbsKernel.step_call (by simp) hb
    simp only [Kernel.grant, h.current]
    exact hl.exit g hne hx
  case threadExit =>
    obtain ⟨hne, hx⟩ := AbsKernel.step_call (by simp) hb
    simp only [Kernel.grant, h.current]
    exact hl.threadExit g hne hx
  case fork =>
    obtain ⟨hne, r, hr, rfl⟩ := AbsKernel.step_fork hb
    apply hl.fork g hne hr
    have hask := hask (h.not_idle.mpr hne)
    simp only [h.mm, h.topPage, h.members] at hask
    exact hask
  case threadCreate f p w =>
    obtain ⟨hne, hx⟩ := AbsKernel.step_call (by simp) hb
    exact hl.noteStack h g hne hask hx
  case sbrk size =>
    obtain ⟨hne, hx⟩ := AbsKernel.step_call (by simp) hb
    obtain ⟨h0, hmax⟩ := he size rfl
    exact hl.noteHeap h hne h0 hmax hask ho hx
  all_goals
    have hsched : AbsKernel.Sched a b := (AbsKernel.step_cases hb).resolve_right (by simp)
    exact hl.same (AbsKernel.follows_sched hsched) ho hsched.globalPID fun _ _ _ _ => by rw [hsched.mm]

theorem AbsKernel.Laid.grantsApart (hl : AbsKernel.Laid gs a) (h : Rep s a) : s.GrantsApart gs := by
  intro t ht hi pt hpt
  rw [h.live] at ht
  have hti := (h.idle_iff t).mp hi
  rw [getPT_eq h] at hpt
  have hpid : (s.task t).PID = (a.task t).PID := congrArg TaskCore.PID (h.task t)
  have huse : ∀ g : Grant, g.PID = (s.task t).PID → a.UsesTable g.PID pt := by
    intro g e
    exact ⟨t, ht, hti, hpid.symm.trans e.symm, hpt⟩
  obtain ⟨pt', hdir, hlt⟩ := (hl.owning.users t ht hti).dir
  obtain rfl := Option.some.inj (hpt.symm.trans hdir)
  rw [h.mm]
  have hmapped : ∀ g ∈ gs, g.PID = (s.task t).PID → (a.mm.entry pt g.page).present = true := by
    intro g hg e
    exact hl.mapped g hg pt (huse g e)
  refine ⟨hmapped, hl.apart.imp_of_mem fun {g g'} hg hg' hp e e' => ?_⟩
  have hne := hp pt (huse g e) (huse g' e')
  refine ⟨hne, fun hframe => hne ?_⟩
  exact (hl.owning.mm.inj pt hlt g.page (.inr (hl.page g hg)) (hmapped g hg e) pt hlt g'.page (.inr (hl.page g' hg'))
    (hmapped g' hg' e') hframe).2

end

theorem boot_laid (mc : Machine) : AbsKernel.Laid [] (bootAbs mc) := by
  have hlive : ∀ t, (bootAbs mc).Live t → t = 1 := by
    rintro t (rfl | ht | ⟨tab, k, ht⟩)
    · rfl
    · cases ht
    · cases ht
  have huse : ∀ {pid pt}, (bootAbs mc).UsesTable pid pt → pid = 1 ∧ pt = 1 := by
    rintro pid pt ⟨t, ht, -, hp, hd⟩
    rw [hlive t ht, boot_task1] at hp hd
    exact ⟨hp.symm, (Option.some.inj hd).symm⟩
  constructor
  · exact boot_owning mc
  · intro pid pt hu
    rw [(huse hu).1]
    exact (by decide : (1 : Int) ≤ 1000)
  · intro pid pt pt' hu hu'
    rw [(huse hu).2, (huse hu').2]
  · intro t ht _ _ page h1 h2
    rw [hlive t ht, boot_task1] at h1
    rw [hlive t ht]
    have hh := heapPage_eq
    have hd := pagLogInitData_eq
    have hge : heapPage ≤ page := h1
    change ((bootAbs mc).mm.entry 1 page).present = false
    rw [boot_user mc (by decide) (by omega) h2, if_neg (by simp only [numPagData]; omega)]
    rfl
  · intro t ht _ hd
    rw [hlive t ht, boot_task1] at hd
    exact absurd rfl hd
  · simp
  · simp
  · simp
  · exact .nil

/-- As long as only the task whose struct the table comes with asks for pages, no page of a stack or a heap is mapped
again, and those handed out are apart. -/
theorem pages_granted (mc : Machine) {es : List Kernel.Event} (hes : ∀ e ∈ es, e.Grows)
    (hc : AllTries (recorded Kernel.step Kernel.grant) (fun x e => x.2.OwnerAsks e) ([], Kernel.boot mc) es) :
    AllStates (recorded Kernel.step Kernel.grant) (fun x => x.2.GrantsApart x.1) ([], Kernel.boot mc) es ∧
      AllTries (recorded Kernel.step Kernel.grant) (fun x e => x.2.WritesFresh e) ([], Kernel.boot mc) es := by
  apply allTries_of_invariant (I := fun x => ∃ a, Rep x.2 a ∧ a.Good ∧ AbsKernel.Laid x.1 a) ?_ ?_
    ⟨bootAbs mc, boot_rep mc, boot_good mc, boot_laid mc⟩ hes hc
  · rintro x ⟨a, h, -, hl⟩
    exact hl.grantsApart h
  · rintro x e ⟨a, h, g, hl⟩ he hask
    refine ⟨hl.writesFresh h hask, fun x' hx => ?_⟩
    obtain ⟨s', hs, rfl⟩ := Option.map_eq_some_iff.mp hx
    exact hl.step h g he hask hs

theorem pages_granted_boot : ∃ s, exec (recorded Kernel.step Kernel.grant) ([], .boot .blank)
    [⟨.threadCreate 0x100000 0 0x100000, 0⟩, ⟨.sbrk 4096, 0⟩] = some ([⟨1, 305, none⟩, ⟨1, 304, some 2⟩], s) ∧
    s.GrantsApart [⟨1, 305, none⟩, ⟨1, 304, some 2⟩] := by
  have hrun : (recorded Kernel.step Kernel.grant ([], .boot .blank) ⟨.threadCreate 0x100000 0 0x100000, 0⟩).any (fun x =>
      decide (x.2.OwnsTable) && (recorded Kernel.step Kernel.grant x ⟨.sbrk 4096, 0⟩).any fun y =>
        decide (y.1 = [⟨1, 305, none⟩, ⟨1, 304, some 2⟩])) = true := by
    decide +kernel
  obtain ⟨x, hx, hd⟩ := (Option.any_eq_true _ _).mp hrun
  obtain ⟨hown, hd⟩ := (Bool.and_eq_true _ _).mp hd
  obtain ⟨⟨gs, s⟩, hy, hd⟩ := (Option.any_eq_true _ _).mp hd
  have hgs : gs = [⟨1, 305, none⟩, ⟨1, 304, some 2⟩] := of_decide_eq_true hd
  have hexec : exec (recorded Kernel.step Kernel.grant) ([], .boot .blank)
      [⟨.threadCreate 0x100000 0 0x100000, 0⟩, ⟨.sbrk 4096, 0⟩] = some ([⟨1, 305, none⟩, ⟨1, 304, some 2⟩], s) :=
    exec_cons.mpr ⟨x, hx, exec_cons.mpr ⟨_, hgs ▸ hy, rfl⟩⟩
  have hgrows : ∀ e ∈ [⟨.threadCreate 0x100000 0 0x100000, 0⟩, (⟨.sbrk 4096, 0⟩ : Kernel.Event)], e.Grows := by
    intro e he size hop
    rcases List.mem_pair.mp he with rfl | rfl
    · cases hop
    · cases hop
      decide
  have hasks : AllTries (recorded Kernel.step Kernel.grant) (fun x e => x.2.OwnerAsks e) ([], .boot .blank)
      [⟨.threadCreate 0x100000 0 0x100000, 0⟩, ⟨.sbrk 4096, 0⟩] := by
    have hboot : (Kernel.boot .blank).OwnsTable ∧ (Kernel.boot .blank).topPage < totalPages := by
      decide +kernel
    refine ⟨fun _ _ => hboot, fun x' hx' => ⟨fun _ _ => ?_, fun _ _ => trivial⟩⟩
    obtain rfl := Option.some.inj (hx.symm.trans hx')
    exact ⟨of_decide_eq_true hown, .inl (by decide)⟩
  have hlast := allStates_last _ (pages_granted .blank hgrows hasks).1 hexec
  exact ⟨s, hexec, hlast⟩

/-- A new thread asks for heap, and gets the page its stack is in. -/
theorem thread_remaps : ∃ x y, exec (recorded Kernel.step Kernel.grant) ([], .boot .blank)
      [⟨.threadCreate 0x100000 0 0x100000, 0⟩, ⟨.yield, 0⟩] = some x ∧
    recorded Kernel.step Kernel.grant x ⟨.sbrk 4096, 0⟩ = some y ∧
    ¬ x.2.WritesFresh ⟨.sbrk 4096, 0⟩ ∧ ¬ y.2.GrantsApart y.1 := by
  have hrun : (exec (recorded Kernel.step Kernel.grant) ([], .boot .blank)
      [⟨.threadCreate 0x100000 0 0x100000, 0⟩, ⟨.yield, 0⟩]).any (fun x =>
      decide (x.2.idleTask ≠ some x.2.current ∧ x.2.getPT x.2.current = some 1 ∧
        (x.2.task x.2.current).heapStartProc = 1245184 ∧ (x.2.task x.2.current).heapPointerProc = 1245184 ∧
        x.2.mm.freeCount ≠ 0 ∧ x.2.mm.allocFrame.1 ≠ -1 ∧ (x.2.mm.entry 1 304).present = true) &&
        (recorded Kernel.step Kernel.grant x ⟨.sbrk 4096, 0⟩).any fun y =>
          decide (y.1 = [⟨1, 304, none⟩, ⟨1, 304, some 2⟩] ∧ y.2.idleTask ≠ some y.2.current ∧
            y.2.getPT y.2.current = some 1 ∧ (y.2.task y.2.current).PID = 1)) = true := by
    decide +kernel
  obtain ⟨x, hx, hd⟩ := (Option.any_eq_true _ _).mp hrun
  obtain ⟨hd, hd'⟩ := (Bool.and_eq_true _ _).mp hd
  obtain ⟨y, hy, hd'⟩ := (Option.any_eq_true _ _).mp hd'
  obtain ⟨hi, hpt, hstart, hhp, hfree, halloc, hpres⟩ := of_decide_eq_true hd
  obtain ⟨hgs, hi', hpt', hpid⟩ := of_decide_eq_true hd'
  refine ⟨x, y, hx, hy, fun h => ?_, fun h => ?_⟩
  · have hmaps : x.2.MapsHeap 4096 := by
      rw [Kernel.MapsHeap, hstart, hhp]
      exact ⟨by decide, by decide, hfree⟩
    have hfresh := h hi 1 hpt hmaps
    rw [hhp] at hfresh
    have hblank : (x.2.mm.entry 1 304).present = false := (hfresh (by decide) halloc).1
    rw [hpres] at hblank
    cases hblank
  · rw [hgs] at h
    obtain ⟨-, hapart⟩ := h y.2.current (.inl rfl) hi' 1 hpt'
    have hne := (List.pairwise_cons.mp hapart).1 _ List.mem_cons_self hpid.symm hpid.symm
    exact hne.1 rfl

end ZeosSOA.Sysenter
