import ZeosSOA.Sysenter.Books

/-!
# ZeOSSysenter: the accounts of time

The history keeps for every task the tick that `init_stats` read for it, and the books. In any run,
with the interrupts of the keyboard and whatever `get_ticks` returns, each reading is in the books
once, every counter holds the intervals charged to it, and the four counters of a task hold
together the ticks from then to its last reading.
-/

namespace ZeosSOA.Sysenter

open Runs

/-- The tick at which the account of each task starts. -/
abbrev Starts : Type := TaskId → UInt32

/-- At start-up `init_stats` runs for idle first, and then for task 1; it reads two ticks each time. -/
def Starts.start (mc : Machine) : Starts := fun t => if t = 0 then mc.clock 0 else mc.clock 2

def Starts.next (m : Starts) (s : System) : System.Input → Starts
  | .event e =>
    match s.kernel.creates e with
    | some (c, _) => Function.update m c (s.kernel.clock s.kernel.reads)
    | none => m
  | _ => m

/-- The handler of the keyboard switches to no other task; `sys_getKey` reads no tick. -/
def System.posts (s : System) : System.Input → List Post
  | .event e => s.kernel.posts e
  | .key _ _ => [.charge s.kernel.current .user, .charge s.kernel.current .system]
  | .getKey _ => []

def Books.start (mc : Machine) : Books :=
  [.opens 0, .opens 1].foldl (Books.post mc.clock) ⟨0, fun _ => ⟨0, []⟩⟩

def Books.next (l : Books) (s : System) (i : System.Input) : Books := (s.posts i).foldl (Books.post s.kernel.clock) l

/-- What the history of a run keeps. -/
structure Record where
  starts : Starts
  books : Books

def Record.start (mc : Machine) : Record := ⟨.start mc, .start mc⟩

def Record.next (r : Record) (s : System) (i : System.Input) : Record := ⟨r.starts.next s i, r.books.next s i⟩

/-- The account of every live task, and of idle, is complete. -/
def Accounts (x : Starts × System) : Prop :=
  ∃ a, Described x.2.kernel a ∧ ∀ t, Held a t → (x.2.kernel.task t).pStats.balance = 0 - x.1 t

section
variable {x y : Starts × System} {s : System} {k k' : Kernel} {a b : AbsKernel} {m : Starts}

theorem Described.setMm (h : Described k a) (mm : Mm) : Described (k.setMm mm) (a.setMm mm) :=
  ⟨h.toRep.setMm mm, { h.good with }, h.pid, h.tid⟩

theorem accounts_event {e : Kernel.Event} (h : Described k a) (cb : CBuffer)
    (hm : ∀ t, Held a t → (k.task t).pStats.balance = 0 - m t) (hs : k.step e = some k') :
    Accounts (m.next ⟨k, cb⟩ (.event e), ⟨k', cb⟩) := by
  obtain ⟨b, hb, h'⟩ := h.step hs
  refine ⟨b, h', fun t ht => ?_⟩
  have heff := Kernel.step_effect hs
  unfold Kernel.Effect at heff
  dsimp only [Starts.next]
  by_cases hsw : k.switches e = true
  · rw [if_pos hsw] at heff
    rw [creates_of_switches hsw]
    rcases held_step h hb ht with ht | ⟨sp, hc⟩
    · rw [heff.balance t]
      exact hm t ht
    · rw [creates_of_switches hsw] at hc
      cases hc
  · rw [if_neg hsw] at heff
    rcases held_step h hb ht with ht | ⟨sp, hc⟩
    · have hne := freeHead_ne h.toRep h.good ht
      rw [heff.1.balance t hne, hm t ht]
      cases hc : k.creates e with
      | none => rfl
      | some p =>
        obtain ⟨c, sp⟩ := p
        have htc : t ≠ c := by
          rintro rfl
          exact hne (creates_freeHead hc)
        simp [htc]
    · rw [(heff.2 t sp hc).balance, hc]
      simp

theorem accounts_step {i : System.Input} (hx : Accounts x) (hy : recorded System.step Starts.next x i = some y) :
    Accounts y := by
  obtain ⟨m, s⟩ := x
  obtain ⟨s', hs, rfl⟩ := Option.map_eq_some_iff.mp hy
  obtain ⟨a, h, hm⟩ := hx
  cases i with
  | event e =>
    obtain ⟨k', hk, rfl⟩ := Option.map_eq_some_iff.mp hs
    exact accounts_event h s.cBuffer hm hk
  | key c past =>
    obtain rfl := Option.some.inj hs
    refine ⟨a, ⟨System.keyboardHandler_rep h.toRep c past, h.good, h.pid, h.tid⟩, fun t ht => ?_⟩
    have hq : Kernel.Quiet (fun _ => False) s.kernel s.kernel.userToSystem.systemToUser :=
      (Kernel.quiet_updateStats _ _ .user).trans (Kernel.quiet_updateStats _ _ .system)
    exact (hq.balance t not_false).trans (hm t ht)
  | getKey b =>
    simp only [System.step] at hs
    split at hs
    · cases hs
    obtain ⟨⟨r, t⟩, hr, rfl⟩ := Option.map_eq_some_iff.mp hs
    rcases System.sysGetKey_cases hr with ⟨-, -, rfl⟩ | ⟨-, -, rfl⟩ | ⟨-, -, -, ⟨mm, hmm, -, -⟩, -⟩
    · exact ⟨a, h, hm⟩
    · exact ⟨a, h, hm⟩
    · refine ⟨a.setMm mm, by rw [hmm]; exact h.setMm mm, fun t ht => ?_⟩
      dsimp only
      rw [hmm]
      exact hm t ht

theorem boot_accounts (mc : Machine) : Accounts (.start mc, .boot mc) := by
  refine ⟨bootAbs mc, boot_described mc, fun t ht => ?_⟩
  rcases boot_held ht with rfl | rfl <;> rfl

/-! ## The books -/

theorem boot_agrees (mc : Machine) : Kernel.Agrees (.start mc) (Kernel.boot mc) := by
  refine ⟨rfl, fun t => ?_⟩
  fin_cases t <;> exact ⟨rfl, rfl, rfl, rfl, rfl⟩

theorem agrees_step {l : Books} {s' : System} {i : System.Input} (h : Described s.kernel a) (hl : Kernel.Agrees l s.kernel)
    (hs : s.step i = some s') : Kernel.Agrees (l.next s i) s'.kernel := by
  cases i with
  | event e =>
    obtain ⟨k', hk, rfl⟩ := Option.map_eq_some_iff.mp hs
    exact (Kernel.follows_step (h.globalPID ▸ h.pid) (h.globalTID ▸ h.tid) hk).agrees l hl
  | key c past =>
    obtain rfl := Option.some.inj hs
    have hkey := (Kernel.follows_updateStats s.kernel s.kernel.current .user).trans
      (Kernel.follows_updateStats _ s.kernel.current .system)
    exact hkey.agrees l hl
  | getKey b =>
    simp only [System.step] at hs
    split at hs
    · cases hs
    obtain ⟨⟨r, t⟩, hr, rfl⟩ := Option.map_eq_some_iff.mp hs
    rcases System.sysGetKey_cases hr with ⟨-, -, rfl⟩ | ⟨-, -, rfl⟩ | ⟨-, -, -, ⟨mm, hmm, -, -⟩, -⟩
    · exact hl
    · exact hl
    · dsimp only
      rw [hmm]
      exact hl

end

/-- After every run each tick that was read is in the books once. For every struct each counter
holds the intervals charged to it, and the four together the time from the start of the account to
the last reading; for a live task and for idle that start is the tick `init_stats` read for it. -/
theorem ticks_conserved {mc : Machine} {is : List System.Input} {r : Record} {s : System}
    (he : exec (recorded System.step Record.next) (.start mc, .boot mc) is = some (r, s)) :
    r.books.reads = s.kernel.reads ∧ ∀ t,
      let p := (s.kernel.task t).pStats
      let b := r.books.book t
      Matches p b ∧ p.userTicks + p.systemTicks + p.blockedTicks + p.readyTicks = p.elapsedTotalTicks - b.start ∧
        (s.kernel.Live t ∨ s.kernel.idleTask = some t → b.start = r.starts t) := by
  have htrue : AllSteps (recorded System.step Record.next) (fun _ _ _ => True) (.start mc, .boot mc) is :=
    allSteps_of_forall (A := fun _ => True) (fun _ _ _ _ => trivial) fun _ _ => trivial
  have hstep : ∀ x i y, Accounts (x.1.starts, x.2) ∧ Kernel.Agrees x.1.books x.2.kernel → True →
      recorded System.step Record.next x i = some y →
      Accounts (y.1.starts, y.2) ∧ Kernel.Agrees y.1.books y.2.kernel := by
    rintro ⟨r, s⟩ i y ⟨hx, hl⟩ - hy
    obtain ⟨s', hs, rfl⟩ := Option.map_eq_some_iff.mp hy
    obtain ⟨a, h, -⟩ := id hx
    exact ⟨accounts_step hx (Option.map_eq_some_iff.mpr ⟨s', hs, rfl⟩), agrees_step h hl hs⟩
  obtain ⟨⟨a, h, hm⟩, hreads, hl⟩ := exec_invariant hstep ⟨boot_accounts mc, boot_agrees mc⟩ htrue he
  refine ⟨hreads, fun t => ⟨hl t, (hl t).sum, fun ht => ?_⟩⟩
  have hheld : Held a t := by
    rcases ht with ht | ht
    · exact .inl ((h.toRep.live t).mp ht)
    · rw [h.idleTask] at ht
      exact .inr (Option.some.inj ht).symm
  have hbal := hm t hheld
  have hsum := (hl t).sum
  unfold Stats.balance at hbal
  dsimp only at hbal
  grind

/-- A key interrupts task 1, which then creates a thread, yields to it and is resumed by it. -/
theorem ticks_conserved_thread : ∃ r s, exec (recorded System.step Record.next) (.start .ticking, .boot .ticking)
      [.key 0x9e 0, .event ⟨.threadCreate 0x100000 0 0x100000, 0⟩, .event ⟨.yield, 8⟩, .event ⟨.clock, 8⟩] = some (r, s) ∧
    s.kernel.current = 2 ∧ (r.books.book 2).readings = [(.ready, 10), (.user, 11), (.system, 12)] ∧
    r.books.reads = s.kernel.reads ∧ Matches (s.kernel.task 2).pStats (r.books.book 2) ∧
    (r.books.book 2).start = r.starts 2 := by
  have hrun : (exec (recorded System.step Record.next) (.start .ticking, .boot .ticking)
      [.key 0x9e 0, .event ⟨.threadCreate 0x100000 0 0x100000, 0⟩, .event ⟨.yield, 8⟩, .event ⟨.clock, 8⟩]).any
        (fun x => decide (x.2.kernel.current = 2 ∧
          (x.1.books.book 2).readings = [(.ready, 10), (.user, 11), (.system, 12)])) = true := by decide +kernel
  obtain ⟨⟨r, s⟩, hx, hd⟩ := (Option.any_eq_true _ _).mp hrun
  obtain ⟨hc, hreadings⟩ := of_decide_eq_true hd
  obtain ⟨hreads, hall⟩ := ticks_conserved hx
  obtain ⟨hm, -, hstart⟩ := hall 2
  exact ⟨r, s, hx, hc, hreadings, hreads, hm, hstart (.inl (.inl hc.symm))⟩

end ZeosSOA.Sysenter
