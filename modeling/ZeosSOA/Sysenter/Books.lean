import Mathlib.Data.Fintype.Basic
import Mathlib.Data.UInt
import ZeosSOA.Ledger
import ZeosSOA.Sysenter.Contexts
import ZeosSOA.Sysenter.Keyboard

/-!
# ZeOSSysenter: what a step posts

The books have an account of every task struct. `posts` says which readings of the clock a step
makes, in order, and for which account and counter each of them is; it looks at who runs and who is
created, and at no statistics. The statistics of the kernel agree with the books after every step.
-/

namespace ZeosSOA.Sysenter

open Ledger

instance : Fintype TickCounter := ⟨{.user, .system, .ready}, fun c => by cases c <;> decide⟩

/-- A reading for a counter of `t`, the two readings that open an account, or a struct copied into another. -/
inductive Post where
  | charge (t : TaskId) (c : TickCounter)
  | opens (t : TaskId)
  | copies (src dst : TaskId)

/-- The accounts, and how often the clock has been read. -/
structure Books where
  reads : Nat
  book : TaskId → Book TickCounter UInt32

/-- Each reading is used once. The second one that opens an account is for `remaining_ticks`. -/
def Books.post (clock : Nat → UInt32) (l : Books) : Post → Books
  | .charge t c => ⟨l.reads + 1, Function.update l.book t ((l.book t).charge c (clock l.reads))⟩
  | .opens t => ⟨l.reads + 2, Function.update l.book t ⟨clock l.reads, []⟩⟩
  | .copies src dst => ⟨l.reads, Function.update l.book dst (l.book src)⟩

/-- The statistics of a task are those of its account. Nothing is charged to `blocked_ticks`. -/
structure Matches (p : Stats) (b : Book TickCounter UInt32) : Prop where
  user : p.userTicks = b.charged .user
  system : p.systemTicks = b.charged .system
  ready : p.readyTicks = b.charged .ready
  blocked : p.blockedTicks = 0
  elapsed : p.elapsedTotalTicks = b.last

namespace Kernel

/-! ## The readings of a step -/

/-- A call that takes a free struct copies the caller's into it, and opens its account when it goes through. -/
def takes (s : Kernel) (e : Event) : List Post :=
  if s.listEmpty .freequeue then []
  else match s.freeHead with
    | some c => .copies s.current c :: if (s.creates e).isSome then [.opens c] else []
    | none => []

def postsTaking (s : Kernel) (e : Event) : List Post :=
  match e.op with
  | .fork => s.takes e
  | .threadCreate f p w => if s.threadArgsOk f p w then s.takes e else []
  | _ => []

/-- `user_to_system` of the clock's handler; on a switch `update_process_state_rr`, which `sys_exit`, `sys_threadExit`
and `sys_semWait` do without, and the two readings of `sched_next_rr`. -/
def postsHandling (s : Kernel) (e : Event) (next : TaskId) : List Post :=
  (if e.op = .clock then [.charge s.current .user] else []) ++
  if s.switches e then
    (if e.op = .clock ∨ e.op = .yield then [.charge s.current .system] else []) ++
      [.charge s.current .system, .charge next .ready]
  else s.postsTaking e

/-- `system_to_user` of the task that goes on, if it was interrupted. -/
def postsResuming (s : Kernel) : List Post := if s.interrupted s.current then [.charge s.current .system] else []

def posts (s : Kernel) (e : Event) : List Post :=
  match s.handle e with
  | none => []
  | some h => s.postsHandling e h.current ++ h.postsResuming

def Agrees (l : Books) (s : Kernel) : Prop := l.reads = s.reads ∧ ∀ t, Matches (s.task t).pStats (l.book t)

/-- From `s` to `s'` the statistics change as the books do with `ps`. -/
structure Follows (ps : List Post) (s s' : Kernel) : Prop where
  clock : s'.clock = s.clock
  agrees : ∀ l, Agrees l s → Agrees (ps.foldl (Books.post s.clock) l) s'

end Kernel

/-! ## One reading -/

section
variable {p : Stats} {b : Book TickCounter UInt32}

theorem Matches.charge (h : Matches p b) (v : TickCounter) (now : UInt32) :
    Matches (Kernel.addTicks p v now) (b.charge v now) := by
  obtain ⟨hu, hs, hr, hb, he⟩ := h
  refine ⟨?_, ?_, ?_, ?_, ?_⟩
  · rw [Book.charge_charged]
    cases v <;> simp [Kernel.addTicks, hu, he]
  · rw [Book.charge_charged]
    cases v <;> simp [Kernel.addTicks, hs, he]
  · rw [Book.charge_charged]
    cases v <;> simp [Kernel.addTicks, hr, he]
  · cases v <;> exact hb
  · rw [Book.charge_last]
    cases v <;> rfl

theorem matches_opened (now spare : UInt32) : Matches ⟨0, 0, 0, 0, now, 0, spare⟩ ⟨now, []⟩ := ⟨rfl, rfl, rfl, rfl, rfl⟩

/-- The four counters hold the time from the first reading of the account to its last. -/
theorem Matches.sum (h : Matches p b) :
    p.userTicks + p.systemTicks + p.blockedTicks + p.readyTicks = p.elapsedTotalTicks - b.start := by
  have hsum : b.charged .user + (b.charged .system + (b.charged .ready + 0)) = b.last - b.start := by
    rw [← b.sum_charged]
    rfl
  rw [h.elapsed, ← hsum, h.user, h.system, h.ready, h.blocked]
  grind

end

namespace Kernel

section
variable {s s' s'' : Kernel} {ps qs : List Post} {ebp : Nat}

theorem Follows.refl (s : Kernel) : Follows [] s s := ⟨rfl, fun _ h => h⟩

theorem Follows.trans (h : Follows ps s s') (h' : Follows qs s' s'') : Follows (ps ++ qs) s s'' where
  clock := h'.clock.trans h.clock
  agrees l hl := by
    rw [List.foldl_append, ← h.clock]
    exact h'.agrees _ (h.clock ▸ h.agrees l hl)

theorem follows_modTask (s : Kernel) (t : TaskId) {f : TaskStruct → TaskStruct}
    (hf : ∀ b, Matches (s.task t).pStats b → Matches (f (s.task t)).pStats b) : Follows [] s (s.modTask t f) := by
  refine ⟨rfl, fun l hl => ⟨hl.1, fun u => ?_⟩⟩
  by_cases h : u = t
  · subst h
    simpa [modTask] using hf _ (hl.2 u)
  · simpa [modTask, h] using hl.2 u

theorem follows_setState (s : Kernel) (t : TaskId) (st : TaskState) : Follows [] s (s.setState t st) :=
  follows_modTask s t fun _ h => h

theorem follows_setHeapPointer (s : Kernel) (t : TaskId) (hp : Nat) : Follows [] s (s.setHeapPointer t hp) :=
  follows_modTask s t fun _ h => h

theorem follows_listDel {n : ListHead} (h : s.listDel n = some s') : Follows [] s s' := by
  obtain ⟨l, -, h⟩ := Option.bind_eq_some_iff.mp h
  cases h
  exact ⟨rfl, fun _ h => h⟩

theorem follows_listAdd {n : ListHead} {i : Queue} (h : s.listAdd n i = some s') : Follows [] s s' := by
  obtain ⟨l, -, h⟩ := Option.bind_eq_some_iff.mp h
  cases h
  exact ⟨rfl, fun _ h => h⟩

theorem follows_listAddTail {n : ListHead} {i : Queue} (h : s.listAddTail n i = some s') : Follows [] s s' := by
  obtain ⟨l, -, h⟩ := Option.bind_eq_some_iff.mp h
  cases h
  exact ⟨rfl, fun _ h => h⟩

theorem follows_resetSemafors (s : Kernel) (tab : SemTable) : Follows [] s (s.resetSemafors tab) := by
  have key : ∀ (is : List (Fin numSem)) (s : Kernel), Follows [] s (is.foldl (fun s i =>
      (s.setSem tab i { semid := -1, count := 0, PID := -1 }).initListHead (.head (.blocked tab i))) s) := by
    intro is
    induction is with
    | nil => exact Follows.refl
    | cons i is ih =>
      intro s
      have h : Follows [] s ((s.setSem tab i { semid := -1, count := 0, PID := -1 }).initListHead
        (.head (.blocked tab i))) := ⟨rfl, fun _ h => h⟩
      exact h.trans (ih _)
  exact key _ s

theorem follows_updateStats (s : Kernel) (t : TaskId) (v : TickCounter) :
    Follows [.charge t v] s (s.updateStats t v) := by
  refine ⟨rfl, fun l ⟨hr, hl⟩ => ⟨congrArg (· + 1) hr, fun u => ?_⟩⟩
  by_cases h : u = t
  · subst h
    simpa [updateStats, getTicks, modTask, Books.post, hr] using (hl u).charge v (s.clock s.reads)
  · simpa [updateStats, getTicks, modTask, Books.post, h] using hl u

theorem follows_initStats (s : Kernel) (t : TaskId) : Follows [.opens t] s (s.initStats t) := by
  refine ⟨rfl, fun l ⟨hr, hl⟩ => ⟨congrArg (· + 2) hr, fun u => ?_⟩⟩
  by_cases h : u = t
  · subst h
    simpa [initStats, getTicks, modTask, Books.post, hr] using matches_opened (s.clock s.reads) (s.clock (s.reads + 1))
  · simpa [initStats, getTicks, modTask, Books.post, h] using hl u

theorem follows_copyTaskUnion (s : Kernel) (src dst : TaskId) :
    Follows [.copies src dst] s (s.copyTaskUnion src dst) := by
  refine ⟨rfl, fun l ⟨hr, hl⟩ => ⟨hr, fun u => ?_⟩⟩
  by_cases h : u = dst
  · subst h
    simpa [copyTaskUnion, Books.post] using hl src
  · simpa [copyTaskUnion, Books.post, h] using hl u

/-! ## The switch -/

theorem follows_innerTaskSwitch (s : Kernel) (t : TaskId) (ebp : Nat) : Follows [] s (s.innerTaskSwitch t ebp) := by
  have h := follows_modTask s s.current (f := fun c => { c with registerEsp := some ⟨s.current, ebp⟩ }) fun _ h => h
  exact ⟨rfl, fun l hl => h.agrees l hl⟩

theorem follows_dispatch (s : Kernel) (t : TaskId) (ebp : Nat) :
    Follows [.charge s.current .system, .charge t .ready] s (s.dispatch t ebp) := by
  have h1 : Follows [] s { s.setState t .run with remainingQuantum := (s.setState t .run).getQuantum t } :=
    (follows_setState s t .run).trans ⟨rfl, fun _ h => h⟩
  have h2 := (h1.trans (follows_updateStats _ s.current .system)).trans (follows_updateStats _ t .ready)
  have h3 := h2.trans (follows_modTask _ t (f := fun c => { c with
    pStats := { c.pStats with totalTrans := c.pStats.totalTrans + 1 } }) fun _ h => ⟨h.1, h.2, h.3, h.4, h.5⟩)
  exact h3.trans (follows_innerTaskSwitch _ t ebp)

theorem follows_schedNextRr (h : s.schedNextRr ebp = some s') :
    Follows [.charge s.current .system, .charge s'.current .ready] s s' := by
  obtain ⟨⟨t, s1⟩, h1, h⟩ := Option.bind_eq_some_iff.mp h
  cases h
  obtain ⟨l, rfl⟩ := nextTask_links h1
  have hlinks : Follows [] s { s with links := l } := ⟨rfl, fun _ h => h⟩
  exact hlinks.trans (follows_dispatch { s with links := l } t ebp)

theorem follows_updateProcessStateRr {t : TaskId} (h : s.updateProcessStateRr t (some .readyqueue) = some s') :
    Follows [.charge t .system] s s' := by
  have hready : ∀ {s1 s2 : Kernel}, s1.listAddTail (.anchor t) .readyqueue = some s2 →
      Follows [.charge t .system] s1 ((s2.updateStats t .system).setState t .ready) := fun {s1 s2} h =>
    ((follows_listAddTail h).trans (follows_updateStats s2 t .system)).trans (follows_setState _ t .ready)
  unfold updateProcessStateRr at h
  dsimp only at h
  split at h
  · obtain ⟨s1, h1, h⟩ := Option.bind_eq_some_iff.mp h
    obtain ⟨s2, h2, h⟩ := Option.bind_eq_some_iff.mp h
    cases h
    exact (follows_listDel h1).trans (hready h2)
  · obtain ⟨s1, h1, h⟩ := Option.bind_eq_some_iff.mp h
    cases h1
    obtain ⟨s2, h2, h⟩ := Option.bind_eq_some_iff.mp h
    cases h
    exact hready h2

theorem follows_forceTaskSwitch (h : s.forceTaskSwitch ebp = some s') :
    Follows [.charge s.current .system, .charge s.current .system, .charge s'.current .ready] s s' := by
  obtain ⟨s1, h1, h⟩ := Option.bind_eq_some_iff.mp h
  have hcur : s1.current = s.current := (quiet_updateProcessStateRr (X := fun _ => False) h1).current
  have hnext := follows_schedNextRr h
  rw [hcur] at hnext
  exact (follows_updateProcessStateRr h1).trans hnext

theorem follows_schedule (h : s.schedule ebp = some s') : Follows
    (if s.remainingQuantum - 1 = 0 ∧ ¬ s.listEmpty .readyqueue = true then
      [.charge s.current .system, .charge s.current .system, .charge s'.current .ready] else []) s s' := by
  have hdata : Follows [] s s.updateSchedDataRr := ⟨rfl, fun _ h => h⟩
  by_cases hsw : s.remainingQuantum - 1 = 0 ∧ ¬ s.listEmpty .readyqueue = true
  · have hsw' : s.updateSchedDataRr.remainingQuantum = 0 ∧ ¬ s.updateSchedDataRr.listEmpty .readyqueue = true := hsw
    unfold schedule needsSchedRr at h
    dsimp only at h
    rw [if_pos hsw'] at h
    rw [if_pos hsw]
    exact hdata.trans (follows_forceTaskSwitch (s := s.updateSchedDataRr) h)
  · have hsw' : ¬ (s.updateSchedDataRr.remainingQuantum = 0 ∧ ¬ s.updateSchedDataRr.listEmpty .readyqueue = true) := hsw
    unfold schedule needsSchedRr at h
    dsimp only at h
    rw [if_neg hsw'] at h
    rw [if_neg hsw]
    by_cases h0 : s.updateSchedDataRr.remainingQuantum = 0
    · rw [if_pos h0] at h
      cases h
      exact ⟨rfl, fun _ h => h⟩
    · rw [if_neg h0] at h
      cases h
      exact hdata

theorem follows_resume (s : Kernel) : Follows s.postsResuming s s.resume := by
  have hset : ∀ s2 : Kernel, Follows [] s2 (s2.setInterrupted s.current false) := fun _ => ⟨rfl, fun _ h => h⟩
  unfold resume postsResuming
  split
  · exact (follows_updateStats s s.current .system).trans (hset _)
  · exact .refl s

/-! ## The calls that switch -/

theorem follows_clockHandler (h : s.clockHandler ebp = some s') :
    Follows (s.postsHandling ⟨.clock, ebp⟩ s'.current) s s' := by
  let s1 : Kernel := { s.userToSystem.setInterrupted s.current true with zeosTicks := s.zeosTicks + 1 }
  have hrest : Follows [] s.userToSystem s1 := ⟨rfl, fun _ h => h⟩
  have h1 : Follows [.charge s.current .user] s s1 := (follows_updateStats s s.current .user).trans hrest
  have h2 : s1.schedule ebp = some s' := h
  have hposts : s.postsHandling ⟨.clock, ebp⟩ s'.current = [.charge s.current .user] ++
      if s1.remainingQuantum - 1 = 0 ∧ ¬ s1.listEmpty .readyqueue = true then
        [.charge s1.current .system, .charge s1.current .system, .charge s'.current .ready] else [] := by
    have hsw : s.switches ⟨.clock, ebp⟩ = decide (s1.remainingQuantum - 1 = 0 ∧ ¬ s1.listEmpty .readyqueue = true) := rfl
    unfold postsHandling
    by_cases hd : s1.remainingQuantum - 1 = 0 ∧ ¬ s1.listEmpty .readyqueue = true
    · rw [if_pos hd, hsw, decide_eq_true hd]
      rfl
    · rw [if_neg hd, hsw, decide_eq_false hd]
      rfl
  rw [hposts]
  exact h1.trans (follows_schedule h2)

theorem follows_sysYield (h : s.sysYield ebp = some s') : Follows (s.postsHandling ⟨.yield, ebp⟩ s'.current) s s' :=
  follows_forceTaskSwitch h

theorem follows_sysExit (h : s.sysExit ebp = some s') : Follows (s.postsHandling ⟨.exit, ebp⟩ s'.current) s s' := by
  obtain ⟨pt, -, h⟩ := Option.bind_eq_some_iff.mp h
  obtain ⟨⟨hp, mm⟩, -, h⟩ := Option.bind_eq_some_iff.mp h
  obtain ⟨s1, h1, h⟩ := Option.bind_eq_some_iff.mp h
  have hmm : Follows [] s (s.setMm mm) := ⟨rfl, fun _ h => h⟩
  have hlink := (hmm.trans (follows_setHeapPointer _ s.current hp)).trans (follows_listAddTail h1)
  have hcur : s1.current = s.current := (quiet_listAddTail (X := fun _ => False) h1).current
  have hnext := follows_schedNextRr h
  have hpid := hlink.trans (follows_modTask s1 s1.current (f := fun c => { c with PID := -1 }) fun _ h => h)
  rw [show (s1.modTask s1.current fun c => { c with PID := -1 }).current = s.current from hcur] at hnext
  exact hpid.trans hnext

theorem follows_sysThreadExit (h : s.sysThreadExit ebp = some s') :
    Follows (s.postsHandling ⟨.threadExit, ebp⟩ s'.current) s s' := by
  obtain ⟨pt, -, h⟩ := Option.bind_eq_some_iff.mp h
  obtain ⟨s1, h1, h⟩ := Option.bind_eq_some_iff.mp h
  have hmm : ∀ mm, Follows [] s (s.setMm mm) := fun _ => ⟨rfl, fun _ h => h⟩
  have hlink := ((hmm _).trans (follows_setHeapPointer _ s.current _)).trans (follows_listAddTail h1)
  have hcur : s1.current = s.current := (quiet_listAddTail (X := fun _ => False) h1).current
  have hnext := follows_schedNextRr h
  rw [hcur] at hnext
  exact hlink.trans hnext

theorem follows_sysSemWait {k r : Int} (h : s.sysSemWait k ebp = some (r, s')) :
    Follows (s.postsHandling ⟨.semWait k, ebp⟩ s'.current) s s' := by
  obtain ⟨_ | ⟨tab, i⟩, hchk, h⟩ := Option.bind_eq_some_iff.mp h
  · cases h
    have hsw : s.switches ⟨.semWait k, ebp⟩ = false := by simp [switches, hchk]
    simpa [postsHandling, hsw, postsTaking] using Follows.refl s
  dsimp only at h
  rw [show ((s.setCount tab i (toInt32 ((s.sem tab i).count - 1))).sem tab i).count =
    toInt32 ((s.sem tab i).count - 1) by simp [setCount, setSem]] at h
  have hcount : Follows [] s (s.setCount tab i (toInt32 ((s.sem tab i).count - 1))) := ⟨rfl, fun _ h => h⟩
  split at h
  · rename_i hneg
    have hsw : s.switches ⟨.semWait k, ebp⟩ = true := by simpa [switches, hchk] using hneg
    obtain ⟨s1, h1, h⟩ := Option.bind_eq_some_iff.mp h
    obtain ⟨s2, h2, h⟩ := Option.bind_eq_some_iff.mp h
    cases h
    have hcur : s1.current = s.current := (quiet_listAdd (X := fun _ => False) h1).current
    have hnext := follows_schedNextRr h2
    rw [hcur] at hnext
    have hlink := (hcount.trans (follows_setState _ _ .blocked)).trans (follows_listAdd h1)
    simpa [postsHandling, hsw] using hlink.trans hnext
  · rename_i hneg
    cases h
    have hsw : s.switches ⟨.semWait k, ebp⟩ = false := by simpa [switches, hchk] using hneg
    simpa [postsHandling, hsw, postsTaking] using hcount

/-! ## The calls that take a struct -/

theorem takes_of {e : Event} {c : TaskId} (hne : ¬ s.listEmpty .freequeue = true) (hfree : s.freeHead = some c) :
    s.takes e = .copies s.current c :: if (s.creates e).isSome then [.opens c] else [] := by
  rw [takes, if_neg hne, hfree]

theorem follows_start {c : TaskId} {f : TaskStruct → TaskStruct}
    (h : (((s.modTask c f).setInterrupted c false).initStats c).listAddTail (.anchor c) .readyqueue = some s')
    (hf : ∀ t, (f t).pStats = t.pStats) : Follows [.opens c] s s' := by
  have hmod : Follows [] s (s.modTask c f) := follows_modTask s c fun b hb => by rwa [hf]
  have hset : Follows [] (s.modTask c f) ((s.modTask c f).setInterrupted c false) := ⟨rfl, fun _ h => h⟩
  exact ((hmod.trans hset).trans (follows_initStats _ c)).trans (follows_listAddTail h)

theorem follows_sysFork (hpid : 0 ≤ s.globalPID) {r : Int} (h : s.sysFork ebp = some (r, s')) :
    Follows (s.takes ⟨.fork, ebp⟩) s s' := by
  have hcreates : s.creates ⟨.fork, ebp⟩ = if 0 < r then s.freeHead.map fun c => (c, ⟨c, ebp - 4⟩) else none := by
    simp [creates, h]
  unfold sysFork at h
  split at h
  · rename_i hnil
    cases h
    simpa [takes, hnil] using Follows.refl s
  rename_i hne
  obtain ⟨lh, hlh, h⟩ := Option.bind_eq_some_iff.mp h
  obtain ⟨s1, h1, h⟩ := Option.bind_eq_some_iff.mp h
  obtain ⟨c, hc, h⟩ := Option.bind_eq_some_iff.mp h
  obtain ⟨tab, -, h⟩ := Option.bind_eq_some_iff.mp h
  obtain ⟨pt, -, h⟩ := Option.bind_eq_some_iff.mp h
  have hfree : s.freeHead = some c := by rw [freeHead, hlh]; exact hc
  rw [takes_of hne hfree, hcreates, hfree]
  have hcur : s1.current = s.current := (quiet_listDel (X := fun _ => False) h1).current
  have hcopy : Follows [.copies s.current c] s (((s1.copyTaskUnion s1.current c).resetSemafors tab).allocateDIR c) := by
    rw [hcur]
    exact (((follows_listDel h1).trans (follows_copyTaskUnion s1 s.current c)).trans (follows_resetSemafors _ tab)).trans
      (follows_modTask _ c fun _ h => h)
  have hids : (((s1.copyTaskUnion s1.current c).resetSemafors tab).allocateDIR c).globalPID = s.globalPID := by
    obtain ⟨l, -, e⟩ := Option.bind_eq_some_iff.mp h1
    cases e
    rfl
  generalize ((s1.copyTaskUnion s1.current c).resetSemafors tab).allocateDIR c = s2 at h hcopy hids
  have hmm : ∀ mm, Follows [] s2 (s2.setMm mm) := fun _ => ⟨rfl, fun _ h => h⟩
  dsimp only at h
  split at h
  · obtain ⟨s3, h3, h⟩ := Option.bind_eq_some_iff.mp h
    cases h
    exact (hcopy.trans (hmm _)).trans (follows_listAddTail h3)
  · obtain ⟨ppt, -, h⟩ := Option.bind_eq_some_iff.mp h
    obtain ⟨mm, -, h⟩ := Option.bind_eq_some_iff.mp h
    obtain ⟨s3, h3, h⟩ := Option.bind_eq_some_iff.mp h
    have hnext : Follows [] s2 { s2.setMm mm with globalPID := s2.globalPID + 1 } := ⟨rfl, fun _ h => h⟩
    have hstart := follows_start h3 fun _ => rfl
    have hpos : 0 < s3.globalPID := by
      obtain ⟨l, -, e⟩ := Option.bind_eq_some_iff.mp h3
      cases e
      show 0 < s2.globalPID + 1
      omega
    cases h
    rw [if_pos hpos]
    exact (hcopy.trans hnext).trans hstart

theorem follows_sysThreadCreate (htid : 0 ≤ s.globalTID) {f p w : UInt32} {r : Int}
    (h : s.sysThreadCreate f p w = some (r, s')) : Follows (s.postsTaking ⟨.threadCreate f p w, ebp⟩) s s' := by
  have hcreates : s.creates ⟨.threadCreate f p w, ebp⟩ =
      if 0 < r then s.freeHead.map fun c => (c, ⟨c, 4 * (kernelStackSize - 18)⟩) else none := by
    simp [creates, h]
  unfold sysThreadCreate at h
  dsimp only [postsTaking]
  split at h
  · rename_i hargs
    cases h
    rw [if_neg hargs]
    exact .refl s
  rename_i hargs
  rw [if_pos (not_not.mp hargs)]
  split at h
  · rename_i hnil
    cases h
    simpa [takes, hnil] using Follows.refl s
  rename_i hne
  obtain ⟨lh, hlh, h⟩ := Option.bind_eq_some_iff.mp h
  obtain ⟨s1, h1, h⟩ := Option.bind_eq_some_iff.mp h
  obtain ⟨c, hc, h⟩ := Option.bind_eq_some_iff.mp h
  have hfree : s.freeHead = some c := by rw [freeHead, hlh]; exact hc
  rw [takes_of hne hfree, hcreates, hfree]
  have hcur : s1.current = s.current := (quiet_listDel (X := fun _ => False) h1).current
  have hcopy : Follows [.copies s.current c] s (s1.copyTaskUnion s1.current c) := by
    rw [hcur]
    exact (follows_listDel h1).trans (follows_copyTaskUnion s1 s.current c)
  have hids : (s1.copyTaskUnion s1.current c).globalTID = s.globalTID := by
    obtain ⟨l, -, e⟩ := Option.bind_eq_some_iff.mp h1
    cases e
    rfl
  generalize s1.copyTaskUnion s1.current c = s2 at h hcopy hids
  dsimp only at h
  have hnum : Follows [] s2 { s2 with globalTID := s2.globalTID + 1 } := ⟨rfl, fun _ h => h⟩
  have hq := (hcopy.trans hnum).trans (follows_modTask _ c (f := fun t => { t with
    TID := s2.globalTID + 1, PID := (s2.task s2.current).PID, state := .ready
    semafors := (s2.task s2.current).semafors }) fun _ h => h)
  have hpos : 0 < ((({ s2 with globalTID := s2.globalTID + 1 } : Kernel).modTask c fun t => { t with
      TID := s2.globalTID + 1, PID := (s2.task s2.current).PID, state := .ready
      semafors := (s2.task s2.current).semafors }).task c).TID := by
    simp only [modTask, Function.update_self]
    omega
  generalize (({ s2 with globalTID := s2.globalTID + 1 } : Kernel).modTask c fun t => { t with
      TID := s2.globalTID + 1, PID := (s2.task s2.current).PID, state := .ready
      semafors := (s2.task s2.current).semafors }) = s3 at h hq hpos
  have hmm : ∀ (s : Kernel) mm, Follows [] s (s.setMm mm) := fun _ _ => ⟨rfl, fun _ h => h⟩
  split at h
  · cases h
    exact hq
  obtain ⟨pt, -, h⟩ := Option.bind_eq_some_iff.mp h
  split at h
  · obtain ⟨ppt, -, h⟩ := Option.bind_eq_some_iff.mp h
    obtain ⟨mm, -, h⟩ := Option.bind_eq_some_iff.mp h
    obtain ⟨s4, h4, h⟩ := Option.bind_eq_some_iff.mp h
    have hr : 0 < r := by
      obtain ⟨l, -, e⟩ := Option.bind_eq_some_iff.mp h4
      cases e
      cases h
      by_cases hcc : c = s3.current
      · subst hcc
        simpa [initStats, getTicks, modTask, setInterrupted, setHeapPointer, setMm] using hpos
      · simpa [initStats, getTicks, modTask, setInterrupted, setHeapPointer, setMm, hcc] using hpos
    cases h
    rw [if_pos hr]
    have hpage : ∀ m hp, Follows [] s3 (((s3.setMm m).setHeapPointer s3.current hp).setMm mm) := fun m hp =>
      ((hmm s3 m).trans (follows_setHeapPointer _ s3.current hp)).trans (hmm _ mm)
    exact (hq.trans (hpage _ _)).trans (follows_start h4 fun _ => rfl)
  · obtain ⟨⟨hp, mm⟩, -, h⟩ := Option.bind_eq_some_iff.mp h
    obtain ⟨s4, h4, h⟩ := Option.bind_eq_some_iff.mp h
    cases h
    exact ((hq.trans (hmm s3 mm)).trans (follows_setHeapPointer _ s3.current hp)).trans (follows_listAddTail h4)

/-! ## The other calls -/

theorem follows_sysSbrk {size : Int} {r : Nat} (h : s.sysSbrk size = some (r, s')) : Follows [] s s' := by
  unfold sysSbrk at h
  dsimp only at h
  split at h
  · cases h
    exact .refl s
  · obtain ⟨pt, -, h⟩ := Option.bind_eq_some_iff.mp h
    obtain ⟨⟨ret, hp, mm⟩, -, h⟩ := Option.bind_eq_some_iff.mp h
    cases h
    have hmm : Follows [] s (s.setMm mm) := ⟨rfl, fun _ h => h⟩
    exact hmm.trans (follows_setHeapPointer _ s.current hp)

theorem follows_sysSemCreate {v r : Int} (h : s.sysSemCreate v = some (r, s')) : Follows [] s s' := by
  obtain ⟨tab, -, h⟩ := Option.bind_eq_some_iff.mp h
  split at h <;> cases h
  · exact ⟨rfl, fun _ h => h⟩
  · exact .refl s

theorem follows_sysSemSignal {k r : Int} (h : s.sysSemSignal k = some (r, s')) : Follows [] s s' := by
  obtain ⟨_ | ⟨tab, i⟩, -, h⟩ := Option.bind_eq_some_iff.mp h
  · cases h
    exact .refl s
  have hcount : Follows [] s (s.setCount tab i (toInt32 ((s.sem tab i).count + 1))) := ⟨rfl, fun _ h => h⟩
  dsimp only at h
  split at h
  · obtain ⟨l, -, h⟩ := Option.bind_eq_some_iff.mp h
    obtain ⟨s1, h1, h⟩ := Option.bind_eq_some_iff.mp h
    obtain ⟨t, -, h⟩ := Option.bind_eq_some_iff.mp h
    obtain ⟨s2, h2, h⟩ := Option.bind_eq_some_iff.mp h
    cases h
    exact ((hcount.trans (follows_listDel h1)).trans (follows_setState s1 t .ready)).trans (follows_listAdd h2)
  · cases h
    exact hcount

theorem follows_wakeAll (tab : SemTable) (i : Fin numSem) : ∀ (fuel : Nat) {s s' : Kernel},
    s.wakeAll tab i fuel = some s' → Follows [] s s'
  | 0, _, _, h => by cases h
  | fuel + 1, s, s', h => by
    unfold wakeAll at h
    split at h
    · cases h
      exact .refl s
    · obtain ⟨l, -, h⟩ := Option.bind_eq_some_iff.mp h
      obtain ⟨s1, h1, h⟩ := Option.bind_eq_some_iff.mp h
      obtain ⟨t, -, h⟩ := Option.bind_eq_some_iff.mp h
      obtain ⟨s2, h2, h⟩ := Option.bind_eq_some_iff.mp h
      have hone := ((follows_listDel h1).trans (follows_setState s1 t .ready)).trans (follows_listAddTail h2)
      exact hone.trans (follows_wakeAll tab i fuel h)

theorem follows_sysSemDestroy {k r : Int} (h : s.sysSemDestroy k = some (r, s')) : Follows [] s s' := by
  obtain ⟨_ | ⟨tab, i⟩, -, h⟩ := Option.bind_eq_some_iff.mp h
  · cases h
    exact .refl s
  · obtain ⟨s1, h1, h⟩ := Option.bind_eq_some_iff.mp h
    cases h
    have hset : Follows [] s1 (s1.setSem tab i { semid := -1, count := 0, PID := -1 }) := ⟨rfl, fun _ h => h⟩
    exact (follows_wakeAll tab i _ h1).trans hset

/-! ## Steps -/

theorem follows_handle {e : Event} (hpid : 0 ≤ s.globalPID) (htid : 0 ≤ s.globalTID) (h : s.handle e = some s') :
    Follows (s.postsHandling e s'.current) s s' := by
  obtain ⟨op, ebp⟩ := e
  cases op with
  | clock => exact follows_clockHandler h
  | yield => exact follows_sysYield h
  | exit => exact follows_sysExit h
  | threadExit => exact follows_sysThreadExit h
  | fork =>
    obtain ⟨⟨r, s1⟩, hr, rfl⟩ := Option.map_eq_some_iff.mp h
    exact follows_sysFork hpid hr
  | threadCreate f p w =>
    obtain ⟨⟨r, s1⟩, hr, rfl⟩ := Option.map_eq_some_iff.mp h
    exact follows_sysThreadCreate htid hr
  | sbrk size =>
    obtain ⟨⟨r, s1⟩, hr, rfl⟩ := Option.map_eq_some_iff.mp h
    exact follows_sysSbrk hr
  | semCreate v =>
    obtain ⟨⟨r, s1⟩, hr, rfl⟩ := Option.map_eq_some_iff.mp h
    exact follows_sysSemCreate hr
  | semWait k =>
    obtain ⟨⟨r, s1⟩, hr, rfl⟩ := Option.map_eq_some_iff.mp h
    exact follows_sysSemWait hr
  | semSignal k =>
    obtain ⟨⟨r, s1⟩, hr, rfl⟩ := Option.map_eq_some_iff.mp h
    exact follows_sysSemSignal hr
  | semDestroy k =>
    obtain ⟨⟨r, s1⟩, hr, rfl⟩ := Option.map_eq_some_iff.mp h
    exact follows_sysSemDestroy hr

theorem follows_step {e : Event} (hpid : 0 ≤ s.globalPID) (htid : 0 ≤ s.globalTID) (h : s.step e = some s') :
    Follows (s.posts e) s s' := by
  unfold step at h
  split at h
  · cases h
  obtain ⟨s1, h1, rfl⟩ := Option.map_eq_some_iff.mp h
  rw [posts, h1]
  exact (follows_handle hpid htid h1).trans (follows_resume s1)

end

end Kernel

end ZeosSOA.Sysenter
