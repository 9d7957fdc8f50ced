import ZeosSOA.Sysenter.Sequences

/-!
# ZeOSSysenter: what every state has

No task is in two places, idle is in no queue, the current task is in none and runs, and a
queue holds tasks of one state only. `Good` is kept by every step, whatever the call, and
needs no assumption about the semaphores.
-/

namespace ZeosSOA.Sysenter

/-- The state of the tasks of a queue, where the queue has one. -/
def Queue.state : Queue → Option TaskState
  | .freequeue => none
  | .readyqueue => some .ready
  | .blocked _ _ => some .blocked

namespace AbsKernel

/-- The queues share no task and hold none twice. -/
structure Apart (q : Queue → List TaskId) : Prop where
  nodup : ∀ i, (q i).Nodup
  apart : ∀ i j t, t ∈ q i → t ∈ q j → i = j

/-- The part of `Good` that also holds between the moment the current task gives the CPU up and
the switch to the next one. -/
structure Parked (a : AbsKernel) : Prop extends Apart a.queue where
  idle : ∀ i, a.idleTask ∉ a.queue i
  state : ∀ i, ∀ t ∈ a.queue i, ∀ st ∈ i.state, (a.task t).state = st

structure Good (a : AbsKernel) : Prop extends Parked a where
  current : ∀ i, a.current ∉ a.queue i
  run : (a.task a.current).state = .run
  idleLast : a.current = a.idleTask → a.queue .readyqueue = []

section
variable {a : AbsKernel}

/-! ## Changes of a queue -/

theorem Apart.update {q : Queue → List TaskId} (h : Apart q) {i : Queue} {xs : List TaskId} (hx : xs.Nodup)
    (ho : ∀ t ∈ xs, ∀ j ≠ i, t ∉ q j) : Apart (Function.update q i xs) := by
  refine ⟨fun j => ?_, fun j k t hj hk => ?_⟩
  · rw [Function.update_apply]
    split
    · exact hx
    · exact h.nodup j
  · rw [Function.update_apply] at hj hk
    split at hj <;> split at hk
    · rename_i e1 e2; exact e1.trans e2.symm
    · rename_i hki; exact absurd hk (ho t hj k hki)
    · rename_i hji _; exact absurd hj (ho t hk j hji)
    · exact h.apart j k t hj hk

theorem Apart.sublist {q q' : Queue → List TaskId} (h : Apart q) (hs : ∀ i, (q' i).Sublist (q i)) : Apart q' :=
  ⟨fun i => (h.nodup i).sublist (hs i), fun i j t hi hj => h.apart i j t ((hs i).subset hi) ((hs j).subset hj)⟩

theorem pop_sublist {i : Queue} {t : TaskId} {ts : List TaskId} (hq : a.queue i = t :: ts) (j : Queue) :
    ((a.setQueue i ts).queue j).Sublist (a.queue j) := by
  simp only [setQueue, Function.update_apply]
  split
  · rename_i e; rw [e, hq]; exact List.sublist_cons_self t ts
  · exact List.Sublist.refl _

theorem Apart.pop (h : Apart a.queue) {i : Queue} {t : TaskId} {ts : List TaskId}
    (hq : a.queue i = t :: ts) (j : Queue) : t ∉ (a.setQueue i ts).queue j := by
  have hd := h.nodup i
  rw [hq, List.nodup_cons] at hd
  simp only [setQueue, Function.update_apply]
  split
  · exact hd.1
  · rename_i hji
    exact fun hm => hji (h.apart j i t hm (hq ▸ List.mem_cons_self))

theorem Parked.sublist (h : Parked a) {q : Queue → List TaskId} (hs : ∀ i, (q i).Sublist (a.queue i)) :
    Parked { a with queue := q } :=
  ⟨h.toApart.sublist hs, fun i hm => h.idle i ((hs i).subset hm), fun i t ht => h.state i t ((hs i).subset ht)⟩

theorem Parked.insert (h : Parked a) {i : Queue} {t : TaskId} {xs : List TaskId} (hp : xs.Perm (t :: a.queue i))
    (ht : ∀ j, t ∉ a.queue j) (hi : t ≠ a.idleTask) (hst : ∀ st ∈ i.state, (a.task t).state = st) :
    Parked (a.setQueue i xs) where
  toApart := by
    refine h.toApart.update (hp.nodup_iff.mpr (List.nodup_cons.mpr ⟨ht i, h.nodup i⟩)) fun u hu j hji => ?_
    rcases List.mem_cons.mp (hp.mem_iff.mp hu) with rfl | hu
    · exact ht j
    · exact fun hm => hji (h.apart j i u hm hu)
  idle j hm := by
    simp only [setQueue, Function.update_apply] at hm
    split at hm
    · rcases List.mem_cons.mp (hp.mem_iff.mp hm) with e | hm
      · exact hi e.symm
      · exact h.idle i hm
    · exact h.idle j hm
  state j u hu st hs := by
    simp only [setQueue, Function.update_apply] at hu
    split at hu
    · rename_i e; subst e
      rcases List.mem_cons.mp (hp.mem_iff.mp hu) with rfl | hu
      · exact hst st hs
      · exact h.state j u hu st hs
    · exact h.state j u hu st hs

theorem Parked.push (h : Parked a) {i : Queue} {t : TaskId} (ht : ∀ j, t ∉ a.queue j) (hi : t ≠ a.idleTask)
    (hst : ∀ st ∈ i.state, (a.task t).state = st) : Parked (a.push i t) :=
  h.insert (List.perm_append_singleton t _) ht hi hst

theorem Parked.modTask (h : Parked a) {t : TaskId} {f : TaskCore → TaskCore}
    (hf : (∀ i, t ∉ a.queue i) ∨ (f (a.task t)).state = (a.task t).state) : Parked (a.modTask t f) :=
  { h with
    state := fun i u hu st hs => by
      simp only [AbsKernel.modTask, Function.update_apply]
      split
      · rename_i e; subst e
        rcases hf with hf | hf
        · exact absurd hu (hf i)
        · exact hf.trans (h.state i u hu st hs)
      · exact h.state i u hu st hs }

/-! ## The switch -/

theorem Parked.dispatch (h : Parked a) {t : TaskId} (ht : ∀ i, t ∉ a.queue i)
    (hi : t = a.idleTask → a.queue .readyqueue = []) : Good (a.dispatch t) where
  toParked := { h.modTask (f := fun c => { c with state := .run }) (.inl ht) with }
  current := ht
  run := by simp [AbsKernel.dispatch, setState, AbsKernel.modTask]
  idleLast := hi

theorem Parked.schedNextRr (h : Parked a) : Good a.schedNextRr := by
  unfold AbsKernel.schedNextRr nextTask
  cases hq : a.queue .readyqueue with
  | nil => exact h.dispatch h.idle fun _ => hq
  | cons t ts =>
    refine (h.sublist (pop_sublist hq)).dispatch (h.toApart.pop hq) fun (e : t = a.idleTask) => ?_
    exact absurd (by rw [hq, e]; exact List.mem_cons_self) (h.idle .readyqueue)

theorem Good.forceTaskSwitch (h : Good a) (hi : a.current ≠ a.idleTask) : Good a.forceTaskSwitch := by
  have h1 : Parked (a.setState a.current .ready) := h.toParked.modTask (.inl h.current)
  refine (h1.push (i := .readyqueue) h.current hi fun st hs => ?_).schedNextRr
  cases hs
  simp [setState, AbsKernel.modTask]

theorem Good.clock (h : Good a) : Good a.clock := by
  unfold AbsKernel.clock
  split
  · exact { h with }
  · split
    · exact { h with }
    · rename_i hq
      exact h.forceTaskSwitch fun e => hq (h.idleLast e)

theorem Good.leave (h : Good a) (hi : a.current ≠ a.idleTask) : Good a.leave :=
  (h.toParked.push h.current hi (by simp [Queue.state])).schedNextRr

/-! ## Calls that keep the current task -/

theorem Good.sublist (h : Good a) {q : Queue → List TaskId} (hs : ∀ i, (q i).Sublist (a.queue i)) :
    Good { a with queue := q } where
  toParked := h.toParked.sublist hs
  current i hm := h.current i ((hs i).subset hm)
  run := h.run
  idleLast e := by
    have := hs .readyqueue
    rwa [h.idleLast e, List.sublist_nil] at this

theorem Good.insert (h : Good a) {i : Queue} {t : TaskId} {xs : List TaskId} (hp : xs.Perm (t :: a.queue i))
    (ht : ∀ j, t ∉ a.queue j) (hc : a.current ≠ t) (hi : t ≠ a.idleTask) (hci : a.current ≠ a.idleTask)
    (hst : ∀ st ∈ i.state, (a.task t).state = st) : Good (a.setQueue i xs) where
  toParked := h.toParked.insert hp ht hi hst
  current j hm := by
    simp only [setQueue, Function.update_apply] at hm
    split at hm
    · rcases List.mem_cons.mp (hp.mem_iff.mp hm) with e | hm
      · exact hc e
      · exact h.current i hm
    · exact h.current j hm
  run := h.run
  idleLast e := absurd e hci

theorem Good.push (h : Good a) {i : Queue} {t : TaskId} (ht : ∀ j, t ∉ a.queue j) (hc : a.current ≠ t)
    (hi : t ≠ a.idleTask) (hci : a.current ≠ a.idleTask) (hst : ∀ st ∈ i.state, (a.task t).state = st) :
    Good (a.push i t) :=
  h.insert (List.perm_append_singleton t _) ht hc hi hci hst

theorem Good.modTask (h : Good a) {t : TaskId} {f : TaskCore → TaskCore}
    (hf : ((∀ i, t ∉ a.queue i) ∧ a.current ≠ t) ∨ (f (a.task t)).state = (a.task t).state) :
    Good (a.modTask t f) :=
  { h with
    toParked := h.toParked.modTask (hf.imp_left And.left)
    run := by
      simp only [AbsKernel.modTask, Function.update_apply]
      split
      · rename_i e; subst e
        exact (hf.resolve_left fun hn => hn.2 rfl).trans h.run
      · exact h.run }

theorem Good.setHeapPointer (h : Good a) (hp : Nat) : Good (a.setHeapPointer hp) := h.modTask (.inr rfl)

theorem forkChild_sublist {child : TaskId} {rest : List TaskId} (hq : a.queue .freequeue = child :: rest)
    (tab : SemTable) (i : Queue) : ((a.forkChild child rest tab).queue i).Sublist (a.queue i) := by
  have hs := pop_sublist hq i
  cases i with
  | blocked tab' k =>
    simp only [forkChild, resetSemafors, copyTask]
    split
    · exact List.nil_sublist _
    · exact hs
  | _ => exact hs

theorem forkChild_not_mem (h : Apart a.queue) {child : TaskId} {rest : List TaskId}
    (hq : a.queue .freequeue = child :: rest) (tab : SemTable) (i : Queue) :
    child ∉ (a.forkChild child rest tab).queue i := by
  have := h.pop hq i
  cases i with
  | blocked tab' k =>
    simp only [forkChild, resetSemafors, copyTask]
    split
    · exact List.not_mem_nil
    · exact this
  | _ => exact this

theorem forkChild_task {child : TaskId} (hc : a.current ≠ child) {rest : List TaskId} {tab : SemTable} :
    (a.forkChild child rest tab).task a.current = a.task a.current := by
  simp [forkChild, resetSemafors, copyTask, setQueue, hc]

theorem threadChild_task {child : TaskId} (hc : a.current ≠ child) {rest : List TaskId} :
    (a.threadChild child rest).task a.current = a.task a.current := by
  simp [threadChild, AbsKernel.modTask, copyTask, setQueue, hc]

theorem Good.child_ne (h : Good a) {i : Queue} {child : TaskId} {rest : List TaskId}
    (hq : a.queue i = child :: rest) : a.current ≠ child ∧ child ≠ a.idleTask :=
  ⟨fun e => h.current i (by rw [hq, e]; exact List.mem_cons_self),
    fun e => h.idle i (by rw [hq, e]; exact List.mem_cons_self)⟩

theorem Good.forkChild (h : Good a) {child : TaskId} {rest : List TaskId} (hq : a.queue .freequeue = child :: rest)
    (tab : SemTable) : Good (a.forkChild child rest tab) := by
  have h1 : Good { a with queue := (a.forkChild child rest tab).queue } := h.sublist (forkChild_sublist hq tab)
  have h2 := h1.modTask (t := child) (f := fun _ => { a.task a.current with dirPagesBaseAddr := some child.val })
    (.inl ⟨forkChild_not_mem h.toApart hq tab, (h.child_ne hq).1⟩)
  exact { h2 with }

theorem Good.fork (h : Good a) (hci : a.current ≠ a.idleTask) {r : Int × AbsKernel} (hr : a.fork = some r) :
    Good r.2 := by
  unfold AbsKernel.fork at hr
  cases hq : a.queue .freequeue with
  | nil => rw [hq] at hr; cases hr; exact h
  | cons child rest =>
    obtain ⟨hc, hi⟩ := h.child_ne hq
    rw [hq] at hr
    obtain ⟨tab, -, hr⟩ := Option.bind_eq_some_iff.mp hr
    have hn := forkChild_not_mem h.toApart hq tab
    have h1 : ∀ mm, Good ((a.forkChild child rest tab).setMm mm) := fun mm => { h.forkChild hq tab with }
    dsimp only at hr
    rcases hal : forkAllocData child.val numPagData 0 a.mm with ⟨_ | _, mm⟩
    · rw [hal] at hr; cases hr
      exact (h1 mm).push hn hc hi hci (by simp [Queue.state])
    · rw [hal] at hr
      obtain ⟨pt, -, hr⟩ := Option.bind_eq_some_iff.mp hr
      obtain ⟨mm, -, hr⟩ := Option.bind_eq_some_iff.mp hr
      cases hr
      have h2 := (h1 mm).modTask (t := child) (f := fun c => { c with PID := a.globalPID + 1, state := .ready })
        (.inl ⟨hn, hc⟩)
      have h3 := h2.push (i := .readyqueue) hn hc hi hci (by simp [Queue.state, AbsKernel.modTask])
      exact { h3 with }

theorem Good.exit (h : Good a) (hci : a.current ≠ a.idleTask) {b : AbsKernel} (hb : a.exit = some b) : Good b := by
  obtain ⟨pt, -, hb⟩ := Option.bind_eq_some_iff.mp hb
  obtain ⟨⟨hp, mm⟩, -, hb⟩ := Option.bind_eq_some_iff.mp hb
  cases hb
  have h1 : Good (a.setMm mm) := { h with }
  exact ((h1.setHeapPointer hp).modTask (t := a.current) (f := fun c => { c with PID := -1 }) (.inr rfl)).leave hci

theorem Good.threadExit (h : Good a) (hci : a.current ≠ a.idleTask) {b : AbsKernel} (hb : a.threadExit = some b) :
    Good b := by
  obtain ⟨pt, -, hb⟩ := Option.bind_eq_some_iff.mp hb
  cases hb
  have h1 : Good (a.setMm (releasePage pt a.mm ((a.task a.current).heapPointerProc / pageSize))) := { h with }
  exact (h1.setHeapPointer _).leave hci

theorem Good.threadChild (h : Good a) {child : TaskId} {rest : List TaskId}
    (hq : a.queue .freequeue = child :: rest) : Good (a.threadChild child rest) := by
  have hn := h.toApart.pop hq
  have hc := (h.child_ne hq).1
  have h1 : Good ((a.setQueue .freequeue rest).copyTask child (a.task a.current).dirPagesBaseAddr) :=
    (h.sublist (pop_sublist hq)).modTask
      (f := fun _ => { a.task a.current with dirPagesBaseAddr := (a.task a.current).dirPagesBaseAddr }) (.inl ⟨hn, hc⟩)
  have h2 := h1.modTask (f := fun c => { c with TID := a.globalTID + 1, state := .ready }) (.inl ⟨hn, hc⟩)
  exact { h2 with }

theorem Good.threadCreate (h : Good a) (hci : a.current ≠ a.idleTask) {f p : UInt32} {r : Int × AbsKernel}
    (hr : a.threadCreate f p = some r) : Good r.2 := by
  unfold AbsKernel.threadCreate at hr
  cases hq : a.queue .freequeue with
  | nil => rw [hq] at hr; cases hr; exact h
  | cons child rest =>
    obtain ⟨hc, hi⟩ := h.child_ne hq
    have hn := h.toApart.pop hq
    have h1 : ∀ mm hp, Good (((a.threadChild child rest).setMm mm).setHeapPointer hp) := fun mm hp =>
      Good.setHeapPointer (a := (a.threadChild child rest).setMm mm) { h.threadChild hq with } hp
    rw [hq] at hr
    dsimp only at hr
    split at hr
    · cases hr; exact h.threadChild hq
    obtain ⟨pt, -, hr⟩ := Option.bind_eq_some_iff.mp hr
    split at hr
    · obtain ⟨mm, -, hr⟩ := Option.bind_eq_some_iff.mp hr
      cases hr
      refine (h1 mm _).push hn hc hi hci fun st hs => ?_
      cases hs
      simp [AbsKernel.setHeapPointer, AbsKernel.setMm, AbsKernel.threadChild, AbsKernel.modTask, copyTask, setQueue,
        hc.symm]
    · obtain ⟨⟨hp, mm⟩, -, hr⟩ := Option.bind_eq_some_iff.mp hr
      cases hr
      exact (h1 mm hp).push hn hc hi hci (by simp [Queue.state])

theorem Good.sbrk (h : Good a) {size : Int} {b : AbsKernel} (hb : a.sbrk size = some b) : Good b := by
  unfold AbsKernel.sbrk at hb
  dsimp only at hb
  split at hb
  · cases hb; exact h
  · obtain ⟨pt, -, hb⟩ := Option.bind_eq_some_iff.mp hb
    obtain ⟨⟨_, hp, mm⟩, -, hb⟩ := Option.bind_eq_some_iff.mp hb
    cases hb
    have h1 : Good (a.setMm mm) := { h with }
    exact h1.setHeapPointer hp

/-! ## Semaphores -/

theorem Good.semCreate (h : Good a) {value : Int} {r : Int × AbsKernel} (hr : a.semCreate value = some r) :
    Good r.2 := by
  obtain ⟨tab, -, hr⟩ := Option.bind_eq_some_iff.mp hr
  split at hr <;> cases hr
  · refine { h.sublist (q := Function.update a.queue _ []) fun j => ?_ with }
    rw [Function.update_apply]
    split
    · exact List.nil_sublist _
    · exact List.Sublist.refl _
  · exact h

theorem Good.addCount (h : Good a) (tab : SemTable) (i : Fin numSem) (d : Int) : Good (a.addCount tab i d) :=
  { h with }

theorem Good.block (h : Good a) (hci : a.current ≠ a.idleTask) (tab : SemTable) (i : Fin numSem) :
    Good (a.block tab i) := by
  have h1 : Parked (a.setState a.current .blocked) := h.toParked.modTask (.inl h.current)
  refine (h1.insert (i := .blocked tab i) (List.Perm.refl _) h.current hci fun st hs => ?_).schedNextRr
  cases hs
  simp [setState, AbsKernel.modTask]

theorem Good.wake (h : Good a) (hci : a.current ≠ a.idleTask) {tab : SemTable} {i : Fin numSem} {b : AbsKernel}
    (hb : a.wake tab i = some b) : Good b := by
  unfold AbsKernel.wake at hb
  split at hb
  · rename_i t ts hq
    cases hb
    obtain ⟨hc, hi⟩ := h.child_ne hq
    have hn := h.toApart.pop hq
    have h1 : Good ((a.setQueue (.blocked tab i) ts).setState t .ready) :=
      (h.sublist (pop_sublist hq)).modTask (.inl ⟨hn, hc⟩)
    refine h1.insert (i := .readyqueue) (List.Perm.refl _) hn hc hi hci fun st hs => ?_
    cases hs
    simp [setState, AbsKernel.modTask]
  · cases hb

theorem Good.wakeAll (hci : a.current ≠ a.idleTask) (tab : SemTable) (i : Fin numSem) (h : Good a) :
    Good (a.wakeAll tab i) := by
  generalize hn : a.queue (.blocked tab i) = ts
  induction ts generalizing a with
  | nil => rw [wakeAll_nil hn]; exact h
  | cons t ts ih =>
    rw [← wakeAll_cons hn]
    obtain ⟨hc, hi⟩ := h.child_ne hn
    have ho := h.toApart.pop hn
    have h1 : Good ((a.setQueue (.blocked tab i) ts).setState t .ready) :=
      (h.sublist (pop_sublist hn)).modTask (.inl ⟨ho, hc⟩)
    have h2 := h1.push (i := .readyqueue) ho hc hi hci fun st hs => by
      cases hs; simp [setState, AbsKernel.modTask]
    exact ih hci h2 (by simp [AbsKernel.push, setState, AbsKernel.modTask, setQueue])

/-! ## Steps -/

theorem Good.step (h : Good a) {ok : Bool} {op : Kernel.Op} {b : AbsKernel} (hb : a.step ok op = some b) : Good b := by
  unfold AbsKernel.step at hb
  split at hb
  · cases hb
  rename_i hidle
  cases op <;> simp only [AbsKernel.handle] at hb
  case clock => cases hb; exact h.clock
  all_goals have hci : a.current ≠ a.idleTask := fun e => hidle ⟨by simp, e.symm⟩
  case yield => cases hb; exact h.forceTaskSwitch hci
  case exit => exact h.exit hci hb
  case fork =>
    obtain ⟨r, hr, rfl⟩ := Option.map_eq_some_iff.mp hb
    exact h.fork hci hr
  case threadCreate =>
    split at hb
    · obtain ⟨r, hr, rfl⟩ := Option.map_eq_some_iff.mp hb
      exact h.threadCreate hci hr
    · cases hb; exact h
  case threadExit => exact h.threadExit hci hb
  case sbrk => exact h.sbrk hb
  case semCreate =>
    obtain ⟨r, hr, rfl⟩ := Option.map_eq_some_iff.mp hb
    exact h.semCreate hr
  case semWait =>
    obtain ⟨_ | ⟨tab, i⟩, -, hb⟩ := Option.bind_eq_some_iff.mp hb
    · cases hb; exact h
    · dsimp only at hb
      split at hb <;> cases hb
      · exact (h.addCount tab i (-1)).block hci tab i
      · exact h.addCount tab i (-1)
  case semSignal =>
    obtain ⟨_ | ⟨tab, i⟩, -, hb⟩ := Option.bind_eq_some_iff.mp hb
    · cases hb; exact h
    · dsimp only at hb
      split at hb
      · exact (h.addCount tab i 1).wake hci hb
      · cases hb; exact h.addCount tab i 1
  case semDestroy =>
    obtain ⟨_ | ⟨tab, i⟩, -, hb⟩ := Option.bind_eq_some_iff.mp hb
    · cases hb; exact h
    · cases hb
      exact { h.wakeAll hci tab i with }

end

end AbsKernel

end ZeosSOA.Sysenter
