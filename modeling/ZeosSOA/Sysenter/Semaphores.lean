import ZeosSOA.Sysenter.Live

/-!
# ZeOSSysenter: who touches a semaphore

But for `sys_fork`, a step changes the entry of a semaphore, or the tasks that wait on it,
only when it makes a semaphore of a free entry or when its checks let the id through.
-/

namespace ZeosSOA.Sysenter.AbsKernel

structure Keeps (a b : AbsKernel) (tab : SemTable) (i : Fin numSem) : Prop where
  sem : b.sem tab i = a.sem tab i
  waiting : b.queue (.blocked tab i) = a.queue (.blocked tab i)

/-- The call passes the checks and works on the entry. -/
def Uses (a : AbsKernel) (op : Kernel.Op) (tab : SemTable) (i : Fin numSem) : Prop :=
  ∃ k, (op = .semWait k ∨ op = .semSignal k ∨ op = .semDestroy k) ∧ a.semCheck k = some (.accepted tab i)

section
variable {a b c : AbsKernel} {tab : SemTable} {i : Fin numSem}

theorem Keeps.refl (a : AbsKernel) (tab : SemTable) (i : Fin numSem) : Keeps a a tab i := ⟨rfl, rfl⟩

theorem Keeps.schedNextRr (h : Keeps a b tab i) : Keeps a b.schedNextRr tab i :=
  ⟨by rw [schedNextRr_sem]; exact h.sem, by rw [schedNextRr_blocked]; exact h.waiting⟩

theorem keeps_clock (a : AbsKernel) : Keeps a a.clock tab i := by
  unfold AbsKernel.clock
  split
  · exact ⟨rfl, rfl⟩
  · split
    · exact ⟨rfl, rfl⟩
    · exact Keeps.schedNextRr ⟨rfl, rfl⟩

theorem keeps_leave (h : Keeps a b tab i) : Keeps a b.leave tab i := Keeps.schedNextRr ⟨h.sem, h.waiting⟩

theorem keeps_threadCreate {f p : UInt32} {r : Int × AbsKernel} (hr : a.threadCreate f p = some r) :
    Keeps a r.2 tab i := by
  rcases threadCreate_cases hr with ⟨-, rfl⟩ | ⟨child, rest, -, ⟨-, rfl⟩ | ⟨-, pt, -, ⟨mm, -, -, rfl⟩ |
    ⟨hp, mm, -, -, rfl⟩⟩⟩ <;> exact ⟨rfl, rfl⟩

theorem keeps_set {tab' : SemTable} {j : Fin numSem} (h : (tab, i) ≠ (tab', j)) (v : SemT) (ts : List TaskId) :
    Keeps a ((a.setSem tab' j v).setQueue (.blocked tab' j) ts) tab i := by
  obtain rfl : tab' = tab := by cases tab; cases tab'; rfl
  have hij : i ≠ j := fun e => h (by rw [e])
  exact ⟨by simp [setSem, setQueue, hij], by simp [setSem, setQueue, hij]⟩

theorem keeps_addCount {tab' : SemTable} {j : Fin numSem} (h : (tab, i) ≠ (tab', j)) (d : Int) :
    Keeps a (a.addCount tab' j d) tab i := by
  have := keeps_set (a := a) h { a.sem tab' j with count := toInt32 ((a.sem tab' j).count + d) } []
  exact ⟨this.sem, rfl⟩

theorem keeps_sbrk {size : Int} (hb : a.sbrk size = some b) : Keeps a b tab i := by
  unfold AbsKernel.sbrk at hb
  dsimp only at hb
  split at hb
  · cases hb
    exact .refl a tab i
  · obtain ⟨pt, -, hb⟩ := Option.bind_eq_some_iff.mp hb
    obtain ⟨⟨ret, hp, mm⟩, -, hb⟩ := Option.bind_eq_some_iff.mp hb
    cases hb
    exact ⟨rfl, rfl⟩

section
variable {tab' : SemTable} {j : Fin numSem}

theorem blocked_ne (h : (tab, i) ≠ (tab', j)) : Queue.blocked tab i ≠ .blocked tab' j := by
  intro e
  cases e
  exact h rfl

theorem Keeps.block (hk : Keeps a b tab i) (h : (tab, i) ≠ (tab', j)) : Keeps a (b.block tab' j) tab i := by
  apply Keeps.schedNextRr
  exact ⟨hk.sem, by simpa [setQueue, setState, modTask, blocked_ne h] using hk.waiting⟩

theorem Keeps.wake (hk : Keeps a b tab i) (h : (tab, i) ≠ (tab', j)) {b' : AbsKernel} (hb : b.wake tab' j = some b') :
    Keeps a b' tab i := by
  unfold AbsKernel.wake at hb
  split at hb <;> cases hb
  exact ⟨hk.sem, by simpa [setQueue, setState, modTask, blocked_ne h] using hk.waiting⟩

theorem keeps_wakeAll (h : (tab, i) ≠ (tab', j)) : Keeps a ((a.wakeAll tab' j).setSem tab' j freeSem) tab i := by
  refine ⟨(keeps_set (a := a) h freeSem []).sem, ?_⟩
  simp [AbsKernel.wakeAll, setSem, setQueue, blocked_ne h]

end

theorem sem_step {ok : Bool} {op : Kernel.Op} (hb : a.step ok op = some b) (hop : op ≠ .fork) (tab : SemTable)
    (i : Fin numSem) : Keeps a b tab i ∨ ((∃ v, op = .semCreate v) ∧ (a.sem tab i).semid = -1) ∨ a.Uses op tab i := by
  unfold AbsKernel.step at hb
  split at hb
  · cases hb
  rename_i hidle
  cases op <;> simp only [AbsKernel.handle] at hb
  case clock => cases hb; exact .inl (keeps_clock a)
  case yield => cases hb; exact .inl (Keeps.schedNextRr ⟨rfl, rfl⟩)
  case exit =>
    obtain ⟨pt, -, hb⟩ := Option.bind_eq_some_iff.mp hb
    obtain ⟨⟨hp, mm⟩, -, hb⟩ := Option.bind_eq_some_iff.mp hb
    cases hb
    exact .inl (keeps_leave ⟨rfl, rfl⟩)
  case fork => exact absurd rfl hop
  case threadCreate f p w =>
    split at hb
    · obtain ⟨r, hr, rfl⟩ := Option.map_eq_some_iff.mp hb
      exact .inl (keeps_threadCreate hr)
    · cases hb; exact .inl (.refl a tab i)
  case threadExit =>
    obtain ⟨pt, -, hb⟩ := Option.bind_eq_some_iff.mp hb
    cases hb
    exact .inl (keeps_leave ⟨rfl, rfl⟩)
  case sbrk size =>
    exact .inl (keeps_sbrk hb)
  case semCreate v =>
    obtain ⟨r, hr, rfl⟩ := Option.map_eq_some_iff.mp hb
    obtain ⟨tab', -, hr⟩ := Option.bind_eq_some_iff.mp hr
    split at hr
    · rename_i j hj
      cases hr
      by_cases h : (tab, i) = (tab', j)
      · cases h
        exact .inr (.inl ⟨⟨v, rfl⟩, by simpa using List.find?_some hj⟩)
      · exact .inl (keeps_set h _ _)
    · cases hr; exact .inl (.refl a tab i)
  case semWait k =>
    obtain ⟨_ | ⟨tab', j⟩, hchk, hb⟩ := Option.bind_eq_some_iff.mp hb
    · cases hb; exact .inl (.refl a tab i)
    by_cases h : (tab, i) = (tab', j)
    · cases h; exact .inr (.inr ⟨k, .inl rfl, hchk⟩)
    · dsimp only at hb
      split at hb <;> cases hb
      · exact .inl ((keeps_addCount h (-1)).block h)
      · exact .inl (keeps_addCount h (-1))
  case semSignal k =>
    obtain ⟨_ | ⟨tab', j⟩, hchk, hb⟩ := Option.bind_eq_some_iff.mp hb
    · cases hb; exact .inl (.refl a tab i)
    by_cases h : (tab, i) = (tab', j)
    · cases h; exact .inr (.inr ⟨k, .inr (.inl rfl), hchk⟩)
    · dsimp only at hb
      split at hb
      · exact .inl ((keeps_addCount h 1).wake h hb)
      · cases hb; exact .inl (keeps_addCount h 1)
  case semDestroy k =>
    obtain ⟨_ | ⟨tab', j⟩, hchk, hb⟩ := Option.bind_eq_some_iff.mp hb
    · cases hb; exact .inl (.refl a tab i)
    by_cases h : (tab, i) = (tab', j)
    · cases h; exact .inr (.inr ⟨k, .inr (.inr rfl), hchk⟩)
    · cases hb; exact .inl (keeps_wakeAll h)

end

end ZeosSOA.Sysenter.AbsKernel
