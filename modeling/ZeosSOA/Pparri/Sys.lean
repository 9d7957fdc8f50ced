import ZeosSOA.Pparri.Sched

/-!
# zeOSpparri: sys.c, the calls of processes

Each call returns its value and the kernel after it; `none` is a call that never comes back
(a page fault in kernel mode, a null list pointer, a loop without end). Code that follows a
task switch belongs to the task that is switched to. A loop over a list takes as fuel the
number of nodes there are: one that has met so many is going round.
-/

namespace ZeosSOA.Pparri

open Intrusive Mm

/-- The three queues, and of each task the anchor and the head of its kids. -/
abbrev listNodes : Nat := 3 + 2 * nrTasks

/-! ## Page-table work of the system calls -/

/-- `n` rounds of the allocation loop of `sys_fork`. The test `new_ph_pag < 0` is on the address of
the array, so that a failed allocation leaves its -1 there and the loop goes on. -/
def allocFrames : Nat → Mm → List Int × Mm
  | 0, m => ([], m)
  | n + 1, m =>
    let (newPhPag, m) := m.allocFrame
    let (newPhPags, m) := allocFrames n m
    (newPhPag :: newPhPags, m)

/-- User code first, then system code, the page 0 included. -/
def forkInherit (newKidPT dadPT : Nat) (m : Mm) : Mm :=
  let m := (List.range numPagCode).foldl (fun m pag => sharePage newKidPT dadPT m (pagLogInitCode + pag)) m
  (List.range numPagKernel).foldl (sharePage newKidPT dadPT) m

def forkMapData (newKidPT : Nat) (newPhPag : List Int) (m : Mm) : Mm :=
  newPhPag.zipIdx.foldl (fun m x => m.setSsPag newKidPT (pagLogInitData + x.2) x.1) m

abbrev diff : Nat := numPagCode + numPagData + numPagKernel

/-- One round of the data copy: the child's frame is mapped for a moment in the parent's table. -/
def forkCopyPage (dadPT : Nat) (m : Mm) (x : Int × Nat) : Option Mm := do
  let m := m.setSsPag dadPT (x.2 + diff) x.1
  let src ← m.translate dadPT (numPagKernel + x.2)
  let dst ← m.translate dadPT (x.2 + diff)
  return (m.copyFrame src dst).delSsPag dadPT (x.2 + diff)

/-- What `sys_fork` does to the page tables once it has the frames. -/
def forkMap (newKidPT dadPT : Nat) (newPhPag : List Int) (m : Mm) : Option Mm :=
  newPhPag.zipIdx.foldlM (forkCopyPage dadPT) (forkMapData newKidPT newPhPag (forkInherit newKidPT dadPT m))

def releaseData (pt : Nat) (m : Mm) : Mm :=
  (List.range numPagData).foldl (fun m pag => releasePage pt m (pag + pagLogInitData)) m

namespace Kernel

/-- `copy_data` of the whole task union: the task struct, its anchor and the head of its kids
included. -/
def copyTaskUnion (s : Kernel) (src dst : TaskId) : Kernel :=
  { s with
    task := Function.update s.task dst (s.task src)
    links := ((((s.links.setNext (.anchor dst) (s.links.next (.anchor src))).setPrev (.anchor dst)
      (s.links.prev (.anchor src))).setNext (.head (.kids dst)) (s.links.next (.head (.kids src)))).setPrev
      (.head (.kids dst)) (s.links.prev (.head (.kids src)))) }

/-! ## The calls -/

/-- The part of `sys_fork` that gives the child an address space. -/
def forkSpace (s : Kernel) (newKid : TaskId) : Option Kernel := do
  let newPhPag := allocFrames numPagData s.mm
  let newKidPT ← s.getPT newKid
  let dadPT ← s.getPT s.current
  let mm ← forkMap newKidPT dadPT newPhPag.1 newPhPag.2
  return s.setMm mm

/-- `sys_fork` from the moment the child has its address space: the anchor of the child is linked
in the kids of its parent, and then in the readyqueue. -/
def forkStart (s : Kernel) (newKid : TaskId) : Option (Int × Kernel) := do
  let PID := s.sumPID
  let s := s.modTask newKid fun c => { c with
    PID := PID, dad := some s.current, status := .ready, quantum := 1000, pendingUnblocks := 0 }
  let s := { s with sumPID := s.sumPID + 1 }
  let s := s.initListHead (.head (.kids newKid))
  let s ← s.listAddTail (.anchor newKid) (.kids s.current)
  -- the child's stack starts with ret_from_fork
  let s := s.modTask newKid fun c => { c with kernelEsp := some ⟨newKid, 4 * (kernelStackSize - 19)⟩ }
  let s ← s.listAddTail (.anchor newKid) .readyqueue
  return (PID, s)

def sysFork (s : Kernel) : Option (Int × Kernel) := do
  if s.listEmpty .freequeue then return (-ENOMEM, s)
  let getH ← s.listFirst .freequeue
  let s ← s.listDel getH
  let newKid ← listHeadToTaskStruct getH
  let s ← ((s.copyTaskUnion s.current newKid).allocateDIR newKid).forkSpace newKid
  s.forkStart newKid

/-- The loop of `sys_exit` over the kids, with the cursor `e`: its body takes the cursor out of
its list, and then the next one is read from it. -/
def adoptKids : Nat → Kernel → Option ListHead → Option Kernel
  | 0, _, _ => none
  | fuel + 1, s, e => do
    let e ← e
    if e = .head (.kids s.current) then return s
    let idle ← s.idleTask
    let s ← s.listAddTail e (.kids idle)
    let eST ← listHeadToTaskStruct e
    let s := s.modTask eST fun c => { c with dad := some idle }
    let s ← s.listDel e
    adoptKids fuel s (s.links.next e)

/-- `sys_exit` up to the end of that loop, which a null pointer in the head of the kids skips. -/
def leaveKids (s : Kernel) : Option Kernel :=
  match s.listFirst (.kids s.current) with
  | none => some s
  | some e => adoptKids listNodes s (some e)

def sysExit (s : Kernel) (ebp : Nat) : Option Kernel := do
  let curPT ← s.getPT s.current
  let s ← s.leaveKids
  let s ← (s.setMm (releaseData curPT s.mm)).listAddTail (.anchor s.current) .freequeue
  s.schedNextRr ebp

def sysBlock (s : Kernel) (ebp : Nat) : Option Kernel := do
  if (s.task s.current).pendingUnblocks = 0 then
    let s := s.setStatus s.current .blocked
    let s ← s.listAddTail (.anchor s.current) .blocked
    s.scheduler ebp
  else return s.modTask s.current fun c => { c with pendingUnblocks := c.pendingUnblocks - 1 }

/-- The loop of `sys_unblock` up to the first task with the PID; `some none` is its regular end. In
front of a list head `foreign` stands where a task struct has its PID. -/
def findKid (s : Kernel) (pid : Int) (foreign : Queue → Int) : Nat → Option ListHead → Option (Option TaskId)
  | 0, _ => none
  | fuel + 1, e => do
    match ← e with
    | .head i =>
      if i = .kids s.current then return none
      if foreign i = pid then none else s.findKid pid foreign fuel (s.links.next (.head i))
    | .anchor t =>
      if (s.task t).PID = pid then return some t
      s.findKid pid foreign fuel (s.links.next (.anchor t))

def unblockTarget (s : Kernel) (pid : Int) (foreign : Queue → Int) : Option (Option TaskId) :=
  s.findKid pid foreign listNodes (s.listFirst (.kids s.current))

def sysUnblock (s : Kernel) (pid : Int) (foreign : Queue → Int) : Option (Int × Kernel) := do
  match ← s.unblockTarget pid foreign with
  | none => return (-1, s)
  | some e =>
    if (s.task e).status = .blocked then
      let s := s.setStatus e .ready
      let s ← s.listDel (.anchor e)
      let s ← s.listAddTail (.anchor e) .readyqueue
      return (0, s)
    else
      -- the count of the caller, not of the task it wants to wake
      return (0, s.modTask s.current fun c => { c with pendingUnblocks := c.pendingUnblocks + 1 })

theorem forkSpace_some {s s' : Kernel} {newKid : TaskId} (h : s.forkSpace newKid = some s') : ∃ mm pt dad,
    s.getPT newKid = some pt ∧ s.getPT s.current = some dad ∧
    forkMap pt dad (allocFrames numPagData s.mm).1 (allocFrames numPagData s.mm).2 = some mm ∧ s' = s.setMm mm := by
  obtain ⟨pt, hpt, h⟩ := Option.bind_eq_some_iff.mp h
  obtain ⟨dad, hdad, h⟩ := Option.bind_eq_some_iff.mp h
  obtain ⟨mm, hmm, h⟩ := Option.bind_eq_some_iff.mp h
  cases h
  exact ⟨mm, pt, dad, hpt, hdad, hmm, rfl⟩

/-- What the end of `sys_fork` makes of the state. -/
structure Started (s s' : Kernel) (newKid : TaskId) : Prop where
  current : s'.current = s.current
  idleTask : s'.idleTask = s.idleTask
  qticks : s'.qticks = s.qticks
  mm : s'.mm = s.mm
  other : ∀ t, t ≠ newKid → s'.task t = s.task t
  self : s'.task newKid = { s.task newKid with
    PID := s.sumPID, dad := some s.current, status := .ready, quantum := 1000, pendingUnblocks := 0
    kernelEsp := some ⟨newKid, 4 * (kernelStackSize - 19)⟩ }
  links : ∃ l, ZeosSOA.listAddTail (ZeosSOA.initListHead s.links (.head (.kids newKid))) (.anchor newKid)
      (.head (.kids s.current)) = some l ∧ ZeosSOA.listAddTail l (.anchor newKid) (.head .readyqueue) = some s'.links

theorem Started.getPT {s s' : Kernel} {newKid : TaskId} (h : Started s s' newKid) (t : TaskId) : s'.getPT t = s.getPT t := by
  by_cases e : t = newKid
  · rw [e, Kernel.getPT, h.self]
    rfl
  · rw [Kernel.getPT, h.other t e]
    rfl

theorem forkStart_some {s : Kernel} {newKid : TaskId} {r : Int × Kernel} (h : s.forkStart newKid = some r) :
    Started s r.2 newKid := by
  obtain ⟨s1, h1, h⟩ := Option.bind_eq_some_iff.mp h
  obtain ⟨s2, h2, h⟩ := Option.bind_eq_some_iff.mp h
  cases h
  obtain ⟨l1, hl1, rfl⟩ := listAddTail_some h1
  obtain ⟨l2, hl2, rfl⟩ := listAddTail_some h2
  refine ⟨rfl, rfl, rfl, rfl, fun t ht => ?_, ?_, l1, hl1, hl2⟩
  · simp [modTask, initListHead, ht]
  · simp [modTask, initListHead]

theorem sysFork_cases {s : Kernel} {r : Int × Kernel} (h : s.sysFork = some r) :
    s.listEmpty .freequeue = true ∧ r.2 = s ∨
    s.listEmpty .freequeue = false ∧ ∃ newKid l dad mm, s.listFirst .freequeue = some (.anchor newKid) ∧
      ZeosSOA.listDel s.links (.anchor newKid) = some l ∧
      forkMap newKid.val dad (allocFrames numPagData s.mm).1 (allocFrames numPagData s.mm).2 = some mm ∧
      Started ((({ s with links := l }.copyTaskUnion s.current newKid).allocateDIR newKid).setMm mm) r.2 newKid := by
  unfold sysFork at h
  split at h
  · rename_i hempty
    cases h
    exact .inl ⟨hempty, rfl⟩
  · rename_i hempty
    obtain ⟨getH, hfirst, h⟩ := Option.bind_eq_some_iff.mp h
    obtain ⟨s1, h1, h⟩ := Option.bind_eq_some_iff.mp h
    obtain ⟨newKid, hkid, h⟩ := Option.bind_eq_some_iff.mp h
    obtain ⟨s2, h2, h⟩ := Option.bind_eq_some_iff.mp h
    obtain ⟨l, hl, rfl⟩ := listDel_some h1
    obtain ⟨mm, pt, dad, hpt, -, hmm, rfl⟩ := forkSpace_some h2
    cases getH with
    | head i => cases hkid
    | anchor t =>
      obtain rfl := Option.some.inj hkid
      have hdir : (({ s with links := l }.copyTaskUnion s.current t).allocateDIR t).getPT t = some t.val := by
        simp [getPT, allocateDIR, modTask]
      obtain rfl := Option.some.inj (hdir.symm.trans hpt)
      exact .inr ⟨Bool.eq_false_of_not_eq_true hempty, t, l, dad, mm, hfirst, hl, hmm, forkStart_some h⟩

end Kernel

end ZeosSOA.Pparri
