import ZeosSOA.Sysenter.Sched

/-!
# ZeOSSysenter: sys.c, processes, threads and heap

Each call returns its value and the kernel after it; `none` is a call that never comes
back (a page fault in kernel mode, a null list pointer, a loop without end). Code that
follows a task switch belongs to the task that is switched to. Loops with a pointer as
counter take as fuel a bound on their rounds: a 32-bit pointer moved by whole pages is
back where it was after `2^20` of them.
-/

namespace ZeosSOA.Sysenter

open Intrusive

/-! ## access_ok -/

inductive AccessType where
  | verifyRead
  | verifyWrite
  deriving DecidableEq

/-- The `case VERIFY_WRITE` falls through into the `default` of the switch. -/
def accessOk (type : AccessType) (addr : UInt32) (size : Nat) (task : Option TaskStruct) : Bool :=
  let addrIni := addr.toNat >>> 12
  let addrFin := ((addr.toNat + size) % 2 ^ 32) >>> 12
  if addrFin < addrIni then false
  else if type = .verifyWrite ∧ addrIni ≥ userFirstPage + numPagCode ∧
      addrFin ≤ userFirstPage + numPagCode + numPagData then true
  else if addrIni ≥ userFirstPage ∧ addrFin ≤ userFirstPage + numPagCode + numPagData then true
  else match task with
    | some t => addrIni ≥ t.heapStartProc >>> 12 ∧ addrFin ≤ t.heapEndProc >>> 12
    | none => false

/-! ## Page-table work of the system calls -/

/-- Rounds after which a loop that moves a pointer by `PAGE_SIZE` repeats itself. -/
abbrev pointerRounds : Nat := 2 ^ 20 + 1

def addPage (p : Nat) : Nat := (p + pageSize) % 2 ^ 32

def subPage (p : Nat) : Nat := (p + 2 ^ 32 - pageSize) % 2 ^ 32

def releaseData (pt n : Nat) (m : Mm) : Mm :=
  (List.range n).foldl (fun m i => releasePage pt m (pagLogInitData + i)) m

/-- `while (heap_pointer_proc < heap_start_proc)`, as it stands in `sys_exit` and `sys_threadCreate`. -/
def releaseHeap (pt heapStart : Nat) : Nat → Nat → Mm → Option (Nat × Mm)
  | 0, _, _ => none
  | fuel + 1, hp, m =>
    if hp < heapStart then releaseHeap pt heapStart fuel (subPage hp) (releasePage pt m (hp / pageSize))
    else some (hp, m)

/-- The loop ends at once: its condition has the two pointers the wrong way round. -/
theorem releaseHeap_of_le {pt heapStart hp : Nat} (h : heapStart ≤ hp) (m : Mm) :
    releaseHeap pt heapStart pointerRounds hp m = some (hp, m) :=
  if_neg (Nat.not_lt.mpr h)

theorem releaseHeap_keeps {pt heapStart hp hp' : Nat} {m m' : Mm} (h : heapStart ≤ hp)
    (hrel : releaseHeap pt heapStart pointerRounds hp m = some (hp', m')) : hp = hp' ∧ m = m' := by
  rw [releaseHeap_of_le h] at hrel
  exact Prod.mk.inj (Option.some.inj hrel)

/-- The allocation loop of `sys_fork`, `n` rounds from `pag` on. -/
def forkAllocData (pt : Nat) : Nat → Nat → Mm → Bool × Mm
  | 0, _, m => (true, m)
  | n + 1, pag, m =>
    let (newPhPag, m) := m.allocFrame
    if newPhPag ≠ -1 then forkAllocData pt n (pag + 1) (m.setSsPag pt (pagLogInitData + pag) newPhPag)
    else (false, releaseData pt pag m)

def forkShareSystemCode (processPT parentPT : Nat) (m : Mm) : Mm :=
  let m := (List.range numPagKernel).foldl (sharePage processPT parentPT) m
  (List.range numPagCode).foldl (fun m pag => sharePage processPT parentPT m (pagLogInitCode + pag)) m

/-- One round of the data copy: the child's page is mapped for a moment in the parent's table. -/
def forkCopyPage (processPT parentPT : Nat) (m : Mm) (pag : Nat) : Option Mm := do
  let m := m.setSsPag parentPT (pag + numPagData) (m.getFrame processPT pag)
  let src ← m.translate parentPT pag
  let dst ← m.translate parentPT (pag + numPagData)
  return (m.copyFrame src dst).delSsPag parentPT (pag + numPagData)

def forkCopyData (processPT parentPT : Nat) (m : Mm) : Option Mm :=
  (List.range' (numPagKernel + numPagCode) numPagData).foldlM (forkCopyPage processPT parentPT) m

/-- The two nested loops of the heap copy: `i` starts again at the first data page when it has
passed the last one. The destination of `copy_data` is not in the parent's table; the processor
still has the translation that the data copy left, to the child's page `i`. Only here does the model
go by a translation that was kept: all other accesses go through the tables as they are. -/
def forkCopyHeap (processPT parentPT heapPointer : Nat) : Nat → Nat → Nat → Mm → Option Mm
  | 0, _, _, m => some m
  | fuel + 1, pointer, i, m =>
    if pointer < heapPointer then do
      let i := if i < numPagKernel + numPagCode + numPagData then i else numPagKernel + numPagCode
      let m := m.setSsPag processPT (i + numPagData) (m.getFrame parentPT (pointer / pageSize))
      let src ← m.translate parentPT i
      let m := (m.copyFrame src (m.getFrame processPT i)).delSsPag parentPT (i + numPagData)
      forkCopyHeap processPT parentPT heapPointer fuel (pointer + pageSize) (i + 1) m
    else some m

def forkMap (processPT parentPT heapStart heapPointer : Nat) (m : Mm) : Option Mm := do
  let m ← forkCopyData processPT parentPT (forkShareSystemCode processPT parentPT m)
  forkCopyHeap processPT parentPT heapPointer heapPointer heapStart (numPagKernel + numPagCode) m

/-- `while (heap_pointer_proc > old_pointer)`, after a failed allocation. -/
def sbrkRollback (pt oldPointer : Nat) : Nat → Nat → Mm → Option (Nat × Mm)
  | 0, _, _ => none
  | fuel + 1, hp, m =>
    if hp > oldPointer then
      sbrkRollback pt oldPointer fuel (subPage hp) (releasePage pt m (subPage hp / pageSize))
    else some (hp, m)

/-- The growth loop; `false` when `sys_sbrk` returns `NULL`. -/
def sbrkGrow (pt oldPointer newPointer : Nat) : Nat → Nat → Mm → Option (Bool × Nat × Mm)
  | 0, _, _ => none
  | fuel + 1, hp, m =>
    if hp < newPointer then
      if hp % pageSize = 0 then
        let (newPhPg, m) := m.allocFrame
        if newPhPg = -1 then do
          let (hp, m) ← sbrkRollback pt oldPointer pointerRounds hp m
          return (false, hp, m)
        else sbrkGrow pt oldPointer newPointer fuel (addPage hp) (m.setSsPag pt (hp / pageSize) newPhPg)
      else sbrkGrow pt oldPointer newPointer fuel (addPage hp) m
    else some (true, hp, m)

/-- The frame is looked up after its page has been removed. -/
def sbrkDelPage (pt : Nat) (m : Mm) (page : Nat) : Mm :=
  let m := m.delSsPag pt page
  m.freeFrame (m.getFrame pt page)

def sbrkShrink (pt newPointer : Nat) : Nat → Nat → Mm → Option (Nat × Mm)
  | 0, _, _ => none
  | fuel + 1, hp, m =>
    if hp > newPointer then
      let m := if hp % pageSize = 0 ∧ hp > dataEnd then sbrkDelPage pt m (hp / pageSize) else m
      sbrkShrink pt newPointer fuel (subPage hp) m
    else some (hp, m)

/-- `sys_sbrk` after its first line: the returned pointer, the heap pointer and the memory. -/
def sbrkHeap (pt heapStart oldPointer : Nat) (size : Int) (m : Mm) : Option (Nat × Nat × Mm) := do
  let newPointer := ((oldPointer + size) % 2 ^ 32).toNat
  if newPointer < initHeap then return (0, oldPointer, m)
  if size > 0 then
    let pLogNec := (toInt32 (size + pageSize - 1)).tdiv pageSize
    let paginasReservadas := (toInt32 (oldPointer - heapStart)).tdiv pageSize
    if numPagCode + 2 * numPagData + numPagKernel + pLogNec + paginasReservadas > totalPages then
      return (0, oldPointer, m)
    let (ok, hp, m) ← sbrkGrow pt oldPointer newPointer pointerRounds oldPointer m
    return (if ok then oldPointer else 0, hp, m)
  else
    let (hp, m) ← sbrkShrink pt newPointer pointerRounds oldPointer m
    return (oldPointer, hp, m)

namespace Kernel

def setMm (s : Kernel) (m : Mm) : Kernel := { s with mm := m }

def setHeapPointer (s : Kernel) (t : TaskId) (hp : Nat) : Kernel :=
  s.modTask t fun c => { c with heapPointerProc := hp }

@[simp] theorem setMm_task (s : Kernel) (m : Mm) : (s.setMm m).task = s.task := rfl

@[simp] theorem setMm_current (s : Kernel) (m : Mm) : (s.setMm m).current = s.current := rfl

@[simp] theorem setHeapPointer_current (s : Kernel) (t : TaskId) (hp : Nat) :
    (s.setHeapPointer t hp).current = s.current := rfl

@[simp] theorem setHeapPointer_mm (s : Kernel) (t : TaskId) (hp : Nat) : (s.setHeapPointer t hp).mm = s.mm := rfl

/-- `copy_data` of the whole task union: the task struct, its anchor included. -/
def copyTaskUnion (s : Kernel) (src dst : TaskId) : Kernel :=
  { s with
    task := Function.update s.task dst (s.task src)
    links := (s.links.setNext (.anchor dst) (s.links.next (.anchor src))).setPrev (.anchor dst)
      (s.links.prev (.anchor src)) }

/-! ## The calls -/

def sysFork (s : Kernel) (ebp : Nat) : Option (Int × Kernel) := do
  if s.listEmpty .freequeue then return (-ENOMEM, s)
  let lhcurrent ← s.listFirst .freequeue
  let s ← s.listDel lhcurrent
  let uchild ← listHeadToTaskStruct lhcurrent
  let s := s.copyTaskUnion s.current uchild
  let tab ← (s.task uchild).semafors
  let s := s.resetSemafors tab
  let s := s.allocateDIR uchild
  let processPT ← s.getPT uchild
  match forkAllocData processPT numPagData 0 s.mm with
  | (false, mm) =>
    let s ← (s.setMm mm).listAddTail lhcurrent .freequeue
    return (-EAGAIN, s)
  | (true, mm) =>
    let parentPT ← s.getPT s.current
    let mm ← forkMap processPT parentPT (s.task s.current).heapStartProc
      (s.task s.current).heapPointerProc mm
    let s := s.setMm mm
    let s := { s with globalPID := s.globalPID + 1 }
    -- the child's stack starts with ret_from_fork, two words under the parent's frame
    let s := s.modTask uchild fun c => { c with
      PID := s.globalPID, state := .ready, registerEsp := some ⟨uchild, ebp - 4⟩ }
    let s := (s.setInterrupted uchild false).initStats uchild
    let s ← s.listAddTail (.anchor uchild) .readyqueue
    return (s.globalPID, s)

def sysExit (s : Kernel) (ebp : Nat) : Option Kernel := do
  let processPT ← s.getPT s.current
  let mm := releaseData processPT numPagData s.mm
  let (hp, mm) ← releaseHeap processPT (s.task s.current).heapStartProc pointerRounds
    (s.task s.current).heapPointerProc mm
  let s := (s.setMm mm).setHeapPointer s.current hp
  let s ← s.listAddTail (.anchor s.current) .freequeue
  let s := s.modTask s.current fun c => { c with PID := -1 }
  s.schedNextRr ebp

def sysYield (s : Kernel) (ebp : Nat) : Option Kernel := s.forceTaskSwitch ebp

def sysThreadExit (s : Kernel) (ebp : Nat) : Option Kernel := do
  let processPT ← s.getPT s.current
  let hp := (s.task s.current).heapPointerProc
  let s := (s.setMm (releasePage processPT s.mm (hp / pageSize))).setHeapPointer s.current (subPage hp)
  let s ← s.listAddTail (.anchor s.current) .freequeue
  s.schedNextRr ebp

/-- The three checks at the start of `sys_threadCreate`. -/
def threadArgsOk (s : Kernel) (function parameter wrapp : UInt32) : Bool :=
  let c := some (s.task s.current)
  accessOk .verifyRead function 4 c && (parameter = 0 || accessOk .verifyRead parameter 4 c) &&
    accessOk .verifyRead wrapp 4 c

/-- The three words on top of the new user stack. -/
def writeUstack (m : Mm) (pt page : Nat) (function parameter : UInt32) : Option Mm := do
  let m ← m.writeWord pt page 1021 0x777
  let m ← m.writeWord pt page 1022 function
  m.writeWord pt page 1023 parameter

def sysThreadCreate (s : Kernel) (function parameter wrapp : UInt32) : Option (Int × Kernel) := do
  if ¬ s.threadArgsOk function parameter wrapp then return (-EFAULT, s)
  if s.listEmpty .freequeue then return (-ENOMEM, s)
  let lhcurrent ← s.listFirst .freequeue
  let s ← s.listDel lhcurrent
  let uchild ← listHeadToTaskStruct lhcurrent
  let s := s.copyTaskUnion s.current uchild
  let s := { s with globalTID := s.globalTID + 1 }
  let s := s.modTask uchild fun c => { c with
    TID := s.globalTID, PID := (s.task s.current).PID, state := .ready
    semafors := (s.task s.current).semafors }
  let pagHeap := (s.task s.current).heapPointerProc / pageSize
  -- the task struct stays out of every queue here
  if pagHeap > totalPages then return (-1, s)
  let processPT ← s.getPT uchild
  let (newPhPag, mm) := s.mm.allocFrame
  if newPhPag ≠ -1 then
    let s := s.setMm (mm.setSsPag processPT pagHeap newPhPag)
    let s := s.setHeapPointer s.current (addPage (s.task s.current).heapPointerProc)
    let currentPT ← s.getPT s.current
    let mm ← writeUstack s.mm currentPT pagHeap function parameter
    let s := s.setMm mm
    -- the copied stack page, set up to leave the system call at wrapp
    let s := s.modTask uchild fun c => { c with
      ustack := pagHeap <<< 12, registerEsp := some ⟨uchild, 4 * (kernelStackSize - 18)⟩ }
    let s := (s.setInterrupted uchild false).initStats uchild
    let s ← s.listAddTail (.anchor uchild) .readyqueue
    return ((s.task uchild).TID, s)
  else
    let (hp, mm) ← releaseHeap processPT (s.task s.current).heapStartProc pointerRounds
      (s.task s.current).heapPointerProc mm
    let s := (s.setMm mm).setHeapPointer s.current hp
    let s ← s.listAddTail lhcurrent .freequeue
    return (-EAGAIN, s)

/-- `sys_sbrk`, with the integer value of the returned pointer. -/
def sysSbrk (s : Kernel) (size : Int) : Option (Nat × Kernel) := do
  let c := s.task s.current
  if size = 0 then return (c.heapPointerProc, s)
  let pt ← s.getPT s.current
  let (ret, hp, mm) ← sbrkHeap pt c.heapStartProc c.heapPointerProc size s.mm
  return (ret, (s.setMm mm).setHeapPointer s.current hp)

end Kernel

end ZeosSOA.Sysenter
