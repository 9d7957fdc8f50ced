import ZeosSOA.Gate

/-!
# zeOSpparri: entry.S and sys_call_table.S
-/

namespace ZeosSOA.Pparri

open X86

/-! ## The code -/

/-- `ENOSYS` as `entry.S` defines it for itself. -/
def entryEnosys : UInt32 := 88

def sysCallTable : List Gate.SysFunction :=
  [.sysNiSyscall, .sysExit, .sysFork, .sysNiSyscall, .sysWrite, .sysNiSyscall, .sysNiSyscall, .sysNiSyscall,
    .sysNiSyscall, .sysNiSyscall, .sysGettime, .sysNiSyscall, .sysBlock, .sysUnblock, .sysNiSyscall, .sysNiSyscall,
    .sysNiSyscall, .sysNiSyscall, .sysNiSyscall, .sysNiSyscall, .sysGetpid]

/-- The operands of `SAVE_ALL`, in the order they are pushed in. -/
def saved : List Operand :=
  [.seg .gs, .seg .fs, .seg .es, .seg .ds, .reg .eax, .reg .ebp, .reg .edi, .reg .esi, .reg .ebx, .reg .ecx, .reg .edx]

/-- The text of this kernel. -/
def gateText : Gate.Text where
  saved :=
    { operands := saved
      register := by decide
      nodup := by decide
      size := rfl
      eax := rfl
      args := ⟨_, _, _, rfl⟩ }
  sysCallTable := sysCallTable
  enosys := entryEnosys
  fits := by decide

def syscallHandlerSysenter (l : Gate.Labels) : List Instr := Gate.handler gateText.saved gateText.maxSyscall l

def sysenterErr : List Instr := Gate.sysenterErr entryEnosys

def sysenterFin : List Instr := Gate.sysenterFin gateText.saved

/-- The code holds what is in `entry.S`. -/
structure Linked (c : Code) (l : Gate.Labels) : Prop where
  handler : At c l.handler (syscallHandlerSysenter l) l.callReturn
  behind : At c l.callReturn [.jmp l.sysenterFin] l.sysenterErr
  err : At c l.sysenterErr sysenterErr l.sysenterFin
  fin : ∃ next, At c l.sysenterFin sysenterFin next

theorem Linked.placed {c : Code} {l : Gate.Labels} (x : Linked c l) : Gate.Placed gateText c l :=
  ⟨x.handler, x.behind, x.err, x.fin⟩

end ZeosSOA.Pparri
