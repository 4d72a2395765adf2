import Kernix.Interrupts.Stubs

namespace Kernix.Syscalls
open Library Interrupts

/-- The kernel functions `syscall_handler` can run, with the arguments it runs them with. -/
inductive KernelCall where
  | interruptsGetTicks
  | ksysWrite (buffer size : U32)
  | ksysGetchar
  | ksysPutchar (c : Byte)
  | ksysClearScreen
  | kmalloc (size : U32)
  | kfree (ptr : U32)
  | kcalloc (count size : U32)
  | krealloc (ptr newSize : U32)
  | ksize (ptr : U32)
  | kmallocTotal
  | kmallocUsed
  | kmallocRemaining
  | ksysShellExec (command : U32)
deriving DecidableEq

/-- The `switch` of `syscall_handler`; `none` is its default. -/
def dispatch (eax ebx ecx : U32) : Option KernelCall :=
  match eax.toNat with
  | 0 => some .interruptsGetTicks
  | 1 => some (.ksysWrite ebx ecx)
  | 2 => some .ksysGetchar
  | 3 => some (.ksysPutchar (ebx.setWidth 8))
  | 4 => some .ksysClearScreen
  | 5 => some (.kmalloc ebx)
  | 6 => some (.kfree ebx)
  | 7 => some (.kcalloc ebx ecx)
  | 8 => some (.krealloc ebx ecx)
  | 9 => some (.ksize ebx)
  | 10 => some .kmallocTotal
  | 11 => some .kmallocUsed
  | 12 => some .kmallocRemaining
  | 13 => some (.ksysShellExec ebx)
  | _ => none

/-- What the case of a call returns when the kernel function has returned `r`. -/
def KernelCall.returns (r : U32) : KernelCall → U32
  | .ksysPutchar _ | .ksysClearScreen | .kfree _ => 0
  | _ => r

/-- `syscall_handler` over the kernel functions; `edx` is unused. -/
def syscallHandler {σ : Type} (kernel : KernelCall → σ → U32 × σ) (eax ebx ecx _edx : U32)
    (s : σ) : U32 × σ :=
  match dispatch eax ebx ecx with
  | some call =>
    let (r, s) := kernel call s
    (call.returns r, s)
  | none => (0xFFFFFFFF, s)

/-- The kernel function `syscall_handler` runs when it is entered at `c`. -/
def handlerCall (c : Cpu) : Option KernelCall :=
  dispatch (c.argument 0) (c.argument 1) (c.argument 2)

/-- `int $0x90` from code at `c`: the stub, and in it the handler over the kernel functions. -/
def int90 {σ : Type} (kernel : KernelCall → σ → U32 × σ) (stub ret : U32) (c : Cpu) (s : σ) :
    Cpu × σ :=
  let e := syscallEntry ret (c.interrupt (syscallGate stub))
  let (r, s) := syscallHandler kernel (e.argument 0) (e.argument 1) (e.argument 2) (e.argument 3) s
  (syscallExit (e.ret r), s)

/-- The wrappers around `int $0x90`, with their arguments. -/
inductive Wrapper where
  | sysGetTicks
  | sysWrite (buffer size : U32)
  | sysGetchar
  | sysPutchar (c : Byte)
  | sysClearScreen
  | sysKmalloc (size : U32)
  | sysKfree (ptr : U32)
  | sysKcalloc (count size : U32)
  | sysKrealloc (ptr newSize : U32)
  | sysKsize (ptr : U32)
  | sysKmallocTotal
  | sysKmallocUsed
  | sysKmallocRemaining
  | sysShellExec (command : U32)

namespace Wrapper

/-- `SyscallNumber`, the operand "a". -/
def number : Wrapper → U32
  | sysGetTicks => 0
  | sysWrite _ _ => 1
  | sysGetchar => 2
  | sysPutchar _ => 3
  | sysClearScreen => 4
  | sysKmalloc _ => 5
  | sysKfree _ => 6
  | sysKcalloc _ _ => 7
  | sysKrealloc _ _ => 8
  | sysKsize _ => 9
  | sysKmallocTotal => 10
  | sysKmallocUsed => 11
  | sysKmallocRemaining => 12
  | sysShellExec _ => 13

/-- The registers the operands of the `int` instruction ask for; a `char` fills the low byte
of `ebx`. -/
def Loads (w : Wrapper) (r : Regs) : Prop :=
  r.eax = w.number ∧
    match w with
    | sysWrite buffer size => r.ebx = buffer ∧ r.ecx = size
    | sysPutchar c => r.ebx.setWidth 8 = c
    | sysKmalloc size => r.ebx = size
    | sysKfree ptr => r.ebx = ptr
    | sysKcalloc count size => r.ebx = count ∧ r.ecx = size
    | sysKrealloc ptr newSize => r.ebx = ptr ∧ r.ecx = newSize
    | sysKsize ptr => r.ebx = ptr
    | sysShellExec command => r.ebx = command
    | _ => True

/-- The kernel function a wrapper stands for. -/
def call : Wrapper → KernelCall
  | sysGetTicks => .interruptsGetTicks
  | sysWrite buffer size => .ksysWrite buffer size
  | sysGetchar => .ksysGetchar
  | sysPutchar c => .ksysPutchar c
  | sysClearScreen => .ksysClearScreen
  | sysKmalloc size => .kmalloc size
  | sysKfree ptr => .kfree ptr
  | sysKcalloc count size => .kcalloc count size
  | sysKrealloc ptr newSize => .krealloc ptr newSize
  | sysKsize ptr => .ksize ptr
  | sysKmallocTotal => .kmallocTotal
  | sysKmallocUsed => .kmallocUsed
  | sysKmallocRemaining => .kmallocRemaining
  | sysShellExec command => .ksysShellExec command

end Wrapper

/-- Where the dispatcher is given a wrapper's registers it runs the wrapper's function. -/
theorem dispatch_of_loads {w : Wrapper} {r : Regs} (h : w.Loads r) :
    dispatch r.eax r.ebx r.ecx = some w.call := by
  obtain ⟨hnumber, hargs⟩ := h
  rw [hnumber]
  cases w with
  | sysWrite _ _ | sysKcalloc _ _ | sysKrealloc _ _ =>
    obtain ⟨rfl, rfl⟩ := hargs
    rfl
  | sysPutchar _ | sysKmalloc _ | sysKfree _ | sysKsize _ | sysShellExec _ =>
    obtain rfl := hargs
    rfl
  | _ => rfl

end Kernix.Syscalls
