import Kernix.Gdt.Gdt

namespace Kernix.Boot
open Library Processor Gdt

/-- `none` is a fault; otherwise user code runs. -/
def enterRing3 (p : Processor) (entry userStackTop : U32) : Option Processor := do
  let p := { p with eflags := p.eflags &&& ~~~flagIf }
  let p ← p.loadData .ds userDsSelector
  let p ← p.loadData .es userDsSelector
  let p ← p.loadData .fs userDsSelector
  let p ← p.loadData .gs userDsSelector
  let p ← p.push (userDsSelector.setWidth 32)
  let p ← p.push userStackTop
  -- `pushfl` and `popl`, to get at the flags
  let p ← p.push p.eflags
  let eax ← p.slot 0
  let p := { p with esp := p.esp + 4 }
  let p ← p.push (eax ||| 0x200)
  let p ← p.push (userCsSelector.setWidth 32)
  let p ← p.push entry
  p.iret

end Kernix.Boot
