import VgcMalloc.Model.State

/-!
# Guard pages

`vgc_mprotect.c` without distribution to other processes, which the Makefile
build leaves out.  The guard page of a block header is its `protect` page, the
first page of the header.
-/

namespace VgcMalloc

/-- `do_mprotect`. -/
def doMprotect (addr len : Nat) (none : Bool) : Vgc Bool := do
  let succeeds ← mprotect addr len none
  if succeeds then
    return true
  vgcMessage errorLevel "do_mprotect" "Error"
    (if none then "protecting returned" else "unprotecting returned") "" []
  return false

/-- `VGC_mprotect`: the guard page of the header becomes `PROT_NONE`. -/
def vgcMprotect (header : Nat) : Vgc Bool := do
  let shared ← getShared
  doMprotect header shared.pageSize true

/-- `VGC_munprotect`: the guard page of the header becomes accessible. -/
def vgcMunprotect (header : Nat) : Vgc Bool := do
  let shared ← getShared
  doMprotect header shared.pageSize false

end VgcMalloc
