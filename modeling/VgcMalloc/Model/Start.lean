import VgcMalloc.Model.Free

/-!
# Library start

`createShared` as run when the library is loaded.  The number of pages of an
MMAP is a build constant; the Makefile leaves it at its default.
-/

namespace VgcMalloc

/-- A usable value of `VGC_MALLOC_MMAP_PAGES`: one tenth of it is a whole
number of pages, which hold an MMAP header, a block header and a page of
payload, and it is far below the size of the address space. -/
structure MmapPages where
  count : Nat
  tenth : 10 ∣ count
  room : 40 ≤ count
  bounded : count ≤ 2 ^ 32

/-- The default of `VGC_MALLOC_MMAP_PAGES`. -/
def MmapPages.default : MmapPages where
  count := 8000
  tenth := by decide
  room := by decide
  bounded := by decide

/-- `createShared`; `isMprotectEnabled` is true in the builds with guard
pages. -/
def createShared (pages : MmapPages) (isMprotectEnabled : Bool) : Shared where
  pageSize := systemPageSize
  mmapBlockFirst := 0
  mmapBlockCount := 0
  mmapBlockSize := mul64 pages.count systemPageSize
  isMprotectEnabled := isMprotectEnabled

/-- The state after the library has been loaded. -/
def start (pages : MmapPages) (isMprotectEnabled : Bool) : State where
  heap :=
    { shared := createShared pages isMprotectEnabled
      memory := fun _ => 0
      mapped := []
      protNone := fun _ => false
      mmapCalls := 0 }
  held := []
  calls := 0
  messages := []
  actions := []

end VgcMalloc
