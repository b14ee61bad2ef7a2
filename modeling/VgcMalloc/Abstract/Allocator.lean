import VgcMalloc.Abstract.Heap
import VgcMalloc.Model.Client

/-!
# The allocator as a machine

All four entry points over lists of blocks, with neither memory nor links: the
machine knows which regions are mapped, which of them are listed, their blocks,
and how often it has asked the kernel for a mapping.
-/

namespace VgcMalloc

open Tiling

/-- The abstract heap, the number of calls of `mmap` so far, and whether the
first region could not be created. -/
structure Allocator where
  heap : AbstractHeap
  asked : Nat
  failed : Bool

/-- What the machine is built with: the placements that the kernel proposes, the
length of a full MMAP, and whether blocks are guarded. -/
structure Setting where
  mmap : Nat → Option Nat
  full : Nat
  guarded : Bool

namespace Setting

/-- The size that is searched for. -/
def need (setting : Setting) (size : Nat) : Nat :=
  alignSize ⟨systemPageSize, 0, 0, 0, setting.guarded⟩ size

/-- The header that a pointer passed back belongs to. -/
def header (setting : Setting) (ptr : Nat) : Nat :=
  headerOf ⟨systemPageSize, 0, 0, 0, setting.guarded⟩ ptr

/-- The kernel can place a mapping beside the regions. -/
def isPlaceable (regions : List Region) (base length : Nat) : Bool :=
  base % systemPageSize == 0 && 0 < base && 0 < length &&
    base + pageRound length ≤ userLimit &&
    regions.all fun region =>
      base + pageRound length ≤ region.base ∨ region.base + region.length ≤ base

/-- The answer of the kernel to a request for a mapping. -/
def placement (setting : Setting) (regions : List Region) (asked length : Nat) : Option Nat :=
  (setting.mmap asked).filter fun base => isPlaceable regions base length

end Setting

namespace Allocator

variable (setting : Setting)

/-- A region of full length, or else of a tenth of it, at the end of the list;
false when the kernel refuses both. -/
def extend (allocator : Allocator) : Bool × Allocator :=
  match setting.placement allocator.heap.regions allocator.asked setting.full with
  | some base =>
      (true, { allocator with
        heap := allocator.heap.create ⟨base, setting.full⟩
        asked := allocator.asked + 1 })
  | none =>
      match setting.placement allocator.heap.regions (allocator.asked + 1) (setting.full / 10) with
      | some base =>
          (true, { allocator with
            heap := allocator.heap.create ⟨base, setting.full / 10⟩
            asked := allocator.asked + 2 })
      | none => (false, { allocator with asked := allocator.asked + 2 })

/-- Grant a request from the first listed block that fits. -/
def grant (need : Nat) (allocator : Allocator) : Option (Nat × Allocator) :=
  (allocator.heap.malloc need (AbstractHeap.grantLength setting.guarded need)).map fun found =>
    (AbstractHeap.pointerOf setting.guarded found.2.1.addr need,
      { allocator with heap := found.2.2 })

/-- Grant a request, from a new region when no listed block fits. -/
def search (need : Nat) (allocator : Allocator) : Nat × Allocator :=
  match allocator.grant setting need with
  | some served => served
  | none =>
      match allocator.extend setting with
      | (false, asked) => (0, asked)
      | (true, grown) => (grown.grant setting need).getD (0, grown)

/-- The payload of the first listed region while nothing is granted. -/
def limit (allocator : Allocator) : Nat :=
  ((allocator.heap.regions.find? fun region =>
    region.base = allocator.heap.listed.headD 0).map fun region => region.length - 12288).getD 0

/-- Serve a request when there is a first region. -/
def serve (size : Nat) (allocator : Allocator) : Nat × Allocator :=
  if size = 0 ∨ allocator.limit ≤ setting.need size then (0, allocator)
  else allocator.search setting (setting.need size)

/-- A request; there is no way back when the first region cannot be
created. -/
def malloc (size : Nat) (allocator : Allocator) : Nat × Allocator :=
  if allocator.failed then (0, allocator)
  else if allocator.heap.listed = [] then
    match allocator.extend setting with
    | (false, asked) => (0, { asked with failed := true })
    | (true, grown) => grown.serve setting size
  else allocator.serve setting size

/-- The listed block in use that a pointer resolves to, with its region. -/
def target (ptr : Nat) (allocator : Allocator) : Option (Nat × Entry) :=
  if ptr < wordRange then
    allocator.heap.listed.findSome? fun base =>
      ((allocator.heap.entries base).find? fun entry =>
        entry.busy ∧ setting.header ptr = entry.addr).map fun entry => (base, entry)
  else none

/-- The heap without the block; its region goes with the last block in use. -/
def drop (heap : AbstractHeap) (base : Nat) (entry : Entry) : AbstractHeap :=
  if busyCount (heap.entries base) = 1 then
    ((heap.free base entry.addr).unlink base).unmap base
  else heap.free base entry.addr

/-- Release the block that a pointer resolves to, if any. -/
def free (ptr : Nat) (allocator : Allocator) : Allocator :=
  match allocator.target setting ptr with
  | some (base, entry) => { allocator with heap := drop allocator.heap base entry }
  | none => allocator

/-- The four entry points. -/
def step (allocator : Allocator) : Call → Nat × Allocator
  | .malloc size => allocator.malloc setting size
  | .calloc nmemb size =>
      if mul64 nmemb size = 0 then (0, allocator)
      else allocator.malloc setting (mul64 nmemb size)
  | .realloc ptr size =>
      if size = 0 then (0, if ptr = 0 then allocator else allocator.free setting ptr)
      else
        let served := allocator.malloc setting size
        if ptr = 0 ∨ served.1 = 0 then served else (served.1, served.2.free setting ptr)
  | .free ptr => (0, allocator.free setting ptr)

end Allocator

end VgcMalloc
