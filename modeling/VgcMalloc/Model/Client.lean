import VgcMalloc.Linked.Segment
import VgcMalloc.Model.Start
import VgcMalloc.Program.Runs
import VgcMalloc.Tiling.Blocks

/-!
# Clients

A client calls the four entry points one after the other, and stores to what it
got.  The lists of MMAPs and blocks are what a debugger sees that follows the
links in memory.

When blocks are guarded, the pointer of a whole number of pages lies one page
behind the start of its payload, and `vgc_free` does not find its block from it.
A client that frees such a pointer, though it is one that `vgc_malloc` returned,
can damage the lists: `vgc_free` takes what the page in front of it holds for a
header.  The tame clients below keep away from such pointers; the careful
clients at the end do not.
-/

namespace VgcMalloc

open Program Tiling Linked

/-! ## Calls -/

/-- A call of the client. -/
inductive Call where
  | malloc (size : Nat)
  | calloc (nmemb size : Nat)
  | realloc (ptr size : Nat)
  | free (ptr : Nat)
  deriving DecidableEq

/-- The program of a call; `vgc_free` has no result, which is shown as null. -/
def Call.program : Call → Vgc Nat
  | .malloc size => vgcMalloc size
  | .calloc nmemb size => vgcCalloc nmemb size
  | .realloc ptr size => vgcRealloc ptr size
  | .free ptr => do
      vgcFree ptr
      return 0

/-- A finished call. -/
abbrev Finished := Event State Call Nat

/-- The runs of clients whose calls are allowed, from the start of the
library. -/
abbrev ClientRun (env : Env) (pages : MmapPages) (guarded : Bool)
    (allowed : State → Call → Prop) : List Finished → State → Prop :=
  Run Call.program env allowed (start pages guarded)

/-- A kernel that grants every request, with mappings far apart. -/
def generousEnv : Env where
  mmap call := some (0x10000000 * (call + 1))
  munmap _ := true
  mprotect _ := true
  mutexLock _ := true
  mutexUnlock _ := true
  mutexInit _ := true
  mutexDestroy _ := true
  mutexattrInit _ := true
  mutexattrDestroy _ := true
  backtrace _ := []

/-! ## The lists in memory -/

namespace Heap

/-- The MMAPs that are reached from `mmapBlockFirst` along `next`. -/
@[irreducible]
def mmaps (heap : Heap) : List Nat :=
  follow heap.nextMmap (fun base => base == 0 || base == mapFailed) walkFuel
    heap.shared.mmapBlockFirst

/-- The address, size and status of the block at an address. -/
def entryAt (heap : Heap) (block : Nat) : Entry :=
  ⟨block, (heap.mallocHeader block).size, (heap.mallocHeader block).status == .busy⟩

@[simp]
theorem entryAt_addr (heap : Heap) (block : Nat) : (heap.entryAt block).addr = block := by
  rw [entryAt]

/-- The blocks of an MMAP that are reached from its first header along
`next`. -/
@[irreducible]
def blocks (heap : Heap) (mmapBlock : Nat) : List Entry :=
  (follow heap.nextBlock (fun block => block == 0) walkFuel
    (firstMallocHeaderInMMAP mmapBlock)).map heap.entryAt

/-- The pointer lies in the range that `isInMmapBlock` takes for an MMAP. -/
def InRange (heap : Heap) (ptr mmapBlock : Nat) : Prop :=
  mmapBlock < ptr ∧ ptr < mmapBlock + heap.shared.mmapBlockSize

/-- The pointer resolves to the header of a block in use of a listed MMAP. -/
def Resolves (heap : Heap) (ptr : Nat) : Prop :=
  ptr < 2 ^ 64 ∧ ∃ base ∈ heap.mmaps, ∃ entry ∈ heap.blocks base,
    entry.busy = true ∧ headerOf heap.shared ptr = entry.addr

/-- `vgc_free` recognises the pointer as wrong: it is null, it lies in no
listed MMAP, or the header it resolves to has a wrong checksum. -/
def Rejects (heap : Heap) (ptr : Nat) : Prop :=
  ptr = 0 ∨ (∀ base ∈ heap.mmaps, ¬heap.InRange ptr base) ∨
    (heap.mallocHeader (headerOf heap.shared ptr)).checkStart ≠ checksum ∨
    (heap.mallocHeader (headerOf heap.shared ptr)).checkEnd ≠ checksum

instance (heap : Heap) (ptr mmapBlock : Nat) : Decidable (heap.InRange ptr mmapBlock) :=
  inferInstanceAs (Decidable (_ ∧ _))

instance (heap : Heap) (ptr : Nat) : Decidable (heap.Resolves ptr) :=
  inferInstanceAs (Decidable (_ ∧ _))

instance (heap : Heap) (ptr : Nat) : Decidable (heap.Rejects ptr) :=
  inferInstanceAs (Decidable (_ ∨ _))

end Heap

/-- Calls of `vgc_malloc` with any size, and of `vgc_free` with a pointer that
resolves to a block in use or is recognised as wrong.  A live pointer of a whole
number of pages is neither, unless the page in front of it shows a wrong
checksum. -/
def MallocAndFree (state : State) : Call → Prop
  | .malloc _ => True
  | .free ptr => state.heap.Resolves ptr ∨ state.heap.Rejects ptr
  | _ => False

instance (state : State) : (call : Call) → Decidable (MallocAndFree state call)
  | .malloc _ => .isTrue trivial
  | .free _ => inferInstanceAs (Decidable (_ ∨ _))
  | .calloc _ _ => .isFalse id
  | .realloc _ _ => .isFalse id

/-- The bytes of a request lie in the block that is granted for it: its size
does not wrap when it is aligned and, when blocks are guarded, is no whole
number of pages. -/
def Shared.Contains (shared : Shared) (size : Nat) : Prop :=
  size + pointerSize ≤ wordRange ∧
    (shared.isMprotectEnabled = true → size % systemPageSize ≠ 0)

instance (shared : Shared) (size : Nat) : Decidable (shared.Contains size) :=
  inferInstanceAs (Decidable (_ ∧ _))

/-- Calls of all four entry points with pointers that resolve to blocks in use
(or that `vgc_free` recognises as wrong), and with requests whose bytes lie in
their blocks where the library itself writes to them.  A live pointer of a whole
number of pages does not resolve to its block. -/
def Tame (state : State) : Call → Prop
  | .malloc _ => True
  | .free ptr => state.heap.Resolves ptr ∨ state.heap.Rejects ptr
  | .calloc nmemb size =>
      mul64 nmemb size = 0 ∨ state.heap.shared.Contains (mul64 nmemb size)
  | .realloc ptr size =>
      (ptr = 0 ∨ state.heap.Resolves ptr) ∧ (size = 0 ∨ state.heap.shared.Contains size)

instance (state : State) : (call : Call) → Decidable (Tame state call)
  | .malloc _ => .isTrue trivial
  | .free _ => inferInstanceAs (Decidable (_ ∨ _))
  | .calloc _ _ => inferInstanceAs (Decidable (_ ∨ _))
  | .realloc _ _ => inferInstanceAs (Decidable (_ ∧ _))

/-- Runs of `vgc_malloc` and `vgc_free` alone are tame. -/
theorem MallocAndFree.tame {state : State} {call : Call} (lawful : MallocAndFree state call) :
    Tame state call := by
  cases call with
  | malloc size => trivial
  | free ptr => exact lawful
  | calloc nmemb size => exact lawful.elim
  | realloc ptr size => exact lawful.elim

/-! ## Clients that write -/

/-- A client calls the library or stores a byte. -/
inductive Deed where
  | call (call : Call)
  | store (address value : Nat)
  deriving DecidableEq

/-- A store of the client. -/
def storeByte (address value : Nat) : Vgc Unit := fun _ state =>
  if state.heap.isAccessible address then
    .ok () { state with
      heap := { state.heap with memory := state.heap.memory.store address 1 value } }
  else
    .fault address

/-- The program of a deed; a store has no result, which is shown as null. -/
def Deed.program : Deed → Vgc Nat
  | .call request => request.program
  | .store address value => do
      storeByte address value
      return 0

/-- Tame calls, which leave out the live pointers of whole numbers of pages, and
stores to the payload of a block in use. -/
def TameDeed (state : State) : Deed → Prop
  | .call request => Tame state request
  | .store address _ => ∃ base ∈ state.heap.mmaps, ∃ entry ∈ state.heap.blocks base,
      entry.busy = true ∧ entry.addr + mallocHeaderSize ≤ address ∧
        address < entry.addr + mallocHeaderSize + entry.size

instance (state : State) : (deed : Deed) → Decidable (TameDeed state deed)
  | .call request => inferInstanceAs (Decidable (Tame state request))
  | .store address _ => inferInstanceAs (Decidable (∃ base ∈ state.heap.mmaps,
      ∃ entry ∈ state.heap.blocks base, entry.busy = true ∧
        entry.addr + mallocHeaderSize ≤ address ∧
          address < entry.addr + mallocHeaderSize + entry.size))

/-- A finished deed. -/
abbrev Done := Event State Deed Nat

/-- The runs of clients that call and write as they should. -/
abbrev DeedRun (env : Env) (pages : MmapPages) (guarded : Bool) : List Done → State → Prop :=
  Run Deed.program env TameDeed (start pages guarded)

/-! ## Careful clients -/

/-- The pointers, with their sizes, that a client got from `vgc_malloc` and has
not freed, newest first. -/
def pending : List Done → List (Nat × Nat)
  | [] => []
  | event :: earlier =>
      match event.call with
      | .call (.malloc size) =>
          if event.result = 0 then pending earlier else (event.result, size) :: pending earlier
      | .call (.free ptr) => (pending earlier).filter fun got => got.1 ≠ ptr
      | _ => pending earlier

/-- The client frees what it got from `vgc_malloc`, each pointer once, and
stores to the bytes that it asked for as long as it has not freed them. -/
def Careful : List Done → Prop
  | [] => True
  | event :: earlier =>
      (match event.call with
        | .call (.malloc _) => True
        | .call (.free ptr) => ∃ got ∈ pending earlier, got.1 = ptr
        | .call _ => False
        | .store address _ => ∃ got ∈ pending earlier,
            got.1 ≤ address ∧ address < got.1 + got.2) ∧ Careful earlier

instance : (trace : List Done) → Decidable (Careful trace)
  | [] => .isTrue trivial
  | ⟨_, call, _, _⟩ :: earlier =>
      have : Decidable (Careful earlier) := instDecidableCareful earlier
      match call with
      | .call (.malloc _) => inferInstanceAs (Decidable (True ∧ _))
      | .call (.free _) => inferInstanceAs (Decidable ((∃ got ∈ pending earlier, _) ∧ _))
      | .call (.calloc _ _) => inferInstanceAs (Decidable (False ∧ _))
      | .call (.realloc _ _) => inferInstanceAs (Decidable (False ∧ _))
      | .store _ _ => inferInstanceAs (Decidable ((∃ got ∈ pending earlier, _) ∧ _))

/-- The runs of careful clients. -/
structure CarefulRun (env : Env) (pages : MmapPages) (guarded : Bool) (trace : List Done)
    (state : State) : Prop where
  run : Run Deed.program env (fun _ _ => True) (start pages guarded) trace state
  careful : Careful trace

/-- A careful client loses a block that it has not freed: the release of
4096 bytes finds an old header, whose links are those of a list long gone, and
the MMAP is unmapped with a block in use. -/
theorem careful_unmapped :
    ∃ trace state, CarefulRun generousEnv .default true trace state ∧
      pending trace = [(0x1000aff6, 10)] ∧ state.heap.isMapped 0x1000aff6 = false := by
  have found : (replay Deed.program generousEnv (fun _ _ => True) [] (start .default true)
      ([.malloc 5000, .malloc 16383, .malloc 10, .free 0x10003c78, .free 0x10007001, .malloc 10,
        .malloc 5000, .malloc 10, .free 0x10006c78, .malloc 4096, .free 0x10003ff6,
        .free 0x1000dff6, .free 0x10007000].map Deed.call)).map (fun final =>
          (decide (Careful final.1), pending final.1, final.2.heap.isMapped 0x1000aff6)) =
      some (true, [(0x1000aff6, 10)], false) := by decide +kernel
  obtain ⟨final, replayed, same⟩ := Option.map_eq_some_iff.mp found
  simp only [Prod.mk.injEq] at same
  obtain ⟨careful, left, unmapped⟩ := same
  exact ⟨_, _, ⟨Run.start.replay replayed, of_decide_eq_true careful⟩, left, unmapped⟩

/-- A careful client breaks a list with the release of 4096 bytes; afterwards a
live pointer that resolves to its block is not released. -/
theorem careful_kept :
    ∃ trace state last, CarefulRun generousEnv .default true trace state ∧
      (0x10003ff6, 10) ∈ pending trace ∧ state.heap.Resolves 0x10003ff6 ∧
      vgcFree 0x10003ff6 generousEnv state = .ok () last ∧
      last.heap.blocks 0x10000000 = state.heap.blocks 0x10000000 := by
  have found : (replay Deed.program generousEnv (fun _ _ => True) [] (start .default true)
      ([.malloc 10, .malloc 8191, .malloc 10, .malloc 10, .malloc 5000, .malloc 10,
        .free 0x1000aff6, .free 0x10006001, .malloc 10, .free 0x10014ff6, .free 0x1000dff6,
        .malloc 4096, .malloc 8191, .free 0x1000a000].map Deed.call)).bind (fun final =>
          (vgcFree 0x10003ff6 generousEnv final.2).normal.map fun ended =>
            (decide (Careful final.1), decide ((0x10003ff6, 10) ∈ pending final.1),
              decide (final.2.heap.Resolves 0x10003ff6),
              decide (ended.2.heap.blocks 0x10000000 = final.2.heap.blocks 0x10000000))) =
      some (true, true, true, true) := by decide +kernel
  obtain ⟨final, replayed, freed⟩ := Option.bind_eq_some_iff.mp found
  obtain ⟨⟨_, last⟩, normal, same⟩ := Option.map_eq_some_iff.mp freed
  simp only [Prod.mk.injEq, decide_eq_true_eq] at same
  obtain ⟨careful, live, resolves, blocks⟩ := same
  have ended := Outcome.normal_eq_some_iff.mp normal
  exact ⟨_, _, last, ⟨Run.start.replay replayed, careful⟩, live, resolves, ended, blocks⟩

end VgcMalloc
