import BrittleKernel.System.Client

/-!
# The System Allocators

Slots and memory blocks as `a/sys/alloc.cc` hands them out.  Free blocks of each size form a
list that is threaded through their first words by Object Table index; zero, the index of
Null, ends a list.
-/

namespace BrittleKernel.System

variable (build : Build)

/-! ## Slots -/

/-- `fixed_slot_count`. -/
def Build.fixedSlotCount : Word := 4#32 + build.memoryMapCount + build.deviceMapCount

/-- `alloc_slot_int`. -/
def allocSlotInt : Sys (Option Word) := do
  let σ ← get
  if σ.slotsUsed = build.extraSlotCount then
    return none
  set { σ with slotsUsed := σ.slotsUsed + 1#32 }
  return some (σ.slotsUsed + build.fixedSlotCount)

/-- `alloc_slot`. -/
def allocSlot : Sys Key := do
  match ← allocSlotInt build with
  | some oti => mintKey build oti 0#64
  | none => throw .emptyMaybe

/-! ## Memory -/

/-- Length of `mem_roots`. -/
abbrev memRootsCount : Nat := 31

def setMemRoot (l2HalfSize : Nat) (oti : Word) : Sys Unit :=
  modify fun σ => { σ with memRoots := Function.update σ.memRoots l2HalfSize oti }

/-- `mem_take`: the first block of a list, which is not empty. -/
def memTake (l2HalfSize : Nat) (brand : Brand) : Sys Key := do
  let oti := (← get).memRoots l2HalfSize
  let k ← mintKey build oti brand
  setMemRoot l2HalfSize (← memoryPeek build k 0#32)
  memoryPoke build k 0#32 0#32
  return k

/-- `free_mem`. -/
def freeMem (keyIn : Key) : Sys Bool := do
  let (oti, _) ← readKey build keyIn
  if (← getKind build oti) ≠ Kind.memory.code then
    return false
  if !(← invalidate build oti) then
    return false
  let kFreed ← mintKey build oti 0#64
  let region ← memoryInspect build kFreed
  let l2HalfSize := region.getL2HalfSize.toNat
  memoryPoke build kFreed 0#32 ((← get).memRoots l2HalfSize)
  setMemRoot l2HalfSize oti
  return true

/-- The first pass of `alloc_mem`: the least list from the target on that is not empty. -/
def findRoot (memRoots : Nat → Word) (target : Nat) : Option Nat :=
  (List.range' target (memRootsCount - target)).find? fun l2p => memRoots l2p != 0#32

/-- One turn of the second pass: the first block of list `l2p` becomes two of the next smaller
list.  `false` if there is no slot for the top half. -/
def splitOnce (l2p : Nat) : Sys Bool := do
  let kBot ← memTake build l2p 0#64
  let (botOti, _) ← readKey build kBot
  match ← allocSlotInt build with
  | none => return false
  | some topOti =>
    let kSlot ← mintKey build topOti 0#64
    let (kBot, kTop) ← memorySplit build kBot (1#32 <<< l2p) kSlot
    memoryPoke build kTop 0#32 ((← get).memRoots (l2p - 1))
    memoryPoke build kBot 0#32 topOti
    setMemRoot (l2p - 1) botOti
    return true

/-- The second pass, `n` lists down to the target. -/
def splitDown (target : Nat) : Nat → Sys Bool
  | 0 => return true
  | n + 1 => do
    if ← splitOnce build (target + n + 1) then
      splitDown target n
    else
      return false

/-- `alloc_mem`. -/
def allocMem (targetL2HalfSize : Word) (brand : Brand) : Sys (Option Key) := do
  if targetL2HalfSize < 4#32 then
    return none
  let target := targetL2HalfSize.toNat
  match findRoot (← get).memRoots target with
  | none => return none
  | some l2p =>
    if ← splitDown build target (l2p - target) then
      return some (← memTake build target brand)
    else
      return none

end BrittleKernel.System
