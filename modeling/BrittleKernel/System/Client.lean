import BrittleKernel.Sends

/-!
# The System Task as a Client

The wrappers of `a/k/*.cc`: calls on kernel objects, one function for each method, whose
replies are asserted to be free of errors.  A key register that the source reserves with
`AutoKey` is a key here, and a call that replaces its own key returns the new one.
-/

namespace BrittleKernel.System

/-! ## Programs of the system task -/

/-- What the system image is built with (`peanut_config.h`). -/
structure Build where
  etl : Etl
  memoryMapCount : Word
  deviceMapCount : Word
  extraSlotCount : Word

/-- Why a system program stops. -/
inductive Stop where
  /-- `ETL_ASSERT` on the reply to a message sent through a key. -/
  | assertion (k : Key) (m : Message)
  /-- An empty `Maybe` was accessed. -/
  | emptyMaybe
  /-- The call went to a Gate or a reply key, where another program may answer it. -/
  | forwarded
  /-- The kernel stopped during a call. -/
  | panic (p : Panic)

/-- The system task's variables, over the kernel state that its calls act on. -/
structure State where
  kernel : KState
  /-- The key in register `ki::ot`. -/
  ot : Key
  /-- `mem_roots`, by log2 of half the block size. -/
  memRoots : Nat → Word
  /-- `slots_used`. -/
  slotsUsed : Word

abbrev Sys (α : Type) := EStateM Stop State α

/-- Run a kernel function on the kernel's part of the state. -/
def onKernel {α : Type} (x : K α) : Sys α := fun σ =>
  match x σ.kernel with
  | .ok a s => .ok a { σ with kernel := s }
  | .error p s => .error (.panic p) { σ with kernel := s }

/-! ## Calls -/

/-- `Descriptor::call` with the data words of the message. -/
def request (selector : Selector) (d0 d1 d2 : Word := 0#32) : Message :=
  { desc := Descriptor.zero.withSelector selector, d0 := d0, d1 := d1, d2 := d2 }

/-- `keymap(0, k, 0, 0)`. -/
def sending (k : Key) : Keys := fun i => if i = 1 then k else {}

def sendingNone : Keys := fun _ => {}

/-- `ipc2` with a call: the object behind the key serves the message and replies. -/
def call (build : Build) (k : Key) (m : Message) (keys : Keys) : Sys ReplySender := do
  let (e, k) ← onKernel (localKeyGet k)
  let kind := (← get).kernel.kind e
  if (kind = .gate ∨ kind = .context) ∧ k.brand.isTop then
    throw .forwarded
  onKernel (Object.serve (.source build.etl) e k.brand m keys kind)

/-- A call whose reply is asserted to be free of errors. -/
def callAsserting (build : Build) (k : Key) (m : Message) (keys : Keys) : Sys ReplySender := do
  let rs ← call build k m keys
  if rs.message.desc.getError then
    throw (.assertion k m)
  return rs

/-! ## The Object Table (`a/k/object_table.cc`) -/

section

variable (build : Build)

def mintKey (index : Word) (brand : Brand) : Sys Key := do
  let rs ← callAsserting build (← get).ot (request 1#16 index brand.low brand.high) sendingNone
  return rs.keys 1

/-- The index and the brand of a key. -/
def readKey (k : Key) : Sys (Word × Brand) := do
  let rs ← callAsserting build (← get).ot (request 2#16) (sending k)
  return (rs.message.d0, Brand.ofWords rs.message.d1 rs.message.d2)

def getKind (index : Word) : Sys Word := do
  let rs ← callAsserting build (← get).ot (request 3#16 index) sendingNone
  return rs.message.d0

/-- Rollover is not permitted; a refusal is reported, not asserted. -/
def invalidate (index : Word) : Sys Bool := do
  let rs ← call build (← get).ot (request 4#16 index 0#32) sendingNone
  return !rs.message.desc.getError

end

/-! ## Memory (`a/k/memory.cc`, `a/k/memory.h`) -/

/-- `memory::Region`. -/
structure MemRegion where
  rbar : Word
  rasr : Word

namespace MemRegion

def getL2HalfSize (r : MemRegion) : Word := (r.rasr >>> 1) &&& 0x1F#32

def getBase (r : MemRegion) : Word := r.rbar &&& ~~~0x1F#32

/-- The test of an address, as written. -/
def contains (r : MemRegion) (addr : Word) : Bool :=
  (addr - r.getBase + 1#32) / 2#32 < 1#32 <<< r.getL2HalfSize.toNat

end MemRegion

section

variable (build : Build) (k : Key)

def memoryInspect : Sys MemRegion := do
  let rs ← callAsserting build k (request 1#16) sendingNone
  return ⟨rs.message.d0, rs.message.d1⟩

/-- The new key to the bottom half, which takes the place of `k`, and the key to the top half. -/
def memorySplit (pos : Word) (slotKey : Key) : Sys (Key × Key) := do
  let rs ← callAsserting build k (request 3#16 pos) (sending slotKey)
  return (rs.keys 1, rs.keys 2)

/-- The key to the new object, which takes the place of `k`. -/
def memoryBecome (type : Word) (arg : Word) : Sys Key := do
  let rs ← callAsserting build k (request 4#16 type arg) sendingNone
  return rs.keys 1

def memoryPeek (offset : Word) : Sys Word := do
  let rs ← callAsserting build k (request 5#16 offset) sendingNone
  return rs.message.d0

def memoryPoke (offset word : Word) : Sys Unit := do
  let _ ← callAsserting build k (request 6#16 offset word) sendingNone

/-! ## Contexts (`a/k/context.cc`) -/

def setRegion (index : Word) (regionKey : Key) : Sys Unit := do
  let _ ← callAsserting build k (request 6#16 index) (sending regionKey)

def setRegister (register value : Word) : Sys Unit := do
  let _ ← callAsserting build k (request 2#16 register value) sendingNone

end

end BrittleKernel.System
