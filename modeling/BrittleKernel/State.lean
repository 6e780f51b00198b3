import BrittleKernel.Mpu
import Mathlib.Data.Fin.VecNotation

/-!
# Kernel State

The data model of `k/`: keys, list items, object bodies, the Object Table and the
kernel's global variables, together with the failures of the kernel's consistency checks
and the program type every kernel function is written in.

The Object Table is stored by field: `kind` names the class that inhabits an entry, and
the body field of that class (`memory`, `context`, `interrupt`) holds its data.  A Gate's
only data are its two lists, which live in `queues` with all other lists.
-/

namespace BrittleKernel

/-! ## Objects and keys -/

/-- `Object::Kind`. -/
inductive Kind where
  | null
  | objectTable
  | slot
  | memory
  | context
  | gate
  | interrupt
deriving DecidableEq

/-- The code that Get Kind reports. -/
def Kind.code : Kind → Word
  | null => 0#32
  | objectTable => 1#32
  | slot => 2#32
  | memory => 3#32
  | context => 4#32
  | gate => 5#32
  | interrupt => 6#32

/-- `k/key.h`.  A key that was never filled has `ptr = none`, the source's null pointer. -/
structure Key where
  brand : Brand := 0#64
  generation : Generation := 0#32
  ptr : Option TableIndex := none
deriving DecidableEq

/-- One message's worth of keys. -/
abbrev Keys := Fin nMessageKeys → Key

/-! ## Lists (`k/list.h`) -/

/-- The lists of the kernel: the run queue and the two lists in each Gate's body. -/
inductive ListId where
  | runnable
  | senders (gate : TableIndex)
  | receivers (gate : TableIndex)
deriving DecidableEq

/-- A list item, named by its place in its owner's body. -/
inductive ItemRef where
  /-- `Context::Body::ctx_item` -/
  | ctxItem (owner : TableIndex)
  /-- `Context::Body::sender_item` -/
  | senderItem (owner : TableIndex)
  /-- `Interrupt::Body::sender_item` -/
  | irqItem (owner : TableIndex)
deriving DecidableEq

def ItemRef.owner : ItemRef → TableIndex
  | ctxItem o => o
  | senderItem o => o
  | irqItem o => o

/-- The fields of an item.  `ring` abstracts the `next`/`prev` links: it names the root of
the ring the item is threaded on, and is `none` when the item links to itself. -/
structure Item where
  container : Option ListId := none
  ring : Option (ListId × Priority) := none
deriving DecidableEq

/-! ## Object bodies -/

/-- `Context::State`. -/
inductive CtxState where
  | stopped
  | runnable
  | sending
  | receiving
deriving DecidableEq

/-- `SavedRegisters::raw`: r4 to r11, BASEPRI and the stack pointer. -/
abbrev SavedRegisters := Fin 10 → Word

namespace SavedRegisters

/-- `sys.m`: the message view of r4 to r9. -/
def message (r : SavedRegisters) : Message := ⟨⟨r 0⟩, r 1, r 2, r 3, r 4, r 5⟩

/-- `sys.brand`: the brand view of r10 and r11. -/
def brand (r : SavedRegisters) : Brand := Brand.ofWords (r 6) (r 7)

/-- Assignment to `sys.m`. -/
def setMessage (r : SavedRegisters) (m : Message) : SavedRegisters :=
  ![m.desc.bits, m.d0, m.d1, m.d2, m.d3, m.d4, r 6, r 7, r 8, r 9]

/-- Assignment to `sys.brand`. -/
def setBrand (r : SavedRegisters) (b : Brand) : SavedRegisters :=
  ![r 0, r 1, r 2, r 3, r 4, r 5, b.low, b.high, r 8, r 9]

end SavedRegisters

/-- `Context::Body`. -/
@[ext]
structure Context where
  save : SavedRegisters := fun _ => 0#32
  keys : Fin nTaskKeys → Key := fun _ => {}
  ctxItem : Item := {}
  senderItem : Item := {}
  priority : Priority := 0
  state : CtxState := .stopped
  savedBrand : Brand := 0#64
  regions : Fin nTaskRegions → Key := fun _ => {}
  expectedReplyBrand : Brand := 0#64

/-- `Interrupt::Body`. -/
structure Interrupt where
  savedBrand : Brand := 0#64
  target : Key := {}
  senderItem : Item := {}
  priority : Priority := 0
  identifier : Word := 0#32

/-- The fields of a Memory object. -/
structure Memory where
  base : Word := 0#32
  size : Word := 0#32
  attributes : Word := 0#32
  parent : Option TableIndex := none
  childCount : Word := 0#32

/-! ## History -/

/-- Events recorded in the history.  No kernel operation reads them: they exist to state
what happened during a run. -/
inductive Event where
  /-- A Context or Interrupt invoked a key bearing this brand. -/
  | sent (sender : TableIndex) (brand : Brand)
  /-- A Context took in a message and found this brand with it; `sender` is `none` for a
  kernel object's reply. -/
  | delivered (sender : Option TableIndex) (receiver : TableIndex) (brand : Brand) (m : Message)
  /-- A Memory object looked at the brand that came with a message. -/
  | consulted (entry : TableIndex) (brand : Brand)
  /-- A Context's receive or blocked send was completed by an exception. -/
  | excepted (receiver : TableIndex) (m : Message)
  /-- A Context honoured its reply key and advanced past this brand. -/
  | answered (context : TableIndex) (brand : Brand)
  /-- A Context's expected reply brand moved on. -/
  | replyBrandAdvanced (context : TableIndex)
  /-- Mint Key made a key to an object of this kind. -/
  | minted (entry : TableIndex) (kind : Kind) (brand : Brand)
  /-- An Invalidate message with its rollover-permitted flag. -/
  | invalidateRequested (entry : Word) (rolloverOk : Bool)
  /-- An entry's generation moved on from this value. -/
  | generationAdvanced (entry : TableIndex) (old : Generation)
  /-- Become consumed a block for an object's body. -/
  | donated (entry : TableIndex) (base size : Word)
  /-- The scheduler elected a Context. -/
  | switched (context : TableIndex)
deriving DecidableEq

/-! ## The kernel state -/

@[ext]
structure KState where
  /-- Number of Object Table entries. -/
  count : Nat := 0
  kind : TableIndex → Kind := fun _ => .null
  generation : TableIndex → Generation := fun _ => 0#32
  memory : TableIndex → Memory := fun _ => {}
  context : TableIndex → Context := fun _ => {}
  interrupt : TableIndex → Interrupt := fun _ => {}
  /-- Address of the body of a Context, Gate or Interrupt (`_body`). -/
  bodyAddr : TableIndex → Word := fun _ => 0#32
  /-- Every list's sublists: items in insertion order, by priority. -/
  queues : ListId → Priority → List ItemRef := fun _ _ => []
  /-- `current`. -/
  current : TableIndex := 0
  /-- `switch_pending`. -/
  switchPending : Bool := false
  /-- PendSV has been pended and not yet taken. -/
  pendSv : Bool := false
  /-- The IRQ redirection table and its length. -/
  irqTable : Nat → Option TableIndex := fun _ => none
  irqCount : Nat := 0
  /-- Interrupt lines enabled in the NVIC and SysTick, by identifier. -/
  irqEnabled : Word → Bool := fun _ => false
  mpu : Mpu := fun _ => {}
  /-- Contents of the address space outside kernel object storage. -/
  ram : Word → Byte := fun _ => 0#8
  /-- Events, latest first. -/
  history : List Event := []

/-! ## Kernel programs -/

/-- The consistency checks of `k/` that the modelled code can reach. -/
inductive Panic where
  /-- "kr0 written" -/
  | kr0Written
  /-- "node already in list" -/
  | nodeAlreadyInList
  /-- "corrupt node on insert" -/
  | corruptNode
  /-- "bogus priority" -/
  | bogusPriority
  /-- "reinsert without insert" -/
  | reinsertWithoutInsert
  /-- "non-current Context block_in_send" -/
  | nonCurrentBlockInSend
  /-- "context not awaiting reply" -/
  | notAwaitingReply
  /-- "empty Maybe accessed" -/
  | emptyMaybe
  /-- "bad key index in ReplySender" -/
  | badReplyKeyIndex
  /-- "mem base+size overflow" -/
  | memOverflow
  /-- "bad child geometry" -/
  | badChildGeometry
  /-- "non-leaf Memory dtor" -/
  | nonLeafDtor
  /-- "decoding unpredictable AP" -/
  | unpredictableAp
  /-- "index out of range" -/
  | indexOutOfRange
  /-- "slice start out of range", "slice end out of range" -/
  | sliceOutOfRange
  /-- "fault sent to IRQ redirector" -/
  | faultToRedirector
  /-- "null IRQ redirector entry" -/
  | nullRedirectorEntry
  /-- "no runnable Contexts" -/
  | noRunnable
  /-- "bad ABI token" -/
  | badAbiToken
  /-- "out of donated RAM" -/
  | outOfDonatedRam
  /-- "ObjectTable entries set to empty range" -/
  | emptyObjectTable
  /-- "IRQ redirect table not yet set" -/
  | emptyRedirectionTable
  /-- "fault setting up initial stack" -/
  | initialStackFault
  /-- Not a panic of the source: the model's bound on the recursion ran out. -/
  | outOfFuel
deriving DecidableEq

/-- A kernel function: it changes the kernel state and returns, or panics. -/
abbrev K (α : Type) := EStateM Panic KState α

/-- `PANIC_IF`. -/
def panicIf (c : Bool) (p : Panic) : K Unit := if c then throw p else pure ()

/-- `PANIC_UNLESS`. -/
def panicUnless (c : Bool) (p : Panic) : K Unit := if c then pure () else throw p

/-- `Maybe::ref`. -/
def maybeRef {α : Type} : Option α → K α
  | some a => pure a
  | none => throw .emptyMaybe

/-- The ETL encodings the kernel is built with, and two switches that select the kernel as
written (`Config.source`) or a variant it is compared with. -/
structure Config where
  etl : Etl
  /-- Brands travel by reference into the key they came from (`Brand const &`). -/
  brandByReference : Bool
  /-- Advancing a generation overwrites every key to the old one at once. -/
  eagerRevocation : Bool

/-- The kernel as written: brands by reference, keys revoked when next used. -/
def Config.source (etl : Etl) : Config := ⟨etl, true, false⟩

end BrittleKernel
