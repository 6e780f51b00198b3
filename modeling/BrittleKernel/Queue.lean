import BrittleKernel.State

/-!
# List Operations

`k/list.h` on the kernel state.  A list holds one sublist for each priority; an item
knows its container and the ring it is threaded on.
-/

namespace BrittleKernel

namespace KState

/-! ## Field updates -/

def updateContext (s : KState) (c : TableIndex) (f : Context → Context) : KState :=
  { s with context := Function.update s.context c (f (s.context c)) }

def updateInterrupt (s : KState) (i : TableIndex) (f : Interrupt → Interrupt) : KState :=
  { s with interrupt := Function.update s.interrupt i (f (s.interrupt i)) }

def updateMemory (s : KState) (e : TableIndex) (f : Memory → Memory) : KState :=
  { s with memory := Function.update s.memory e (f (s.memory e)) }

def record (s : KState) (ev : Event) : KState := { s with history := ev :: s.history }

/-! ## Items -/

def item (s : KState) : ItemRef → Item
  | .ctxItem c => (s.context c).ctxItem
  | .senderItem c => (s.context c).senderItem
  | .irqItem i => (s.interrupt i).senderItem

def setItem (s : KState) (r : ItemRef) (it : Item) : KState :=
  match r with
  | .ctxItem c => s.updateContext c fun b => { b with ctxItem := it }
  | .senderItem c => s.updateContext c fun b => { b with senderItem := it }
  | .irqItem i => s.updateInterrupt i fun b => { b with senderItem := it }

/-- `owner->get_priority()`. -/
def ownerPriority (s : KState) : ItemRef → Priority
  | .ctxItem c => (s.context c).priority
  | .senderItem c => (s.context c).priority
  | .irqItem i => (s.interrupt i).priority

def setQueue (s : KState) (l : ListId) (p : Priority) (q : List ItemRef) : KState :=
  { s with queues := Function.update s.queues l (Function.update (s.queues l) p q) }

/-- Thread an item at the tail of a sublist. -/
def link (s : KState) (l : ListId) (p : Priority) (r : ItemRef) : KState :=
  (s.setQueue l p (s.queues l p ++ [r])).setItem r ⟨some l, some (l, p)⟩

/-- `Item::unlink`: take the item off its ring, if it is on one. -/
def unlink (s : KState) (r : ItemRef) : KState :=
  match (s.item r).ring with
  | some (l, p) => (s.setQueue l p ((s.queues l p).erase r)).setItem r {}
  | none => s.setItem r {}

/-- `List::peek`: the first item of the first non-empty sublist. -/
def peek (s : KState) (l : ListId) : Option ItemRef :=
  (List.range nPriorities).findSome? fun p => (s.queues l p).head?

end KState

/-- `List::insert`. -/
def listInsert (l : ListId) (r : ItemRef) : K Unit := do
  let s ← get
  panicIf (s.item r).container.isSome .nodeAlreadyInList
  panicIf (s.item r).ring.isSome .corruptNode
  let p := s.ownerPriority r
  panicUnless (p < nPriorities) .bogusPriority
  set (s.link l p r)

/-- `Item::unlink`. -/
def itemUnlink (r : ItemRef) : K Unit := modify (·.unlink r)

/-- `Item::reinsert`. -/
def itemReinsert (r : ItemRef) : K Unit := do
  let s ← get
  match (s.item r).container with
  | none => throw .reinsertWithoutInsert
  | some c =>
    itemUnlink r
    listInsert c r

/-- `List::take`. -/
def listTake (l : ListId) : K (Option ItemRef) := do
  let s ← get
  match s.peek l with
  | none => pure none
  | some r =>
    itemUnlink r
    pure (some r)

end BrittleKernel
