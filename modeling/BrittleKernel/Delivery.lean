import BrittleKernel.Scheduler

/-!
# Message Delivery

The Sender protocol and the Context state changes of `k/context.cc`, with the receive
side of Gates.  Delivering a message lets its sender start receiving at once, which may
deliver another blocked sender's message, and so on: `deliverTo` and
`Context.onDelivery` call each other.  The recursion is tied in `deliverTo`, whose bound
is one more than the number of blocked senders; every nested delivery takes one of them
off its Gate.
-/

namespace BrittleKernel

/-! ## Senders -/

/-- `ReplySender`: one message from a kernel object. -/
structure ReplySender where
  message : Message := {}
  keys : Keys := fun _ => {}

def ReplySender.setKey (rs : ReplySender) (index : Fin nMessageKeys) (k : Key) : ReplySender :=
  { rs with keys := Function.update rs.keys index k }

/-- A reply that only reports an exception. -/
def ReplySender.failure (e : Exception) (d2 : Word := 0#32) : ReplySender :=
  { message := Message.failure e d2 }

/-- The implementations of `Sender`. -/
inductive Sender where
  | context (c : TableIndex)
  | interrupt (i : TableIndex)
  | reply (rs : ReplySender)

def Sender.ident : Sender → Option TableIndex
  | context c => some c
  | interrupt i => some i
  | reply _ => none

/-- A virtual `deliver_to(brand, context)` call on an object. -/
abbrev DeliverTo := TableIndex → Brand → TableIndex → K Unit

/-! ## Context state changes -/

namespace Context

def makeRunnable (c : TableIndex) : K Unit := do
  listInsert .runnable (.ctxItem c)
  modify (·.updateContext c fun b => { b with state := .runnable })
  pendSwitch

def setSys (c : TableIndex) (m : Message) (brand : Brand) : K Unit :=
  modify (·.updateContext c fun b => { b with save := (b.save.setMessage m).setBrand brand })

/-- `complete_receive(Exception, uint32_t)`. -/
def completeReceiveExc (c : TableIndex) (e : Exception) : K Unit := do
  setSys c (Message.failure e) 0#64
  modify (·.record (.excepted c (Message.failure e)))

def completeBlockedReceiveExc (c : TableIndex) (e : Exception) : K Unit := do
  makeRunnable c
  completeReceiveExc c e

def blockInReceive (c : TableIndex) (l : ListId) : K Unit := do
  itemUnlink (.ctxItem c)
  listInsert l (.ctxItem c)
  modify (·.updateContext c fun b => { b with state := .receiving })
  pendSwitch

def blockInReply (c : TableIndex) : K Unit := do
  itemUnlink (.ctxItem c)
  modify (·.updateContext c fun b => { b with state := .receiving })
  pendSwitch

def blockInSend (c : TableIndex) (brand : Brand) (l : ListId) : K Unit := do
  let s ← get
  panicUnless (c = s.current) .nonCurrentBlockInSend
  if (s.context c).save.message.desc.getBlock then
    set (s.updateContext c fun b => { b with savedBrand := brand })
    listInsert l (.senderItem c)
    itemUnlink (.ctxItem c)
    modify (·.updateContext c fun b => { b with state := .sending })
    pendSwitch
  else
    completeReceiveExc c .wouldBlock

def onBlockedDeliveryAborted (c : TableIndex) : K Unit := do
  makeRunnable c
  completeReceiveExc c .wouldBlock

def makeReplyKey (c : TableIndex) : K Key := do
  let k ← makeKey c ((← get).context c).expectedReplyBrand
  maybeRef k

def advanceReplyBrand (c : TableIndex) : K Unit :=
  modify fun s => (s.updateContext c fun b =>
    { b with expectedReplyBrand := (b.expectedReplyBrand + 1#64) ||| Brand.topMask }).record
      (.replyBrandAdvanced c)

end Context

/-- `is_awaiting_reply`. -/
def Context.isAwaitingReply (b : Context) : Bool :=
  b.state == .receiving && !b.ctxItem.container.isSome

/-! ## Delivery of one message -/

/-- `Context::on_delivery`. -/
def Context.onDelivery (deliverTo : DeliverTo) (c : TableIndex) (k : KeysRef) :
    K (Message × Keys) := do
  let save := ((← get).context c).save
  let d := save.message.desc
  -- The copy is taken first: the receive phase below overwrites the save area.
  let m := save.message.sanitized
  let sentMap := save 6
  let k0 ← if d.isCall then Context.makeReplyKey c else bankGet c sentMap 0
  k.set 0 k0
  let k1 ← bankGet c sentMap 1
  k.set 1 k1
  let k2 ← bankGet c sentMap 2
  k.set 2 k2
  let k3 ← bankGet c sentMap 3
  k.set 3 k3
  if d.getReceiveEnabled then
    if d.isCall then
      let (object, source) ← localKeyGet k0
      deliverTo object source.brand c
    else
      let object ← keyGet (.keyReg c d.getSource)
      deliverTo object ((← get).keyAt (.keyReg c d.getSource)).brand c
  return (m, ![k0, k1, k2, k3])

/-- `Interrupt::on_delivery`. -/
def Interrupt.onDelivery (i : TableIndex) (k : KeysRef) : K (Message × Keys) := do
  let k0 ← maybeRef (← makeKey i 0#64)
  k.set 0 k0
  let nullKey := (← get).nullKey
  k.set 1 nullKey
  k.set 2 nullKey
  k.set 3 nullKey
  let s ← get
  return ({ desc := Descriptor.zero.withSelector 1#16, d0 := (s.interrupt i).identifier },
    ![k0, nullKey, nullKey, nullKey])

/-- `ReplySender::on_delivery`. -/
def ReplySender.onDelivery (rs : ReplySender) (k : KeysRef) : K (Message × Keys) := do
  k.set 0 (rs.keys 0)
  k.set 1 (rs.keys 1)
  k.set 2 (rs.keys 2)
  k.set 3 (rs.keys 3)
  return (rs.message, rs.keys)

/-- `on_blocked_delivery` of the Context or Interrupt that owns a sender item. -/
def onBlockedDelivery (deliverTo : DeliverTo) (sender : ItemRef) (k : KeysRef) :
    K (Message × Brand) := do
  match sender with
  | .irqItem i =>
    let (m, _) ← Interrupt.onDelivery i k
    return (m, ((← get).interrupt i).savedBrand)
  | .ctxItem c | .senderItem c =>
    Context.makeRunnable c
    let (m, _) ← Context.onDelivery deliverTo c k
    return (m, ((← get).context c).savedBrand)

/-! ## Receiving -/

/-- `complete_receive(BlockingSender *)`. -/
def Context.completeReceive (deliverTo : DeliverTo) (c : TableIndex) (sender : ItemRef) :
    K Unit := do
  let map := ((← get).context c).save 7
  let (m, brand) ← onBlockedDelivery deliverTo sender (.bank c map)
  setSys c m brand
  modify (·.record (.delivered (some sender.owner) c brand m))

/-- `Gate::deliver_to`. -/
def Gate.deliverTo (deliverTo : DeliverTo) (gate : TableIndex) (brand : Brand)
    (receiver : TableIndex) : K Unit := do
  if brand.isTop then
    Context.completeReceiveExc receiver .badOperation
  else
    match ← listTake (.senders gate) with
    | some partner => Context.completeReceive deliverTo receiver partner
    | none => Context.blockInReceive receiver (.receivers gate)

/-- `Object::deliver_to`. -/
def Object.deliverTo (ctx : TableIndex) : K Unit :=
  Context.completeReceiveExc ctx .badOperation

/-- `Context::deliver_to`. -/
def Context.deliverTo (self : TableIndex) (brand : Brand) (ctx : TableIndex) : K Unit := do
  if brand ≠ ((← get).context self).expectedReplyBrand ∨ ctx ≠ self then
    Object.deliverTo ctx
  else
    blockInReply self

/-- The virtual call `object->deliver_to(brand, ctx)`, with a bound on the nesting. -/
def deliverTo : Nat → DeliverTo
  | 0, _, _, _ => throw .outOfFuel
  | fuel + 1, object, brand, ctx => do
    match (← get).kind object with
    | .gate => Gate.deliverTo (deliverTo fuel) object brand ctx
    | .context => Context.deliverTo object brand ctx
    | _ => Object.deliverTo ctx

/-- Number of Contexts and Interrupts that are queued as senders. -/
def KState.blockedSenders (s : KState) : Nat :=
  (List.range s.count).countP fun e =>
    (s.item (.senderItem e)).ring.isSome || (s.item (.irqItem e)).ring.isSome

/-- `deliver_to` with a bound that no chain of deliveries exceeds. -/
def deliverToBounded : DeliverTo := fun object brand ctx => do
  deliverTo ((← get).blockedSenders + 1) object brand ctx

/-- The virtual call `sender->on_delivery(k)`. -/
def Sender.onDelivery (sender : Sender) (k : KeysRef) : K (Message × Keys) :=
  match sender with
  | .context c => Context.onDelivery deliverToBounded c k
  | .interrupt i => Interrupt.onDelivery i k
  | .reply rs => rs.onDelivery k

/-- The virtual call `sender->block_in_send(brand, list)`. -/
def Sender.blockInSend (sender : Sender) (brand : Brand) (l : ListId) : K Unit :=
  match sender with
  | .context c => Context.blockInSend c brand l
  | .interrupt i => do
    modify (·.updateInterrupt i fun b => { b with savedBrand := brand })
    listInsert l (.irqItem i)
  | .reply _ => pure ()

/-- `complete_blocked_receive(Brand const &, Sender *)`. -/
def Context.completeBlockedReceive (c : TableIndex) (brand : BrandRef) (sender : Sender) :
    K Unit := do
  makeRunnable c
  let map := ((← get).context c).save 7
  let (m, _) ← sender.onDelivery (.bank c map)
  modify (·.updateContext c fun b => { b with save := b.save.setMessage m })
  -- The reference is followed only here, after the sender's own receive phase.
  let brand ← brand.read
  modify (·.updateContext c fun b => { b with save := b.save.setBrand brand })
  modify (·.record (.delivered sender.ident c brand m))

end BrittleKernel
