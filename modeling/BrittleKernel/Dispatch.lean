import BrittleKernel.Protocols

/-!
# Dispatch and Replies

The virtual `deliver_from` of every kind of object, and the reply that a kernel object
sends when a method is done (`k/reply_sender.cc`).  A reply is itself a delivery, to
whatever object the reply key designates; `deliverFrom` bounds that nesting.
-/

namespace BrittleKernel

/-- A virtual `deliver_from(brand, sender)` call on an object. -/
abbrev DeliverFrom := TableIndex → BrandRef → Sender → K Unit

/-- What the eager variant makes of a key in flight when generations have moved on: stale
keys are null, keys that were never filled stay as they are. -/
def KState.scrubbed (s : KState) (k : Key) : Key := if k.ptr.isNone then k else s.resolve k

/-- `~ScopedReplySender`: send the reply unless its key designates the Null object. -/
def scopedReply (cfg : Config) (deliverFrom : DeliverFrom) (k : Key) (rs : ReplySender) :
    K Unit := do
  let s ← get
  let (k, rs) := if cfg.eagerRevocation then
      (s.scrubbed k, { rs with keys := fun i => s.scrubbed (rs.keys i) })
    else (k, rs)
  let (object, k) ← localKeyGet k
  if s.kind object = .null then
    return ()
  deliverFrom object (.value k.brand) (.reply rs)

/-- Take in the message, run a method, send the reply to the message's key 0. -/
def serveThenReply (cfg : Config) (deliverFrom : DeliverFrom) (sender : Sender)
    (method : Message → Keys → K ReplySender) : K Unit := do
  let (m, k) ← sender.onDelivery .frame
  let rs ← method m k
  scopedReply cfg deliverFrom (k 0) rs

/-- `Object::deliver_from`. -/
def Object.deliverFrom (cfg : Config) (deliverFrom : DeliverFrom) (sender : Sender) : K Unit :=
  serveThenReply cfg deliverFrom sender fun m _ => pure (badop m)

/-- `Memory::deliver_from`: the brand is consulted after the message has been taken in. -/
def Memory.deliverFrom (cfg : Config) (deliverFrom : DeliverFrom) (e : TableIndex)
    (brand : BrandRef) (sender : Sender) : K Unit :=
  serveThenReply cfg deliverFrom sender fun m k => do
    let brand ← brand.read
    modify (·.record (.consulted e brand))
    Memory.serve cfg e brand m k

/-- `Context::deliver_from`. -/
def Context.deliverFrom (cfg : Config) (deliverFrom : DeliverFrom) (self : TableIndex)
    (brand : BrandRef) (sender : Sender) : K Unit := do
  let b ← brand.read
  if b.isTop then
    if b ≠ ((← get).context self).expectedReplyBrand then
      Object.deliverFrom cfg deliverFrom sender
    else
      advanceReplyBrand self
      let s ← get
      panicUnless (s.context self).isAwaitingReply .notAwaitingReply
      set (s.record (.answered self b))
      completeBlockedReceive self brand sender
  else
    serveThenReply cfg deliverFrom sender (Context.serve self)

/-- `Gate::deliver_from`. -/
def Gate.deliverFrom (cfg : Config) (deliverFrom : DeliverFrom) (gate : TableIndex)
    (brand : BrandRef) (sender : Sender) : K Unit := do
  let b ← brand.read
  if b.isTop then
    match ← listTake (.receivers gate) with
    | some partner => Context.completeBlockedReceive partner.owner brand sender
    | none => sender.blockInSend b (.senders gate)
  else
    serveThenReply cfg deliverFrom sender fun m _ => Gate.serve gate m

/-- The virtual call `object->deliver_from(brand, sender)`, with a bound on the nesting. -/
def deliverFrom (cfg : Config) : Nat → DeliverFrom
  | 0, _, _, _ => throw .outOfFuel
  | depth + 1, object, brand, sender => do
    match (← get).kind object with
    | .null | .slot => Object.deliverFrom cfg (deliverFrom cfg depth) sender
    | .objectTable => serveThenReply cfg (deliverFrom cfg depth) sender (ObjectTable.serve cfg)
    | .memory => Memory.deliverFrom cfg (deliverFrom cfg depth) object brand sender
    | .context => Context.deliverFrom cfg (deliverFrom cfg depth) object brand sender
    | .gate => Gate.deliverFrom cfg (deliverFrom cfg depth) object brand sender
    | .interrupt => serveThenReply cfg (deliverFrom cfg depth) sender (Interrupt.serve object)

/-- A message and the one reply it may provoke. -/
def replyDepth : Nat := 2

/-- `Key::deliver_from` on a stored key. -/
def keyDeliverFrom (cfg : Config) (loc : KeyLoc) (ident : TableIndex) (sender : Sender) :
    K Unit := do
  let object ← keyGet loc
  modify fun s => s.record (.sent ident (s.keyAt loc).brand)
  let brand ← brandRef cfg loc
  deliverFrom cfg replyDepth object brand sender

end BrittleKernel
