import BrittleKernel.Memory

/-!
# Kernel Object Protocols

The native methods of Contexts (`Context::handle_protocol`), Gates, Interrupts and the
Object Table, and what invalidation does to each kind of object.
-/

namespace BrittleKernel

/-- The reply to a selector that an object does not implement. -/
def badop (m : Message) : ReplySender :=
  .failure .badOperation (m.desc.getSelector.setWidth 32)

/-! ## Contexts -/

namespace Context

/-- The `make_runnable` case. -/
def interruptOrStart (c : TableIndex) : K Unit := do
  let b := (← get).context c
  match b.state with
  | .sending =>
    itemUnlink (.senderItem c)
    onBlockedDeliveryAborted c
  | .receiving =>
    if b.isAwaitingReply then
      advanceReplyBrand c
    itemUnlink (.ctxItem c)
    completeBlockedReceiveExc c .wouldBlock
  | .stopped => makeRunnable c
  | .runnable => pure ()

/-- The `set_priority` case, past its range check. -/
def changePriority (c : TableIndex) (priority : Priority) : K Unit := do
  modify (·.updateContext c fun b => { b with priority := priority })
  if ((← get).item (.ctxItem c)).container.isSome then
    itemReinsert (.ctxItem c)
  if ((← get).item (.senderItem c)).container.isSome then
    itemReinsert (.senderItem c)

/-- First register of the half that a bulk register method names. -/
def halfStart (high : Bool) (i : Fin 5) : Fin 10 :=
  if high then ⟨i + 5, by omega⟩ else ⟨i, by omega⟩

def readRegisters (c : TableIndex) (high : Bool) : K ReplySender := do
  let raw := ((← get).context c).save
  return {
    message := {
      d0 := raw (halfStart high 0)
      d1 := raw (halfStart high 1)
      d2 := raw (halfStart high 2)
      d3 := raw (halfStart high 3)
      d4 := raw (halfStart high 4) } }

/-- The bulk write stores the words of the reply under construction, as the source does. -/
def writeRegisters (c : TableIndex) (high : Bool) : K ReplySender := do
  let rs : ReplySender := {}
  modify (·.updateContext c fun b =>
    { b with
      save := Function.update (Function.update (Function.update (Function.update
        (Function.update b.save
          (halfStart high 0) rs.message.d0)
          (halfStart high 1) rs.message.d1)
          (halfStart high 2) rs.message.d2)
          (halfStart high 3) rs.message.d3)
          (halfStart high 4) rs.message.d4 })
  return rs

/-- The body of `Context::handle_protocol` once the message is in. -/
def serve (c : TableIndex) (m : Message) (k : Keys) : K ReplySender := do
  match ContextMethod.ofSelector m.desc.getSelector with
  | some .readRegister =>
    if h : m.d0.toNat < 10 then
      return { message := { d0 := ((← get).context c).save ⟨m.d0.toNat, h⟩ } }
    else
      return .failure .badArgument
  | some .writeRegister =>
    if h : m.d0.toNat < 10 then
      modify (·.updateContext c fun b =>
        { b with save := Function.update b.save ⟨m.d0.toNat, h⟩ m.d1 })
      return {}
    else
      return .failure .badArgument
  | some .readKeyRegister =>
    if h : m.d0.toNat < nTaskKeys then
      return ({} : ReplySender).setKey 1 ((← get).keyAt (.keyReg c ⟨m.d0.toNat, h⟩))
    else
      return .failure .badArgument
  | some .writeKeyRegister =>
    if h : m.d0.toNat < nTaskKeys ∧ m.d0 ≠ 0#32 then
      modify (·.setKeyAt (.keyReg c ⟨m.d0.toNat, h.1⟩) (k 1))
      return {}
    else
      return .failure .badArgument
  | some .readRegionRegister =>
    if h : m.d0.toNat < nTaskRegions then
      return ({} : ReplySender).setKey 1 ((← get).keyAt (.regionReg c ⟨m.d0.toNat, h⟩))
    else
      return .failure .badArgument
  | some .writeRegionRegister =>
    if h : m.d0.toNat < nTaskRegions then
      modify (·.setKeyAt (.regionReg c ⟨m.d0.toNat, h⟩) (k 1))
      if (← get).current = c then
        applyToMpu c
      return {}
    else
      return .failure .badArgument
  | some .makeRunnable =>
    interruptOrStart c
    return {}
  | some .getPriority =>
    return { message := { d0 := BitVec.ofNat 32 ((← get).context c).priority } }
  | some .setPriority =>
    if m.d0.toNat ≥ nPriorities then
      return .failure .badArgument
    changePriority c m.d0.toNat
    return {}
  | some .readLowRegisters => readRegisters c false
  | some .readHighRegisters => readRegisters c true
  | some .writeLowRegisters => writeRegisters c false
  | some .writeHighRegisters => writeRegisters c true
  | none => return badop m

end Context

/-! ## Gates -/

/-- The body of the Gate protocol once the message is in. -/
def Gate.serve (gate : TableIndex) (m : Message) : K ReplySender := do
  match GateMethod.ofSelector m.desc.getSelector with
  | some .makeClientKey =>
    let key ← maybeRef (← makeKey gate (Brand.ofWords m.d0 m.d1 ||| Brand.topMask))
    return ({} : ReplySender).setKey 1 key
  | none => return badop m

/-! ## Interrupts -/

namespace Interrupt

def enableInterrupt (i : TableIndex) : K Unit :=
  modify fun s =>
    { s with irqEnabled := Function.update s.irqEnabled (s.interrupt i).identifier true }

def disableInterrupt (i : TableIndex) : K Unit :=
  modify fun s =>
    { s with irqEnabled := Function.update s.irqEnabled (s.interrupt i).identifier false }

/-- The body of the Interrupt protocol once the message is in.  Clearing the pending bit in
the hardware has no counterpart: an enabled line may fire at any time. -/
def serve (i : TableIndex) (m : Message) (k : Keys) : K ReplySender := do
  match InterruptMethod.ofSelector m.desc.getSelector with
  | some .setTarget =>
    modify (·.setKeyAt (.target i) (k 1))
    return {}
  | some .enable =>
    enableInterrupt i
    return {}
  | none => return badop m

end Interrupt

/-! ## Invalidation -/

/-- `Context::invalidation_hook`. -/
def Context.invalidationHook (c : TableIndex) : K Unit := do
  itemUnlink (.ctxItem c)
  itemUnlink (.senderItem c)
  modify (·.updateContext c fun b => { b with state := .stopped })
  advanceReplyBrand c
  if c = (← get).current then
    pendSwitch

/-- `Interrupt::invalidation_hook`. -/
def Interrupt.invalidationHook (i : TableIndex) : K Unit := do
  disableInterrupt i
  itemUnlink (.irqItem i)
  setRedirection (((← get).interrupt i).identifier + 1#32).toNat none

/-- `Object::invalidate`: the hook runs before the generation moves. -/
def Object.invalidate (cfg : Config) (e : TableIndex) : K Unit := do
  match (← get).kind e with
  | .memory => applyToMpu (← get).current
  | .context => Context.invalidationHook e
  | .interrupt => Interrupt.invalidationHook e
  | _ => pure ()
  advanceGeneration cfg e

/-! ## The Object Table -/

namespace ObjectTable

/-- `ObjectTable::do_mint_key`. -/
def doMintKey (m : Message) : K ReplySender := do
  let s ← get
  if m.d0.toNat ≥ s.count then
    return .failure .indexOutOfRange
  match ← makeKey m.d0.toNat (Brand.ofWords m.d1 m.d2) with
  | some key =>
    modify (·.record (.minted m.d0.toNat (s.kind m.d0.toNat) (Brand.ofWords m.d1 m.d2)))
    return ({} : ReplySender).setKey 1 key
  | none => return .failure .badBrand

/-- `ObjectTable::do_read_key`. -/
def doReadKey (k : Keys) : K ReplySender := do
  let (object, key) ← localKeyGet (k 1)
  return {
    message := {
      d0 := BitVec.ofNat 32 object
      d1 := key.brand.low
      d2 := key.brand.high } }

/-- `ObjectTable::do_get_kind`. -/
def doGetKind (m : Message) : K ReplySender := do
  let s ← get
  if m.d0.toNat ≥ s.count then
    return .failure .indexOutOfRange
  return { message := { d0 := (s.kind m.d0.toNat).code } }

/-- `ObjectTable::do_invalidate`. -/
def doInvalidate (cfg : Config) (m : Message) : K ReplySender := do
  let rolloverOk : Bool := m.d1 != 0#32
  modify (·.record (.invalidateRequested m.d0 rolloverOk))
  let s ← get
  if m.d0.toNat ≥ s.count then
    return .failure .indexOutOfRange
  if !rolloverOk && s.generation m.d0.toNat == 0#32 - 1#32 then
    return .failure .causality
  Object.invalidate cfg m.d0.toNat
  return {}

/-- The body of `ObjectTable::deliver_from` once the message is in. -/
def serve (cfg : Config) (m : Message) (k : Keys) : K ReplySender := do
  match ObjectTableMethod.ofSelector m.desc.getSelector with
  | some .mintKey => doMintKey m
  | some .readKey => doReadKey k
  | some .getKind => doGetKind m
  | some .invalidate => doInvalidate cfg m
  | none => return badop m

end ObjectTable

end BrittleKernel
