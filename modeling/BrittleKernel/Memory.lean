import BrittleKernel.Delivery

/-!
# Memory Objects

Construction and destruction of Memory objects and the Memory protocol (`k/memory.cc`),
with the donation of Memory for other kernel objects (`k/become.cc`).  A method is a
program that yields the reply; sending the reply is the business of `Dispatch`.
-/

namespace BrittleKernel

/-! ## Generations -/

namespace KState

/-- Overwrite every stored key to generation `old` of an entry with the null key. -/
def revoke (s : KState) (e : TableIndex) (old : Generation) : KState :=
  let scrub (k : Key) : Key :=
    if k.ptr = some e ∧ k.generation = old then s.nullKey else k
  { s with
    context := fun c =>
      { s.context c with
        keys := fun i => scrub ((s.context c).keys i)
        regions := fun i => scrub ((s.context c).regions i) }
    interrupt := fun i => { s.interrupt i with target := scrub (s.interrupt i).target } }

end KState

/-- Give an entry its next generation.  Only the eager variant touches stored keys. -/
def advanceGeneration (cfg : Config) (e : TableIndex) : K Unit := do
  let s ← get
  let old := s.generation e
  set ({ s with generation := Function.update s.generation e (old + 1#32) }.record
    (.generationAdvanced e old))
  if cfg.eagerRevocation then
    modify (·.revoke e old)

namespace Memory

/-! ## Construction and destruction -/

/-- `contains`: containment of address ranges, in wrapping arithmetic. -/
def contains (parentBase parentSize childBase childSize : Word) : Bool :=
  childBase ≥ parentBase
    && childBase - parentBase ≤ parentSize
    && childBase + childSize - parentBase ≤ parentSize

/-- The constructor's search for log2(size / 2): the first exponent from 4 that fits, 31 if
none below does. -/
def findL2HalfSize (size : Word) : Nat :=
  ((List.range' 4 27).find? fun l => size == 2#32 <<< l).getD 31

/-- The constructor's test for mappability. -/
def mappableRange (base size : Word) : Bool :=
  size ≥ 32#32 && size &&& (size - 1#32) == 0#32 && base &&& (size - 1#32) == 0#32

/-- The attributes the constructor stores. -/
def initAttributes (base size attributes : Word) : Word :=
  if mappableRange base size then
    (attributes &&& ~~~cachedL2hsMask)
      ||| (BitVec.ofNat 32 (findL2HalfSize size) <<< cachedL2hsLsb)
      ||| mappableAttributeMask
  else
    attributes &&& ~~~(cachedL2hsMask ||| mappableAttributeMask)

/-- The constructor, in an entry that already has the new object's generation. -/
def construct (e : TableIndex) (base size attributes : Word) (parent : Option TableIndex) :
    K Unit := do
  panicIf (base + size < base) .memOverflow
  modify fun s =>
    { s with
      kind := Function.update s.kind e .memory
      memory := Function.update s.memory e
        { base := base
          size := size
          attributes := initAttributes base size attributes
          parent := parent
          childCount := 0#32 } }
  match parent with
  | none => pure ()
  | some p => do
    let m := (← get).memory p
    panicUnless (contains m.base m.size base size) .badChildGeometry
    modify (·.updateMemory p fun m => { m with childCount := m.childCount + 1#32 })

/-- The destructor. -/
def destroy (e : TableIndex) : K Unit := do
  let m := (← get).memory e
  panicIf (m.childCount ≠ 0#32) .nonLeafDtor
  match m.parent with
  | none => pure ()
  | some p =>
    modify (·.updateMemory p fun m => { m with childCount := m.childCount - 1#32 })
    modify (·.updateMemory e fun m => { m with parent := none })

end Memory

/-! ## Become -/

/-- The types of object that Memory can become. -/
inductive TypeCode where
  | context
  | gate
  | interrupt
deriving DecidableEq

def TypeCode.ofWord (w : Word) : Option TypeCode :=
  match w.toNat with
  | 0 => some context
  | 1 => some gate
  | 2 => some interrupt
  | _ => none

/-- `size_for_type_code`. -/
def TypeCode.size : TypeCode → Word
  | context => contextSize
  | gate => gateSize
  | interrupt => interruptSize

/-- Write an entry of the IRQ redirection table. -/
def setRedirection (index : Nat) (handler : Option TableIndex) : K Unit := do
  let s ← get
  panicIf (s.irqCount = 0) .emptyRedirectionTable
  panicUnless (index < s.irqCount) .indexOutOfRange
  set { s with irqTable := Function.update s.irqTable index handler }

/-- Build the object and its body in the entry of the Memory that was given up. -/
def TypeCode.construct (t : TypeCode) (e : TableIndex) (body : Word) (argument : Word) : K Unit := do
  match t with
  | .context =>
    modify fun s =>
      { s with
        kind := Function.update s.kind e .context
        bodyAddr := Function.update s.bodyAddr e body
        context := Function.update s.context e { expectedReplyBrand := Brand.topMask } }
  | .gate =>
    modify fun s =>
      { s with
        kind := Function.update s.kind e .gate
        bodyAddr := Function.update s.bodyAddr e body
        queues := Function.update (Function.update s.queues (.senders e) fun _ => [])
          (.receivers e) fun _ => [] }
  | .interrupt =>
    modify fun s =>
      { s with
        kind := Function.update s.kind e .interrupt
        bodyAddr := Function.update s.bodyAddr e body
        interrupt := Function.update s.interrupt e { identifier := argument } }
    setRedirection (argument + 1#32).toNat (some e)

/-- `become`. -/
def become (cfg : Config) (e : TableIndex) (m : Message) : K ReplySender := do
  let memory := (← get).memory e
  if memory.isDevice || memory.childCount ≠ 0#32 || memory.parent.isSome || !memory.isMappable then
    return .failure .badOperation
  match TypeCode.ofWord m.d0 with
  | none => return .failure .badArgument
  | some typeCode =>
    if typeCode.size > memory.size then
      return .failure .badOperation
    Memory.destroy e
    advanceGeneration cfg e
    typeCode.construct e memory.base m.d1
    modify (·.record (.donated e memory.base memory.size))
    let newKey ← maybeRef (← makeKey e 0#64)
    applyToMpu (← get).current
    return ({} : ReplySender).setKey 1 newKey

/-! ## The Memory protocol -/

/-- Little-endian word at an address. -/
def KState.loadWord (s : KState) (a : Word) : Word :=
  s.ram (a + 3#32) ++ s.ram (a + 2#32) ++ s.ram (a + 1#32) ++ s.ram a

def KState.storeWord (s : KState) (a w : Word) : KState :=
  { s with
    ram := fun x =>
      if x = a then w.setWidth 8
      else if x = a + 1#32 then (w >>> 8).setWidth 8
      else if x = a + 2#32 then (w >>> 16).setWidth 8
      else if x = a + 3#32 then (w >>> 24).setWidth 8
      else s.ram x }

namespace Memory

/-- `Memory::do_split`. -/
def doSplit (cfg : Config) (e : TableIndex) (brand : Brand) (m : Message) (k : Keys) :
    K ReplySender := do
  let memory := (← get).memory e
  let splitPos := m.d0
  if splitPos > memory.size then
    return .failure .badArgument
  if Rasr.getSrd (memory.getRegionForBrand brand).rasr ≠ 0#8 || memory.childCount ≠ 0#32 then
    return .failure .badOperation
  let (slot, _) ← localKeyGet (k 1)
  if (← get).kind slot ≠ .slot then
    return .failure .badKind
  -- The donated slot becomes the top piece.
  advanceGeneration cfg slot
  construct slot (memory.base + splitPos) (memory.size - splitPos) memory.attributes none
  let topKey ← maybeRef (← makeKey slot brand)
  -- This object becomes the bottom piece; both pieces are built without a parent.
  destroy e
  advanceGeneration cfg e
  construct e memory.base splitPos memory.attributes none
  let bottomKey ← maybeRef (← makeKey e brand)
  applyToMpu (← get).current
  return (({} : ReplySender).setKey 2 topKey).setKey 1 bottomKey

/-- The `change` case. -/
def change (cfg : Config) (e : TableIndex) (brand : Brand) (m : Message) : K ReplySender := do
  let memory := (← get).memory e
  if !memory.isMappable then
    return .failure .badOperation
  let newRasr := scrubRasr m.d0
  let currentRasr := (memory.getRegionForBrand brand).rasr
  if apIsUnpredictable (Rasr.getAp newRasr) then
    return .failure .badArgument
  match decodeAp cfg.etl (Rasr.getAp newRasr) with
  | none => throw .unpredictableAp
  | some new =>
    match decodeAp cfg.etl (Rasr.getAp currentRasr) with
    | none => throw .unpredictableAp
    | some current =>
      if new.isStronger current
          || Rasr.getSrd currentRasr &&& ~~~Rasr.getSrd newRasr ≠ 0#8
          || memory.size < 256#32 && Rasr.getSrd newRasr ≠ 0#8 then
        return .failure .badArgument
      let key ← maybeRef (← makeKey e ((newRasr >>> 8).setWidth 64))
      return ({} : ReplySender).setKey 1 key

/-- The `peek` and `poke` cases. -/
def access (e : TableIndex) (write : Bool) (m : Message) : K ReplySender := do
  let s ← get
  let offset := m.d0
  if offset ≥ (s.memory e).size / 4#32 then
    return .failure .badArgument
  let a := (s.memory e).base + 4#32 * offset
  if write then
    set (s.storeWord a m.d1)
    return {}
  else
    return { message := { d0 := s.loadWord a } }

/-- The `make_child` case. -/
def makeChild (cfg : Config) (e : TableIndex) (brand : Brand) (m : Message) (k : Keys) :
    K ReplySender := do
  let memory := (← get).memory e
  if Rasr.getSrd (memory.getRegionForBrand brand).rasr ≠ 0#8 then
    return .failure .badOperation
  if !contains memory.base memory.size m.d0 m.d1 then
    return .failure .badArgument
  let (slot, _) ← localKeyGet (k 1)
  if (← get).kind slot ≠ .slot then
    return .failure .badKind
  advanceGeneration cfg slot
  construct slot m.d0 m.d1 memory.attributes (some e)
  let key ← maybeRef (← makeKey slot brand)
  return ({} : ReplySender).setKey 1 key

/-- The `inspect` case. -/
def inspect (e : TableIndex) (brand : Brand) : K ReplySender := do
  let memory := (← get).memory e
  return {
    message := {
      d0 := memory.base
      d1 := (memory.getRegionForBrand brand).rasr
      d2 := memory.size
      d3 := memory.attributes &&& abiAttributesMask } }

/-- The body of `Memory::deliver_from` once the message is in. -/
def serve (cfg : Config) (e : TableIndex) (brand : Brand) (m : Message) (k : Keys) :
    K ReplySender := do
  match MemoryMethod.ofSelector m.desc.getSelector with
  | some .inspect => inspect e brand
  | some .change => change cfg e brand m
  | some .split => doSplit cfg e brand m k
  | some .become =>
    if Rasr.getSrd (((← get).memory e).getRegionForBrand brand).rasr ≠ 0#8 then
      return .failure .badOperation
    become cfg e m
  | some .peek => access e false m
  | some .poke => access e true m
  | some .makeChild => makeChild cfg e brand m k
  | none => return .failure .badOperation (m.desc.getSelector.setWidth 32)

end Memory

end BrittleKernel
