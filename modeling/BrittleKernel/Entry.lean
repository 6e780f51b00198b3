import BrittleKernel.Dispatch

/-!
# Kernel Entries and Runs

The ways into the kernel (`k/entry.S`, `Context::do_ipc`, `Context::do_key_op`,
`irq_redirector`, `switch_after_interrupt`), the boot of an application (`k/app.cc`), and
the states that runs of the kernel reach.
-/

namespace BrittleKernel

/-! ## System calls -/

/-- `Context::do_ipc`. -/
def Context.doIpc (cfg : Config) (c : TableIndex) (stack : Word) (d : Descriptor) : K Unit := do
  modify (·.updateContext c fun b => { b with save := Function.update b.save 9 stack })
  let object ← keyGet (.keyReg c 0)
  panicIf ((← get).kind object ≠ .null) .kr0Written
  if d.getSendEnabled then
    keyDeliverFrom cfg (.keyReg c d.getTarget) c (.context c)
  else if d.getReceiveEnabled then
    let object ← keyGet (.keyReg c d.getSource)
    deliverToBounded object ((← get).keyAt (.keyReg c d.getSource)).brand c
  doDeferredSwitch

/-- `Context::do_key_op`: system call 1 copies a key, all others do nothing. -/
def Context.doKeyOp (c : TableIndex) (sysnum : Fin 16) (d : Descriptor) : K Unit :=
  if sysnum = 1 ∧ d.getTarget ≠ 0 then
    modify fun s => s.setKeyAt (.keyReg c d.getTarget) (s.keyAt (.keyReg c d.getSource))
  else
    pure ()

/-- r4 to r11 as the program left them. -/
abbrev UserRegisters := Fin 8 → Word

/-- `stm r2, {r4-r11}`: BASEPRI and the stack pointer stay as they are. -/
def saveUser (c : TableIndex) (regs : UserRegisters) : K Unit :=
  modify (·.updateContext c fun b =>
    { b with
      save := fun i => if h : i.val < 8 then regs ⟨i.val, h⟩ else b.save i })

/-- The SVC handler. -/
def svcEntry (cfg : Config) (stack : Word) (regs : UserRegisters) : K Unit := do
  let c := (← get).current
  let d : Descriptor := ⟨regs 0⟩
  if d.getSysnum = 0 then
    saveUser c regs
    Context.doIpc cfg c stack d
  else
    Context.doKeyOp c d.getSysnum d

/-! ## Interrupts -/

/-- `Interrupt::trigger`. -/
def Interrupt.trigger (cfg : Config) (i : TableIndex) : K Unit := do
  disableInterrupt i
  if ((← get).interrupt i).senderItem.container.isSome then
    return ()
  keyDeliverFrom cfg (.target i) i (.interrupt i)

/-- The identifier of the line behind an exception number: -1 for SysTick. -/
def lineOf (exceptionNumber : Nat) : Word := BitVec.ofNat 32 (exceptionNumber - 15) - 1#32

/-- `irq_redirector`. -/
def irqRedirector (cfg : Config) (exceptionNumber : Nat) : K Unit := do
  panicUnless (exceptionNumber ≥ 15) .faultToRedirector
  let s ← get
  panicIf (s.irqCount = 0) .emptyRedirectionTable
  panicUnless (exceptionNumber - 15 < s.irqCount) .indexOutOfRange
  match s.irqTable (exceptionNumber - 15) with
  | none => throw .nullRedirectorEntry
  | some handler =>
    Interrupt.trigger cfg handler
    doDeferredSwitchFromIrq

/-- The PendSV handler with `switch_after_interrupt`. -/
def pendSvEntry (stack : Word) (regs : UserRegisters) : K Unit := do
  let c := (← get).current
  modify fun s => { s with pendSv := false }
  saveUser c regs
  modify (·.updateContext c fun b => { b with save := Function.update b.save 9 stack })
  switchNow

/-! ## Steps -/

/-- What can happen to the kernel. -/
inductive Action where
  /-- The current Context executes SVC. -/
  | svc (stack : Word) (regs : UserRegisters)
  /-- The exception of this number is signalled (15 for SysTick, 16 + i for line i); the
  number is the nine-bit field of IPSR. -/
  | irq (exceptionNumber : BitVec 9)
  /-- PendSV gets its turn. -/
  | pendSv (stack : Word) (regs : UserRegisters)
  /-- Unprivileged code stores a byte. -/
  | store (address : Word) (value : Byte)

/-- One step.  An interrupt is taken only on an enabled line, PendSV only when pended, and
a store only happens where the MPU lets unprivileged code write. -/
def step (cfg : Config) (a : Action) : K Unit := do
  let s ← get
  match a with
  | .svc stack regs => svcEntry cfg stack regs
  | .irq n =>
    if n.toNat ≥ 15 ∧ s.irqEnabled (lineOf n.toNat) then irqRedirector cfg n.toNat else pure ()
  | .pendSv stack regs => if s.pendSv then pendSvEntry stack regs else pure ()
  | .store a v =>
    if s.mpu.unprivWrites a then set { s with ram := Function.update s.ram a v } else pure ()

/-- Run a sequence of actions. -/
def runActions (cfg : Config) (as : List Action) : K Unit := as.forM (step cfg)

/-! ## Boot -/

structure MemGrant where
  memoryIndex : Word := 0#32
  brand : Word := 0#32

structure MemoryMapEntry where
  base : Word := 0#32
  «end» : Word := 0#32

/-- `AppInfo`.  `memoryMap` is the flexible array at its end. -/
structure AppInfo where
  abiToken : Word
  memoryMapCount : Word
  deviceMapCount : Word
  extraSlotCount : Word
  externalInterruptCount : Word
  donatedRamBegin : Word
  donatedRamEnd : Word
  initialTaskSp : Word
  initialTaskPc : Word
  initialTaskGrants : Fin 4 → MemGrant
  memoryMap : Nat → MemoryMapEntry

def currentAbiToken : Word := 0xca11ab1e#32

/-- What boot finds in the machine: where ETL's Arena puts the first Context's body in the
donated RAM (`none` if the RAM does not suffice), and the contents of memory. -/
structure Machine where
  firstContextBody : Option Word
  ram : Word → Byte

/-- `RangePtr::slice`: the number of elements from `first` to `last`. -/
def sliceLength (count first last : Word) : K Nat := do
  panicUnless (first ≤ count) .sliceOutOfRange
  panicUnless (first ≤ last && last ≤ count) .sliceOutOfRange
  return (last - first).toNat

/-- `initialize_well_known_objects`. -/
def initializeWellKnownObjects (firstContextBody : Word) : K Unit :=
  modify fun s =>
    { s with
      kind := Function.update (Function.update (Function.update s.kind 0 .null)
        1 .objectTable) 2 .context
      context := Function.update s.context 2 { expectedReplyBrand := Brand.topMask }
      bodyAddr := Function.update s.bodyAddr 2 firstContextBody }

/-- `create_memory_objects`. -/
def createMemoryObjects (app : AppInfo) (n : Nat) : K Unit :=
  (List.range n).forM fun i => do
    let attributes := if i ≥ app.memoryMapCount.toNat then Memory.deviceAttributeMask else 0#32
    Memory.construct (wellKnownObjectCount + i) (app.memoryMap i).base
      ((app.memoryMap i).end - (app.memoryMap i).base) attributes none

/-- `fill_extra_slots`. -/
def fillExtraSlots (start n : Nat) : K Unit :=
  modify fun s => { s with kind := fun e => if start ≤ e ∧ e < start + n then .slot else s.kind e }

/-- An unprivileged store of a word (`k/unprivileged.cc`): false if the MPU refuses it. -/
def ustore (a w : Word) : K Bool := do
  let s ← get
  if s.mpu.unprivWrites a then
    set (s.storeWord a w)
    return true
  else
    return false

/-- `prepare_first_context`. -/
def prepareFirstContext (app : AppInfo) : K Unit := do
  (List.finRange 4).forM fun i => do
    let grant := app.initialTaskGrants i
    panicUnless (grant.memoryIndex.toNat < (← get).count) .indexOutOfRange
    let key ← maybeRef (← makeKey grant.memoryIndex.toNat (grant.brand.setWidth 64))
    modify (·.setKeyAt (.regionReg 2 (i.castLE (by decide))) key)
  applyToMpu 2
  -- The exception frame is eight words; PSR is its last word and PC the one before.
  let frame := app.initialTaskSp - 32#32
  let psrStored ← ustore (frame + 28#32) (1#32 <<< 24)
  let pcStored ← if psrStored then ustore (frame + 24#32) app.initialTaskPc else pure false
  panicUnless pcStored .initialStackFault
  modify (·.updateContext 2 fun b => { b with save := Function.update b.save 9 frame })
  let tableKey ← maybeRef (← makeKey 1 0#64)
  modify (·.setKeyAt (.keyReg 2 1) tableKey)
  Context.makeRunnable 2

/-- `initialize_app` and `start_scheduler`. -/
def startApp (app : AppInfo) (machine : Machine) : K Unit := do
  panicUnless (app.abiToken = currentAbiToken) .badAbiToken
  let tableSize : Word :=
    BitVec.ofNat 32 wellKnownObjectCount + app.memoryMapCount + app.deviceMapCount
      + app.extraSlotCount
  let irqCount : Word := app.externalInterruptCount + 1#32
  let body ← match machine.firstContextBody with
    | some a => pure a
    | none => throw .outOfDonatedRam
  panicIf (tableSize = 0#32) .emptyObjectTable
  panicUnless (2 < tableSize.toNat) .indexOutOfRange
  set ({ count := tableSize.toNat, irqCount := irqCount.toNat, ram := machine.ram } : KState)
  initializeWellKnownObjects body
  let memories ← sliceLength tableSize (BitVec.ofNat 32 wellKnownObjectCount)
    (tableSize - app.extraSlotCount)
  createMemoryObjects app memories
  let slots ← sliceLength tableSize (tableSize - app.extraSlotCount) tableSize
  fillExtraSlots (tableSize - app.extraSlotCount).toNat slots
  prepareFirstContext app
  doDeferredSwitch

/-- A boot of the application that does not panic. -/
def Boots (app : AppInfo) (machine : Machine) (s : KState) : Prop :=
  startApp app machine {} = .ok () s

/-- The states a run reaches between kernel entries. -/
inductive Reachable (cfg : Config) (app : AppInfo) : KState → Prop where
  | boot {machine : Machine} {s : KState} : Boots app machine s → Reachable cfg app s
  | step {s s' : KState} {a : Action} :
      Reachable cfg app s → step cfg a s = .ok () s' → Reachable cfg app s'

end BrittleKernel
