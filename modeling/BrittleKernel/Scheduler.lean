import BrittleKernel.Key

/-!
# Memory Regions and the Scheduler

How Memory objects turn brands into MPU regions (`k/memory.cc`), how a Context's region
registers are loaded into the MPU, and the deferred context switch (`k/scheduler.cc`).
-/

namespace BrittleKernel

/-! ## Memory attributes -/

namespace Memory

def deviceAttributeMask : Word := 1#32
def mappableAttributeMask : Word := 2#32
def abiAttributesMask : Word := 3#32
def cachedL2hsLsb : Nat := 8
def cachedL2hsMask : Word := 0x1F#32 <<< cachedL2hsLsb

def isDevice (m : Memory) : Bool := m.attributes &&& deviceAttributeMask != 0#32

def isMappable (m : Memory) : Bool := m.attributes &&& mappableAttributeMask != 0#32

def getCachedL2HalfSize (m : Memory) : Word := (m.attributes &&& cachedL2hsMask) >>> cachedL2hsLsb

/-- `Memory::get_region_for_brand`. -/
def getRegionForBrand (m : Memory) (brand : Brand) : Region :=
  if !m.isMappable then
    Region.disabled
  else
    { rbar := (m.base >>> 5) <<< 5
      rasr := Rasr.withEnable (Rasr.withSize (brand.low <<< 8) m.getCachedL2HalfSize) true }

end Memory

/-- `Object::get_region_for_brand` with its Memory override. -/
def KState.regionForBrand (s : KState) (e : TableIndex) (brand : Brand) : Region :=
  match s.kind e with
  | .memory => (s.memory e).getRegionForBrand brand
  | _ => Region.disabled

/-! ## The MPU -/

def KState.setMpu (s : KState) (i : Fin nTaskRegions) (r : Region) : KState :=
  { s with mpu := Function.update s.mpu i r }

/-- `Context::apply_to_mpu`. -/
def applyToMpu (c : TableIndex) : K Unit :=
  (List.finRange nTaskRegions).forM fun i => do
    let object ← keyGet (.regionReg c i)
    let s ← get
    let region := s.regionForBrand object (s.keyAt (.regionReg c i)).brand
    set (s.setMpu i region)

/-! ## Scheduling -/

def pendSwitch : K Unit := modify fun s => { s with switchPending := true }

def switchNow : K Unit := do
  let s ← get
  match s.peek .runnable with
  | none => throw .noRunnable
  | some head =>
    set { s.record (.switched head.owner) with current := head.owner }
    applyToMpu head.owner

def doDeferredSwitch : K Unit := do
  let s ← get
  if s.switchPending then
    set { s with switchPending := false }
    switchNow

/-- `do_deferred_switch_from_irq`: hands the switch over to PendSV. -/
def doDeferredSwitchFromIrq : K Unit := do
  let s ← get
  if s.switchPending then
    set { s with switchPending := false, pendSv := true }

end BrittleKernel
