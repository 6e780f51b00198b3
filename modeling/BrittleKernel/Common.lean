import Mathlib.Logic.Function.Basic

/-!
# Common ABI Vocabulary

The types shared by kernel and programs (`common/*.h`) and the kernel's configuration
constants (`k/config.h`): machine words, brands, generations, IPC descriptors,
exceptions, messages and method selectors.

Machine integers are bit vectors of the width the source gives them.  Object table
entries are numbered by `Nat`: an `Object *` in the source always points at a table
entry, and the entry's number stands for the pointer.
-/

namespace BrittleKernel

/-! ## Scalars -/

abbrev Word := BitVec 32
abbrev Byte := BitVec 8
abbrev Brand := BitVec 64
abbrev Generation := BitVec 32
abbrev Selector := BitVec 16
abbrev Priority := Nat
abbrev TableIndex := Nat

/-- The low word of a brand, `uint32_t(brand)`. -/
def Brand.low (b : Brand) : Word := b.setWidth 32

/-- The high word of a brand, `uint32_t(brand >> 32)`. -/
def Brand.high (b : Brand) : Word := (b >>> 32).setWidth 32

/-- A brand put together from two words, `lo | (Brand(hi) << 32)`. -/
def Brand.ofWords (lo hi : Word) : Brand := lo.setWidth 64 ||| (hi.setWidth 64 <<< 32)

/-- Bit 63: `transparent_mask` for Gates, `reply_brand_mask` for Contexts. -/
def Brand.topMask : Brand := 1#64 <<< 63

/-- Whether bit 63 is set. -/
def Brand.isTop (b : Brand) : Bool := b.getLsbD 63

/-! ## Configuration (`k/config.h`, `common/abi_sizes.h`) -/

abbrev nTaskKeys : Nat := 16
abbrev nTaskRegions : Nat := 6
abbrev nMessageKeys : Nat := 4
abbrev nPriorities : Nat := 2

-- The index types of the fixed-size arrays have numerals; the last three are a message's
-- data words, the registers that the entry sequences save, and the whole save area.
instance neZero_nTaskKeys : @NeZero Nat Zero.ofOfNat0 nTaskKeys := ⟨by decide⟩
instance neZero_nTaskRegions : @NeZero Nat Zero.ofOfNat0 nTaskRegions := ⟨by decide⟩
instance neZero_nMessageKeys : @NeZero Nat Zero.ofOfNat0 nMessageKeys := ⟨by decide⟩
instance neZero_five : @NeZero Nat Zero.ofOfNat0 5 := ⟨by decide⟩
instance neZero_eight : @NeZero Nat Zero.ofOfNat0 8 := ⟨by decide⟩
instance neZero_ten : @NeZero Nat Zero.ofOfNat0 10 := ⟨by decide⟩

/-- Objects created by every boot: Null, Object Table and the first Context. -/
abbrev wellKnownObjectCount : Nat := 3

def contextSize : Word := 448#32
def gateSize : Word := 32#32
def interruptSize : Word := 48#32

/-- Four-bit field `i` of a word: a key map position or a descriptor's register number. -/
def nibble (w : Word) (i : Nat) : Fin 16 := Fin.ofNat 16 (w.toNat >>> (4 * i))

/-! ## Descriptors (`common/descriptor.h`) -/

structure Descriptor where
  bits : Word
deriving DecidableEq

namespace Descriptor

def zero : Descriptor := ⟨0#32⟩

def withSelector (d : Descriptor) (s : Selector) : Descriptor :=
  ⟨(d.bits &&& ~~~0xFFFF#32) ||| s.setWidth 32⟩

def getSelector (d : Descriptor) : Selector := d.bits.setWidth 16

def withError (d : Descriptor) (e : Bool) : Descriptor :=
  ⟨(d.bits &&& ~~~(1#32 <<< 16)) ||| ((BitVec.ofBool e).setWidth 32 <<< 16)⟩

def getError (d : Descriptor) : Bool := d.bits.getLsbD 16
def getSendEnabled (d : Descriptor) : Bool := d.bits.getLsbD 17
def getReceiveEnabled (d : Descriptor) : Bool := d.bits.getLsbD 18
def getBlock (d : Descriptor) : Bool := d.bits.getLsbD 19
def getTarget (d : Descriptor) : Fin 16 := nibble d.bits 5
def getSource (d : Descriptor) : Fin 16 := nibble d.bits 6
def getSysnum (d : Descriptor) : Fin 16 := nibble d.bits 7

def withSendEnabled (d : Descriptor) (e : Bool) : Descriptor :=
  ⟨(d.bits &&& ~~~(1#32 <<< 17)) ||| ((BitVec.ofBool e).setWidth 32 <<< 17)⟩

def withReceiveEnabled (d : Descriptor) (e : Bool) : Descriptor :=
  ⟨(d.bits &&& ~~~(1#32 <<< 18)) ||| ((BitVec.ofBool e).setWidth 32 <<< 18)⟩

def withTarget (d : Descriptor) (t : Fin 16) : Descriptor :=
  ⟨(d.bits &&& ~~~(0xF#32 <<< 20)) ||| (BitVec.ofNat 32 t <<< 20)⟩

def withSource (d : Descriptor) (s : Fin 16) : Descriptor :=
  ⟨(d.bits &&& ~~~(0xF#32 <<< 24)) ||| (BitVec.ofNat 32 s <<< 24)⟩

/-- Only the selector and the error bit survive delivery. -/
def sanitized (d : Descriptor) : Descriptor :=
  (zero.withSelector d.getSelector).withError d.getError

/-- A call receives from register 0, which stands for the fresh reply key. -/
def isCall (d : Descriptor) : Bool := d.getReceiveEnabled && d.getSource == 0

end Descriptor

/-! ## Exceptions (`common/exceptions.h`) -/

/-- The exceptions raised by the modelled kernel code. -/
inductive Exception where
  | badOperation
  | wouldBlock
  | indexOutOfRange
  | badBrand
  | badArgument
  | badKind
  | causality
deriving DecidableEq

def Exception.code : Exception → BitVec 64
  | badOperation => 0xfbfee62145593586#64
  | wouldBlock => 0x1dfc663bc104def5#64
  | indexOutOfRange => 0x0aa90fb0c1751680#64
  | badBrand => 0x71decab8530ce0eb#64
  | badArgument => 0x05d87accc034ac82#64
  | badKind => 0x2cd5ea64cc3bfcd6#64
  | causality => 0x402a370053d833a6#64

/-! ## Messages (`common/message.h`) -/

structure Message where
  desc : Descriptor := Descriptor.zero
  d0 : Word := 0#32
  d1 : Word := 0#32
  d2 : Word := 0#32
  d3 : Word := 0#32
  d4 : Word := 0#32
deriving DecidableEq

namespace Message

def failure (e : Exception) (d2 : Word := 0#32) : Message where
  desc := Descriptor.zero.withError true
  d0 := e.code.setWidth 32
  d1 := (e.code >>> 32).setWidth 32
  d2 := d2

def sanitized (m : Message) : Message := { m with desc := m.desc.sanitized }

end Message

/-! ## Method selectors (`common/selectors.h`) -/

/-- Methods of a Context service key. -/
inductive ContextMethod where
  | readRegister
  | writeRegister
  | readKeyRegister
  | writeKeyRegister
  | readRegionRegister
  | writeRegionRegister
  | makeRunnable
  | getPriority
  | setPriority
  | readLowRegisters
  | readHighRegisters
  | writeLowRegisters
  | writeHighRegisters
deriving DecidableEq

def ContextMethod.ofSelector (s : Selector) : Option ContextMethod :=
  match s.toNat with
  | 1 => some readRegister
  | 2 => some writeRegister
  | 3 => some readKeyRegister
  | 4 => some writeKeyRegister
  | 5 => some readRegionRegister
  | 6 => some writeRegionRegister
  | 7 => some makeRunnable
  | 8 => some getPriority
  | 9 => some setPriority
  | 10 => some readLowRegisters
  | 11 => some readHighRegisters
  | 12 => some writeLowRegisters
  | 13 => some writeHighRegisters
  | _ => none

/-- Methods of a Gate service key. -/
inductive GateMethod where
  | makeClientKey
deriving DecidableEq

def GateMethod.ofSelector (s : Selector) : Option GateMethod :=
  match s.toNat with
  | 1 => some makeClientKey
  | _ => none

/-- Methods of an Interrupt key. -/
inductive InterruptMethod where
  | setTarget
  | enable
deriving DecidableEq

def InterruptMethod.ofSelector (s : Selector) : Option InterruptMethod :=
  match s.toNat with
  | 1 => some setTarget
  | 2 => some enable
  | _ => none

/-- Methods of a Memory key. -/
inductive MemoryMethod where
  | inspect
  | change
  | split
  | become
  | peek
  | poke
  | makeChild
deriving DecidableEq

def MemoryMethod.ofSelector (s : Selector) : Option MemoryMethod :=
  match s.toNat with
  | 1 => some inspect
  | 2 => some change
  | 3 => some split
  | 4 => some become
  | 5 => some peek
  | 6 => some poke
  | 7 => some makeChild
  | _ => none

/-- Methods of an Object Table key. -/
inductive ObjectTableMethod where
  | mintKey
  | readKey
  | getKind
  | invalidate
deriving DecidableEq

def ObjectTableMethod.ofSelector (s : Selector) : Option ObjectTableMethod :=
  match s.toNat with
  | 1 => some mintKey
  | 2 => some readKey
  | 3 => some getKind
  | 4 => some invalidate
  | _ => none

end BrittleKernel
