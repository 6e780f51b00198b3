import BrittleKernel.Queue

/-!
# Keys

`k/key.cc` and `k/keys.h`: the generation check, lazy nulling, and the key banks that
messages are delivered into.  Brands are passed around as references (`BrandRef`), since
the source passes `Brand const &` into the storage of the invoked key.
-/

namespace BrittleKernel

/-! ## Key storage -/

/-- A key stored in the kernel. -/
inductive KeyLoc where
  /-- `Context::Body::keys[i]` -/
  | keyReg (c : TableIndex) (i : Fin nTaskKeys)
  /-- `Context::Body::memory_regions[i]` -/
  | regionReg (c : TableIndex) (i : Fin nTaskRegions)
  /-- `Interrupt::Body::target` -/
  | target (i : TableIndex)
deriving DecidableEq

namespace KState

def keyAt (s : KState) : KeyLoc → Key
  | .keyReg c i => (s.context c).keys i
  | .regionReg c i => (s.context c).regions i
  | .target i => (s.interrupt i).target

def setKeyAt (s : KState) (loc : KeyLoc) (k : Key) : KState :=
  match loc with
  | .keyReg c i => s.updateContext c fun b => { b with keys := Function.update b.keys i k }
  | .regionReg c i =>
    s.updateContext c fun b => { b with regions := Function.update b.regions i k }
  | .target i => s.updateInterrupt i fun b => { b with target := k }

/-- `Key::filled`: a key to the present occupant of an entry. -/
def filled (s : KState) (e : TableIndex) (b : Brand) : Key := ⟨b, s.generation e, some e⟩

/-- `Key::null`. -/
def nullKey (s : KState) : Key := s.filled 0 0#64

/-- The check of `Key::get`: the key points at an entry and names its generation. -/
def isLive (s : KState) (k : Key) : Bool :=
  match k.ptr with
  | some e => k.generation == s.generation e
  | none => false

/-- What a key is after `Key::get`. -/
def resolve (s : KState) (k : Key) : Key := if s.isLive k then k else s.nullKey

/-- The entry that `Key::get` returns. -/
def target (s : KState) (k : Key) : TableIndex := (s.resolve k).ptr.getD 0

end KState

/-- `Object::make_key`; no class refuses a brand. -/
def makeKey (e : TableIndex) (b : Brand) : K (Option Key) := return some ((← get).filled e b)

/-- `Key::get` on a stored key: a key that fails the check is overwritten with null. -/
def keyGet (loc : KeyLoc) : K TableIndex := do
  let s ← get
  unless s.isLive (s.keyAt loc) do
    set (s.setKeyAt loc s.nullKey)
  return s.target (s.keyAt loc)

/-- `Key::get` on a key in the caller's frame: the object and the key as it is afterwards. -/
def localKeyGet (k : Key) : K (TableIndex × Key) := do
  let s ← get
  return (s.target k, s.resolve k)

/-! ## Brand references -/

/-- Where a `Brand const &` points. -/
inductive BrandRef where
  /-- A copy in the kernel's stack frame. -/
  | value (b : Brand)
  /-- The brand field of a stored key. -/
  | stored (loc : KeyLoc)

/-- Follow the reference. -/
def BrandRef.read : BrandRef → K Brand
  | .value b => pure b
  | .stored loc => return ((← get).keyAt loc).brand

/-- The reference handed on by `Key::deliver_from`. -/
def brandRef (cfg : Config) (loc : KeyLoc) : K BrandRef := do
  if cfg.brandByReference then
    return .stored loc
  else
    return .value ((← get).keyAt loc).brand

/-! ## Key banks (`k/keys.h`) -/

/-- `KeysRef`: where a message's keys are deposited. -/
inductive KeysRef where
  /-- A `Keys` in the caller's frame, which the caller reads off the delivery's result. -/
  | frame
  /-- The key registers of a Context through a key map. -/
  | bank (c : TableIndex) (map : Word)

/-- `KeysRef::set`: register 0 is defended. -/
def KeysRef.set (r : KeysRef) (index : Nat) (k : Key) : K Unit :=
  match r with
  | .frame => pure ()
  | .bank c map =>
    if nibble map index = 0 then pure ()
    else modify (·.setKeyAt (.keyReg c (nibble map index)) k)

/-- `KeysRef::get` on a Context's registers. -/
def bankGet (c : TableIndex) (map : Word) (index : Nat) : K Key :=
  return (← get).keyAt (.keyReg c (nibble map index))

end BrittleKernel
