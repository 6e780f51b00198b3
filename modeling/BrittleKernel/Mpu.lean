import BrittleKernel.Common

/-!
# MPU Regions and Access Permissions

The region descriptors that the kernel loads into the ARMv7-M MPU (`k/region.h`), the
access permission decoding of `k/memory.cc`, and the hardware's reading of a loaded
region.

The register accessors come from the ETL library, which is not part of the repository:
a setter writes exactly its field and a getter reads exactly its field.  ETL's
`AccessPermissions` has one enumerator for each of the six access combinations; table
B3-15 gives read-only access two encodings, so which of the two carries the enumerator
is a parameter.
-/

namespace BrittleKernel

/-! ## Access permissions -/

abbrev AccessPermissions := BitVec 3

/-- The encodings of ETL's `AccessPermissions` enumerators. -/
structure Etl where
  /-- Encoding of `p_read_u_read`. -/
  readRead : AccessPermissions
  readRead_encodes : readRead = 6#3 ∨ readRead = 7#3

inductive Access where
  | none
  | read
  | write
deriving DecidableEq

/-- Position in the order none < read < write. -/
def Access.rank : Access → Nat
  | none => 0
  | read => 1
  | write => 2

structure SplitAccess where
  priv : Access
  unpriv : Access
deriving DecidableEq

/-- `ap_is_unpredictable`. -/
def apIsUnpredictable (ap : AccessPermissions) : Bool := ap == 4#3

/-- `decode_ap`; `none` where the source panics in the default case. -/
def decodeAp (etl : Etl) (ap : AccessPermissions) : Option SplitAccess :=
  if ap = 0#3 then some ⟨.none, .none⟩
  else if ap = 5#3 then some ⟨.read, .none⟩
  else if ap = etl.readRead then some ⟨.read, .read⟩
  else if ap = 1#3 then some ⟨.write, .none⟩
  else if ap = 2#3 then some ⟨.write, .read⟩
  else if ap = 3#3 then some ⟨.write, .write⟩
  else none

/-- The comparison made by `ap_is_stronger` on the decoded sides. -/
def SplitAccess.isStronger (a b : SplitAccess) : Bool :=
  a.priv.rank > b.priv.rank || a.unpriv.rank > b.unpriv.rank

/-! ## Region registers -/

/-- A Region Attribute and Size Register value. -/
abbrev Rasr := Word

namespace Rasr

def getEnable (r : Rasr) : Bool := r.getLsbD 0
def getSize (r : Rasr) : BitVec 5 := (r >>> 1).setWidth 5
def getSrd (r : Rasr) : Byte := (r >>> 8).setWidth 8
def getAp (r : Rasr) : AccessPermissions := (r >>> 24).setWidth 3

def withEnable (r : Rasr) (e : Bool) : Rasr := (r &&& ~~~1#32) ||| (BitVec.ofBool e).setWidth 32

def withSize (r : Rasr) (size : Word) : Rasr :=
  (r &&& ~~~(0x1F#32 <<< 1)) ||| ((size &&& 0x1F#32) <<< 1)

/-- The XN, AP, TEX, S, C, B and SRD fields. -/
def attributeMask : Rasr := 0x173FFF00#32

end Rasr

/-- `scrub_rasr`: keep the XN, AP, TEX, S, C, B and SRD fields, clear everything else. -/
def scrubRasr (dirty : Rasr) : Rasr := dirty &&& Rasr.attributeMask

structure Region where
  rbar : Word := 0#32
  rasr : Rasr := 0#32
deriving DecidableEq

namespace Region

/-- What `Object::get_region_for_brand` returns for anything but mappable Memory. -/
def disabled : Region := {}

/-- Whether a loaded region matches an address: enabled, the address shares the bits of
the base above the region size, and the address's eighth is not disabled. -/
def covers (r : Region) (a : Word) : Bool :=
  let l2 := r.rasr.getSize.toNat + 1
  r.rasr.getEnable && (a >>> l2 == r.rbar >>> l2)
    && !(8 ≤ l2 && r.rasr.getSrd.getLsbD ((a >>> (l2 - 3)).toNat % 8))

/-- Whether unprivileged code may write through this region. -/
def unprivWrites (r : Region) : Bool := r.rasr.getAp == 3#3

end Region

/-- The MPU's task regions. -/
abbrev Mpu := Fin nTaskRegions → Region

/-- Unprivileged writes: the highest-numbered region that covers the address decides, and
an address no region covers faults. -/
def Mpu.unprivWrites (mpu : Mpu) (a : Word) : Bool :=
  match (List.finRange nTaskRegions).reverse.find? fun i => (mpu i).covers a with
  | some i => (mpu i).unprivWrites
  | none => false

end BrittleKernel
