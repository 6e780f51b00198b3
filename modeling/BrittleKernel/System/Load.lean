import BrittleKernel.System.Alloc

/-!
# The Program Loader

`a/sys/load.cc`: a program image is checked, its data segment is copied into fresh RAM and
relocated, and a Context is prepared to run it.
-/

namespace BrittleKernel.System

/-! ## Sizes -/

/-- `round_up_p2`. -/
def roundUpP2 (v : Word) : Word :=
  let v := v - 1#32
  let v := v ||| (v >>> 1)
  let v := v ||| (v >>> 2)
  let v := v ||| (v >>> 4)
  let v := v ||| (v >>> 8)
  let v := v ||| (v >>> 16)
  v + 1#32

/-- `__builtin_ctz`, on zero as the processor's bit reversal and leading-zero count give it. -/
def ctz (v : Word) : Word := v.ctz

/-- The size of a hardware exception frame: eight words. -/
def exceptionFrameSize : Word := 32#32

/-- `kabi::context_l2_size`. -/
def contextL2Size : Word := 9#32

/-! ## Headers -/

structure Header where
  imageSize : Word
  textEnd : Word
  gotEnd : Word
  bssEnd : Word
  stackSize : Word
  entry : Word

/-- `is_valid`. -/
def Header.isValid (hdr : Header) : Bool :=
  hdr.imageSize &&& 3#32 == 0#32
    && hdr.textEnd &&& 3#32 == 0#32
    && hdr.gotEnd &&& 3#32 == 0#32
    && hdr.bssEnd &&& 3#32 == 0#32
    && hdr.stackSize &&& 3#32 == 0#32
    && hdr.entry &&& 1#32 == 0#32
    && hdr.entry < hdr.textEnd
    && hdr.gotEnd ≤ hdr.imageSize
    && hdr.textEnd ≤ hdr.gotEnd
    && hdr.imageSize ≤ hdr.bssEnd
    && exceptionFrameSize ≤ hdr.stackSize

/-- `get_ram_size`. -/
def Header.getRamSize (hdr : Header) : Word :=
  roundUpP2 (hdr.bssEnd - hdr.textEnd + hdr.stackSize)

/-- `relocate_got_entry`. -/
def relocateGotEntry (hdr : Header) (hdrAddr ramAddr entry : Word) : Word :=
  if entry < hdr.textEnd then hdrAddr + entry
  else if entry < hdr.bssEnd then entry - hdr.textEnd + ramAddr
  else entry

/-! ## Loading -/

section

variable (build : Build)

/-- The first part of `load_program`: the header and the word offset of the image in its Memory,
unless the address or the bounds are refused. -/
def readHeader (imgAddr : Word) (imgKey : Key) : Sys (Option (Header × Word)) := do
  if imgAddr &&& 3#32 ≠ 0#32 then
    return none
  let imgRegion ← memoryInspect build imgKey
  if !imgRegion.contains imgAddr then
    return none
  let imgOffset := (imgAddr - imgRegion.getBase) / 4#32
  let imgSize ← memoryPeek build imgKey imgOffset
  if !imgRegion.contains (imgAddr + imgSize) then
    return none
  let textEnd ← memoryPeek build imgKey (imgOffset + 1#32)
  let gotEnd ← memoryPeek build imgKey (imgOffset + 2#32)
  let bssEnd ← memoryPeek build imgKey (imgOffset + 3#32)
  let stackSize ← memoryPeek build imgKey (imgOffset + 4#32)
  let entry ← memoryPeek build imgKey (imgOffset + 5#32)
  return some (⟨imgSize, textEnd, gotEnd, bssEnd, stackSize, entry⟩, imgOffset)

/-- The RAM of a program and the memory for its Context; `none` if either is not to be had. -/
def allocateProgram (hdr : Header) : Sys (Option (Key × Key)) := do
  match ← allocMem build (ctz hdr.getRamSize - 1#32) 0x030000#64 with
  | none => return none
  | some kRam =>
    match ← allocMem build (contextL2Size - 1#32) 0#64 with
    | none =>
      let _ ← freeMem build kRam
      return none
    | some kCtx => return some (kRam, kCtx)

/-- Copy the data image into RAM. -/
def copyData (imgKey kRam : Key) (imgOffset textWords dataWords : Word) : Sys Unit :=
  (List.range dataWords.toNat).forM fun dOff => do
    let word ← memoryPeek build imgKey (imgOffset + textWords + BitVec.ofNat 32 dOff)
    memoryPoke build kRam (BitVec.ofNat 32 dOff) word

/-- Zero the rest of the RAM. -/
def zeroRest (kRam : Key) (dataWords ramWords : Word) : Sys Unit :=
  (List.range' dataWords.toNat (ramWords.toNat - dataWords.toNat)).forM fun dOff =>
    memoryPoke build kRam (BitVec.ofNat 32 dOff) 0#32

/-- Relocate the GOT in place. -/
def relocateGot (hdr : Header) (imgAddr ramBase : Word) (kRam : Key) (gotWords : Word) :
    Sys Unit :=
  (List.range gotWords.toNat).forM fun dOff => do
    let entry ← memoryPeek build kRam (BitVec.ofNat 32 dOff)
    memoryPoke build kRam (BitVec.ofNat 32 dOff) (relocateGotEntry hdr imgAddr ramBase entry)

/-- The RAM of a program: copy, zero, relocate, and the stack frame on top.  Yields its base. -/
def fillRam (hdr : Header) (imgAddr imgOffset : Word) (imgKey kRam : Key) : Sys Word := do
  let textWords := hdr.textEnd / 4#32
  let dataWords := hdr.imageSize / 4#32 - textWords
  copyData build imgKey kRam imgOffset textWords dataWords
  let ramWords := hdr.getRamSize / 4#32
  zeroRest build kRam dataWords ramWords
  let gotWords := hdr.gotEnd / 4#32 - textWords
  let ramRegion ← memoryInspect build kRam
  relocateGot build hdr imgAddr ramRegion.getBase kRam gotWords
  memoryPoke build kRam (ramWords - 1#32) (1#32 <<< 24)
  memoryPoke build kRam (ramWords - 2#32) (hdr.entry + imgAddr)
  return ramRegion.getBase

/-- The Context of a program: regions, r9 and stack pointer. -/
def fillContext (hdr : Header) (ramBase : Word) (imgKey kRam kCtx : Key) : Sys Unit := do
  setRegion build kCtx 0#32 imgKey
  setRegion build kCtx 1#32 kRam
  setRegister build kCtx 5#32 ramBase
  setRegister build kCtx 9#32 (ramBase + hdr.getRamSize - exceptionFrameSize)

/-- Everything after the allocations. -/
def inflate (hdr : Header) (imgAddr imgOffset : Word) (imgKey kRam kCtx : Key) : Sys Key := do
  let kCtx ← memoryBecome build kCtx 0#32 0#32
  let ramBase ← fillRam build hdr imgAddr imgOffset imgKey kRam
  fillContext build hdr ramBase imgKey kRam kCtx
  return kCtx

/-- `load_program`. -/
def loadProgram (imgAddr : Word) (imgKey : Key) : Sys (Option Key) := do
  match ← readHeader build imgAddr imgKey with
  | none => return none
  | some (hdr, imgOffset) =>
    if !hdr.isValid then
      return none
    match ← allocateProgram build hdr with
    | none => return none
    | some (kRam, kCtx) => return some (← inflate build hdr imgAddr imgOffset imgKey kRam kCtx)

end

end BrittleKernel.System
