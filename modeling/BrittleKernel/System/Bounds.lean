import BrittleKernel.System.Sizing

/-!
# Bounds of Program Images

Which images the loader takes in, against the Memory that is supposed to contain them.  The
region test rounds and wraps, so that images which end with their Memory are turned away,
headers may be read past its end, and sizes that carry the end past 2^32 are let through.
-/

namespace BrittleKernel.System

open Hoare KState

/-! ## Image Memory -/

/-- A mappable Memory below 2^32 and what it contains. -/
structure Image where
  base : Word
  size : Word
  content : Word → Byte
  natural : Memory.NaturallyMappable base size
  below : base.toNat + size.toNat < 2 ^ 32

namespace Image

variable (img : Image)

/-- Little-endian word of the content. -/
def word (a : Word) : Word :=
  img.content (a + 3#32) ++ img.content (a + 2#32) ++ img.content (a + 1#32) ++ img.content a

/-- The key designates the Memory, as it was constructed and with this content. -/
structure In (σ : State) (key : Key) : Prop where
  block : σ.HasBlock key img.base img.size
  attributes : ∃ a, (σ.kernel.memory (σ.kernel.target key)).attributes =
    Memory.initAttributes img.base img.size a
  content : ∀ a : Word, img.base.toNat ≤ a.toNat → a.toNat < img.base.toNat + img.size.toNat →
    σ.kernel.ram a = img.content a

/-- Offset of an address in the Memory. -/
def offset (imgAddr : Word) : Nat := (imgAddr - img.base).toNat

/-- The header that starts at an address. -/
def header (imgAddr : Word) : Header where
  imageSize := img.word imgAddr
  textEnd := img.word (imgAddr + 4#32)
  gotEnd := img.word (imgAddr + 8#32)
  bssEnd := img.word (imgAddr + 12#32)
  stackSize := img.word (imgAddr + 16#32)
  entry := img.word (imgAddr + 20#32)

/-- The image that the word at an address declares lies in the Memory. -/
structure Contains (imgAddr : Word) : Prop where
  above : img.base.toNat ≤ imgAddr.toNat
  word : imgAddr.toNat + 4 ≤ img.base.toNat + img.size.toNat
  inside : imgAddr.toNat + (img.word imgAddr).toNat ≤ img.base.toNat + img.size.toNat

end Image

/-- Size of a header. -/
abbrev headerSize : Nat := 24

/-- The loader's bounds checks do what they are for, whatever the system's state. -/
structure BoundsExact (build : Build) (img : Image) (imgAddr : Word) : Prop where
  /-- No assertion fails on a peek beyond the image's Memory. -/
  peeks : ∀ (σ : State) (key : Key), img.In σ key →
    wp (loadProgram build imgAddr key) (fun _ _ => True)
      (fun stop _ => ∀ offset : Word, img.size.toNat / 4 ≤ offset.toNat →
        stop ≠ .assertion key (request 5#16 offset)) σ
  /-- An image that is not inside is refused. -/
  refused : ∀ (σ : State) (key : Key), img.In σ key → ¬img.Contains imgAddr →
    ∃ σ', loadProgram build imgAddr key σ = .ok none σ'
  /-- An aligned image of at least header size that is inside gets past the bounds checks. -/
  accepted : ∀ (σ : State) (key : Key), img.In σ key → 4 ∣ imgAddr.toNat →
    img.Contains imgAddr → headerSize ≤ (img.word imgAddr).toNat →
    ∃ hdr imgOffset σ', readHeader build imgAddr key σ = .ok (some (hdr, imgOffset)) σ'

namespace Image

variable (img : Image)

/-- What the two region tests let through. -/
def Admitted (imgAddr : Word) : Prop :=
  img.offset imgAddr + (img.word imgAddr).toNat + 1 < img.size.toNat ∨
    2 ^ 32 ≤ img.offset imgAddr + (img.word imgAddr).toNat + 1

/-- Where the bounds checks are right: the address is refused at once, or
the header fits if the image is let through, the image does not end with the Memory or a byte
before it, and no size that carries the end past 2^32 comes with a header that gets RAM. -/
def Judged (imgAddr : Word) : Prop :=
  4 ∣ imgAddr.toNat → img.offset imgAddr < img.size.toNat →
    (img.Admitted imgAddr → img.offset imgAddr + headerSize ≤ img.size.toNat) ∧
    ¬(headerSize ≤ (img.word imgAddr).toNat ∧
      img.size.toNat ≤ img.offset imgAddr + (img.word imgAddr).toNat + 1 ∧
      img.offset imgAddr + (img.word imgAddr).toNat ≤ img.size.toNat) ∧
    ¬(2 ^ 32 ≤ img.offset imgAddr + (img.word imgAddr).toNat ∧
      (img.header imgAddr).isValid = true ∧ 32 ≤ (img.header imgAddr).getRamSize.toNat)

end Image

/-! ## The region test -/

/-- A region as Inspect reports it for the image's Memory. -/
structure Image.Reports (img : Image) (r : MemRegion) : Prop where
  base : r.getBase = img.base
  contains : ∀ addr : Word,
    r.contains addr = true ↔ ((addr - img.base).toNat + 1) % 2 ^ 32 < img.size.toNat

theorem getL2HalfSize_toNat (rbar : Word) (rasr : Rasr) :
    (MemRegion.getL2HalfSize ⟨rbar, rasr⟩).toNat = rasr.getSize.toNat := by
  rw [MemRegion.getL2HalfSize, BitVec.toNat_and, Rasr.getSize, BitVec.toNat_setWidth]
  exact Nat.and_two_pow_sub_one_eq_mod _ 5

theorem getBase_of_dvd {base : Word} (h : 2 ^ 5 ∣ base.toNat) (rasr : Word) :
    MemRegion.getBase ⟨base, rasr⟩ = base := by
  have hmask : base &&& ~~~0x1F#32 = (base >>> 5) <<< 5 := by
    apply BitVec.eq_of_getLsbD_eq
    intro i hi
    simp only [BitVec.getLsbD_and, BitVec.getLsbD_not, BitVec.getLsbD_shiftLeft,
      BitVec.getLsbD_ushiftRight]
    interval_cases i <;> simp
  show base &&& ~~~0x1F#32 = base
  rw [hmask]
  apply BitVec.eq_of_toNat_eq
  rw [BitVec.toNat_shiftLeft, BitVec.toNat_ushiftRight, Blocks.shiftRight_shiftLeft_of_dvd h,
    Nat.mod_eq_of_lt base.isLt]

theorem Image.reports (img : Image) {m : Memory} {a : Word} (hbase : m.base = img.base)
    (hattributes : m.attributes = Memory.initAttributes img.base img.size a) (brand : Brand) :
    img.Reports ⟨m.base, (m.getRegionForBrand brand).rasr⟩ := by
  have hgeometry := Memory.geometryExact hbase hattributes
  have hsize := hgeometry.regionSize img.natural brand
  obtain ⟨l, hl, -, hdvd⟩ := img.natural.exponent
  have h32 : 2 ^ 5 ∣ img.base.toNat := (Nat.pow_dvd_pow 2 (by omega)).trans hdvd
  have hgetBase := getBase_of_dvd h32 (m.getRegionForBrand brand).rasr
  rw [hbase]
  refine ⟨hgetBase, fun addr => ?_⟩
  have hhalf := getL2HalfSize_toNat img.base (m.getRegionForBrand brand).rasr
  rw [← hhalf] at hsize
  simp only [MemRegion.contains, hgetBase, decide_eq_true_eq]
  generalize (MemRegion.getL2HalfSize ⟨img.base, (m.getRegionForBrand brand).rasr⟩).toNat = h at hsize
  have hlt : 2 ^ h < 2 ^ 32 := by
    have := img.size.isLt
    omega
  have hshift : (1#32 <<< h).toNat = 2 ^ h := by
    rw [BitVec.toNat_shiftLeft, Nat.shiftLeft_eq]
    simpa using Nat.mod_eq_of_lt hlt
  rw [BitVec.lt_def, hshift, BitVec.toNat_udiv, BitVec.toNat_add, ← hsize]
  show ((addr - img.base).toNat + 1) % 2 ^ 32 / 2 < 2 ^ h ↔ _
  rw [Nat.div_lt_iff_lt_mul (by decide), ← Nat.pow_succ]

/-! ## Looking at the image -/

namespace Image

variable {img : Image} {build : Build} {σ : State} {key : Key} {imgAddr : Word}

theorem In.of_consulted (h : img.In σ key) (k : Key) : img.In (σ.consulted k) key where
  block := (σ.sameTables_consulted k).hasBlock h.block
  attributes := by
    rw [(σ.sameTables_consulted k).target]
    exact h.attributes
  content := h.content

theorem In.wp_inspect (h : img.In σ key) : ∃ r, img.Reports r ∧
    ∀ {Q : MemRegion → State → Prop} {E : Stop → State → Prop},
      wp (memoryInspect build key) Q E σ ↔ Q r (σ.consulted key) := by
  obtain ⟨a, ha⟩ := h.attributes
  exact ⟨_, img.reports h.block.base ha key.brand, wp_memoryInspect h.block.live h.block.kind⟩

/-- A word of the content, within the Memory. -/
theorem In.loadWord (h : img.In σ key) {a : Word} (hlow : img.base.toNat ≤ a.toNat)
    (hhigh : a.toNat + 4 ≤ img.base.toNat + img.size.toNat) : σ.kernel.loadWord a = img.word a := by
  have hbelow := img.below
  have hbyte : ∀ n : Word, n.toNat < 4 → σ.kernel.ram (a + n) = img.content (a + n) := by
    intro n hn
    have hadd : (a + n).toNat = a.toNat + n.toNat := by
      rw [BitVec.toNat_add, Nat.mod_eq_of_lt (by omega)]
    exact h.content _ (by omega) (by omega)
  have hzero := hbyte 0#32 (by decide)
  rw [BitVec.add_zero] at hzero
  rw [KState.loadWord, word, hbyte 3#32 (by decide), hbyte 2#32 (by decide), hbyte 1#32 (by decide),
    hzero]

/-- Where an aligned address lies in the Memory. -/
structure Starts (img : Image) (imgAddr : Word) : Prop where
  aligned : 4 ∣ imgAddr.toNat
  inside : img.offset imgAddr < img.size.toNat

theorem Starts.offset_dvd (h : img.Starts imgAddr) : 4 ∣ img.offset imgAddr := by
  obtain ⟨l, hl, -, hdvd⟩ := img.natural.exponent
  have hbase : 4 ∣ img.base.toNat := (Nat.pow_dvd_pow 2 (show 2 ≤ l + 1 by omega)).trans hdvd
  have haligned := h.aligned
  rw [offset, BitVec.toNat_sub]
  omega

theorem size_dvd (img : Image) : 4 ∣ img.size.toNat := by
  obtain ⟨l, hl, hsize, -⟩ := img.natural.exponent
  rw [hsize]
  exact Nat.pow_dvd_pow 2 (show 2 ≤ l + 1 by omega)

/-- The address is the base plus the offset. -/
theorem Starts.toNat_eq (h : img.Starts imgAddr) :
    imgAddr.toNat = img.base.toNat + img.offset imgAddr := by
  have hbelow := img.below
  have hinside := h.inside
  have haddr := imgAddr.isLt
  have hbase := img.base.isLt
  rw [offset, BitVec.toNat_sub] at hinside ⊢
  omega

/-- The word offset of word `j` from the image's address on. -/
theorem toNat_wordOffset (img : Image) (imgAddr : Word) {j : Word} (hj : j.toNat < 2 ^ 29) :
    ((imgAddr - img.base) / 4#32 + j).toNat = img.offset imgAddr / 4 + j.toNat := by
  have hoffset : (imgAddr - img.base).toNat = img.offset imgAddr := rfl
  have hlt := (imgAddr - img.base).isLt
  rw [BitVec.toNat_add, BitVec.toNat_udiv, hoffset, show (4#32 : Word).toNat = 4 from rfl]
  rw [hoffset] at hlt
  omega

/-- Peeking at word `j` of the image: inside it is the content's word, outside the assertion
fails. -/
theorem In.wp_peek (h : img.In σ key) (hstart : img.Starts imgAddr) {j : Word} (hj : j.toNat < 2 ^ 29)
    {Q : Word → State → Prop} {E : Stop → State → Prop}
    (hin : img.offset imgAddr + 4 * j.toNat + 4 ≤ img.size.toNat →
      Q (img.word (imgAddr + 4#32 * j)) (σ.consulted key))
    (hout : img.size.toNat < img.offset imgAddr + 4 * j.toNat + 4 →
      E (.assertion key (request 5#16 ((imgAddr - img.base) / 4#32 + j))) (σ.consulted key)) :
    wp (memoryPeek build key ((imgAddr - img.base) / 4#32 + j)) Q E σ := by
  have hword := img.toNat_wordOffset imgAddr hj
  have hoffset := hstart.offset_dvd
  have hsize := img.size_dvd
  have haddr := hstart.toNat_eq
  have hbelow := img.below
  rw [h.block.wp_peek]
  split
  next hlt =>
    rw [BitVec.lt_def, hword, BitVec.toNat_udiv, show (4#32 : Word).toNat = 4 from rfl] at hlt
    have hpeek : img.base + 4#32 * ((imgAddr - img.base) / 4#32 + j) = imgAddr + 4#32 * j := by
      apply BitVec.eq_of_toNat_eq
      rw [BitVec.toNat_add, BitVec.toNat_mul, hword, BitVec.toNat_add, BitVec.toNat_mul, haddr,
        show (4#32 : Word).toNat = 4 from rfl]
      omega
    have hsum : (imgAddr + 4#32 * j).toNat = imgAddr.toNat + 4 * j.toNat := by
      rw [BitVec.toNat_add, BitVec.toNat_mul, show (4#32 : Word).toNat = 4 from rfl]
      omega
    rw [hpeek, h.loadWord (by omega) (by omega)]
    exact hin (by omega)
  next hge =>
    rw [BitVec.lt_def, hword, BitVec.toNat_udiv, show (4#32 : Word).toNat = 4 from rfl] at hge
    exact hout (by omega)

/-- The word that declares the image's size can be read. -/
theorem In.wp_peekSize (h : img.In σ key) (hstart : img.Starts imgAddr)
    {Q : Word → State → Prop} {E : Stop → State → Prop}
    (hin : Q (img.word imgAddr) (σ.consulted key)) :
    wp (memoryPeek build key ((imgAddr - img.base) / 4#32)) Q E σ := by
  have hoffset := hstart.offset_dvd
  have hsize := img.size_dvd
  have hinside := hstart.inside
  have hpeek := @In.wp_peek img build σ key imgAddr h hstart 0#32 (by decide) Q E
  simp only [BitVec.add_zero, BitVec.mul_zero] at hpeek
  apply hpeek
  · intro _
    exact hin
  · intro hout
    rw [show (0#32 : Word).toNat = 0 from rfl] at hout
    omega

/-! ## Reading the header -/

/-- The first region test, of an aligned address. -/
theorem Reports.contains_address {r : MemRegion} (h : img.Reports r) (haligned : 4 ∣ imgAddr.toNat) :
    r.contains imgAddr = true ↔ img.Starts imgAddr := by
  have hsize := img.size_dvd
  have hlt : img.offset imgAddr < 2 ^ 32 := (imgAddr - img.base).isLt
  rw [h.contains]
  show (img.offset imgAddr + 1) % 2 ^ 32 < _ ↔ _
  obtain ⟨l, hl, -, hdvd⟩ := img.natural.exponent
  have hbase : 4 ∣ img.base.toNat := (Nat.pow_dvd_pow 2 (show 2 ≤ l + 1 by omega)).trans hdvd
  have hoffset : 4 ∣ img.offset imgAddr := by
    rw [offset, BitVec.toNat_sub]
    omega
  constructor
  · intro hin
    exact ⟨haligned, by omega⟩
  · intro hstart
    have := hstart.inside
    omega

/-- The second region test, of the address where the image ends. -/
theorem Reports.contains_end {r : MemRegion} (h : img.Reports r) (hstart : img.Starts imgAddr) :
    r.contains (imgAddr + img.word imgAddr) = true ↔ img.Admitted imgAddr := by
  have hinside := hstart.inside
  have hsize := img.size.isLt
  have hword := (img.word imgAddr).isLt
  have hend : (imgAddr + img.word imgAddr - img.base).toNat =
      (img.offset imgAddr + (img.word imgAddr).toNat) % 2 ^ 32 := by
    rw [offset, ← BitVec.toNat_add]
    congr 1
    rw [BitVec.sub_eq_add_neg, BitVec.sub_eq_add_neg, BitVec.add_assoc,
      BitVec.add_comm (img.word imgAddr), ← BitVec.add_assoc]
  rw [h.contains, hend, Admitted]
  omega

theorem Starts.peek_outside (hstart : img.Starts imgAddr) {j : Word} (hj : j.toNat < 2 ^ 29)
    (hout : img.size.toNat < img.offset imgAddr + 4 * j.toNat + 4) :
    img.size.toNat / 4 ≤ ((imgAddr - img.base) / 4#32 + j).toNat := by
  have hoffset := hstart.offset_dvd
  have hsize := img.size_dvd
  rw [img.toNat_wordOffset imgAddr hj]
  omega

/-- The outcomes of reading the header.  `I` is what the caller knows of the state. -/
theorem wp_readHeader {I : State → Prop} (hIn : ∀ σ, I σ → img.In σ key)
    (hI : ∀ σ, I σ → I (σ.consulted key)) (h : I σ)
    {Q : Option (Header × Word) → State → Prop} {E : Stop → State → Prop}
    (hrefused : ¬(img.Starts imgAddr ∧ img.Admitted imgAddr) → ∀ σ', I σ' → Q none σ')
    (hread : img.Starts imgAddr → img.Admitted imgAddr →
      img.offset imgAddr + headerSize ≤ img.size.toNat → ∀ σ', I σ' →
      Q (some (img.header imgAddr, (imgAddr - img.base) / 4#32)) σ')
    (hcut : img.Starts imgAddr → img.Admitted imgAddr →
      img.size.toNat < img.offset imgAddr + headerSize → ∀ (o : Word) σ',
      img.size.toNat / 4 ≤ o.toNat → E (.assertion key (request 5#16 o)) σ') :
    wp (readHeader build imgAddr key) Q E σ := by
  obtain ⟨r, hr, hinspect⟩ := @In.wp_inspect img build σ key (hIn σ h)
  have h₁ := hI σ h
  simp only [readHeader, wp_bind, wp_ite, wp_pure, hinspect, hr.base, ne_eq]
  constructor
  · intro hmisaligned
    apply hrefused _ σ h
    rintro ⟨hstart, -⟩
    exact hmisaligned (and_three_eq_zero_iff.mpr hstart.aligned)
  intro haligned
  have haligned' : 4 ∣ imgAddr.toNat := and_three_eq_zero_iff.mp (not_not.mp haligned)
  constructor
  · intro hout
    apply hrefused _ _ h₁
    rintro ⟨hstart, -⟩
    simp [(hr.contains_address haligned').mpr hstart] at hout
  intro hin
  have hstart : img.Starts imgAddr := (hr.contains_address haligned').mp (by simpa using hin)
  apply (hIn _ h₁).wp_peekSize hstart
  have h₂ := hI _ h₁
  constructor
  · intro hout
    apply hrefused _ _ h₂
    rintro ⟨-, hadmitted⟩
    simp [(hr.contains_end hstart).mpr hadmitted] at hout
  intro hin
  have hadmitted : img.Admitted imgAddr := (hr.contains_end hstart).mp (by simpa using hin)
  -- Five more words; whichever is the first outside stops the loader.
  have hbeyond : ∀ (j : Word) σ', j.toNat < 6 →
      img.size.toNat < img.offset imgAddr + 4 * j.toNat + 4 →
      E (.assertion key (request 5#16 ((imgAddr - img.base) / 4#32 + j))) σ' := by
    intro j σ' hj hout
    have hheader : headerSize = 24 := rfl
    exact hcut hstart hadmitted (by omega) _ σ' (hstart.peek_outside (by omega) hout)
  have h₃ := hI _ h₂
  have h₄ := hI _ h₃
  have h₅ := hI _ h₄
  have h₆ := hI _ h₅
  apply (hIn _ h₂).wp_peek hstart (by decide) _ fun hout => hbeyond _ _ (by decide) hout
  intro _
  apply (hIn _ h₃).wp_peek hstart (by decide) _ fun hout => hbeyond _ _ (by decide) hout
  intro _
  apply (hIn _ h₄).wp_peek hstart (by decide) _ fun hout => hbeyond _ _ (by decide) hout
  intro _
  apply (hIn _ h₅).wp_peek hstart (by decide) _ fun hout => hbeyond _ _ (by decide) hout
  intro _
  apply (hIn _ h₆).wp_peek hstart (by decide) _ fun hout => hbeyond _ _ (by decide) hout
  intro hlast
  exact hread hstart hadmitted hlast _ (hI _ h₆)

end Image

/-! ## After the header -/

/-- The stop is not the assertion on a peek beyond the image's Memory. -/
def Image.PeeksInside (img : Image) (key : Key) (stop : Stop) : Prop :=
  ∀ offset : Word, img.size.toNat / 4 ≤ offset.toNat → stop ≠ .assertion key (request 5#16 offset)

namespace PeeksInside

variable {img : Image} {build : Build} {key k : Key}

theorem of_selector {m : Message} (h : m.desc.getSelector ≠ 5#16) :
    img.PeeksInside key (.assertion k m) := by
  intro offset _ hstop
  injection hstop with _ hm
  apply h
  rw [hm, getSelector_request]

theorem call {m : Message} {keys : Keys} : Throws (img.PeeksInside key) (call build k m keys) := by
  have hkernel : ∀ {α : Type} (x : K α), Throws (img.PeeksInside key) (onKernel x) := by
    intro α x σ
    rw [wp_onKernel]
    simp only [wp]
    cases x σ.kernel with
    | ok a s => trivial
    | error p s =>
      intro _ _ hstop
      contradiction
  apply Throws.bind (hkernel _)
  intro r
  apply Throws.bind Throws.get
  intro σ
  apply Throws.ite
  · intro _
    apply Throws.bind (Throws.throw _) fun _ => hkernel _
    intro _ _ hstop
    contradiction
  · intro _
    exact hkernel _

theorem callAsserting {m : Message} {keys : Keys} (h : img.PeeksInside key (.assertion k m)) :
    Throws (img.PeeksInside key) (callAsserting build k m keys) := by
  apply Throws.bind call
  intro rs
  apply Throws.ite
  · intro _
    exact Throws.bind (Throws.throw h) fun _ => Throws.pure _
  · intro _
    exact Throws.pure _

/-- A wrapper of a method other than Peek. -/
theorem wrapper {α : Type} {selector : Selector} {d0 d1 d2 : Word} {keys : Keys}
    {f : ReplySender → Sys α} (h : selector ≠ 5#16)
    (hf : ∀ rs, Throws (img.PeeksInside key) (f rs)) :
    Throws (img.PeeksInside key)
      (System.callAsserting build k (request selector d0 d1 d2) keys >>= f) := by
  apply Throws.bind (callAsserting (of_selector _)) hf
  rw [getSelector_request]
  exact h

theorem peek {offset : Word} (h : k = key → offset.toNat < img.size.toNat / 4) :
    Throws (img.PeeksInside key) (memoryPeek build k offset) := by
  apply Throws.bind (callAsserting _) fun _ => Throws.pure _
  intro offset' hbeyond hstop
  injection hstop with hk hm
  obtain rfl : offset = offset' := congrArg Message.d0 hm
  have hin := h hk
  omega

theorem mintKey {index : Word} {brand : Brand} :
    Throws (img.PeeksInside key) (mintKey build index brand) :=
  Throws.bind Throws.get fun _ => wrapper (by decide) fun _ => Throws.pure _

theorem readKey : Throws (img.PeeksInside key) (readKey build k) :=
  Throws.bind Throws.get fun _ => wrapper (by decide) fun _ => Throws.pure _

theorem poke {offset word : Word} : Throws (img.PeeksInside key) (memoryPoke build k offset word) :=
  wrapper (by decide) fun _ => Throws.pure _

theorem inspect : Throws (img.PeeksInside key) (memoryInspect build k) :=
  wrapper (by decide) fun _ => Throws.pure _

theorem allocSlotInt : Throws (img.PeeksInside key) (allocSlotInt build) := by
  intro σ
  simp only [System.allocSlotInt, wp_bind, wp_get, wp_ite, wp_set, wp_pure, implies_true, and_self]

/-- The allocator looks at the first word of its blocks only. -/
theorem memTake {l : Nat} {brand : Brand} : Throws (img.PeeksInside key) (memTake build l brand) := by
  apply Throws.bind Throws.get
  intro σ
  apply Throws.bind mintKey
  intro k
  apply Throws.bind (peek fun _ => _) 
  · intro word
    exact Throws.bind (fun _ => trivial) fun _ => Throws.bind poke fun _ => Throws.pure _
  · obtain ⟨l, hl, hsize, -⟩ := img.natural.exponent
    have := Nat.pow_le_pow_right (show 0 < 2 by decide) (show 2 ≤ l + 1 by omega)
    simp
    omega

theorem setMemRoot {l : Nat} {oti : Word} : Throws (img.PeeksInside key) (setMemRoot l oti) :=
  fun _ => trivial

theorem freeMem : Throws (img.PeeksInside key) (freeMem build k) := by
  apply Throws.bind readKey
  rintro ⟨oti, brand⟩
  apply Throws.bind (Throws.bind Throws.get fun _ => wrapper (by decide) fun _ => Throws.pure _)
  intro kind
  apply Throws.ite
  · intro _
    exact Throws.pure _
  intro _
  apply Throws.bind (Throws.bind Throws.get fun _ => Throws.bind call fun _ => Throws.pure _)
  intro invalidated
  apply Throws.ite
  · intro _
    exact Throws.pure _
  intro _
  apply Throws.bind mintKey
  intro kFreed
  apply Throws.bind inspect
  intro region
  apply Throws.bind Throws.get
  intro σ
  exact Throws.bind poke fun _ => Throws.bind setMemRoot fun _ => Throws.pure _

theorem splitOnce {l2p : Nat} : Throws (img.PeeksInside key) (splitOnce build l2p) := by
  apply Throws.bind memTake
  intro kBot
  apply Throws.bind readKey
  rintro ⟨botOti, brand⟩
  apply Throws.bind allocSlotInt
  intro slot
  cases slot with
  | none => exact Throws.pure _
  | some topOti =>
    apply Throws.bind mintKey
    intro kSlot
    apply Throws.bind (wrapper (by decide) fun _ => Throws.pure _)
    rintro ⟨kBot, kTop⟩
    apply Throws.bind Throws.get
    intro σ
    exact Throws.bind poke fun _ => Throws.bind poke fun _ =>
      Throws.bind setMemRoot fun _ => Throws.pure _

theorem splitDown {target n : Nat} : Throws (img.PeeksInside key) (splitDown build target n) := by
  induction n with
  | zero => exact Throws.pure _
  | succ n ih =>
    apply Throws.bind splitOnce
    intro split
    exact Throws.ite (fun _ => ih) fun _ => Throws.pure _

theorem allocMem {target : Word} {brand : Brand} :
    Throws (img.PeeksInside key) (allocMem build target brand) := by
  apply Throws.ite
  · intro _
    exact Throws.pure _
  intro _
  apply Throws.bind Throws.get
  intro σ
  split
  · exact Throws.pure _
  · apply Throws.bind splitDown
    intro split
    exact Throws.ite (fun _ => Throws.bind memTake fun _ => Throws.pure _) fun _ => Throws.pure _

theorem allocateProgram {hdr : Header} :
    Throws (img.PeeksInside key) (allocateProgram build hdr) := by
  apply Throws.bind allocMem
  intro ram
  cases ram with
  | none => exact Throws.pure _
  | some kRam =>
    apply Throws.bind allocMem
    intro ctx
    cases ctx with
    | none => exact Throws.bind freeMem fun _ => Throws.pure _
    | some kCtx => exact Throws.pure _

/-- The loops that fill the RAM stay in the image if the header's sizes do. -/
theorem fillRam {hdr : Header} {imgAddr imgOffset : Word} {kRam : Key} (hvalid : hdr.Valid)
    (hfits : imgOffset.toNat + hdr.imageSize.toNat / 4 ≤ img.size.toNat / 4) :
    Throws (img.PeeksInside key) (fillRam build hdr imgAddr imgOffset key kRam) := by
  have htg := hvalid.text_le_got
  have hgi := hvalid.got_le_image
  have hsize := img.size.isLt
  have hquarter : ∀ w : Word, (w / 4#32).toNat = w.toNat / 4 := fun w => BitVec.toNat_udiv
  have hdata : (hdr.imageSize / 4#32 - hdr.textEnd / 4#32).toNat =
      hdr.imageSize.toNat / 4 - hdr.textEnd.toNat / 4 := by
    rw [BitVec.toNat_sub_of_le (by rw [BitVec.le_def, hquarter, hquarter]; omega), hquarter, hquarter]
  have hgot : (hdr.gotEnd / 4#32 - hdr.textEnd / 4#32).toNat =
      hdr.gotEnd.toNat / 4 - hdr.textEnd.toNat / 4 := by
    rw [BitVec.toNat_sub_of_le (by rw [BitVec.le_def, hquarter, hquarter]; omega), hquarter, hquarter]
  have hword : ∀ n : Nat, n < hdr.imageSize.toNat / 4 → (BitVec.ofNat 32 n).toNat = n := by
    intro n hn
    rw [BitVec.toNat_ofNat, Nat.mod_eq_of_lt (by omega)]
  apply Throws.bind
  · apply Throws.forM
    intro dOff hd
    have hd : dOff < _ := List.mem_range.mp hd
    rw [hdata] at hd
    apply Throws.bind (peek fun _ => _) fun _ => poke
    rw [BitVec.toNat_add, BitVec.toNat_add, hquarter, hword dOff (by omega)]
    omega
  intro _
  apply Throws.bind (Throws.forM fun _ _ => poke)
  intro _
  apply Throws.bind inspect
  intro ramRegion
  apply Throws.bind
  · apply Throws.forM
    intro dOff hd
    have hd : dOff < _ := List.mem_range.mp hd
    rw [hgot] at hd
    apply Throws.bind (peek fun _ => _) fun _ => poke
    rw [hword dOff (by omega)]
    omega
  intro _
  exact Throws.bind poke fun _ => Throws.bind poke fun _ => Throws.pure _

theorem inflate {hdr : Header} {imgAddr imgOffset : Word} {kRam kCtx : Key} (hvalid : hdr.Valid)
    (hfits : imgOffset.toNat + hdr.imageSize.toNat / 4 ≤ img.size.toNat / 4) :
    Throws (img.PeeksInside key) (inflate build hdr imgAddr imgOffset key kRam kCtx) := by
  apply Throws.bind (wrapper (by decide) fun _ => Throws.pure _)
  intro kCtx
  apply Throws.bind (fillRam hvalid hfits)
  intro ramBase
  apply Throws.bind _ fun _ => Throws.pure _
  exact Throws.bind (wrapper (by decide) fun _ => Throws.pure _) fun _ =>
    Throws.bind (wrapper (by decide) fun _ => Throws.pure _) fun _ =>
    Throws.bind (wrapper (by decide) fun _ => Throws.pure _) fun _ =>
    wrapper (by decide) fun _ => Throws.pure _

end PeeksInside

/-! ## What the checks amount to -/

namespace Image

variable {img : Image} {build : Build} {σ : State} {key : Key} {imgAddr : Word}

/-- An address that is refused before the header is read. -/
theorem In.refused (h : img.In σ key) (hout : ¬(img.Starts imgAddr ∧ img.Admitted imgAddr)) :
    ∃ σ', readHeader build imgAddr key σ = .ok none σ' := by
  have hnone : wp (readHeader build imgAddr key) (fun r _ => r = none) never σ := by
    apply wp_readHeader (I := fun σ => img.In σ key) (fun _ h => h) (fun _ h => h.of_consulted key) h
    · intro _ _ _
      rfl
    · intro hstart hadmitted
      exact (hout ⟨hstart, hadmitted⟩).elim
    · intro hstart hadmitted
      exact (hout ⟨hstart, hadmitted⟩).elim
  obtain ⟨r, σ', hok, rfl⟩ := exists_ok hnone
  exact ⟨σ', hok⟩

theorem In.loadProgram_refused (h : img.In σ key)
    (hout : ¬(img.Starts imgAddr ∧ img.Admitted imgAddr)) :
    ∃ σ', loadProgram build imgAddr key σ = .ok none σ' := by
  obtain ⟨σ', hok⟩ := h.refused hout
  have hnone : wp (loadProgram build imgAddr key) (fun r _ => r = none) never σ := by
    rw [loadProgram, wp_bind, wp_of_eq hok]
    rfl
  obtain ⟨r, σ', hok, rfl⟩ := exists_ok hnone
  exact ⟨σ', hok⟩

/-- The header of an image that is let through. -/
theorem readHeader_some (hstart : img.Starts imgAddr)
    (hadmitted : img.Admitted imgAddr) (hfits : img.offset imgAddr + headerSize ≤ img.size.toNat)
    {I : State → Prop} (hIn : ∀ σ, I σ → img.In σ key) (hI : ∀ σ, I σ → I (σ.consulted key))
    (hσ : I σ) :
    ∃ σ', readHeader build imgAddr key σ =
      .ok (some (img.header imgAddr, (imgAddr - img.base) / 4#32)) σ' ∧ I σ' := by
  have hsome : wp (readHeader build imgAddr key)
      (fun r σ' => r = some (img.header imgAddr, (imgAddr - img.base) / 4#32) ∧ I σ') never σ := by
    apply wp_readHeader hIn hI hσ
    · intro hout
      exact (hout ⟨hstart, hadmitted⟩).elim
    · intro _ _ _ σ' h'
      exact ⟨rfl, h'⟩
    · intro _ _ hcut
      omega
  obtain ⟨r, σ', hok, rfl, h'⟩ := exists_ok hsome
  exact ⟨σ', hok, h'⟩

theorem In.readHeader_some (h : img.In σ key) (hstart : img.Starts imgAddr)
    (hadmitted : img.Admitted imgAddr) (hfits : img.offset imgAddr + headerSize ≤ img.size.toNat) :
    ∃ σ', readHeader build imgAddr key σ =
      .ok (some (img.header imgAddr, (imgAddr - img.base) / 4#32)) σ' ∧ img.In σ' key :=
  Image.readHeader_some hstart hadmitted hfits (fun _ h => h) (fun _ h => h.of_consulted key) h

theorem Starts.contains_iff (h : img.Starts imgAddr) :
    img.Contains imgAddr ↔ img.offset imgAddr + (img.word imgAddr).toNat ≤ img.size.toNat := by
  have haddr := h.toNat_eq
  have hinside := h.inside
  have hoffset := h.offset_dvd
  have hsize := img.size_dvd
  constructor
  · intro hcontains
    have := hcontains.inside
    omega
  · intro hfits
    exact ⟨by omega, by omega, by omega⟩

/-- A valid header's image does not end just below 2^32. -/
theorem Starts.le_or_wraps (h : img.Starts imgAddr) (hadmitted : img.Admitted imgAddr)
    (hvalid : (img.header imgAddr).Valid) :
    img.offset imgAddr + (img.word imgAddr).toNat ≤ img.size.toNat ∨
      2 ^ 32 ≤ img.offset imgAddr + (img.word imgAddr).toNat := by
  have hoffset := h.offset_dvd
  have hword : 4 ∣ (img.word imgAddr).toNat := hvalid.imageSize
  rw [Admitted] at hadmitted
  omega

end Image

section

variable {img : Image} {build : Build} {σ : State} {key : Key} {imgAddr : Word}

theorem allocateProgram_small {hdr : Header} (h : hdr.getRamSize.toNat < 32) :
    allocateProgram build hdr σ = .ok none σ := by
  have hnone : wp (allocateProgram build hdr) (fun r σ' => r = none ∧ σ' = σ) never σ := by
    rw [allocateProgram, wp_bind, wp_of_eq (allocMem_small h)]
    exact ⟨rfl, rfl⟩
  obtain ⟨r, σ', hok, rfl, rfl⟩ := exists_ok hnone
  exact hok

theorem Image.Judged.peeks (hjudged : img.Judged imgAddr) (h : img.In σ key) :
    wp (loadProgram build imgAddr key) (fun _ _ => True) (fun stop _ => img.PeeksInside key stop) σ := by
  by_cases hthrough : img.Starts imgAddr ∧ img.Admitted imgAddr
  swap
  · obtain ⟨σ', hok⟩ := h.loadProgram_refused hthrough
    rw [wp_of_eq hok]
    trivial
  obtain ⟨hstart, hadmitted⟩ := hthrough
  obtain ⟨hcut, -, hwraps⟩ := hjudged hstart.aligned hstart.inside
  obtain ⟨σ', hread, -⟩ := h.readHeader_some hstart hadmitted (hcut hadmitted)
  rw [loadProgram, wp_bind, wp_of_eq hread]
  simp only [Bool.not_eq_true', wp_ite, wp_pure, wp_bind, implies_true, true_and, Bool.not_eq_false]
  intro hvalid
  have hvalid' := Header.valid_of_isValid hvalid
  by_cases hram : 32 ≤ (img.header imgAddr).getRamSize.toNat
  swap
  · rw [wp_of_eq (allocateProgram_small (Nat.not_le.mp hram))]
    trivial
  -- The image is inside, so that copying it stays inside.
  have hinside : img.offset imgAddr + (img.word imgAddr).toNat ≤ img.size.toNat := by
    obtain hin | hwrap := hstart.le_or_wraps hadmitted hvalid'
    · exact hin
    · exact (hwraps ⟨hwrap, hvalid, hram⟩).elim
  apply wp_mono (PeeksInside.allocateProgram σ') _ fun _ _ h => h
  rintro (_ | ⟨kRam, kCtx⟩) σ₁ -
  · trivial
  · rw [wp_bind]
    apply wp_mono (PeeksInside.inflate hvalid' _ σ₁) (fun _ _ _ => trivial) fun _ _ h => h
    have hoffset := hstart.offset_dvd
    have hsize := img.size_dvd
    have himageSize : (img.header imgAddr).imageSize = img.word imgAddr := rfl
    rw [BitVec.toNat_udiv, himageSize]
    show img.offset imgAddr / 4 + _ ≤ _
    omega

theorem Image.Judged.refused (hjudged : img.Judged imgAddr) (h : img.In σ key)
    (hout : ¬img.Contains imgAddr) : ∃ σ', loadProgram build imgAddr key σ = .ok none σ' := by
  by_cases hthrough : img.Starts imgAddr ∧ img.Admitted imgAddr
  swap
  · exact h.loadProgram_refused hthrough
  obtain ⟨hstart, hadmitted⟩ := hthrough
  obtain ⟨hcut, -, hwraps⟩ := hjudged hstart.aligned hstart.inside
  obtain ⟨σ', hread, -⟩ := h.readHeader_some hstart hadmitted (hcut hadmitted)
  have hnone : wp (loadProgram build imgAddr key) (fun r _ => r = none) never σ := by
    rw [loadProgram, wp_bind, wp_of_eq hread]
    simp only [Bool.not_eq_true', wp_ite, wp_pure, wp_bind, implies_true, true_and, Bool.not_eq_false]
    intro hvalid
    have hsmall : (img.header imgAddr).getRamSize.toNat < 32 := by
      by_contra hram
      obtain hin | hwrap := hstart.le_or_wraps hadmitted (Header.valid_of_isValid hvalid)
      · exact hout (hstart.contains_iff.mpr hin)
      · exact hwraps ⟨hwrap, hvalid, Nat.not_lt.mp hram⟩
    rw [wp_of_eq (allocateProgram_small hsmall)]
    rfl
  obtain ⟨r, σ', hok, rfl⟩ := exists_ok hnone
  exact ⟨σ', hok⟩

theorem Image.Judged.accepted (hjudged : img.Judged imgAddr) (h : img.In σ key)
    (haligned : 4 ∣ imgAddr.toNat) (hcontains : img.Contains imgAddr)
    (hheader : headerSize ≤ (img.word imgAddr).toNat) :
    ∃ hdr imgOffset σ', readHeader build imgAddr key σ = .ok (some (hdr, imgOffset)) σ' := by
  have hstart : img.Starts imgAddr := by
    refine ⟨haligned, ?_⟩
    have habove := hcontains.above
    have hword := hcontains.word
    rw [Image.offset, BitVec.toNat_sub_of_le habove]
    omega
  obtain ⟨hcut, hfull, -⟩ := hjudged hstart.aligned hstart.inside
  have hinside := hstart.contains_iff.mp hcontains
  have hadmitted : img.Admitted imgAddr := by
    left
    by_contra hend
    exact hfull ⟨hheader, by omega, hinside⟩
  obtain ⟨σ', hread, -⟩ := h.readHeader_some hstart hadmitted (hcut hadmitted)
  exact ⟨_, _, σ', hread⟩

end

/-! ## A state with the image in it -/

namespace Image

variable {img : Image} {build : Build} {imgAddr : Word} {l : Nat} {history : List Event}

/-- The image in entry 3, and two free blocks that start where it ends: entry 4 at the head of
list `l`, and entry 5 as the next block for a Context. -/
def state (img : Image) (l : Nat) (history : List Event) : State where
  kernel :=
    { count := 8
      kind := fun e => if e = 1 then .objectTable else .memory
      memory := fun e =>
        if e = 3 then
          { base := img.base, size := img.size
            attributes := Memory.initAttributes img.base img.size 0#32 }
        else if e = 4 then { base := img.base + img.size, size := 1#32 <<< (l + 1) }
        else { base := img.base + img.size, size := 512#32 }
      ram := fun a =>
        if a < img.base + img.size then img.content a
        else if a = img.base + img.size ∧ l = 8 then 5#8
        else 0#8
      history := history }
  ot := ⟨0#64, 0#32, some 1⟩
  memRoots := fun i => if i = l then 4#32 else if i = 8 then 5#32 else 0#32
  slotsUsed := 0#32

abbrev stateKey : Key := ⟨0#64, 0#32, some 3⟩

theorem toNat_end (img : Image) : (img.base + img.size).toNat = img.base.toNat + img.size.toNat := by
  rw [BitVec.toNat_add, Nat.mod_eq_of_lt img.below]

theorem state_in : img.In (img.state l history) stateKey where
  block := ⟨rfl, rfl, rfl, rfl⟩
  attributes := ⟨0#32, rfl⟩
  content := by
    intro a _ hhigh
    apply if_pos
    rw [BitVec.lt_def, img.toNat_end]
    exact hhigh

/-- Reading leaves nothing behind but the history. -/
theorem state_consulted {σ : State} (h : ∃ history, σ = img.state l history) (k : Key) :
    ∃ history, σ.consulted k = img.state l history := by
  obtain ⟨history, rfl⟩ := h
  exact ⟨_, rfl⟩

theorem state_hasHead (hl : 4 ≤ l) (hl' : l < 31) : (img.state l history).HasHead l := by
  have hroot : (img.state l history).memRoots l = 4#32 := if_pos rfl
  constructor
  · exact ⟨rfl, rfl⟩
  · rw [hroot]
    show 4 < 8
    decide
  · rw [hroot]
    rfl
  · rw [hroot]
    show 0#32 < 1#32 <<< (l + 1) / 4#32
    interval_cases l <;> decide

/-- The list for Contexts leads to entry 5, also if the other block was its head. -/
theorem state_link : (img.state 8 history).kernel.loadWord (img.base + img.size) = 5#32 := by
  have hdvd : 4 ∣ (img.base + img.size).toNat := by
    obtain ⟨l, hl, hsize, hbase⟩ := img.natural.exponent
    have hfour : 4 ∣ 2 ^ (l + 1) := Nat.pow_dvd_pow 2 (show 2 ≤ l + 1 by omega)
    rw [img.toNat_end, hsize]
    exact Nat.dvd_add (hfour.trans hbase) hfour
  have hend := (img.base + img.size).isLt
  have hbeyond : ∀ n : Word, 0 < n.toNat → n.toNat < 4 →
      (img.state 8 history).kernel.ram (img.base + img.size + n) = 0#8 := by
    intro n hpos hn
    have hadd : (img.base + img.size + n).toNat = (img.base + img.size).toNat + n.toNat := by
      rw [BitVec.toNat_add, Nat.mod_eq_of_lt (by omega)]
    show (if _ then _ else if _ then _ else _) = _
    rw [if_neg, if_neg]
    · rintro ⟨heq, -⟩
      have := congrArg BitVec.toNat heq
      omega
    · rw [BitVec.lt_def]
      omega
  have hfirst : (img.state 8 history).kernel.ram (img.base + img.size) = 5#8 := by
    show (if _ then _ else if _ then _ else _) = _
    rw [if_neg (BitVec.lt_irrefl _), if_pos ⟨rfl, rfl⟩]
  rw [loadWord, hbeyond 3#32 (by decide) (by decide), hbeyond 2#32 (by decide) (by decide),
    hbeyond 1#32 (by decide) (by decide), hfirst]
  decide

theorem state_taken_hasHead (hl : 4 ≤ l) (hl' : l < 31) {brand : Brand} :
    ((img.state l history).taken l brand).HasHead 8 ∧
      ((img.state l history).taken l brand).memRoots 8 = 5#32 := by
  have hroot : ((img.state l history).taken l brand).memRoots 8 = 5#32 := by
    have hself : (img.state l history).memRoots l = 4#32 := if_pos rfl
    rw [State.memRoots_taken, hself]
    by_cases h8 : l = 8
    · subst h8
      rw [Function.update_self]
      exact state_link
    · rw [Function.update_of_ne (Ne.symm h8)]
      show (if 8 = l then _ else if 8 = 8 then _ else _) = _
      rw [if_neg (Ne.symm h8), if_pos rfl]
  refine ⟨⟨⟨rfl, rfl⟩, ?_, ?_, ?_⟩, hroot⟩
  · rw [hroot]
    show 5 < 8
    decide
  · rw [hroot]
    rfl
  · rw [hroot]
    show 0#32 < 512#32 / 4#32
    decide

/-- If a valid header gets through and asks for 32 bytes or more, there is a state in which the
loader goes ahead. -/
theorem loadProgram_goes (hstart : img.Starts imgAddr) (hadmitted : img.Admitted imgAddr)
    (hfits : img.offset imgAddr + headerSize ≤ img.size.toNat)
    (hvalid : (img.header imgAddr).isValid = true)
    (hram : 32 ≤ (img.header imgAddr).getRamSize.toNat) :
    ∃ σ, img.In σ stateKey ∧ ∀ σ', loadProgram build imgAddr stateKey σ ≠ .ok none σ' := by
  obtain hzero | ⟨n, hn, hsize, -⟩ := getRamSize_zero_or_pow (img.header imgAddr)
  · rw [hzero] at hram
    simp at hram
  have hn' : 5 ≤ n := (Nat.pow_le_pow_iff_right (by decide : 1 < 2)).mp (hsize ▸ hram)
  have htarget : ctz (img.header imgAddr).getRamSize - 1#32 = BitVec.ofNat 32 (n - 1) := by
    apply BitVec.eq_of_toNat_eq
    have hctz := ctz_of_two_pow hsize
    have hone : (1#32 : Word).toNat = 1 := rfl
    rw [BitVec.toNat_sub_of_le (by rw [BitVec.le_def, hctz, hone]; omega), hctz, hone,
      BitVec.toNat_ofNat, Nat.mod_eq_of_lt (by omega)]
  obtain ⟨σ₁, hread, history, rfl⟩ := readHeader_some
    (I := fun σ => ∃ history, σ = img.state (n - 1) history) hstart hadmitted hfits
    (by rintro _ ⟨history, rfl⟩; exact state_in) (fun σ h => state_consulted h stateKey)
    ⟨[], rfl⟩
  refine ⟨img.state (n - 1) [], state_in, fun σ' hnone => ?_⟩
  have hl : 4 ≤ n - 1 := by omega
  have hl' : n - 1 < 31 := by omega
  obtain ⟨hhead, hroot⟩ := state_taken_hasHead
    hl hl'
  have hgoes : wp (loadProgram build imgAddr stateKey) (fun r _ => r ≠ none) (fun _ _ => True)
      (img.state (n - 1) []) := by
    rw [loadProgram, wp_bind, wp_of_eq hread]
    simp only [hvalid, Bool.not_true, Bool.false_eq_true, if_false, allocateProgram, wp_bind]
    rw [htarget, wp_of_eq (allocMem_of_head hl hl' (state_hasHead hl hl') (by simp [state]))]
    have hcontext : contextL2Size - 1#32 = BitVec.ofNat 32 8 := by
      decide
    simp only [wp_bind, hcontext]
    rw [wp_of_eq (allocMem_of_head (by decide) (by decide) hhead (by rw [hroot]; decide))]
    simp only [wp_pure, wp_bind]
    apply wp_of_forall
    · intro kCtx _
      exact Option.some_ne_none kCtx
    · intro _ _
      trivial
  exact wp_ok hgoes hnone rfl

end Image

/-! ## When the checks are right -/

section

variable {build : Build} {img : Image} {imgAddr : Word}

/-- A header that is cut off by the end of the Memory is read all the same. -/
theorem BoundsExact.header_fits (h : BoundsExact build img imgAddr) (hstart : img.Starts imgAddr)
    (hadmitted : img.Admitted imgAddr) : img.offset imgAddr + headerSize ≤ img.size.toNat := by
  by_contra hcut
  have hpeek : wp (loadProgram build imgAddr Image.stateKey) (fun _ _ => False)
      (fun stop _ => ∃ offset : Word, img.size.toNat / 4 ≤ offset.toNat ∧
        stop = .assertion Image.stateKey (request 5#16 offset)) (img.state 4 []) := by
    rw [loadProgram, wp_bind]
    apply Image.wp_readHeader (I := fun σ => img.In σ Image.stateKey) (fun _ h => h)
      (fun _ h => h.of_consulted _) Image.state_in
    · intro hout
      exact (hout ⟨hstart, hadmitted⟩).elim
    · intro _ _ hfits
      exact (hcut hfits).elim
    · intro _ _ _ offset σ' hoffset
      exact ⟨offset, hoffset, rfl⟩
  have hfalse : wp (loadProgram build imgAddr Image.stateKey) (fun _ _ => False) never
      (img.state 4 []) := by
    apply wp_mono (wp_and hpeek (h.peeks _ _ Image.state_in)) fun _ _ h => h.1
    rintro stop σ' ⟨⟨offset, hoffset, hstop⟩, hinside⟩
    exact hinside offset hoffset hstop
  obtain ⟨_, _, _, hfalse⟩ := exists_ok hfalse
  exact hfalse

/-- The loader's bounds checks are right exactly for what the two region tests judge rightly. -/
theorem bounds_exact_iff (build : Build) (img : Image) (imgAddr : Word) :
    BoundsExact build img imgAddr ↔ img.Judged imgAddr := by
  constructor
  · intro h haligned hinside
    have hstart : img.Starts imgAddr := ⟨haligned, hinside⟩
    refine ⟨h.header_fits hstart, ?_, ?_⟩
    · -- An image that fills the Memory is refused.
      rintro ⟨hheader, hlow, hhigh⟩
      have hin : img.In (img.state 4 []) Image.stateKey := Image.state_in
      have hbelow := img.below
      have hdvd := img.size_dvd
      have hnot : ¬img.Admitted imgAddr := by
        rintro (hadmitted | hadmitted) <;> omega
      obtain ⟨hdr, imgOffset, σ', hsome⟩ := h.accepted _ _ hin haligned (hstart.contains_iff.mpr hhigh)
        hheader
      obtain ⟨σ'', hnone⟩ := hin.refused fun hboth => hnot hboth.2
      rw [hsome] at hnone
      simp at hnone
    · -- A size that wraps is let through.
      rintro ⟨hwraps, hvalid, hram⟩
      have hadmitted : img.Admitted imgAddr := .inr (by omega)
      obtain ⟨σ, hin, hgoes⟩ := Image.loadProgram_goes hstart hadmitted
        (h.header_fits hstart hadmitted) hvalid hram
      obtain ⟨σ', hnone⟩ := h.refused σ _ hin fun hcontains => by
        have := hstart.contains_iff.mp hcontains
        have := img.size.isLt
        omega
      exact hgoes σ' hnone
  · intro hjudged
    constructor
    · intro σ key h
      exact hjudged.peeks h
    · intro σ key h hout
      exact hjudged.refused h hout
    · intro σ key h haligned hcontains hheader
      exact hjudged.accepted h haligned hcontains hheader

end

/-! ### Samples -/

/-- A Memory of 32 bytes that a valid image fills: all words of the header but the entry are 32. -/
def fullImage : Image where
  base := 0x20000000#32
  size := 32#32
  content := fun a =>
    if a < 0x20000014#32 ∧ a &&& 3#32 = 0#32 then 32#8 else 0#8
  natural := Memory.mappableRange_iff.mp (by decide)
  below := by decide

/-- The image ends exactly where its Memory ends, and it is refused. -/
theorem bounds_inexact :
    (fullImage.header 0x20000000#32).isValid = true ∧ fullImage.Contains 0x20000000#32 ∧
      ∀ build, ¬BoundsExact build fullImage 0x20000000#32 := by
  have hcontains : fullImage.Contains 0x20000000#32 := ⟨by decide, by decide, by decide⟩
  have hnot : ¬fullImage.Admitted 0x20000000#32 := by
    rw [Image.Admitted]
    decide
  refine ⟨by decide, hcontains, fun build h => ?_⟩
  have hin : fullImage.In (fullImage.state 4 []) Image.stateKey := Image.state_in
  obtain ⟨hdr, imgOffset, σ', hsome⟩ := h.accepted _ _ hin (by decide) hcontains (by decide)
  obtain ⟨σ'', hnone⟩ := hin.refused fun hboth => hnot hboth.2
  rw [hsome] at hnone
  simp at hnone

end BrittleKernel.System
