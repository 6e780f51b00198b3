import BrittleKernel.Effects
import BrittleKernel.Lib.Blocks
import Mathlib.Tactic.IntervalCases

/-!
# Memory Geometry

Which Memory objects the constructor marks as mappable, and what part of the address space
the region made for one of their keys covers once it is loaded into the MPU.
-/

namespace BrittleKernel

open Hoare KState

/-! ## Register fields -/

/-- The subregions that a brand disables. -/
def Brand.srd (b : Brand) : Byte := b.setWidth 8

/-- The access permissions that a brand confers. -/
def Brand.ap (b : Brand) : AccessPermissions := (b >>> 16).setWidth 3

namespace Memory

variable {m : Memory}

/-- The attributes of a mappable object's region, over the fields the kernel computes. -/
def rasrFor (m : Memory) (brand : Brand) : Rasr :=
  Rasr.withEnable (Rasr.withSize (brand.low <<< 8) m.getCachedL2HalfSize) true

theorem getRegionForBrand_of_mappable (hm : m.isMappable = true) (brand : Brand) :
    m.getRegionForBrand brand = ⟨(m.base >>> 5) <<< 5, m.rasrFor brand⟩ := by
  simp [getRegionForBrand, hm, rasrFor]

theorem getRegionForBrand_of_not_mappable (hm : m.isMappable = false) (brand : Brand) :
    m.getRegionForBrand brand = Region.disabled := by
  simp [getRegionForBrand, hm]

theorem getEnable_rasrFor (brand : Brand) : Rasr.getEnable (m.rasrFor brand) = true := by
  simp [Rasr.getEnable, rasrFor, Rasr.withEnable]

/-- Above the low byte, the register holds the low 24 bits of the brand. -/
theorem getLsbD_rasrFor (brand : Brand) {i : Nat} (hi : i < 24) :
    (m.rasrFor brand).getLsbD (8 + i) = brand.getLsbD i := by
  have hwide : 8 + i < 32 := by omega
  simp only [rasrFor, Rasr.withEnable, Rasr.withSize, Brand.low, BitVec.getLsbD_or,
    BitVec.getLsbD_and, BitVec.getLsbD_not, BitVec.getLsbD_shiftLeft, BitVec.getLsbD_setWidth]
  interval_cases i <;> simp

theorem getSrd_rasrFor (brand : Brand) : Rasr.getSrd (m.rasrFor brand) = brand.srd := by
  apply BitVec.eq_of_getLsbD_eq
  intro i hi
  simp only [Rasr.getSrd, Brand.srd, BitVec.getLsbD_setWidth, BitVec.getLsbD_ushiftRight,
    getLsbD_rasrFor brand (show i < 24 by omega)]

theorem getAp_rasrFor (brand : Brand) : Rasr.getAp (m.rasrFor brand) = brand.ap := by
  apply BitVec.eq_of_getLsbD_eq
  intro i hi
  have hbit := getLsbD_rasrFor (m := m) brand (show 16 + i < 24 by omega)
  simp only [Rasr.getAp, Brand.ap, BitVec.getLsbD_setWidth, BitVec.getLsbD_ushiftRight]
  rw [← hbit, ← Nat.add_assoc]

theorem attributes_rasrFor (brand : Brand) :
    m.rasrFor brand >>> 8 = (brand.setWidth 24).setWidth 32 := by
  apply BitVec.eq_of_getLsbD_eq
  intro i hi
  simp only [BitVec.getLsbD_ushiftRight, BitVec.getLsbD_setWidth]
  by_cases h : i < 24
  · simp [getLsbD_rasrFor brand h, h, hi]
  · simp [h, BitVec.getLsbD_of_ge (m.rasrFor brand) (8 + i) (by omega)]

/-- The size field is the cached exponent. -/
theorem getSize_rasrFor (brand : Brand) :
    (Rasr.getSize (m.rasrFor brand)).toNat = m.getCachedL2HalfSize.toNat := by
  have hbit : ∀ i < 5, (Rasr.getSize (m.rasrFor brand)).getLsbD i =
      m.getCachedL2HalfSize.getLsbD i := by
    intro i hi
    simp only [Rasr.getSize, rasrFor, Rasr.withEnable, Rasr.withSize, Brand.low, BitVec.getLsbD_or,
      BitVec.getLsbD_and, BitVec.getLsbD_not, BitVec.getLsbD_shiftLeft, BitVec.getLsbD_setWidth,
      BitVec.getLsbD_ushiftRight]
    interval_cases i <;> simp
  have hhigh : ∀ i, 5 ≤ i → m.getCachedL2HalfSize.getLsbD i = false := by
    intro i hi
    simp only [getCachedL2HalfSize, cachedL2hsMask, cachedL2hsLsb, BitVec.getLsbD_ushiftRight,
      BitVec.getLsbD_and]
    by_cases h : 8 + i < 32
    · have hi' : i < 24 := by omega
      interval_cases i <;> simp
    · simp [BitVec.getLsbD_of_ge m.attributes (8 + i) (by omega)]
  apply Nat.eq_of_testBit_eq
  intro i
  by_cases hi : i < 5
  · exact hbit i hi
  · exact (BitVec.getLsbD_of_ge _ i (by omega)).trans (hhigh i (by omega)).symm

/-! ## Mappability -/

/-- A range that the MPU can hold in one region: a power of two in size, naturally aligned and
no smaller than the smallest region. -/
structure NaturallyMappable (base size : Word) : Prop where
  power : ∃ n, size.toNat = 2 ^ n
  large : 32 ≤ size.toNat
  aligned : size.toNat ∣ base.toNat

theorem NaturallyMappable.exponent {base size : Word} (h : NaturallyMappable base size) :
    ∃ l, 4 ≤ l ∧ size.toNat = 2 ^ (l + 1) ∧ 2 ^ (l + 1) ∣ base.toNat := by
  obtain ⟨n, hn⟩ := h.power
  have hlarge : 2 ^ 5 ≤ 2 ^ n := hn ▸ h.large
  have hn5 : 5 ≤ n := (Nat.pow_le_pow_iff_right (by decide)).mp hlarge
  obtain ⟨l, rfl⟩ : ∃ l, n = l + 1 := ⟨n - 1, by omega⟩
  exact ⟨l, by omega, hn, hn ▸ h.aligned⟩

theorem toNat_and_pred {x y : Word} (hy : 32#32 ≤ y) :
    (x &&& (y - 1#32)).toNat = x.toNat &&& (y.toNat - 1) := by
  have hpred : (y - 1#32).toNat = y.toNat - 1 :=
    BitVec.toNat_sub_of_le (BitVec.le_trans (by decide : 1#32 ≤ 32#32) hy)
  rw [BitVec.toNat_and, hpred]

theorem mappableRange_iff {base size : Word} :
    mappableRange base size = true ↔ NaturallyMappable base size := by
  simp only [mappableRange, Bool.and_eq_true, decide_eq_true_eq, beq_iff_eq, ge_iff_le]
  constructor
  · rintro ⟨⟨hlarge, hpower⟩, haligned⟩
    have hlarge' : 32 ≤ size.toNat := hlarge
    have hpower' : ∃ n, size.toNat = 2 ^ n := by
      apply (Blocks.and_pred_self_eq_zero_iff (by omega)).mp
      rw [← toNat_and_pred hlarge, hpower]
      rfl
    have haligned' : size.toNat ∣ base.toNat := by
      obtain ⟨n, hn⟩ := hpower'
      rw [hn]
      apply Blocks.and_pred_eq_zero_iff.mp
      rw [← hn, ← toNat_and_pred hlarge, haligned]
      rfl
    exact ⟨hpower', hlarge', haligned'⟩
  · rintro ⟨⟨n, hn⟩, hlarge, haligned⟩
    have hlarge' : 32#32 ≤ size := hlarge
    have hpower : size &&& (size - 1#32) = 0#32 := by
      apply BitVec.eq_of_toNat_eq
      rw [toNat_and_pred hlarge']
      exact (Blocks.and_pred_self_eq_zero_iff (by omega)).mpr ⟨n, hn⟩
    have haligned' : base &&& (size - 1#32) = 0#32 := by
      apply BitVec.eq_of_toNat_eq
      rw [toNat_and_pred hlarge', hn]
      exact Blocks.and_pred_eq_zero_iff.mpr (hn ▸ haligned)
    exact ⟨⟨hlarge', hpower⟩, haligned'⟩

/-- The search finds the exponent of a power of two from 32 on. -/
theorem findL2HalfSize_eq {size : Word} {l : Nat} (hl : 4 ≤ l) (hsize : size.toNat = 2 ^ (l + 1)) :
    findL2HalfSize size = l := by
  have hlt : l < 31 := by
    have hbound : 2 ^ (l + 1) < 2 ^ 32 := hsize ▸ size.isLt
    have := (Nat.pow_lt_pow_iff_right (by decide)).mp hbound
    omega
  have heq : size = BitVec.ofNat 32 (2 ^ (l + 1)) := by
    apply BitVec.eq_of_toNat_eq
    rw [hsize, BitVec.toNat_ofNat, Nat.mod_eq_of_lt (hsize ▸ size.isLt)]
  subst heq
  interval_cases l <;> rfl

/-! ## Stored attributes -/

/-- The attribute bits that the constructor computes. -/
def computedMask : Word := cachedL2hsMask ||| mappableAttributeMask

theorem initAttributes_of_mappable {base size : Word} (h : mappableRange base size = true)
    (attributes : Word) :
    initAttributes base size attributes =
      (attributes &&& ~~~computedMask) ||| (BitVec.ofNat 32 (findL2HalfSize size) <<< cachedL2hsLsb)
        ||| mappableAttributeMask := by
  apply BitVec.eq_of_getLsbD_eq
  intro i hi
  simp only [initAttributes, h, if_true, computedMask, cachedL2hsMask, cachedL2hsLsb,
    mappableAttributeMask, BitVec.getLsbD_or, BitVec.getLsbD_and, BitVec.getLsbD_not]
  -- The masks differ in the mappable bit only, which is set in the end.
  by_cases h1 : i = 1
  · simp [h1]
  · have hbit : (2#32).getLsbD i = false := by
      interval_cases i <;> first | contradiction | rfl
    simp [hbit]

theorem initAttributes_of_not_mappable {base size : Word} (h : mappableRange base size = false)
    (attributes : Word) : initAttributes base size attributes = attributes &&& ~~~computedMask := by
  simp [initAttributes, h, computedMask]

/-- The computed bits of the incoming word do not matter. -/
theorem initAttributes_congr {base size a b : Word}
    (h : a &&& ~~~computedMask = b &&& ~~~computedMask) :
    initAttributes base size a = initAttributes base size b := by
  cases hrange : mappableRange base size with
  | true => rw [initAttributes_of_mappable hrange, initAttributes_of_mappable hrange, h]
  | false => rw [initAttributes_of_not_mappable hrange, initAttributes_of_not_mappable hrange, h]

theorem findL2HalfSize_lt (size : Word) : findL2HalfSize size < 32 := by
  simp only [findL2HalfSize]
  cases h : (List.range' 4 27).find? fun l => size == 2#32 <<< l with
  | none => decide
  | some l =>
    have := List.mem_range'_1.mp (List.mem_of_find?_eq_some h)
    simp only [Option.getD_some]
    omega

/-- An exponent sits in the cached-size field and nowhere else. -/
theorem getLsbD_exponent {l i : Nat} (hl : l < 32) (hi : i < 32) :
    (BitVec.ofNat 32 l <<< cachedL2hsLsb).getLsbD i =
      (cachedL2hsMask.getLsbD i && l.testBit (i - 8)) := by
  interval_cases l <;> interval_cases i <;> rfl

/-- All other bits of the incoming word are kept. -/
theorem initAttributes_rest (base size attributes : Word) :
    initAttributes base size attributes &&& ~~~computedMask = attributes &&& ~~~computedMask := by
  cases hrange : mappableRange base size with
  | false =>
    rw [initAttributes_of_not_mappable hrange, BitVec.and_assoc, BitVec.and_self]
  | true =>
    rw [initAttributes_of_mappable hrange]
    apply BitVec.eq_of_getLsbD_eq
    intro i hi
    simp only [BitVec.getLsbD_and, BitVec.getLsbD_or, BitVec.getLsbD_not, computedMask, hi,
      getLsbD_exponent (findL2HalfSize_lt size) hi, decide_true, Bool.true_and]
    cases cachedL2hsMask.getLsbD i <;> cases mappableAttributeMask.getLsbD i <;> simp

theorem isMappable_init {base size attributes : Word}
    (hm : m.attributes = initAttributes base size attributes) :
    m.isMappable = mappableRange base size := by
  have hbit : m.isMappable = m.attributes.getLsbD 1 := by
    rw [isMappable, mappableAttributeMask, show (2#32 : Word) = BitVec.twoPow 32 1 from rfl,
      BitVec.and_twoPow]
    cases m.attributes.getLsbD 1 <;> rfl
  rw [hbit, hm]
  cases hrange : mappableRange base size with
  | true => simp [initAttributes_of_mappable hrange, mappableAttributeMask]
  | false => simp [initAttributes_of_not_mappable hrange, computedMask, mappableAttributeMask]

theorem getCachedL2HalfSize_init {base size attributes : Word}
    (hrange : mappableRange base size = true)
    (hm : m.attributes = initAttributes base size attributes) :
    m.getCachedL2HalfSize.toNat = findL2HalfSize size := by
  have hlt := findL2HalfSize_lt size
  have hword : m.getCachedL2HalfSize = BitVec.ofNat 32 (findL2HalfSize size) := by
    apply BitVec.eq_of_getLsbD_eq
    intro i hi
    rw [getCachedL2HalfSize, hm, initAttributes_of_mappable hrange]
    by_cases h5 : i < 5
    · have hfield : cachedL2hsMask.getLsbD (8 + i) = true := by
        interval_cases i <;> rfl
      have hflag : mappableAttributeMask.getLsbD (8 + i) = false := by
        interval_cases i <;> rfl
      simp only [cachedL2hsLsb, computedMask, BitVec.getLsbD_ushiftRight, BitVec.getLsbD_and,
        BitVec.getLsbD_or, BitVec.getLsbD_not, BitVec.getLsbD_shiftLeft, hfield, hflag]
      simp [show 8 + i < 32 by omega]
    · have hfield : cachedL2hsMask.getLsbD (8 + i) = false := by
        by_cases h : 8 + i < 32
        · have hi' : i < 24 := by omega
          interval_cases i <;> rfl
        · exact BitVec.getLsbD_of_ge cachedL2hsMask (8 + i) (by omega)
      have hexponent : (findL2HalfSize size).testBit i = false :=
        Nat.testBit_lt_two_pow (hlt.trans_le (Nat.pow_le_pow_right (n := 2) (by decide)
          (show 5 ≤ i by omega)))
      simp [cachedL2hsLsb, BitVec.getLsbD_ofNat, hfield, hexponent]
  rw [hword, BitVec.toNat_ofNat, Nat.mod_eq_of_lt (by omega)]

/-! ## Coverage -/

/-- A region of the right size at an aligned base covers the block but its disabled eighths. -/
theorem covers_iff {base size : Word} (hrange : NaturallyMappable base size) {r : Region}
    (hbase : r.rbar = base) (henable : r.rasr.getEnable = true)
    (hsize : 2 ^ (r.rasr.getSize.toNat + 1) = size.toNat) (a : Word) :
    r.covers a = true ↔
      base.toNat ≤ a.toNat ∧ a.toNat < base.toNat + size.toNat ∧
        ¬(256 ≤ size.toNat ∧
          r.rasr.getSrd.getLsbD ((a.toNat - base.toNat) / (size.toNat / 8)) = true) := by
  generalize hl : r.rasr.getSize.toNat + 1 = l at hsize
  have hdvd : 2 ^ l ∣ base.toNat := hsize ▸ hrange.aligned
  have hmatch : (a >>> l == r.rbar >>> l) = true ↔
      base.toNat ≤ a.toNat ∧ a.toNat < base.toNat + size.toNat := by
    rw [beq_iff_eq, hbase, ← BitVec.toNat_inj, BitVec.toNat_ushiftRight, BitVec.toNat_ushiftRight,
      Nat.shiftRight_eq_div_pow, Nat.shiftRight_eq_div_pow, ← hsize]
    exact Blocks.div_eq_div_iff hdvd (Nat.two_pow_pos l)
  have hlarge : 8 ≤ l ↔ 256 ≤ size.toNat := by
    rw [← hsize, show (256 : Nat) = 2 ^ 8 from rfl]
    exact (Nat.pow_le_pow_iff_right (by decide)).symm
  simp only [Region.covers, henable, hl, Bool.true_and, Bool.and_eq_true, hmatch, Bool.not_eq_true',
    Bool.and_eq_false_iff, decide_eq_false_iff_not, hlarge, and_assoc, not_and, Bool.not_eq_true]
  apply and_congr_right
  intro hle
  apply and_congr_right
  intro hlt
  by_cases h : 256 ≤ size.toNat
  · have hl3 : 3 ≤ l := by have := hlarge.mpr h; omega
    have height : size.toNat / 8 = 2 ^ (l - 3) := by
      rw [← hsize, show (8 : Nat) = 2 ^ 3 from rfl, Nat.pow_div hl3 (by decide)]
    rw [height, BitVec.toNat_ushiftRight, Nat.shiftRight_eq_div_pow,
      Blocks.eighth_eq hl3 hdvd hle (hsize ▸ hlt)]
    simp [h]
  · simp [h]

/-! ## What the constructor builds -/

/-- The object over a range is marked and cached as its geometry says, and its keys' regions
cover that range. -/
structure GeometryExact (base size attributes : Word) (m : Memory) : Prop where
  mappable : m.isMappable = true ↔ NaturallyMappable base size
  halfSize : NaturallyMappable base size → 2 ^ (m.getCachedL2HalfSize.toNat + 1) = size.toNat
  /-- The other attribute bits come from the incoming word. -/
  rest : m.attributes &&& ~~~computedMask = attributes &&& ~~~computedMask
  enabled : NaturallyMappable base size → ∀ brand,
    (m.getRegionForBrand brand).rasr.getEnable = true
  /-- The address field, bits 31 to 5, is the base. -/
  address : NaturallyMappable base size → ∀ brand, (m.getRegionForBrand brand).rbar = base
  regionSize : NaturallyMappable base size → ∀ brand,
    2 ^ ((m.getRegionForBrand brand).rasr.getSize.toNat + 1) = size.toNat
  /-- Everything above the size field is the low 24 bits of the brand. -/
  fields : NaturallyMappable base size → ∀ brand,
    (m.getRegionForBrand brand).rasr >>> 8 = (brand.setWidth 24).setWidth 32
  /-- The rest of the brand does not matter. -/
  lowBits : ∀ b b' : Brand, b.setWidth 24 = b'.setWidth 24 →
    m.getRegionForBrand b = m.getRegionForBrand b'
  covers : NaturallyMappable base size → ∀ brand a,
    (m.getRegionForBrand brand).covers a = true ↔
      base.toNat ≤ a.toNat ∧ a.toNat < base.toNat + size.toNat ∧
        ¬(256 ≤ size.toNat ∧
          brand.srd.getLsbD ((a.toNat - base.toNat) / (size.toNat / 8)) = true)
  unmappable : ¬NaturallyMappable base size → ∀ brand,
    (m.getRegionForBrand brand).rasr.getEnable = false ∧
      ∀ a, (m.getRegionForBrand brand).covers a = false

/-- A brand's region is made from its low 24 bits. -/
theorem getRegionForBrand_congr {b b' : Brand} (h : b.setWidth 24 = b'.setWidth 24) :
    m.getRegionForBrand b = m.getRegionForBrand b' := by
  have hshift : b.low <<< 8 = b'.low <<< 8 := by
    apply BitVec.eq_of_getLsbD_eq
    intro i hi
    simp only [Brand.low, BitVec.getLsbD_shiftLeft, BitVec.getLsbD_setWidth]
    by_cases h8 : i < 8
    · simp [h8]
    · have hbit := congrArg (fun x => BitVec.getLsbD x (i - 8)) h
      simp only [BitVec.getLsbD_setWidth, show i - 8 < 24 by omega, decide_true,
        Bool.true_and] at hbit
      rw [hbit]
  simp only [getRegionForBrand, hshift]

theorem geometryExact {base size attributes : Word} (hbase : m.base = base)
    (hattributes : m.attributes = initAttributes base size attributes) :
    GeometryExact base size attributes m := by
  have hmark : m.isMappable = true ↔ NaturallyMappable base size := by
    rw [isMappable_init hattributes, mappableRange_iff]
  have hhalf : NaturallyMappable base size →
      2 ^ (m.getCachedL2HalfSize.toNat + 1) = size.toNat := by
    intro hrange
    obtain ⟨l, hl, hn, -⟩ := hrange.exponent
    rw [getCachedL2HalfSize_init (mappableRange_iff.mpr hrange) hattributes,
      findL2HalfSize_eq hl hn, hn]
  have haddress : NaturallyMappable base size → (base >>> 5) <<< 5 = base := by
    intro hrange
    obtain ⟨l, hl, -, hdvd⟩ := hrange.exponent
    have h32 : 2 ^ 5 ∣ base.toNat := (Nat.pow_dvd_pow 2 (by omega)).trans hdvd
    apply BitVec.eq_of_toNat_eq
    rw [BitVec.toNat_shiftLeft, BitVec.toNat_ushiftRight, Blocks.shiftRight_shiftLeft_of_dvd h32,
      Nat.mod_eq_of_lt base.isLt]
  have hregion : NaturallyMappable base size → ∀ brand,
      m.getRegionForBrand brand = ⟨base, m.rasrFor brand⟩ := by
    intro hrange brand
    rw [getRegionForBrand_of_mappable (hmark.mpr hrange), hbase, haddress hrange]
  have hsize : NaturallyMappable base size → ∀ brand,
      2 ^ ((m.rasrFor brand).getSize.toNat + 1) = size.toNat := by
    intro hrange brand
    rw [getSize_rasrFor, hhalf hrange]
  exact
    { mappable := hmark
      halfSize := hhalf
      rest := by rw [hattributes, initAttributes_rest]
      enabled := fun hrange brand => by rw [hregion hrange]; exact getEnable_rasrFor brand
      address := fun hrange brand => by rw [hregion hrange]
      regionSize := fun hrange brand => by rw [hregion hrange]; exact hsize hrange brand
      fields := fun hrange brand => by rw [hregion hrange]; exact attributes_rasrFor brand
      lowBits := fun _ _ h => getRegionForBrand_congr h
      covers := fun hrange brand a => by
        rw [hregion hrange, ← getSrd_rasrFor (m := m)]
        exact covers_iff (r := ⟨base, m.rasrFor brand⟩) hrange rfl (getEnable_rasrFor brand)
          (hsize hrange brand) a
      unmappable := fun hrange brand => by
        have hm : m.isMappable = false := by simpa using fun h => hrange (hmark.mp h)
        rw [getRegionForBrand_of_not_mappable hm]
        exact ⟨rfl, fun _ => rfl⟩ }

/-- Over a range that does not wrap, the constructor either refuses the parent it was given or
builds the object that the range's geometry calls for, whatever the computed bits of the
incoming attributes. -/
theorem construct_geometry (s : KState) (e : TableIndex) (base size attributes : Word)
    (parent : Option TableIndex) (hwrap : base.toNat + size.toNat < 2 ^ 32) :
    wp (construct e base size attributes parent)
        (fun _ s' => (s'.memory e).base = base ∧ (s'.memory e).size = size ∧
          GeometryExact base size attributes (s'.memory e))
        (fun p _ => p = .badChildGeometry ∧ parent.isSome = true) s ∧
      ∀ attributes', attributes' &&& ~~~computedMask = attributes &&& ~~~computedMask →
        construct e base size attributes' parent = construct e base size attributes parent := by
  have hfits : ¬base + size < base := by
    rw [BitVec.lt_def, BitVec.toNat_add]
    omega
  constructor
  · simp only [construct, panicIf, hfits, decide_false, Bool.false_eq_true, if_false, wp_bind,
      wp_pure, wp_modify]
    cases parent with
    | none =>
      exact ⟨by simp, by simp, geometryExact (by simp) (by simp)⟩
    | some p =>
      -- Entering the child with its parent changes the parent's child count only.
      simp only [wp_bind, wp_get, panicUnless, wp_ite, wp_pure, wp_throw, wp_modify]
      refine ⟨fun _ => ?_, fun _ => by simp⟩
      by_cases hp : e = p
      · subst hp
        exact ⟨by simp [updateMemory], by simp [updateMemory],
          geometryExact (by simp [updateMemory]) (by simp [updateMemory])⟩
      · exact ⟨by simp [updateMemory, hp], by simp [updateMemory, hp],
          geometryExact (by simp [updateMemory, hp]) (by simp [updateMemory, hp])⟩
  · intro attributes' h
    simp only [construct, initAttributes_congr h]

theorem construct_geometry_sample :
    wp (construct 3 0x20000100#32 256#32 0x1F03#32 none)
      (fun _ s' => GeometryExact 0x20000100#32 256#32 0x1F03#32 (s'.memory 3)) never {} := by
  refine wp_mono (construct_geometry {} 3 _ _ _ none (by decide)).1 (fun _ _ h => h.2.2) ?_
  rintro p s' ⟨-, hparent⟩
  contradiction

end Memory

end BrittleKernel
