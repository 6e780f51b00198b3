import BrittleKernel.Geometry
import Mathlib.Logic.Relation

/-!
# Derived Memory Keys

Change derives a key to the same Memory with other attributes.  Along a chain of Change
messages access only shrinks and disabled subregions stay disabled, and the last key is a
fixed point: asking for what it has returns it.
-/

namespace BrittleKernel

open Hoare KState

/-! ## Authority -/

namespace Memory

variable {m : Memory}

/-- The access that a key with this brand gives, `none` where the encoding is not one of the
six. -/
def accessOf (etl : Etl) (m : Memory) (brand : Brand) : Option SplitAccess :=
  decodeAp etl (Rasr.getAp (m.getRegionForBrand brand).rasr)

/-- The subregions that a key with this brand leaves out. -/
def disabledOf (m : Memory) (brand : Brand) : Byte :=
  Rasr.getSrd (m.getRegionForBrand brand).rasr

theorem accessOf_of_mappable (hm : m.isMappable = true) (etl : Etl) (brand : Brand) :
    m.accessOf etl brand = decodeAp etl brand.ap := by
  rw [accessOf, getRegionForBrand_of_mappable hm, getAp_rasrFor]

theorem disabledOf_of_mappable (hm : m.isMappable = true) (brand : Brand) :
    m.disabledOf brand = brand.srd := by
  rw [disabledOf, getRegionForBrand_of_mappable hm, getSrd_rasrFor]

end Memory

/-- No greater on either side. -/
structure SplitAccess.Le (a b : SplitAccess) : Prop where
  priv : a.priv.rank ≤ b.priv.rank
  unpriv : a.unpriv.rank ≤ b.unpriv.rank

theorem SplitAccess.le_of_not_isStronger {a b : SplitAccess} (h : a.isStronger b = false) :
    a.Le b := by
  simp only [isStronger, Bool.or_eq_false_iff, decide_eq_false_iff_not, Nat.not_lt] at h
  exact ⟨h.1, h.2⟩

theorem SplitAccess.isStronger_self (a : SplitAccess) : a.isStronger a = false := by
  simp [isStronger]

theorem SplitAccess.Le.trans {a b c : SplitAccess} (hab : a.Le b) (hbc : b.Le c) : a.Le c :=
  ⟨hab.priv.trans hbc.priv, hab.unpriv.trans hbc.unpriv⟩

/-! ## The brand that Change makes -/

theorem Brand.ofWords_low_high (b : Brand) : Brand.ofWords b.low b.high = b := by
  apply BitVec.eq_of_getLsbD_eq
  intro i hi
  simp only [Brand.ofWords, Brand.low, Brand.high, BitVec.getLsbD_or, BitVec.getLsbD_setWidth,
    BitVec.getLsbD_shiftLeft, BitVec.getLsbD_ushiftRight]
  by_cases h : i < 32
  · simp [h, hi]
  · simp [h, hi, show i - 32 < 64 by omega, show i - 32 < 32 by omega, show 32 + (i - 32) = i by omega]

/-- The brand of the key that Change returns for a requested register value. -/
def Brand.ofRasr (d : Rasr) : Brand := (scrubRasr d >>> 8).setWidth 64

theorem Brand.getLsbD_ofRasr (d : Rasr) {i : Nat} (hi : i < 24) :
    (Brand.ofRasr d).getLsbD i = (scrubRasr d).getLsbD (8 + i) := by
  simp [Brand.ofRasr, show i < 64 by omega, show 8 + i < 64 by omega]

theorem Brand.srd_ofRasr (d : Rasr) : (Brand.ofRasr d).srd = Rasr.getSrd (scrubRasr d) := by
  apply BitVec.eq_of_getLsbD_eq
  intro i hi
  simp only [Brand.srd, Rasr.getSrd, BitVec.getLsbD_setWidth, BitVec.getLsbD_ushiftRight,
    Brand.getLsbD_ofRasr d (show i < 24 by omega)]

theorem Brand.ap_ofRasr (d : Rasr) : (Brand.ofRasr d).ap = Rasr.getAp (scrubRasr d) := by
  apply BitVec.eq_of_getLsbD_eq
  intro i hi
  have hbit := Brand.getLsbD_ofRasr d (show 16 + i < 24 by omega)
  simp only [Brand.ap, Rasr.getAp, BitVec.getLsbD_setWidth, BitVec.getLsbD_ushiftRight, hbit,
    ← Nat.add_assoc]

/-- The brand survives being read back from a mappable object's region. -/
theorem Brand.ofRasr_rasrFor (m : Memory) (d : Rasr) :
    Brand.ofRasr (m.rasrFor (Brand.ofRasr d)) = Brand.ofRasr d := by
  suffices hscrub : scrubRasr (m.rasrFor (Brand.ofRasr d)) = scrubRasr d by
    rw [Brand.ofRasr, hscrub, Brand.ofRasr]
  apply BitVec.eq_of_getLsbD_eq
  intro i hi
  simp only [scrubRasr, BitVec.getLsbD_and]
  by_cases h8 : i < 8
  · have hmask : Rasr.attributeMask.getLsbD i = false := by
      interval_cases i <;> rfl
    simp [hmask]
  · obtain ⟨j, rfl⟩ : ∃ j, i = 8 + j := ⟨i - 8, by omega⟩
    have hj : j < 24 := by omega
    rw [Memory.getLsbD_rasrFor _ hj, Brand.getLsbD_ofRasr d hj, scrubRasr, BitVec.getLsbD_and,
      Bool.and_assoc, Bool.and_self]

/-! ## One Change message -/

/-- What Change checks. -/
structure Memory.Grants (etl : Etl) (m : Memory) (brand : Brand) (d : Rasr) : Prop where
  mappable : m.isMappable = true
  access : ∃ new current, decodeAp etl (Brand.ofRasr d).ap = some new ∧
    decodeAp etl brand.ap = some current ∧ new.isStronger current = false
  subregions : brand.srd &&& ~~~(Brand.ofRasr d).srd = 0#8
  small : m.size < 256#32 → (Brand.ofRasr d).srd = 0#8

theorem decodeAp_unpredictable (etl : Etl) : decodeAp etl 4#3 = none := by
  obtain ⟨readRead, rfl | rfl⟩ := etl <;> rfl

section

variable {cfg : Config} {e : TableIndex} {brand : Brand} {m : Message} {s : KState}

/-- Change answers with a key exactly if its checks pass; otherwise it refuses or panics. -/
theorem wp_change {Q : ReplySender → KState → Prop} {E : Panic → KState → Prop}
    (hgrant : (s.memory e).Grants cfg.etl brand m.d0 →
      Q (.withKey (s.filled e (Brand.ofRasr m.d0))) s)
    (hrefuse : ¬(s.memory e).Grants cfg.etl brand m.d0 → ∀ x, Q (.failure x) s)
    (hpanic : ¬(s.memory e).Grants cfg.etl brand m.d0 → E .unpredictableAp s) :
    wp (Memory.change cfg e brand m) Q E s := by
  simp only [Memory.change, wp_bind, wp_get, wp_ite, wp_pure, Bool.not_eq_true', Bool.not_eq_false]
  refine ⟨fun hmappable => hrefuse (fun h => by simp [h.mappable] at hmappable) _,
    fun hmappable => ⟨fun hap => ?_, fun hap => ?_⟩⟩
  · -- The requested encoding is the unpredictable one.
    apply hrefuse
    rintro ⟨-, ⟨new, current, hnew, -, -⟩, -, -⟩
    rw [Brand.ap_ofRasr, beq_iff_eq.mp hap, decodeAp_unpredictable] at hnew
    contradiction
  · rw [Memory.getRegionForBrand_of_mappable hmappable]
    simp only [Memory.getAp_rasrFor, Memory.getSrd_rasrFor, ← Brand.ap_ofRasr, ← Brand.srd_ofRasr]
    cases hnew : decodeAp cfg.etl (Brand.ofRasr m.d0).ap with
    | none =>
      apply hpanic
      rintro ⟨-, ⟨new, current, hnew', -, -⟩, -, -⟩
      simp [hnew] at hnew'
    | some new =>
      cases hcurrent : decodeAp cfg.etl brand.ap with
      | none =>
        apply hpanic
        rintro ⟨-, ⟨new, current, -, hcurrent', -⟩, -, -⟩
        simp [hcurrent] at hcurrent'
      | some current =>
        simp only [wp_ite, wp_pure, wp_bind, makeKey, maybeRef, wp_get, Bool.or_eq_true,
          Bool.and_eq_true, decide_eq_true_eq]
        refine ⟨fun hbad => hrefuse ?_ _, fun hgood => hgrant ?_⟩
        · rintro ⟨-, ⟨new', current', hnew', hcurrent', hweak⟩, hsub, hsmall⟩
          obtain rfl := Option.some.inj (hnew.symm.trans hnew')
          obtain rfl := Option.some.inj (hcurrent.symm.trans hcurrent')
          obtain (hstrong | hlost) | ⟨hsize, hnonzero⟩ := hbad
          · simp [hweak] at hstrong
          · exact hlost hsub
          · exact hnonzero (hsmall hsize)
        · simp only [not_or, not_and, not_not, Bool.not_eq_true] at hgood
          exact ⟨hmappable, ⟨new, current, hnew, hcurrent, hgood.1.1⟩, hgood.1.2, hgood.2⟩

/-- Granted or not, the outcome of Change is known. -/
theorem change_of_grants (h : (s.memory e).Grants cfg.etl brand m.d0) :
    Memory.change cfg e brand m s = .ok (.withKey (s.filled e (Brand.ofRasr m.d0))) s := by
  have hrun : wp (Memory.change cfg e brand m)
      (fun rs s' => rs = .withKey (s.filled e (Brand.ofRasr m.d0)) ∧ s' = s) never s :=
    wp_change (fun _ => ⟨rfl, rfl⟩) (fun hn => (hn h).elim) fun hn => (hn h).elim
  obtain ⟨rs, s', hok, rfl, rfl⟩ := exists_ok hrun
  exact hok

theorem grants_of_change {rs : ReplySender} {s' : KState}
    (h : Memory.change cfg e brand m s = .ok rs s') (hreply : rs.message.desc.getError = false) :
    (s.memory e).Grants cfg.etl brand m.d0 ∧
      rs = .withKey (s.filled e (Brand.ofRasr m.d0)) ∧ s' = s := by
  have hrun : wp (Memory.change cfg e brand m)
      (fun rs s' => rs.message.desc.getError = false → (s.memory e).Grants cfg.etl brand m.d0 ∧
        rs = .withKey (s.filled e (Brand.ofRasr m.d0)) ∧ s' = s) (fun _ _ => True) s := by
    refine wp_change (fun hgrant _ => ⟨hgrant, rfl, rfl⟩) (fun _ x herror => ?_) fun _ => trivial
    have : (Descriptor.zero.withError true).getError = true := by decide
    simp [ReplySender.failure, Message.failure, this] at herror
  exact wp_ok hrun h hreply

theorem serve_change (hm : MemoryMethod.ofSelector m.desc.getSelector = some .change) (k : Keys) :
    Memory.serve cfg e brand m k = Memory.change cfg e brand m := by
  simp only [Memory.serve, hm]

end

/-! ## Chains of Change messages -/

/-- The key is live and its entry holds this object.  Base, size and attributes are what a
Memory never changes; anything else may have happened in between. -/
structure KState.Holds (s : KState) (k : Key) (object : Memory) : Prop where
  live : s.isLive k = true
  kind : s.kind (s.target k) = .memory
  base : (s.memory (s.target k)).base = object.base
  size : (s.memory (s.target k)).size = object.size
  attributes : (s.memory (s.target k)).attributes = object.attributes

/-- A Change message sent through `k`, handled with `k`'s own brand, and answered with `k'`. -/
inductive Changes (cfg : Config) (object : Memory) : Key → Key → Prop where
  | intro {s s' : KState} {k : Key} {m : Message} {keys : Keys} {rs : ReplySender} :
      s.Holds k object →
      MemoryMethod.ofSelector m.desc.getSelector = some .change →
      Memory.serve cfg (s.target k) k.brand m keys s = .ok rs s' →
      rs.message.desc.getError = false →
      Changes cfg object k (rs.keys 1)

/-- A message whose checks pass is a link of the chain. -/
theorem Changes.of_grants {cfg : Config} {object : Memory} {s : KState} {k : Key} (m : Message)
    (h : s.Holds k object) (hm : MemoryMethod.ofSelector m.desc.getSelector = some .change)
    (hgrant : (s.memory (s.target k)).Grants cfg.etl k.brand m.d0) :
    Changes cfg object k (s.filled (s.target k) (Brand.ofRasr m.d0)) := by
  have hserve : Memory.serve cfg (s.target k) k.brand m (fun _ => {}) s =
      .ok (.withKey (s.filled (s.target k) (Brand.ofRasr m.d0))) s := by
    rw [serve_change hm]
    exact change_of_grants hgrant
  exact .intro h hm hserve (ReplySender.getError_withKey _)

/-- What a key `k` derived from `k₀` keeps and loses. -/
structure Weakened (cfg : Config) (object : Memory) (k₀ k : Key) : Prop where
  /-- Same object, same generation. -/
  ptr : k.ptr = k₀.ptr
  generation : k.generation = k₀.generation
  access : ∃ a a₀, object.accessOf cfg.etl k.brand = some a ∧
    object.accessOf cfg.etl k₀.brand = some a₀ ∧ a.Le a₀
  subregions : ∀ i, (object.disabledOf k₀.brand).getLsbD i = true →
    (object.disabledOf k.brand).getLsbD i = true
  small : object.size < 256#32 → object.disabledOf k₀.brand = 0#8 → object.disabledOf k.brand = 0#8
  /-- Asking for the register value the key already has succeeds and returns the key. -/
  again : ∀ (s : KState) (m : Message) (keys : Keys), s.Holds k object →
    MemoryMethod.ofSelector m.desc.getSelector = some .change →
    m.d0 = (object.getRegionForBrand k.brand).rasr →
    ∃ rs, Memory.serve cfg (s.target k) k.brand m keys s = .ok rs s ∧
      rs.message.desc.getError = false ∧ rs.keys 1 = k

theorem Weakened.trans {cfg : Config} {object : Memory} {k₀ k₁ k₂ : Key}
    (h₁ : Weakened cfg object k₀ k₁) (h₂ : Weakened cfg object k₁ k₂) :
    Weakened cfg object k₀ k₂ where
  ptr := h₂.ptr.trans h₁.ptr
  generation := h₂.generation.trans h₁.generation
  access := by
    obtain ⟨a₁, a₀, ha₁, ha₀, hle⟩ := h₁.access
    obtain ⟨a₂, a₁', ha₂, ha₁', hle'⟩ := h₂.access
    obtain rfl := Option.some.inj (ha₁.symm.trans ha₁')
    exact ⟨a₂, a₀, ha₂, ha₀, hle'.trans hle⟩
  subregions := fun i h => h₂.subregions i (h₁.subregions i h)
  small := fun hsize h => h₂.small hsize (h₁.small hsize h)
  again := h₂.again

/-- The regions of an object are those of any other with the same base and attributes. -/
theorem Memory.getRegionForBrand_eq {a b : Memory} (hbase : a.base = b.base)
    (hattributes : a.attributes = b.attributes) (brand : Brand) :
    a.getRegionForBrand brand = b.getRegionForBrand brand := by
  simp [getRegionForBrand, isMappable, getCachedL2HalfSize, hbase, hattributes]

theorem KState.Holds.eq_filled {s : KState} {k : Key} {object : Memory}
    (h : s.Holds k object) : k = s.filled (s.target k) k.brand := by
  obtain ⟨-, hdead, -⟩ | ⟨hfilled, -⟩ := target_cases s k
  · simp [h.live] at hdead
  · exact hfilled

/-- What one message grants weakens the key. -/
theorem Changes.weakened {cfg : Config} {object : Memory} {k k' : Key}
    (h : Changes cfg object k k') : Weakened cfg object k k' := by
  obtain ⟨hholds, hm, hserve, hreply⟩ := h
  rename_i s s' m keys rs
  rw [serve_change hm] at hserve
  obtain ⟨hgrant, rfl, rfl⟩ := grants_of_change hserve hreply
  have hkey : (ReplySender.withKey (s'.filled (s'.target k) (Brand.ofRasr m.d0))).keys 1 =
      s'.filled (s'.target k) (Brand.ofRasr m.d0) := rfl
  rw [hkey]
  have hobject : object.isMappable = true := by
    rw [← hgrant.mappable, Memory.isMappable, Memory.isMappable, hholds.attributes]
  obtain ⟨new, current, hnew, hcurrent, hweak⟩ := hgrant.access
  exact
    { ptr := (congrArg Key.ptr hholds.eq_filled).symm
      generation := (congrArg Key.generation hholds.eq_filled).symm
      access := by
        refine ⟨new, current, ?_, ?_, SplitAccess.le_of_not_isStronger hweak⟩
        · rw [Memory.accessOf_of_mappable hobject]
          exact hnew
        · rw [Memory.accessOf_of_mappable hobject]
          exact hcurrent
      subregions := by
        intro i hi
        rw [Memory.disabledOf_of_mappable hobject] at hi ⊢
        show (Brand.ofRasr m.d0).srd.getLsbD i = true
        have hbit := congrArg (fun x => BitVec.getLsbD x i) hgrant.subregions
        have hi8 : i < 8 := BitVec.lt_of_getLsbD hi
        simpa [hi, hi8] using hbit
      small := by
        intro hsize _
        rw [Memory.disabledOf_of_mappable hobject]
        exact hgrant.small (by rwa [hholds.size])
      again := by
        intro t m' keys' hholds' hm' hd
        rw [Memory.getRegionForBrand_of_mappable hobject] at hd
        have hsame : Brand.ofRasr m'.d0 = Brand.ofRasr m.d0 := by
          rw [hd]
          exact Brand.ofRasr_rasrFor object m.d0
        have hgrant' : (t.memory (t.target (s'.filled (s'.target k) (Brand.ofRasr m.d0)))).Grants
            cfg.etl (Brand.ofRasr m.d0) m'.d0 := by
          constructor
          · rw [← hobject, Memory.isMappable, Memory.isMappable, hholds'.attributes]
          · exact ⟨new, new, by rw [hsame, hnew], hnew, new.isStronger_self⟩
          · rw [hsame]
            exact BitVec.and_not_self _
          · intro hsize
            rw [hsame]
            exact hgrant.small (by rwa [hholds.size, ← hholds'.size])
        refine ⟨_, (congrFun (serve_change hm' keys') t).trans (change_of_grants hgrant'),
          ReplySender.getError_withKey _, ?_⟩
        rw [hsame]
        exact hholds'.eq_filled.symm }

theorem change_weakens {cfg : Config} {object : Memory} {k₀ k : Key}
    (h : Relation.TransGen (Changes cfg object) k₀ k) : Weakened cfg object k₀ k := by
  -- Induction on the chain: every link weakens, and weakening composes.
  induction h with
  | single h => exact h.weakened
  | tail _ h ih => exact ih.trans h.weakened

/-- From full access to read-only access below the first subregion, in two messages. -/
theorem change_weakens_sample :
    Weakened (.source ⟨6#3, .inl rfl⟩) { base := 0x20000000#32, size := 256#32, attributes := 0x702#32 }
      ⟨0x030000#64, 0#32, some 3⟩ ⟨0x060003#64, 0#32, some 3⟩ := by
  let object : Memory := { base := 0x20000000#32, size := 256#32, attributes := 0x702#32 }
  let s : KState := { kind := fun _ => .memory, memory := fun _ => object }
  have hholds : ∀ b, s.Holds ⟨b, 0#32, some 3⟩ object := fun b => ⟨rfl, rfl, rfl, rfl, rfl⟩
  have hfirst : Changes (.source ⟨6#3, .inl rfl⟩) object ⟨0x030000#64, 0#32, some 3⟩
      ⟨0x020001#64, 0#32, some 3⟩ :=
    Changes.of_grants ⟨⟨2#32⟩, 0x02000100#32, 0#32, 0#32, 0#32, 0#32⟩ (hholds _) (by decide)
      ⟨by decide, ⟨⟨.write, .read⟩, ⟨.write, .write⟩, by decide, by decide, by decide⟩, by decide,
        by decide⟩
  have hsecond : Changes (.source ⟨6#3, .inl rfl⟩) object ⟨0x020001#64, 0#32, some 3⟩
      ⟨0x060003#64, 0#32, some 3⟩ :=
    Changes.of_grants ⟨⟨2#32⟩, 0x06000300#32, 0#32, 0#32, 0#32, 0#32⟩ (hholds _) (by decide)
      ⟨by decide, ⟨⟨.read, .read⟩, ⟨.write, .read⟩, by decide, by decide, by decide⟩, by decide,
        by decide⟩
  exact change_weakens (.tail (.single hfirst) hsecond)

end BrittleKernel
