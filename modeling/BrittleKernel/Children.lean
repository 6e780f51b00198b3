import BrittleKernel.Geometry

/-!
# Memory Children

Make Child against its purpose, exact sub-ranges.  The containment test works in wrapping
arithmetic, so it also lets through a child whose size carries the sum past the top of the
address space; the constructor then stops the kernel.
-/

namespace BrittleKernel

open Hoare KState

namespace Memory

/-- A new object keeps the device bit of the attributes it is given. -/
theorem isDevice_init (base size : Word) {m m' : Memory}
    (h : m'.attributes = initAttributes base size m.attributes) : m'.isDevice = m.isDevice := by
  have hrest := initAttributes_rest base size m.attributes
  rw [← h] at hrest
  have hdevice : ∀ x : Memory, x.isDevice =
      ((x.attributes &&& ~~~computedMask) &&& deviceAttributeMask != 0#32) := by
    intro x
    rw [isDevice, BitVec.and_assoc, show ~~~computedMask &&& deviceAttributeMask =
      deviceAttributeMask from by decide]
  rw [hdevice, hdevice m, hrest]

/-! ## The containment test -/

/-- A child whose size carries the sum past 2^32, at a base the parent holds or ends at. -/
structure WrapsAround (base size childBase childSize : Word) : Prop where
  above : base.toNat ≤ childBase.toNat
  inside : childBase.toNat ≤ base.toNat + size.toNat
  wraps : 2 ^ 32 ≤ childBase.toNat - base.toNat + childSize.toNat

/-- The test accepts the true sub-ranges and those that wrap around. -/
theorem contains_iff {base size childBase childSize : Word} :
    contains base size childBase childSize = true ↔
      (base.toNat ≤ childBase.toNat ∧
        childBase.toNat + childSize.toNat ≤ base.toNat + size.toNat) ∨
      WrapsAround base size childBase childSize := by
  simp only [contains, Bool.and_eq_true, decide_eq_true_eq, ge_iff_le, BitVec.le_def,
    BitVec.toNat_sub, BitVec.toNat_add]
  have := base.isLt
  have := size.isLt
  have := childBase.isLt
  have := childSize.isLt
  constructor
  · rintro ⟨⟨habove, hoffset⟩, hend⟩
    by_cases h : childBase.toNat - base.toNat + childSize.toNat < 2 ^ 32
    · left
      omega
    · right
      exact ⟨habove, by omega, by omega⟩
  · rintro (⟨habove, hend⟩ | ⟨habove, hinside, hwraps⟩)
    · omega
    · omega

/-- A range that wraps around its parent also wraps around itself. -/
theorem WrapsAround.overflows {base size childBase childSize : Word}
    (h : WrapsAround base size childBase childSize) : childBase + childSize < childBase := by
  have := h.above
  have := h.wraps
  have := childSize.isLt
  have := childBase.isLt
  rw [BitVec.lt_def, BitVec.toNat_add]
  omega

/-- A true sub-range does not. -/
theorem not_overflows_of_le {base size childBase childSize : Word}
    (hwrap : base.toNat + size.toNat < 2 ^ 32)
    (hend : childBase.toNat + childSize.toNat ≤ base.toNat + size.toNat) :
    ¬childBase + childSize < childBase := by
  rw [BitVec.lt_def, BitVec.toNat_add]
  omega

end Memory

/-! ## The method -/

section

variable {cfg : Config} {e slot : TableIndex} {brand : Brand} {m : Message} {k : Keys} {s : KState}

/-- With a slot to build in and nothing disabled, only the range decides. -/
theorem wp_makeChild {Q : ReplySender → KState → Prop} {E : Panic → KState → Prop}
    (hcfg : cfg.eagerRevocation = false) (he : s.kind e = .memory)
    (hwhole : Rasr.getSrd ((s.memory e).getRegionForBrand brand).rasr = 0#8)
    (htarget : s.target (k 1) = slot) (hslot : s.kind slot = .slot)
    (hm : MemoryMethod.ofSelector m.desc.getSelector = some .makeChild) :
    wp (Memory.serve cfg e brand m k) Q E s ↔
      if Memory.contains (s.memory e).base (s.memory e).size m.d0 m.d1 = true then
        (m.d0 + m.d1 < m.d0 → E .memOverflow (s.bump slot)) ∧
        (¬m.d0 + m.d1 < m.d0 →
          Q (.withKey ((s.makeChildMemory e slot m.d0 m.d1).filled slot brand))
            (s.makeChildMemory e slot m.d0 m.d1))
      else Q (.failure .badArgument) s := by
  have hne : e ≠ slot := by
    rintro rfl
    simp [he] at hslot
  simp only [Memory.serve, hm, Memory.makeChild, wp_bind, wp_get, hwhole, ne_eq, not_true_eq_false,
    if_false]
  by_cases hcontains : Memory.contains (s.memory e).base (s.memory e).size m.d0 m.d1 = true
  · have hcontains' : Memory.contains ((s.bump slot).memory e).base ((s.bump slot).memory e).size
        m.d0 m.d1 = true := hcontains
    simp only [hcontains, Bool.not_true, Bool.false_eq_true, if_false, if_true, localKeyGet, wp_bind,
      wp_get, wp_pure, htarget, hslot, not_true_eq_false, wp_advanceGeneration hcfg,
      wp_construct_child hne _ _ _ hcontains', makeKey, maybeRef]
    rfl
  · simp only [hcontains, Bool.not_false, if_true, Bool.false_eq_true, if_false, wp_pure]

end

/-! ## Exactly the true sub-ranges -/

/-- The child is built and the parent knows. -/
structure ChildMade (s s' : KState) (e slot : TableIndex) (brand : Brand) (m : Message)
    (rs : ReplySender) : Prop where
  kind : s'.kind slot = .memory
  base : (s'.memory slot).base = m.d0
  size : (s'.memory slot).size = m.d1
  device : (s'.memory slot).isDevice = (s.memory e).isDevice
  parent : (s'.memory slot).parent = some e
  generation : s'.generation slot = s.generation slot + 1#32
  childCount : (s'.memory e).childCount = (s.memory e).childCount + 1#32
  /-- Keys to the parent stay live and still name it. -/
  parentKeys : ∀ key, s.isLive key = true → s.target key = e →
    s'.isLive key = true ∧ s'.target key = e
  parentKind : s'.kind e = .memory
  reply : rs.message.desc.getError = false ∧ rs.keys 1 = s'.filled slot brand

/-- Make Child completes, builds the child if its range lies within the parent's, and refuses
without effect otherwise. -/
def MakeChildExact (cfg : Config) (e : TableIndex) (brand : Brand) (m : Message) (k : Keys)
    (s : KState) : Prop :=
  wp (Memory.serve cfg e brand m k)
    (fun rs s' =>
      ((s.memory e).base.toNat ≤ m.d0.toNat ∧
          m.d0.toNat + m.d1.toNat ≤ (s.memory e).base.toNat + (s.memory e).size.toNat →
        ChildMade s s' e (s.target (k 1)) brand m rs) ∧
      (¬((s.memory e).base.toNat ≤ m.d0.toNat ∧
          m.d0.toNat + m.d1.toNat ≤ (s.memory e).base.toNat + (s.memory e).size.toNat) →
        rs = .failure .badArgument ∧ s' = s))
    never s

theorem makeChildMemory_made {s : KState} {e slot : TableIndex} (he : s.kind e = .memory)
    (hslot : s.kind slot = .slot) (brand : Brand) (m : Message) :
    ChildMade s (s.makeChildMemory e slot m.d0 m.d1) e slot brand m
      (.withKey ((s.makeChildMemory e slot m.d0 m.d1).filled slot brand)) := by
  have hne : e ≠ slot := by
    rintro rfl
    simp [he] at hslot
  have hslot_memory : (s.makeChildMemory e slot m.d0 m.d1).memory slot =
      { base := m.d0
        size := m.d1
        attributes := Memory.initAttributes m.d0 m.d1 (s.memory e).attributes
        parent := some e
        childCount := 0#32 } := by
    simp [makeChildMemory, buildMemory, updateMemory, Ne.symm hne]
  have hgeneration : (s.makeChildMemory e slot m.d0 m.d1).generation =
      Function.update s.generation slot (s.generation slot + 1#32) := by
    simp [makeChildMemory, bump, KState.record]
  constructor
  · simp [makeChildMemory]
  · rw [hslot_memory]
  · rw [hslot_memory]
  · rw [hslot_memory]
    exact Memory.isDevice_init m.d0 m.d1 rfl
  · rw [hslot_memory]
  · rw [hgeneration, Function.update_self]
  · simp [makeChildMemory, buildMemory, updateMemory, hne]
  · intro key hlive htarget
    obtain ⟨-, hdead, -⟩ | ⟨hfilled, -⟩ := target_cases s key
    · simp [hlive] at hdead
    · rw [htarget] at hfilled
      have hlive' : (s.makeChildMemory e slot m.d0 m.d1).isLive key = true := by
        rw [hfilled]
        simp [isLive, filled, hgeneration, hne]
      refine ⟨hlive', ?_⟩
      rw [target, resolve, if_pos hlive', hfilled]
      rfl
  · simp [makeChildMemory, hne, he]
  · exact ⟨ReplySender.getError_withKey _, rfl⟩

section

variable {e : TableIndex} {brand : Brand} {m : Message} {k : Keys} {s : KState}

theorem makeChild_exact_iff {etl : Etl} (he : s.kind e = .memory)
    (hrange : (s.memory e).base.toNat + (s.memory e).size.toNat < 2 ^ 32)
    (hwhole : Rasr.getSrd ((s.memory e).getRegionForBrand brand).rasr = 0#8)
    (hslot : s.kind (s.target (k 1)) = .slot)
    (hm : MemoryMethod.ofSelector m.desc.getSelector = some .makeChild) :
    MakeChildExact (.source etl) e brand m k s ↔
      ¬Memory.WrapsAround (s.memory e).base (s.memory e).size m.d0 m.d1 := by
  rw [MakeChildExact, wp_makeChild rfl he hwhole rfl hslot hm]
  constructor
  · -- A range that wraps around is let through and runs into the constructor's check.
    intro hexact hwraps
    rw [if_pos (Memory.contains_iff.mpr (.inr hwraps))] at hexact
    exact hexact.1 hwraps.overflows
  · intro hwraps
    by_cases hsub : (s.memory e).base.toNat ≤ m.d0.toNat ∧
        m.d0.toNat + m.d1.toNat ≤ (s.memory e).base.toNat + (s.memory e).size.toNat
    · rw [if_pos (Memory.contains_iff.mpr (.inl hsub))]
      exact ⟨fun h => (Memory.not_overflows_of_le hrange hsub.2 h).elim,
        fun _ => ⟨fun _ => makeChildMemory_made he hslot brand m, fun h => (h hsub).elim⟩⟩
    · rw [if_neg fun h => (Memory.contains_iff.mp h).elim hsub hwraps]
      exact ⟨fun h => (hsub h).elim, fun _ => ⟨rfl, rfl⟩⟩

end

/-! ## A sample object and slot -/

namespace ChildSample

/-- 4 KiB of memory in entry 3, an empty slot in entry 4 with a key to it. -/
def state : KState :=
  { kind := fun e => if e = 3 then .memory else if e = 4 then .slot else .null
    memory := fun _ => { base := 0x20000000#32, size := 0x1000#32, attributes := 0xB02#32 } }

def keys : Keys := fun i => if i = 1 then ⟨0#64, 0#32, some 4⟩ else {}

/-- Make Child with the given range. -/
def request (base size : Word) : Message := { desc := ⟨7#32⟩, d0 := base, d1 := size }

end ChildSample

open ChildSample in
theorem makeChild_exact_sample :
    MakeChildExact (.source ⟨6#3, .inl rfl⟩) 3 0x030000#64 (request 0x20000FF0#32 0x10#32) keys state := by
  refine (makeChild_exact_iff rfl (by decide) (by decide) (by decide) (by decide)).mpr ?_
  rintro ⟨-, -, hwraps⟩
  revert hwraps
  decide

open ChildSample in
/-- A child of almost 4 GiB at 16 bytes into the parent stops the kernel. -/
theorem makeChild_wraps :
    ¬MakeChildExact (.source ⟨6#3, .inl rfl⟩) 3 0x030000#64 (request 0x20000010#32 0xFFFFFFF8#32) keys
      state := by
  intro hexact
  rw [MakeChildExact, wp_makeChild rfl rfl (by decide) rfl (by decide) (by decide)] at hexact
  rw [if_pos (by decide)] at hexact
  exact hexact.1 (by decide)

end BrittleKernel
