import BrittleKernel.System.Pool

/-!
# Halving Blocks

What Split does to a whole block in the middle: two blocks of the next smaller size that lie
side by side where the block was.
-/

namespace BrittleKernel

open Hoare KState

section

variable {cfg : Config} {e slot : TableIndex} {brand : Brand} {m : Message} {k : Keys} {s : KState}

/-- With a whole Memory and a position inside it, only the slot key decides. -/
theorem wp_split {Q : ReplySender → KState → Prop} {E : Panic → KState → Prop}
    (hcfg : cfg.eagerRevocation = false) (he : s.kind e = .memory)
    (hwhole : Rasr.getSrd ((s.memory e).getRegionForBrand brand).rasr = 0#8)
    (hleaf : (s.memory e).childCount = 0#32)
    (hrange : (s.memory e).base.toNat + (s.memory e).size.toNat < 2 ^ 32)
    (hpos : m.d0 ≤ (s.memory e).size) (htarget : s.target (k 1) = slot)
    (hm : MemoryMethod.ofSelector m.desc.getSelector = some .split) :
    wp (Memory.serve cfg e brand m k) Q E s ↔
      if s.kind slot = .slot then
        Q ((({} : ReplySender).setKey 2 ((s.splitMemory e slot m.d0).filled slot brand)).setKey 1
          ((s.splitMemory e slot m.d0).filled e brand)) (s.splitMemory e slot m.d0)
      else Q (.failure .badKind) s := by
  have hpos' : m.d0.toNat ≤ (s.memory e).size.toNat := hpos
  simp only [Memory.serve, hm, Memory.doSplit, wp_bind, wp_get, hwhole, hleaf, localKeyGet, wp_pure,
    htarget, gt_iff_lt, BitVec.not_lt.mpr hpos, if_false, ne_eq, not_true_eq_false, decide_false,
    Bool.or_self, Bool.false_eq_true]
  by_cases hslot : s.kind slot = .slot
  · have hne : e ≠ slot := by
      rintro rfl
      simp [he] at hslot
    have htop : ¬(s.memory e).base + m.d0 + ((s.memory e).size - m.d0) < (s.memory e).base + m.d0 := by
      rw [BitVec.lt_def, BitVec.toNat_add, BitVec.toNat_add, BitVec.toNat_sub_of_le hpos]
      omega
    have hbottom : ¬(s.memory e).base + m.d0 < (s.memory e).base := by
      rw [BitVec.lt_def, BitVec.toNat_add]
      omega
    have hmemory : ((s.bump slot).buildMemory slot ((s.memory e).base + m.d0)
        ((s.memory e).size - m.d0) (s.memory e).attributes none).memory e = s.memory e := by
      simp [buildMemory, bump, KState.record, hne]
    simp only [hslot, not_true_eq_false, if_false, if_true, wp_bind, wp_advanceGeneration hcfg,
      wp_construct_root, htop, hbottom, false_implies, true_and, not_false_eq_true, true_implies,
      makeKey, maybeRef, wp_get, wp_pure, wp_destroy (hmemory ▸ hleaf), wp_applyToMpu]
    simp [splitMemory, filled, Ne.symm hne]
  · simp only [hslot, not_false_eq_true, if_true, if_false, wp_pure]

/-- A Memory over part of the range, with the same attributes. -/
def Memory.piece (m : Memory) (base size : Word) : Memory where
  base := base
  size := size
  attributes := initAttributes base size m.attributes

/-- The bottom half of a block's Memory. -/
def Memory.bottomHalf (m : Memory) (l : Nat) : Memory := m.piece m.base (1#32 <<< l)

/-- The top half. -/
def Memory.topHalf (m : Memory) (l : Nat) : Memory :=
  m.piece (m.base + 1#32 <<< l) (m.size - 1#32 <<< l)

theorem memory_splitMemory (hne : e ≠ slot) (hroot : (s.memory e).parent = none) (pos : Word) :
    (s.splitMemory e slot pos).memory =
      Function.update
        (Function.update s.memory slot
          ((s.memory e).piece ((s.memory e).base + pos) ((s.memory e).size - pos)))
        e ((s.memory e).piece (s.memory e).base pos) := by
  simp only [splitMemory, memory_loadMpu, buildMemory, orphan, memory_bump]
  rw [Function.update_of_ne hne, hroot]
  rfl

theorem ram_splitMemory (hne : e ≠ slot) (hroot : (s.memory e).parent = none) (pos : Word) :
    (s.splitMemory e slot pos).ram = s.ram := by
  simp only [splitMemory, buildMemory, orphan, memory_bump]
  rw [Function.update_of_ne hne, hroot]
  rfl

theorem kind_splitMemory (pos : Word) : (s.splitMemory e slot pos).kind =
    Function.update (Function.update s.kind slot .memory) e .memory := by
  simp [splitMemory]

theorem generation_splitMemory (hne : e ≠ slot) (pos : Word) : (s.splitMemory e slot pos).generation =
    Function.update (Function.update s.generation slot (s.generation slot + 1#32)) e
      (s.generation e + 1#32) := by
  simp [splitMemory, hne]

theorem count_splitMemory (pos : Word) : (s.splitMemory e slot pos).count = s.count := by
  simp [splitMemory]

/-- A key with the allocator's own brand disables no part of its region. -/
theorem Memory.srd_zero (m : Memory) : Rasr.getSrd (m.getRegionForBrand 0#64).rasr = 0#8 := by
  rw [getRegionForBrand]
  split
  · decide
  · exact m.getSrd_rasrFor 0#64

end

namespace System

/-- The state after a block has been halved. -/
def State.halved (σ : State) (l : Nat) (oti top : Word) : State :=
  σ.over ((σ.consulted (σ.kernel.filled oti.toNat 0#64)).kernel.splitMemory oti.toNat top.toNat
    (1#32 <<< l))

section

variable {build : Build} {σ : State} {l : Nat} {oti top : Word} {lists : Nat → List Word}

theorem toNat_half (hl : l < 32) : (1#32 <<< l : Word).toNat = 2 ^ l := by
  rw [BitVec.toNat_shiftLeft, Nat.shiftLeft_eq, show (1#32 : Word).toNat = 1 from rfl, Nat.one_mul]
  exact Nat.mod_eq_of_lt (Nat.pow_lt_pow_right (by decide) hl)

theorem wp_memorySplit {Q : Key × Key → State → Prop} {E : Stop → State → Prop}
    (h : σ.Block l oti) :
    wp (memorySplit build (σ.kernel.filled oti.toNat 0#64) (1#32 <<< l)
        (σ.kernel.filled top.toNat 0#64)) Q E σ ↔
      if σ.kernel.kind top.toNat = .slot then
        Q ((σ.halved l oti top).kernel.filled oti.toNat 0#64,
          (σ.halved l oti top).kernel.filled top.toNat 0#64) (σ.halved l oti top)
      else E (.assertion (σ.kernel.filled oti.toNat 0#64) (request 3#16 (1#32 <<< l)))
        (σ.consulted (σ.kernel.filled oti.toNat 0#64)) := by
  have hblock := h.hasBlock 0#64
  have hlt := h.lt
  have hpos : 1#32 <<< l ≤ (σ.kernel.memory oti.toNat).size := by
    rw [BitVec.le_def, toNat_half (hlt.trans (by decide)), h.size]
    exact Nat.pow_le_pow_right (by decide) (by omega)
  have hm : MemoryMethod.ofSelector (request 3#16 (1#32 <<< l)).desc.getSelector = some .split := by
    rw [getSelector_request]
    rfl
  rw [memorySplit, wp_bind, wp_callAsserting, wp_callMemory hblock.live hblock.kind, target_filled,
    show (σ.kernel.filled oti.toNat 0#64).brand = 0#64 from rfl]
  rw [wp_split (s := (σ.consulted (σ.kernel.filled oti.toNat 0#64)).kernel)
    rfl h.kind (Memory.srd_zero _) h.leaf h.noWrap hpos (target_filled _ _ _) hm]
  show (if σ.kernel.kind top.toNat = .slot then _ else _) ↔ _
  by_cases hslot : σ.kernel.kind top.toNat = .slot
  · have hreply : ∀ k₁ k₂ : Key,
        ((({} : ReplySender).setKey 2 k₂).setKey 1 k₁).message.desc.getError = false :=
      fun _ _ => getError_zero
    simp only [hslot, if_true, wp_pure, hreply, Bool.false_eq_true, false_implies, true_and,
      true_implies]
    rfl
  · simp only [hslot, if_false, getError_failure, true_implies, Bool.true_eq_false, false_implies,
      and_true, over_kernel_consulted]

/-! ## The two halves -/

theorem memory_halved (hne : oti.toNat ≠ top.toNat) (hroot : (σ.kernel.memory oti.toNat).parent = none) :
    (σ.halved l oti top).kernel.memory =
      Function.update (Function.update σ.kernel.memory top.toNat
        ((σ.kernel.memory oti.toNat).topHalf l))
        oti.toNat ((σ.kernel.memory oti.toNat).bottomHalf l) :=
  memory_splitMemory (s := (σ.consulted (σ.kernel.filled oti.toNat 0#64)).kernel) hne hroot _

theorem kind_halved : (σ.halved l oti top).kernel.kind =
    Function.update (Function.update σ.kernel.kind top.toNat .memory) oti.toNat .memory :=
  kind_splitMemory (s := (σ.consulted (σ.kernel.filled oti.toNat 0#64)).kernel) _

theorem generation_halved (hne : oti.toNat ≠ top.toNat) : (σ.halved l oti top).kernel.generation =
    Function.update (Function.update σ.kernel.generation top.toNat
      (σ.kernel.generation top.toNat + 1#32)) oti.toNat (σ.kernel.generation oti.toNat + 1#32) :=
  generation_splitMemory (s := (σ.consulted (σ.kernel.filled oti.toNat 0#64)).kernel) hne _

theorem count_halved : (σ.halved l oti top).kernel.count = σ.kernel.count :=
  count_splitMemory (s := (σ.consulted (σ.kernel.filled oti.toNat 0#64)).kernel) _

theorem ram_halved (hne : oti.toNat ≠ top.toNat) (hroot : (σ.kernel.memory oti.toNat).parent = none) :
    (σ.halved l oti top).kernel.ram = σ.kernel.ram :=
  ram_splitMemory (s := (σ.consulted (σ.kernel.filled oti.toNat 0#64)).kernel) hne hroot _

/-- Entries other than those of the halves stay as they are. -/
theorem sameEntry_halved (hne : oti.toNat ≠ top.toNat)
    (hroot : (σ.kernel.memory oti.toNat).parent = none) {e : TableIndex} (hoti : e ≠ oti.toNat)
    (htop : e ≠ top.toNat) : σ.SameEntry (σ.halved l oti top) e := by
  constructor
  · rw [kind_halved, Function.update_of_ne hoti, Function.update_of_ne htop]
  · rw [generation_halved hne, Function.update_of_ne hoti, Function.update_of_ne htop]
  · rw [memory_halved hne hroot, Function.update_of_ne hoti, Function.update_of_ne htop]

/-- An entry that holds half of a block. -/
theorem State.Block.of_piece {m : Memory} {base size : Word}
    (hmemory : σ.kernel.memory oti.toNat = m.piece base size)
    (hcount : oti.toNat < σ.kernel.count) (hkind : σ.kernel.kind oti.toNat = .memory) (hl : 5 ≤ l)
    (hsize : size.toNat = 2 ^ l) (haligned : 2 ^ l ∣ base.toNat)
    (hwrap : base.toNat + size.toNat < 2 ^ 32) : σ.Block (l - 1) oti := by
  refine ⟨hcount, hkind, ?_, ?_, ?_, ?_, ?_, ?_⟩
  all_goals rw [hmemory]
  · rw [Nat.sub_add_cancel (by omega)]
    exact hsize
  · refine ⟨⟨l, hsize⟩, ?_, ?_⟩
    · show 32 ≤ size.toNat
      rw [hsize]
      exact Nat.pow_le_pow_right (show 0 < 2 by decide) hl
    · show size.toNat ∣ base.toNat
      rw [hsize]
      exact haligned
  · exact hwrap
  · exact ⟨_, rfl⟩
  · rfl
  · rfl

/-- What halving a block on no list leads to. -/
structure State.Halves (σ σ' : State) (lists : Nat → List Word) (l : Nat) (oti top : Word) : Prop where
  free : σ'.FreeLists lists
  bottomLoose : σ'.Loose lists (l - 1) oti
  topLoose : σ'.Loose lists (l - 1) top
  ne : oti ≠ top
  bottomBase : (σ'.kernel.memory oti.toNat).base = (σ.kernel.memory oti.toNat).base
  topBase : (σ'.kernel.memory top.toNat).base.toNat = (σ.kernel.memory oti.toNat).base.toNat + 2 ^ l

theorem State.Halves.bottom_within {σ' : State} (h : σ.Halves σ' lists l oti top) (hl : 0 < l)
    (hblock : σ.Block l oti) :
    (σ'.kernel.memory oti.toNat).Within (σ.kernel.memory oti.toNat) := by
  rw [Memory.Within, h.bottomBase, h.bottomLoose.block.size, hblock.size, Nat.sub_add_cancel hl]
  exact ⟨le_rfl, Nat.add_le_add_left (Nat.pow_le_pow_right (by decide) (Nat.le_succ l)) _⟩

theorem State.Halves.top_within {σ' : State} (h : σ.Halves σ' lists l oti top) (hl : 0 < l)
    (hblock : σ.Block l oti) :
    (σ'.kernel.memory top.toNat).Within (σ.kernel.memory oti.toNat) := by
  have hpos := Nat.two_pow_pos l
  rw [Memory.Within, h.topBase, h.topLoose.block.size, hblock.size, Nat.sub_add_cancel hl,
    Nat.pow_succ]
  omega

theorem State.Halves.apart {σ' : State} (h : σ.Halves σ' lists l oti top) (hl : 0 < l) :
    (σ'.kernel.memory oti.toNat).Apart (σ'.kernel.memory top.toNat) := by
  left
  rw [h.bottomLoose.block.size, h.topBase, h.bottomBase, Nat.sub_add_cancel hl]

/-- A block on no list is halved. -/
theorem State.FreeLists.halve (h : σ.FreeLists lists) (hloose : σ.Loose lists l oti) (hl : 5 ≤ l)
    (hslot : σ.kernel.kind top.toNat = .slot) (hcount : top.toNat < σ.kernel.count) :
    σ.Halves (σ.halved l oti top) lists l oti top := by
  have hblock := hloose.block
  have hlt := hblock.lt
  have hsize := hblock.size
  have hwrap := hblock.noWrap
  have hhalf : (1#32 <<< l : Word).toNat = 2 ^ l := toNat_half (hlt.trans (by decide))
  have hdouble : 2 ^ (l + 1) = 2 ^ l + 2 ^ l := by
    rw [Nat.pow_succ, Nat.mul_two]
  have haligned : 2 ^ l ∣ (σ.kernel.memory oti.toNat).base.toNat :=
    (Nat.pow_dvd_pow 2 (Nat.le_succ l)).trans (hsize ▸ hblock.natural.aligned)
  have hne : oti.toNat ≠ top.toNat := by
    intro heq
    rw [← heq, hblock.kind] at hslot
    contradiction
  have hbottom : (σ.halved l oti top).kernel.memory oti.toNat =
      (σ.kernel.memory oti.toNat).bottomHalf l := by
    rw [memory_halved hne hblock.root, Function.update_self]
  have htop : (σ.halved l oti top).kernel.memory top.toNat =
      (σ.kernel.memory oti.toNat).topHalf l := by
    rw [memory_halved hne hblock.root, Function.update_of_ne hne.symm, Function.update_self]
  have htopBase : ((σ.kernel.memory oti.toNat).base + 1#32 <<< l).toNat =
      (σ.kernel.memory oti.toNat).base.toNat + 2 ^ l := by
    rw [BitVec.toNat_add, hhalf, Nat.mod_eq_of_lt (by omega)]
  have htopSize : ((σ.kernel.memory oti.toNat).size - 1#32 <<< l).toNat = 2 ^ l := by
    rw [BitVec.toNat_sub_of_le (by rw [BitVec.le_def, hhalf]; omega), hhalf]
    omega
  -- Listed blocks are in other entries.
  have hentries : ∀ l', ∀ oti' ∈ lists l', σ.SameEntry (σ.halved l oti top) oti'.toNat := by
    intro l' oti' hmem
    apply sameEntry_halved hne hblock.root
    · intro heq
      exact (hloose.apart l' oti' hmem).1 (BitVec.eq_of_toNat_eq heq)
    · intro heq
      rw [← heq, (h.block l' oti' hmem).kind] at hslot
      contradiction
  have hother : ∀ e, σ.kernel.kind e ≠ .memory → σ.kernel.kind e ≠ .slot →
      σ.SameEntry (σ.halved l oti top) e := by
    intro e hmemory hslot'
    apply sameEntry_halved hne hblock.root
    · rintro rfl
      exact hmemory hblock.kind
    · rintro rfl
      exact hslot' hslot
  have hlists : (σ.halved l oti top).FreeLists lists := by
    have hot : (σ.halved l oti top).ot = σ.ot := rfl
    apply h.of_sameEntries hot count_halved rfl
      (hother _ (by simp [h.table.kind]) (by simp [h.table.kind]))
      (hother _ (by simp [h.null]) (by simp [h.null])) hentries
    intro l' oti' hmem
    show (σ.halved l oti top).kernel.loadWord _ = σ.kernel.loadWord _
    rw [(hentries l' oti' hmem).memory, loadWord, loadWord, ram_halved hne hblock.root]
  -- The halves lie where the block was.
  have hbottomBlock : (σ.halved l oti top).Block (l - 1) oti := by
    apply State.Block.of_piece hbottom _ _ hl hhalf haligned (by omega)
    · rw [count_halved]
      exact hblock.inTable
    · rw [kind_halved, Function.update_self]
  have htopBlock : (σ.halved l oti top).Block (l - 1) top := by
    apply State.Block.of_piece htop _ _ hl htopSize _ (by omega)
    · rw [count_halved]
      exact hcount
    · rw [kind_halved, Function.update_of_ne hne.symm, Function.update_self]
    · rw [htopBase]
      exact Nat.dvd_add haligned (dvd_refl _)
  refine ⟨hlists, ⟨hbottomBlock, ?_⟩, ⟨htopBlock, ?_⟩, fun heq => hne (congrArg BitVec.toNat heq), ?_, ?_⟩
  · intro l' oti' hmem
    obtain ⟨hdiff, hapart⟩ := hloose.apart l' oti' hmem
    rw [(hentries l' oti' hmem).memory, hbottom]
    refine ⟨hdiff, ?_⟩
    show (σ.kernel.memory oti.toNat).base.toNat + (1#32 <<< l : Word).toNat ≤ _ ∨ _ ≤
      (σ.kernel.memory oti.toNat).base.toNat
    rcases hapart with hbelow | habove
    · left
      omega
    · exact .inr habove
  · intro l' oti' hmem
    obtain ⟨-, hapart⟩ := hloose.apart l' oti' hmem
    constructor
    · rintro rfl
      rw [(h.block l' _ hmem).kind] at hslot
      contradiction
    · rw [(hentries l' oti' hmem).memory, htop]
      show ((σ.kernel.memory oti.toNat).base + 1#32 <<< l).toNat +
        ((σ.kernel.memory oti.toNat).size - 1#32 <<< l).toNat ≤ _ ∨ _ ≤
        ((σ.kernel.memory oti.toNat).base + 1#32 <<< l).toNat
      rcases hapart with hbelow | habove
      · left
        omega
      · right
        omega
  · rw [hbottom]
    rfl
  · rw [htop]
    exact htopBase

/-! ## One turn of the loop -/

/-- The index that the `i`-th slot from now will have. -/
def State.slotIndex (build : Build) (σ : State) (i : Nat) : Word :=
  σ.slotsUsed + BitVec.ofNat 32 i + build.fixedSlotCount

/-- There is a Slot at that index. -/
def State.Usable (build : Build) (σ : State) (i : Nat) : Prop :=
  (σ.slotIndex build i).toNat < σ.kernel.count ∧
    σ.kernel.kind (σ.slotIndex build i).toNat = .slot

/-- The first block of a list has become the first two of the next smaller list. -/
structure State.SplitOff (σ σ' : State) (lists : Nat → List Word) (l : Nat) (oti top : Word)
    (rest : List Word) : Prop where
  free : σ'.FreeLists
    (Function.update (Function.update lists l rest) (l - 1) (oti :: top :: lists (l - 1)))
  slotsUsed : σ'.slotsUsed = σ.slotsUsed + 1#32
  count : σ'.kernel.count = σ.kernel.count
  elsewhere : ∀ e, e ≠ oti.toNat → e ≠ top.toNat → σ.SameEntry σ' e
  carves : σ.Carves lists σ'
    (Function.update (Function.update lists l rest) (l - 1) (oti :: top :: lists (l - 1)))

/-- A link has been written to a block on no list. -/
structure State.Relinked (σ σ' : State) (lists : Nat → List Word) (oti w : Word) : Prop where
  same : σ.SameTables σ'
  memRoots : σ'.memRoots = σ.memRoots
  slotsUsed : σ'.slotsUsed = σ.slotsUsed
  free : σ'.FreeLists lists
  link : σ'.nextFree oti = w
  others : ∀ l' oti', σ.Block l' oti' →
    (σ.kernel.memory oti.toNat).Apart (σ.kernel.memory oti'.toNat) → σ'.nextFree oti' = σ.nextFree oti'
  bytes : ∀ a, ¬(σ.kernel.memory oti.toNat).Covers a → σ'.kernel.ram a = σ.kernel.ram a

theorem wp_pokeLink (h : σ.FreeLists lists) (hloose : σ.Loose lists l oti) (w : Word)
    {Q : Unit → State → Prop} {E : Stop → State → Prop}
    (hQ : ∀ σ', σ.Relinked σ' lists oti w → Q () σ') :
    wp (memoryPoke build (σ.kernel.filled oti.toNat 0#64) 0#32 w) Q E σ := by
  have hzero : ∀ base : Word, base + 4#32 * 0#32 = base := by simp
  rw [(hloose.block.hasBlock 0#64).wp_poke, if_pos hloose.block.room, hzero]
  apply hQ
  constructor
  · exact State.sameTables_poked _ _ _ _
  · rfl
  · rfl
  · exact h.poked hloose _ w
  · exact State.FreeLists.nextFree_poked _ _ _ _
  · intro l' oti' hblock hapart
    exact State.FreeLists.nextFree_poked_of_apart hloose.block hblock hapart _ w
  · intro a ha
    exact State.FreeLists.ram_poked hloose.block _ w ha

/-- The halves of a block on no list have become the first two of the next smaller list. -/
structure State.Returned (σ σ' : State) (lists : Nat → List Word) (l : Nat) (oti top : Word) :
    Prop where
  free : σ'.FreeLists (Function.update lists (l - 1) (oti :: top :: lists (l - 1)))
  ot : σ'.ot = σ.ot
  slotsUsed : σ'.slotsUsed = σ.slotsUsed
  count : σ'.kernel.count = σ.kernel.count
  elsewhere : ∀ e, e ≠ oti.toNat → e ≠ top.toNat → σ.SameEntry σ' e
  bottom : (σ'.kernel.memory oti.toNat).Within (σ.kernel.memory oti.toNat)
  top : (σ'.kernel.memory top.toNat).Within (σ.kernel.memory oti.toNat)
  bytes : ∀ a, ¬(σ.kernel.memory oti.toNat).Covers a → σ'.kernel.ram a = σ.kernel.ram a

/-- Splitting and returning the halves, once there is an index for the top half. -/
theorem wp_returnHalves (h : σ.FreeLists lists) (hloose : σ.Loose lists l oti) (hl : 5 ≤ l)
    {Q : Bool → State → Prop} {E : Stop → State → Prop}
    (hsplit : top.toNat < σ.kernel.count → σ.kernel.kind top.toNat = .slot →
      ∀ σ', σ.Returned σ' lists l oti top → Q true σ')
    (hrefused : ¬(top.toNat < σ.kernel.count ∧ σ.kernel.kind top.toNat = .slot) →
      ∀ stop σ', E stop σ') :
    wp (do
      let kSlot ← mintKey build top 0#64
      let (kBot, kTop) ← memorySplit build (σ.kernel.filled oti.toNat 0#64) (1#32 <<< l) kSlot
      memoryPoke build kTop 0#32 ((← get).memRoots (l - 1))
      memoryPoke build kBot 0#32 top
      setMemRoot (l - 1) oti
      return true) Q E σ := by
  rw [wp_bind, wp_mintKey h.table]
  split
  swap
  next hout =>
    apply hrefused
    rintro ⟨hin, -⟩
    exact hout hin
  next hin =>
  have hsame := σ.sameTables_minted top 0#64
  have hfree := h.of_sameTables hsame rfl fun _ _ _ => rfl
  have hloose' := hloose.of_sameTables hsame
  have hkeys : ∀ e : Word, σ.kernel.filled e.toNat 0#64 =
    (σ.minted top 0#64).kernel.filled e.toNat 0#64 := fun _ => rfl
  rw [wp_bind, hkeys, hkeys, wp_memorySplit hloose'.block]
  split
  swap
  next hkind =>
    apply hrefused
    rintro ⟨-, hslot⟩
    exact hkind hslot
  next hslot =>
  have hhalves := hfree.halve hloose' hl hslot hin
  have helsewhere : ∀ e, e ≠ oti.toNat → e ≠ top.toNat →
      σ.SameEntry ((σ.minted top 0#64).halved l oti top) e := by
    intro e hoti htop
    have hne : oti.toNat ≠ top.toNat := fun heq => hhalves.ne (BitVec.eq_of_toNat_eq heq)
    have hentry := sameEntry_halved (σ := σ.minted top 0#64) (l := l) hne hloose'.block.root hoti htop
    exact ⟨hentry.kind, hentry.generation, hentry.memory⟩
  have hcount : ((σ.minted top 0#64).halved l oti top).kernel.count = σ.kernel.count := count_halved
  have hused : ((σ.minted top 0#64).halved l oti top).slotsUsed = σ.slotsUsed := rfl
  have hot : ((σ.minted top 0#64).halved l oti top).ot = σ.ot := rfl
  have hram : ((σ.minted top 0#64).halved l oti top).kernel.ram = σ.kernel.ram :=
    ram_halved (σ := σ.minted top 0#64) (fun heq => hhalves.ne (BitVec.eq_of_toNat_eq heq))
      hloose'.block.root
  have hapart := hhalves.apart (by omega)
  have hbottom : (((σ.minted top 0#64).halved l oti top).kernel.memory oti.toNat).Within
    (σ.kernel.memory oti.toNat) := hhalves.bottom_within (by omega) hloose'.block
  have htop : (((σ.minted top 0#64).halved l oti top).kernel.memory top.toNat).Within
    (σ.kernel.memory oti.toNat) := hhalves.top_within (by omega) hloose'.block
  generalize (σ.minted top 0#64).halved l oti top = σ' at *
  -- The links of the halves, top half first.
  rw [wp_bind, wp_get, wp_bind]
  apply wp_pokeLink hhalves.free hhalves.topLoose
  intro σ₁ h₁
  have hkey : σ'.kernel.filled oti.toNat 0#64 = σ₁.kernel.filled oti.toNat 0#64 := by
    rw [KState.filled, KState.filled, h₁.same.generation]
  have hbottom₁ := hhalves.bottomLoose.of_sameTables h₁.same
  rw [wp_bind, hkey]
  apply wp_pokeLink h₁.free hbottom₁
  intro σ₂ h₂
  have hsame := h₁.same.trans h₂.same
  rw [wp_bind, wp_setMemRoot, wp_pure]
  rw [← hsame.memory] at hapart
  have hlink : σ₂.nextFree top = σ₂.memRoots (l - 1) := by
    rw [h₂.others _ _ (hhalves.topLoose.of_sameTables h₁.same).block, h₁.link, h₂.memRoots,
      h₁.memRoots]
    rw [← h₂.same.memory]
    exact hapart
  have hset := hsame.trans (σ₂.sameTables_setRoot (l - 1) oti)
  apply hsplit hin hslot
  constructor
  · exact h₂.free.push_two (hhalves.bottomLoose.of_sameTables hsame)
      (hhalves.topLoose.of_sameTables hsame) hhalves.ne hapart hlink h₂.link
  · exact hsame.ot.trans hot
  · exact h₂.slotsUsed.trans (h₁.slotsUsed.trans hused)
  · exact hsame.count.trans hcount
  · intro e hoti htop
    exact (helsewhere e hoti htop).trans (hset.sameEntry e)
  · rw [hset.memory]
    exact hbottom
  · rw [hset.memory]
    exact htop
  · intro a ha
    show σ₂.kernel.ram a = σ.kernel.ram a
    rw [h₂.bytes, h₁.bytes, hram]
    · exact fun hcovers => ha (htop.covers hcovers)
    · rw [h₁.same.memory]
      exact fun hcovers => ha (hbottom.covers hcovers)

/-- Taking a block and returning its halves, over the whole. -/
theorem State.Returned.carves {σ₂ σ' : State} {rest : List Word} (h : σ.FreeLists lists)
    (hlist : lists l = oti :: rest) (hsame : σ.SameTables σ₂)
    (hram : ∀ a, ¬(σ.kernel.memory oti.toNat).Covers a → σ₂.kernel.ram a = σ.kernel.ram a)
    (hslot : σ.kernel.kind top.toNat = .slot)
    (hreturned : σ₂.Returned σ' (Function.update lists l rest) l oti top)
    {lists' : Nat → List Word}
    (hlists' : ∀ l', ∀ oti' ∈ lists' l', oti' = oti ∨ oti' = top ∨
      oti' ∈ Function.update lists l rest l') : σ.Carves lists σ' lists' := by
  have hhead : oti ∈ lists l := by simp [hlist]
  have hrest : ∀ l' oti', oti' ∈ Function.update lists l rest l' → oti' ∈ lists l' := by
    intro l' oti' hin
    obtain ⟨rfl, hmem⟩ | ⟨-, hmem⟩ := State.FreeLists.mem_update.mp hin
    · rw [hlist]
      exact List.mem_cons_of_mem oti hmem
    · exact hmem
  constructor
  · exact hreturned.ot.trans hsame.ot
  · exact hreturned.count.trans hsame.count
  · intro l' oti' hin
    obtain rfl | rfl | hother := hlists' l' oti' hin
    · refine ⟨l, oti', hhead, ?_⟩
      rw [← hsame.memory]
      exact hreturned.bottom
    · refine ⟨l, oti, hhead, ?_⟩
      rw [← hsame.memory]
      exact hreturned.top
    · have hmem := hrest l' oti' hother
      by_cases hoti : oti'.toNat = oti.toNat
      · refine ⟨l, oti, hhead, ?_⟩
        rw [hoti, ← hsame.memory]
        exact hreturned.bottom
      · have htop : oti'.toNat ≠ top.toNat := by
          intro heq
          rw [← heq, (h.block l' oti' hmem).kind] at hslot
          contradiction
        refine ⟨l', oti', hmem, ?_⟩
        rw [(hreturned.elsewhere _ hoti htop).memory, hsame.memory]
        exact .refl _
  · intro l' oti' hin
    obtain rfl | rfl | hother := hlists' l' oti' hin
    · exact .inl ⟨l, hhead⟩
    · exact .inr hslot
    · exact .inl ⟨l', hrest l' oti' hother⟩
  · intro e hout hkind
    apply (hsame.sameEntry e).trans (hreturned.elsewhere e (hout l oti hhead) _)
    rintro rfl
    exact hkind hslot
  · intro a hout
    have ha := hout l oti hhead
    rw [hreturned.bytes a (by rwa [hsame.memory]), hram a ha]

theorem wp_splitOnce {rest : List Word} (h : σ.FreeLists lists) (hlist : lists l = oti :: rest)
    (hl : 5 ≤ l) {Q : Bool → State → Prop} {E : Stop → State → Prop}
    (hexhausted : σ.slotsUsed = build.extraSlotCount → Q false (σ.taken l 0#64))
    (hsplit : σ.slotsUsed ≠ build.extraSlotCount → σ.Usable build 0 →
      ∀ σ', σ.SplitOff σ' lists l oti (σ.slotIndex build 0) rest → Q true σ')
    (hrefused : σ.slotsUsed ≠ build.extraSlotCount → ¬σ.Usable build 0 → ∀ stop σ', E stop σ') :
    wp (splitOnce build l) Q E σ := by
  have hlt : l < memRootsCount := (h.block l oti (by simp [hlist])).lt
  have hroot : σ.memRoots l = oti := by
    rw [h.memRoots_eq hlt, hlist]
    rfl
  obtain ⟨htaken, hloose⟩ := h.take hlt hlist 0#64
  have hindex : σ.slotsUsed + build.fixedSlotCount = σ.slotIndex build 0 := by
    simp [State.slotIndex]
  have htarget : (σ.taken l 0#64).kernel.target (σ.kernel.filled oti.toNat 0#64) = oti.toNat :=
    target_filled (σ.taken l 0#64).kernel oti.toNat 0#64
  have hused : (σ.taken l 0#64).slotsUsed = σ.slotsUsed := rfl
  rw [splitOnce, wp_bind, wp_memTake (h.hasHead hlt hlist), hroot, wp_bind, wp_readKey htaken.table,
    htarget, BitVec.ofNat_toNat, BitVec.setWidth_eq, wp_bind, wp_allocSlotInt, hused]
  split
  next hnone => exact hexhausted hnone
  next hsome =>
    -- The block is off its list, and a slot has been handed out.
    have hsame : (σ.taken l 0#64).SameTables (σ.taken l 0#64).granted := ⟨rfl, rfl, rfl, rfl, rfl⟩
    have hfree := htaken.of_sameTables hsame rfl fun _ _ _ => rfl
    have hloose' := hloose.of_sameTables hsame
    have hall := (σ.sameTables_taken l 0#64).trans hsame
    have hkey : σ.kernel.filled oti.toNat 0#64 =
        (σ.taken l 0#64).granted.kernel.filled oti.toNat 0#64 := by
      rw [KState.filled, KState.filled, hall.generation]
    have hused' : (σ.taken l 0#64).granted.slotsUsed = σ.slotsUsed + 1#32 := by
      rw [State.slotsUsed_granted, hused]
    have hram : ∀ a, ¬(σ.kernel.memory oti.toNat).Covers a →
        (σ.taken l 0#64).granted.kernel.ram a = σ.kernel.ram a :=
      fun a ha => h.ram_taken hlt hlist 0#64 ha
    rw [hindex, hkey]
    generalize (σ.taken l 0#64).granted = σ₂ at hsame hfree hloose' hall hkey hused' hram ⊢
    apply wp_returnHalves hfree hloose' hl
    · intro hin hslot σ' hreturned
      rw [hall.count] at hin
      rw [hall.kind] at hslot
      have husable : σ.Usable build 0 := ⟨hin, hslot⟩
      apply hsplit hsome husable
      have hbelow : Function.update lists l rest (l - 1) = lists (l - 1) :=
        Function.update_of_ne (by omega) _ _
      have helsewhere : ∀ e, e ≠ oti.toNat → e ≠ (σ.slotIndex build 0).toNat → σ.SameEntry σ' e :=
        fun e hoti htop => (hall.sameEntry e).trans (hreturned.elsewhere e hoti htop)
      constructor
      · rw [← hbelow]
        exact hreturned.free
      · rw [hreturned.slotsUsed, hused']
      · rw [hreturned.count, hall.count]
      · exact helsewhere
      · apply hreturned.carves h hlist hall hram hslot
        intro l' oti' hin
        by_cases hl' : l' = l - 1
        · subst hl'
          rw [Function.update_self] at hin
          simpa [hbelow] using hin
        · rw [Function.update_of_ne hl'] at hin
          exact .inr (.inr hin)
    · intro hnot
      apply hrefused hsome
      rw [hall.count, hall.kind] at hnot
      exact hnot

end

end System

end BrittleKernel
