import BrittleKernel.Lib.Forest
import BrittleKernel.Methods
import BrittleKernel.Children

/-!
# The Memory Tree

The Memory objects form a forest: parent pointers designate Memory objects, each object's range
lies within its parent's, and the child counts are exact.  Every object also descends from an
entry of the boot memory map and shares its device bit.
-/

namespace BrittleKernel

open Hoare KState

/-! ## Ranges -/

namespace Memory

/-- The range lies in the other one, in exact arithmetic. -/
def Within (m m' : Memory) : Prop :=
  m'.base.toNat ≤ m.base.toNat ∧ m.base.toNat + m.size.toNat ≤ m'.base.toNat + m'.size.toNat

theorem Within.refl (m : Memory) : m.Within m := ⟨le_rfl, le_rfl⟩

theorem Within.trans {m₁ m₂ m₃ : Memory} (h : m₁.Within m₂) (h' : m₂.Within m₃) :
    m₁.Within m₃ :=
  ⟨h'.1.trans h.1, h.2.trans h'.2⟩

/-- The addresses of an object. -/
def range (m : Memory) : Set Nat := Set.Ico m.base.toNat (m.base.toNat + m.size.toNat)

theorem Within.range_subset {m m' : Memory} (h : m.Within m') : m.range ⊆ m'.range :=
  Set.Ico_subset_Ico h.1 h.2

/-- What the constructor makes sure of. -/
structure Formed (m : Memory) : Prop where
  noWrap : m.base.toNat + m.size.toNat < 2 ^ 32
  attributes : ∃ a, m.attributes = initAttributes m.base m.size a

/-- The constructor's overflow check, in exact arithmetic. -/
theorem not_overflows_iff {base size : Word} :
    ¬base + size < base ↔ base.toNat + size.toNat < 2 ^ 32 := by
  have := base.isLt
  have := size.isLt
  rw [BitVec.lt_def, BitVec.toNat_add]
  omega

end Memory

/-! ## The forest -/

namespace KState

variable {s s' : KState}

/-- The Memory objects with their parent pointers. -/
def forest (s : KState) : Forest TableIndex where
  nodes := (Finset.range s.count).filter fun e => s.kind e = .memory
  parent e := (s.memory e).parent

/-- The range and the device bit come from an entry of the boot memory map. -/
structure ComesFrom (app : AppInfo) (m : Memory) (i : Nat) : Prop where
  listed : i < app.memories
  within : m.Within (app.bootMemory i)
  device : m.isDevice = (app.bootMemory i).isDevice

/-- The invariant of the Memory objects. -/
structure Tree (app : AppInfo) (s : KState) : Prop where
  inTable : ∀ e, s.kind e = .memory → e < s.count
  small : s.count < 2 ^ 32
  sound : s.forest.Sound
  counted : ∀ p, s.kind p = .memory →
    (s.memory p).childCount.toNat = (s.forest.children p).card
  formed : ∀ e, s.kind e = .memory → (s.memory e).Formed
  contained : ∀ e p, s.forest.Child e p → (s.memory e).Within (s.memory p)
  origin : ∀ e, s.kind e = .memory → ∃ i, ComesFrom app (s.memory e) i
  /-- No block in device memory was given up. -/
  donated : ∀ e b z, Event.donated e b z ∈ s.donations →
    ∃ i, ComesFrom app { base := b, size := z } i

theorem mem_nodes_iff (hin : ∀ e, s.kind e = .memory → e < s.count) {e : TableIndex} :
    e ∈ s.forest.nodes ↔ s.kind e = .memory := by
  simp only [forest, Finset.mem_filter, Finset.mem_range]
  exact ⟨And.right, fun h => ⟨hin e h, h⟩⟩

/-- The Memory objects and the bodies are the same, and so are the donations. -/
structure SameMemories (s s' : KState) : Prop where
  count : s'.count = s.count
  kind : s'.kind = s.kind
  memory : s'.memory = s.memory
  bodyAddr : s'.bodyAddr = s.bodyAddr
  donations : s'.donations = s.donations

theorem SameMemories.of_untouched (h : Untouched s s') : SameMemories s s' :=
  ⟨h.count, h.kind, h.memory, h.bodyAddr, h.donations⟩

theorem SameMemories.of_objects (h : s'.objects = s.objects) (hd : s'.donations = s.donations) :
    SameMemories s s' :=
  ⟨count_of_objects h, kind_of_objects h, memory_of_objects h, congrArg Objects.bodyAddr h, hd⟩

theorem SameMemories.forest (h : SameMemories s s') : s'.forest = s.forest := by
  simp only [KState.forest, h.count, h.kind, h.memory]

theorem Tree.of_sameMemories {app : AppInfo} (hs : s.Tree app) (h : SameMemories s s') :
    s'.Tree app where
  inTable := by
    rw [h.count, h.kind]
    exact hs.inTable
  small := h.count ▸ hs.small
  sound := h.forest ▸ hs.sound
  counted := by
    rw [h.kind, h.memory, h.forest]
    exact hs.counted
  formed := by
    rw [h.kind, h.memory]
    exact hs.formed
  contained := by
    rw [h.memory, h.forest]
    exact hs.contained
  origin := by
    rw [h.kind, h.memory]
    exact hs.origin
  donated := h.donations ▸ hs.donated

/-! ## Building and giving up an object -/

@[simp] theorem bodyAddr_buildMemory (s : KState) (e : TableIndex) (base size attributes : Word)
    (parent : Option TableIndex) :
    (s.buildMemory e base size attributes parent).bodyAddr = s.bodyAddr := by
  cases parent <;> rfl

@[simp] theorem bodyAddr_orphan (s : KState) (e : TableIndex) : (s.orphan e).bodyAddr = s.bodyAddr := by
  unfold orphan
  split <;> rfl

@[simp] theorem bodyAddr_bump (s : KState) (e : TableIndex) : (s.bump e).bodyAddr = s.bodyAddr := rfl

@[simp] theorem bodyAddr_loadMpu (s : KState) (c : TableIndex) :
    (s.loadMpu c).bodyAddr = s.bodyAddr := rfl

theorem forest_buildMemory {x : TableIndex} (hx : x < s.count) (base size attributes : Word)
    {parent : Option TableIndex} (hparent : parent ≠ some x) :
    (s.buildMemory x base size attributes parent).forest = s.forest.plant x parent := by
  simp only [forest, Forest.plant, Forest.mk.injEq, kind_buildMemory, count_buildMemory]
  constructor
  · ext e
    by_cases he : e = x
    · subst he
      simp [hx]
    · simp [he]
  · funext e
    cases parent with
    | none => by_cases he : e = x <;> simp [buildMemory, he]
    | some p =>
      have hp : p ≠ x := fun h => hparent (congrArg some h)
      by_cases he : e = x
      · subst he
        simp [buildMemory, updateMemory, Ne.symm hp]
      · by_cases hep : e = p
        · subst hep
          simp [buildMemory, updateMemory, hp]
        · simp [buildMemory, updateMemory, he, hep]

/-- The new object. -/
theorem memory_buildMemory_self {x : TableIndex} (base size attributes : Word)
    {parent : Option TableIndex} (hparent : parent ≠ some x) :
    (s.buildMemory x base size attributes parent).memory x =
      { base := base
        size := size
        attributes := Memory.initAttributes base size attributes
        parent := parent
        childCount := 0#32 } := by
  cases parent with
  | none => simp [buildMemory]
  | some p =>
    have hp : x ≠ p := fun h => hparent (congrArg some h.symm)
    simp [buildMemory, updateMemory, hp]

/-- The other objects; only the parent notices. -/
theorem memory_buildMemory_of_ne {x e : TableIndex} (he : e ≠ x) (base size attributes : Word)
    {parent : Option TableIndex} (hparent : parent ≠ some x) :
    (s.buildMemory x base size attributes parent).memory e =
      if parent = some e then { s.memory e with childCount := (s.memory e).childCount + 1#32 }
      else s.memory e := by
  cases parent with
  | none => simp [buildMemory, he]
  | some p =>
    by_cases hep : e = p
    · subst hep
      simp [buildMemory, updateMemory, he]
    · simp [buildMemory, updateMemory, he, hep, Ne.symm hep]

/-- An object is built in an entry that holds none. -/
theorem Tree.buildMemory {app : AppInfo} (hs : s.Tree app) {x : TableIndex} (hx : x < s.count)
    (hfresh : s.kind x ≠ .memory) {base size attributes : Word} {parent : Option TableIndex}
    (hwrap : base.toNat + size.toNat < 2 ^ 32)
    (hparent : ∀ p, parent = some p → s.kind p = .memory ∧
      ({ base := base, size := size } : Memory).Within (s.memory p))
    (horigin : ∃ i, ComesFrom app { base := base, size := size, attributes := attributes } i) :
    (s.buildMemory x base size attributes parent).Tree app := by
  have hself : parent ≠ some x := fun h => hfresh (hparent x h).1
  have hnode : x ∉ s.forest.nodes := fun h => hfresh ((mem_nodes_iff hs.inTable).mp h)
  have hforest := forest_buildMemory (s := s) hx base size attributes hself
  have hnew := memory_buildMemory_self (s := s) base size attributes hself
  have hold : ∀ e, e ≠ x → ∃ n, (s.buildMemory x base size attributes parent).memory e =
      { s.memory e with childCount := n } := by
    intro e he
    rw [memory_buildMemory_of_ne he base size attributes hself]
    split
    · exact ⟨_, rfl⟩
    · exact ⟨(s.memory e).childCount, rfl⟩
  have hkind : ∀ e, (s.buildMemory x base size attributes parent).kind e = .memory ↔
      e = x ∨ s.kind e = .memory := by
    intro e
    rw [kind_buildMemory]
    by_cases he : e = x <;> simp [he]
  have hin : ∀ e, (s.buildMemory x base size attributes parent).kind e = .memory → e < s.count := by
    intro e he
    rcases (hkind e).mp he with rfl | hmem
    · exact hx
    · exact hs.inTable e hmem
  have hsound : (s.forest.plant x parent).Sound :=
    hs.sound.plant hnode fun p hp => (mem_nodes_iff hs.inTable).mpr (hparent p hp).1
  have hwithin : ∀ e p, s.forest.Child e p →
      ((s.buildMemory x base size attributes parent).memory e).Within
        ((s.buildMemory x base size attributes parent).memory p) := by
    intro e p hchild
    have he : e ≠ x := by
      rintro rfl
      exact hnode hchild.1
    have hp : p ≠ x := by
      rintro rfl
      exact hnode (hs.sound.parent hchild)
    obtain ⟨n, hn⟩ := hold e he
    obtain ⟨n', hn'⟩ := hold p hp
    rw [hn, hn']
    exact ⟨(hs.contained e p hchild).1, (hs.contained e p hchild).2⟩
  exact
    { inTable := by simpa using hin
      small := by simpa using hs.small
      sound := hforest ▸ hsound
      counted := by
        intro p hp
        rw [hforest]
        by_cases hpx : p = x
        · -- The new object has no children.
          subst hpx
          rw [hnew, Forest.children_plant_self hs.sound hnode fun q hq =>
            (mem_nodes_iff hs.inTable).mpr (hparent q hq).1]
          rfl
        · have hmem : s.kind p = .memory := ((hkind p).mp hp).resolve_left hpx
          have hcount := hs.counted p hmem
          rw [Forest.card_children_plant hnode, memory_buildMemory_of_ne hpx base size attributes hself]
          split
          · -- Fewer children than entries, so that the counter does not wrap.
            have hsub : s.forest.children p ⊆ Finset.range s.count :=
              (Finset.filter_subset _ _).trans (Finset.filter_subset _ _)
            have hmiss : x ∉ s.forest.children p := fun h => hnode (Forest.mem_children.mp h).1
            have hcard : (s.forest.children p).card < s.count := by
              have hlt := Finset.card_lt_card (Finset.ssubset_iff_of_subset hsub |>.mpr
                ⟨x, Finset.mem_range.mpr hx, hmiss⟩)
              rwa [Finset.card_range] at hlt
            have hsmall := hs.small
            show ((s.memory p).childCount + 1#32).toNat = _
            rw [BitVec.toNat_add, hcount]
            exact Nat.mod_eq_of_lt (by show (s.forest.children p).card + 1 < 2 ^ 32; omega)
          · exact hcount
      formed := by
        intro e he
        by_cases hex : e = x
        · subst hex
          rw [hnew]
          exact ⟨hwrap, attributes, rfl⟩
        · obtain ⟨n, hn⟩ := hold e hex
          rw [hn]
          have hformed := hs.formed e (((hkind e).mp he).resolve_left hex)
          exact ⟨hformed.noWrap, hformed.attributes⟩
      contained := by
        intro e p hchild
        rw [hforest] at hchild
        rcases (Forest.child_plant hnode).mp hchild with hchild | ⟨rfl, hp⟩
        · exact hwithin e p hchild
        · have hpx : p ≠ e := fun h => hself (h ▸ hp)
          obtain ⟨n, hn⟩ := hold p hpx
          rw [hnew, hn]
          exact ⟨(hparent p hp).2.1, (hparent p hp).2.2⟩
      origin := by
        intro e he
        by_cases hex : e = x
        · subst hex
          obtain ⟨i, hi⟩ := horigin
          refine ⟨i, hi.listed, ?_, ?_⟩
          · rw [hnew]
            exact ⟨hi.within.1, hi.within.2⟩
          · rw [← hi.device, hnew]
            exact Memory.isDevice_init base size rfl
        · obtain ⟨n, hn⟩ := hold e hex
          obtain ⟨i, hi⟩ := hs.origin e (((hkind e).mp he).resolve_left hex)
          refine ⟨i, hi.listed, ?_, ?_⟩
          · rw [hn]
            exact ⟨hi.within.1, hi.within.2⟩
          · rw [hn]
            exact hi.device
      donated := by
        have hsame : (s.buildMemory x base size attributes parent).donations = s.donations := by
          rw [donations, history_buildMemory, donations]
        rw [hsame]
        exact hs.donated }

/-- The object in an entry is given up; the entry is as good as a Slot. -/
def felled (s : KState) (e : TableIndex) : KState :=
  { s.orphan e with kind := Function.update s.kind e .slot }

theorem memory_orphan_self {e : TableIndex} (hparent : (s.memory e).parent ≠ some e) :
    (s.orphan e).memory e = { s.memory e with parent := none } := by
  unfold orphan
  split
  next h => rw [← h]
  next p h =>
    have hp : e ≠ p := fun heq => hparent (heq ▸ h)
    simp [updateMemory, hp]

theorem memory_orphan_of_ne {e x : TableIndex} (hx : x ≠ e) :
    (s.orphan e).memory x =
      if (s.memory e).parent = some x then
        { s.memory x with childCount := (s.memory x).childCount - 1#32 }
      else s.memory x := by
  unfold orphan
  split
  next h => rw [h, if_neg (by simp)]
  next p h =>
    rw [h]
    by_cases hp : x = p
    · subst hp
      simp [updateMemory, hx]
    · simp [updateMemory, hx, hp, Ne.symm hp]

theorem forest_felled {e : TableIndex} (hparent : (s.memory e).parent ≠ some e) :
    (s.felled e).forest = s.forest.fell e := by
  simp only [forest, felled, Forest.fell, Forest.mk.injEq, count_orphan]
  constructor
  · ext x
    by_cases hx : x = e
    · subst hx
      simp
    · simp [hx]
  · funext x
    by_cases hx : x = e
    · subst hx
      rw [memory_orphan_self hparent, Function.update_self]
    · rw [memory_orphan_of_ne hx, Function.update_of_ne hx]
      split <;> rfl

/-- An object without children is given up. -/
theorem Tree.felled {app : AppInfo} (hs : s.Tree app) {e : TableIndex} (he : s.kind e = .memory)
    (hleaf : (s.memory e).childCount = 0#32) : (s.felled e).Tree app := by
  have hnode : e ∈ s.forest.nodes := (mem_nodes_iff hs.inTable).mpr he
  have hself : (s.memory e).parent ≠ some e := fun h => hs.sound.acyclic e (.single ⟨hnode, h⟩)
  have hforest := forest_felled hself
  have hchildren : s.forest.children e = ∅ := by
    apply Finset.card_eq_zero.mp
    rw [← hs.counted e he, hleaf]
    rfl
  have hkind : ∀ x, (s.felled e).kind x = .memory ↔ x ≠ e ∧ s.kind x = .memory := by
    intro x
    by_cases hx : x = e <;> simp [KState.felled, hx]
  have hmemory : ∀ x, x ≠ e → (s.felled e).memory x =
      if (s.memory e).parent = some x then
        { s.memory x with childCount := (s.memory x).childCount - 1#32 }
      else s.memory x := fun x hx => memory_orphan_of_ne hx
  have hold : ∀ x, x ≠ e → ∃ n, (s.felled e).memory x = { s.memory x with childCount := n } := by
    intro x hx
    rw [hmemory x hx]
    split
    · exact ⟨_, rfl⟩
    · exact ⟨(s.memory x).childCount, rfl⟩
  exact
    { inTable := fun x hx => by
        rw [KState.felled, count_orphan]
        exact hs.inTable x ((hkind x).mp hx).2
      small := by
        rw [KState.felled, count_orphan]
        exact hs.small
      sound := hforest ▸ hs.sound.fell hchildren
      counted := by
        intro p hp
        obtain ⟨hpe, hp⟩ := (hkind p).mp hp
        have hcount := hs.counted p hp
        have hcard := Forest.card_children_fell hnode p
        rw [hforest, hmemory p hpe]
        have hpointer : s.forest.parent e = (s.memory e).parent := rfl
        rw [hpointer] at hcard
        split
        next hparent =>
          -- The parent had this child, so that its counter does not wrap.
          rw [if_pos hparent] at hcard
          show ((s.memory p).childCount - 1#32).toNat = _
          rw [BitVec.toNat_sub_of_le, hcount, hcard]
          · rfl
          · rw [BitVec.le_def, hcount, hcard]
            exact Nat.le_add_left 1 _
        next hparent =>
          rw [if_neg hparent] at hcard
          rw [hcount, hcard, Nat.add_zero]
      formed := by
        intro x hx
        obtain ⟨hxe, hx⟩ := (hkind x).mp hx
        obtain ⟨n, hn⟩ := hold x hxe
        rw [hn]
        exact ⟨(hs.formed x hx).noWrap, (hs.formed x hx).attributes⟩
      contained := by
        intro x p hchild
        rw [hforest] at hchild
        obtain ⟨hxe, hbefore⟩ := Forest.child_fell.mp hchild
        have hpe : p ≠ e := by
          intro heq
          exact Finset.notMem_empty x (hchildren ▸ Forest.mem_children.mpr (heq ▸ hbefore))
        obtain ⟨n, hn⟩ := hold x hxe
        obtain ⟨n', hn'⟩ := hold p hpe
        rw [hn, hn']
        exact ⟨(hs.contained x p hbefore).1, (hs.contained x p hbefore).2⟩
      origin := by
        intro x hx
        obtain ⟨hxe, hx⟩ := (hkind x).mp hx
        obtain ⟨n, hn⟩ := hold x hxe
        obtain ⟨i, hi⟩ := hs.origin x hx
        rw [hn]
        exact ⟨i, hi.listed, ⟨hi.within.1, hi.within.2⟩, hi.device⟩
      donated := by
        have hsame : (s.felled e).donations = s.donations := by
          rw [donations, KState.felled, history_orphan, donations]
        rw [hsame]
        exact hs.donated }

end KState

/-! ## Methods -/

section

variable {cfg : Config} {app : AppInfo} {e : TableIndex} {brand : Brand} {m : Message} {k : Keys}
  {s s' : KState} {rs : ReplySender}

/-- Only three methods have to do with the Memory objects: Split, Make Child and Become. -/
theorem Effect.memories_cases (h : Effect cfg e brand m k s rs s') :
    SameMemories s s' ∨
      (∃ slot, s.SplitAccepted e slot brand m ∧
        ¬(s.memory e).base + m.d0 + ((s.memory e).size - m.d0) < (s.memory e).base + m.d0 ∧
        ¬(s.memory e).base + m.d0 < (s.memory e).base ∧ s' = s.splitMemory e slot m.d0) ∨
      (∃ slot, s.ChildAccepted e slot brand m ∧ ¬m.d0 + m.d1 < m.d0 ∧
        s' = s.makeChildMemory e slot m.d0 m.d1) ∨
      ∃ t, s.BecomeAccepted e t brand m ∧ s' = s.becomeObject e t m.d1 := by
  cases h with
  | split slot hok _ htop hbottom => exact .inr (.inl ⟨slot, hok, htop, hbottom, rfl⟩)
  | makeChild slot hok _ hwrap => exact .inr (.inr (.inl ⟨slot, hok, hwrap, rfl⟩))
  | become t hok => exact .inr (.inr (.inr ⟨t, hok, rfl⟩))
  | writeKey | setTarget => exact .inl (.of_untouched (.setKeyAt _ _ _))
  | writeRegion r =>
    left
    split
    · exact .of_untouched ((Untouched.setKeyAt s (.regionReg e r) (k 1)).trans (.loadMpu _ _))
    · exact .of_untouched (.setKeyAt _ _ _)
  | invalidate =>
    left
    simp only [invalidated, invalidationHook]
    split
    · exact ⟨rfl, rfl, rfl, rfl, rfl⟩
    · split
      · exact ⟨rfl, rfl, rfl, rfl, rfl⟩
      · exact ⟨rfl, rfl, rfl, rfl, rfl⟩
    · exact ⟨rfl, rfl, rfl, rfl, rfl⟩
    · exact ⟨rfl, rfl, rfl, rfl, rfl⟩
  | callOff | callOffReply =>
    refine .inl (.of_objects (by simp [calledOff]) ?_)
    rw [calledOff, donations_record]
    rfl
  | _ => exact .inl ⟨rfl, rfl, rfl, rfl, rfl⟩

theorem KState.SameMemories.bump (s : KState) (x : TableIndex) : SameMemories s (s.bump x) :=
  ⟨rfl, rfl, rfl, rfl, by rw [KState.bump, donations_record]; rfl⟩

/-- Where a split cuts, in exact arithmetic. -/
theorem KState.SplitAccepted.cut {slot : TableIndex} (hok : s.SplitAccepted e slot brand m)
    (hformed : (s.memory e).Formed) :
    ((s.memory e).base + m.d0).toNat = (s.memory e).base.toNat + m.d0.toNat ∧
      ((s.memory e).size - m.d0).toNat = (s.memory e).size.toNat - m.d0.toNat ∧
      m.d0.toNat ≤ (s.memory e).size.toNat := by
  have hfits : m.d0.toNat ≤ (s.memory e).size.toNat := hok.fits
  have hwrap := hformed.noWrap
  refine ⟨?_, BitVec.toNat_sub_of_le hok.fits, hfits⟩
  rw [BitVec.toNat_add]
  exact Nat.mod_eq_of_lt (by omega)

/-- The state in the middle of a split: the top piece is there, the old object is gone. -/
def KState.halfSplit (s : KState) (e slot : TableIndex) (pos : Word) : KState :=
  ((s.bump slot).buildMemory slot ((s.memory e).base + pos) ((s.memory e).size - pos)
    (s.memory e).attributes none).felled e

/-- Building the bottom piece completes the split. -/
theorem sameMemories_splitMemory (s : KState) (e slot : TableIndex) (pos : Word) :
    SameMemories ((s.halfSplit e slot pos).buildMemory e (s.memory e).base pos
      (s.memory e).attributes none) (s.splitMemory e slot pos) where
  count := by simp [splitMemory, KState.halfSplit, KState.felled]
  kind := by simp [splitMemory, KState.halfSplit, KState.felled]
  memory := rfl
  bodyAddr := by simp [splitMemory, KState.halfSplit, KState.felled]
  donations := by
    have hhistory : (s.splitMemory e slot pos).history =
        .generationAdvanced e ((s.bump slot).generation e) :: (s.bump slot).history := by
      simp [splitMemory]
    rw [donations, hhistory, donations, history_buildMemory]
    simp [KState.halfSplit, KState.felled, Event.isDonation]

theorem splitMemory_tree {slot : TableIndex} (hok : s.SplitAccepted e slot brand m)
    (hs : s.Tree app) (hslot : slot < s.count) : (s.splitMemory e slot m.d0).Tree app := by
  have hne : e ≠ slot := by
    rintro rfl
    exact absurd (hok.memory.symm.trans hok.slot) (by decide)
  have hformed := hs.formed e hok.memory
  obtain ⟨hbase, hsize, hpos⟩ := hok.cut hformed
  have hwrap := hformed.noWrap
  obtain ⟨i, hi⟩ := hs.origin e hok.memory
  have hstart := hi.within.1
  have hstop := hi.within.2
  have hbump := hs.of_sameMemories (.bump s slot)
  have hwithin : ({ base := (s.memory e).base + m.d0, size := (s.memory e).size - m.d0 } : Memory).Within
      (app.bootMemory i) := by
    constructor
    · rw [hbase]
      omega
    · rw [hbase, hsize]
      omega
  have hwithin' : ({ base := (s.memory e).base, size := m.d0 } : Memory).Within (app.bootMemory i) := by
    refine ⟨hstart, ?_⟩
    show (s.memory e).base.toNat + m.d0.toNat ≤ _
    omega
  -- The top piece takes the slot.
  have htop : ((s.bump slot).buildMemory slot ((s.memory e).base + m.d0) ((s.memory e).size - m.d0)
      (s.memory e).attributes none).Tree app :=
    hbump.buildMemory hslot (by simp [hok.slot]) (by omega) (by simp)
      ⟨i, hi.listed, ⟨hwithin.1, hwithin.2⟩, hi.device⟩
  -- The whole is given up.
  have hmid : (s.halfSplit e slot m.d0).Tree app := by
    refine htop.felled (by simp [hne, hok.memory]) ?_
    rw [memory_buildMemory_of_ne hne _ _ _ (by simp)]
    exact hok.leaf
  -- The bottom piece stays.
  have hbottom : ((s.halfSplit e slot m.d0).buildMemory e (s.memory e).base m.d0
      (s.memory e).attributes none).Tree app :=
    hmid.buildMemory (by simpa [KState.halfSplit, KState.felled] using hs.inTable e hok.memory)
      (by simp [KState.halfSplit, KState.felled]) (by omega) (by simp)
      ⟨i, hi.listed, ⟨hwithin'.1, hwithin'.2⟩, hi.device⟩
  exact hbottom.of_sameMemories (sameMemories_splitMemory s e slot m.d0)

theorem makeChildMemory_tree {slot : TableIndex} (hok : s.ChildAccepted e slot brand m)
    (hwrap : ¬m.d0 + m.d1 < m.d0) (hs : s.Tree app) (hslot : slot < s.count) :
    (s.makeChildMemory e slot m.d0 m.d1).Tree app := by
  have hrange := Memory.not_overflows_iff.mp hwrap
  -- Without wrapping, the containment test is exact.
  have hwithin : ({ base := m.d0, size := m.d1 } : Memory).Within (s.memory e) := by
    rcases Memory.contains_iff.mp hok.contained with hexact | hwraps
    · exact ⟨hexact.1, hexact.2⟩
    · exact absurd hwraps.overflows hwrap
  obtain ⟨i, hi⟩ := hs.origin e hok.memory
  refine (hs.of_sameMemories (.bump s slot)).buildMemory hslot (by simp [hok.slot]) hrange ?_
    ⟨i, hi.listed, ?_, hi.device⟩
  · intro p hp
    obtain rfl := Option.some.inj hp
    exact ⟨hok.memory, hwithin⟩
  · exact Memory.Within.trans ⟨hwithin.1, hwithin.2⟩ hi.within

/-- Become gives the Memory up and records the block. -/
theorem becomeObject_memories {t : TypeCode} (hok : s.BecomeAccepted e t brand m) :
    (s.becomeObject e t m.d1).count = s.count ∧
      (∀ x, (s.becomeObject e t m.d1).kind x = .memory ↔ x ≠ e ∧ s.kind x = .memory) ∧
      (s.becomeObject e t m.d1).memory = s.memory ∧
      (s.becomeObject e t m.d1).donations =
        .donated e (s.memory e).base (s.memory e).size :: s.donations := by
  have hdonations : ∀ u : KState, u.history = .generationAdvanced e (s.generation e) :: s.history →
      ((u.record (.donated e (s.memory e).base (s.memory e).size)).loadMpu u.current).donations =
        .donated e (s.memory e).base (s.memory e).size :: s.donations := by
    intro u hu
    rw [donations, history_loadMpu, ← donations, donations_record, donations, hu]
    rfl
  cases t with
  | context | gate | interrupt =>
    refine ⟨rfl, fun x => ?_, rfl, hdonations _ rfl⟩
    by_cases hx : x = e <;> simp [becomeObject, buildObject, hx]

theorem becomeObject_tree {t : TypeCode} (hok : s.BecomeAccepted e t brand m) (hs : s.Tree app) :
    (s.becomeObject e t m.d1).Tree app := by
  obtain ⟨hcount, hkind, hmemory, hdonations⟩ := becomeObject_memories hok
  have hfelled := hs.felled hok.memory hok.leaf
  have horphan : s.orphan e = s := by
    simp [orphan, hok.root]
  have hkind' : ∀ x, (s.becomeObject e t m.d1).kind x = .memory ↔ (s.felled e).kind x = .memory := by
    intro x
    rw [hkind]
    by_cases hx : x = e <;> simp [KState.felled, hx]
  have hmemory' : (s.becomeObject e t m.d1).memory = (s.felled e).memory := by
    rw [hmemory, KState.felled, horphan]
  have hcount' : (s.becomeObject e t m.d1).count = (s.felled e).count := by
    rw [hcount, KState.felled, count_orphan]
  have hforest : (s.becomeObject e t m.d1).forest = (s.felled e).forest := by
    simp only [forest, hcount', hmemory', hkind']
  exact
    { inTable := fun x hx => by
        rw [hcount']
        exact hfelled.inTable x ((hkind' x).mp hx)
      small := hcount' ▸ hfelled.small
      sound := hforest ▸ hfelled.sound
      counted := fun p hp => by
        rw [hmemory', hforest]
        exact hfelled.counted p ((hkind' p).mp hp)
      formed := fun x hx => by
        rw [hmemory']
        exact hfelled.formed x ((hkind' x).mp hx)
      contained := by
        rw [hmemory', hforest]
        exact hfelled.contained
      origin := fun x hx => by
        rw [hmemory']
        exact hfelled.origin x ((hkind' x).mp hx)
      donated := by
        intro x b z hx
        rw [hdonations] at hx
        rcases List.mem_cons.mp hx with hnew | hold
        · -- The block that was given up was ordinary memory.
          injection hnew with _ hb hz
          subst hb hz
          obtain ⟨i, hi⟩ := hs.origin e hok.memory
          refine ⟨i, hi.listed, ⟨hi.within.1, hi.within.2⟩, ?_⟩
          rw [← hi.device, hok.ordinary]
          simp [Memory.isDevice]
        · exact hs.donated x b z hold }

theorem Effect.tree (h : Effect cfg e brand m k s rs s') (hwf : s.WellFormed) (hs : s.Tree app) :
    s'.Tree app := by
  have hslot : ∀ slot, s.kind slot = .slot → slot < s.count := fun slot hkind =>
    hwf.inTable slot (by simp [hkind])
  rcases h.memories_cases with hsame | ⟨slot, hok, -, -, rfl⟩ | ⟨slot, hok, hwrap, rfl⟩ | ⟨t, hok, rfl⟩
  · exact hs.of_sameMemories hsame
  · exact splitMemory_tree hok hs (hslot slot hok.slot)
  · exact makeChildMemory_tree hok hwrap hs (hslot slot hok.slot)
  · exact becomeObject_tree hok hs

end

/-! ## The bodies of other objects -/

/-- The kind of object that Become makes. -/
def TypeCode.kind : TypeCode → Kind
  | context => .context
  | gate => .gate
  | interrupt => .interrupt

/-- Two events are not donations by the same entry. -/
def Event.DonorsDiffer (ev ev' : Event) : Prop :=
  ∀ e b z b' z', ev = .donated e b z → ev' ≠ .donated e b' z'

namespace KState

/-- Contexts, Gates and Interrupts have their bodies in blocks that Become consumed, each from
an entry of its own; the first Context is the exception. -/
structure Bodies (s : KState) : Prop where
  held : ∀ e b z, .donated e b z ∈ s.donations →
    s.bodyAddr e = b ∧ ∃ t : TypeCode, s.kind e = t.kind ∧ t.size ≤ z
  made : ∀ e (t : TypeCode), s.kind e = t.kind → e ≠ 2 →
    ∃ b z, .donated e b z ∈ s.donations
  apart : s.donations.Pairwise Event.DonorsDiffer

theorem Bodies.of_sameMemories {s s' : KState} (hs : s.Bodies) (h : SameMemories s s') : s'.Bodies where
  held := by
    rw [h.donations, h.bodyAddr, h.kind]
    exact hs.held
  made := by
    rw [h.donations, h.kind]
    exact hs.made
  apart := h.donations ▸ hs.apart

end KState

section

variable {cfg : Config} {app : AppInfo} {e : TableIndex} {brand : Brand} {m : Message} {k : Keys}
  {s s' : KState} {rs : ReplySender}

/-- Memory made from Memory and Slots does not touch the bodies. -/
theorem KState.Bodies.of_kind (hs : s.Bodies) (hbody : s'.bodyAddr = s.bodyAddr)
    (hdonations : s'.donations = s.donations)
    (hkind : ∀ (x : TableIndex) (t : TypeCode), s'.kind x = t.kind ↔ s.kind x = t.kind) :
    s'.Bodies where
  held x b z hx := by
    rw [hdonations] at hx
    obtain ⟨haddr, t, ht, hsize⟩ := hs.held x b z hx
    rw [hbody]
    exact ⟨haddr, t, (hkind x t).mpr ht, hsize⟩
  made x t hx := by
    rw [hdonations]
    exact hs.made x t ((hkind x t).mp hx)
  apart := hdonations ▸ hs.apart

theorem becomeObject_bodies {t : TypeCode} (hok : s.BecomeAccepted e t brand m) (hs : s.Bodies) :
    (s.becomeObject e t m.d1).Bodies := by
  obtain ⟨-, -, -, hdonations⟩ := becomeObject_memories hok
  have hkind : (s.becomeObject e t m.d1).kind = Function.update s.kind e t.kind := by
    cases t <;> rfl
  have hbody : (s.becomeObject e t m.d1).bodyAddr =
      Function.update s.bodyAddr e (s.memory e).base := by
    cases t <;> rfl
  -- An entry that holds Memory gave nothing up before.
  have hfresh : ∀ b z, Event.donated e b z ∉ s.donations := by
    intro b z hmem
    obtain ⟨-, t', ht', -⟩ := hs.held e b z hmem
    rw [hok.memory] at ht'
    cases t' <;> cases ht'
  constructor
  · intro x b z hx
    rw [hdonations] at hx
    rcases List.mem_cons.mp hx with hnew | hold
    · injection hnew with hxe hb hz
      subst hxe hb hz
      rw [hkind, hbody, Function.update_self, Function.update_self]
      exact ⟨rfl, t, rfl, hok.fits⟩
    · have hxe : x ≠ e := by
        rintro rfl
        exact hfresh b z hold
      rw [hkind, hbody, Function.update_of_ne hxe, Function.update_of_ne hxe]
      exact hs.held x b z hold
  · intro x t' hx hne
    rw [hdonations]
    by_cases hxe : x = e
    · subst hxe
      exact ⟨_, _, List.mem_cons_self⟩
    · rw [hkind, Function.update_of_ne hxe] at hx
      obtain ⟨b, z, hmem⟩ := hs.made x t' hx hne
      exact ⟨b, z, List.mem_cons_of_mem _ hmem⟩
  · rw [hdonations]
    refine List.pairwise_cons.mpr ⟨fun ev hev x b z b' z' hx hev' => ?_, hs.apart⟩
    injection hx with hxe
    subst hxe hev'
    exact hfresh _ _ hev

theorem Effect.bodies (h : Effect cfg e brand m k s rs s') (hs : s.Bodies) : s'.Bodies := by
  have hother : ∀ {x : TableIndex} {t : TypeCode}, s.kind x = .memory ∨ s.kind x = .slot →
      s.kind x ≠ t.kind := by
    intro x t hx heq
    rw [heq] at hx
    cases t <;> simp [TypeCode.kind] at hx
  have hmemory : ∀ t : TypeCode, Kind.memory ≠ t.kind := by
    intro t
    cases t <;> simp [TypeCode.kind]
  rcases h.memories_cases with hsame | ⟨slot, hok, -, -, rfl⟩ | ⟨slot, hok, -, rfl⟩ | ⟨t, hok, rfl⟩
  · exact hs.of_sameMemories hsame
  · refine hs.of_kind (by simp [splitMemory]) ?_ fun x t => ?_
    · simp [donations, splitMemory, Event.isDonation]
    · by_cases hx : x = e
      · subst hx
        simp [splitMemory, hmemory t, hother (t := t) (.inl hok.memory)]
      · by_cases hslot : x = slot
        · subst hslot
          simp [splitMemory, hx, hmemory t, hother (t := t) (.inr hok.slot)]
        · simp [splitMemory, hx, hslot]
  · refine hs.of_kind (by simp [makeChildMemory]) ?_ fun x t => ?_
    · simp [donations, makeChildMemory, Event.isDonation]
    · by_cases hslot : x = slot
      · subst hslot
        simp [makeChildMemory, hmemory t, hother (t := t) (.inr hok.slot)]
      · simp [makeChildMemory, hslot]
  · exact becomeObject_bodies hok hs

end

/-! ## Boot and runs -/

theorem AppInfo.bootMemory_formed {app : AppInfo} {i : Nat}
    (hwrap : ¬(app.bootMemory i).base + (app.bootMemory i).size < (app.bootMemory i).base) :
    (app.bootMemory i).Formed :=
  ⟨Memory.not_overflows_iff.mp hwrap, _, rfl⟩

theorem AppInfo.isDevice_bootMemory (app : AppInfo) (i : Nat) :
    (app.bootMemory i).isDevice = true ↔ app.memoryMapCount.toNat ≤ i := by
  rw [Memory.isDevice_init (app.bootMemory i).base (app.bootMemory i).size
    (m := { attributes := if i ≥ app.memoryMapCount.toNat then Memory.deviceAttributeMask else 0#32 })
    rfl]
  by_cases h : app.memoryMapCount.toNat ≤ i
  · simp only [ge_iff_le, h, if_true, iff_true]
    decide
  · simp only [ge_iff_le, h, if_false, iff_false]
    decide

theorem Booted.tree {app : AppInfo} {s : KState} (h : Booted app s) : s.Tree app := by
  have hmemories : ∀ e, s.kind e = .memory → ∃ i < app.memories, s.memory e = app.bootMemory i := by
    intro (e : Nat) he
    rw [h.kind, AppInfo.bootKind] at he
    have hbounds : wellKnownObjectCount ≤ e ∧ e < wellKnownObjectCount + app.memories := by
      grind
    refine ⟨e - wellKnownObjectCount, by omega, ?_⟩
    rw [h.memory]
    exact if_pos hbounds
  have hroot : ∀ e p, ¬s.forest.Child e p := by
    rintro e p ⟨he, hp⟩
    obtain ⟨i, -, hi⟩ := hmemories e (Finset.mem_filter.mp he).2
    have hnone : (s.memory e).parent = none := by
      rw [hi]
      rfl
    exact absurd (hp.symm.trans hnone) (by simp)
  exact
    { inTable := fun e he => h.wellFormed.inTable e (by simp [he])
      small := by
        rw [h.count]
        exact app.tableSize.isLt
      sound := ⟨fun hchild => absurd hchild (hroot _ _), fun _ => 0, fun e p hchild =>
        absurd hchild (hroot e p)⟩
      counted := by
        intro p hp
        obtain ⟨i, -, hi⟩ := hmemories p hp
        have hempty : s.forest.children p = ∅ :=
          Finset.eq_empty_of_forall_notMem fun e he => hroot e p (Forest.mem_children.mp he)
        rw [hi, hempty]
        rfl
      formed := by
        intro e he
        obtain ⟨i, hlisted, hi⟩ := hmemories e he
        rw [hi]
        exact AppInfo.bootMemory_formed (h.noWrap i hlisted)
      contained := fun e p hchild => absurd hchild (hroot e p)
      origin := by
        intro e he
        obtain ⟨i, hlisted, hi⟩ := hmemories e he
        rw [hi]
        exact ⟨i, hlisted, .refl _, rfl⟩
      donated := by
        intro e b z hmem
        rw [donations, h.history] at hmem
        simp [Event.isDonation] at hmem }

/-- The Memory objects form a tree in every reachable state. -/
theorem Reachable.tree {cfg : Config} (hcfg : cfg.eagerRevocation = false) {app : AppInfo}
    {s : KState} (h : Reachable cfg app s) : s.Tree app :=
  h.under.tables hcfg Booted.tree (fun h hs => hs.of_sameMemories (.of_untouched h))
    fun _ hs _ _ h hwf heffect => heffect.tree hwf (hs.of_sameMemories (.of_untouched h))

theorem Booted.bodies {app : AppInfo} {s : KState} (h : Booted app s) : s.Bodies where
  held e b z hmem := by
    rw [donations, h.history] at hmem
    simp [Event.isDonation] at hmem
  made e t ht hne := by
    rw [h.kind] at ht
    simp only [AppInfo.bootKind] at ht
    cases t with
    | context | gate | interrupt =>
      simp only [TypeCode.kind] at ht
      grind
  apart := by
    rw [donations, h.history]
    simp [Event.isDonation]

theorem Reachable.bodies {cfg : Config} (hcfg : cfg.eagerRevocation = false) {app : AppInfo}
    {s : KState} (h : Reachable cfg app s) : s.Bodies :=
  h.under.tables hcfg Booted.bodies (fun h hs => hs.of_sameMemories (.of_untouched h))
    fun _ hs _ _ h _ heffect => heffect.bodies (hs.of_sameMemories (.of_untouched h))

end BrittleKernel
