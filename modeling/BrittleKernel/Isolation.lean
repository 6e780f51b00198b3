import Mathlib
import BrittleKernel.Lib.Tiling
import BrittleKernel.MemoryTree

/-!
# Memory Isolation

Who holds the bytes of the boot memory map.  In every state the Memory objects are a tree that
keeps device memory apart.  The roots of the tree and the blocks that Become consumed tile the
map as long as nothing but roots is split: both halves of a split are built without a parent,
so that splitting a child makes two roots inside a third.
-/

namespace BrittleKernel

open Hoare KState

/-! ## The boot memory map -/

namespace AppInfo

variable (app : AppInfo)

/-- The bytes of an entry of the memory map. -/
def entryBytes (i : Nat) : Set Nat :=
  Set.Ico (app.memoryMap i).base.toNat (app.memoryMap i).end.toNat

/-- The bytes of the whole map. -/
def bootBytes : Set Nat := {x | ∃ i < app.memories, x ∈ app.entryBytes i}

/-- The entries behind the first `memoryMapCount` describe devices. -/
def IsDeviceEntry (i : Nat) : Prop := i < app.memories ∧ app.memoryMapCount.toNat ≤ i

def EntriesDisjoint : Prop :=
  ∀ i < app.memories, ∀ j < app.memories, i ≠ j → Disjoint (app.entryBytes i) (app.entryBytes j)

/-- What the author of the header sees to. -/
structure MapApart : Prop where
  noWrap : ∀ i < app.memories, (app.memoryMap i).base ≤ (app.memoryMap i).end
  disjoint : app.EntriesDisjoint
  donated : ∀ i < app.memories, Disjoint (app.entryBytes i)
    (Set.Ico app.donatedRamBegin.toNat app.donatedRamEnd.toNat)

variable {app} {i : Nat}

theorem range_bootMemory
    (hwrap : ¬(app.bootMemory i).base + (app.bootMemory i).size < (app.bootMemory i).base) :
    (app.bootMemory i).range = app.entryBytes i := by
  have hend : ((app.memoryMap i).base + ((app.memoryMap i).end - (app.memoryMap i).base)).toNat =
      (app.memoryMap i).end.toNat := by
    rw [BitVec.add_comm, BitVec.sub_add_cancel]
  have hsum : (app.bootMemory i).base.toNat + (app.bootMemory i).size.toNat =
      (app.memoryMap i).end.toNat := by
    rw [← hend, BitVec.toNat_add]
    exact (Nat.mod_eq_of_lt (Memory.not_overflows_iff.mp hwrap)).symm
  rw [Memory.range, hsum]
  rfl

end AppInfo

/-- No entry of a map that boot accepted wraps around. -/
theorem Reachable.noWrap {cfg : Config} {app : AppInfo} {s : KState} (h : Reachable cfg app s) :
    ∀ i < app.memories,
      ¬(app.bootMemory i).base + (app.bootMemory i).size < (app.bootMemory i).base :=
  h.invariant (P := fun _ => ∀ i < app.memories,
      ¬(app.bootMemory i).base + (app.bootMemory i).size < (app.bootMemory i).base)
    (fun _ _ hboot => hboot.booted.noWrap) fun _ _ _ _ ih _ => ih

/-! ## The tree -/

namespace KState

/-- Entry `e` holds a Memory object whose parent pointer designates entry `p`. -/
def IsChild (s : KState) (e p : TableIndex) : Prop :=
  s.kind e = .memory ∧ (s.memory e).parent = some p

/-- The body of an object of the given type. -/
def bodyBytes (s : KState) (x : TableIndex) (t : TypeCode) : Set Nat :=
  Set.Ico (s.bodyAddr x).toNat ((s.bodyAddr x).toNat + t.size.toNat)

variable {s : KState} {app : AppInfo}

theorem Tree.child_iff (hs : s.Tree app) {e p : TableIndex} : s.forest.Child e p ↔ s.IsChild e p := by
  rw [Forest.Child, mem_nodes_iff hs.inTable]
  rfl

/-- A range that meets a boot entry came from it. -/
theorem ComesFrom.eq_of_mem {m : Memory} {i j : Nat} (h : ComesFrom app m i)
    (hnoWrap : ∀ i < app.memories,
      ¬(app.bootMemory i).base + (app.bootMemory i).size < (app.bootMemory i).base)
    (hdisjoint : app.EntriesDisjoint) (hj : j < app.memories) {x : Nat} (hx : x ∈ m.range)
    (hxj : x ∈ app.entryBytes j) : i = j := by
  by_contra hne
  have hxi : x ∈ app.entryBytes i := by
    rw [← AppInfo.range_bootMemory (hnoWrap i h.listed)]
    exact h.within.range_subset hx
  exact Set.disjoint_left.mp (hdisjoint i h.listed j hj hne) hxi hxj

/-- The Memory objects form a tree, and device memory stays device memory. -/
structure TreeFormed (app : AppInfo) (s : KState) : Prop where
  parent : ∀ e p, s.IsChild e p → s.kind p = .memory
  acyclic : ∀ e, ¬Relation.TransGen s.IsChild e e
  childCount : ∀ p, s.kind p = .memory →
    (s.memory p).childCount.toNat = {e | s.IsChild e p}.ncard
  contained : ∀ e p, s.IsChild e p → (s.memory e).Within (s.memory p)
  noWrap : ∀ e, s.kind e = .memory → (s.memory e).base.toNat + (s.memory e).size.toNat < 2 ^ 32
  device : app.EntriesDisjoint → ∀ e i, s.kind e = .memory → app.IsDeviceEntry i →
    (s.memory e).range.Nonempty → (s.memory e).range ⊆ app.entryBytes i →
    (s.memory e).isDevice = true
  /-- Become puts no body into device memory. -/
  bodies : app.EntriesDisjoint → ∀ x (t : TypeCode) i, s.kind x = t.kind → x ≠ 2 →
    app.IsDeviceEntry i → Disjoint (s.bodyBytes x t) (app.entryBytes i)

theorem Tree.formed_of (hs : s.Tree app) (hbodies : s.Bodies)
    (hnoWrap : ∀ i < app.memories,
      ¬(app.bootMemory i).base + (app.bootMemory i).size < (app.bootMemory i).base) :
    TreeFormed app s where
  parent e p h := (mem_nodes_iff hs.inTable).mp (hs.sound.parent (hs.child_iff.mpr h))
  acyclic e h := hs.sound.acyclic e (h.lift id fun _ _ => hs.child_iff.mpr)
  childCount p hp := by
    rw [hs.counted p hp, ← Set.ncard_coe_finset]
    congr 1
    ext e
    exact Forest.mem_children.trans hs.child_iff
  contained e p h := hs.contained e p (hs.child_iff.mpr h)
  noWrap e he := (hs.formed e he).noWrap
  device hdisjoint e i he hi hnonempty hsub := by
    obtain ⟨x, hx⟩ := hnonempty
    obtain ⟨j, hj⟩ := hs.origin e he
    obtain rfl := hj.eq_of_mem hnoWrap hdisjoint hi.1 hx (hsub hx)
    rw [hj.device]
    exact (app.isDevice_bootMemory j).mpr hi.2
  bodies hdisjoint x t i hx hne hi := by
    obtain ⟨b, z, hmem⟩ := hbodies.made x t hx hne
    obtain ⟨haddr, t', ht', hsize⟩ := hbodies.held x b z hmem
    obtain ⟨j, hj⟩ := hs.donated x b z hmem
    have htype : t = t' := by
      rw [hx] at ht'
      cases t <;> cases t' <;> simp_all [TypeCode.kind]
    subst htype
    apply Set.disjoint_left.mpr
    intro y hy hyi
    -- The block was ordinary memory, so that it came from another entry.
    have hblock : y ∈ ({ base := b, size := z } : Memory).range := by
      rw [bodyBytes, haddr] at hy
      have hsize' : t.size.toNat ≤ z.toNat := hsize
      exact ⟨hy.1, hy.2.trans_le (Nat.add_le_add_left hsize' _)⟩
    obtain rfl := hj.eq_of_mem hnoWrap hdisjoint hi.1 hblock hyi
    have hdevice := hj.device
    rw [(app.isDevice_bootMemory j).mpr hi.2] at hdevice
    simp [Memory.isDevice] at hdevice

end KState

namespace KState

/-- Those who can hold a byte of the boot memory map: a root Memory object in an entry, or the
block that Become consumed in an entry. -/
inductive Owner where
  | root (e : TableIndex)
  | block (e : TableIndex)

/-- The bytes that an owner holds. -/
def owns (s : KState) : Owner → Set Nat
  | .root e => {x | s.kind e = .memory ∧ (s.memory e).parent = none ∧ x ∈ (s.memory e).range}
  | .block e => {x | ∃ b z, Event.donated e b z ∈ s.history ∧
      x ∈ Set.Ico b.toNat (b.toNat + z.toNat)}

/-- The bytes that are held on account of an entry. -/
def cell (s : KState) (e : TableIndex) : Set Nat := s.owns (.root e) ∪ s.owns (.block e)

/-- Every byte of the map has one owner, and no Memory object reaches into a block that holds
another object's body. -/
structure Isolated (app : AppInfo) (s : KState) : Prop where
  oneOwner : ∀ x ∈ app.bootBytes, ∃! o, x ∈ s.owns o
  /-- An entry is consumed by one Become at most. -/
  once : s.donations.Pairwise Event.DonorsDiffer
  bodies : ∀ x (t : TypeCode), s.kind x = t.kind → x ≠ 2 →
    ∃ b z, Event.donated x b z ∈ s.history ∧
      s.bodyBytes x t ⊆ Set.Ico b.toNat (b.toNat + z.toNat) ∧
      ∀ e, s.kind e = .memory →
        Disjoint (s.memory e).range (Set.Ico b.toNat (b.toNat + z.toNat))

variable {s s' : KState} {app : AppInfo} {e : TableIndex}

theorem mem_donations {e : TableIndex} {b z : Word} :
    Event.donated e b z ∈ s.donations ↔ Event.donated e b z ∈ s.history := by
  simp [donations, Event.isDonation]

theorem owns_block_congr (h : s'.donations = s.donations) (e : TableIndex) :
    s'.owns (.block e) = s.owns (.block e) := by
  simp only [owns, ← mem_donations, h]

/-- An entry that holds no object with a body gave nothing up. -/
theorem Bodies.owns_block (hs : s.Bodies) (he : s.kind e = .memory ∨ s.kind e = .slot) :
    s.owns (.block e) = ∅ := by
  apply Set.eq_empty_of_forall_notMem
  rintro x ⟨b, z, hmem, -⟩
  obtain ⟨-, t, ht, -⟩ := hs.held e b z (mem_donations.mpr hmem)
  rw [ht] at he
  cases t <;> simp [TypeCode.kind] at he

theorem cell_slot (hs : s.Bodies) (he : s.kind e = .slot) : s.cell e = ∅ := by
  rw [cell, hs.owns_block (.inr he), Set.union_empty]
  apply Set.eq_empty_of_forall_notMem
  rintro x ⟨hkind, -⟩
  rw [he] at hkind
  cases hkind

theorem cell_root (hs : s.Bodies) (he : s.kind e = .memory) (hroot : (s.memory e).parent = none) :
    s.cell e = (s.memory e).range := by
  rw [cell, hs.owns_block (.inl he), Set.union_empty]
  ext x
  exact ⟨fun h => h.2.2, fun h => ⟨he, hroot, h⟩⟩

theorem cell_child (hs : s.Bodies) (he : s.kind e = .memory) (hchild : (s.memory e).parent ≠ none) :
    s.cell e = ∅ := by
  rw [cell, hs.owns_block (.inl he), Set.union_empty]
  apply Set.eq_empty_of_forall_notMem
  rintro x ⟨-, hroot, -⟩
  exact hchild hroot

/-- A cell depends on the entry's object, up to its child count, and on the donations. -/
theorem cell_congr (hdonations : s'.donations = s.donations)
    (hkind : s'.kind e = .memory ↔ s.kind e = .memory)
    (hmemory : ∃ n, s'.memory e = { s.memory e with childCount := n }) : s'.cell e = s.cell e := by
  obtain ⟨n, hn⟩ := hmemory
  rw [cell, cell, owns_block_congr hdonations]
  congr 1
  simp only [owns, hkind, hn]
  rfl

end KState

/-! ## Methods -/

section

variable {cfg : Config} {app : AppInfo} {e slot : TableIndex} {brand : Brand} {m : Message} {k : Keys}
  {s s' : KState} {rs : ReplySender} {whole : Set Nat}

/-- What a split leaves of the other entries. -/
theorem memory_splitMemory_of_ne {pos : Word} {x : TableIndex} (hx : x ≠ e) (hslot : x ≠ slot) :
    ∃ n, (s.splitMemory e slot pos).memory x = { s.memory x with childCount := n } := by
  rw [(sameMemories_splitMemory s e slot pos).memory,
    memory_buildMemory_of_ne hx _ _ _ (by simp), if_neg (by simp)]
  show ∃ n, ((KState.orphan _ e).memory x) = _
  rw [memory_orphan_of_ne hx]
  have htop : ((s.bump slot).buildMemory slot ((s.memory e).base + pos) ((s.memory e).size - pos)
      (s.memory e).attributes none).memory x = s.memory x := by
    rw [memory_buildMemory_of_ne hslot _ _ _ (by simp), if_neg (by simp)]
    rfl
  split
  · rw [htop]
    exact ⟨_, rfl⟩
  · exact ⟨(s.memory x).childCount, htop⟩

/-- The two pieces. -/
theorem memory_splitMemory_bottom (pos : Word) :
    (s.splitMemory e slot pos).memory e =
      { base := (s.memory e).base
        size := pos
        attributes := Memory.initAttributes (s.memory e).base pos (s.memory e).attributes } := by
  rw [(sameMemories_splitMemory s e slot pos).memory, memory_buildMemory_self _ _ _ (by simp)]

theorem memory_splitMemory_top {pos : Word} (hne : e ≠ slot) (hparent : (s.memory e).parent ≠ some slot) :
    (s.splitMemory e slot pos).memory slot =
      { base := (s.memory e).base + pos
        size := (s.memory e).size - pos
        attributes := Memory.initAttributes ((s.memory e).base + pos) ((s.memory e).size - pos)
          (s.memory e).attributes } := by
  have htop : ((s.bump slot).buildMemory slot ((s.memory e).base + pos) ((s.memory e).size - pos)
      (s.memory e).attributes none).memory e = s.memory e := by
    rw [memory_buildMemory_of_ne hne _ _ _ (by simp), if_neg (by simp)]
    rfl
  rw [(sameMemories_splitMemory s e slot pos).memory,
    memory_buildMemory_of_ne hne.symm _ _ _ (by simp), if_neg (by simp)]
  show (KState.orphan _ e).memory slot = _
  rw [memory_orphan_of_ne hne.symm, htop, if_neg hparent, memory_buildMemory_self _ _ _ (by simp)]

/-- Splitting a root, or an object without any bytes, cuts its cell in two. -/
theorem splitMemory_tiles (hok : s.SplitAccepted e slot brand m)
    (hroot : (s.memory e).parent = none ∨ (s.memory e).size = 0#32) (htree : s.Tree app)
    (hbodies : s.Bodies) (hbodies' : (s.splitMemory e slot m.d0).Bodies) (hs : Tiles s.cell whole) :
    Tiles (s.splitMemory e slot m.d0).cell whole := by
  have hne : e ≠ slot := by
    rintro rfl
    exact absurd (hok.memory.symm.trans hok.slot) (by decide)
  have hparent : (s.memory e).parent ≠ some slot := by
    intro h
    have hchild := htree.sound.parent (htree.child_iff.mpr ⟨hok.memory, h⟩)
    exact absurd (((mem_nodes_iff htree.inTable).mp hchild).symm.trans hok.slot) (by decide)
  obtain ⟨hbase, hsize, hpos⟩ := hok.cut (htree.formed e hok.memory)
  have hkind : ∀ x, x = e ∨ x = slot → (s.splitMemory e slot m.d0).kind x = .memory := by
    rintro x (rfl | rfl)
    · simp [splitMemory]
    · by_cases hx : x = e <;> simp [splitMemory, hx]
  have hwhole : s.cell e = (s.memory e).range := by
    by_cases hnone : (s.memory e).parent = none
    · exact cell_root hbodies hok.memory hnone
    · have hzero : (s.memory e).size.toNat = 0 := by
        rw [hroot.resolve_left hnone]
        rfl
      rw [cell_child hbodies hok.memory hnone, Memory.range, hzero, Nat.add_zero, Set.Ico_self]
  have hbottom : (s.splitMemory e slot m.d0).cell e =
      Set.Ico (s.memory e).base.toNat ((s.memory e).base.toNat + m.d0.toNat) := by
    rw [cell_root hbodies' (hkind e (.inl rfl)) (by rw [memory_splitMemory_bottom]),
      memory_splitMemory_bottom]
    rfl
  have htop : (s.splitMemory e slot m.d0).cell slot =
      Set.Ico ((s.memory e).base.toNat + m.d0.toNat)
        ((s.memory e).base.toNat + (s.memory e).size.toNat) := by
    rw [cell_root hbodies' (hkind slot (.inr rfl)) (by rw [memory_splitMemory_top hne hparent]),
      memory_splitMemory_top hne hparent, Memory.range, hbase, hsize]
    congr 1
    omega
  have hdonations : (s.splitMemory e slot m.d0).donations = s.donations := by
    simp [donations, splitMemory, Event.isDonation]
  refine hs.cut hne (cell_slot hbodies hok.slot) ?_ ?_ fun x hx hslot => ?_
  · rw [hbottom, htop, hwhole, Memory.range]
    exact Set.Ico_union_Ico_eq_Ico (Nat.le_add_right _ _) (by omega)
  · rw [hbottom, htop]
    exact Set.Ico_disjoint_Ico_same
  · refine cell_congr hdonations ?_ (memory_splitMemory_of_ne hx hslot)
    simp [splitMemory, hx, hslot]

/-- A child holds nothing of its own. -/
theorem makeChildMemory_cell (hok : s.ChildAccepted e slot brand m) (hbodies : s.Bodies)
    (hbodies' : (s.makeChildMemory e slot m.d0 m.d1).Bodies) :
    (s.makeChildMemory e slot m.d0 m.d1).cell = s.cell := by
  have hne : e ≠ slot := by
    rintro rfl
    exact absurd (hok.memory.symm.trans hok.slot) (by decide)
  have hself : some e ≠ some slot := fun h => hne (Option.some.inj h)
  have hdonations : (s.makeChildMemory e slot m.d0 m.d1).donations = s.donations := by
    simp [donations, makeChildMemory, Event.isDonation]
  funext x
  by_cases hx : x = slot
  · subst hx
    rw [cell_slot hbodies hok.slot]
    refine cell_child hbodies' (by simp [makeChildMemory]) ?_
    rw [makeChildMemory, memory_buildMemory_self _ _ _ hself]
    simp
  · refine cell_congr hdonations (by simp [makeChildMemory, hx]) ?_
    rw [makeChildMemory, memory_buildMemory_of_ne hx _ _ _ hself]
    split
    · exact ⟨_, rfl⟩
    · exact ⟨(s.memory x).childCount, rfl⟩

/-- Become hands the cell over as it is. -/
theorem becomeObject_cell {t : TypeCode} (hok : s.BecomeAccepted e t brand m) (hbodies : s.Bodies) :
    (s.becomeObject e t m.d1).cell = s.cell := by
  obtain ⟨-, hkind, hmemory, hdonations⟩ := becomeObject_memories hok
  have hblock : ∀ x b z, Event.donated x b z ∈ (s.becomeObject e t m.d1).history ↔
      x = e ∧ b = (s.memory e).base ∧ z = (s.memory e).size ∨ Event.donated x b z ∈ s.history := by
    intro x b z
    rw [← mem_donations, hdonations, List.mem_cons, Event.donated.injEq, mem_donations]
  funext x
  by_cases hx : x = e
  · subst hx
    rw [cell_root hbodies hok.memory hok.root, cell]
    have hroot : (s.becomeObject x t m.d1).owns (.root x) = ∅ := by
      apply Set.eq_empty_of_forall_notMem
      rintro y ⟨hmem, -⟩
      exact ((hkind x).mp hmem).1 rfl
    rw [hroot, Set.empty_union]
    ext y
    constructor
    · rintro ⟨b, z, hmem, hy⟩
      rcases (hblock x b z).mp hmem with ⟨-, rfl, rfl⟩ | hold
      · exact hy
      · have hnone : y ∈ s.owns (.block x) := ⟨b, z, hold, hy⟩
        rw [hbodies.owns_block (.inl hok.memory)] at hnone
        exact hnone.elim
    · intro hy
      exact ⟨_, _, (hblock x _ _).mpr (.inl ⟨rfl, rfl, rfl⟩), hy⟩
  · rw [cell, cell]
    congr 1
    · simp only [owns, hkind, hmemory, hx, ne_eq, not_false_eq_true, true_and]
    · simp only [owns, hblock, hx, false_and, false_or]

theorem Effect.tiles (h : Effect cfg e brand m k s rs s') (htree : s.Tree app) (hbodies : s.Bodies)
    (hroot : MemoryMethod.ofSelector m.desc.getSelector = some .split → s.kind e = .memory →
      m.d0 ≤ (s.memory e).size → (s.memory e).childCount = 0#32 →
      (s.memory e).parent = none ∨ (s.memory e).size = 0#32)
    (hs : Tiles s.cell whole) : Tiles s'.cell whole := by
  have hbodies' := h.bodies hbodies
  rcases h.memories_cases with hsame | ⟨slot, hok, -, -, rfl⟩ | ⟨slot, hok, -, rfl⟩ | ⟨t, hok, rfl⟩
  · have hcell : s'.cell = s.cell := by
      funext x
      refine cell_congr hsame.donations (by rw [hsame.kind]) ⟨(s.memory x).childCount, ?_⟩
      rw [hsame.memory]
    exact hcell ▸ hs
  · exact splitMemory_tiles hok (hroot hok.method hok.memory hok.fits hok.leaf) htree hbodies hbodies' hs
  · exact makeChildMemory_cell hok hbodies hbodies' ▸ hs
  · exact becomeObject_cell hok hbodies ▸ hs

end

/-! ## Runs -/

namespace KState

/-- The step's message asks a Memory object with a parent to split, and nothing about the
object's state speaks against it. -/
def SplitsChild (s : KState) (a : Action) : Prop :=
  ∃ e m, Requests s a e m ∧ MemoryMethod.ofSelector m.desc.getSelector = some .split ∧
    s.kind e = .memory ∧ m.d0 ≤ (s.memory e).size ∧ (s.memory e).childCount = 0#32 ∧
      (s.memory e).parent ≠ none ∧ (s.memory e).size ≠ 0#32

/-- Above every Memory object there is a root whose range contains it. -/
theorem Tree.exists_root {s : KState} {app : AppInfo} (hs : s.Tree app) {e : TableIndex}
    (he : s.kind e = .memory) :
    ∃ r, s.kind r = .memory ∧ (s.memory r).parent = none ∧ (s.memory e).Within (s.memory r) := by
  obtain ⟨r, hr, hroot, hpath⟩ := hs.sound.exists_root ((mem_nodes_iff hs.inTable).mpr he)
  refine ⟨r, (mem_nodes_iff hs.inTable).mp hr, hroot, ?_⟩
  -- Induction along the parent pointers: every object lies within its parent.
  clear hr hroot
  induction hpath with
  | refl => exact .refl _
  | tail _ hchild ih => exact ih.trans (hs.contained _ _ hchild)

theorem Isolated.of_tiles {s : KState} {app : AppInfo} (htree : s.Tree app) (hbodies : s.Bodies)
    (hs : Tiles s.cell app.bootBytes) : Isolated app s where
  oneOwner x hx := by
    obtain ⟨e, he, hunique⟩ := hs.existsUnique hx
    have hentry : ∀ o, x ∈ s.owns o → o = .root e ∨ o = .block e := by
      rintro (e' | e') ho
      · exact .inl (congrArg Owner.root (hunique e' (.inl ho)))
      · exact .inr (congrArg Owner.block (hunique e' (.inr ho)))
    -- An entry that holds Memory has no block.
    have hnotBoth : x ∈ s.owns (.root e) → x ∉ s.owns (.block e) := by
      intro hroot
      rw [hbodies.owns_block (.inl hroot.1)]
      exact Set.notMem_empty x
    rcases he with hroot | hblock
    · refine ⟨.root e, hroot, fun o ho => ?_⟩
      rcases hentry o ho with rfl | rfl
      · rfl
      · exact absurd ho (hnotBoth hroot)
    · refine ⟨.block e, hblock, fun o ho => ?_⟩
      rcases hentry o ho with rfl | rfl
      · exact absurd hblock (hnotBoth ho)
      · rfl
  once := hbodies.apart
  bodies x t hx hne := by
    obtain ⟨b, z, hmem⟩ := hbodies.made x t hx hne
    obtain ⟨haddr, t', ht', hsize⟩ := hbodies.held x b z hmem
    have htype : t = t' := by
      rw [hx] at ht'
      cases t <;> cases t' <;> simp_all [TypeCode.kind]
    subst htype
    have hsize' : t.size.toNat ≤ z.toNat := hsize
    refine ⟨b, z, mem_donations.mp hmem, ?_, fun e he => ?_⟩
    · rw [bodyBytes, haddr]
      exact Set.Ico_subset_Ico le_rfl (Nat.add_le_add_left hsize' _)
    · obtain ⟨r, hr, hroot, hwithin⟩ := htree.exists_root he
      have hrx : r ≠ x := by
        rintro rfl
        rw [hr] at hx
        cases t <;> cases hx
      have hroots : (s.memory e).range ⊆ s.cell r := by
        rw [cell_root hbodies hr hroot]
        exact hwithin.range_subset
      have hblocks : Set.Ico b.toNat (b.toNat + z.toNat) ⊆ s.cell x := fun y hy =>
        .inr ⟨b, z, mem_donations.mp hmem, hy⟩
      exact (hs.disjoint r x hrx).mono hroots hblocks

end KState

/-- Boot makes a root of every entry of the map. -/
theorem Booted.tiles {app : AppInfo} {s : KState} (h : Booted app s) (happ : app.MapApart) :
    Tiles s.cell app.bootBytes := by
  have hblock : ∀ e, s.owns (.block e) = ∅ := by
    intro e
    apply Set.eq_empty_of_forall_notMem
    rintro x ⟨b, z, hmem, -⟩
    simp [h.history] at hmem
  have hroot : ∀ (e : Nat) (x : Nat), x ∈ s.cell e ↔ wellKnownObjectCount ≤ e ∧
      e < wellKnownObjectCount + app.memories ∧ x ∈ app.entryBytes (e - wellKnownObjectCount) := by
    intro e x
    rw [KState.cell, hblock, Set.union_empty]
    have hmemory : s.kind e = .memory ↔
        wellKnownObjectCount ≤ e ∧ e < wellKnownObjectCount + app.memories := by
      rw [h.kind, AppInfo.bootKind]
      grind
    have hobject : wellKnownObjectCount ≤ e → e < wellKnownObjectCount + app.memories →
        s.memory e = app.bootMemory (e - wellKnownObjectCount) := by
      intro hlow hhigh
      rw [h.memory]
      exact if_pos ⟨hlow, hhigh⟩
    have hrange : wellKnownObjectCount ≤ e → e < wellKnownObjectCount + app.memories →
        (s.memory e).range = app.entryBytes (e - wellKnownObjectCount) := by
      intro hlow hhigh
      rw [hobject hlow hhigh]
      exact AppInfo.range_bootMemory (h.noWrap _ (by omega))
    constructor
    · rintro ⟨hkind, -, hx⟩
      obtain ⟨hlow, hhigh⟩ := hmemory.mp hkind
      exact ⟨hlow, hhigh, hrange hlow hhigh ▸ hx⟩
    · rintro ⟨hlow, hhigh, hx⟩
      exact ⟨hmemory.mpr ⟨hlow, hhigh⟩, by rw [hobject hlow hhigh]; rfl, (hrange hlow hhigh).symm ▸ hx⟩
  constructor
  · intro (e : Nat) (e' : Nat) hne
    apply Set.disjoint_left.mpr
    intro x hx hx'
    obtain ⟨hlow, hhigh, hbytes⟩ := (hroot e x).mp hx
    obtain ⟨hlow', hhigh', hbytes'⟩ := (hroot e' x).mp hx'
    have hapart : e - wellKnownObjectCount ≠ e' - wellKnownObjectCount := by
      have hne' : ¬(e : Nat) = e' := hne
      omega
    exact Set.disjoint_left.mp (happ.disjoint _ (by omega) _ (by omega) hapart) hbytes hbytes'
  · ext x
    rw [Set.mem_iUnion]
    constructor
    · rintro ⟨(e : Nat), hx⟩
      obtain ⟨hlow, hhigh, hx⟩ := (hroot e x).mp hx
      exact ⟨_, by omega, hx⟩
    · rintro ⟨i, hi, hx⟩
      refine ⟨wellKnownObjectCount + i, (hroot _ x).mpr ⟨by omega, by omega, ?_⟩⟩
      rwa [Nat.add_sub_cancel_left]

/-- In every run that splits roots only, the cells tile the boot memory map. -/
theorem ReachableUnder.tiles {etl : Etl} {app : AppInfo} {s : KState}
    (h : ReachableUnder (.source etl) app (fun s a => ¬s.SplitsChild a) s) (happ : app.MapApart) :
    Tiles s.cell app.bootBytes := by
  have hinvariant : s.Tree app ∧ s.Bodies ∧ Tiles s.cell app.bootBytes := by
    refine h.tables (I := fun s => s.Tree app ∧ s.Bodies ∧ Tiles s.cell app.bootBytes) rfl
      (fun hboot => ⟨hboot.tree, hboot.bodies, hboot.tiles happ⟩) ?_ ?_
    · rintro s s' huntouched ⟨htree, hbodies, htiles⟩
      have hsame := SameMemories.of_untouched huntouched
      have hcell : s'.cell = s.cell := by
        funext x
        refine cell_congr hsame.donations (by rw [hsame.kind]) ⟨(s.memory x).childCount, ?_⟩
        rw [hsame.memory]
      exact ⟨htree.of_sameMemories hsame, hbodies.of_sameMemories hsame, hcell ▸ htiles⟩
    · rintro s s' t a e m k rs brand - ⟨htree, hbodies, htiles⟩ hok hrequest huntouched hwf heffect
      have hsame := SameMemories.of_untouched huntouched
      have hcell : t.cell = s.cell := by
        funext x
        refine cell_congr hsame.donations (by rw [hsame.kind]) ⟨(s.memory x).childCount, ?_⟩
        rw [hsame.memory]
      have htree' := htree.of_sameMemories hsame
      have hbodies' := hbodies.of_sameMemories hsame
      refine ⟨heffect.tree hwf htree', heffect.bodies hbodies',
        heffect.tiles htree' hbodies' (fun hm he hfits hleaf => ?_) (hcell ▸ htiles)⟩
      rw [hsame.memory] at hfits hleaf ⊢
      rw [hsame.kind] at he
      by_contra hchild
      exact hok ⟨e, m, hrequest, hm, he, hfits, hleaf, not_or.mp hchild⟩
  exact hinvariant.2.2

/-- In every run that splits roots only, the memory of the boot map stays apart. -/
theorem ReachableUnder.isolated {etl : Etl} {app : AppInfo} {s : KState}
    (h : ReachableUnder (.source etl) app (fun s a => ¬s.SplitsChild a) s) (happ : app.MapApart) :
    Isolated app s :=
  .of_tiles (h.reachable.tree rfl) (h.reachable.bodies rfl) (h.tiles happ)

/-! ### Runs of the sample application -/

namespace Sample

/-- Keys to the block of entry 6 and to a Slot. -/
def cutting : List Action := [
  call 1 1 6#32 0x30000#32 0#32 0#32 0x20#32,
  call 1 1 7#32 0#32 0#32 0#32 0x30#32]

/-- The block is split after 32 bytes. -/
def cut : UserRegisters :=
  registers (descriptor 3 2 0 true true false) 0x20#32 0#32 0#32 0x30#32 0x540#32

/-- The lower piece becomes a Gate. -/
def build : Action := call 4 4 1#32 0#32 0#32 0#32 0x40#32

/-- The child of 64 bytes is split, and its lower half becomes a Gate. -/
def overlapping : List Action := parenting ++ [
  call 1 1 8#32 0#32 0#32 0#32 0x30#32,
  call 3 4 0x20#32 0#32 0#32 0x30#32 0x540#32,
  call 4 4 1#32 0#32 0#32 0#32 0x40#32]

theorem app_mapApart : app.MapApart := by
  have hentry : ∀ i < app.memories, i = 0 ∨ i = 1 ∨ i = 2 ∨ i = 3 := by
    intro i hi
    have hcount : app.memories = 4 := rfl
    omega
  constructor
  · intro i hi
    rcases hentry i hi with rfl | rfl | rfl | rfl <;> decide
  · intro i hi j hj hne
    rcases hentry i hi with rfl | rfl | rfl | rfl <;> rcases hentry j hj with rfl | rfl | rfl | rfl <;>
      first
      | exact absurd rfl hne
      | (simp only [AppInfo.entryBytes, Set.Ico_disjoint_Ico]; decide)
  · intro i hi
    rcases hentry i hi with rfl | rfl | rfl | rfl <;>
      (simp only [AppInfo.entryBytes, Set.Ico_disjoint_Ico]; decide)

end Sample

/-- The message is a Split if a Memory object serves it. -/
def Action.splits : Action → Bool
  | .svc _ regs => MemoryMethod.ofSelector (svcMessage regs).desc.getSelector == some .split
  | _ => false

theorem KState.not_splitsChild {s : KState} {a : Action} (h : a.splits = false) :
    ¬s.SplitsChild a := by
  rintro ⟨e, m, hrequest, hm, -⟩
  cases hrequest with
  | svc => simp [Action.splits, hm] at h
  | irq =>
    have hselector : MemoryMethod.ofSelector (Descriptor.zero.withSelector 1#16).getSelector =
        some .inspect := by decide
    rw [irqMessage, hselector] at hm
    cases hm

/-- A root is split and one half becomes a Gate. -/
theorem Sample.halved : ∃ s : KState,
    ReachableUnder (.source Sample.etl) Sample.app (fun s a => ¬s.SplitsChild a) s ∧
      s.kind 6 = .gate ∧ s.kind 7 = .memory := by
  have hrun : Sample.passes (fun s =>
      (s.memory (s.invoked Sample.cut)).parent = none ∧
        Sample.passes (fun s' => Sample.passes (fun s'' => s''.kind 6 = .gate ∧ s''.kind 7 = .memory)
          (BrittleKernel.step (.source Sample.etl) Sample.build s'))
          (BrittleKernel.step (.source Sample.etl) (.svc Sample.stack Sample.cut) s) = true)
      (Sample.after Sample.cutting) = true := by decide_cbv
  obtain ⟨s, hafter, -, htest⟩ := Sample.exists_of_passes hrun
  obtain ⟨hroot, hsteps⟩ := of_decide_eq_true htest
  have hbefore : ReachableUnder (.source Sample.etl) Sample.app (fun s a => ¬s.SplitsChild a) s := by
    refine reachableUnder_of_bootAndRun hafter fun t a ha => not_splitsChild ?_
    revert a
    decide
  have hok : ¬s.SplitsChild (.svc Sample.stack Sample.cut) := by
    rintro ⟨e, m, hrequest, -, -, -, -, hchild, -⟩
    obtain ⟨⟩ := hrequest
    exact hchild hroot
  cases hcut : BrittleKernel.step (.source Sample.etl) (.svc Sample.stack Sample.cut) s with
  | error p s' => simp [hcut, Sample.passes] at hsteps
  | ok u s' =>
    rw [hcut] at hsteps
    cases hbuild : BrittleKernel.step (.source Sample.etl) Sample.build s' with
    | error p s'' => simp [hbuild, Sample.passes] at hsteps
    | ok u s'' =>
      simp only [Sample.passes, hbuild, decide_eq_true_eq] at hsteps
      have hend := (hbefore.step hok hcut).step (not_splitsChild (by decide)) hbuild
      exact ⟨s'', hend, hsteps⟩

theorem isolated_sample : ∃ s : KState, Isolated Sample.app s ∧ s.kind 6 = .gate ∧
    s.kind 7 = .memory := by
  obtain ⟨s, hreach, hkinds⟩ := Sample.halved
  exact ⟨s, hreach.isolated Sample.app_mapApart, hkinds⟩

/-- A child that is split leaves its parent's range: the Gate's body lies in the block that it
was made from, and also in the Memory object of entry 6. -/
theorem isolated_fails : Sample.app.MapApart ∧
    ∃ s : KState, Reachable (.source Sample.etl) Sample.app s ∧ ¬Isolated Sample.app s := by
  refine ⟨Sample.app_mapApart, ?_⟩
  have hrun : Sample.passes (fun s => (s.kind 6 = .memory ∧ (s.memory 6).parent = none ∧
      (s.memory 6).base = 0x20001400#32 ∧ (s.memory 6).size = 0x100#32) ∧
      Event.donated 7 0x20001440#32 0x20#32 ∈ s.history)
      (Sample.after Sample.overlapping) = true := by decide_cbv
  obtain ⟨s, -, hreach, htest⟩ := Sample.exists_of_passes hrun
  obtain ⟨⟨hkind, hroot, hbase, hsize⟩, hdonated⟩ := of_decide_eq_true htest
  refine ⟨s, hreach, fun h => ?_⟩
  have hboot : (0x20001440 : Nat) ∈ Sample.app.bootBytes := ⟨3, by decide, by decide, by decide⟩
  have hmem : (0x20001440 : Nat) ∈ s.owns (.root 6) := by
    refine ⟨hkind, hroot, ?_⟩
    rw [Memory.range, hbase, hsize]
    decide
  have hblock : (0x20001440 : Nat) ∈ s.owns (.block 7) := ⟨_, _, hdonated, by decide⟩
  have heq := (h.oneOwner _ hboot).unique hmem hblock
  cases heq

end BrittleKernel
