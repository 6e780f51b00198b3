import Mathlib.Algebra.BigOperators.Group.Finset.Basic
import BrittleKernel.Lib.Links
import BrittleKernel.Geometry
import BrittleKernel.System.Slots
import BrittleKernel.System.Calls

/-!
# The Pool of Free Blocks

The allocator's invariant: every list root leads through the first words of disjoint blocks of
the list's size.  Taking a block off its list, splitting it in the kernel and putting the halves
on the next smaller list each keep it.
-/

namespace BrittleKernel

open Hoare KState Links

/-! ## Words in memory -/

namespace KState

variable {s : KState} {a b w : Word}

theorem loadWord_storeWord (s : KState) (a w : Word) : (s.storeWord a w).loadWord a = w := by
  have hne : ∀ i j : Word, i ≠ j → a + i ≠ a + j := by
    intro i j hij h
    exact hij ((BitVec.add_right_inj a).mp h)
  have hne' : ∀ i : Word, i ≠ 0#32 → a + i ≠ a := by
    intro i hi h
    have hzero := hne i 0#32 hi
    rw [BitVec.add_zero] at hzero
    exact hzero h
  simp only [loadWord, storeWord, if_true, hne' _ (show 1#32 ≠ 0#32 by decide),
    hne' _ (show 2#32 ≠ 0#32 by decide), hne' _ (show 3#32 ≠ 0#32 by decide), if_false,
    hne 2#32 1#32 (by decide), hne 3#32 1#32 (by decide), hne 3#32 2#32 (by decide)]
  apply BitVec.eq_of_getLsbD_eq
  intro i hi
  simp only [BitVec.getLsbD_append, BitVec.getLsbD_setWidth, BitVec.getLsbD_ushiftRight]
  grind

/-- Bytes outside the word stay. -/
theorem ram_storeWord_of_ne (ha : a.toNat + 4 ≤ 2 ^ 32) {x : Word}
    (hx : x.toNat < a.toNat ∨ a.toNat + 4 ≤ x.toNat) (w : Word) :
    (s.storeWord a w).ram x = s.ram x := by
  have hne : ∀ i : Word, i.toNat < 4 → x ≠ a + i := by
    intro i hi heq
    have hnat := congrArg BitVec.toNat heq
    rw [BitVec.toNat_add, Nat.mod_eq_of_lt (by omega)] at hnat
    omega
  have hzero := hne 0#32 (by decide)
  rw [BitVec.add_zero] at hzero
  simp only [storeWord, hzero, hne 1#32 (by decide), hne 2#32 (by decide), hne 3#32 (by decide),
    if_false]

/-- Words that do not overlap. -/
theorem loadWord_storeWord_of_ne (h : a.toNat + 4 ≤ b.toNat ∨ b.toNat + 4 ≤ a.toNat)
    (ha : a.toNat + 4 ≤ 2 ^ 32) (hb : b.toNat + 4 ≤ 2 ^ 32) (w : Word) :
    (s.storeWord a w).loadWord b = s.loadWord b := by
  have hbyte : ∀ i : Word, i.toNat < 4 → (s.storeWord a w).ram (b + i) = s.ram (b + i) := by
    intro i hi
    apply ram_storeWord_of_ne ha
    rw [BitVec.toNat_add, Nat.mod_eq_of_lt (by omega)]
    omega
  have hzero := hbyte 0#32 (by decide)
  rw [BitVec.add_zero] at hzero
  rw [loadWord, loadWord, hzero, hbyte 1#32 (by decide), hbyte 2#32 (by decide),
    hbyte 3#32 (by decide)]

end KState

/-! ## Blocks -/

/-- The ranges do not overlap. -/
def Memory.Apart (m m' : Memory) : Prop :=
  m.base.toNat + m.size.toNat ≤ m'.base.toNat ∨ m'.base.toNat + m'.size.toNat ≤ m.base.toNat

theorem Memory.Apart.symm {m m' : Memory} (h : m.Apart m') : m'.Apart m := Or.symm h

/-- The address lies in the range. -/
def Memory.Covers (m : Memory) (a : Word) : Prop :=
  m.base.toNat ≤ a.toNat ∧ a.toNat < m.base.toNat + m.size.toNat

theorem Memory.Apart.of_within {m m₁ m₂ : Memory} (h : m.Apart m₂) (hin : m₁.Within m₂) :
    m.Apart m₁ := by
  obtain ⟨hlow, hhigh⟩ := hin
  rcases h with h | h
  · exact .inl (h.trans hlow)
  · exact .inr (hhigh.trans h)

theorem Memory.Within.covers {m m' : Memory} (h : m.Within m') {a : Word} (ha : m.Covers a) :
    m'.Covers a :=
  ⟨h.1.trans ha.1, ha.2.trans_le h.2⟩

theorem Memory.Apart.not_covers {m m' : Memory} (h : m.Apart m') {a : Word} (ha : m.Covers a) :
    ¬m'.Covers a := by
  rintro ⟨hlow, hhigh⟩
  obtain ⟨hlow', hhigh'⟩ := ha
  rcases h with h | h <;> omega

namespace System

/-- Entry `oti` holds a whole Memory of the size that list `l` is for. -/
structure State.Block (σ : State) (l : Nat) (oti : Word) : Prop where
  inTable : oti.toNat < σ.kernel.count
  kind : σ.kernel.kind oti.toNat = .memory
  size : (σ.kernel.memory oti.toNat).size.toNat = 2 ^ (l + 1)
  natural : Memory.NaturallyMappable (σ.kernel.memory oti.toNat).base (σ.kernel.memory oti.toNat).size
  noWrap : (σ.kernel.memory oti.toNat).base.toNat + (σ.kernel.memory oti.toNat).size.toNat < 2 ^ 32
  attributes : ∃ a, (σ.kernel.memory oti.toNat).attributes =
    Memory.initAttributes (σ.kernel.memory oti.toNat).base (σ.kernel.memory oti.toNat).size a
  root : (σ.kernel.memory oti.toNat).parent = none
  leaf : (σ.kernel.memory oti.toNat).childCount = 0#32

/-- The link in the first word of a block. -/
def State.nextFree (σ : State) (oti : Word) : Word :=
  σ.kernel.loadWord (σ.kernel.memory oti.toNat).base

/-- The free lists: what each root leads to. -/
structure State.FreeLists (σ : State) (lists : Nat → List Word) : Prop where
  table : σ.HasTable
  null : σ.kernel.kind 0 = .null
  linked : ∀ l < memRootsCount, Links.Follows σ.nextFree (σ.memRoots l) (lists l) 0#32
  block : ∀ l, ∀ oti ∈ lists l, σ.Block l oti
  apart : ∀ l l' oti oti', oti ∈ lists l → oti' ∈ lists l' → oti ≠ oti' →
    (σ.kernel.memory oti.toNat).Apart (σ.kernel.memory oti'.toNat)

/-- A block that is on no list. -/
structure State.Loose (σ : State) (lists : Nat → List Word) (l : Nat) (oti : Word) : Prop where
  block : σ.Block l oti
  apart : ∀ l', ∀ oti' ∈ lists l', oti' ≠ oti ∧
    (σ.kernel.memory oti.toNat).Apart (σ.kernel.memory oti'.toNat)

/-- The free blocks afterwards are pieces of the free blocks before, and nothing has changed
outside of them but Slots. -/
structure State.Carves (σ : State) (lists : Nat → List Word) (σ' : State)
    (lists' : Nat → List Word) : Prop where
  ot : σ'.ot = σ.ot
  count : σ'.kernel.count = σ.kernel.count
  within : ∀ l', ∀ oti' ∈ lists' l', ∃ l, ∃ oti ∈ lists l,
    (σ'.kernel.memory oti'.toNat).Within (σ.kernel.memory oti.toNat)
  entries : ∀ l', ∀ oti' ∈ lists' l', (∃ l, oti' ∈ lists l) ∨ σ.kernel.kind oti'.toNat = .slot
  elsewhere : ∀ e, (∀ l, ∀ oti ∈ lists l, e ≠ oti.toNat) → σ.kernel.kind e ≠ .slot → σ.SameEntry σ' e
  bytes : ∀ a, (∀ l, ∀ oti ∈ lists l, ¬(σ.kernel.memory oti.toNat).Covers a) →
    σ'.kernel.ram a = σ.kernel.ram a

/-- Number of free bytes. -/
def bytes (lists : Nat → List Word) : Nat :=
  ∑ l ∈ Finset.range memRootsCount, (lists l).length * 2 ^ (l + 1)

section

variable {σ σ' : State} {lists lists' : Nat → List Word} {l : Nat} {oti : Word} {rest : List Word}

theorem State.Block.four_le (h : σ.Block l oti) : 4 ≤ l := by
  have hlarge : 2 ^ 5 ≤ 2 ^ (l + 1) := h.size ▸ h.natural.large
  have := (Nat.pow_le_pow_iff_right (by decide : 1 < 2)).mp hlarge
  omega

theorem State.Block.lt (h : σ.Block l oti) : l < memRootsCount := by
  have hlt : 2 ^ (l + 1) < 2 ^ 32 := h.size ▸ (σ.kernel.memory oti.toNat).size.isLt
  have := (Nat.pow_lt_pow_iff_right (by decide : 1 < 2)).mp hlt
  rw [memRootsCount]
  omega

theorem State.Block.unique {l' : Nat} (h : σ.Block l oti) (h' : σ.Block l' oti) : l = l' := by
  have := Nat.pow_right_injective (le_refl 2) (h.size.symm.trans h'.size)
  omega

/-- There is room for the link. -/
theorem State.Block.room (h : σ.Block l oti) :
    0#32 < (σ.kernel.memory oti.toNat).size / 4#32 := by
  have hlarge := h.natural.large
  rw [BitVec.lt_def, BitVec.toNat_udiv]
  show 0 < _ / 4
  omega

theorem State.Block.of_sameEntry (h : σ.Block l oti) (hcount : σ'.kernel.count = σ.kernel.count)
    (hsame : σ.SameEntry σ' oti.toNat) : σ'.Block l oti := by
  constructor
  · rw [hcount]
    exact h.inTable
  · rw [hsame.kind]
    exact h.kind
  all_goals rw [hsame.memory]
  · exact h.size
  · exact h.natural
  · exact h.noWrap
  · exact h.attributes
  · exact h.root
  · exact h.leaf

theorem State.Block.of_sameTables (hsame : σ.SameTables σ') (h : σ.Block l oti) : σ'.Block l oti :=
  h.of_sameEntry hsame.count (hsame.sameEntry _)

theorem State.SameEntry.refl (σ : State) (e : TableIndex) : σ.SameEntry σ e := ⟨rfl, rfl, rfl⟩

theorem State.SameEntry.trans {σ₁ σ₂ σ₃ : State} {e : TableIndex} (h : σ₁.SameEntry σ₂ e)
    (h' : σ₂.SameEntry σ₃ e) : σ₁.SameEntry σ₃ e :=
  ⟨h'.kind.trans h.kind, h'.generation.trans h.generation, h'.memory.trans h.memory⟩

namespace State.Carves

variable {σ'' : State} {lists'' : Nat → List Word}

theorem refl (σ : State) (lists : Nat → List Word) : σ.Carves lists σ lists where
  ot := rfl
  count := rfl
  within l oti hmem := ⟨l, oti, hmem, .refl _⟩
  entries l _ hmem := .inl ⟨l, hmem⟩
  elsewhere e _ _ := .refl σ e
  bytes _ _ := rfl

theorem trans (h : σ.Carves lists σ' lists') (h' : σ'.Carves lists' σ'' lists'') :
    σ.Carves lists σ'' lists'' := by
  -- What the first step leaves alone is not among the pieces.
  have hentry : ∀ e, (∀ l, ∀ oti ∈ lists l, e ≠ oti.toNat) → σ.kernel.kind e ≠ .slot →
      (∀ l, ∀ oti ∈ lists' l, e ≠ oti.toNat) ∧ σ'.kernel.kind e ≠ .slot := by
    intro e hout hslot
    rw [(h.elsewhere e hout hslot).kind]
    refine ⟨?_, hslot⟩
    rintro l oti' hmem rfl
    obtain ⟨l₀, hmem₀⟩ | hslot' := h.entries l oti' hmem
    · exact hout l₀ oti' hmem₀ rfl
    · exact hslot hslot'
  constructor
  · exact h'.ot.trans h.ot
  · exact h'.count.trans h.count
  · intro l'' oti'' hmem''
    obtain ⟨l', oti', hmem', hin'⟩ := h'.within l'' oti'' hmem''
    obtain ⟨l, oti, hmem, hin⟩ := h.within l' oti' hmem'
    exact ⟨l, oti, hmem, hin'.trans hin⟩
  · intro l'' oti'' hmem''
    obtain ⟨l', hmem'⟩ | hslot' := h'.entries l'' oti'' hmem''
    · exact h.entries l' oti'' hmem'
    · by_contra hnone
      push Not at hnone
      apply (hentry oti''.toNat _ hnone.2).2 hslot'
      intro l oti hmem heq
      exact hnone.1 l (BitVec.eq_of_toNat_eq heq ▸ hmem)
  · intro e hout hslot
    obtain ⟨hout', hslot'⟩ := hentry e hout hslot
    exact (h.elsewhere e hout hslot).trans (h'.elsewhere e hout' hslot')
  · intro a hout
    rw [h'.bytes a, h.bytes a hout]
    intro l' oti' hmem' hcovers
    obtain ⟨l, oti, hmem, hin⟩ := h.within l' oti' hmem'
    exact hout l oti hmem (hin.covers hcovers)

end State.Carves

/-- Keys to a block reach all of it. -/
theorem State.Block.hasBlock (h : σ.Block l oti) (brand : Brand) :
    σ.HasBlock (σ.kernel.filled oti.toNat brand) (σ.kernel.memory oti.toNat).base
      (σ.kernel.memory oti.toNat).size := by
  refine ⟨isLive_filled _ _ _, ?_, ?_, ?_⟩
  all_goals rw [target_filled]
  exact h.kind

theorem State.Loose.of_sameTables (hsame : σ.SameTables σ') (h : σ.Loose lists l oti) :
    σ'.Loose lists l oti := by
  refine ⟨h.block.of_sameTables hsame, ?_⟩
  rw [hsame.memory]
  exact h.apart

namespace State.FreeLists

/-- Null is on no list. -/
theorem zero_notMem (h : σ.FreeLists lists) (l : Nat) : 0#32 ∉ lists l := by
  intro hmem
  have hkind := (h.block l _ hmem).kind
  rw [show (0#32 : Word).toNat = 0 from rfl, h.null] at hkind
  contradiction

theorem nodup (h : σ.FreeLists lists) (hl : l < memRootsCount) : (lists l).Nodup :=
  (h.linked l hl).nodup (h.zero_notMem l)

/-- The state determines the lists. -/
theorem unique (h : σ.FreeLists lists) (h' : σ.FreeLists lists') : lists = lists' := by
  refine funext fun l => ?_
  by_cases hl : l < memRootsCount
  · exact (h.linked l hl).unique (h'.linked l hl) (h.zero_notMem l) (h'.zero_notMem l)
  · have hempty : ∀ {lists}, σ.FreeLists lists → lists l = [] := fun h =>
      List.eq_nil_iff_forall_not_mem.mpr fun oti hmem => hl (h.block l oti hmem).lt
    rw [hempty h, hempty h']

/-- Changes elsewhere do not matter. -/
theorem of_sameEntries (h : σ.FreeLists lists) (hot : σ'.ot = σ.ot)
    (hcount : σ'.kernel.count = σ.kernel.count) (hroots : σ'.memRoots = σ.memRoots)
    (htable : σ.SameEntry σ' (σ.kernel.target σ.ot)) (hnull : σ.SameEntry σ' 0)
    (hentries : ∀ l, ∀ oti ∈ lists l, σ.SameEntry σ' oti.toNat)
    (hlinks : ∀ l, ∀ oti ∈ lists l, σ'.nextFree oti = σ.nextFree oti) : σ'.FreeLists lists where
  table := h.table.of_sameEntry hot htable
  null := by rw [hnull.kind, h.null]
  linked l hl := by
    rw [hroots]
    exact (h.linked l hl).congr (hlinks l)
  block l oti hmem := (h.block l oti hmem).of_sameEntry hcount (hentries l oti hmem)
  apart l l' oti oti' hmem hmem' hne := by
    rw [(hentries l oti hmem).memory, (hentries l' oti' hmem').memory]
    exact h.apart l l' oti oti' hmem hmem' hne

theorem of_sameTables (h : σ.FreeLists lists) (hsame : σ.SameTables σ')
    (hroots : σ'.memRoots = σ.memRoots)
    (hlinks : ∀ l, ∀ oti ∈ lists l, σ'.nextFree oti = σ.nextFree oti) : σ'.FreeLists lists :=
  h.of_sameEntries hsame.ot hsame.count hroots (hsame.sameEntry _) (hsame.sameEntry _)
    (fun _ _ _ => hsame.sameEntry _) hlinks

theorem memRoots_eq (h : σ.FreeLists lists) (hl : l < memRootsCount) :
    σ.memRoots l = (lists l).headD 0#32 :=
  (h.linked l hl).start_eq

theorem memRoots_eq_zero_iff (h : σ.FreeLists lists) (hl : l < memRootsCount) :
    σ.memRoots l = 0#32 ↔ lists l = [] := by
  rw [h.memRoots_eq hl]
  cases hlist : lists l with
  | nil => simp
  | cons oti rest =>
    have hne : oti ≠ 0#32 := by
      rintro rfl
      exact h.zero_notMem l (by simp [hlist])
    simp [hne]

theorem hasHead (h : σ.FreeLists lists) (hl : l < memRootsCount) (hlist : lists l = oti :: rest) :
    σ.HasHead l := by
  have hroot : σ.memRoots l = oti := by
    rw [h.memRoots_eq hl, hlist]
    rfl
  have hblock := h.block l oti (by simp [hlist])
  constructor
  · exact h.table
  all_goals rw [hroot]
  · exact hblock.inTable
  · exact hblock.kind
  · exact hblock.room

/-! ### Lists change -/

/-- A link that is written to a block does not reach the blocks apart from it. -/
theorem nextFree_poked_of_apart {l' : Nat} {oti' : Word} (hblock : σ.Block l oti)
    (hblock' : σ.Block l' oti')
    (hapart : (σ.kernel.memory oti.toNat).Apart (σ.kernel.memory oti'.toNat)) (k : Key) (w : Word) :
    (σ.poked k (σ.kernel.memory oti.toNat).base w).nextFree oti' = σ.nextFree oti' := by
  have hlarge := hblock.natural.large
  have hlarge' := hblock'.natural.large
  have hwrap := hblock.noWrap
  have hwrap' := hblock'.noWrap
  have hload : ((σ.consulted k).kernel.storeWord (σ.kernel.memory oti.toNat).base w).loadWord
      (σ.kernel.memory oti'.toNat).base =
        (σ.consulted k).kernel.loadWord (σ.kernel.memory oti'.toNat).base := by
    apply loadWord_storeWord_of_ne
    · rcases hapart with h | h <;> omega
    · omega
    · omega
  exact hload

theorem nextFree_poked (σ : State) (oti : Word) (k : Key) (w : Word) :
    (σ.poked k (σ.kernel.memory oti.toNat).base w).nextFree oti = w :=
  loadWord_storeWord _ _ _

/-- Nothing but the block is written. -/
theorem ram_poked (hblock : σ.Block l oti) (k : Key) (w : Word) {a : Word}
    (ha : ¬(σ.kernel.memory oti.toNat).Covers a) :
    (σ.poked k (σ.kernel.memory oti.toNat).base w).kernel.ram a = σ.kernel.ram a := by
  have hlarge := hblock.natural.large
  have hwrap := hblock.noWrap
  rw [Memory.Covers] at ha
  have hstore : ((σ.consulted k).kernel.storeWord (σ.kernel.memory oti.toNat).base w).ram a =
      (σ.consulted k).kernel.ram a := by
    apply ram_storeWord_of_ne
    · omega
    · omega
  exact hstore

/-- The first word of a block on no list can be written. -/
theorem poked (h : σ.FreeLists lists) (hloose : σ.Loose lists l oti) (k : Key) (w : Word) :
    (σ.poked k (σ.kernel.memory oti.toNat).base w).FreeLists lists := by
  apply h.of_sameTables (State.sameTables_poked _ _ _ _) rfl
  intro l' oti' hmem
  exact nextFree_poked_of_apart hloose.block (h.block l' oti' hmem) (hloose.apart l' oti' hmem).2 k w

theorem mem_update {xs : List Word} {l' : Nat} {x : Word} :
    x ∈ Function.update lists l xs l' ↔ (l' = l ∧ x ∈ xs) ∨ (l' ≠ l ∧ x ∈ lists l') := by
  by_cases hl : l' = l
  · subst hl
    simp
  · simp [hl]

/-- The root moves on to the second block. -/
theorem pop (h : σ.FreeLists lists) (hl : l < memRootsCount) (hlist : lists l = oti :: rest) :
    (σ.setRoot l (σ.nextFree oti)).FreeLists (Function.update lists l rest) ∧
      (σ.setRoot l (σ.nextFree oti)).Loose (Function.update lists l rest) l oti := by
  have hmem : ∀ l' oti', oti' ∈ Function.update lists l rest l' → oti' ∈ lists l' := by
    intro l' oti' hin
    obtain ⟨rfl, hrest⟩ | ⟨-, hother⟩ := mem_update.mp hin
    · rw [hlist]
      exact List.mem_cons_of_mem oti hrest
    · exact hother
  have hhead : oti ∈ lists l := by simp [hlist]
  have hnodup := h.nodup hl
  rw [hlist, List.nodup_cons] at hnodup
  have hsame := σ.sameTables_setRoot l (σ.nextFree oti)
  refine ⟨⟨hsame.hasTable h.table, h.null, ?_, ?_, ?_⟩, ⟨(h.block l oti hhead).of_sameTables hsame, ?_⟩⟩
  · intro l' hl'
    have hlinked := h.linked l' hl'
    by_cases heq : l' = l
    · subst heq
      rw [hlist] at hlinked
      show Links.Follows σ.nextFree (Function.update σ.memRoots l' (σ.nextFree oti) l') _ _
      rw [Function.update_self, Function.update_self]
      exact hlinked.2
    · show Links.Follows σ.nextFree (Function.update σ.memRoots l (σ.nextFree oti) l') _ _
      rw [Function.update_of_ne heq, Function.update_of_ne heq]
      exact hlinked
  · intro l' oti' hin
    exact (h.block l' oti' (hmem l' oti' hin)).of_sameTables hsame
  · intro l₁ l₂ oti₁ oti₂ h₁ h₂
    exact h.apart l₁ l₂ oti₁ oti₂ (hmem l₁ oti₁ h₁) (hmem l₂ oti₂ h₂)
  · -- The first block is on no other list, and once on its own.
    intro l' oti' hin
    have hne : oti' ≠ oti := by
      rintro rfl
      obtain ⟨rfl, hrest⟩ | ⟨hother, hin'⟩ := mem_update.mp hin
      · exact hnodup.1 hrest
      · exact hother ((h.block l' oti' hin').unique (h.block l oti' hhead))
    exact ⟨hne, h.apart l l' oti oti' hhead (hmem l' oti' hin) hne.symm⟩

/-- A block on no list becomes the first of its list. -/
theorem push (h : σ.FreeLists lists) (hloose : σ.Loose lists l oti)
    (hlink : σ.nextFree oti = σ.memRoots l) :
    (σ.setRoot l oti).FreeLists (Function.update lists l (oti :: lists l)) := by
  have hmem : ∀ l' oti', oti' ∈ Function.update lists l (oti :: lists l) l' →
      (l' = l ∧ oti' = oti) ∨ oti' ∈ lists l' := by
    intro l' oti' hin
    obtain ⟨rfl, hfirst⟩ | ⟨-, hother⟩ := mem_update.mp hin
    · obtain rfl | hrest := List.mem_cons.mp hfirst
      · exact .inl ⟨rfl, rfl⟩
      · exact .inr hrest
    · exact .inr hother
  have hsame := σ.sameTables_setRoot l oti
  refine ⟨hsame.hasTable h.table, h.null, ?_, ?_, ?_⟩
  · intro l' hl'
    have hlinked := h.linked l' hl'
    by_cases heq : l' = l
    · subst heq
      show Links.Follows σ.nextFree (Function.update σ.memRoots l' oti l') _ _
      rw [Function.update_self, Function.update_self]
      refine ⟨rfl, ?_⟩
      rw [hlink]
      exact hlinked
    · show Links.Follows σ.nextFree (Function.update σ.memRoots l oti l') _ _
      rw [Function.update_of_ne heq, Function.update_of_ne heq]
      exact hlinked
  · intro l' oti' hin
    obtain ⟨rfl, rfl⟩ | hother := hmem l' oti' hin
    · exact hloose.block.of_sameTables hsame
    · exact (h.block l' oti' hother).of_sameTables hsame
  · intro l₁ l₂ oti₁ oti₂ h₁ h₂ hne
    obtain ⟨rfl, rfl⟩ | hin₁ := hmem l₁ oti₁ h₁
    · obtain ⟨rfl, rfl⟩ | hin₂ := hmem l₂ oti₂ h₂
      · exact (hne rfl).elim
      · exact (hloose.apart l₂ oti₂ hin₂).2
    · obtain ⟨rfl, rfl⟩ | hin₂ := hmem l₂ oti₂ h₂
      · exact (hloose.apart l₁ oti₁ hin₁).2.symm
      · exact h.apart l₁ l₂ oti₁ oti₂ hin₁ hin₂ hne

/-- Two blocks become the first of their list at once. -/
theorem push_two (h : σ.FreeLists lists) {top : Word} (hbottom : σ.Loose lists l oti)
    (htop : σ.Loose lists l top) (hne : oti ≠ top)
    (hapart : (σ.kernel.memory oti.toNat).Apart (σ.kernel.memory top.toNat))
    (hlinkTop : σ.nextFree top = σ.memRoots l) (hlinkBottom : σ.nextFree oti = top) :
    (σ.setRoot l oti).FreeLists (Function.update lists l (oti :: top :: lists l)) := by
  have hfirst := h.push htop hlinkTop
  have hsame := σ.sameTables_setRoot l top
  have hloose : (σ.setRoot l top).Loose (Function.update lists l (top :: lists l)) l oti := by
    refine ⟨hbottom.block.of_sameTables hsame, fun l' oti' hin => ?_⟩
    obtain ⟨rfl, hhead⟩ | ⟨-, hother⟩ := mem_update.mp hin
    · obtain rfl | hrest := List.mem_cons.mp hhead
      · exact ⟨hne.symm, hapart⟩
      · exact hbottom.apart l' oti' hrest
    · exact hbottom.apart l' oti' hother
  have hroot : (σ.setRoot l top).memRoots l = top := Function.update_self _ _ _
  have hsecond := hfirst.push hloose (hlinkBottom.trans hroot.symm)
  have hstate : (σ.setRoot l top).setRoot l oti = σ.setRoot l oti := by
    simp [State.setRoot]
  rw [hstate, Function.update_self, Function.update_idem] at hsecond
  exact hsecond

/-- The first block of a list is taken. -/
theorem take (h : σ.FreeLists lists) (hl : l < memRootsCount) (hlist : lists l = oti :: rest)
    (brand : Brand) :
    (σ.taken l brand).FreeLists (Function.update lists l rest) ∧
      (σ.taken l brand).Loose (Function.update lists l rest) l oti := by
  have hroot : σ.memRoots l = oti := by
    rw [h.memRoots_eq hl, hlist]
    rfl
  let σ₁ := (σ.minted oti brand).consulted (σ.kernel.filled oti.toNat brand)
  have h₁ : σ₁.FreeLists lists :=
    h.of_sameTables ((σ.sameTables_minted oti brand).trans (State.sameTables_consulted _ _)) rfl
      fun _ _ _ => rfl
  obtain ⟨h₂, hloose⟩ := h₁.pop hl hlist
  have htaken : σ.taken l brand = (σ₁.setRoot l (σ₁.nextFree oti)).poked
      (σ.kernel.filled oti.toNat brand) (σ.kernel.memory oti.toNat).base 0#32 := by
    rw [State.taken, hroot]
    rfl
  rw [htaken]
  exact ⟨h₂.poked hloose _ _, hloose.of_sameTables (State.sameTables_poked _ _ _ _)⟩

theorem ram_taken (h : σ.FreeLists lists) (hl : l < memRootsCount) (hlist : lists l = oti :: rest)
    (brand : Brand) {a : Word} (ha : ¬(σ.kernel.memory oti.toNat).Covers a) :
    (σ.taken l brand).kernel.ram a = σ.kernel.ram a := by
  have hroot : σ.memRoots l = oti := by
    rw [h.memRoots_eq hl, hlist]
    rfl
  have htaken : (σ.taken l brand).kernel.ram =
      (σ.poked (σ.kernel.filled oti.toNat brand) (σ.kernel.memory oti.toNat).base 0#32).kernel.ram := by
    rw [State.taken, hroot]
    rfl
  rw [htaken]
  exact ram_poked (h.block l oti (by simp [hlist])) _ _ ha

/-- What is left after a block is taken. -/
theorem carves_take (h : σ.FreeLists lists) (hl : l < memRootsCount) (hlist : lists l = oti :: rest)
    (brand : Brand) : σ.Carves lists (σ.taken l brand) (Function.update lists l rest) := by
  have hmem : ∀ l' oti', oti' ∈ Function.update lists l rest l' → oti' ∈ lists l' := by
    intro l' oti' hin
    obtain ⟨rfl, hrest⟩ | ⟨-, hother⟩ := mem_update.mp hin
    · rw [hlist]
      exact List.mem_cons_of_mem oti hrest
    · exact hother
  have hsame := σ.sameTables_taken l brand
  constructor
  · exact hsame.ot
  · exact hsame.count
  · intro l' oti' hin
    refine ⟨l', oti', hmem l' oti' hin, ?_⟩
    rw [hsame.memory]
    exact .refl _
  · intro l' oti' hin
    exact .inl ⟨l', hmem l' oti' hin⟩
  · intro e _ _
    exact hsame.sameEntry e
  · intro a hout
    exact h.ram_taken hl hlist brand (hout l oti (by simp [hlist]))

end State.FreeLists

end

end System

end BrittleKernel
