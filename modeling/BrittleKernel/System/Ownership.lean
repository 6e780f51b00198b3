import BrittleKernel.System.Exhaustion
import BrittleKernel.System.Bounds

/-!
# Free Blocks and Blocks Handed Out

What the allocator promises to those it gives memory to: a block is free or handed out, never
both, and no two blocks overlap, after any sequence of requests and returns.
-/

namespace BrittleKernel.System

open Hoare KState Links

/-! ## Requests -/

section

variable {build : Build} {σ σ' : State} {lists lists' : Nat → List Word} {target l : Nat} {oti : Word}
  {rest : List Word}

theorem splitDown_carves (n : Nat) (h : σ.FreeLists lists) (htarget : 4 ≤ target)
    (hlist : lists (target + n) ≠ []) :
    wp (splitDown build target n)
      (fun r σ' => ∃ lists', σ'.FreeLists lists' ∧ σ.Carves lists σ' lists' ∧
        (r = true → lists' target ≠ []))
      (fun _ _ => True) σ := by
  induction n generalizing σ lists with
  | zero => exact ⟨lists, h, .refl σ lists, fun _ => hlist⟩
  | succ n ih =>
    obtain ⟨oti, rest, hcons⟩ := List.exists_cons_of_ne_nil hlist
    have hlt := (h.block (target + (n + 1)) oti (by simp [hcons])).lt
    rw [splitDown, wp_bind]
    apply wp_splitOnce h hcons (by omega)
    · -- Without a slot the block stays off its list.
      intro _
      refine ⟨_, (h.take hlt hcons 0#64).1, h.carves_take hlt hcons 0#64, ?_⟩
      intro hfalse
      contradiction
    · intro _ _ σ₁ hsplit
      have hnext : Function.update (Function.update lists (target + (n + 1)) rest)
          (target + (n + 1) - 1) (oti :: σ.slotIndex build 0 :: lists (target + (n + 1) - 1))
            (target + n) ≠ [] := by
        rw [show target + (n + 1) - 1 = target + n by omega, Function.update_self]
        simp
      apply wp_mono (ih hsplit.free hnext) _ fun _ _ _ => trivial
      rintro r σ₂ ⟨lists', hfree, hcarves, harrives⟩
      exact ⟨lists', hfree, hsplit.carves.trans hcarves, harrives⟩
    · intro _ _ _ _
      trivial

/-- A block that was cut out of the free ones, and the key to it. -/
structure State.Granted (σ : State) (lists : Nat → List Word) (σ' : State)
    (lists' : Nat → List Word) (target : Nat) (brand : Brand) (k : Key) (oti : Word) : Prop where
  key : k = σ'.kernel.filled oti.toNat brand
  loose : σ'.Loose lists' target oti
  wasFree : ∃ l, ∃ oti' ∈ lists l,
    (σ'.kernel.memory oti.toNat).Within (σ.kernel.memory oti'.toNat)
  entry : (∃ l, oti ∈ lists l) ∨ σ.kernel.kind oti.toNat = .slot

theorem wp_allocMem (h : σ.FreeLists lists) (target : Word) (brand : Brand) :
    wp (allocMem build target brand)
      (fun r σ' => ∃ lists', σ'.FreeLists lists' ∧ σ.Carves lists σ' lists' ∧
        ∀ k, r = some k → ∃ oti, σ.Granted lists σ' lists' target.toNat brand k oti)
      (fun _ _ => True) σ := by
  have hnothing : ∃ lists', σ.FreeLists lists' ∧ σ.Carves lists σ lists' ∧
      ∀ k, (none : Option Key) = some k →
        ∃ oti, σ.Granted lists σ lists' target.toNat brand k oti :=
    ⟨lists, h, .refl σ lists, fun k hk => by contradiction⟩
  simp only [allocMem, wp_bind, wp_ite, wp_pure, wp_get]
  refine ⟨fun _ => hnothing, fun hlarge => ?_⟩
  have hlarge' : 4 ≤ target.toNat := BitVec.not_lt.mp hlarge
  cases hfind : findRoot σ.memRoots target.toNat with
  | none => exact hnothing
  | some l =>
    obtain ⟨hlow, hlt, hroot⟩ := findRoot_some hfind
    have hlist : lists (target.toNat + (l - target.toNat)) ≠ [] := by
      rw [Nat.add_sub_cancel' hlow]
      exact fun hnil => hroot ((h.memRoots_eq_zero_iff hlt).mpr hnil)
    show wp (splitDown _ _ _ >>= _) _ _ _
    rw [wp_bind]
    apply wp_mono (splitDown_carves _ h hlarge' hlist) _ fun _ _ _ => trivial
    rintro r σ₁ ⟨lists₁, h₁, hcarves, harrives⟩
    cases r with
    | false => exact ⟨lists₁, h₁, hcarves, fun k hk => by contradiction⟩
    | true =>
      obtain ⟨oti, rest, hcons⟩ := List.exists_cons_of_ne_nil (harrives rfl)
      have hhead : oti ∈ lists₁ target.toNat := by simp [hcons]
      have hlt₁ := (h₁.block target.toNat oti hhead).lt
      have hroot₁ : σ₁.memRoots target.toNat = oti := by
        rw [h₁.memRoots_eq hlt₁, hcons]
        rfl
      obtain ⟨hfree, hloose⟩ := h₁.take hlt₁ hcons brand
      have hsame := σ₁.sameTables_taken target.toNat brand
      simp only [if_true, wp_bind, wp_memTake (h₁.hasHead hlt₁ hcons), wp_pure, hroot₁]
      refine ⟨_, hfree, hcarves.trans (h₁.carves_take hlt₁ hcons brand), ?_⟩
      intro k hk
      refine ⟨oti, ?_, hloose, ?_, hcarves.entries _ oti hhead⟩
      · rw [← Option.some.inj hk, KState.filled, KState.filled, hsame.generation]
      · rw [hsame.memory]
        exact hcarves.within _ oti hhead

end

/-! ## Returns -/

/-- Invalidation of a Memory, for the allocator: keys to its entry are stale from then on. -/
structure State.Revoked (σ σ' : State) (oti : Word) : Prop where
  ot : σ'.ot = σ.ot
  memRoots : σ'.memRoots = σ.memRoots
  slotsUsed : σ'.slotsUsed = σ.slotsUsed
  count : σ'.kernel.count = σ.kernel.count
  kind : σ'.kernel.kind = σ.kernel.kind
  memory : σ'.kernel.memory = σ.kernel.memory
  ram : σ'.kernel.ram = σ.kernel.ram
  generation : σ'.kernel.generation =
    Function.update σ.kernel.generation oti.toNat (σ.kernel.generation oti.toNat + 1#32)

section

variable {build : Build} {σ σ' : State} {lists : Nat → List Word} {l : Nat} {oti : Word} {k : Key}

theorem revoked_invalidated (hkind : σ.kernel.kind oti.toNat = .memory) :
    σ.Revoked (σ.over ((σ.requested oti).kernel.invalidated oti.toNat)) oti := by
  have hinvalidated : (σ.requested oti).kernel.invalidated oti.toNat =
      ((σ.requested oti).kernel.loadMpu (σ.requested oti).kernel.current).bump oti.toNat := by
    have hkind' : (σ.requested oti).kernel.kind oti.toNat = .memory := hkind
    rw [KState.invalidated, KState.invalidationHook, hkind']
  rw [hinvalidated]
  exact ⟨rfl, rfl, rfl, rfl, rfl, rfl, rfl, rfl⟩

theorem State.Revoked.sameEntry (h : σ.Revoked σ' oti) {e : TableIndex} (he : e ≠ oti.toNat) :
    σ.SameEntry σ' e :=
  ⟨by rw [h.kind], by rw [h.generation, Function.update_of_ne he], by rw [h.memory]⟩

/-- Generations do not matter to a block. -/
theorem State.Block.congr (h : σ.Block l oti) (hcount : σ'.kernel.count = σ.kernel.count)
    (hkind : σ'.kernel.kind = σ.kernel.kind) (hmemory : σ'.kernel.memory = σ.kernel.memory) :
    σ'.Block l oti := by
  constructor
  · rw [hcount]
    exact h.inTable
  · rw [hkind]
    exact h.kind
  all_goals rw [hmemory]
  · exact h.size
  · exact h.natural
  · exact h.noWrap
  · exact h.attributes
  · exact h.root
  · exact h.leaf

theorem State.Revoked.freeLists (h : σ.Revoked σ' oti) (hfree : σ.FreeLists lists)
    (hloose : σ.Loose lists l oti) : σ'.FreeLists lists := by
  have hother : ∀ e, σ.kernel.kind e ≠ .memory → σ.SameEntry σ' e := by
    intro e he
    apply h.sameEntry
    rintro rfl
    exact he hloose.block.kind
  apply hfree.of_sameEntries h.ot h.count h.memRoots (hother _ (by simp [hfree.table.kind]))
    (hother _ (by simp [hfree.null]))
  · intro l' oti' hmem
    apply h.sameEntry
    intro heq
    exact (hloose.apart l' oti' hmem).1 (BitVec.eq_of_toNat_eq heq)
  · intro l' oti' _
    rw [State.nextFree, State.nextFree, h.memory, KState.loadWord, KState.loadWord, h.ram]

theorem State.Revoked.loose (h : σ.Revoked σ' oti) (hloose : σ.Loose lists l oti) :
    σ'.Loose lists l oti := by
  refine ⟨hloose.block.congr h.count h.kind h.memory, ?_⟩
  rw [h.memory]
  exact hloose.apart

/-- A key to an entry is stale once the entry's generation has moved on. -/
theorem stale_of_generation (hgeneration : σ'.kernel.generation =
      Function.update σ.kernel.generation oti.toNat (σ.kernel.generation oti.toNat + 1#32))
    (hlive : σ.kernel.isLive k = true) (htarget : σ.kernel.target k = oti.toNat) :
    σ'.kernel.isLive k = false := by
  obtain ⟨-, hdead, -⟩ | ⟨hfilled, -⟩ := target_cases σ.kernel k
  · simp [hlive] at hdead
  · rw [htarget] at hfilled
    have hnext : σ.kernel.generation oti.toNat ≠ σ.kernel.generation oti.toNat + 1#32 := by
      intro heq
      have hnat := congrArg BitVec.toNat heq
      rw [BitVec.toNat_add] at hnat
      have := (σ.kernel.generation oti.toNat).isLt
      simp at hnat
      omega
    rw [hfilled]
    simp only [KState.isLive, KState.filled, hgeneration, Function.update_self, beq_eq_false_iff_ne]
    exact hnext

/-- What a block's region says of its size. -/
theorem State.Block.regionSize (h : σ.Block l oti) (brand : Brand) (rbar : Word) :
    (MemRegion.getL2HalfSize ⟨rbar,
      ((σ.kernel.memory oti.toNat).getRegionForBrand brand).rasr⟩).toNat = l := by
  obtain ⟨a, ha⟩ := h.attributes
  have hgeometry := Memory.geometryExact rfl ha
  have hsize := hgeometry.regionSize h.natural brand
  rw [h.size] at hsize
  rw [getL2HalfSize_toNat]
  have := Nat.pow_right_injective (le_refl 2) hsize
  omega

/-- A stale key is refused before anything is changed. -/
theorem freeMem_stale (h : σ.FreeLists lists) (hcount : 0 < σ.kernel.count)
    (hdead : σ.kernel.isLive k = false) : freeMem build k σ = .ok false σ := by
  have htarget : σ.kernel.target k = 0 := by
    rw [KState.target, KState.resolve, hdead]
    rfl
  have hrun : wp (freeMem build k) (fun r σ' => r = false ∧ σ' = σ) never σ := by
    simp only [freeMem, wp_bind, wp_readKey h.table, htarget, wp_getKind h.table]
    have hnull : σ.kernel.kind (BitVec.ofNat 32 0).toNat = .null := h.null
    have hcount' : (BitVec.ofNat 32 0).toNat < σ.kernel.count := hcount
    rw [if_pos hcount', hnull, if_pos (by decide), wp_pure]
    exact ⟨rfl, rfl⟩
  obtain ⟨r, σ', hok, rfl, rfl⟩ := exists_ok hrun
  exact hok

/-- What returning a block leads to. -/
structure State.Freed (σ σ' : State) (lists : Nat → List Word) (l : Nat) (oti : Word) : Prop where
  free : σ'.FreeLists (Function.update lists l (oti :: lists l))
  count : σ'.kernel.count = σ.kernel.count
  kind : σ'.kernel.kind = σ.kernel.kind
  memory : σ'.kernel.memory = σ.kernel.memory
  generation : σ'.kernel.generation =
    Function.update σ.kernel.generation oti.toNat (σ.kernel.generation oti.toNat + 1#32)
  bytes : ∀ a, ¬(σ.kernel.memory oti.toNat).Covers a → σ'.kernel.ram a = σ.kernel.ram a

/-- The part of `free_mem` past the invalidation. -/
theorem wp_enlist (h : σ.FreeLists lists) (hloose : σ.Loose lists l oti) {Q : Bool → State → Prop}
    {E : Stop → State → Prop}
    (hQ : ∀ σ', σ'.FreeLists (Function.update lists l (oti :: lists l)) → σ.SameTables σ' →
      (∀ a, ¬(σ.kernel.memory oti.toNat).Covers a → σ'.kernel.ram a = σ.kernel.ram a) → Q true σ') :
    wp (do
      let kFreed ← mintKey build oti 0#64
      let region ← memoryInspect build kFreed
      let l2HalfSize := region.getL2HalfSize.toNat
      memoryPoke build kFreed 0#32 ((← get).memRoots l2HalfSize)
      setMemRoot l2HalfSize oti
      return true) Q E σ := by
  rw [wp_bind, wp_mintKey h.table, if_pos hloose.block.inTable]
  have hminted := σ.sameTables_minted oti 0#64
  have hfree₁ := h.of_sameTables hminted rfl fun _ _ _ => rfl
  have hloose₁ := hloose.of_sameTables hminted
  have hblock := hloose₁.block.hasBlock 0#64
  have hkey : σ.kernel.filled oti.toNat 0#64 = (σ.minted oti 0#64).kernel.filled oti.toNat 0#64 := rfl
  rw [hkey, wp_bind, wp_memoryInspect hblock.live hblock.kind, target_filled,
    show ((σ.minted oti 0#64).kernel.filled oti.toNat 0#64).brand = 0#64 from rfl,
    hloose₁.block.regionSize]
  have hconsulted := (σ.minted oti 0#64).sameTables_consulted
    ((σ.minted oti 0#64).kernel.filled oti.toNat 0#64)
  have hfree₂ := hfree₁.of_sameTables hconsulted rfl fun _ _ _ => rfl
  have hloose₂ := hloose₁.of_sameTables hconsulted
  have hsame := hminted.trans hconsulted
  have hram : ((σ.minted oti 0#64).consulted
    ((σ.minted oti 0#64).kernel.filled oti.toNat 0#64)).kernel.ram = σ.kernel.ram := rfl
  have hkey₂ : (σ.minted oti 0#64).kernel.filled oti.toNat 0#64 =
    ((σ.minted oti 0#64).consulted
      ((σ.minted oti 0#64).kernel.filled oti.toNat 0#64)).kernel.filled oti.toNat 0#64 := rfl
  rw [wp_bind, wp_get, wp_bind]
  generalize (σ.minted oti 0#64).consulted ((σ.minted oti 0#64).kernel.filled oti.toNat 0#64) = σ₂
    at hfree₂ hloose₂ hsame hram hkey₂ ⊢
  rw [hkey₂]
  apply wp_pokeLink hfree₂ hloose₂
  intro σ₃ h₃
  rw [wp_bind, wp_setMemRoot, wp_pure]
  have hlink : σ₃.nextFree oti = σ₃.memRoots l := by
    rw [h₃.link, h₃.memRoots]
  apply hQ
  · exact h₃.free.push (hloose₂.of_sameTables h₃.same) hlink
  · exact (hsame.trans h₃.same).trans (σ₃.sameTables_setRoot l oti)
  · intro a ha
    show σ₃.kernel.ram a = _
    rw [h₃.bytes a (by rwa [hsame.memory]), hram]

theorem wp_freeMem (h : σ.FreeLists lists) (hloose : σ.Loose lists l oti)
    (htarget : σ.kernel.target k = oti.toNat) {Q : Bool → State → Prop} {E : Stop → State → Prop}
    (hlast : σ.kernel.generation oti.toNat = 0#32 - 1#32 → Q false (σ.requested oti))
    (hfreed : ∀ σ', σ.Freed σ' lists l oti → Q true σ') : wp (freeMem build k) Q E σ := by
  have hoti : BitVec.ofNat 32 oti.toNat = oti := by simp
  simp only [freeMem, wp_bind, wp_readKey h.table, htarget, hoti, wp_getKind h.table,
    if_pos hloose.block.inTable, hloose.block.kind, ne_eq, not_true_eq_false, if_false,
    wp_invalidate h.table hloose.block.inTable hloose.block.kind]
  split
  next hwraps =>
    simp only [Bool.not_false, if_true, wp_pure]
    exact hlast hwraps
  next =>
    simp only [Bool.not_true, Bool.false_eq_true, if_false]
    have hrevoked := revoked_invalidated hloose.block.kind
    generalize σ.over ((σ.requested oti).kernel.invalidated oti.toNat) = σ₁ at hrevoked ⊢
    apply wp_enlist (hrevoked.freeLists h hloose) (hrevoked.loose hloose)
    intro σ' hfree hsame hbytes
    apply hfreed
    constructor
    · exact hfree
    · exact hsame.count.trans hrevoked.count
    · exact hsame.kind.trans hrevoked.kind
    · exact hsame.memory.trans hrevoked.memory
    · exact hsame.generation.trans hrevoked.generation
    · intro a ha
      rw [hbytes a (by rwa [hrevoked.memory]), hrevoked.ram]

end

/-! ## The pool over time -/

/-- Free blocks on the lists, and the entries of the blocks that are handed out or still to be
fed. -/
structure Pool (σ : State) (lists : Nat → List Word) (held : Set Word) : Prop where
  free : σ.FreeLists lists
  entries : 0 < σ.kernel.count
  blocks : ∀ oti ∈ held, ∃ l, σ.Loose lists l oti
  apart : ∀ oti ∈ held, ∀ oti' ∈ held, oti ≠ oti' →
    (σ.kernel.memory oti.toNat).Apart (σ.kernel.memory oti'.toNat)

/-- What others do between two calls: anything but to the allocator's variables, the entries of
Null, the Object Table and the free blocks, and the links in free blocks.  The blocks they hold
then are blocks outside of the free ones. -/
structure State.Meanwhile (σ σ' : State) (lists : Nat → List Word) (held' : Set Word) : Prop where
  ot : σ'.ot = σ.ot
  memRoots : σ'.memRoots = σ.memRoots
  slotsUsed : σ'.slotsUsed = σ.slotsUsed
  count : σ'.kernel.count = σ.kernel.count
  null : σ.SameEntry σ' 0
  table : σ.SameEntry σ' (σ.kernel.target σ.ot)
  entries : ∀ l, ∀ oti ∈ lists l, σ.SameEntry σ' oti.toNat
  links : ∀ l, ∀ oti ∈ lists l, σ'.nextFree oti = σ.nextFree oti
  blocks : ∀ oti ∈ held', (∃ l, σ'.Block l oti) ∧ ∀ l, ∀ oti' ∈ lists l,
    (σ'.kernel.memory oti.toNat).Apart (σ'.kernel.memory oti'.toNat)
  apart : ∀ oti ∈ held', ∀ oti' ∈ held', oti ≠ oti' →
    (σ'.kernel.memory oti.toNat).Apart (σ'.kernel.memory oti'.toNat)

/-- The key is stale, or it is to a block that was handed out. -/
def Returnable (σ : State) (held : Set Word) (k : Key) : Prop :=
  σ.kernel.isLive k = true → ∃ oti ∈ held, σ.kernel.target k = oti.toNat

/-- A call of the allocator that fails no assertion, or what others do. -/
inductive PoolStep (build : Build) : State → Set Word → State → Set Word → Prop where
  | granted {σ σ' : State} {held : Set Word} {target : Word} {brand : Brand} {k : Key} :
      allocMem build target brand σ = .ok (some k) σ' →
      PoolStep build σ held σ' (insert (BitVec.ofNat 32 (σ'.kernel.target k)) held)
  | refused {σ σ' : State} {held : Set Word} {target : Word} {brand : Brand} :
      allocMem build target brand σ = .ok none σ' → PoolStep build σ held σ' held
  | freed {σ σ' : State} {held : Set Word} {k : Key} : Returnable σ held k →
      freeMem build k σ = .ok true σ' →
      PoolStep build σ held σ' (held \ {BitVec.ofNat 32 (σ.kernel.target k)})
  | kept {σ σ' : State} {held : Set Word} {k : Key} : Returnable σ held k →
      freeMem build k σ = .ok false σ' → PoolStep build σ held σ' held
  | others {σ σ' : State} {held held' : Set Word} :
      (∀ lists, σ.FreeLists lists → σ.Meanwhile σ' lists held') → PoolStep build σ held σ' held'

inductive PoolRun (build : Build) (σ₀ : State) (held₀ : Set Word) : State → Set Word → Prop where
  | start : PoolRun build σ₀ held₀ σ₀ held₀
  | step {σ σ' : State} {held held' : Set Word} :
      PoolRun build σ₀ held₀ σ held → PoolStep build σ held σ' held' →
      PoolRun build σ₀ held₀ σ' held'

/-- Nothing is free yet, and there are blocks to feed. -/
structure State.Unfed (σ : State) (held : Set Word) : Prop where
  table : σ.HasTable
  null : σ.kernel.kind 0 = .null
  entries : 0 < σ.kernel.count
  memRoots : ∀ l < memRootsCount, σ.memRoots l = 0#32
  blocks : ∀ oti ∈ held, ∃ l, σ.Block l oti
  apart : ∀ oti ∈ held, ∀ oti' ∈ held, oti ≠ oti' →
    (σ.kernel.memory oti.toNat).Apart (σ.kernel.memory oti'.toNat)

section

variable {build : Build} {σ σ' : State} {lists lists' : Nat → List Word} {held held' : Set Word}
  {l : Nat} {oti : Word} {k : Key}

theorem State.Unfed.pool (h : σ.Unfed held) : Pool σ (fun _ => []) held where
  free := ⟨h.table, h.null, h.memRoots, by simp, by simp⟩
  entries := h.entries
  blocks oti hmem := by
    obtain ⟨l, hblock⟩ := h.blocks oti hmem
    exact ⟨l, hblock, by simp⟩
  apart := h.apart

/-- A block overlaps itself. -/
theorem State.Block.not_apart (h : σ.Block l oti) :
    ¬(σ.kernel.memory oti.toNat).Apart (σ.kernel.memory oti.toNat) := by
  have hlarge := h.natural.large
  rintro (h | h) <;> omega

/-- Blocks that are not free stay what they are, whatever is cut out of the free ones. -/
theorem State.Carves.loose (h : σ.Carves lists σ' lists') (hloose : σ.Loose lists l oti) :
    σ'.Loose lists' l oti ∧ σ.SameEntry σ' oti.toNat := by
  have hsame : σ.SameEntry σ' oti.toNat := by
    apply h.elsewhere
    · intro l' oti' hmem heq
      exact (hloose.apart l' oti' hmem).1 (BitVec.eq_of_toNat_eq heq.symm)
    · rw [hloose.block.kind]
      simp
  have hblock' := hloose.block.of_sameEntry h.count hsame
  refine ⟨⟨hblock', fun l' oti' hmem => ?_⟩, hsame⟩
  obtain ⟨l₀, oti₀, hmem₀, hwithin⟩ := h.within l' oti' hmem
  have hapart : (σ'.kernel.memory oti.toNat).Apart (σ'.kernel.memory oti'.toNat) := by
    rw [hsame.memory]
    exact (hloose.apart l₀ oti₀ hmem₀).2.of_within hwithin
  refine ⟨?_, hapart⟩
  rintro rfl
  exact hblock'.not_apart hapart

theorem Pool.carves (h : Pool σ lists held) (hcarves : σ.Carves lists σ' lists')
    (hfree : σ'.FreeLists lists') : Pool σ' lists' held where
  free := hfree
  entries := by
    rw [hcarves.count]
    exact h.entries
  blocks oti hmem := by
    obtain ⟨l, hloose⟩ := h.blocks oti hmem
    exact ⟨l, (hcarves.loose hloose).1⟩
  apart oti hmem oti' hmem' hne := by
    obtain ⟨l, hloose⟩ := h.blocks oti hmem
    obtain ⟨l', hloose'⟩ := h.blocks oti' hmem'
    rw [(hcarves.loose hloose).2.memory, (hcarves.loose hloose').2.memory]
    exact h.apart oti hmem oti' hmem' hne

/-- A block that was free is no block that was held. -/
theorem Pool.granted {target : Nat} {brand : Brand} (h : Pool σ lists held)
    (hgranted : σ.Granted lists σ' lists' target brand k oti) (hcarves : σ.Carves lists σ' lists')
    (hfree : σ'.FreeLists lists') : oti ∉ held ∧ Pool σ' lists' (insert oti held) := by
  have hpool := h.carves hcarves hfree
  obtain ⟨l₀, oti₀, hmem₀, hwithin⟩ := hgranted.wasFree
  have hapart : ∀ oti' ∈ held, (σ'.kernel.memory oti'.toNat).Apart (σ'.kernel.memory oti.toNat) := by
    intro oti' hmem
    obtain ⟨l, hloose⟩ := h.blocks oti' hmem
    rw [(hcarves.loose hloose).2.memory]
    exact (hloose.apart l₀ oti₀ hmem₀).2.of_within hwithin
  refine ⟨fun hmem => hgranted.loose.block.not_apart (hapart oti hmem), hfree, hpool.entries, ?_, ?_⟩
  · rintro oti' (rfl | hmem)
    · exact ⟨target, hgranted.loose⟩
    · exact hpool.blocks oti' hmem
  · rintro oti₁ (rfl | hmem₁) oti₂ (rfl | hmem₂) hne
    · exact (hne rfl).elim
    · exact (hapart oti₂ hmem₂).symm
    · exact hapart oti₁ hmem₁
    · exact hpool.apart oti₁ hmem₁ oti₂ hmem₂ hne

/-- A block that was held is free. -/
theorem Pool.freed (h : Pool σ lists held) (hmem : oti ∈ held) (hloose : σ.Loose lists l oti)
    (hfreed : σ.Freed σ' lists l oti) :
    Pool σ' (Function.update lists l (oti :: lists l)) (held \ {oti}) := by
  refine ⟨hfreed.free, ?_, ?_, ?_⟩
  · rw [hfreed.count]
    exact h.entries
  · rintro oti' ⟨hmem', hne⟩
    obtain ⟨l', hloose'⟩ := h.blocks oti' hmem'
    refine ⟨l', hloose'.block.congr hfreed.count hfreed.kind hfreed.memory, fun l₁ oti₁ hin => ?_⟩
    rw [hfreed.memory]
    obtain ⟨rfl, hhead⟩ | ⟨-, hother⟩ := State.FreeLists.mem_update.mp hin
    · obtain rfl | hrest := List.mem_cons.mp hhead
      · exact ⟨Ne.symm hne, h.apart oti' hmem' oti₁ hmem hne⟩
      · exact hloose'.apart l₁ oti₁ hrest
    · exact hloose'.apart l₁ oti₁ hother
  · rintro oti₁ ⟨hmem₁, -⟩ oti₂ ⟨hmem₂, -⟩ hne
    rw [hfreed.memory]
    exact h.apart oti₁ hmem₁ oti₂ hmem₂ hne

theorem Pool.of_sameTables (h : Pool σ lists held) (hsame : σ.SameTables σ')
    (hroots : σ'.memRoots = σ.memRoots) (hram : σ'.kernel.ram = σ.kernel.ram) :
    Pool σ' lists held where
  free := h.free.of_sameTables hsame hroots fun l oti _ => by
    rw [State.nextFree, State.nextFree, hsame.memory, KState.loadWord, KState.loadWord, hram]
  entries := by
    rw [hsame.count]
    exact h.entries
  blocks oti hmem := by
    obtain ⟨l, hloose⟩ := h.blocks oti hmem
    exact ⟨l, hloose.of_sameTables hsame⟩
  apart := by
    rw [hsame.memory]
    exact h.apart

theorem Pool.meanwhile (h : Pool σ lists held) (hothers : σ.Meanwhile σ' lists held') :
    Pool σ' lists held' where
  free := h.free.of_sameEntries hothers.ot hothers.count hothers.memRoots hothers.table hothers.null
    hothers.entries hothers.links
  entries := by
    rw [hothers.count]
    exact h.entries
  blocks oti hmem := by
    obtain ⟨⟨l, hblock⟩, hapart⟩ := hothers.blocks oti hmem
    refine ⟨l, hblock, fun l' oti' hmem' => ⟨?_, hapart l' oti' hmem'⟩⟩
    rintro rfl
    exact hblock.not_apart (hapart l' oti' hmem')
  apart := hothers.apart

/-! ### Steps and runs -/

/-- What a call to `alloc_mem` yields. -/
theorem Pool.of_allocMem {target : Word} {brand : Brand} {r : Option Key} (h : Pool σ lists held)
    (hok : allocMem build target brand σ = .ok r σ') :
    ∃ lists', σ'.FreeLists lists' ∧ σ.Carves lists σ' lists' ∧
      ∀ k, r = some k → ∃ oti, σ.Granted lists σ' lists' target.toNat brand k oti :=
  wp_ok (wp_allocMem h.free target brand) hok

/-- What a call to `free_mem` comes to. -/
theorem Pool.of_freeMem {r : Bool} (h : Pool σ lists held) (hk : Returnable σ held k)
    (hok : freeMem build k σ = .ok r σ') :
    r = false ∧ (∃ lists', Pool σ' lists' held) ∨
      r = true ∧ ∃ l oti, oti ∈ held ∧ σ.kernel.isLive k = true ∧ σ.kernel.target k = oti.toNat ∧
        σ.Loose lists l oti ∧ σ.Freed σ' lists l oti := by
  cases hlive : σ.kernel.isLive k with
  | false =>
    rw [freeMem_stale h.free h.entries hlive] at hok
    injection hok with hr hσ
    subst hr hσ
    exact .inl ⟨rfl, lists, h⟩
  | true =>
    obtain ⟨oti, hmem, htarget⟩ := hk hlive
    obtain ⟨l, hloose⟩ := h.blocks oti hmem
    have hrun : wp (freeMem build k) (fun r σ' => r = false ∧ (∃ lists', Pool σ' lists' held) ∨
        r = true ∧ σ.Freed σ' lists l oti) (fun _ _ => True) σ := by
      apply wp_freeMem h.free hloose htarget
      · intro _
        exact .inl ⟨rfl, lists, h.of_sameTables (σ.sameTables_requested oti) rfl rfl⟩
      · intro σ' hfreed
        exact .inr ⟨rfl, hfreed⟩
    obtain hkept | ⟨hr, hfreed⟩ := wp_ok hrun hok
    · exact .inl hkept
    · exact .inr ⟨hr, l, oti, hmem, rfl, htarget, hloose, hfreed⟩

/-- A key to a block that is held is taken back, unless its generation is the last. -/
theorem Pool.freeMem_ok (h : Pool σ lists held) (hmem : oti ∈ held)
    (hgeneration : σ.kernel.generation oti.toNat ≠ 0#32 - 1#32)
    (htarget : σ.kernel.target k = oti.toNat) : ∃ σ', freeMem build k σ = .ok true σ' := by
  obtain ⟨l, hloose⟩ := h.blocks oti hmem
  have hrun : wp (freeMem build k) (fun r _ => r = true) never σ := by
    apply wp_freeMem h.free hloose htarget
    · intro hlast
      contradiction
    · intro _ _
      rfl
  obtain ⟨r, σ', hok, rfl⟩ := exists_ok hrun
  exact ⟨σ', hok⟩

/-- One step keeps the pool. -/
theorem PoolStep.pool (hstep : PoolStep build σ held σ' held') (h : Pool σ lists held) :
    ∃ lists', Pool σ' lists' held' := by
  cases hstep with
  | @granted _ _ _ _ k hok =>
    obtain ⟨lists', hfree, hcarves, hgranted⟩ := h.of_allocMem hok
    obtain ⟨oti, hgrant⟩ := hgranted k rfl
    have htarget : BitVec.ofNat 32 (σ'.kernel.target k) = oti := by
      rw [hgrant.key, target_filled, BitVec.ofNat_toNat, BitVec.setWidth_eq]
    rw [htarget]
    exact ⟨lists', (h.granted hgrant hcarves hfree).2⟩
  | refused hok =>
    obtain ⟨lists', hfree, hcarves, -⟩ := h.of_allocMem hok
    exact ⟨lists', h.carves hcarves hfree⟩
  | freed hk hok =>
    obtain ⟨hfalse, -⟩ | ⟨-, l, oti, hmem, -, htarget, hloose, hfreed⟩ := h.of_freeMem hk hok
    · contradiction
    · rw [htarget, BitVec.ofNat_toNat, BitVec.setWidth_eq]
      exact ⟨_, h.freed hmem hloose hfreed⟩
  | kept hk hok =>
    obtain ⟨-, hkept⟩ | ⟨htrue, -⟩ := h.of_freeMem hk hok
    · exact hkept
    · contradiction
  | others hothers => exact ⟨lists, h.meanwhile (hothers lists h.free)⟩

theorem PoolRun.pool {σ₀ : State} {held₀ : Set Word} (hrun : PoolRun build σ₀ held₀ σ held)
    (h : σ₀.Unfed held₀) : ∃ lists, Pool σ lists held := by
  induction hrun with
  | start => exact ⟨_, h.pool⟩
  | step _ hstep ih =>
    obtain ⟨lists, hpool⟩ := ih
    exact hstep.pool hpool

/-- What the allocator promises in a state of the pool. -/
structure AllocSafe (build : Build) (σ : State) (lists : Nat → List Word) (held : Set Word) : Prop where
  /-- Every list is finite, and no block is on it twice. -/
  finite : ∀ l < memRootsCount, Links.Follows σ.nextFree (σ.memRoots l) (lists l) 0#32 ∧ (lists l).Nodup
  once : ∀ l l' oti, oti ∈ lists l → oti ∈ lists l' → l = l'
  /-- A listed block is a Memory of the list's size. -/
  listed : ∀ l, ∀ oti ∈ lists l, oti.toNat < σ.kernel.count ∧ σ.kernel.kind oti.toNat = .memory ∧
    (σ.kernel.memory oti.toNat).size.toNat = 2 ^ (l + 1)
  /-- Free blocks and blocks handed out do not overlap. -/
  freeApart : ∀ l l' oti oti', oti ∈ lists l → oti' ∈ lists l' → oti ≠ oti' →
    (σ.kernel.memory oti.toNat).Apart (σ.kernel.memory oti'.toNat)
  heldApart : ∀ oti ∈ held, ∀ oti' ∈ held, oti ≠ oti' →
    (σ.kernel.memory oti.toNat).Apart (σ.kernel.memory oti'.toNat)
  bothApart : ∀ oti ∈ held, ∀ l, ∀ oti' ∈ lists l,
    (σ.kernel.memory oti.toNat).Apart (σ.kernel.memory oti'.toNat)
  /-- A key that is handed out has the brand that was asked for, and is to a block of that size
  that was free. -/
  grants : ∀ (target : Word) (brand : Brand) (k : Key) (σ' : State),
    allocMem build target brand σ = .ok (some k) σ' →
      ∃ oti : Word, k = σ'.kernel.filled oti.toNat brand ∧ oti ∉ held ∧
        σ'.kernel.kind oti.toNat = .memory ∧
        (σ'.kernel.memory oti.toNat).size.toNat = 2 ^ (target.toNat + 1) ∧
        ∃ l, ∃ oti' ∈ lists l, (σ'.kernel.memory oti.toNat).Within (σ.kernel.memory oti'.toNat)
  /-- A stale key is refused, and nothing changes; a key that was used to free is stale. -/
  stale : ∀ k : Key, σ.kernel.isLive k = false → freeMem build k σ = .ok false σ
  twice : ∀ (k : Key) (σ' : State), Returnable σ held k → freeMem build k σ = .ok true σ' →
    freeMem build k σ' = .ok false σ'

/-- The allocator is safe after every sequence of calls and of what others do in between. -/
theorem alloc_safe {σ₀ : State} {held₀ : Set Word} (h : σ₀.Unfed held₀)
    (hrun : PoolRun build σ₀ held₀ σ held) : ∃ lists, AllocSafe build σ lists held := by
  obtain ⟨lists, hpool⟩ := hrun.pool h
  refine ⟨lists, ?_⟩
  constructor
  · intro l hl
    exact ⟨hpool.free.linked l hl, hpool.free.nodup hl⟩
  · intro l l' oti hmem hmem'
    exact (hpool.free.block l oti hmem).unique (hpool.free.block l' oti hmem')
  · intro l oti hmem
    have hblock := hpool.free.block l oti hmem
    exact ⟨hblock.inTable, hblock.kind, hblock.size⟩
  · exact hpool.free.apart
  · exact hpool.apart
  · intro oti hmem l oti' hmem'
    obtain ⟨l₀, hloose⟩ := hpool.blocks oti hmem
    exact (hloose.apart l oti' hmem').2
  · intro target brand k σ' hok
    obtain ⟨lists', hfree, hcarves, hgranted⟩ := hpool.of_allocMem hok
    obtain ⟨oti, hgrant⟩ := hgranted k rfl
    have hblock := hgrant.loose.block
    exact ⟨oti, hgrant.key, (hpool.granted hgrant hcarves hfree).1, hblock.kind, hblock.size,
      hgrant.wasFree⟩
  · intro k hdead
    exact freeMem_stale hpool.free hpool.entries hdead
  · intro k σ' hk hok
    obtain ⟨hfalse, -⟩ | ⟨-, l, oti, hmem, hlive, htarget, hloose, hfreed⟩ := hpool.of_freeMem hk hok
    · contradiction
    · have hpool' := hpool.freed hmem hloose hfreed
      exact freeMem_stale hpool'.free hpool'.entries (stale_of_generation hfreed.generation hlive htarget)

end

/-! ### Sample -/

namespace PoolSample

/-- The block of 64 bytes is still to be fed. -/
def unfedState : State := { state 0#32 with memRoots := fun _ => 0#32 }

def blockKey : Key := unfedState.kernel.filled 3 0#64

theorem unfed : unfedState.Unfed {3#32} where
  table := ⟨rfl, rfl⟩
  null := rfl
  entries := by
    show 0 < 20
    decide
  memRoots _ _ := rfl
  blocks := by
    rintro _ rfl
    exact ⟨5, (block 0#32).congr rfl rfl rfl⟩
  apart := by
    rintro _ rfl _ rfl hne
    exact (hne rfl).elim

theorem returnable : Returnable unfedState {3#32} blockKey := fun _ =>
  ⟨3#32, rfl, target_filled _ _ _⟩

end PoolSample

/-- The pool after the block has been fed. -/
theorem alloc_safe_sample : ∃ σ', freeMem PoolSample.build PoolSample.blockKey PoolSample.unfedState =
      .ok true σ' ∧ ∃ lists, AllocSafe PoolSample.build σ' lists
        ({3#32} \ {BitVec.ofNat 32 (PoolSample.unfedState.kernel.target PoolSample.blockKey)}) := by
  obtain ⟨σ', hok⟩ := PoolSample.unfed.pool.freeMem_ok rfl
    (by decide) (target_filled _ _ _)
  exact ⟨σ', hok, alloc_safe PoolSample.unfed (.step .start (.freed PoolSample.returnable hok))⟩

end BrittleKernel.System
