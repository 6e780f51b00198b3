import BrittleKernel.System.Alloc
import BrittleKernel.Weakening

/-!
# What the System's Calls Do

A specification for each wrapper, in terms of the kernel object that serves the call.
-/

namespace BrittleKernel

namespace KState

theorem isLive_filled (s : KState) (e : TableIndex) (b : Brand) : s.isLive (s.filled e b) = true := by
  simp [isLive, filled]

@[simp] theorem target_filled (s : KState) (e : TableIndex) (b : Brand) :
    s.target (s.filled e b) = e := by
  rw [target, resolve, if_pos (s.isLive_filled e b)]
  rfl

end KState

theorem wp_invalidateMemory {cfg : Config} {s : KState} {e : TableIndex} {Q : PUnit → KState → Prop}
    {E : Panic → KState → Prop} (hcfg : cfg.eagerRevocation = false) (hkind : s.kind e = .memory) :
    Hoare.wp (Object.invalidate cfg e) Q E s ↔ Q ⟨⟩ (s.invalidated e) := by
  simp only [Object.invalidate, Hoare.wp_bind, Hoare.wp_get, hkind, wp_applyToMpu,
    wp_advanceGeneration hcfg, KState.invalidated, KState.invalidationHook]

/-- Invalidating a Memory without permission to roll over. -/
theorem wp_doInvalidate {cfg : Config} {s : KState} {m : Message} {Q : ReplySender → KState → Prop}
    {E : Panic → KState → Prop} (hcfg : cfg.eagerRevocation = false) (hd1 : m.d1 = 0#32)
    (hindex : m.d0.toNat < s.count) (hkind : s.kind m.d0.toNat = .memory) :
    Hoare.wp (ObjectTable.doInvalidate cfg m) Q E s ↔
      if s.generation m.d0.toNat = 0#32 - 1#32 then
        Q (.failure .causality) (s.record (.invalidateRequested m.d0 false))
      else Q {} ((s.record (.invalidateRequested m.d0 false)).invalidated m.d0.toNat) := by
  have hbound : ¬(s.record (.invalidateRequested m.d0 false)).count ≤ m.d0.toNat :=
    Nat.not_le.mpr hindex
  have hgeneration : (s.record (.invalidateRequested m.d0 false)).generation = s.generation := rfl
  have hkind' : (s.record (.invalidateRequested m.d0 false)).kind m.d0.toNat = .memory := hkind
  simp only [ObjectTable.doInvalidate, hd1, bne_self_eq_false, Bool.not_false, Bool.true_and,
    Hoare.wp_bind, Hoare.wp_modify, Hoare.wp_get, Hoare.wp_ite, Hoare.wp_pure, ge_iff_le, hbound,
    hgeneration, beq_iff_eq, wp_invalidateMemory hcfg hkind']
  split
  next hlast => simp [hlast]
  next hlast =>
    simp only [hlast]
    simp

namespace System

open Hoare KState

/-! ## Calls -/

/-- The same variables over another kernel state. -/
def State.over (σ : State) (s : KState) : State := { σ with kernel := s }

@[simp] theorem State.kernel_over (σ : State) (s : KState) : (σ.over s).kernel = s := rfl

@[simp] theorem State.ot_over (σ : State) (s : KState) : (σ.over s).ot = σ.ot := rfl

@[simp] theorem State.memRoots_over (σ : State) (s : KState) : (σ.over s).memRoots = σ.memRoots := rfl

@[simp] theorem State.slotsUsed_over (σ : State) (s : KState) :
    (σ.over s).slotsUsed = σ.slotsUsed := rfl

@[simp] theorem State.over_over (σ : State) (s t : KState) : (σ.over s).over t = σ.over t := rfl

@[simp] theorem State.over_kernel (σ : State) : σ.over σ.kernel = σ := rfl

section

variable {build : Build} {σ : State} {k : Key} {m : Message} {keys : Keys} {E : Stop → State → Prop}

@[simp] theorem wp_onKernel {α : Type} {x : K α} {Q : α → State → Prop} :
    wp (onKernel x) Q E σ ↔
      wp x (fun a s => Q a (σ.over s)) (fun p s => E (.panic p) (σ.over s)) σ.kernel := by
  simp only [wp, onKernel]
  cases x σ.kernel <;> rfl

/-- A call through a live key that is not forwarded runs a method of the key's object. -/
theorem wp_call {Q : ReplySender → State → Prop} {kind : Kind} (hlive : σ.kernel.isLive k = true)
    (hkind : σ.kernel.kind (σ.kernel.target k) = kind)
    (hservice : (kind = .gate ∨ kind = .context) → k.brand.isTop = false) :
    wp (call build k m keys) Q E σ ↔
      wp (Object.serve (.source build.etl) (σ.kernel.target k) k.brand m keys kind)
        (fun rs s => Q rs (σ.over s)) (fun p s => E (.panic p) (σ.over s)) σ.kernel := by
  have hresolve : σ.kernel.resolve k = k := by rw [resolve, if_pos hlive]
  have hdirect : ¬((kind = .gate ∨ kind = .context) ∧ k.brand.isTop = true) := by
    rintro ⟨h, htop⟩
    simp [hservice h] at htop
  simp only [call, wp_bind, wp_onKernel, localKeyGet, wp_get, wp_pure, State.kernel_over, hresolve,
    hkind, hdirect, if_false, State.over_kernel]

theorem wp_callAsserting {Q : ReplySender → State → Prop} :
    wp (callAsserting build k m keys) Q E σ ↔
      wp (call build k m keys) (fun rs σ' => (rs.message.desc.getError = true → E (.assertion k m) σ') ∧
        (rs.message.desc.getError = false → Q rs σ')) E σ := by
  simp only [callAsserting, wp_bind, wp_ite, wp_throw, wp_pure, Bool.not_eq_true]

end

theorem getError_failure (x : Exception) (d2 : Word := 0#32) :
    (ReplySender.failure x d2).message.desc.getError = true := by
  show (Descriptor.zero.withError true).getError = true
  decide

@[simp] theorem getError_zero : Descriptor.zero.getError = false := by
  decide

theorem getSelector_request (selector : Selector) (d0 d1 d2 : Word) :
    (request selector d0 d1 d2).desc.getSelector = selector := by
  show (Descriptor.zero.withSelector selector).getSelector = selector
  simp [Descriptor.zero, Descriptor.withSelector, Descriptor.getSelector]

@[simp] theorem d0_request (selector : Selector) (d0 d1 d2 : Word) :
    (request selector d0 d1 d2).d0 = d0 := rfl

@[simp] theorem d1_request (selector : Selector) (d0 d1 d2 : Word) :
    (request selector d0 d1 d2).d1 = d1 := rfl

@[simp] theorem d2_request (selector : Selector) (d0 d1 d2 : Word) :
    (request selector d0 d1 d2).d2 = d2 := rfl

/-! ## Memory -/

/-- The state after a Memory has looked at the brand of a call. -/
def State.consulted (σ : State) (k : Key) : State :=
  σ.over (σ.kernel.record (.consulted (σ.kernel.target k) k.brand))

@[simp] theorem memory_consulted (σ : State) (k : Key) :
    (σ.consulted k).kernel.memory = σ.kernel.memory := rfl

@[simp] theorem loadWord_consulted (σ : State) (k : Key) :
    (σ.consulted k).kernel.loadWord = σ.kernel.loadWord := rfl

@[simp] theorem over_consulted (σ : State) (k : Key) (s : KState) :
    (σ.consulted k).over s = σ.over s := rfl

theorem over_kernel_consulted (σ : State) (k : Key) :
    σ.over (σ.consulted k).kernel = σ.consulted k := rfl

section

variable {build : Build} {σ : State} {k : Key} {E : Stop → State → Prop}

theorem wp_callMemory {Q : ReplySender → State → Prop} {m : Message} {keys : Keys}
    (hlive : σ.kernel.isLive k = true) (hkind : σ.kernel.kind (σ.kernel.target k) = .memory) :
    wp (call build k m keys) Q E σ ↔
      wp (Memory.serve (.source build.etl) (σ.kernel.target k) k.brand m keys)
        (fun rs s => Q rs (σ.over s)) (fun p s => E (.panic p) (σ.over s)) (σ.consulted k).kernel := by
  rw [wp_call hlive hkind (by simp)]
  simp only [Object.serve, wp_bind, wp_modify, State.consulted, State.kernel_over]

theorem wp_memoryPeek {Q : Word → State → Prop} {offset : Word} (hlive : σ.kernel.isLive k = true)
    (hkind : σ.kernel.kind (σ.kernel.target k) = .memory) :
    wp (memoryPeek build k offset) Q E σ ↔
      if offset < (σ.kernel.memory (σ.kernel.target k)).size / 4#32 then
        Q (σ.kernel.loadWord ((σ.kernel.memory (σ.kernel.target k)).base + 4#32 * offset))
          (σ.consulted k)
      else E (.assertion k (request 5#16 offset)) (σ.consulted k) := by
  have hm : MemoryMethod.ofSelector (request 5#16 offset).desc.getSelector = some .peek := by
    rw [getSelector_request]
    rfl
  rw [memoryPeek, wp_bind, wp_callAsserting, wp_callMemory hlive hkind]
  simp only [Memory.serve, hm, Memory.access, wp_bind, wp_get, wp_ite, wp_pure, Bool.false_eq_true,
    ge_iff_le, getError_failure, getError_zero, memory_consulted, loadWord_consulted, d0_request,
    over_kernel_consulted]
  by_cases h : offset < (σ.kernel.memory (σ.kernel.target k)).size / 4#32
  · simp [h, BitVec.not_le.mpr h]
  · simp [h, BitVec.not_lt.mp h]

theorem wp_memoryPoke {Q : Unit → State → Prop} {offset word : Word}
    (hlive : σ.kernel.isLive k = true) (hkind : σ.kernel.kind (σ.kernel.target k) = .memory) :
    wp (memoryPoke build k offset word) Q E σ ↔
      if offset < (σ.kernel.memory (σ.kernel.target k)).size / 4#32 then
        Q () (σ.over ((σ.consulted k).kernel.storeWord
          ((σ.kernel.memory (σ.kernel.target k)).base + 4#32 * offset) word))
      else E (.assertion k (request 6#16 offset word)) (σ.consulted k) := by
  have hm : MemoryMethod.ofSelector (request 6#16 offset word).desc.getSelector = some .poke := by
    rw [getSelector_request]
    rfl
  rw [memoryPoke, wp_bind, wp_callAsserting, wp_callMemory hlive hkind]
  simp only [Memory.serve, hm, Memory.access, wp_bind, wp_get, wp_set, wp_ite, wp_pure,
    ge_iff_le, getError_failure, getError_zero, memory_consulted, d0_request, d1_request,
    over_kernel_consulted]
  by_cases h : offset < (σ.kernel.memory (σ.kernel.target k)).size / 4#32
  · simp [h, BitVec.not_le.mpr h]
  · simp [h, BitVec.not_lt.mp h]

theorem wp_memoryInspect {Q : MemRegion → State → Prop} (hlive : σ.kernel.isLive k = true)
    (hkind : σ.kernel.kind (σ.kernel.target k) = .memory) :
    wp (memoryInspect build k) Q E σ ↔
      Q ⟨(σ.kernel.memory (σ.kernel.target k)).base,
        ((σ.kernel.memory (σ.kernel.target k)).getRegionForBrand k.brand).rasr⟩ (σ.consulted k) := by
  have hm : MemoryMethod.ofSelector (request 1#16).desc.getSelector = some .inspect := by
    rw [getSelector_request]
    rfl
  rw [memoryInspect, wp_bind, wp_callAsserting, wp_callMemory hlive hkind]
  simp only [Memory.serve, hm, Memory.inspect, wp_bind, wp_get, wp_pure, getError_zero,
    memory_consulted, over_kernel_consulted]
  simp

end

/-! ### Blocks -/

/-- A live key to a Memory with this range. -/
structure State.HasBlock (σ : State) (k : Key) (base size : Word) : Prop where
  live : σ.kernel.isLive k = true
  kind : σ.kernel.kind (σ.kernel.target k) = .memory
  base : (σ.kernel.memory (σ.kernel.target k)).base = base
  size : (σ.kernel.memory (σ.kernel.target k)).size = size

/-- An entry of the Object Table is the same. -/
structure State.SameEntry (σ σ' : State) (e : TableIndex) : Prop where
  kind : σ'.kernel.kind e = σ.kernel.kind e
  generation : σ'.kernel.generation e = σ.kernel.generation e
  memory : σ'.kernel.memory e = σ.kernel.memory e

/-- A live key to such an entry stays one. -/
theorem State.SameEntry.live {σ σ' : State} {k : Key} (h : σ.SameEntry σ' (σ.kernel.target k))
    (hlive : σ.kernel.isLive k = true) :
    σ'.kernel.isLive k = true ∧ σ'.kernel.target k = σ.kernel.target k := by
  obtain ⟨-, hdead, -⟩ | ⟨hfilled, -⟩ := target_cases σ.kernel k
  · simp [hlive] at hdead
  · generalize σ.kernel.target k = e at h hfilled
    have hptr : k.ptr = some e := by
      rw [hfilled]
      rfl
    have hgeneration : k.generation = σ.kernel.generation e := by
      rw [hfilled]
      rfl
    have hlive' : σ'.kernel.isLive k = true := by
      simp [KState.isLive, hptr, hgeneration, h.generation]
    refine ⟨hlive', ?_⟩
    rw [KState.target, KState.resolve, if_pos hlive', hptr]
    rfl

/-- The tables that keys and Memory objects live in are the same. -/
structure State.SameTables (σ σ' : State) : Prop where
  ot : σ'.ot = σ.ot
  count : σ'.kernel.count = σ.kernel.count
  kind : σ'.kernel.kind = σ.kernel.kind
  generation : σ'.kernel.generation = σ.kernel.generation
  memory : σ'.kernel.memory = σ.kernel.memory

theorem State.SameTables.sameEntry {σ σ' : State} (h : σ.SameTables σ') (e : TableIndex) :
    σ.SameEntry σ' e :=
  ⟨by rw [h.kind], by rw [h.generation], by rw [h.memory]⟩

theorem State.SameTables.isLive {σ σ' : State} (h : σ.SameTables σ') (k : Key) :
    σ'.kernel.isLive k = σ.kernel.isLive k := by
  simp only [KState.isLive, h.generation]

theorem State.SameTables.target {σ σ' : State} (h : σ.SameTables σ') (k : Key) :
    σ'.kernel.target k = σ.kernel.target k := by
  simp only [KState.target, KState.resolve, h.isLive, KState.nullKey, KState.filled, h.generation]

theorem State.SameTables.hasBlock {σ σ' : State} (h : σ.SameTables σ') {k : Key} {base size : Word}
    (hk : σ.HasBlock k base size) : σ'.HasBlock k base size := by
  constructor
  · rw [h.isLive, hk.live]
  · rw [h.target, h.kind, hk.kind]
  · rw [h.target, h.memory, hk.base]
  · rw [h.target, h.memory, hk.size]

theorem State.SameTables.trans {σ₁ σ₂ σ₃ : State} (h : σ₁.SameTables σ₂) (h' : σ₂.SameTables σ₃) :
    σ₁.SameTables σ₃ :=
  ⟨h'.ot.trans h.ot, h'.count.trans h.count, h'.kind.trans h.kind, h'.generation.trans h.generation,
    h'.memory.trans h.memory⟩

theorem State.sameTables_consulted (σ : State) (k : Key) : σ.SameTables (σ.consulted k) :=
  ⟨rfl, rfl, rfl, rfl, rfl⟩

/-- The state after a word has been poked. -/
def State.poked (σ : State) (k : Key) (a word : Word) : State :=
  σ.over ((σ.consulted k).kernel.storeWord a word)

theorem State.sameTables_poked (σ : State) (k : Key) (a word : Word) :
    σ.SameTables (σ.poked k a word) :=
  ⟨rfl, rfl, rfl, rfl, rfl⟩

section

variable {build : Build} {σ : State} {k : Key} {base size : Word} {E : Stop → State → Prop}

theorem State.HasBlock.wp_peek {Q : Word → State → Prop} {offset : Word} (h : σ.HasBlock k base size) :
    wp (memoryPeek build k offset) Q E σ ↔
      if offset < size / 4#32 then Q (σ.kernel.loadWord (base + 4#32 * offset)) (σ.consulted k)
      else E (.assertion k (request 5#16 offset)) (σ.consulted k) := by
  rw [wp_memoryPeek h.live h.kind, h.base, h.size]

theorem State.HasBlock.wp_poke {Q : Unit → State → Prop} {offset word : Word}
    (h : σ.HasBlock k base size) :
    wp (memoryPoke build k offset word) Q E σ ↔
      if offset < size / 4#32 then Q () (σ.poked k (base + 4#32 * offset) word)
      else E (.assertion k (request 6#16 offset word)) (σ.consulted k) := by
  rw [wp_memoryPoke h.live h.kind, h.base, h.size]
  rfl

end

/-! ## The Object Table -/

section

variable {build : Build} {σ : State} {E : Stop → State → Prop}

/-- Register `ki::ot` holds a live key to the Object Table. -/
structure State.HasTable (σ : State) : Prop where
  live : σ.kernel.isLive σ.ot = true
  kind : σ.kernel.kind (σ.kernel.target σ.ot) = .objectTable

theorem State.HasTable.of_sameEntry {σ' : State} (h : σ.HasTable) (hot : σ'.ot = σ.ot)
    (hsame : σ.SameEntry σ' (σ.kernel.target σ.ot)) : σ'.HasTable := by
  obtain ⟨hlive, htarget⟩ := hsame.live h.live
  constructor
  · rw [hot]
    exact hlive
  · rw [hot, htarget, hsame.kind, h.kind]

theorem State.SameTables.hasTable {σ' : State} (h : σ.SameTables σ') (htable : σ.HasTable) :
    σ'.HasTable :=
  htable.of_sameEntry h.ot (h.sameEntry _)

/-- The state after a key has been minted. -/
def State.minted (σ : State) (index : Word) (brand : Brand) : State :=
  σ.over (σ.kernel.record (.minted index.toNat (σ.kernel.kind index.toNat) brand))

theorem wp_callTable {Q : ReplySender → State → Prop} {m : Message} {keys : Keys} (h : σ.HasTable) :
    wp (call build σ.ot m keys) Q E σ ↔
      wp (ObjectTable.serve (.source build.etl) m keys) (fun rs s => Q rs (σ.over s))
        (fun p s => E (.panic p) (σ.over s)) σ.kernel := by
  rw [wp_call h.live h.kind (by simp)]
  rfl

theorem wp_mintKey {Q : Key → State → Prop} {index : Word} {brand : Brand} (h : σ.HasTable) :
    wp (mintKey build index brand) Q E σ ↔
      if index.toNat < σ.kernel.count then
        Q (σ.kernel.filled index.toNat brand) (σ.minted index brand)
      else E (.assertion σ.ot (request 1#16 index brand.low brand.high)) σ := by
  have hm : ObjectTableMethod.ofSelector (request 1#16 index brand.low brand.high).desc.getSelector =
      some .mintKey := by
    rw [getSelector_request]
    rfl
  rw [mintKey]
  simp only [wp_bind, wp_get, wp_callAsserting, wp_callTable h, ObjectTable.serve, hm,
    ObjectTable.doMintKey, wp_ite, wp_pure, makeKey, wp_modify, d0_request, d1_request, d2_request,
    Brand.ofWords_low_high, getError_failure]
  by_cases hindex : index.toNat < σ.kernel.count
  · simp [hindex, Nat.not_le.mpr hindex, ReplySender.setKey, State.minted]
  · simp [hindex, Nat.not_lt.mp hindex]

theorem wp_readKey {Q : Word × Brand → State → Prop} {k : Key} (h : σ.HasTable) :
    wp (readKey build k) Q E σ ↔
      Q (BitVec.ofNat 32 (σ.kernel.target k), (σ.kernel.resolve k).brand) σ := by
  have hm : ObjectTableMethod.ofSelector (request 2#16).desc.getSelector = some .readKey := by
    rw [getSelector_request]
    rfl
  rw [readKey]
  simp only [wp_bind, wp_get, wp_callAsserting, wp_callTable h, ObjectTable.serve, hm,
    ObjectTable.doReadKey, localKeyGet, wp_pure, getError_zero, sending, if_true,
    Brand.ofWords_low_high]
  simp

theorem wp_getKind {Q : Word → State → Prop} {index : Word} (h : σ.HasTable) :
    wp (getKind build index) Q E σ ↔
      if index.toNat < σ.kernel.count then Q (σ.kernel.kind index.toNat).code σ
      else E (.assertion σ.ot (request 3#16 index)) σ := by
  have hm : ObjectTableMethod.ofSelector (request 3#16 index).desc.getSelector = some .getKind := by
    rw [getSelector_request]
    rfl
  rw [getKind]
  simp only [wp_bind, wp_get, wp_callAsserting, wp_callTable h, ObjectTable.serve, hm,
    ObjectTable.doGetKind, wp_pure, d0_request]
  by_cases hindex : index.toNat < σ.kernel.count
  · simp [hindex, Nat.not_le.mpr hindex]
  · simp [hindex, Nat.not_lt.mp hindex, getError_failure]

/-- The state after an Invalidate that permits no rollover has arrived. -/
def State.requested (σ : State) (index : Word) : State :=
  σ.over (σ.kernel.record (.invalidateRequested index false))

theorem State.sameTables_requested (σ : State) (index : Word) : σ.SameTables (σ.requested index) :=
  ⟨rfl, rfl, rfl, rfl, rfl⟩

/-- Invalidating a Memory, unless its generation is the last. -/
theorem wp_invalidate {Q : Bool → State → Prop} {index : Word} (h : σ.HasTable)
    (hindex : index.toNat < σ.kernel.count) (hkind : σ.kernel.kind index.toNat = .memory) :
    wp (invalidate build index) Q E σ ↔
      if σ.kernel.generation index.toNat = 0#32 - 1#32 then Q false (σ.requested index)
      else Q true (σ.over ((σ.requested index).kernel.invalidated index.toNat)) := by
  have hm : ObjectTableMethod.ofSelector (request 4#16 index 0#32).desc.getSelector =
      some .invalidate := by
    rw [getSelector_request]
    rfl
  rw [invalidate]
  simp only [wp_bind, wp_get, wp_callTable h, ObjectTable.serve, hm]
  rw [wp_doInvalidate rfl rfl hindex hkind, d0_request]
  split
  · simp only [getError_failure, wp_pure, Bool.not_true]
    rfl
  · simp only [getError_zero, wp_pure, Bool.not_false]
    rfl

end

/-! ## Writing to a Context -/

/-- The kernel state after a region register of a Context has been written. -/
def withRegion (s : KState) (c : TableIndex) (i : Fin nTaskRegions) (k : Key) : KState :=
  let s' := s.setKeyAt (.regionReg c i) k
  if s.current = c then s'.loadMpu c else s'

theorem resolve_withRegion (s : KState) (c : TableIndex) (i : Fin nTaskRegions) (k k' : Key) :
    (withRegion s c i k).resolve k' = s.resolve k' := by
  unfold withRegion
  split
  · rfl
  · rfl

theorem regions_withRegion (s : KState) (c : TableIndex) (i : Fin nTaskRegions) (k : Key) :
    s.resolve (((withRegion s c i k).context c).regions i) = s.resolve k := by
  have hwritten : ((s.setKeyAt (.regionReg c i) k).context c).regions i = k := by
    simp [setKeyAt]
  unfold withRegion
  split
  · -- The current Context's region keys are checked as they go to the MPU.
    have hload : (((s.setKeyAt (.regionReg c i) k).loadMpu c).context c).regions i =
        s.resolve (((s.setKeyAt (.regionReg c i) k).context c).regions i) := by
      simp only [loadMpu, Function.update_self]
      rfl
    rw [hload, hwritten, resolve_resolve]
  · rw [hwritten]

theorem regions_withRegion_of_ne (s : KState) (c : TableIndex) {i j : Fin nTaskRegions} (hij : j ≠ i)
    (k : Key) : s.resolve (((withRegion s c i k).context c).regions j) =
      s.resolve ((s.context c).regions j) := by
  have hkept : ((s.setKeyAt (.regionReg c i) k).context c).regions j = (s.context c).regions j := by
    simp [setKeyAt, hij]
  unfold withRegion
  split
  · have hload : (((s.setKeyAt (.regionReg c i) k).loadMpu c).context c).regions j =
        s.resolve (((s.setKeyAt (.regionReg c i) k).context c).regions j) := by
      simp only [loadMpu, Function.update_self]
      rfl
    rw [hload, hkept, resolve_resolve]
  · rw [hkept]

theorem State.sameTables_withRegion (σ : State) (c : TableIndex) (i : Fin nTaskRegions) (k : Key) :
    σ.SameTables (σ.over (withRegion σ.kernel c i k)) := by
  unfold withRegion
  split
  · exact ⟨rfl, rfl, rfl, rfl, rfl⟩
  · exact ⟨rfl, rfl, rfl, rfl, rfl⟩

theorem ram_withRegion (s : KState) (c : TableIndex) (i : Fin nTaskRegions) (k : Key) :
    (withRegion s c i k).ram = s.ram := by
  unfold withRegion
  split
  · rfl
  · rfl

/-- The kernel state after a saved register of a Context has been written. -/
def withRegister (s : KState) (c : TableIndex) (i : Fin 10) (w : Word) : KState :=
  s.updateContext c fun b => { b with save := Function.update b.save i w }

theorem State.sameTables_withRegister (σ : State) (c : TableIndex) (i : Fin 10) (w : Word) :
    σ.SameTables (σ.over (withRegister σ.kernel c i w)) :=
  ⟨rfl, rfl, rfl, rfl, rfl⟩

section

variable {build : Build} {E : Stop → State → Prop}

theorem wp_setRegion {σ : State} {k rk : Key} {index : Word} {Q : Unit → State → Prop}
    (hlive : σ.kernel.isLive k = true) (hkind : σ.kernel.kind (σ.kernel.target k) = .context)
    (hbrand : k.brand.isTop = false) :
    wp (setRegion build k index rk) Q E σ ↔
      if h : index.toNat < nTaskRegions then
        Q () (σ.over (withRegion σ.kernel (σ.kernel.target k) ⟨index.toNat, h⟩ rk))
      else E (.assertion k (request 6#16 index)) σ := by
  have hm : ContextMethod.ofSelector (request 6#16 index).desc.getSelector =
      some .writeRegionRegister := by
    rw [getSelector_request]
    rfl
  rw [setRegion, wp_bind, wp_callAsserting, wp_call hlive hkind (fun _ => hbrand)]
  simp only [Object.serve, Context.serve, hm, d0_request, wp_dite, wp_bind, wp_modify, wp_get]
  by_cases h : index.toNat < nTaskRegions
  · have hkey : sending rk 1 = rk := rfl
    have hcurrent : ∀ i, (σ.kernel.setKeyAt (.regionReg (σ.kernel.target k) i) rk).current =
        σ.kernel.current := fun _ => rfl
    simp only [h, dif_pos, hkey, hcurrent, withRegion]
    split
    · simp [wp_applyToMpu]
    · simp
  · simp [h, getError_failure]

theorem wp_setRegister {σ : State} {k : Key} {register value : Word} {Q : Unit → State → Prop}
    (hlive : σ.kernel.isLive k = true) (hkind : σ.kernel.kind (σ.kernel.target k) = .context)
    (hbrand : k.brand.isTop = false) :
    wp (setRegister build k register value) Q E σ ↔
      if h : register.toNat < 10 then
        Q () (σ.over (withRegister σ.kernel (σ.kernel.target k) ⟨register.toNat, h⟩ value))
      else E (.assertion k (request 2#16 register value)) σ := by
  have hm : ContextMethod.ofSelector (request 2#16 register value).desc.getSelector =
      some .writeRegister := by
    rw [getSelector_request]
    rfl
  rw [setRegister, wp_bind, wp_callAsserting, wp_call hlive hkind (fun _ => hbrand)]
  simp only [Object.serve, Context.serve, hm, d0_request, d1_request]
  by_cases h : register.toNat < 10
  · simp [h, withRegister]
  · simp [h, getError_failure]

end

/-! ## Taking a block -/

/-- The state after a list root has been set. -/
def State.setRoot (σ : State) (l2HalfSize : Nat) (oti : Word) : State :=
  { σ with memRoots := Function.update σ.memRoots l2HalfSize oti }

theorem State.sameTables_setRoot (σ : State) (l : Nat) (oti : Word) : σ.SameTables (σ.setRoot l oti) :=
  ⟨rfl, rfl, rfl, rfl, rfl⟩

theorem State.sameTables_minted (σ : State) (index : Word) (brand : Brand) :
    σ.SameTables (σ.minted index brand) :=
  ⟨rfl, rfl, rfl, rfl, rfl⟩

/-- The state after the first block of a list has been taken. -/
def State.taken (σ : State) (l2HalfSize : Nat) (brand : Brand) : State :=
  let oti := σ.memRoots l2HalfSize
  let k := σ.kernel.filled oti.toNat brand
  let base := (σ.kernel.memory oti.toNat).base
  (((σ.minted oti brand).consulted k).setRoot l2HalfSize (σ.kernel.loadWord base)).poked k base 0#32

theorem State.sameTables_taken (σ : State) (l : Nat) (brand : Brand) : σ.SameTables (σ.taken l brand) :=
  (((σ.sameTables_minted _ _).trans (State.sameTables_consulted _ _)).trans
    (State.sameTables_setRoot _ _ _)).trans (State.sameTables_poked _ _ _ _)

theorem State.memRoots_taken (σ : State) (l : Nat) (brand : Brand) :
    (σ.taken l brand).memRoots = Function.update σ.memRoots l
      (σ.kernel.loadWord (σ.kernel.memory (σ.memRoots l).toNat).base) := rfl

/-- The list has a first block, and it is Memory with room for the link word. -/
structure State.HasHead (σ : State) (l2HalfSize : Nat) : Prop where
  table : σ.HasTable
  count : (σ.memRoots l2HalfSize).toNat < σ.kernel.count
  kind : σ.kernel.kind (σ.memRoots l2HalfSize).toNat = .memory
  size : 0#32 < (σ.kernel.memory (σ.memRoots l2HalfSize).toNat).size / 4#32

section

variable {build : Build} {σ : State} {E : Stop → State → Prop}

theorem wp_setMemRoot {Q : PUnit → State → Prop} {l : Nat} {oti : Word} :
    wp (setMemRoot l oti) Q E σ ↔ Q ⟨⟩ (σ.setRoot l oti) := Iff.rfl

theorem loadWord_minted (σ : State) (index : Word) (brand : Brand) :
    (σ.minted index brand).kernel.loadWord = σ.kernel.loadWord := rfl

theorem wp_memTake {Q : Key → State → Prop} {l : Nat} {brand : Brand} (h : σ.HasHead l) :
    wp (memTake build l brand) Q E σ ↔
      Q (σ.kernel.filled (σ.memRoots l).toNat brand) (σ.taken l brand) := by
  have hblock : (σ.minted (σ.memRoots l) brand).HasBlock
      (σ.kernel.filled (σ.memRoots l).toNat brand)
      (σ.kernel.memory (σ.memRoots l).toNat).base (σ.kernel.memory (σ.memRoots l).toNat).size := by
    apply (σ.sameTables_minted _ brand).hasBlock
    exact ⟨isLive_filled _ _ _, by rw [target_filled, h.kind], by rw [target_filled],
      by rw [target_filled]⟩
  have hbase : (σ.kernel.memory (σ.memRoots l).toNat).base + 4#32 * 0#32 =
      (σ.kernel.memory (σ.memRoots l).toNat).base := by
    simp
  simp only [memTake, wp_bind, wp_get, wp_mintKey h.table, if_pos h.count, hblock.wp_peek,
    if_pos h.size, wp_setMemRoot, hbase]
  have hblock' := ((State.sameTables_consulted _ (σ.kernel.filled (σ.memRoots l).toNat brand)).trans
    (State.sameTables_setRoot _ l (σ.kernel.loadWord (σ.kernel.memory (σ.memRoots l).toNat).base))).hasBlock
      hblock
  rw [← loadWord_minted σ (σ.memRoots l) brand] at hblock'
  rw [hblock'.wp_poke, if_pos h.size, wp_pure, hbase]
  rfl

/-- A request for a size whose list is not empty needs no split. -/
theorem allocMem_of_head {l : Nat} (hl : 4 ≤ l) (hl' : l < 31) {brand : Brand} (h : σ.HasHead l)
    (hroot : σ.memRoots l ≠ 0#32) :
    allocMem build (BitVec.ofNat 32 l) brand σ =
      .ok (some (σ.kernel.filled (σ.memRoots l).toNat brand)) (σ.taken l brand) := by
  have hword : (BitVec.ofNat 32 l).toNat = l := by
    rw [BitVec.toNat_ofNat, Nat.mod_eq_of_lt (by omega)]
  have hlarge : ¬BitVec.ofNat 32 l < 4#32 := by
    rw [BitVec.lt_def, hword]
    simpa using hl
  have hfind : findRoot σ.memRoots l = some l := by
    rw [findRoot, show memRootsCount - l = (30 - l) + 1 by simp only [memRootsCount]; omega,
      List.range'_succ, List.find?_cons_of_pos]
    simpa using hroot
  have hrun : wp (allocMem build (BitVec.ofNat 32 l) brand)
      (fun r σ' => r = some (σ.kernel.filled (σ.memRoots l).toNat brand) ∧ σ' = σ.taken l brand)
      never σ := by
    simp only [allocMem, wp_bind, wp_ite, wp_get, hlarge, hword, hfind, Nat.sub_self, splitDown,
      wp_pure, wp_memTake h]
    simp
  obtain ⟨r, σ', hok, rfl, rfl⟩ := exists_ok hrun
  exact hok

end

end System

end BrittleKernel
