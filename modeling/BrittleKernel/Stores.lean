import BrittleKernel.Isolation
import BrittleKernel.Keeping

/-!
# Who Writes Memory

The MPU holds regions of Memory objects and nothing else, so that what unprivileged code can
reach lies in the range of a Memory object.  The same goes for what the kernel writes on its
behalf.  Where the tree of Memory objects stays apart from the bodies of other objects, so do
all these accesses.
-/

namespace BrittleKernel

open Hoare KState

/-! ## What a region covers -/

/-- The region made for a key to a Memory object stays within the object. -/
theorem Memory.Formed.covers {m : Memory} (h : m.Formed) {brand : Brand} {a : Word}
    (hcovers : (m.getRegionForBrand brand).covers a = true) : a.toNat ∈ m.range := by
  obtain ⟨attributes, hattributes⟩ := h.attributes
  have hexact := Memory.geometryExact (m := m) rfl hattributes
  by_cases hrange : Memory.NaturallyMappable m.base m.size
  · obtain ⟨hlow, hhigh, -⟩ := (hexact.covers hrange brand a).mp hcovers
    exact ⟨hlow, hhigh⟩
  · rw [(hexact.unmappable hrange brand).2 a] at hcovers
    cases hcovers

namespace KState

variable {s s' : KState} {app : AppInfo}

/-- The address belongs to a Memory object. -/
def InMemory (s : KState) (a : Word) : Prop :=
  ∃ e, s.kind e = .memory ∧ a.toNat ∈ (s.memory e).range

/-- Whatever a region of the MPU covers belongs to a Memory object. -/
def MpuInside (s : KState) : Prop := ∀ i a, (s.mpu i).covers a = true → s.InMemory a

theorem regionOf_inMemory (hformed : ∀ e, s.kind e = .memory → (s.memory e).Formed) {k : Key}
    {a : Word} (hcovers : (s.regionOf k).covers a = true) : s.InMemory a := by
  unfold regionOf regionForBrand at hcovers
  split at hcovers
  next hkind => exact ⟨_, hkind, (hformed _ hkind).covers hcovers⟩
  · cases hcovers

theorem MpuInside.loadMpu (hformed : ∀ e, s.kind e = .memory → (s.memory e).Formed)
    (c : TableIndex) : (s.loadMpu c).MpuInside := by
  intro i a hcovers
  exact regionOf_inMemory (s := s) hformed hcovers

/-- A state whose last step was to load the MPU. -/
theorem MpuInside.loaded {c : TableIndex} (h : s' = s.loadMpu c)
    (hformed : ∀ e, s'.kind e = .memory → (s'.memory e).Formed) : s'.MpuInside := by
  subst h
  exact MpuInside.loadMpu (s := s) (fun e he => hformed e he) c

theorem MpuInside.of_eq (hs : s.MpuInside) (hmpu : s'.mpu = s.mpu) (hkind : s'.kind = s.kind)
    (hmemory : s'.memory = s.memory) : s'.MpuInside := by
  intro i a hcovers
  rw [hmpu] at hcovers
  obtain ⟨e, he, ha⟩ := hs i a hcovers
  exact ⟨e, by rwa [hkind], by rwa [hmemory]⟩

theorem MpuInside.of_objects (hs : s.MpuInside) (h : s'.objects = s.objects) : s'.MpuInside :=
  hs.of_eq (mpu_of_objects h) (kind_of_objects h) (memory_of_objects h)

/-- Where unprivileged code may write there is a Memory object. -/
theorem MpuInside.unprivWrites (hs : s.MpuInside) {a : Word} (h : s.mpu.unprivWrites a = true) :
    s.InMemory a := by
  unfold Mpu.unprivWrites at h
  split at h
  next i hi => exact hs i a (by simpa using List.find?_some hi)
  · cases h

end KState

/-! ## Methods -/

section

variable {cfg : Config} {app : AppInfo} {e : TableIndex} {brand : Brand} {m : Message} {k : Keys}
  {s s' : KState} {rs : ReplySender}

/-- Methods that take Memory away load the MPU again. -/
theorem Effect.mpuInside (h : Effect cfg e brand m k s rs s') (hs : s.MpuInside)
    (htree : s.Tree app) (htree' : s'.Tree app) : s'.MpuInside := by
  cases h with
  | writeKey | setTarget => exact hs.of_objects (objects_setKeyAt _ _ _)
  | writeRegion r =>
    have hsame := objects_setKeyAt s (.regionReg e r) (k 1)
    split
    · refine .loadMpu (fun x hx => ?_) _
      rw [memory_of_objects hsame]
      exact htree.formed x (kind_of_objects hsame ▸ hx)
    · exact hs.of_objects hsame
  | split slot => exact .loaded (c := (s.splitMemory e slot m.d0).current) rfl htree'.formed
  | become t => exact .loaded (c := (s.becomeObject e t m.d1).current) rfl htree'.formed
  | makeChild slot hok =>
    -- The regions are the same, and all objects keep their ranges.
    intro i a hcovers
    have hmpu : (s.makeChildMemory e slot m.d0 m.d1).mpu = s.mpu := by
      simp [makeChildMemory]
    rw [hmpu] at hcovers
    obtain ⟨x, hx, ha⟩ := hs i a hcovers
    have hxs : x ≠ slot := by
      rintro rfl
      exact absurd (hx.symm.trans hok.slot) (by decide)
    have hes : some e ≠ some slot := by
      intro heq
      exact absurd (hok.memory.symm.trans (Option.some.inj heq ▸ hok.slot)) (by decide)
    refine ⟨x, by simp [makeChildMemory, hxs, hx], ?_⟩
    rw [makeChildMemory, memory_buildMemory_of_ne hxs _ _ _ hes]
    split
    · exact ha
    · exact ha
  | invalidate =>
    simp only [invalidated, invalidationHook]
    split
    · exact MpuInside.loadMpu (s := s.record _) (fun x hx => htree.formed x hx) _
    · split
      · exact hs.of_eq rfl rfl rfl
      · exact hs.of_eq rfl rfl rfl
    · exact hs.of_eq rfl rfl rfl
    · exact hs.of_eq rfl rfl rfl
  | callOff | callOffReply => exact hs.of_objects (by simp [calledOff])
  | _ => exact hs.of_eq rfl rfl rfl

/-- The four bytes that Peek and Poke touch lie within the object. -/
theorem Memory.Formed.access {m : Memory} (h : m.Formed) {offset : Word}
    (hoffset : offset < m.size / 4#32) :
    (m.base + 4#32 * offset).toNat = m.base.toNat + 4 * offset.toNat ∧
      m.base.toNat + 4 * offset.toNat + 4 ≤ m.base.toNat + m.size.toNat := by
  have hwords : offset.toNat < m.size.toNat / 4 := by
    have := BitVec.lt_def.mp hoffset
    rwa [BitVec.toNat_udiv] at this
  have hwrap := h.noWrap
  have hproduct : (4#32 * offset).toNat = 4 * offset.toNat := by
    rw [BitVec.toNat_mul]
    exact Nat.mod_eq_of_lt (by show 4 * offset.toNat < 2 ^ 32; omega)
  refine ⟨?_, by omega⟩
  rw [BitVec.toNat_add, hproduct]
  exact Nat.mod_eq_of_lt (by omega)

/-- A stored word changes four bytes. -/
theorem ram_storeWord {a w x : Word} (h : (s.storeWord a w).ram x ≠ s.ram x) :
    ∃ j : Nat, j < 4 ∧ x = a + BitVec.ofNat 32 j := by
  simp only [KState.storeWord] at h
  split_ifs at h with h0 h1 h2 h3
  · exact ⟨0, by decide, by rw [h0]; simp⟩
  · exact ⟨1, by decide, h1⟩
  · exact ⟨2, by decide, h2⟩
  · exact ⟨3, by decide, h3⟩
  · exact absurd rfl h

@[simp] theorem ram_bump (s : KState) (x : TableIndex) : (s.bump x).ram = s.ram := rfl

@[simp] theorem ram_buildMemory (s : KState) (x : TableIndex) (base size attributes : Word)
    (parent : Option TableIndex) : (s.buildMemory x base size attributes parent).ram = s.ram := by
  cases parent <;> rfl

@[simp] theorem ram_orphan (s : KState) (x : TableIndex) : (s.orphan x).ram = s.ram := by
  unfold orphan
  split <;> rfl

/-- No method but Poke writes memory, and Poke writes within its object. -/
theorem Effect.ram (h : Effect cfg e brand m k s rs s') (htree : s.Tree app) {x : Word}
    (hx : s'.ram x ≠ s.ram x) : s.InMemory x := by
  have hsame : ∀ {t : KState}, t.objects = s.objects → t.ram x ≠ s.ram x → False := by
    intro t ht hne
    exact hne (congrFun (congrArg Objects.ram ht) x)
  cases h with
  | poke a w he _ hoffset ha =>
    have hformed := htree.formed e he
    obtain ⟨haddr, hfits⟩ := hformed.access hoffset
    have hwrap := hformed.noWrap
    obtain ⟨j, hj, rfl⟩ := ram_storeWord hx
    have hbyte : (a + BitVec.ofNat 32 j).toNat = a.toNat + j := by
      rw [BitVec.toNat_add, BitVec.toNat_ofNat, Nat.mod_eq_of_lt (show j < 2 ^ 32 by omega)]
      exact Nat.mod_eq_of_lt (by rw [ha, haddr]; omega)
    refine ⟨e, he, ?_⟩
    rw [hbyte, ha, haddr]
    exact ⟨by omega, by omega⟩
  | writeKey | setTarget => exact (hsame (objects_setKeyAt _ _ _) hx).elim
  | writeRegion r =>
    split at hx
    · exact (hsame (objects_setKeyAt s (.regionReg e r) (k 1)) hx).elim
    · exact (hsame (objects_setKeyAt _ _ _) hx).elim
  | split slot => exact absurd (by simp [splitMemory, loadMpu]) hx
  | makeChild slot => exact absurd rfl hx
  | become t => cases t <;> exact absurd rfl hx
  | invalidate =>
    simp only [invalidated, invalidationHook] at hx
    split at hx
    · exact absurd rfl hx
    · split at hx <;> exact absurd rfl hx
    · exact absurd rfl hx
    · exact absurd rfl hx
  | callOff | callOffReply => exact (hsame (by simp [calledOff]) hx).elim
  | _ => exact absurd rfl hx

end

/-! ## Steps -/

section

variable {cfg : Config} {app : AppInfo} {s s' : KState}

/-- The Memory objects are in order, and the MPU holds nothing else. -/
def KState.Fenced (app : AppInfo) (s : KState) : Prop := s.Tree app ∧ s.MpuInside

theorem KState.Fenced.of_untouched (hs : s.Fenced app) (h : Untouched s s') (hmpu : s'.mpu = s.mpu) :
    s'.Fenced app :=
  ⟨hs.1.of_sameMemories (.of_untouched h), hs.2.of_eq hmpu h.kind h.memory⟩

theorem KState.Fenced.act {A : Authority} (hs : s.Fenced app) (h : Act A s s') : s'.Fenced app :=
  hs.of_untouched h.untouched (mpu_of_objects h.objects)

/-- Until a method has run, memory and the ranges of the Memory objects are what they were. -/
structure KState.Waits (app : AppInfo) (s t : KState) : Prop where
  fenced : t.Fenced app
  ram : t.ram = s.ram
  inMemory : t.InMemory = s.InMemory

/-- From then on, memory has changed in Memory objects only. -/
structure KState.Spares (app : AppInfo) (s t : KState) : Prop where
  fenced : t.Fenced app
  ram : ∀ x, t.ram x ≠ s.ram x → s.InMemory x

theorem KState.Waits.of_objects {t t' : KState} (ht : s.Waits app t) (hfenced : t'.Fenced app)
    (h : t'.objects = t.objects) : s.Waits app t' where
  fenced := hfenced
  ram := (congrArg Objects.ram h).trans ht.ram
  inMemory := by
    rw [← ht.inMemory]
    funext x
    simp only [InMemory, kind_of_objects h, memory_of_objects h]

theorem KState.Spares.of_ram {t t' : KState} (ht : s.Spares app t) (hfenced : t'.Fenced app)
    (h : t'.ram = t.ram) : s.Spares app t' where
  fenced := hfenced
  ram x hx := ht.ram x (h ▸ hx)

/-- A step writes to Memory objects only, and leaves nothing else in the MPU. -/
theorem stores_keeps (cfg : Config) (app : AppInfo) (s : KState) :
    Keeps cfg (.any True) (s.Waits app) (s.Spares app) (fun p _ => p.isPossible) where
  rules := .any (fun _ h hact => h.of_objects (h.fenced.act hact) hact.objects)
    (fun _ h hact => h.of_ram (h.fenced.act hact) (congrArg Objects.ram hact.objects))
    (fun _ h => ⟨h.fenced, fun x hx => absurd (congrFun h.ram x) hx⟩)
    (fun {t e b m k kind rs t'} hwf h _ heffect => by
      -- Looking at the brand leaves a record and nothing else.
      have hlooked : (t.looked kind e b).objects = t.objects := by
        rcases t.looked_cases kind e b with h | h
        · rw [h]
        · rw [h, objects_record]
      have hfenced : (t.looked kind e b).Fenced app :=
        h.fenced.of_untouched (.looked t kind e b) (mpu_of_objects hlooked)
      have hwaits := h.of_objects hfenced hlooked
      have htree := heffect.tree (WellFormed.looked hwf kind e b) hfenced.1
      refine ⟨⟨htree, heffect.mpuInside hfenced.2 hfenced.1 htree⟩, fun x hx => ?_⟩
      rw [← hwaits.ram] at hx
      rw [← hwaits.inMemory]
      exact heffect.ram hfenced.1 hx)
    (fun _ _ _ _ hfault _ => hfault.isServed.isPossible) (by simp [Panic.isPossible])
  object _ := trivial
  blocks := trivial
  masked i h := ⟨h.fenced.of_untouched (.masked _ i) rfl, h.ram, h.inMemory⟩
  entered stack regs h :=
    ⟨⟨h.fenced.1.of_sameMemories ⟨rfl, rfl, rfl, rfl, rfl⟩, h.fenced.2.of_eq rfl rfl rfl⟩, h.ram,
      h.inMemory⟩
  copied c dst src _ h :=
    ⟨h.fenced.of_untouched (.setKeyAt _ _ _) (mpu_of_objects (objects_setKeyAt _ _ _)), fun x hx =>
      absurd (congrFun h.ram x) hx⟩
  stored {t} a v ha h := by
    refine ⟨⟨h.fenced.1.of_sameMemories ⟨rfl, rfl, rfl, rfl, rfl⟩, h.fenced.2.of_eq rfl rfl rfl⟩,
      fun x hx => ?_⟩
    -- The MPU let the store happen.
    by_cases hxa : x = a
    · rw [← h.inMemory, hxa]
      exact h.fenced.2.unprivWrites ha
    · exact absurd ((Function.update_of_ne hxa _ _).trans (congrFun h.ram x)) hx
  deferred h :=
    ⟨⟨h.fenced.1.of_sameMemories ⟨rfl, rfl, rfl, rfl, rfl⟩, h.fenced.2.of_eq rfl rfl rfl⟩, h.ram⟩
  elected {t} c _ _ h := by
    have htree : ((({ t with switchPending := false } : KState)).switchTo c).Tree app :=
      h.fenced.1.of_sameMemories ⟨rfl, rfl, rfl, rfl, rfl⟩
    exact ⟨⟨htree, .loaded rfl htree.formed⟩, h.ram⟩
  checks p s' h := by
    rcases h with h | rfl | rfl
    · exact h.isServed.isPossible
    · simp [Panic.isPossible]
    · simp [Panic.isPossible]

/-- Boot fills the MPU from the first Context's region registers. -/
theorem Booted.fenced (h : Booted app s) : s.Fenced app := by
  refine ⟨h.tree, fun i a hcovers => ?_⟩
  rw [h.mpu] at hcovers
  exact regionOf_inMemory h.tree.formed hcovers

theorem step_spares (hs : s.Settled) (hfenced : s.Fenced app) {etl : Etl} {a : Action}
    (hstep : BrittleKernel.step (.source etl) a s = .ok () s') : s.Spares app s' :=
  wp_ok (a := ()) (Q := fun _ s' => s.Spares app s')
    ((stores_keeps (.source etl) app s).step rfl hs ⟨hfenced, rfl, rfl⟩ a) hstep

theorem Reachable.fenced {etl : Etl} (h : Reachable (.source etl) app s) : s.Fenced app := by
  induction h with
  | boot hboot => exact hboot.booted.fenced
  | step hr hstep ih => exact (step_spares (hr.settled rfl) ih hstep).fenced

/-! ## What programs never reach -/

namespace KState

/-- No region of the MPU covers a byte of the set, and no step of the kernel changes one. -/
structure Protected (cfg : Config) (s : KState) (bytes : Set Nat) : Prop where
  covers : ∀ i (a : Word), a.toNat ∈ bytes → (s.mpu i).covers a = false
  steps : ∀ a s', BrittleKernel.step cfg a s = .ok () s' →
    ∀ x : Word, x.toNat ∈ bytes → s'.ram x = s.ram x

/-- Bytes outside the Memory objects are protected. -/
theorem Fenced.protects {etl : Etl} (hfenced : s.Fenced app) (hs : s.Settled) {bytes : Set Nat}
    (h : ∀ e, s.kind e = .memory → Disjoint (s.memory e).range bytes) :
    s.Protected (.source etl) bytes where
  covers i a ha := by
    by_contra hcovers
    obtain ⟨e, he, hmem⟩ := hfenced.2 i a (by simpa using hcovers)
    exact Set.disjoint_left.mp (h e he) hmem ha
  steps a s' hstep x hx := by
    by_contra hne
    obtain ⟨e, he, hmem⟩ := (step_spares hs hfenced hstep).ram x hne
    exact Set.disjoint_left.mp (h e he) hmem hx

end KState

end

end BrittleKernel
