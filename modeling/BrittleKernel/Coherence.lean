import BrittleKernel.Generations
import BrittleKernel.MemoryTree

/-!
# The MPU as a Cache

The MPU caches what the region registers of the current Context stand for.  Whatever changes one
of the two loads it again, except that Invalidate loads it just before the generation moves:
until the next switch, the MPU still holds the regions of the keys that were revoked.
-/

namespace BrittleKernel

open Hoare KState

/-! ## What the MPU should hold -/

/-- Whether the scheduler recorded this event. -/
def Event.isSwitch : Event → Bool
  | .switched _ => true
  | _ => false

namespace KState

variable {s s' : KState}

/-- The key in a region register of the current Context. -/
def region (s : KState) (i : Fin nTaskRegions) : Key := (s.context s.current).regions i

/-- What happened since the current Context was elected. -/
def turn (s : KState) : List Event := s.history.takeWhile fun ev => !ev.isSwitch

theorem turn_record (s : KState) {ev : Event} (h : ev.isSwitch = false) :
    (s.record ev).turn = ev :: s.turn := by
  simp [turn, h]

/-- An MPU region is what the region key stands for. -/
def InStep (s : KState) (i : Fin nTaskRegions) : Prop := s.mpu i = s.regionOf (s.region i)

/-- The region key was revoked during the current Context's turn, and the MPU still holds what it
stood for. -/
structure Lags (s : KState) (i : Fin nTaskRegions) (e : TableIndex) : Prop where
  ptr : (s.region i).ptr = some e
  stale : s.isLive (s.region i) = false
  memory : s.kind e = .memory
  held : s.mpu i = (s.memory e).getRegionForBrand (s.region i).brand
  asked : ∃ (w : Word) (rolloverOk : Bool), w.toNat = e ∧ Event.invalidateRequested w rolloverOk ∈ s.turn

/-- Every MPU region is up to date, or lags. -/
def Coherent (s : KState) : Prop := ∀ i, s.InStep i ∨ ∃ e, s.Lags i e

/-! ## What a key stands for -/

theorem regionOf_live {k : Key} {e : TableIndex} (hlive : s.isLive k = true) (hptr : k.ptr = some e) :
    s.regionOf k = s.regionForBrand e k.brand := by
  simp [regionOf, target, resolve, hlive, hptr]

theorem regionOf_stale (hnull : s.kind 0 = .null) {k : Key} (hstale : s.isLive k = false) :
    s.regionOf k = .disabled := by
  simp [regionOf, target, resolve, hstale, nullKey, filled, regionForBrand, hnull]

/-- A key to anything but Memory stands for nothing. -/
theorem regionOf_other (hnull : s.kind 0 = .null) {k : Key}
    (h : ∀ e, k.ptr = some e → s.isLive k = true → s.kind e ≠ .memory) : s.regionOf k = .disabled := by
  cases hlive : s.isLive k with
  | false => exact regionOf_stale hnull hlive
  | true =>
    cases hptr : k.ptr with
    | none => simp [isLive, hptr] at hlive
    | some e =>
      rw [regionOf_live hlive hptr, regionForBrand]
      have := h e hptr hlive
      split
      next hmemory => exact absurd hmemory this
      · rfl

/-- Keys stand for the same regions, and nothing was taken out of the current turn. -/
structure SameRegions (s s' : KState) : Prop where
  mpu : s'.mpu = s.mpu
  region : ∀ i, s'.region i = s.region i
  live : ∀ k, s'.isLive k = s.isLive k
  stands : ∀ k, s'.regionOf k = s.regionOf k
  memory : ∀ e, s.kind e = .memory → s'.kind e = .memory ∧
    ∀ b, (s'.memory e).getRegionForBrand b = (s.memory e).getRegionForBrand b
  turn : ∀ ev ∈ s.turn, ev ∈ s'.turn

theorem SameRegions.refl (s : KState) : SameRegions s s :=
  ⟨rfl, fun _ => rfl, fun _ => rfl, fun _ => rfl, fun _ h => ⟨h, fun _ => rfl⟩, fun _ h => h⟩

theorem SameRegions.trans {s'' : KState} (h : SameRegions s s') (h' : SameRegions s' s'') :
    SameRegions s s'' where
  mpu := h'.mpu.trans h.mpu
  region i := (h'.region i).trans (h.region i)
  live k := (h'.live k).trans (h.live k)
  stands k := (h'.stands k).trans (h.stands k)
  memory e he := ⟨(h'.memory e (h.memory e he).1).1, fun b =>
    ((h'.memory e (h.memory e he).1).2 b).trans ((h.memory e he).2 b)⟩
  turn ev hev := h'.turn ev (h.turn ev hev)

/-- The Object Table, the MPU and the region registers stay. -/
theorem SameRegions.of_objects (h : s'.objects = s.objects) (hregion : ∀ i, s'.region i = s.region i)
    (hturn : ∀ ev ∈ s.turn, ev ∈ s'.turn) : SameRegions s s' where
  mpu := mpu_of_objects h
  region := hregion
  live := isLive_of_objects h
  stands k := by
    rw [regionOf, regionOf, target_of_objects h, resolve_of_objects h, regionForBrand, regionForBrand,
      kind_of_objects h, memory_of_objects h]
  memory e he := ⟨kind_of_objects h ▸ he, fun _ => by rw [memory_of_objects h]⟩
  turn := hturn

theorem SameRegions.record (s : KState) {ev : Event} (h : ev.isSwitch = false) :
    SameRegions s (s.record ev) :=
  .of_objects rfl (fun _ => rfl) fun x hx => by
    rw [turn_record s h]
    exact List.mem_cons_of_mem _ hx

theorem SameRegions.of_history (h : s'.objects = s.objects) (hregion : ∀ i, s'.region i = s.region i)
    (hhistory : s'.history = s.history) : SameRegions s s' :=
  .of_objects h hregion fun ev hev => by rwa [KState.turn, hhistory]

theorem Coherent.of_sameRegions (hs : s.Coherent) (h : SameRegions s s') : s'.Coherent := by
  intro i
  rcases hs i with hstep | ⟨e, hlags⟩
  · left
    rw [InStep, h.mpu, h.region, h.stands]
    exact hstep
  · obtain ⟨w, rolloverOk, hw, hmem⟩ := hlags.asked
    obtain ⟨hkind, hregion⟩ := h.memory e hlags.memory
    exact .inr ⟨e,
      { ptr := by rw [h.region, hlags.ptr]
        stale := by rw [h.region, h.live, hlags.stale]
        memory := hkind
        held := by rw [h.mpu, h.region, hregion, hlags.held]
        asked := ⟨w, rolloverOk, hw, h.turn _ hmem⟩ }⟩

/-- After the MPU was loaded for the current Context, nothing lags. -/
theorem inStep_loadMpu (s : KState) (i : Fin nTaskRegions) : (s.loadMpu s.current).InStep i := by
  have hkey : (s.loadMpu s.current).region i = s.resolve (s.region i) := by
    simp [region, loadMpu]
  have hstands : ∀ k, (s.loadMpu s.current).regionOf k = s.regionOf k := fun _ => rfl
  rw [InStep, hkey, hstands, regionOf_resolve]
  rfl

theorem coherent_loaded (h : s' = s.loadMpu s.current) : s'.Coherent := by
  rw [h]
  exact fun i => .inl (s.inStep_loadMpu i)

end KState

/-! ## Message passing -/

theorem Act.sameRegions {A : Authority} {s s' : KState} (h : Act A s s') : SameRegions s s' := by
  refine .of_objects h.objects (fun i => ?_) fun x hx => ?_
  · have hcurrent := current_of_objects h.objects
    rw [region, hcurrent]
    rcases h.keyAt_cases (.regionReg s.current i) with hkeep | ⟨-, hregion, -⟩ | ⟨c, r, hloc, -⟩
    · exact hkeep
    · exact absurd rfl (hregion s.current i)
    · cases hloc
  · have hdeposit : ∀ dst ks, (s.deposit dst ks).history = s.history := by
      intro dst ks
      cases dst <;> rfl
    have hsame : ∀ {t : KState}, t.history = s.history → x ∈ t.turn := fun ht => by rwa [turn, ht]
    cases h with
    | drop loc => cases loc <;> exact hx
    | note ev hev =>
      have hquiet : ev.isSwitch = false := by cases ev <;> first | rfl | cases hev
      exact (SameRegions.record s hquiet).turn x hx
    | deposit dst ks => exact hsame (hdeposit dst ks)
    | call c dst => exact hsame (hdeposit dst (s.sentKeys c))
    | answer c b => exact List.mem_cons_of_mem _ (List.mem_cons_of_mem _ hx)
    | _ => exact hx

/-! ## Methods -/

section

variable {cfg : Config} {e : TableIndex} {brand : Brand} {m : Message} {k : Keys} {s s' : KState}
  {rs : ReplySender}

theorem KState.sameRegions_looked (s : KState) (kind : Kind) (e : TableIndex) (b : Brand) :
    SameRegions s (s.looked kind e b) := by
  rcases s.looked_cases kind e b with h | h
  · rw [h]
    exact .refl s
  · rw [h]
    exact .record s rfl

theorem KState.sameRegions_setKeyAt (s : KState) {loc : KeyLoc} (hloc : ∀ i, loc ≠ .regionReg s.current i)
    (k : Key) : SameRegions s (s.setKeyAt loc k) := by
  have hregion : ∀ i, (s.setKeyAt loc k).region i = s.region i := by
    intro i
    rw [region, current_of_objects (objects_setKeyAt s loc k)]
    exact keyAt_setKeyAt_of_ne (hloc i).symm k
  refine .of_history (objects_setKeyAt _ _ _) hregion ?_
  cases loc <;> rfl

/-- A Context that is not current may be rebuilt. -/
theorem KState.sameRegions_updateContext (s : KState) {c : TableIndex} {f : Context → Context}
    (h : (f (s.context c)).regions = (s.context c).regions) : SameRegions s (s.updateContext c f) := by
  have hregion : ∀ i, (s.updateContext c f).region i = s.region i := by
    intro i
    show (Function.update s.context c (f (s.context c)) s.current).regions i = _
    by_cases hc : s.current = c
    · subst hc
      rw [Function.update_self, h]
      rfl
    · rw [Function.update_of_ne hc]
      rfl
  exact .of_history rfl hregion rfl

theorem KState.sameRegions_reseat (s : KState) (c : TableIndex) (seat : Seat) :
    SameRegions s (s.reseat c seat) :=
  .of_history (objects_reseat c seat) (fun i => congrFun (keyAt_reseat c seat) (.regionReg s.current i))
    rfl

theorem KState.sameRegions_advanceReply (s : KState) (c : TableIndex) :
    SameRegions s (s.advanceReply c) :=
  (sameRegions_updateContext s rfl).trans (.record _ rfl)

theorem KState.sameRegions_pend (s : KState) : SameRegions s s.pend :=
  .of_history rfl (fun _ => rfl) rfl

theorem KState.sameRegions_calledOff (s : KState) (c : TableIndex) : SameRegions s (s.calledOff c) :=
  (sameRegions_updateContext s rfl).trans (.record _ rfl)

/-- Another generation of an entry that holds no Memory makes no difference. -/
theorem KState.Coherent.bump_other (hs : s.Coherent) (hnull : s.kind 0 = .null) {x : TableIndex}
    (hx : s.kind x ≠ .memory) : (s.bump x).Coherent := by
  have hlive : ∀ k : Key, k.ptr ≠ some x → (s.bump x).isLive k = s.isLive k := by
    intro k hk
    unfold isLive
    split
    next e hptr =>
      have he : e ≠ x := by
        rintro rfl
        exact hk hptr
      rw [generation_bump, Function.update_of_ne he]
    · rfl
  have hstands : ∀ k : Key, (s.bump x).regionOf k = s.regionOf k := by
    intro k
    by_cases hk : k.ptr = some x
    · rw [regionOf_other hnull fun e he _ => ?_, regionOf_other (s := s.bump x) hnull fun e he _ => ?_]
      · rw [hk] at he
        exact Option.some.inj he ▸ hx
      · rw [hk] at he
        exact Option.some.inj he ▸ hx
    · cases hl : s.isLive k with
      | false => rw [regionOf_stale hnull hl, regionOf_stale (s := s.bump x) hnull (hlive k hk ▸ hl)]
      | true =>
        cases hptr : k.ptr with
        | none => simp [isLive, hptr] at hl
        | some e =>
          rw [regionOf_live hl hptr, regionOf_live (s := s.bump x) (hlive k hk ▸ hl) hptr]
          rfl
  intro i
  have hkey : (s.bump x).region i = s.region i := rfl
  rcases hs i with hstep | ⟨e, hlags⟩
  · left
    rw [InStep, hkey, hstands]
    exact hstep
  · obtain ⟨w, rolloverOk, hw, hmem⟩ := hlags.asked
    have hne : (s.region i).ptr ≠ some x := by
      rw [hlags.ptr]
      rintro ⟨⟩
      exact hx hlags.memory
    exact .inr ⟨e, hlags.ptr, (hlive _ hne).trans hlags.stale, hlags.memory, hlags.held,
      w, rolloverOk, hw, List.mem_cons_of_mem _ hmem⟩

/-- Where the MPU was just loaded, the next generation of a Memory object leaves the regions of
its keys behind. -/
theorem KState.coherent_bump_memory (hstep : ∀ i, s.InStep i) (hresolved : ∀ i, s.isLive (s.region i) = true)
    {x : TableIndex} (hx : s.kind x = .memory) {w : Word} {rolloverOk : Bool} (hw : w.toNat = x)
    (hasked : Event.invalidateRequested w rolloverOk ∈ s.turn) : (s.bump x).Coherent := by
  intro i
  have hlive := hresolved i
  cases hptr : (s.region i).ptr with
  | none => simp [isLive, hptr] at hlive
  | some e =>
    have hheld : s.mpu i = s.regionForBrand e (s.region i).brand := by
      rw [hstep i, regionOf_live hlive hptr]
    by_cases he : e = x
    · -- The key is revoked, and its region stays in the MPU.
      subst he
      refine .inr ⟨e, hptr, ?_, hx, ?_, w, rolloverOk, hw, List.mem_cons_of_mem _ hasked⟩
      · have hgeneration : (s.region i).generation = s.generation e := by
          simpa [isLive, hptr] using hlive
        have hmoved : s.generation e ≠ s.generation e + 1#32 := by
          intro h
          have := congrArg BitVec.toNat h
          rw [BitVec.toNat_add] at this
          have := (s.generation e).isLt
          simp only [BitVec.toNat_ofNat] at *
          omega
        have hkey : (s.bump e).region i = s.region i := rfl
        rw [hkey]
        rw [isLive, hptr]
        simp [hgeneration, hmoved]
      · rw [regionForBrand, hx] at hheld
        exact hheld
    · left
      have hkey : (s.bump x).region i = s.region i := rfl
      have hstill : (s.bump x).isLive (s.region i) = true := by
        rw [← hlive]
        simp [isLive, hptr, he]
      rw [InStep, hkey, regionOf_live hstill hptr]
      exact hheld

/-- No key to the Slot comes back to life when a child is built in it. -/
theorem KState.coherent_makeChild {slot : TableIndex} (hok : s.ChildAccepted e slot brand m)
    (hnull : s.kind 0 = .null) (hdated : s.Dated) (hfew : s.advances slot + 1 < 2 ^ 32)
    (hs : s.Coherent) : (s.makeChildMemory e slot m.d0 m.d1).Coherent := by
  have hslot : s.kind slot ≠ .memory := by simp [hok.slot]
  have hes : some e ≠ some slot := by
    rintro ⟨⟩
    exact hslot hok.memory
  have hbumped := hs.bump_other hnull hslot
  generalize ht : s.makeChildMemory e slot m.d0 m.d1 = t
  have hmpu : t.mpu = (s.bump slot).mpu := by simp [← ht, makeChildMemory]
  have hregion : ∀ i, t.region i = s.region i := by
    intro i
    simp [← ht, makeChildMemory, region]
  have hlive : ∀ k, t.isLive k = (s.bump slot).isLive k := by
    intro k
    simp [← ht, makeChildMemory, isLive]
  have hhistory : t.history = (s.bump slot).history := by simp [← ht, makeChildMemory]
  have hkind : ∀ x, x ≠ slot → t.kind x = s.kind x := by
    intro x hx
    simp [← ht, makeChildMemory, hx]
  have hmemory : ∀ x, x ≠ slot → ∀ b,
      (t.memory x).getRegionForBrand b = (s.memory x).getRegionForBrand b := by
    intro x hx b
    rw [← ht, makeChildMemory, memory_buildMemory_of_ne hx _ _ _ hes]
    split <;> rfl
  have hnull' : t.kind 0 = .null := by
    rw [hkind 0 (by rintro rfl; simp [hok.slot] at hnull), hnull]
  -- The region keys that designate the Slot are from generations before the child's.
  have hstale : ∀ i, (s.region i).ptr = some slot → t.isLive (s.region i) = false := by
    intro i hptr
    obtain ⟨n, hn, hgeneration⟩ := hdated.issued (.regionReg s.current i) slot hptr
    rw [hlive]
    by_contra hlives
    have hcounted := hdated.counted.bump slot
    have hturns := (hcounted.isLive_iff hptr hgeneration
      (by rw [advances_bump]; omega)).mp (by simpa using hlives)
    rw [advances_bump, if_pos rfl] at hturns
    have := Nat.le_of_dvd (by omega) hturns
    omega
  intro i
  rcases hbumped i with hstep | ⟨x, hlags⟩
  · left
    rw [InStep, hregion, hmpu]
    refine hstep.trans ?_
    have hkey : (s.bump slot).region i = s.region i := rfl
    rw [hkey]
    by_cases hptr : (s.region i).ptr = some slot
    · rw [regionOf_stale (s := s.bump slot) hnull (hlive _ ▸ hstale i hptr),
        regionOf_stale hnull' (hstale i hptr)]
    · cases hl : t.isLive (s.region i) with
      | false => rw [regionOf_stale hnull' hl, regionOf_stale (s := s.bump slot) hnull (hlive _ ▸ hl)]
      | true =>
        cases hx : (s.region i).ptr with
        | none => simp [isLive, hx] at hl
        | some x =>
          have hne : x ≠ slot := by
            rintro rfl
            exact hptr hx
          rw [regionOf_live hl hx, regionOf_live (s := s.bump slot) (hlive _ ▸ hl) hx, regionForBrand,
            regionForBrand, hkind x hne, hmemory x hne]
          rfl
  · obtain ⟨w, rolloverOk, hw, hmem⟩ := hlags.asked
    have hne : x ≠ slot := by
      rintro rfl
      exact hslot hlags.memory
    refine .inr ⟨x, by rw [hregion]; exact hlags.ptr, ?_, (hkind x hne).trans hlags.memory, ?_,
      w, rolloverOk, hw, by rwa [turn, hhistory]⟩
    · rw [hregion, hlive]
      exact hlags.stale
    · rw [hmpu, hregion, hmemory x hne]
      exact hlags.held

theorem KState.coherent_invalidated (hnull : s.kind 0 = .null) (hs : s.Coherent) :
    ((s.record (.invalidateRequested m.d0 (m.d1 != 0#32))).invalidated m.d0.toNat).Coherent := by
  have hrecord : SameRegions s (s.record (.invalidateRequested m.d0 (m.d1 != 0#32))) := .record s rfl
  have hasked : Event.invalidateRequested m.d0 (m.d1 != 0#32) ∈
      (s.record (.invalidateRequested m.d0 (m.d1 != 0#32))).turn := by
    rw [turn_record s rfl]
    exact List.mem_cons_self
  have hnull' : (s.record (.invalidateRequested m.d0 (m.d1 != 0#32))).kind 0 = .null := hnull
  generalize s.record (.invalidateRequested m.d0 (m.d1 != 0#32)) = t at hrecord hasked hnull' ⊢
  have ht := hs.of_sameRegions hrecord
  -- The hooks of the other kinds leave all that matters to the MPU alone.
  have hother : ∀ u : KState, SameRegions t u → u.kind = t.kind → t.kind m.d0.toNat ≠ .memory →
      (u.bump m.d0.toNat).Coherent := by
    intro u hu hkind hx
    exact (ht.of_sameRegions hu).bump_other (hkind ▸ hnull') (hkind ▸ hx)
  unfold invalidated invalidationHook
  split
  next hx =>
    -- The MPU is loaded while the keys are still live.
    refine coherent_bump_memory (s := t.loadMpu t.current) t.inStep_loadMpu (fun i => ?_) hx rfl hasked
    have hkey : (t.loadMpu t.current).region i = t.resolve (t.region i) := by
      simp [region, loadMpu]
    rw [hkey]
    exact isLive_resolve t (t.region i)
  next hx =>
    have hstopped : SameRegions t ((t.reseat m.d0.toNat .stopped).advanceReply m.d0.toNat) :=
      (sameRegions_reseat t _ _).trans (sameRegions_advanceReply _ _)
    dsimp only
    split
    · exact hother _ (hstopped.trans (sameRegions_pend _)) rfl (by simp [hx])
    · exact hother _ hstopped rfl (by simp [hx])
  next hx =>
    exact hother _ ⟨rfl, fun _ => rfl, fun _ => rfl, fun _ => rfl, fun _ h => ⟨h, fun _ => rfl⟩,
      fun _ h => h⟩ rfl (by simp [hx])
  next hmemory _ _ => exact ht.bump_other hnull' hmemory

/-- Methods keep the MPU up to date, but for what Invalidate leaves behind. -/
theorem Effect.coherent (h : Effect cfg e brand m k s rs s') (hwf : s.WellFormed) (hdated : s.Dated)
    (hfew : ∀ x, s'.advances x < 2 ^ 32) (hs : s.Coherent) : s'.Coherent := by
  have hnull := hwf.null
  cases h with
  | writeSave => exact hs.of_sameRegions (sameRegions_updateContext s rfl)
  | writeKey r => exact hs.of_sameRegions (sameRegions_setKeyAt s (by simp) _)
  | setTarget => exact hs.of_sameRegions (sameRegions_setKeyAt s (by simp) _)
  | writeRegion r =>
    split
    next hcurrent =>
      have hkept : (s.setKeyAt (.regionReg e r) (k 1)).current = e :=
        (current_of_objects (objects_setKeyAt s (.regionReg e r) (k 1))).trans hcurrent
      exact coherent_loaded (congrArg (loadMpu _) hkept.symm)
    next hother =>
      refine hs.of_sameRegions (sameRegions_setKeyAt s (fun i heq => ?_) _)
      injection heq with he
      exact hother he.symm
  | callOff seat g =>
    exact hs.of_sameRegions (((sameRegions_reseat s e _).trans (sameRegions_pend _)).trans
      (sameRegions_calledOff _ e))
  | callOffReply =>
    exact hs.of_sameRegions ((((sameRegions_advanceReply s e).trans (sameRegions_reseat _ e _)).trans
      (sameRegions_pend _)).trans (sameRegions_calledOff _ e))
  | start => exact hs.of_sameRegions ((sameRegions_reseat s e _).trans (sameRegions_pend _))
  | setPriority seat =>
    have hset : SameRegions s (s.updateContext e fun b => { b with priority := m.d0.toNat }) :=
      sameRegions_updateContext s rfl
    exact hs.of_sameRegions (hset.trans (sameRegions_reseat _ e seat))
  | mint | noInvalidate => exact hs.of_sameRegions (.record s rfl)
  | invalidate =>
    exact coherent_invalidated hnull hs
  | split slot => exact coherent_loaded rfl
  | become t => exact coherent_loaded rfl
  | makeChild slot hok =>
    refine coherent_makeChild hok hnull hdated ?_ hs
    have hadvances := hfew slot
    rwa [KState.advances, makeChildMemory, history_buildMemory, ← KState.advances, advances_bump,
      if_pos rfl] at hadvances
  | enable | poke => 
    exact hs.of_sameRegions ⟨rfl, fun _ => rfl, fun _ => rfl, fun _ => rfl, fun _ h => ⟨h, fun _ => rfl⟩,
      fun _ h => h⟩
  | _ => exact hs

end

/-! ## Steps -/

section

variable {cfg : Config} {s s' : KState}

/-- As long as no generation rolled over. -/
def KState.CoherentWhile (s : KState) : Prop := (∀ e, s.advances e < 2 ^ 32) → s.Coherent

theorem KState.CoherentWhile.of_sameRegions (hs : s.CoherentWhile) (h : SameRegions s s')
    (hclock : SameClock s s') : s'.CoherentWhile := fun hfew =>
  (hs fun e => hclock.advances e ▸ hfew e).of_sameRegions h

/-- The changes that have nothing to do with the MPU. -/
theorem KState.CoherentWhile.of_rest (hs : s.CoherentWhile) (hmpu : s'.mpu = s.mpu)
    (hregion : ∀ i, s'.region i = s.region i) (hkind : s'.kind = s.kind)
    (hgeneration : s'.generation = s.generation) (hmemory : s'.memory = s.memory)
    (hhistory : s'.history = s.history) : s'.CoherentWhile := by
  have hlive : ∀ k, s'.isLive k = s.isLive k := fun k => by rw [isLive, isLive, hgeneration]
  have hresolve : ∀ k, s'.resolve k = s.resolve k := fun k => by
    rw [resolve, resolve, hlive, nullKey, nullKey, filled, filled, hgeneration]
  refine hs.of_sameRegions ⟨hmpu, hregion, hlive, fun k => ?_, fun e he => ?_, fun ev hev => ?_⟩
    (.of_history hgeneration hhistory)
  · rw [regionOf, regionOf, target, target, hresolve, regionForBrand, regionForBrand, hkind, hmemory]
  · rw [hkind, hmemory]
    exact ⟨he, fun _ => rfl⟩
  · rwa [turn, hhistory]

theorem coherent_keeps (cfg : Config) :
    Keeps cfg (.sort Issued) (fun s => s.DatedFrom (fun _ => 0) ∧ s.CoherentWhile)
      (fun s => s.DatedFrom (fun _ => 0) ∧ s.CoherentWhile) (fun p _ => p.isPossible) := by
  refine (dated_keeps cfg _).and (fun _ _ hP hact => hP.of_sameRegions hact.sameRegions hact.sameClock)
    (fun {s e b m k kind rs s'} hwf hI hP hkeys heffect _ hfew => ?_) (fun i hP => ?_)
    (fun {s} stack regs hP => ?_) (fun c dst src _ _ hP => ?_) (fun a v hP => ?_) (fun hP => ?_)
    (fun c _ _ _ _ _ => ?_)
  · -- A method: the advances only grow, so that there were few before.
    have hlooked := sameRegions_looked s kind e b
    have hclock := SameClock.looked s kind e b
    have hbefore : ∀ x, (s.looked kind e b).advances x < 2 ^ 32 := fun x =>
      (heffect.ticks.advances_le x).trans_lt (hfew x)
    have hcoherent := (hP.of_sameRegions hlooked hclock) hbefore
    have hdated : (s.looked kind e b).Dated := by
      refine hI.1.of_sameClock hclock ?_
      rcases s.looked_cases kind e b with h | h
      · rw [h]
      · rw [h, keyAt_record]
    exact heffect.coherent (WellFormed.looked hwf kind e b) hdated hfew hcoherent
  · exact hP.of_rest rfl (fun _ => rfl) rfl rfl rfl rfl
  · have hunpended : ({ s with pendSv := false } : KState).CoherentWhile :=
      hP.of_rest rfl (fun _ => rfl) rfl rfl rfl rfl
    exact hunpended.of_sameRegions (sameRegions_updateContext _ rfl) (.of_history rfl rfl)
  · exact hP.of_sameRegions (sameRegions_setKeyAt _ (by simp) _) (.setKeyAt _ _ _)
  · exact hP.of_rest rfl (fun _ => rfl) rfl rfl rfl rfl
  · exact hP.of_rest rfl (fun _ => rfl) rfl rfl rfl rfl
  · exact coherent_loaded rfl

/-- Boot loads the MPU. -/
theorem Booted.coherent {app : AppInfo} (h : Booted app s) : s.Coherent := by
  intro i
  left
  rw [InStep, h.mpu, region, h.current]

end

/-- The first Context invalidates its own Memory without waiting for the reply. -/
def Sample.revokeOwn : List Action := [send 4 1 3#32 0#32 0#32 0#32]

/-- A region can lag: the running Context still reaches Memory through a revoked key. -/
theorem mpu_lags : ∃ s : KState, Reachable (.source Sample.etl) Sample.app s ∧
    s.isLive (s.region 0) = false ∧ (s.mpu 0).covers 0x20000000#32 = true := by
  have hrun : Sample.passes (fun s => s.isLive (s.region 0) = false ∧
      (s.mpu 0).covers 0x20000000#32 = true) (Sample.after Sample.revokeOwn) = true := by decide_cbv
  obtain ⟨s, -, hreach, htest⟩ := Sample.exists_of_passes hrun
  exact ⟨s, hreach, of_decide_eq_true htest⟩

end BrittleKernel
