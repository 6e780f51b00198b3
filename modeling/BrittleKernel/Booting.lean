import BrittleKernel.Steps

/-!
# The Booted State

What boot leaves behind: the Object Table as the application's header describes it, the
first Context runnable with the Object Table key and its memory grants, and everything
else empty.
-/

namespace BrittleKernel

open Hoare KState

/-! ## What the header asks for -/

namespace AppInfo

variable (app : AppInfo)

/-- Number of Object Table entries. -/
def tableSize : Word :=
  BitVec.ofNat 32 wellKnownObjectCount + app.memoryMapCount + app.deviceMapCount
    + app.extraSlotCount

/-- Number of Memory objects made from the map. -/
def memories : Nat := (app.tableSize - app.extraSlotCount - BitVec.ofNat 32 wellKnownObjectCount).toNat

/-- Number of Slots. -/
def slots : Nat := (app.tableSize - (app.tableSize - app.extraSlotCount)).toNat

/-- The Memory object made from an entry of the map. -/
def bootMemory (i : Nat) : Memory :=
  let base := (app.memoryMap i).base
  let size := (app.memoryMap i).end - (app.memoryMap i).base
  { base := base
    size := size
    attributes := Memory.initAttributes base size
      (if i ≥ app.memoryMapCount.toNat then Memory.deviceAttributeMask else 0#32) }

/-- The kind of each entry after boot. -/
def bootKind (e : TableIndex) : Kind :=
  if e = 0 then .null
  else if e = 1 then .objectTable
  else if e = 2 then .context
  else if e < wellKnownObjectCount + app.memories then .memory
  else if e < wellKnownObjectCount + app.memories + app.slots then .slot
  else .null

end AppInfo

/-- The state at the end of a boot. -/
structure Booted (app : AppInfo) (s : KState) : Prop where
  count : s.count = app.tableSize.toNat
  tableSize : wellKnownObjectCount + app.memories + app.slots = app.tableSize.toNat
  kind : s.kind = app.bootKind
  generation : s.generation = fun _ => 0#32
  memory : s.memory = fun e =>
    if wellKnownObjectCount ≤ e ∧ e < wellKnownObjectCount + app.memories then
      app.bootMemory (e - wellKnownObjectCount)
    else {}
  noWrap : ∀ i < app.memories,
    ¬(app.bootMemory i).base + (app.bootMemory i).size < (app.bootMemory i).base
  others : ∀ c, c ≠ 2 → s.context c = {}
  keys : (s.context 2).keys = Function.update (fun _ => {}) 1 (s.filled 1 0#64)
  regions : ∀ i, ∃ (e : TableIndex) (b : Word), e < s.count ∧
    (s.context 2).regions i = s.filled e (b.setWidth 64)
  expected : (s.context 2).expectedReplyBrand = Brand.topMask
  interrupt : s.interrupt = fun _ => {}
  current : s.current = 2
  switchPending : s.switchPending = false
  pendSv : s.pendSv = false
  irqTable : s.irqTable = fun _ => none
  irqEnabled : s.irqEnabled = fun _ => false
  mpu : s.mpu = fun i => s.regionOf ((s.context 2).regions i)
  history : s.history = [.switched 2]
  wellFormed : s.WellFormed
  runnable : s.Sits 2 .runnable

namespace Boot

/-- The Object Table as boot builds it, before the first Context is prepared. -/
def built (app : AppInfo) (machine : Machine) (body : Word) : KState :=
  { count := app.tableSize.toNat
    irqCount := (app.externalInterruptCount + 1#32).toNat
    ram := machine.ram
    kind := app.bootKind
    memory := fun e =>
      if wellKnownObjectCount ≤ e ∧ e < wellKnownObjectCount + app.memories then
        app.bootMemory (e - wellKnownObjectCount)
      else {}
    context := Function.update (fun _ => {}) 2 { expectedReplyBrand := Brand.topMask }
    bodyAddr := Function.update (fun _ => 0#32) 2 body }

/-- The state after the first `n` Memory objects have been made. -/
def partway (app : AppInfo) (machine : Machine) (body : Word) (n : Nat) : KState :=
  { built app machine body with
    kind := fun e =>
      if e = 0 then .null
      else if e = 1 then .objectTable
      else if e = 2 then .context
      else if e < wellKnownObjectCount + n then .memory
      else .null
    memory := fun e =>
      if wellKnownObjectCount ≤ e ∧ e < wellKnownObjectCount + n then
        app.bootMemory (e - wellKnownObjectCount)
      else {} }

variable {app : AppInfo} {machine : Machine} {body : Word}

theorem createMemoryObjects_spec :
    wp (createMemoryObjects app app.memories)
      (fun _ s => s = partway app machine body app.memories ∧
        ∀ i < app.memories,
          ¬(app.bootMemory i).base + (app.bootMemory i).size < (app.bootMemory i).base)
      (fun _ _ => True) (partway app machine body 0) := by
  refine wp_forM_range (I := fun n s => s = partway app machine body n ∧
    ∀ i < n, ¬(app.bootMemory i).base + (app.bootMemory i).size < (app.bootMemory i).base)
    (fun n _ s ⟨hs, hwrap⟩ => ?_) ⟨rfl, by simp⟩
  subst hs
  rw [wp_construct_root]
  refine ⟨fun _ => trivial, fun hn => ⟨?_, fun i hi => ?_⟩⟩
  · apply KState.ext <;> try rfl
    · refine funext fun (e : Nat) => ?_
      by_cases he : e = wellKnownObjectCount + n
      · subst he
        simp only [buildMemory, partway, Function.update_self]
        grind
      · have hlt : e < wellKnownObjectCount + (n + 1) ↔ e < wellKnownObjectCount + n := by omega
        simp [buildMemory, partway, he, hlt]
    · refine funext fun (e : Nat) => ?_
      by_cases he : e = wellKnownObjectCount + n
      · subst he
        simp [buildMemory, partway, AppInfo.bootMemory]
      · have hlt : e < wellKnownObjectCount + (n + 1) ↔ e < wellKnownObjectCount + n := by omega
        simp [buildMemory, partway, he, hlt]
  · rcases Nat.lt_succ_iff_lt_or_eq.mp hi with hi | rfl
    · exact hwrap i hi
    · exact hn

theorem fillExtraSlots_spec {start : Nat} (hstart : start = wellKnownObjectCount + app.memories) :
    wp (fillExtraSlots start app.slots) (fun _ s => s = built app machine body)
      never (partway app machine body app.memories) := by
  simp only [fillExtraSlots, wp_modify]
  apply KState.ext <;> try rfl
  refine funext fun (e : Nat) => ?_
  subst hstart
  simp only [partway, built, AppInfo.bootKind]
  grind

/-- The first Context with some of its region registers filled. -/
def granted (app : AppInfo) (machine : Machine) (body : Word)
    (regions : Fin nTaskRegions → Key) : KState :=
  (built app machine body).updateContext 2 fun b => { b with regions := regions }

/-- The memory grants of the header. -/
theorem grants_spec :
    wp ((List.finRange 4).forM fun i => do
        let grant := app.initialTaskGrants i
        panicUnless (grant.memoryIndex.toNat < (← get).count) .indexOutOfRange
        let key ← maybeRef (← makeKey grant.memoryIndex.toNat (grant.brand.setWidth 64))
        modify (·.setKeyAt (.regionReg 2 (i.castLE (by decide))) key) : K Unit)
      (fun _ s => ∃ regions, s = granted app machine body regions ∧
        ∀ i, regions i = {} ∨ ∃ (e : TableIndex) (b : Word), e < app.tableSize.toNat ∧
          regions i = (built app machine body).filled e (b.setWidth 64))
      (fun _ _ => True) (built app machine body) := by
  refine wp_forM (I := fun s => ∃ regions, s = granted app machine body regions ∧
      ∀ i, regions i = {} ∨ ∃ (e : TableIndex) (b : Word), e < app.tableSize.toNat ∧
        regions i = (built app machine body).filled e (b.setWidth 64)) ?_ ⟨fun _ => {}, ?_, fun _ => .inl rfl⟩
  · rintro i - s ⟨regions, rfl, hregions⟩
    simp only [panicUnless, wp_bind, wp_get, wp_ite, wp_pure, wp_throw, makeKey, maybeRef, wp_modify,
      decide_eq_true_eq]
    refine ⟨fun hindex => ⟨Function.update regions (i.castLE (by decide))
      ((built app machine body).filled (app.initialTaskGrants i).memoryIndex.toNat
        ((app.initialTaskGrants i).brand.setWidth 64)), ?_, fun j => ?_⟩, fun _ => trivial⟩
    · simp [granted, setKeyAt, updateContext, filled]
    · by_cases hj : j = i.castLE (by decide)
      · subst hj
        exact .inr ⟨(app.initialTaskGrants i).memoryIndex.toNat, (app.initialTaskGrants i).brand,
          hindex, by simp⟩
      · simpa [hj] using hregions j
  · have hbody : ({ (built app machine body).context 2 with regions := fun _ => {} } : Context) =
        (built app machine body).context 2 := by
      simp [built]
    simp only [granted, updateContext, hbody, Function.update_eq_self]

theorem built_wellFormed
    (hsize : wellKnownObjectCount + app.memories + app.slots = app.tableSize.toNat) :
    (built app machine body).WellFormed where
  null := by simp [built, AppInfo.bootKind]
  inTable := by
    intro (e : Nat) he
    simp only [built, AppInfo.bootKind] at he ⊢
    grind
  threaded := by
    have hring : ∀ r, ((built app machine body).item r).ring = none := by
      rintro (c | c | i)
      · by_cases hc : c = 2 <;> simp [built, item, hc]
      · by_cases hc : c = 2 <;> simp [built, item, hc]
      · simp [built, item]
    exact ⟨fun q r => by rw [hring]; simp [built], fun q => by simp [built]⟩
  context c := by
    refine ⟨.stopped, ?_, by simp, by simp [Seat.gate]⟩
    by_cases hc : c = 2 <;> exact ⟨by simp [built, hc, Seat.state], by simp [built, hc, Seat.ctxList],
      by simp [built, hc, Seat.senderList]⟩
  interrupt i := ⟨none, by simp [built], by simp, by simp⟩
  contextPriority c := by by_cases hc : c = 2 <;> simp [built, hc]
  interruptPriority i := by simp [built]

/-- The first Context just before it is made runnable. -/
def prepared (app : AppInfo) (machine : Machine) (body : Word) (regions : Fin nTaskRegions → Key)
    (ram : Word → Byte) (save : SavedRegisters) : KState :=
  { ((granted app machine body regions).loadMpu 2).updateContext 2 fun b =>
      { b with
        save := save
        keys := Function.update b.keys 1 ((built app machine body).filled 1 0#64) } with
    ram := ram }

theorem prepared_sameSeats (regions : Fin nTaskRegions → Key) (ram : Word → Byte)
    (save : SavedRegisters) :
    SameSeats (built app machine body) (prepared app machine body regions ram save) := by
  refine ⟨rfl, rfl, rfl, fun c => ?_, fun _ => .refl _⟩
  by_cases hc : c = 2
  · subst hc
    simpa [prepared, granted, loadMpu, updateContext] using ⟨rfl, rfl, rfl, rfl⟩
  · simpa [prepared, granted, loadMpu, updateContext, hc] using SameSeat.refl _

/-- The state after the first switch. -/
def started (app : AppInfo) (machine : Machine) (body : Word) (regions : Fin nTaskRegions → Key)
    (ram : Word → Byte) (save : SavedRegisters) : KState :=
  ({ ((prepared app machine body regions ram save).reseat 2 .runnable).pend with
      switchPending := false } : KState).switchTo 2

theorem prepared_wellFormed
    (hsize : wellKnownObjectCount + app.memories + app.slots = app.tableSize.toNat)
    (regions : Fin nTaskRegions → Key) (ram : Word → Byte) (save : SavedRegisters) :
    (prepared app machine body regions ram save).WellFormed :=
  (built_wellFormed hsize).of_sameSeats (prepared_sameSeats regions ram save)

/-- Before the first Context is made runnable, every Context is stopped. -/
theorem prepared_stopped (app : AppInfo) (machine : Machine) (body : Word)
    (regions : Fin nTaskRegions → Key) (ram : Word → Byte) (save : SavedRegisters) (c : TableIndex) :
    (prepared app machine body regions ram save).Sits c .stopped := by
  refine (prepared_sameSeats regions ram save).sits ⟨?_, by simp, by simp [Seat.gate]⟩
  by_cases hc : c = 2
  · subst hc
    exact ⟨by simp [built, Seat.state], by simp [built, Seat.ctxList],
      by simp [built, Seat.senderList]⟩
  · exact ⟨by simp [built, hc, Seat.state], by simp [built, hc, Seat.ctxList],
      by simp [built, hc, Seat.senderList]⟩

theorem started_booted
    (hsize : wellKnownObjectCount + app.memories + app.slots = app.tableSize.toNat)
    (hwrap : ∀ i < app.memories,
      ¬(app.bootMemory i).base + (app.bootMemory i).size < (app.bootMemory i).base)
    {regions : Fin nTaskRegions → Key} (ram : Word → Byte) (save : SavedRegisters)
    (hregions : ∀ i, regions i = {} ∨ ∃ (e : TableIndex) (b : Word), e < app.tableSize.toNat ∧
      regions i = (built app machine body).filled e (b.setWidth 64)) :
    Booted app (started app machine body regions ram save) := by
  have hkind : (prepared app machine body regions ram save).kind 2 = .context := by
    simp [prepared, loadMpu, granted, built, AppInfo.bootKind]
  have hwf := (prepared_wellFormed hsize regions ram save).reseat 2 .runnable
    (fun _ => hkind) (by simp [Seat.gate])
  have hsits := sits_reseat (prepared app machine body regions ram save) 2 .runnable
    (fun _ => hkind) (by simp [Seat.gate])
  have hsame : SameSeats ((prepared app machine body regions ram save).reseat 2 .runnable)
      (started app machine body regions ram save) := by
    refine ⟨rfl, rfl, rfl, fun c => ?_, fun _ => .refl _⟩
    by_cases hc : c = 2
    · subst hc
      simpa [started, switchTo, loadMpu, pend] using ⟨rfl, rfl, rfl, rfl⟩
    · simpa [started, switchTo, loadMpu, pend, hc] using SameSeat.refl _
  have hother : ∀ c, c ≠ 2 → (started app machine body regions ram save).context c =
      (built app machine body).context c := by
    intro c hc
    simp [started, switchTo, loadMpu, pend, reseat, prepared, granted, hc]
  have hkeys : ((started app machine body regions ram save).context 2).keys =
      Function.update (fun _ => {}) 1 ((built app machine body).filled 1 0#64) := by
    simp [started, switchTo, loadMpu, pend, reseat, prepared, granted, built]
  have hexpected : ((started app machine body regions ram save).context 2).expectedReplyBrand =
      Brand.topMask := by
    simp [started, switchTo, loadMpu, pend, reseat, prepared, granted, built]
  have hresolved : ((started app machine body regions ram save).context 2).regions =
      fun i => (built app machine body).resolve ((built app machine body).resolve (regions i)) := by
    simp only [started, switchTo, loadMpu, pend, reseat, prepared, granted, Function.update_self,
      context_updateContext, context_record]
    rfl
  have hmpu : (started app machine body regions ram save).mpu =
      fun i => (built app machine body).regionOf ((built app machine body).resolve (regions i)) := by
    simp only [started, switchTo, loadMpu, pend, reseat, prepared, granted, Function.update_self,
      context_updateContext, context_record]
    rfl
  exact {
    count := rfl
    tableSize := hsize
    kind := rfl
    generation := rfl
    memory := rfl
    noWrap := hwrap
    others := fun c hc => by simp [hother c hc, built, hc]
    keys := hkeys
    regions := fun i => by
      have hi := congrFun hresolved i
      rcases hregions i with h | ⟨e, b, he, h⟩
      · refine ⟨0, 0#32, ?_, by rw [hi]; simp only [h]; rfl⟩
        show 0 < app.tableSize.toNat
        simp only [← hsize, wellKnownObjectCount]
        omega
      · have hlive : (built app machine body).isLive
            ((built app machine body).filled e (b.setWidth 64)) := by simp [isLive, filled]
        exact ⟨e, b, he, by rw [hi]; simp only [h, resolve, hlive, if_true]; rfl⟩
    expected := hexpected
    interrupt := rfl
    current := rfl
    switchPending := rfl
    pendSv := rfl
    irqTable := rfl
    irqEnabled := rfl
    mpu := by
      rw [hmpu, hresolved]
      refine funext fun i => ?_
      exact (regionOf_resolve (built app machine body) _).symm
    history := rfl
    wellFormed := hwf.of_sameSeats hsame
    runnable := hsame.sits hsits }

theorem wp_sliceLength {count first last : Word} {Q : Nat → KState → Prop}
    {E : Panic → KState → Prop} {s : KState}
    (hQ : first ≤ last → last ≤ count → Q (last - first).toNat s)
    (hE : E .sliceOutOfRange s) : wp (sliceLength count first last) Q E s := by
  simp only [sliceLength, panicUnless, wp_bind, wp_ite, wp_pure, wp_throw]
  refine ⟨fun _ => ⟨fun h => ?_, fun _ => hE⟩, fun _ => hE⟩
  have h' : first ≤ last ∧ last ≤ count := by simpa using h
  exact hQ h'.1 h'.2

/-- A store only changes the contents of memory. -/
theorem wp_ustore {a w : Word} {Q : Bool → KState → Prop} {E : Panic → KState → Prop} {s : KState}
    (hQ : ∀ stored ram, Q stored { s with ram := ram }) : wp (ustore a w) Q E s := by
  simp only [ustore, wp_bind, wp_get, wp_ite, wp_set, wp_pure]
  exact ⟨fun _ => hQ true _, fun _ => hQ false s.ram⟩

/-- `prepare_first_context` and the first switch. -/
theorem prepareFirstContext_spec
    (hsize : wellKnownObjectCount + app.memories + app.slots = app.tableSize.toNat)
    (hwrap : ∀ i < app.memories,
      ¬(app.bootMemory i).base + (app.bootMemory i).size < (app.bootMemory i).base) :
    wp (do prepareFirstContext app; doDeferredSwitch : K Unit) (fun _ s => Booted app s)
      (fun _ _ => True) (built app machine body) := by
  simp only [prepareFirstContext, bind_assoc]
  refine wp_seq_throws grants_spec (fun _ s h => ?_) fun _ _ _ => trivial
  obtain ⟨regions, rfl, hregions⟩ := h
  have hfinish : ∀ ram, wp (do
        modify (·.updateContext 2 fun b =>
          { b with save := Function.update b.save 9 (app.initialTaskSp - 32#32) })
        let tableKey ← maybeRef (← makeKey 1 0#64)
        modify (·.setKeyAt (.keyReg 2 1) tableKey)
        Context.makeRunnable 2
        doDeferredSwitch : K Unit) (fun _ s => Booted app s) (fun _ _ => True)
      { (granted app machine body regions).loadMpu 2 with ram := ram } := by
    intro ram
    have hstate : ∃ save, (({ (granted app machine body regions).loadMpu 2 with ram := ram }
          : KState).updateContext 2 fun b =>
            { b with save := Function.update b.save 9 (app.initialTaskSp - 32#32) }).setKeyAt
          (.keyReg 2 1) ((built app machine body).filled 1 0#64) =
        prepared app machine body regions ram save := by
      refine ⟨Function.update (fun _ => 0#32) 9 (app.initialTaskSp - 32#32), ?_⟩
      simp [setKeyAt, updateContext, prepared, loadMpu, granted, built]
    obtain ⟨save, hstate⟩ := hstate
    have hkey : (({ (granted app machine body regions).loadMpu 2 with ram := ram }
          : KState).updateContext 2 fun b =>
            { b with save := Function.update b.save 9 (app.initialTaskSp - 32#32) }).filled 1 0#64 =
        (built app machine body).filled 1 0#64 := rfl
    simp only [wp_bind, wp_modify, makeKey, maybeRef, wp_get, wp_pure, hkey, hstate]
    rw [wp_makeRunnable_loose (prepared_wellFormed hsize regions ram save)
      (prepared_stopped app machine body regions ram save 2) rfl rfl]
    have hkind : (prepared app machine body regions ram save).kind 2 = .context := by
      simp [prepared, loadMpu, granted, built, AppInfo.bootKind]
    have hwf := (prepared_wellFormed hsize regions ram save).reseat 2 .runnable
      (fun _ => hkind) (by simp [Seat.gate])
    refine doDeferredSwitch_spec (hwf.of_sameSeats (sameSeats_pend _)) (fun h => by simp [pend] at h)
      (fun c hc => ?_) fun _ => trivial
    have hc2 : c = 2 := by
      by_contra hne
      have hstopped := sits_reseat_of_ne hne .runnable
        (prepared_stopped app machine body regions ram save c)
      simpa using ((sameSeats_pend _).sits hstopped).unique hc
    subst hc2
    exact started_booted hsize hwrap ram save hregions
  rw [wp_bind, wp_applyToMpu, wp_bind]
  refine wp_ustore fun stored ram => ?_
  have hchecked : ∀ pcStored ram, wp (do
        panicUnless pcStored .initialStackFault
        modify (·.updateContext 2 fun b =>
          { b with save := Function.update b.save 9 (app.initialTaskSp - 32#32) })
        let tableKey ← maybeRef (← makeKey 1 0#64)
        modify (·.setKeyAt (.keyReg 2 1) tableKey)
        Context.makeRunnable 2
        doDeferredSwitch : K Unit) (fun _ s => Booted app s) (fun _ _ => True)
      { (granted app machine body regions).loadMpu 2 with ram := ram } := by
    intro pcStored ram
    rw [wp_bind, panicUnless, wp_ite, wp_pure, wp_throw]
    exact ⟨fun _ => hfinish ram, fun _ => trivial⟩
  cases stored with
  | true =>
    simp only [if_true, bind_assoc]
    rw [wp_bind]
    exact wp_ustore fun pcStored ram => hchecked pcStored ram
  | false =>
    simp only [Bool.false_eq_true, if_false, bind_assoc, pure_bind]
    exact hchecked false ram

theorem startApp_spec :
    wp (startApp app machine) (fun _ s => Booted app s) (fun _ _ => True) {} := by
  simp only [startApp, wp_bind, panicUnless, panicIf, wp_ite, wp_pure, wp_throw]
  refine ⟨fun _ => ?_, fun _ => trivial⟩
  cases machine.firstContextBody with
  | none => trivial
  | some body =>
    simp only [wp_bind, wp_ite, wp_throw, wp_pure, wp_set, initializeWellKnownObjects, wp_modify]
    refine ⟨fun _ => trivial, fun _ => ⟨fun h2 => ?_, fun _ => trivial⟩⟩
    refine wp_sliceLength (fun h₁ h₂ => ?_) trivial
    change app.tableSize - app.extraSlotCount ≤ app.tableSize at h₂
    change BitVec.ofNat 32 wellKnownObjectCount ≤ app.tableSize - app.extraSlotCount at h₁
    have hstart : (app.tableSize - app.extraSlotCount).toNat =
        wellKnownObjectCount + app.memories := by
      simp only [AppInfo.memories, BitVec.le_def, BitVec.toNat_sub, BitVec.toNat_ofNat,
        wellKnownObjectCount] at *
      omega
    have hsize : wellKnownObjectCount + app.memories + app.slots = app.tableSize.toNat := by
      rw [← hstart]
      simp only [AppInfo.slots, BitVec.le_def, BitVec.toNat_sub] at *
      omega
    have hpartway : ({ count := app.tableSize.toNat
                       irqCount := (app.externalInterruptCount + 1#32).toNat
                       ram := machine.ram
                       kind := Function.update (Function.update (Function.update (fun _ => .null) 0
                         .null) 1 .objectTable) 2 .context
                       context := Function.update (fun _ => {}) 2
                         { expectedReplyBrand := Brand.topMask }
                       bodyAddr := Function.update (fun _ => 0#32) 2 body } : KState) =
        partway app machine body 0 := by
      apply KState.ext <;> try rfl
      · refine funext fun (e : Nat) => ?_
        have he : ¬(wellKnownObjectCount ≤ e ∧ e < wellKnownObjectCount + 0) := by omega
        have he' : e = 0 ∨ e = 1 ∨ e = 2 ∨ ¬e < wellKnownObjectCount + 0 ∧ e ≠ 0 ∧ e ≠ 1 ∧ e ≠ 2 := by
          simp only [wellKnownObjectCount]
          omega
        rcases he' with rfl | rfl | rfl | ⟨h, h0, h1, h2⟩
        · rfl
        · rfl
        · rfl
        · simp [partway, h, h0, h1, h2]
      · refine funext fun (e : Nat) => ?_
        have he : ¬(wellKnownObjectCount ≤ e ∧ e < wellKnownObjectCount + 0) := by omega
        exact (if_neg he).symm
    simp only [← wp_bind]
    refine (congrArg (wp _ _ _) hpartway).mpr ?_
    refine wp_seq_throws createMemoryObjects_spec
      (fun _ s h => ?_) fun _ _ h => h
    obtain ⟨rfl, hwrap⟩ := h
    refine (wp_bind _ _).mpr (wp_sliceLength (fun _ _ => ?_) trivial)
    refine wp_seq (fillExtraSlots_spec hstart) fun _ s h => ?_
    subst h
    exact prepareFirstContext_spec hsize hwrap

end Boot

/-- A boot that does not panic ends in a booted state. -/
theorem Boots.booted {app : AppInfo} {machine : Machine} {s : KState} (h : Boots app machine s) :
    Booted app s :=
  wp_ok (a := ()) (Q := fun _ s => Booted app s) Boot.startApp_spec h

end BrittleKernel
