import BrittleKernel.Sends

/-!
# Effects of Methods

What a method of a kernel object can do to the state, and with which reply.  The effects
are stated as state updates; `serve_effect` shows that they are all there is, and which
consistency checks a method can run into.
-/

namespace BrittleKernel

open Hoare

namespace KState

/-! ## Loading the MPU -/

/-- The region that a region register's key stands for. -/
def regionOf (s : KState) (k : Key) : Region := s.regionForBrand (s.target k) (s.resolve k).brand

/-- The effect of `apply_to_mpu` on the region registers in a list. -/
def loadRegions (s : KState) (c : TableIndex) (l : List (Fin nTaskRegions)) : KState :=
  { s with
    context := Function.update s.context c
      { s.context c with
        regions := fun i =>
          if i ∈ l then s.resolve ((s.context c).regions i) else (s.context c).regions i }
    mpu := fun i => if i ∈ l then s.regionOf ((s.context c).regions i) else s.mpu i }

/-- The effect of `apply_to_mpu`: stale region keys are nulled, and the MPU holds what the
keys stand for. -/
def loadMpu (s : KState) (c : TableIndex) : KState :=
  { s with
    context := Function.update s.context c
      { s.context c with regions := fun i => s.resolve ((s.context c).regions i) }
    mpu := fun i => s.regionOf ((s.context c).regions i) }

theorem isLive_nullKey (s : KState) : s.isLive s.nullKey = true := by
  simp [isLive, nullKey, filled]

@[simp] theorem resolve_resolve (s : KState) (k : Key) : s.resolve (s.resolve k) = s.resolve k := by
  by_cases h : s.isLive k = true
  · simp [resolve, h]
  · simp [resolve, h, isLive_nullKey]

@[simp] theorem regionOf_resolve (s : KState) (k : Key) : s.regionOf (s.resolve k) = s.regionOf k := by
  simp [regionOf, target]

theorem regions_loadRegions (s : KState) (c : TableIndex) (l : List (Fin nTaskRegions))
    (j : Fin nTaskRegions) :
    ((s.loadRegions c l).context c).regions j =
      if j ∈ l then s.resolve ((s.context c).regions j) else (s.context c).regions j := by
  simp [loadRegions]

theorem mpu_loadRegions (s : KState) (c : TableIndex) (l : List (Fin nTaskRegions))
    (j : Fin nTaskRegions) :
    (s.loadRegions c l).mpu j =
      if j ∈ l then s.regionOf ((s.context c).regions j) else s.mpu j := rfl

theorem loadRegions_cons (s : KState) (c : TableIndex) (i : Fin nTaskRegions)
    (l : List (Fin nTaskRegions)) :
    (s.loadRegions c [i]).loadRegions c l = s.loadRegions c (i :: l) := by
  have hresolve : ∀ k, (s.loadRegions c [i]).resolve k = s.resolve k := fun _ => rfl
  have hregion : ∀ k, (s.loadRegions c [i]).regionOf k = s.regionOf k := fun _ => rfl
  have hcontext : ((s.loadRegions c [i]).loadRegions c l).context =
      (s.loadRegions c (i :: l)).context := by
    funext x
    by_cases hx : x = c
    · subst hx
      apply Context.ext
      case regions =>
        funext j
        simp only [regions_loadRegions, hresolve, List.mem_cons]
        by_cases hj : j = i <;> by_cases hl : j ∈ l <;> simp [hj, hl]
      all_goals simp [loadRegions]
    · simp [loadRegions, hx]
  have hmpu : ((s.loadRegions c [i]).loadRegions c l).mpu = (s.loadRegions c (i :: l)).mpu := by
    funext j
    simp only [mpu_loadRegions, regions_loadRegions, hregion, List.mem_cons]
    by_cases hj : j = i <;> by_cases hl : j ∈ l <;> simp [hj, hl]
  apply KState.ext <;> first | exact hcontext | exact hmpu | rfl

/-- Checking one region key and loading its region. -/
theorem setMpu_eq_loadRegions (s : KState) (c : TableIndex) (i : Fin nTaskRegions) :
    (if s.isLive (s.keyAt (.regionReg c i)) then s
      else s.setKeyAt (.regionReg c i) s.nullKey).setMpu i
        (s.regionOf (s.keyAt (.regionReg c i))) = s.loadRegions c [i] := by
  have hmpu : Function.update s.mpu i (s.regionOf ((s.context c).regions i)) =
      (s.loadRegions c [i]).mpu := by
    funext j
    by_cases hj : j = i
    · subst hj; simp [mpu_loadRegions]
    · simp [mpu_loadRegions, hj]
  cases hlive : s.isLive ((s.context c).regions i) with
  | true =>
    have hcontext : s.context = (s.loadRegions c [i]).context := by
      funext x
      by_cases hx : x = c
      · subst hx
        apply Context.ext
        case regions =>
          funext j
          rw [regions_loadRegions]
          by_cases hj : j = i
          · subst hj; simp [resolve, hlive]
          · simp [hj]
        all_goals simp [loadRegions]
      · simp [loadRegions, hx]
    simp only [keyAt, hlive, if_true]
    apply KState.ext <;> first | exact hcontext | exact hmpu | rfl
  | false =>
    have hcontext : (s.setKeyAt (.regionReg c i) s.nullKey).context =
        (s.loadRegions c [i]).context := by
      funext x
      by_cases hx : x = c
      · subst hx
        apply Context.ext
        case regions =>
          funext j
          rw [regions_loadRegions]
          by_cases hj : j = i
          · subst hj; simp [setKeyAt, resolve, hlive]
          · simp [setKeyAt, hj]
        all_goals simp [setKeyAt, loadRegions]
      · simp [setKeyAt, loadRegions, hx]
    simp only [keyAt, hlive, Bool.false_eq_true, if_false]
    apply KState.ext <;> first | exact hcontext | exact hmpu | rfl

end KState

open KState

section

variable {s : KState} {Q : PUnit → KState → Prop} {E : Panic → KState → Prop}

theorem wp_applyToMpu (c : TableIndex) :
    wp (applyToMpu c) Q E s ↔ Q ⟨⟩ (s.loadMpu c) := by
  have hbody : ∀ {s : KState} {Q : PUnit → KState → Prop} (i : Fin nTaskRegions),
      wp (do
        let object ← keyGet (.regionReg c i)
        let s ← get
        let region := s.regionForBrand object (s.keyAt (.regionReg c i)).brand
        set (s.setMpu i region) : K Unit) Q E s ↔ Q ⟨⟩ (s.loadRegions c [i]) := by
    intro s Q i
    have hkey : s.regionOf (s.keyAt (.regionReg c i)) =
        s.regionForBrand (s.target (s.keyAt (.regionReg c i)))
          (s.resolve (s.keyAt (.regionReg c i))).brand := rfl
    simp only [wp_bind, wp_keyGet, wp_get, wp_set]
    rw [← setMpu_eq_loadRegions, hkey]
    cases hlive : s.isLive (s.keyAt (.regionReg c i)) with
    | true => simp [resolve, hlive]
    | false =>
      have hnull : (s.setKeyAt (.regionReg c i) s.nullKey).keyAt (.regionReg c i) = s.nullKey := by
        simp [setKeyAt, keyAt]
      simp only [Bool.false_eq_true, if_false, hnull, resolve, hlive]
      rfl
  have hloop : ∀ (l : List (Fin nTaskRegions)) {s : KState},
      wp (l.forM fun i => do
        let object ← keyGet (.regionReg c i)
        let s ← get
        let region := s.regionForBrand object (s.keyAt (.regionReg c i)).brand
        set (s.setMpu i region)) Q E s ↔ Q ⟨⟩ (s.loadRegions c l) := by
    intro l
    induction l with
    | nil =>
      intro s
      have hnone : s.loadRegions c [] = s := by simp [loadRegions]
      rw [hnone]
      rfl
    | cons i l ih =>
      intro s
      change wp (_ >>= fun _ => l.forM _) Q E s ↔ _
      rw [wp_bind, hbody, ih, loadRegions_cons]
  have hall : s.loadRegions c (List.finRange nTaskRegions) = s.loadMpu c := by
    simp [loadRegions, loadMpu]
  rw [← hall]
  exact hloop _

end

/-! ## Changes to the Object Table -/

namespace KState

/-- An entry's next generation. -/
def bump (s : KState) (e : TableIndex) : KState :=
  { s with generation := Function.update s.generation e (s.generation e + 1#32) }.record
    (.generationAdvanced e (s.generation e))

/-- A new Memory object in an entry; its parent counts it. -/
def buildMemory (s : KState) (e : TableIndex) (base size attributes : Word)
    (parent : Option TableIndex) : KState :=
  let t :=
    { s with
      kind := Function.update s.kind e .memory
      memory := Function.update s.memory e
        { base := base
          size := size
          attributes := Memory.initAttributes base size attributes
          parent := parent
          childCount := 0#32 } }
  match parent with
  | none => t
  | some p => t.updateMemory p fun m => { m with childCount := m.childCount + 1#32 }

/-- A Memory object leaves its parent. -/
def orphan (s : KState) (e : TableIndex) : KState :=
  match (s.memory e).parent with
  | none => s
  | some p =>
    (s.updateMemory p fun m => { m with childCount := m.childCount - 1#32 }).updateMemory e
      fun m => { m with parent := none }

/-- Split: the slot takes the top piece and the entry keeps the bottom piece. -/
def splitMemory (s : KState) (e slot : TableIndex) (pos : Word) : KState :=
  let m := s.memory e
  let top := (s.bump slot).buildMemory slot (m.base + pos) (m.size - pos) m.attributes none
  let bottom := ((top.orphan e).bump e).buildMemory e m.base pos m.attributes none
  bottom.loadMpu bottom.current

/-- Make Child: the slot takes the child. -/
def makeChildMemory (s : KState) (e slot : TableIndex) (base size : Word) : KState :=
  (s.bump slot).buildMemory slot base size (s.memory e).attributes (some e)

/-- A new object of the given type, in an entry whose Memory was given up. -/
def buildObject (s : KState) (t : TypeCode) (e : TableIndex) (body argument : Word) : KState :=
  match t with
  | .context =>
    { s with
      kind := Function.update s.kind e .context
      bodyAddr := Function.update s.bodyAddr e body
      context := Function.update s.context e { expectedReplyBrand := Brand.topMask } }
  | .gate =>
    { s with
      kind := Function.update s.kind e .gate
      bodyAddr := Function.update s.bodyAddr e body
      queues := Function.update (Function.update s.queues (.senders e) fun _ => [])
        (.receivers e) fun _ => [] }
  | .interrupt =>
    { s with
      kind := Function.update s.kind e .interrupt
      bodyAddr := Function.update s.bodyAddr e body
      interrupt := Function.update s.interrupt e { identifier := argument }
      irqTable := Function.update s.irqTable (argument + 1#32).toNat (some e) }

/-- Become: the entry's Memory turns into another object. -/
def becomeObject (s : KState) (e : TableIndex) (t : TypeCode) (argument : Word) : KState :=
  let m := s.memory e
  let built := ((s.bump e).buildObject t e m.base argument).record (.donated e m.base m.size)
  built.loadMpu built.current

/-- What `invalidation_hook` does to each kind of object. -/
def invalidationHook (s : KState) (e : TableIndex) : KState :=
  match s.kind e with
  | .memory => s.loadMpu s.current
  | .context =>
    let t := (s.reseat e .stopped).advanceReply e
    if e = s.current then t.pend else t
  | .interrupt =>
    let ident := (s.interrupt e).identifier
    { ({ s with irqEnabled := Function.update s.irqEnabled ident false } : KState).requeue e none with
      irqTable := Function.update s.irqTable (ident + 1#32).toNat none }
  | _ => s

/-- Invalidate: the hook runs, then the generation moves. -/
def invalidated (s : KState) (e : TableIndex) : KState := (s.invalidationHook e).bump e

/-! ### Frames of the changes -/

section Frames

variable (s : KState) (e : TableIndex)

@[simp] theorem kind_bump : (s.bump e).kind = s.kind := rfl

@[simp] theorem count_bump : (s.bump e).count = s.count := rfl

@[simp] theorem memory_bump : (s.bump e).memory = s.memory := rfl

@[simp] theorem context_bump : (s.bump e).context = s.context := rfl

@[simp] theorem interrupt_bump : (s.bump e).interrupt = s.interrupt := rfl

@[simp] theorem queues_bump : (s.bump e).queues = s.queues := rfl

@[simp] theorem current_bump : (s.bump e).current = s.current := rfl

@[simp] theorem mpu_bump : (s.bump e).mpu = s.mpu := rfl

@[simp] theorem irqTable_bump : (s.bump e).irqTable = s.irqTable := rfl

@[simp] theorem irqCount_bump : (s.bump e).irqCount = s.irqCount := rfl

@[simp] theorem irqEnabled_bump : (s.bump e).irqEnabled = s.irqEnabled := rfl

@[simp] theorem pendSv_bump : (s.bump e).pendSv = s.pendSv := rfl

@[simp] theorem switchPending_bump : (s.bump e).switchPending = s.switchPending := rfl

@[simp] theorem generation_bump :
    (s.bump e).generation = Function.update s.generation e (s.generation e + 1#32) := rfl

@[simp] theorem history_bump :
    (s.bump e).history = .generationAdvanced e (s.generation e) :: s.history := rfl

@[simp] theorem kind_loadMpu : (s.loadMpu e).kind = s.kind := rfl

@[simp] theorem count_loadMpu : (s.loadMpu e).count = s.count := rfl

@[simp] theorem generation_loadMpu : (s.loadMpu e).generation = s.generation := rfl

@[simp] theorem memory_loadMpu : (s.loadMpu e).memory = s.memory := rfl

@[simp] theorem interrupt_loadMpu : (s.loadMpu e).interrupt = s.interrupt := rfl

@[simp] theorem queues_loadMpu : (s.loadMpu e).queues = s.queues := rfl

@[simp] theorem current_loadMpu : (s.loadMpu e).current = s.current := rfl

@[simp] theorem irqTable_loadMpu : (s.loadMpu e).irqTable = s.irqTable := rfl

@[simp] theorem irqCount_loadMpu : (s.loadMpu e).irqCount = s.irqCount := rfl

@[simp] theorem irqEnabled_loadMpu : (s.loadMpu e).irqEnabled = s.irqEnabled := rfl

@[simp] theorem pendSv_loadMpu : (s.loadMpu e).pendSv = s.pendSv := rfl

@[simp] theorem switchPending_loadMpu : (s.loadMpu e).switchPending = s.switchPending := rfl

@[simp] theorem history_loadMpu : (s.loadMpu e).history = s.history := rfl

variable (base size attributes : Word) (parent : Option TableIndex)

@[simp] theorem kind_buildMemory :
    (s.buildMemory e base size attributes parent).kind = Function.update s.kind e .memory := by
  cases parent <;> rfl

@[simp] theorem count_buildMemory :
    (s.buildMemory e base size attributes parent).count = s.count := by
  cases parent <;> rfl

@[simp] theorem generation_buildMemory :
    (s.buildMemory e base size attributes parent).generation = s.generation := by
  cases parent <;> rfl

@[simp] theorem context_buildMemory :
    (s.buildMemory e base size attributes parent).context = s.context := by
  cases parent <;> rfl

@[simp] theorem interrupt_buildMemory :
    (s.buildMemory e base size attributes parent).interrupt = s.interrupt := by
  cases parent <;> rfl

@[simp] theorem queues_buildMemory :
    (s.buildMemory e base size attributes parent).queues = s.queues := by
  cases parent <;> rfl

@[simp] theorem current_buildMemory :
    (s.buildMemory e base size attributes parent).current = s.current := by
  cases parent <;> rfl

@[simp] theorem mpu_buildMemory :
    (s.buildMemory e base size attributes parent).mpu = s.mpu := by
  cases parent <;> rfl

@[simp] theorem irqTable_buildMemory :
    (s.buildMemory e base size attributes parent).irqTable = s.irqTable := by
  cases parent <;> rfl

@[simp] theorem irqCount_buildMemory :
    (s.buildMemory e base size attributes parent).irqCount = s.irqCount := by
  cases parent <;> rfl

@[simp] theorem irqEnabled_buildMemory :
    (s.buildMemory e base size attributes parent).irqEnabled = s.irqEnabled := by
  cases parent <;> rfl

@[simp] theorem pendSv_buildMemory :
    (s.buildMemory e base size attributes parent).pendSv = s.pendSv := by
  cases parent <;> rfl

@[simp] theorem switchPending_buildMemory :
    (s.buildMemory e base size attributes parent).switchPending = s.switchPending := by
  cases parent <;> rfl

@[simp] theorem history_buildMemory :
    (s.buildMemory e base size attributes parent).history = s.history := by
  cases parent <;> rfl

@[simp] theorem kind_orphan : (s.orphan e).kind = s.kind := by
  unfold orphan
  split <;> rfl

@[simp] theorem count_orphan : (s.orphan e).count = s.count := by
  unfold orphan
  split <;> rfl

@[simp] theorem generation_orphan : (s.orphan e).generation = s.generation := by
  unfold orphan
  split <;> rfl

@[simp] theorem context_orphan : (s.orphan e).context = s.context := by
  unfold orphan
  split <;> rfl

@[simp] theorem interrupt_orphan : (s.orphan e).interrupt = s.interrupt := by
  unfold orphan
  split <;> rfl

@[simp] theorem queues_orphan : (s.orphan e).queues = s.queues := by
  unfold orphan
  split <;> rfl

@[simp] theorem current_orphan : (s.orphan e).current = s.current := by
  unfold orphan
  split <;> rfl

@[simp] theorem mpu_orphan : (s.orphan e).mpu = s.mpu := by
  unfold orphan
  split <;> rfl

@[simp] theorem irqTable_orphan : (s.orphan e).irqTable = s.irqTable := by
  unfold orphan
  split <;> rfl

@[simp] theorem irqCount_orphan : (s.orphan e).irqCount = s.irqCount := by
  unfold orphan
  split <;> rfl

@[simp] theorem irqEnabled_orphan : (s.orphan e).irqEnabled = s.irqEnabled := by
  unfold orphan
  split <;> rfl

@[simp] theorem pendSv_orphan : (s.orphan e).pendSv = s.pendSv := by
  unfold orphan
  split <;> rfl

@[simp] theorem switchPending_orphan : (s.orphan e).switchPending = s.switchPending := by
  unfold orphan
  split <;> rfl

@[simp] theorem history_orphan : (s.orphan e).history = s.history := by
  unfold orphan
  split <;> rfl

end Frames

end KState

/-! ## Effects -/

/-- A reply that carries no keys. -/
structure ReplySender.Keyless (rs : ReplySender) : Prop where
  selector : rs.message.desc.getSelector = 0#16
  keys : ∀ i, rs.keys i = {}

/-- A reply that carries one key, in position 1. -/
def ReplySender.withKey (k : Key) : ReplySender := ({} : ReplySender).setKey 1 k

theorem ReplySender.getError_withKey (k : Key) :
    (ReplySender.withKey k).message.desc.getError = false := by
  show Descriptor.zero.getError = false
  decide

/-- The save area of a Context whose send or receive is called off. -/
def KState.calledOff (s : KState) (c : TableIndex) : KState :=
  (s.updateContext c fun b =>
    { b with save := (b.save.setMessage (Message.failure .wouldBlock)).setBrand 0#64 }).record
      (.excepted c (Message.failure .wouldBlock))

/-! ### What Memory accepts -/

namespace KState

/-- The checks that Split makes. -/
structure SplitAccepted (s : KState) (e slot : TableIndex) (brand : Brand) (m : Message) : Prop where
  memory : s.kind e = .memory
  method : MemoryMethod.ofSelector m.desc.getSelector = some .split
  fits : m.d0 ≤ (s.memory e).size
  whole : Rasr.getSrd ((s.memory e).getRegionForBrand brand).rasr = 0#8
  leaf : (s.memory e).childCount = 0#32
  slot : s.kind slot = .slot

/-- The checks that Make Child makes. -/
structure ChildAccepted (s : KState) (e slot : TableIndex) (brand : Brand) (m : Message) : Prop where
  memory : s.kind e = .memory
  method : MemoryMethod.ofSelector m.desc.getSelector = some .makeChild
  whole : Rasr.getSrd ((s.memory e).getRegionForBrand brand).rasr = 0#8
  contained : Memory.contains (s.memory e).base (s.memory e).size m.d0 m.d1 = true
  slot : s.kind slot = .slot

/-- The checks that Become makes. -/
structure BecomeAccepted (s : KState) (e : TableIndex) (t : TypeCode) (brand : Brand) (m : Message) :
    Prop where
  memory : s.kind e = .memory
  method : MemoryMethod.ofSelector m.desc.getSelector = some .become
  whole : Rasr.getSrd ((s.memory e).getRegionForBrand brand).rasr = 0#8
  type : TypeCode.ofWord m.d0 = some t
  root : (s.memory e).parent = none
  leaf : (s.memory e).childCount = 0#32
  mappable : (s.memory e).isMappable = true
  ordinary : (s.memory e).isDevice = false
  fits : t.size ≤ (s.memory e).size

end KState

open KState in
/-- What a method of object `e` can do, given the brand, the message's data and its keys. -/
inductive Effect (cfg : Config) (e : TableIndex) (brand : Brand) (m : Message) (k : Keys)
    (s : KState) : ReplySender → KState → Prop where
  /-- A reply only: a value, or a refusal. -/
  | reply (rs : ReplySender) : rs.Keyless → Effect cfg e brand m k s rs s
  | readKey (loc : KeyLoc) : s.kind e = .context → loc.owner = e →
      ContextMethod.ofSelector m.desc.getSelector = some .readKeyRegister ∨
        ContextMethod.ofSelector m.desc.getSelector = some .readRegionRegister →
      Effect cfg e brand m k s (.withKey (s.keyAt loc)) s
  /-- Write Register and the bulk writes. -/
  | writeSave (method : ContextMethod) (f : SavedRegisters → SavedRegisters) :
      s.kind e = .context → ContextMethod.ofSelector m.desc.getSelector = some method →
      method ∈ [ContextMethod.writeRegister, .writeLowRegisters, .writeHighRegisters] →
      Effect cfg e brand m k s {} (s.updateContext e fun b => { b with save := f b.save })
  | writeKey (r : Fin nTaskKeys) : s.kind e = .context →
      ContextMethod.ofSelector m.desc.getSelector = some .writeKeyRegister → r ≠ 0 →
      Effect cfg e brand m k s {} (s.setKeyAt (.keyReg e r) (k 1))
  | writeRegion (r : Fin nTaskRegions) : s.kind e = .context →
      ContextMethod.ofSelector m.desc.getSelector = some .writeRegionRegister →
      Effect cfg e brand m k s {}
        (if s.current = e then (s.setKeyAt (.regionReg e r) (k 1)).loadMpu e
          else s.setKeyAt (.regionReg e r) (k 1))
  /-- Make Runnable on a Context that waits at a Gate. -/
  | callOff (seat : Seat) (g : TableIndex) :
      ContextMethod.ofSelector m.desc.getSelector = some .makeRunnable →
      s.Sits e seat → seat.gate = some g →
      Effect cfg e brand m k s {} ((s.reseat e .runnable).pend.calledOff e)
  /-- Make Runnable on a Context that awaits a reply. -/
  | callOffReply : ContextMethod.ofSelector m.desc.getSelector = some .makeRunnable →
      s.Sits e .awaiting →
      Effect cfg e brand m k s {} (((s.advanceReply e).reseat e .runnable).pend.calledOff e)
  /-- Make Runnable on a stopped Context. -/
  | start : ContextMethod.ofSelector m.desc.getSelector = some .makeRunnable →
      s.kind e = .context → s.Sits e .stopped →
      Effect cfg e brand m k s {} (s.reseat e .runnable).pend
  | setPriority (seat : Seat) : s.kind e = .context →
      ContextMethod.ofSelector m.desc.getSelector = some .setPriority →
      s.Sits e seat → m.d0.toNat < nPriorities →
      Effect cfg e brand m k s {}
        ((s.updateContext e fun b => { b with priority := m.d0.toNat }).reseat e seat)
  | clientKey : s.kind e = .gate →
      GateMethod.ofSelector m.desc.getSelector = some .makeClientKey →
      Effect cfg e brand m k s (.withKey (s.filled e (Brand.ofWords m.d0 m.d1 ||| Brand.topMask))) s
  | setTarget : s.kind e = .interrupt →
      InterruptMethod.ofSelector m.desc.getSelector = some .setTarget →
      Effect cfg e brand m k s {} (s.setKeyAt (.target e) (k 1))
  | enable : s.kind e = .interrupt →
      InterruptMethod.ofSelector m.desc.getSelector = some .enable →
      Effect cfg e brand m k s {}
        { s with irqEnabled := Function.update s.irqEnabled (s.interrupt e).identifier true }
  | mint : s.kind e = .objectTable →
      ObjectTableMethod.ofSelector m.desc.getSelector = some .mintKey → m.d0.toNat < s.count →
      Effect cfg e brand m k s (.withKey (s.filled m.d0.toNat (Brand.ofWords m.d1 m.d2)))
        (s.record (.minted m.d0.toNat (s.kind m.d0.toNat) (Brand.ofWords m.d1 m.d2)))
  /-- A refused Invalidate. -/
  | noInvalidate (rs : ReplySender) : s.kind e = .objectTable →
      ObjectTableMethod.ofSelector m.desc.getSelector = some .invalidate → rs.Keyless →
      Effect cfg e brand m k s rs (s.record (.invalidateRequested m.d0 (m.d1 != 0#32)))
  | invalidate : s.kind e = .objectTable →
      ObjectTableMethod.ofSelector m.desc.getSelector = some .invalidate →
      m.d0.toNat < s.count →
      ((m.d1 != 0#32) = false → s.generation m.d0.toNat ≠ 0#32 - 1#32) →
      Effect cfg e brand m k s {}
        ((s.record (.invalidateRequested m.d0 (m.d1 != 0#32))).invalidated m.d0.toNat)
  | change (new current : SplitAccess) : s.kind e = .memory →
      MemoryMethod.ofSelector m.desc.getSelector = some .change →
      (s.memory e).isMappable = true →
      decodeAp cfg.etl (Rasr.getAp (scrubRasr m.d0)) = some new →
      decodeAp cfg.etl (Rasr.getAp ((s.memory e).getRegionForBrand brand).rasr) = some current →
      new.isStronger current = false →
      Rasr.getSrd ((s.memory e).getRegionForBrand brand).rasr &&& ~~~Rasr.getSrd (scrubRasr m.d0) =
        0#8 →
      Effect cfg e brand m k s (.withKey (s.filled e ((scrubRasr m.d0 >>> 8).setWidth 64))) s
  | poke (a w : Word) : s.kind e = .memory →
      MemoryMethod.ofSelector m.desc.getSelector = some .poke →
      m.d0 < (s.memory e).size / 4#32 → a = (s.memory e).base + 4#32 * m.d0 →
      Effect cfg e brand m k s {} (s.storeWord a w)
  | split (slot : TableIndex) : s.SplitAccepted e slot brand m → slot = s.target (k 1) →
      ¬(s.memory e).base + m.d0 + ((s.memory e).size - m.d0) < (s.memory e).base + m.d0 →
      ¬(s.memory e).base + m.d0 < (s.memory e).base →
      Effect cfg e brand m k s
        ((({} : ReplySender).setKey 2 ((s.splitMemory e slot m.d0).filled slot brand)).setKey 1
          ((s.splitMemory e slot m.d0).filled e brand))
        (s.splitMemory e slot m.d0)
  | makeChild (slot : TableIndex) : s.ChildAccepted e slot brand m → slot = s.target (k 1) →
      ¬m.d0 + m.d1 < m.d0 →
      Effect cfg e brand m k s (.withKey ((s.makeChildMemory e slot m.d0 m.d1).filled slot brand))
        (s.makeChildMemory e slot m.d0 m.d1)
  | become (t : TypeCode) : s.BecomeAccepted e t brand m → (t = .interrupt → (m.d1 + 1#32).toNat < s.irqCount) →
      Effect cfg e brand m k s (.withKey ((s.becomeObject e t m.d1).filled e 0#64))
        (s.becomeObject e t m.d1)

/-- The checks of `set_redirection` that an index out of range runs into. -/
def Panic.isRedirection (p : Panic) : Prop := p = .emptyRedirectionTable ∨ p = .indexOutOfRange

/-- The consistency checks that a method can run into. -/
inductive Fault (cfg : Config) (e : TableIndex) (brand : Brand) (m : Message) (k : Keys) (s : KState) :
    Panic → Prop where
  | splitOverflow (slot : TableIndex) : s.SplitAccepted e slot brand m → slot = s.target (k 1) →
      (s.memory e).base + m.d0 + ((s.memory e).size - m.d0) < (s.memory e).base + m.d0 ∨
        (s.memory e).base + m.d0 < (s.memory e).base →
      Fault cfg e brand m k s .memOverflow
  | childOverflow (slot : TableIndex) : s.ChildAccepted e slot brand m → slot = s.target (k 1) →
      m.d0 + m.d1 < m.d0 →
      Fault cfg e brand m k s .memOverflow
  | accessPermissions : s.kind e = .memory →
      MemoryMethod.ofSelector m.desc.getSelector = some .change →
      (s.memory e).isMappable = true → Rasr.getAp (scrubRasr m.d0) ≠ 4#3 →
      decodeAp cfg.etl (Rasr.getAp (scrubRasr m.d0)) = none ∨
        decodeAp cfg.etl (Rasr.getAp ((s.memory e).getRegionForBrand brand).rasr) = none →
      Fault cfg e brand m k s .unpredictableAp
  | becomeInterrupt (p : Panic) : p.isRedirection → s.BecomeAccepted e .interrupt brand m →
      s.irqCount ≤ (m.d1 + 1#32).toNat →
      Fault cfg e brand m k s p
  | invalidateInterrupt (p : Panic) : p.isRedirection → s.kind e = .objectTable →
      ObjectTableMethod.ofSelector m.desc.getSelector = some .invalidate →
      s.kind m.d0.toNat = .interrupt →
      s.irqCount ≤ ((s.interrupt m.d0.toNat).identifier + 1#32).toNat →
      Fault cfg e brand m k s p

/-! ## Memory methods -/

section Memory

variable {s : KState} {e : TableIndex} {E : Panic → KState → Prop} {cfg : Config} {brand : Brand}

theorem wp_advanceGeneration {Q : PUnit → KState → Prop}
    (hcfg : cfg.eagerRevocation = false) :
    wp (advanceGeneration cfg e) Q E s ↔ Q ⟨⟩ (s.bump e) := by
  simp [advanceGeneration, hcfg, bump]

theorem wp_construct_root {Q : PUnit → KState → Prop} (base size attributes : Word) :
    wp (Memory.construct e base size attributes none) Q E s ↔
      (base + size < base → E .memOverflow s) ∧
      (¬base + size < base → Q ⟨⟩ (s.buildMemory e base size attributes none)) := by
  by_cases h : base + size < base <;> simp [Memory.construct, panicIf, h, buildMemory]

theorem wp_construct_child {Q : PUnit → KState → Prop} {p : TableIndex} (hp : p ≠ e)
    (base size attributes : Word)
    (hcontains : Memory.contains (s.memory p).base (s.memory p).size base size = true) :
    wp (Memory.construct e base size attributes (some p)) Q E s ↔
      (base + size < base → E .memOverflow s) ∧
      (¬base + size < base → Q ⟨⟩ (s.buildMemory e base size attributes (some p))) := by
  by_cases h : base + size < base <;>
    simp [Memory.construct, panicIf, panicUnless, h, buildMemory, hp, hcontains]

theorem wp_destroy {Q : PUnit → KState → Prop} (hleaf : (s.memory e).childCount = 0#32) :
    wp (Memory.destroy e) Q E s ↔ Q ⟨⟩ (s.orphan e) := by
  cases hparent : (s.memory e).parent <;>
    simp [Memory.destroy, panicIf, hleaf, hparent, orphan]

/-- Every refusal is a reply without keys. -/
theorem effect_failure {m : Message} {k : Keys} (x : Exception) (d2 : Word := 0#32) :
    Effect cfg e brand m k s (.failure x d2) s :=
  .reply _ ⟨show (Descriptor.zero.withError true).getSelector = 0#16 by decide, fun _ => rfl⟩

theorem effect_value {m : Message} {k : Keys} (m' : Message) (hm : m'.desc = Descriptor.zero) :
    Effect cfg e brand m k s { message := m' } s :=
  .reply _ ⟨by rw [hm]; decide, fun _ => rfl⟩

theorem doSplit_effect (hcfg : cfg.eagerRevocation = false)
    {m : Message} {k : Keys} (he : s.kind e = .memory)
    (hm : MemoryMethod.ofSelector m.desc.getSelector = some .split) :
    wp (Memory.doSplit cfg e brand m k) (Effect cfg e brand m k s) (fun p _ => Fault cfg e brand m k s p)
      s := by
  simp only [Memory.doSplit, wp_bind, wp_get, wp_ite, wp_pure, localKeyGet]
  refine ⟨fun _ => effect_failure _, fun hpos => ⟨fun _ => effect_failure _, fun hmay =>
    ⟨fun _ => effect_failure _, fun hslot => ?_⟩⟩⟩
  have hslot : s.kind (s.target (k 1)) = .slot := not_not.mp hslot
  have hne : e ≠ s.target (k 1) := by
    rintro rfl
    simp [he] at hslot
  have hleaf : (s.memory e).childCount = 0#32 := by
    by_contra h
    exact hmay (by simp [h])
  have hwhole : Rasr.getSrd ((s.memory e).getRegionForBrand brand).rasr = 0#8 := by
    by_contra h
    exact hmay (by simp [h])
  have hok : s.SplitAccepted e (s.target (k 1)) brand m :=
    ⟨he, hm, BitVec.not_lt.mp hpos, hwhole, hleaf, hslot⟩
  rw [wp_advanceGeneration hcfg, wp_construct_root]
  refine ⟨fun h => .splitOverflow _ hok rfl (.inl h), fun htop => ?_⟩
  generalize hslot_eq : s.target (k 1) = slot at *
  simp only [makeKey, maybeRef, wp_bind, wp_get, wp_pure]
  have hmemory : ((s.bump slot).buildMemory slot ((s.memory e).base + m.d0)
      ((s.memory e).size - m.d0) (s.memory e).attributes none).memory e = s.memory e := by
    simp [buildMemory, bump, KState.record, hne]
  rw [wp_destroy (by rw [hmemory]; exact hleaf), wp_advanceGeneration hcfg, wp_construct_root]
  refine ⟨fun h => .splitOverflow _ hok hslot_eq.symm (.inr h), fun hbottom => ?_⟩
  rw [wp_applyToMpu]
  have hsplit : Effect cfg e brand m k s _ _ :=
    .split slot hok hslot_eq.symm htop hbottom
  simpa [splitMemory, filled, Ne.symm hne] using hsplit

theorem makeChild_effect (hcfg : cfg.eagerRevocation = false)
    {m : Message} {k : Keys} (he : s.kind e = .memory)
    (hm : MemoryMethod.ofSelector m.desc.getSelector = some .makeChild) :
    wp (Memory.makeChild cfg e brand m k) (Effect cfg e brand m k s) (fun p _ => Fault cfg e brand m k s p)
      s := by
  simp only [Memory.makeChild, wp_bind, wp_get, wp_ite, wp_pure, localKeyGet]
  refine ⟨fun _ => effect_failure _, fun hwhole => ⟨fun _ => effect_failure _, fun hcontains =>
    ⟨fun _ => effect_failure _, fun hslot => ?_⟩⟩⟩
  have hslot : s.kind (s.target (k 1)) = .slot := not_not.mp hslot
  have hne : e ≠ s.target (k 1) := by
    rintro rfl
    simp [he] at hslot
  have hcontains : Memory.contains (s.memory e).base (s.memory e).size m.d0 m.d1 = true := by
    simpa using hcontains
  have hok : s.ChildAccepted e (s.target (k 1)) brand m :=
    ⟨he, hm, not_not.mp hwhole, hcontains, hslot⟩
  rw [wp_advanceGeneration hcfg, wp_construct_child hne _ _ _ (by simpa using hcontains)]
  refine ⟨fun h => .childOverflow _ hok rfl h, fun hchild => ?_⟩
  simp only [makeKey, maybeRef, wp_bind, wp_get, wp_pure]
  exact .makeChild _ hok rfl hchild

theorem change_effect {m : Message} {k : Keys}
    (he : s.kind e = .memory) (hm : MemoryMethod.ofSelector m.desc.getSelector = some .change) :
    wp (Memory.change cfg e brand m) (Effect cfg e brand m k s) (fun p _ => Fault cfg e brand m k s p) s := by
  simp only [Memory.change, wp_bind, wp_get, wp_ite, wp_pure]
  refine ⟨fun _ => effect_failure _, fun hmappable => ⟨fun _ => effect_failure _, fun hap => ?_⟩⟩
  have hmappable : (s.memory e).isMappable = true := by simpa using hmappable
  have hap : Rasr.getAp (scrubRasr m.d0) ≠ 4#3 := by simpa [apIsUnpredictable] using hap
  cases hnew : decodeAp cfg.etl (Rasr.getAp (scrubRasr m.d0)) with
  | none => exact .accessPermissions he hm hmappable hap (.inl hnew)
  | some new =>
    cases hcurrent : decodeAp cfg.etl (Rasr.getAp ((s.memory e).getRegionForBrand brand).rasr) with
    | none => exact .accessPermissions he hm hmappable hap (.inr hcurrent)
    | some current =>
      simp only [wp_ite, wp_pure, wp_bind, makeKey, maybeRef, wp_get]
      refine ⟨fun _ => effect_failure _, fun hallowed => ?_⟩
      simp only [Bool.or_eq_true, decide_eq_true_eq, not_or, Bool.not_eq_true, not_not] at hallowed
      exact .change new current he hm hmappable hnew hcurrent hallowed.1.1 hallowed.1.2

theorem access_effect {m : Message} {k : Keys} (he : s.kind e = .memory) {write : Bool}
    (hm : write = true → MemoryMethod.ofSelector m.desc.getSelector = some .poke) :
    wp (Memory.access e write m) (Effect cfg e brand m k s) (fun p _ => Fault cfg e brand m k s p) s := by
  simp only [Memory.access, wp_bind, wp_get, wp_ite, wp_pure, wp_set]
  refine ⟨fun _ => effect_failure _, fun hoffset => ⟨fun hw => ?_, fun _ => effect_value { d0 := _ } rfl⟩⟩
  exact .poke _ _ he (hm hw) (BitVec.not_le.mp hoffset) rfl

theorem wp_setRedirection {Q : PUnit → KState → Prop} {index : Nat} {handler : Option TableIndex}
    (hin : index < s.irqCount → Q ⟨⟩ { s with irqTable := Function.update s.irqTable index handler })
    (hout : s.irqCount ≤ index → ∀ p : Panic, p.isRedirection → E p s) : wp (setRedirection index handler) Q E s := by
  simp only [setRedirection, panicIf, panicUnless, wp_bind, wp_get, wp_ite, wp_throw, wp_pure, wp_set,
    decide_eq_true_eq]
  exact ⟨fun hzero => hout (by omega) _ (.inl rfl),
    fun _ => ⟨fun h => hin h, fun h => hout (by omega) _ (.inr rfl)⟩⟩

theorem become_effect (hcfg : cfg.eagerRevocation = false)
    {m : Message} {k : Keys} (he : s.kind e = .memory)
    (hm : MemoryMethod.ofSelector m.desc.getSelector = some .become)
    (hwhole : Rasr.getSrd ((s.memory e).getRegionForBrand brand).rasr = 0#8) :
    wp (become cfg e m) (Effect cfg e brand m k s) (fun p _ => Fault cfg e brand m k s p) s := by
  simp only [become, wp_bind, wp_get, wp_ite, wp_pure]
  refine ⟨fun _ => effect_failure _, fun hmay => ?_⟩
  simp only [Bool.or_eq_true, not_or, decide_eq_true_eq, not_not, Bool.not_eq_true',
    Bool.not_eq_false, Bool.not_eq_true, Option.isSome_eq_false_iff, Option.isNone_iff_eq_none] at hmay
  obtain ⟨⟨⟨hdevice, hleaf⟩, hparent⟩, hmappable⟩ := hmay
  cases htype : TypeCode.ofWord m.d0 with
  | none => exact effect_failure _
  | some t =>
    simp only [wp_ite, wp_pure, wp_bind]
    refine ⟨fun _ => effect_failure _, fun hsize => ?_⟩
    have hok : s.BecomeAccepted e t brand m :=
      ⟨he, hm, hwhole, htype, hparent, hleaf, hmappable, hdevice, BitVec.not_lt.mp hsize⟩
    have horphan : s.orphan e = s := by simp [orphan, hparent]
    rw [wp_destroy hleaf, horphan, wp_advanceGeneration hcfg]
    have hfinish : ∀ {s₁ : KState}, s₁ = (s.bump e).buildObject t e (s.memory e).base m.d1 →
        (t = .interrupt → (m.d1 + 1#32).toNat < s.irqCount) →
        wp (do
          modify (·.record (.donated e (s.memory e).base (s.memory e).size))
          let newKey ← maybeRef (← makeKey e 0#64)
          applyToMpu (← get).current
          return ({} : ReplySender).setKey 1 newKey) (Effect cfg e brand m k s)
          (fun p _ => Fault cfg e brand m k s p) s₁ := by
      rintro _ rfl hirq
      simp only [wp_bind, wp_modify, makeKey, wp_get, wp_pure, maybeRef, wp_applyToMpu]
      exact .become t hok hirq
    simp only [wp_bind] at hfinish
    cases t with
    | context =>
      simp only [TypeCode.construct, wp_modify]
      exact hfinish rfl (by simp)
    | gate =>
      simp only [TypeCode.construct, wp_modify]
      exact hfinish rfl (by simp)
    | interrupt =>
      simp only [TypeCode.construct, wp_modify, wp_bind]
      exact wp_setRedirection (fun h => hfinish rfl fun _ => h)
        fun h p hp => .becomeInterrupt p hp hok h

theorem memoryServe_effect (hcfg : cfg.eagerRevocation = false)
    {m : Message} {k : Keys} (he : s.kind e = .memory) :
    wp (Memory.serve cfg e brand m k) (Effect cfg e brand m k s) (fun p _ => Fault cfg e brand m k s p) s := by
  unfold Memory.serve
  cases hm : MemoryMethod.ofSelector m.desc.getSelector with
  | none => exact effect_failure _ _
  | some method =>
    cases method with
    | inspect =>
      simp only [Memory.inspect, wp_bind, wp_get, wp_pure]
      exact effect_value { d0 := _, d1 := _, d2 := _, d3 := _ } rfl
    | change => exact change_effect he hm
    | split => exact doSplit_effect hcfg he hm
    | become =>
      simp only [wp_bind, wp_get, wp_ite, wp_pure]
      exact ⟨fun _ => effect_failure _, fun h => become_effect hcfg he hm (not_not.mp h)⟩
    | peek => exact access_effect he (by simp)
    | poke => exact access_effect he fun _ => hm
    | makeChild => exact makeChild_effect hcfg he hm

end Memory

/-! ## Methods of the other objects -/

section Methods

variable {s : KState} {e : TableIndex} {E : Panic → KState → Prop} {m : Message} {k : Keys}
  {cfg : Config} {brand : Brand}

theorem interruptOrStart_effect (hs : s.WellFormed) (he : s.kind e = .context)
    (hm : ContextMethod.ofSelector m.desc.getSelector = some .makeRunnable) :
    wp (Context.interruptOrStart e) (fun _ s' => Effect cfg e brand m k s {} s') E s := by
  obtain ⟨seat, hseat⟩ := hs.context e
  have hcallOff : ∀ {s₁ : KState}, Effect cfg e brand m k s {} (s₁.calledOff e) →
      wp (Context.completeReceiveExc e .wouldBlock) (fun _ s' => Effect cfg e brand m k s {} s') E s₁ := by
    intro s₁ h
    simp only [Context.completeReceiveExc, Context.setSys, wp_bind, wp_modify]
    exact h
  simp only [Context.interruptOrStart, wp_bind, wp_get, hseat.body.state]
  cases seat with
  | stopped =>
    simp only [Seat.state, wp_makeRunnable_loose hs hseat rfl rfl]
    exact .start hm he hseat
  | runnable =>
    simp only [Seat.state, wp_pure]
    exact .reply _ ⟨by decide, fun _ => rfl⟩
  | sending g =>
    simp only [Seat.state, wp_bind, itemUnlink, wp_modify, Context.onBlockedDeliveryAborted,
      wp_makeRunnable_sender hs hseat]
    exact hcallOff (.callOff _ g hm hseat rfl)
  | receiving g =>
    have hawaiting : (s.context e).isAwaitingReply = false := by
      cases h : (s.context e).isAwaitingReply with
      | false => rfl
      | true => cases hseat.unique ((isAwaitingReply_iff hs e).mp h)
    simp only [Seat.state, wp_bind, itemUnlink, wp_modify, hawaiting, Bool.false_eq_true, if_false,
      Context.completeBlockedReceiveExc, wp_makeRunnable_receiver hs hseat]
    exact hcallOff (.callOff _ g hm hseat rfl)
  | awaiting =>
    have hsame := s.sameSeats_advanceReply e
    have hseat₁ := hsame.sits hseat
    have hadvance : ∀ {Q : PUnit → KState → Prop},
        wp (Context.advanceReplyBrand e) Q E s ↔ Q ⟨⟩ (s.advanceReply e) := Iff.rfl
    have hloose : (s.advanceReply e).unlink (.ctxItem e) = s.advanceReply e :=
      unlink_loose hseat₁.body.ctxItem
    simp only [Seat.state, wp_bind, itemUnlink, wp_modify, (isAwaitingReply_iff hs e).mpr hseat,
      if_true, hadvance, hloose, Context.completeBlockedReceiveExc,
      wp_makeRunnable_loose (hs.of_sameSeats hsame) hseat₁ rfl rfl]
    exact hcallOff (.callOffReply hm hseat)

theorem contextServe_effect (hs : s.WellFormed)
    (he : s.kind e = .context) :
    wp (Context.serve e m k) (Effect cfg e brand m k s) (fun p _ => Fault cfg e brand m k s p) s := by
  unfold Context.serve
  cases hm : ContextMethod.ofSelector m.desc.getSelector with
  | none => exact effect_failure _ _
  | some method =>
    cases method with
    | readRegister =>
      simp only [wp_dite, wp_bind, wp_get, wp_pure]
      exact ⟨fun _ => effect_value { d0 := _ } rfl, fun _ => effect_failure _⟩
    | writeRegister =>
      simp only [wp_dite, wp_bind, wp_modify, wp_pure]
      exact ⟨fun _ => .writeSave _ (Function.update · _ _) he hm (by simp), fun _ => effect_failure _⟩
    | readKeyRegister =>
      simp only [wp_dite, wp_bind, wp_get, wp_pure]
      exact ⟨fun _ => .readKey _ he rfl (by simp [hm]), fun _ => effect_failure _⟩
    | writeKeyRegister =>
      simp only [wp_dite, wp_bind, wp_modify, wp_pure]
      refine ⟨fun h => .writeKey _ he hm fun hzero => h.2 ?_, fun _ => effect_failure _⟩
      exact BitVec.eq_of_toNat_eq (by simpa using congrArg Fin.val hzero)
    | readRegionRegister =>
      simp only [wp_dite, wp_bind, wp_get, wp_pure]
      exact ⟨fun _ => .readKey _ he rfl (by simp [hm]), fun _ => effect_failure _⟩
    | writeRegionRegister =>
      simp only [wp_dite, wp_bind, wp_modify, wp_get, wp_ite, wp_pure, wp_applyToMpu]
      refine ⟨fun h => ?_, fun _ => effect_failure _⟩
      have hwrite : Effect cfg e brand m k s _ _ := .writeRegion ⟨m.d0.toNat, h⟩ he hm
      exact ⟨fun hcurrent => by simpa [show s.current = e from hcurrent] using hwrite,
        fun hcurrent => by simpa [show ¬s.current = e from hcurrent] using hwrite⟩
    | makeRunnable =>
      simp only [wp_bind, wp_pure]
      exact interruptOrStart_effect hs he hm
    | getPriority =>
      simp only [wp_bind, wp_get, wp_pure]
      exact effect_value { d0 := _ } rfl
    | setPriority =>
      obtain ⟨seat, hseat⟩ := hs.context e
      simp only [wp_ite, wp_bind, wp_pure]
      refine ⟨fun _ => effect_failure _, fun hp => ?_⟩
      rw [wp_changePriority hs hseat (Nat.lt_of_not_le hp)]
      exact .setPriority seat he hm hseat (Nat.lt_of_not_le hp)
    | readLowRegisters | readHighRegisters =>
      simp only [Context.readRegisters, wp_bind, wp_get, wp_pure]
      exact effect_value { d0 := _, d1 := _, d2 := _, d3 := _, d4 := _ } rfl
    | writeLowRegisters | writeHighRegisters =>
      simp only [Context.writeRegisters, wp_bind, wp_modify, wp_pure]
      exact .writeSave _ (fun save => Function.update (Function.update (Function.update
        (Function.update (Function.update save _ _) _ _) _ _) _ _) _ _) he hm (by simp)

theorem gateServe_effect (he : s.kind e = .gate) :
    wp (Gate.serve e m) (Effect cfg e brand m k s) (fun p _ => Fault cfg e brand m k s p) s := by
  unfold Gate.serve
  cases hm : GateMethod.ofSelector m.desc.getSelector with
  | none => exact effect_failure _ _
  | some method =>
    cases method
    simp only [wp_bind, makeKey, maybeRef, wp_get, wp_pure]
    exact .clientKey he hm

theorem interruptServe_effect (he : s.kind e = .interrupt) :
    wp (Interrupt.serve e m k) (Effect cfg e brand m k s) (fun p _ => Fault cfg e brand m k s p) s := by
  unfold Interrupt.serve
  cases hm : InterruptMethod.ofSelector m.desc.getSelector with
  | none => exact effect_failure _ _
  | some method =>
    cases method with
    | setTarget => exact .setTarget he hm
    | enable => exact .enable he hm

/-- The hook of each kind of object, run on a well-formed state. -/
theorem invalidate_eq (hcfg : cfg.eagerRevocation = false) (hs : s.WellFormed)
    {n : TableIndex} {Q : PUnit → KState → Prop} (hdone : Q ⟨⟩ (s.invalidated n))
    (hfault : s.kind n = .interrupt → s.irqCount ≤ ((s.interrupt n).identifier + 1#32).toNat →
      ∀ p : Panic, p.isRedirection → ∀ s', E p s') :
    wp (Object.invalidate cfg n) Q E s := by
  simp only [Object.invalidate, wp_bind, wp_get]
  cases hkind : s.kind n with
  | memory =>
    simp only [wp_bind, wp_get, wp_applyToMpu, wp_advanceGeneration hcfg]
    simpa [invalidated, invalidationHook, hkind] using hdone
  | context =>
    have hstop := stop_eq_reseat hs n
    have hadvance : ∀ {s : KState} {Q : PUnit → KState → Prop},
        wp (Context.advanceReplyBrand n) Q E s ↔ Q ⟨⟩ (s.advanceReply n) := Iff.rfl
    have hcurrent : ((s.reseat n .stopped).advanceReply n).current = s.current := rfl
    simp only [Context.invalidationHook, itemUnlink, wp_bind, wp_modify, hstop, wp_get, hadvance,
      hcurrent, pendSwitch, wp_ite, wp_pure, wp_advanceGeneration hcfg]
    simp only [invalidated, invalidationHook, hkind] at hdone
    refine ⟨fun h => ?_, fun h => ?_⟩
    · rw [if_pos h] at hdone
      exact hdone
    · rw [if_neg h] at hdone
      exact hdone
  | interrupt =>
    simp only [Interrupt.invalidationHook, Interrupt.disableInterrupt, itemUnlink, wp_bind,
      wp_modify, wp_get]
    have hs₁ : ({ s with
        irqEnabled := Function.update s.irqEnabled (s.interrupt n).identifier false } : KState).WellFormed :=
      hs.of_sameSeats ⟨rfl, rfl, rfl, fun _ => .refl _, fun _ => .refl _⟩
    rw [unlink_irqItem hs₁]
    have hident : ∀ t : KState, ((t.requeue n none).interrupt n).identifier =
        (t.interrupt n).identifier := by
      intro t
      simp [requeue]
    rw [hident]
    refine wp_setRedirection (fun _ => ?_) fun h p hp => hfault hkind h p hp _
    rw [wp_advanceGeneration hcfg]
    simp only [invalidated, invalidationHook, hkind] at hdone
    exact hdone
  | null | objectTable | slot | gate =>
    simp only [wp_advanceGeneration hcfg]
    simpa [invalidated, invalidationHook, hkind] using hdone

theorem objectTableServe_effect (hcfg : cfg.eagerRevocation = false)
    (hs : s.WellFormed) (he : s.kind e = .objectTable) :
    wp (ObjectTable.serve cfg m k) (Effect cfg e brand m k s) (fun p _ => Fault cfg e brand m k s p) s := by
  unfold ObjectTable.serve
  cases hm : ObjectTableMethod.ofSelector m.desc.getSelector with
  | none => exact effect_failure _ _
  | some method =>
    cases method with
    | mintKey =>
      simp only [ObjectTable.doMintKey, wp_bind, wp_get, wp_ite, wp_pure, makeKey, wp_modify]
      exact ⟨fun _ => effect_failure _, fun h => .mint he hm (Nat.lt_of_not_le h)⟩
    | readKey =>
      simp only [ObjectTable.doReadKey, wp_bind, wp_get, localKeyGet, wp_pure]
      exact effect_value { d0 := _, d1 := _, d2 := _ } rfl
    | getKind =>
      simp only [ObjectTable.doGetKind, wp_bind, wp_get, wp_ite, wp_pure]
      exact ⟨fun _ => effect_failure _, fun _ => effect_value { d0 := _ } rfl⟩
    | invalidate =>
      simp only [ObjectTable.doInvalidate, wp_bind, wp_modify, wp_get, wp_ite, wp_pure]
      have hrefused : ∀ x : Exception, Effect cfg e brand m k s (.failure x)
          (s.record (.invalidateRequested m.d0 (m.d1 != 0#32))) := fun x =>
        .noInvalidate _ he hm
          ⟨show (Descriptor.zero.withError true).getSelector = 0#16 by decide, fun _ => rfl⟩
      refine ⟨fun _ => hrefused _, fun hrange => ⟨fun _ => hrefused _, fun hguard => ?_⟩⟩
      refine invalidate_eq hcfg
        (hs.of_sameSeats (sameSeats_record s (.invalidateRequested m.d0 (m.d1 != 0#32)))) ?_ ?_
      · refine .invalidate he hm (Nat.lt_of_not_le hrange) fun hpermit hlast => hguard ?_
        simp [hpermit, show s.generation m.d0.toNat = 0#32 - 1#32 from hlast, KState.record]
      · exact fun hkind h p hp _ => .invalidateInterrupt p hp he hm hkind h

theorem Fault.of_record {ev : Event} {p : Panic}
    (h : Fault cfg e brand m k (s.record ev) p) : Fault cfg e brand m k s p := by
  cases h with
  | splitOverflow slot hok hslot hwrap =>
    exact .splitOverflow slot ⟨hok.memory, hok.method, hok.fits, hok.whole, hok.leaf, hok.slot⟩ hslot
      hwrap
  | childOverflow slot hok hslot hwrap =>
    exact .childOverflow slot ⟨hok.memory, hok.method, hok.whole, hok.contained, hok.slot⟩ hslot hwrap
  | accessPermissions he hm hmappable hap hdecode =>
    exact .accessPermissions he hm hmappable hap hdecode
  | becomeInterrupt p hp hok hrange =>
    exact .becomeInterrupt p hp ⟨hok.memory, hok.method, hok.whole, hok.type, hok.root, hok.leaf,
      hok.mappable, hok.ordinary, hok.fits⟩ hrange
  | invalidateInterrupt p hp he hm hkind hrange =>
    exact .invalidateInterrupt p hp he hm hkind hrange

/-- The state in which a method starts: a Memory object has looked at the brand. -/
def KState.looked (s : KState) (kind : Kind) (e : TableIndex) (brand : Brand) : KState :=
  if kind = .memory then s.record (.consulted e brand) else s

theorem sameSeats_looked (s : KState) (kind : Kind) (e : TableIndex) (brand : Brand) :
    SameSeats s (s.looked kind e brand) := by
  unfold looked
  split
  · exact sameSeats_record _ _
  · exact ⟨rfl, rfl, rfl, fun _ => .refl _, fun _ => .refl _⟩

/-- A method does one of the effects, or runs into one of the checks. -/
theorem serve_effect (hcfg : cfg.eagerRevocation = false) (hs : s.WellFormed)
    {kind : Kind} (hkind : kind = .null ∨ kind = s.kind e) :
    wp (Object.serve cfg e brand m k kind) (Effect cfg e brand m k (s.looked kind e brand))
      (fun p _ => Fault cfg e brand m k s p) s := by
  have he : kind ≠ .null → s.kind e = kind := fun h => (hkind.resolve_left h).symm
  cases kind with
  | null | slot => exact effect_failure (s := s) _ _
  | objectTable => exact objectTableServe_effect (s := s) hcfg hs (he (by simp))
  | memory =>
    simp only [Object.serve, wp_bind, wp_modify]
    exact wp_mono (memoryServe_effect hcfg (s := s.record (.consulted e brand)) (he (by simp)))
      (fun _ _ h => h) fun _ _ h => h.of_record
  | context => exact contextServe_effect (s := s) hs (he (by simp))
  | gate => exact gateServe_effect (s := s) (he (by simp))
  | interrupt => exact interruptServe_effect (s := s) (he (by simp))

/-- Every reply is one that no kernel object understands as a request. -/
theorem Effect.plain {rs : ReplySender} {s' : KState} (h : Effect cfg e brand m k s rs s') : rs.Plain := by
  cases h with
  | reply _ hrs => exact ⟨hrs.selector, hrs.keys 0⟩
  | noInvalidate _ _ _ hrs => exact ⟨hrs.selector, hrs.keys 0⟩
  | _ =>
    exact ⟨show Descriptor.zero.getSelector = 0#16 by decide, rfl⟩

end Methods

end BrittleKernel
