import BrittleKernel.Stored

/-!
# Rules for Kernel Entries

What an invariant must satisfy to survive a kernel entry.  `Rules` collects the
obligations: message passing keeps the invariant, the effects of methods keep it, and the
switch at the end establishes it again.  The theorems below discharge everything else.
-/

namespace BrittleKernel

open Hoare KState

/-! ## The state in which a message leaves -/

namespace KState

variable (s : KState)

/-- A stored key after `Key::get`. -/
def dropped (loc : KeyLoc) : KState :=
  if s.isLive (s.keyAt loc) then s else s.setKeyAt loc s.nullKey

/-- The reference that a message's brand travels by. -/
def refTo (cfg : Config) (loc : KeyLoc) : BrandRef :=
  if cfg.brandByReference then .stored loc else .value (s.keyAt loc).brand

/-- The state in which an object sends a message through a stored key. -/
def sending (ident : TableIndex) (loc : KeyLoc) : KState :=
  (s.dropped loc).record (.sent ident ((s.dropped loc).keyAt loc).brand)

/-- The save area on entry to a system call or PendSV. -/
def entered (stack : Word) (regs : UserRegisters) : KState :=
  s.updateContext s.current fun b =>
    { b with
      save := Function.update
        (fun i => if h : i.val < 8 then regs ⟨i.val, h⟩ else b.save i) 9 stack }

/-- The state in which a system call starts to send or receive: register 0 was checked. -/
def ready (stack : Word) (regs : UserRegisters) : KState :=
  (s.entered stack regs).dropped (.keyReg s.current 0)

/-- The effect of `switch_now` when it elects a Context. -/
def switchTo (c : TableIndex) : KState :=
  ({ s.record (.switched c) with current := c } : KState).loadMpu c

@[simp] theorem objects_dropped (loc : KeyLoc) : (s.dropped loc).objects = s.objects := by
  unfold dropped
  split <;> simp

@[simp] theorem objects_sending (ident : TableIndex) (loc : KeyLoc) :
    (s.sending ident loc).objects = s.objects := by
  simp [sending]

@[simp] theorem objects_entered (stack : Word) (regs : UserRegisters) :
    (s.entered stack regs).objects = s.objects := rfl

@[simp] theorem objects_ready (stack : Word) (regs : UserRegisters) :
    (s.ready stack regs).objects = s.objects := by
  simp [ready]

theorem sameSeats_dropped (loc : KeyLoc) : SameSeats s (s.dropped loc) := by
  unfold dropped
  split
  · exact ⟨rfl, rfl, rfl, fun _ => .refl _, fun _ => .refl _⟩
  · exact sameSeats_setKeyAt _ _ _

theorem sameSeats_sending (ident : TableIndex) (loc : KeyLoc) :
    SameSeats s (s.sending ident loc) :=
  (s.sameSeats_dropped loc).trans (sameSeats_record _ _)

theorem sameSeats_entered (stack : Word) (regs : UserRegisters) :
    SameSeats s (s.entered stack regs) :=
  s.sameSeats_updateContext _ ⟨rfl, rfl, rfl, rfl⟩

theorem sameSeats_ready (stack : Word) (regs : UserRegisters) : SameSeats s (s.ready stack regs) :=
  (s.sameSeats_entered stack regs).trans (sameSeats_dropped _ _)

/-- After `Key::get` a stored key is the resolved key. -/
theorem keyAt_dropped (loc : KeyLoc) : (s.dropped loc).keyAt loc = s.resolve (s.keyAt loc) := by
  cases h : s.isLive (s.keyAt loc) with
  | true => simp [dropped, resolve, h]
  | false => simp [dropped, resolve, h, keyAt_setKeyAt]

theorem keyAt_sending (ident : TableIndex) (loc : KeyLoc) :
    (s.sending ident loc).keyAt loc = s.resolve (s.keyAt loc) := by
  rw [← keyAt_dropped]
  cases loc <;> rfl

theorem isLive_resolve (k : Key) : s.isLive (s.resolve k) = true := by
  cases h : s.isLive k with
  | true => simp [resolve, h]
  | false => simp [resolve, h, isLive_nullKey]

/-- The key that a message is sent through designates its target. -/
theorem filled_sending (ident : TableIndex) (loc : KeyLoc) :
    (s.sending ident loc).filled (s.target (s.keyAt loc)) ((s.sending ident loc).keyAt loc).brand =
      (s.sending ident loc).keyAt loc := by
  have hgeneration := generation_of_objects (objects_sending s ident loc)
  rw [keyAt_sending]
  rcases target_cases s (s.keyAt loc) with ⟨htarget, -, hresolve⟩ | ⟨hfilled, -, hresolve⟩
  · rw [htarget, hresolve]
    simp [filled, nullKey, hgeneration]
  · rw [hresolve]
    conv_rhs => rw [hfilled]
    simp [filled, hgeneration]

theorem readRef_refTo (cfg : Config) (loc : KeyLoc) :
    s.readRef (s.refTo cfg loc) = (s.keyAt loc).brand := by
  unfold refTo
  split <;> rfl

end KState

/-! ## Obligations -/

/-- What an invariant needs: `I` while the message is passed and `J` once a method has run,
for requests as described by `req`; panics are as `E` says. -/
structure Rules (cfg : Config) (A A' : Authority) (I J : KState → Prop)
    (req : KState → TableIndex → Brand → Message → Keys → Prop)
    (E : Panic → KState → Prop) : Prop where
  pass : Confined A I
  reply : Confined A' J
  through : ∀ {s}, s.WellFormed → I s → J s
  serve : ∀ {s e b m k kind rs s'}, s.WellFormed → I s → req s e b m k →
    (kind = .null ∨ kind = s.kind e ∧ A.obj e) → (∀ i, A.key s (k i)) →
    Effect cfg e b m k (s.looked kind e b) rs s' →
    J s' ∧ A'.key s' (k 0) ∧ ∀ i, A'.key s' (rs.keys i)
  fault : ∀ {s e b m k kind p}, s.WellFormed → I s → req s e b m k →
    (kind = .null ∨ kind = s.kind e ∧ A.obj e) → Fault cfg e b m k s p → ∀ s', E p s'
  honest : ∀ {s}, s.WellFormed → I s → A.Honest s E
  honestReply : ∀ {s}, s.WellFormed → J s → A'.Honest s E

section

variable {cfg : Config} {A A' : Authority} {I J : KState → Prop}
  {req : KState → TableIndex → Brand → Message → Keys → Prop} {E : Panic → KState → Prop}
  {s : KState}

theorem WellFormed.looked (hs : s.WellFormed) (kind : Kind) (e : TableIndex) (b : Brand) :
    (s.looked kind e b).WellFormed :=
  hs.of_sameSeats (sameSeats_looked s kind e b)

/-- A message is delivered, served and replied to. -/
theorem Rules.deliver (R : Rules cfg A A' I J req E) (hcfg : cfg.eagerRevocation = false)
    (hs : s.WellFormed) (hI : I s) {e : TableIndex} (ref : BrandRef) (sender : Sender)
    (hready : sender.Ready A s) (hcurrent : ∀ c, sender = .context c → c = s.current)
    (hkey : A.key s (s.filled e (s.readRef ref)))
    (hreq : ∀ s₁, Acts A s s₁ →
      req s₁ e (s₁.readRef ref) (s.outgoing sender).1 (s.outgoing sender).2) :
    wp (deliverFrom cfg replyDepth e ref sender) (fun _ s' => s'.WellFormed ∧ J s') E s := by
  have hlive : s.isLive (s.filled e (s.readRef ref)) = true := by simp [isLive, filled]
  have hobj : s.kind e = .null ∨ A.obj e := .inr (R.pass.deref hs hI hkey hlive rfl)
  refine deliverFrom_spec R.pass.toGuarded hs hI ref sender hready hcurrent (hobj.imp_right fun h => ⟨h, hkey⟩)
    (fun s' h => ?_) (fun s₁ kind hkind h₁ hkeys => ?_) (R.honest hs hI)
  · have hs' := Acts.wellFormed h hs
    exact ⟨hs', R.through hs' (R.pass.acts hs hI h)⟩
  · have hs₁ := Acts.wellFormed h₁ hs
    have hI₁ := R.pass.acts hs hI h₁
    have hsame := kind_of_objects (Acts.objects h₁)
    have hkind₁ : kind = .null ∨ kind = s₁.kind e ∧ A.obj e := by
      rw [hsame]
      unfold served at hkind
      rcases hobj with hnull | hobj
      · rw [hnull] at hkind
        exact .inl (Option.some.inj hkind).symm
      · split at hkind
        · split_ifs at hkind
          exact .inr ⟨by simp_all, hobj⟩
        · split_ifs at hkind
          · exact .inl (Option.some.inj hkind).symm
          · exact .inr ⟨by simp_all, hobj⟩
        · exact .inr ⟨(Option.some.inj hkind).symm, hobj⟩
    refine wp_mono (serve_effect hcfg hs₁ (hkind₁.imp_right And.left)) (fun rs s₂ heffect => ?_)
      fun p s' hfault => R.fault hs₁ hI₁ (hreq s₁ h₁) hkind₁ hfault s'
    have hs₂ := heffect.wellFormed (hs₁.of_sameSeats (sameSeats_looked _ _ _ _))
    obtain ⟨hJ₂, hk₂, hrs₂⟩ := R.serve hs₁ hI₁ (hreq s₁ h₁) hkind₁ hkeys heffect
    refine wp_mono (scopedReply_acts R.reply hs₂ hJ₂ hcfg hk₂ heffect.plain hrs₂
      (R.honestReply hs₂ hJ₂)) (fun _ s₃ h₃ => ?_) fun _ _ h => h
    exact ⟨Acts.wellFormed h₃ hs₂, R.reply.acts hs₂ hJ₂ h₃⟩

/-- A message is sent through a stored key. -/
theorem Rules.send (R : Rules cfg A A' I J req E) (hcfg : cfg.eagerRevocation = false)
    {ident : TableIndex} (loc : KeyLoc) (sender : Sender) (hs : s.WellFormed) (hI : I s)
    (howner : A.obj loc.owner) (hloc : ∀ c i, loc ≠ .regionReg c i)
    (hready : sender.Ready A (s.sending ident loc))
    (hcurrent : ∀ c, sender = .context c → c = s.current)
    (hreq : ∀ s₁, Acts A (s.sending ident loc) s₁ →
      req s₁ (s.target (s.keyAt loc)) (s₁.readRef ((s.sending ident loc).refTo cfg loc))
        ((s.sending ident loc).outgoing sender).1 ((s.sending ident loc).outgoing sender).2) :
    wp (keyDeliverFrom cfg loc ident sender) (fun _ s' => s'.WellFormed ∧ J s') E s := by
  have hacts : Acts A s (s.sending ident loc) := by
    refine Relation.ReflTransGen.tail (b := s.dropped loc) ?_ (.note _ trivial)
    unfold dropped
    split
    next => exact .refl
    next h => exact .single (.drop loc howner hloc (by simpa using h))
  have ht := Acts.wellFormed hacts hs
  have hIt := R.pass.acts hs hI hacts
  have hrun := R.deliver hcfg ht hIt (e := s.target (s.keyAt loc))
    ((s.sending ident loc).refTo cfg loc) sender hready
    (fun c h => (hcurrent c h).trans (current_of_objects (objects_sending s ident loc)).symm)
    (by
      rw [readRef_refTo, filled_sending]
      exact R.pass.held loc hIt howner) hreq
  have hbrand : ∀ {Q : BrandRef → KState → Prop} {t : KState},
      wp (brandRef cfg loc) Q E t ↔ Q (t.refTo cfg loc) t := by
    intro Q t
    cases h : cfg.brandByReference <;> simp [brandRef, refTo, h]
  simp only [keyDeliverFrom, wp_bind, wp_keyGet, wp_modify, hbrand]
  exact hrun

/-- The deferred switch. -/
theorem doDeferredSwitch_spec {F : KState → Prop} (hs : s.WellFormed)
    (hkeep : s.switchPending = false → F s)
    (hswitch : ∀ c, s.Sits c .runnable →
      F (({ s with switchPending := false } : KState).switchTo c))
    (hstuck : s.peek .runnable = none → E .noRunnable { s with switchPending := false }) :
    wp doDeferredSwitch (fun _ s' => F s') E s := by
  simp only [doDeferredSwitch, wp_bind, wp_get, wp_ite, wp_set, wp_pure]
  refine ⟨fun _ => ?_, fun h => hkeep (by simpa using h)⟩
  simp only [switchNow, wp_bind, wp_get]
  have hpeek : ({ s with switchPending := false } : KState).peek .runnable = s.peek .runnable := rfl
  cases h : s.peek .runnable with
  | none =>
    rw [hpeek, h]
    exact hstuck h
  | some r =>
    obtain ⟨p, hr⟩ := exists_mem_of_peek h
    obtain ⟨c, rfl, hc⟩ := hs.mem_runnable hr
    rw [hpeek, h]
    simp only [wp_bind, wp_set, wp_applyToMpu]
    exact hswitch c hc

/-! ## Invariants that hold whatever keys there are -/

/-- Any key, any object. -/
def Authority.any (blocks : Prop) : Authority := ⟨fun _ _ => True, fun _ => True, blocks⟩

theorem Confined.any {blocks : Prop} {I : KState → Prop}
    (hact : ∀ {s s'}, s.WellFormed → I s → Act (.any blocks) s s' → I s') :
    Confined (.any blocks) I where
  null _ := trivial
  held _ _ _ := trivial
  gate _ _ _ _ _ _ := trivial
  deref _ _ _ _ _ := trivial
  waiting _ _ _ _ _ := trivial
  queued _ _ _ _ := trivial
  interrupt _ _ _ _ := trivial
  reply _ _ _ _ _ := trivial
  act := hact
  stable _ _ _ _ := trivial

theorem Rules.any {cfg : Config} {blocks : Prop} {I J : KState → Prop}
    {req : KState → TableIndex → Brand → Message → Keys → Prop} {E : Panic → KState → Prop}
    (hpass : ∀ {s s'}, s.WellFormed → I s → Act (.any blocks) s s' → I s')
    (hreply : ∀ {s s'}, s.WellFormed → J s → Act (.any blocks) s s' → J s')
    (hthrough : ∀ {s}, s.WellFormed → I s → J s)
    (hserve : ∀ {s e b m k kind rs s'}, s.WellFormed → I s → req s e b m k →
      Effect cfg e b m k (s.looked kind e b) rs s' → J s')
    (hfault : ∀ {s e b m k kind p}, s.WellFormed → I s → req s e b m k →
      (kind = .null ∨ kind = s.kind e) → Fault cfg e b m k s p → ∀ s', E p s')
    (hhonest : ∀ s', E .notAwaitingReply s') :
    Rules cfg (.any blocks) (.any blocks) I J req E where
  pass := .any hpass
  reply := .any hreply
  through := hthrough
  serve hs hI hreq _ _ heffect := ⟨hserve hs hI hreq heffect, trivial, fun _ => trivial⟩
  fault hs hI hreq hkind hf := hfault hs hI hreq (hkind.imp_right And.left) hf
  honest _ _ _ _ _ _ _ _ _ := hhonest _
  honestReply _ _ _ _ _ _ _ _ _ := hhonest _

/-! ## System calls -/

/-- The key register that a system call sends through. -/
def KState.targetReg (s : KState) (regs : UserRegisters) : KeyLoc :=
  .keyReg s.current (⟨regs 0⟩ : Descriptor).getTarget

/-- The state in which the current Context's message leaves. -/
def KState.svcSending (s : KState) (stack : Word) (regs : UserRegisters) : KState :=
  (s.ready stack regs).sending s.current (s.targetReg regs)

/-- What the object that a system call invokes finds: the object, the brand it looks at, the
message and the keys. -/
def SvcRequest (cfg : Config) (s : KState) (stack : Word) (regs : UserRegisters) (s₁ : KState)
    (e : TableIndex) (b : Brand) (m : Message) (k : Keys) : Prop :=
  (⟨regs 0⟩ : Descriptor).getSendEnabled = true ∧
    e = (s.ready stack regs).target ((s.ready stack regs).keyAt (s.targetReg regs)) ∧
    b = s₁.readRef ((s.svcSending stack regs).refTo cfg (s.targetReg regs)) ∧
    m = ((s.svcSending stack regs).context s.current).save.message.sanitized ∧
    k = (s.svcSending stack regs).sentKeys s.current ∧
    s₁.objects = s.objects

theorem Rules.svc {stack : Word} {regs : UserRegisters} {F : KState → Prop}
    (R : Rules cfg A A' I J (SvcRequest cfg s stack regs) E)
    (hcfg : cfg.eagerRevocation = false) (hs : s.WellFormed) (hI : I s) (hblocks : A.blocks)
    (hobj : A.obj s.current) (hsits : s.Sits s.current .runnable)
    (hkr0 : s.kind (s.target (s.keyAt (.keyReg s.current 0))) ≠ .null → ∀ s', E .kr0Written s')
    (hfinish : ∀ s', s'.WellFormed → J s' → wp doDeferredSwitch (fun _ s'' => F s'') E s')
    (hkeyOp : ∀ src dst : Fin nTaskKeys, dst ≠ 0 →
      F (s.setKeyAt (.keyReg s.current dst) (s.keyAt (.keyReg s.current src))))
    (hnone : F s) : wp (svcEntry cfg stack regs) (fun _ s' => F s') E s := by
  simp only [svcEntry, wp_bind, wp_get, wp_ite]
  refine ⟨fun _ => ?_, fun _ => ?_⟩
  · -- IPC
    have hentered : (s.updateContext s.current fun b =>
        { b with save := fun i => if h : i.val < 8 then regs ⟨i.val, h⟩ else b.save i }).updateContext
          s.current (fun b => { b with save := Function.update b.save 9 stack }) =
        s.entered stack regs := by
      simp [updateContext, entered]
    have hacts : Acts A s (s.entered stack regs) := .single (.save s.current
      (fun save => Function.update (fun i => if h : i.val < 8 then regs ⟨i.val, h⟩ else save i) 9 stack)
      hobj)
    have hready : Acts A s (s.ready stack regs) := by
      unfold ready dropped
      split
      next => exact hacts
      next h => exact hacts.tail (.drop _ hobj (by simp) (by simpa using h))
    have hsame := s.sameSeats_ready stack regs
    have hs₁ := Acts.wellFormed hready hs
    have hI₁ := R.pass.acts hs hI hready
    have hcurrent : (s.ready stack regs).current = s.current :=
      current_of_objects (objects_ready s stack regs)
    have hkey0 : (s.entered stack regs).keyAt (.keyReg s.current 0) =
        s.keyAt (.keyReg s.current 0) := by
      simp [entered, keyAt]
    have htarget0 : (s.entered stack regs).target ((s.entered stack regs).keyAt
        (.keyReg s.current 0)) = s.target (s.keyAt (.keyReg s.current 0)) := by
      rw [hkey0, target_of_objects (objects_entered s stack regs)]
    simp only [saveUser, Context.doIpc, wp_bind, wp_modify, hentered, wp_keyGet, wp_get, panicIf,
      wp_ite, wp_pure, wp_throw, htarget0]
    have hstate : (if (s.entered stack regs).isLive ((s.entered stack regs).keyAt
        (.keyReg s.current 0)) then s.entered stack regs
        else (s.entered stack regs).setKeyAt (.keyReg s.current 0) (s.entered stack regs).nullKey) =
        s.ready stack regs := rfl
    rw [hstate]
    refine ⟨fun h => ?_, fun _ => ⟨fun hsend => ?_, fun _ => ⟨fun _ => ?_, fun _ => ?_⟩⟩⟩
    · refine hkr0 (fun hnull => ?_) _
      rw [kind_of_objects (objects_ready s stack regs)] at h
      simp [hnull] at h
    · refine wp_mono (R.send hcfg (s.targetReg regs) (.context s.current) hs₁ hI₁
        hobj (by simp [targetReg]) ⟨hblocks, hobj, ?_⟩ ?_ ?_) (fun _ s' h => hfinish s' h.1 h.2)
          fun _ _ h => h
      · exact (sameSeats_sending _ _ _).sits (hsame.sits hsits)
      · rintro c ⟨⟩
        exact hcurrent.symm
      · intro s₁ h₁
        exact ⟨hsend, rfl, rfl, rfl, rfl, (Acts.objects h₁).trans (by simp)⟩
    · have hget := keyGet_acts R.pass.toGuarded hs₁ hI₁ (c := s.current) hobj
        (⟨regs 0⟩ : Descriptor).getSource
      rw [wp_keyGet] at hget
      obtain ⟨h₂, hsame₂, hobject⟩ := hget
      have hs₂ := Acts.wellFormed h₂ hs₁
      refine wp_conseq ((delivers_bounded R.pass.toGuarded hblocks
        (Nat.succ (KState.blockedSenders _))).acts hs₂ (R.pass.acts hs₁ hI₁ h₂) hobj
          (hsame₂.sits (hsame.sits hsits)) hobject (Nat.lt_succ_self _)) fun _ s₃ h₃ => ?_
      have hs₃ := Acts.wellFormed h₃ hs₂
      exact hfinish s₃ hs₃ (R.through hs₃ (R.pass.acts hs₁ hI₁ (h₂.trans h₃)))
    · exact hfinish _ hs₁ (R.through hs₁ hI₁)
  · simp only [Context.doKeyOp, wp_ite, wp_modify, wp_pure]
    exact ⟨fun h => hkeyOp _ _ h.2, fun _ => hnone⟩

/-! ## Interrupts -/

/-- The state in which an Interrupt's message leaves: its line is disabled. -/
def KState.masked (s : KState) (i : TableIndex) : KState :=
  { s with irqEnabled := Function.update s.irqEnabled (s.interrupt i).identifier false }

theorem sameSeats_masked (s : KState) (i : TableIndex) : SameSeats s (s.masked i) :=
  ⟨rfl, rfl, rfl, fun _ => .refl _, fun _ => .refl _⟩

/-- What the object that an Interrupt's target key designates finds. -/
def IrqRequest (cfg : Config) (s : KState) (i : TableIndex) (s₁ : KState) (e : TableIndex)
    (b : Brand) (m : Message) (k : Keys) : Prop :=
  e = s.target (s.interrupt i).target ∧
    b = s₁.readRef (((s.masked i).sending i (.target i)).refTo cfg (.target i)) ∧
    m = { desc := Descriptor.zero.withSelector 1#16, d0 := (s.interrupt i).identifier } ∧
    k = ![s.filled i 0#64, s.nullKey, s.nullKey, s.nullKey] ∧
    s₁.objects = (s.masked i).objects

theorem Rules.trigger {i : TableIndex} (R : Rules cfg A A' I J (IrqRequest cfg s i) E)
    (hcfg : cfg.eagerRevocation = false) (hs : s.WellFormed) (hI : I (s.masked i))
    (hobj : A.obj i) (hkind : s.kind i = .interrupt) :
    wp (Interrupt.trigger cfg i) (fun _ s' => s'.WellFormed ∧ J s') E s := by
  have hsame := sameSeats_masked s i
  have hs₁ := hs.of_sameSeats hsame
  obtain ⟨q, hq⟩ := hs.interrupt i
  simp only [Interrupt.trigger, Interrupt.disableInterrupt, wp_bind, wp_modify, wp_get, wp_ite,
    wp_pure]
  refine ⟨fun _ => ⟨hs₁, R.through hs₁ hI⟩, fun hidle => ?_⟩
  have hnone : q = none := by
    cases q with
    | none => rfl
    | some g =>
      refine absurd ?_ hidle
      show (s.interrupt i).senderItem.container.isSome = true
      rw [hq.item]
      rfl
  subst hnone
  have hsame' : SameSeats s ((s.masked i).sending i (.target i)) :=
    hsame.trans (sameSeats_sending _ _ _)
  change wp (keyDeliverFrom cfg (.target i) i (.interrupt i)) _ E (s.masked i)
  refine R.send hcfg (.target i) (.interrupt i) hs₁ hI hobj (by simp) ⟨hobj, ?_, hsame'.queued hq⟩
    (by simp) fun s₁ h₁ => ⟨rfl, rfl, ?_, ?_, ?_⟩
  · exact (congrFun hsame'.kind i).trans hkind
  · have hident : (((s.masked i).sending i (.target i)).interrupt i).identifier =
        (s.interrupt i).identifier := by
      unfold sending dropped
      split <;> simp [masked, setKeyAt]
    simp [outgoing, hident]
  · have hfilled : ∀ x b, ((s.masked i).sending i (.target i)).filled x b = s.filled x b := by
      intro x b
      simp only [filled, generation_of_objects (objects_sending (s.masked i) i (.target i))]
      rfl
    have hnull : ((s.masked i).sending i (.target i)).nullKey = s.nullKey := hfilled 0 0#64
    simp [outgoing, hfilled, hnull]
  · exact (Acts.objects h₁).trans (by simp)

/-- An exception on an enabled line is handed to the Interrupt in the redirection table. -/
theorem irqRedirector_spec {n : Nat} (hn : n ≥ 15) {F : KState → Prop}
    (htable : s.irqCount ≤ n - 15 → ∀ p : Panic, p.isRedirection → E p s)
    (hnull : s.irqTable (n - 15) = none → n - 15 < s.irqCount → E .nullRedirectorEntry s)
    (hrun : ∀ i, s.irqTable (n - 15) = some i → n - 15 < s.irqCount →
      wp (Interrupt.trigger cfg i) (fun _ s' => (s'.switchPending = false → F s') ∧
        (s'.switchPending = true → F { s' with switchPending := false, pendSv := true })) E s) :
    wp (irqRedirector cfg n) (fun _ s' => F s') E s := by
  simp only [irqRedirector, panicUnless, panicIf, wp_bind, wp_ite, wp_pure, wp_throw, wp_get,
    decide_eq_true_eq]
  refine ⟨fun _ => ⟨fun h => htable (by omega) _ (.inl rfl), fun _ => ⟨fun hlt => ?_,
    fun h => htable (by omega) _ (.inr rfl)⟩⟩, fun h => absurd hn h⟩
  cases hentry : s.irqTable (n - 15) with
  | none => exact hnull hentry hlt
  | some i =>
    simp only [wp_bind, doDeferredSwitchFromIrq, wp_get, wp_ite, wp_set, wp_pure]
    exact wp_mono (hrun i hentry hlt) (fun _ s' h => ⟨h.2, fun hp => h.1 (by simpa using hp)⟩)
      fun _ _ h => h

theorem pendSvEntry_spec {stack : Word} {regs : UserRegisters} {F : KState → Prop}
    (hs : s.WellFormed)
    (hswitch : ∀ c, s.Sits c .runnable →
      F ((({ s with pendSv := false } : KState).entered stack regs).switchTo c))
    (hstuck : s.peek .runnable = none → ∀ s', E .noRunnable s') :
    wp (pendSvEntry stack regs) (fun _ s' => F s') E s := by
  have hentered : (({ s with pendSv := false } : KState).updateContext s.current fun b =>
      { b with save := fun i => if h : i.val < 8 then regs ⟨i.val, h⟩ else b.save i }).updateContext
        s.current (fun b => { b with save := Function.update b.save 9 stack }) =
      ({ s with pendSv := false } : KState).entered stack regs := by
    simp [updateContext, entered]
  simp only [pendSvEntry, saveUser, wp_bind, wp_get, wp_modify, hentered, switchNow]
  have hpeek : (({ s with pendSv := false } : KState).entered stack regs).peek .runnable =
      s.peek .runnable := rfl
  cases h : s.peek .runnable with
  | none =>
    rw [hpeek, h]
    exact hstuck h _
  | some r =>
    obtain ⟨p, hr⟩ := exists_mem_of_peek h
    obtain ⟨c, rfl, hc⟩ := hs.mem_runnable hr
    rw [hpeek, h]
    simp only [wp_bind, wp_set, wp_applyToMpu]
    exact hswitch c hc

end

/-! ## Runs -/

/-- An invariant that boot establishes and every step keeps holds of every reachable state. -/
theorem Reachable.invariant {cfg : Config} {app : AppInfo} {P : KState → Prop} {s : KState}
    (h : Reachable cfg app s) (hboot : ∀ machine s, Boots app machine s → P s)
    (hstep : ∀ s a s', Reachable cfg app s → P s → BrittleKernel.step cfg a s = .ok () s' → P s') :
    P s := by
  induction h with
  | boot h => exact hboot _ _ h
  | step hs h ih => exact hstep _ _ _ hs ih h

end BrittleKernel
