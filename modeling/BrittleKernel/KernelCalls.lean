import Mathlib
import BrittleKernel.Elections
import BrittleKernel.OneShot
import BrittleKernel.Termination

/-!
# Calls on Kernel Objects

A program that calls a kernel object has the method's reply in its registers when the system call
ends, whatever else the kernel does on the way: the call is the method, run in the state in which
the caller awaits the reply.  This is what the wrappers of the kernel's protocols rely on.
-/

namespace BrittleKernel

open Hoare KState

namespace KState

/-! ## The parts of a call -/

/-- The keys that a system call's message carries. -/
def svcKeys (s : KState) (stack : Word) (regs : UserRegisters) : Keys :=
  (s.svcSending stack regs).sentKeys s.current

/-- The state in which the object called serves the message: the caller awaits the reply. -/
def calling (s : KState) (stack : Word) (regs : UserRegisters) : KState :=
  ((s.svcSending stack regs).reseat s.current .awaiting).pend

/-- The state in which a method's reply has reached the Context that awaits it. -/
def replied (s : KState) (c : TableIndex) (rs : ReplySender) : KState :=
  ((s.answered c (s.context c).expectedReplyBrand).deposit (.bank c ((s.context c).save 7)) rs.keys).informed
    c none rs.message (s.context c).expectedReplyBrand

/-- A Context awaits the reply that this key is for. -/
def Expects (s : KState) (c : TableIndex) (k : Key) : Prop :=
  s.Sits c .awaiting ∧ k = s.filled c (s.context c).expectedReplyBrand ∧ k.brand.isTop = true

end KState

section

variable {cfg : Config} {s s' : KState} {stack : Word} {regs : UserRegisters}

/-- A system call that sends, from the state in which the message leaves. -/
theorem wp_svcEntry_send (hs : s.Settled) (hsys : (⟨regs 0⟩ : Descriptor).getSysnum = 0)
    (hsend : (⟨regs 0⟩ : Descriptor).getSendEnabled = true) {Q : Unit → KState → Prop}
    {E : Panic → KState → Prop} :
    wp (svcEntry cfg stack regs) Q E s ↔
      wp (do
        deliverFrom cfg replyDepth (s.invoked regs)
          ((s.svcSending stack regs).refTo cfg (s.targetReg regs)) (.context s.current)
        doDeferredSwitch) Q E (s.svcSending stack regs) := by
  have hentered : (s.updateContext s.current fun b =>
      { b with save := fun i => if h : i.val < 8 then regs ⟨i.val, h⟩ else b.save i }).updateContext
        s.current (fun b => { b with save := Function.update b.save 9 stack }) =
      s.entered stack regs := by
    simp [updateContext, entered]
  have hnull : (s.ready stack regs).kind ((s.entered stack regs).target
      ((s.entered stack regs).keyAt (.keyReg s.current 0))) = .null := by
    rw [kind_of_objects (objects_ready s stack regs), keyAt_entered,
      target_of_objects (objects_entered s stack regs)]
    exact hs.null_register0
  have hready : (if (s.entered stack regs).isLive ((s.entered stack regs).keyAt
      (.keyReg s.current 0)) then s.entered stack regs
      else (s.entered stack regs).setKeyAt (.keyReg s.current 0) (s.entered stack regs).nullKey) =
      s.ready stack regs := rfl
  have hbrand : ∀ {Q : BrandRef → KState → Prop} {t : KState} {loc : KeyLoc},
      wp (brandRef cfg loc) Q E t ↔ Q (t.refTo cfg loc) t := by
    intro Q t loc
    cases h : cfg.brandByReference <;> simp [brandRef, refTo, h]
  simp only [svcEntry, wp_bind, wp_get, hsys, if_true, saveUser, Context.doIpc, wp_modify, hentered,
    wp_keyGet]
  rw [hready]
  simp only [panicIf, hnull, ne_eq, not_true_eq_false, decide_false, Bool.false_eq_true, if_false,
    wp_pure, hsend, keyDeliverFrom, if_true, wp_bind, wp_keyGet, wp_modify, hbrand]
  have htarget : (s.ready stack regs).target ((s.ready stack regs).keyAt
      (.keyReg s.current (⟨regs 0⟩ : Descriptor).getTarget)) = s.invoked regs :=
    target_keyAt_ready (s.targetReg regs)
  rw [htarget]
  rfl

/-! ## The call as a whole -/

/-- The brand of the key that a system call invokes. -/
def KState.invokedBrand (s : KState) (regs : UserRegisters) : Brand :=
  (s.resolve (s.keyAt (s.targetReg regs))).brand

/-- The invoked register holds a live key once the message has left. -/
theorem isLive_targetReg (s : KState) (stack : Word) (regs : UserRegisters) :
    (s.svcSending stack regs).isLive ((s.svcSending stack regs).keyAt (s.targetReg regs)) = true := by
  rw [svcSending, keyAt_sending, isLive_of_objects (objects_sending _ _ _)]
  exact isLive_resolve _ _

theorem expectedReplyBrand_svcSending (c : TableIndex) :
    ((s.svcSending stack regs).context c).expectedReplyBrand = (s.context c).expectedReplyBrand := by
  have hdropped : ∀ (t : KState) (loc : KeyLoc), ((t.dropped loc).context c).expectedReplyBrand =
      (t.context c).expectedReplyBrand := by
    intro t loc
    unfold dropped
    split
    · rfl
    · cases loc with
      | target i => rfl
      | keyReg x i | regionReg x i => by_cases hx : c = x <;> simp [setKeyAt, updateContext, hx]
  have hentered : ((s.entered stack regs).context c).expectedReplyBrand =
      (s.context c).expectedReplyBrand := by
    by_cases hc : c = s.current <;> simp [entered, updateContext, hc]
  rw [svcSending, sending, context_record, hdropped, ready, hdropped, hentered]

theorem served_svcSending (e : TableIndex) (b : Brand) :
    (s.svcSending stack regs).served e b = s.served e b := by
  simp only [served, kind_of_objects objects_svcSending, expectedReplyBrand_svcSending]

/-- Receiving through one's own reply key is waiting. -/
theorem Receives.of_ownReply {c : TableIndex} {k : Key} (h : Receives s c k s') (hown : s.ownReply c k) :
    s' = (s.reseat c .awaiting).pend := by
  have hnone : ¬s.opens k := fun hopens => by
    have hgate := hopens.1
    rw [hown.1, hown.2.1] at hgate
    cases hgate
  cases h with
  | refused _ hnot => exact absurd hown hnot
  | awaiting => rfl
  | waiting hopens | irq hopens | sender hopens => exact absurd hopens hnone

/-- A caller's message is taken in: nothing is received before the reply. -/
theorem onDelivery_calling (hs : s.Settled) (hcall : (⟨regs 0⟩ : Descriptor).isCall = true) :
    wp (Sender.onDelivery (.context s.current) .frame)
      (fun r s₁ => r = (svcMessage regs, s.svcKeys stack regs) ∧ s₁ = s.calling stack regs) never
      (s.svcSending stack regs) := by
  have hwf := hs.wellFormed_svcSending stack regs
  have hfree := hs.free stack regs
  refine wp_mono (onDelivery_takenIn hwf hfree (by simp)) (fun r s₁ ⟨hr, htaken⟩ => ⟨?_, ?_⟩) fun _ _ h => h
  · rw [hr, ← outgoing_svcSending]
    rfl
  · have hdesc : ((s.svcSending stack regs).context s.current).save.message.desc = ⟨regs 0⟩ := by
      rw [save_svcSending]
      rfl
    have hreceive : (⟨regs 0⟩ : Descriptor).getReceiveEnabled = true := by
      simp only [Descriptor.isCall, Bool.and_eq_true] at hcall
      exact hcall.1
    have hreceives := htaken.1 (by rw [KState.deposit, hdesc]; exact hreceive)
    simp only [KState.deposit, receiving, receiveKey, hdesc, hcall, if_true] at hreceives
    -- The key received through is the caller's own reply key.
    have hown : (s.svcSending stack regs).ownReply s.current ((s.svcSending stack regs).sentKeys s.current 0) := by
      have hreply : (s.svcSending stack regs).sentKeys s.current 0 =
          (s.svcSending stack regs).filled s.current
            ((s.svcSending stack regs).context s.current).expectedReplyBrand := by
        simp [sentKeys, hdesc, hcall]
      have hfresh : ∀ b, (s.svcSending stack regs).resolve ((s.svcSending stack regs).filled s.current b) =
          (s.svcSending stack regs).filled s.current b := fun b => by simp [resolve, isLive, filled]
      rw [hreply]
      exact ⟨by rw [KState.target, hfresh]; rfl, hfree.2.2.kind_of_runnable, by rw [hfresh]; rfl⟩
    exact hreceives.of_ownReply hown

/-- A call on a kernel object is its method, run while the caller awaits the reply. -/
theorem svcEntry_call (hs : s.Settled) (hsys : (⟨regs 0⟩ : Descriptor).getSysnum = 0)
    (hsend : (⟨regs 0⟩ : Descriptor).getSendEnabled = true)
    (hcall : (⟨regs 0⟩ : Descriptor).isCall = true) {kind : Kind}
    (hserved : s.served (s.invoked regs) (s.invokedBrand regs) = some kind) :
    svcEntry cfg stack regs s = (do
      let rs ← Object.serve cfg (s.invoked regs) (s.invokedBrand regs) (svcMessage regs)
        (s.svcKeys stack regs) kind
      scopedReply cfg (deliverFrom cfg 1) (s.svcKeys stack regs 0) rs
      doDeferredSwitch : K Unit) (s.calling stack regs) := by
  have hbrand : (s.svcSending stack regs).readRef ((s.svcSending stack regs).refTo cfg (s.targetReg regs)) =
      s.invokedBrand regs := KState.readRef_svcSending
  have hread : (s.calling stack regs).readRef ((s.svcSending stack regs).refTo cfg (s.targetReg regs)) =
      s.invokedBrand regs := by
    rw [← hbrand]
    unfold refTo
    split
    · simp [readRef, calling]
    · rfl
  have htaken : (s.svcSending stack regs).served (s.invoked regs) ((s.svcSending stack regs).readRef
      ((s.svcSending stack regs).refTo cfg (s.targetReg regs))) = some kind := by
    rw [hbrand, served_svcSending]
    exact hserved
  refine eq_of_wp fun {Q E} h => ?_
  rw [wp_svcEntry_send hs hsys hsend, wp_bind]
  have hdeliver : deliverFrom cfg (1 + 1) (s.invoked regs) _ (.context s.current)
      (s.svcSending stack regs) = _ := deliverFrom_served htaken 1
  refine (wp_congr hdeliver).mpr ?_
  rw [wp_bind]
  refine wp_mono (onDelivery_calling hs hcall) ?_ fun _ _ h => h.elim
  rintro ⟨m, k⟩ s₁ ⟨hout, rfl⟩
  obtain ⟨rfl, rfl⟩ := Prod.mk.inj hout
  simp only [wp_bind, wp_readRef, hread] at h ⊢
  exact h

end

/-! ## Methods and the caller -/

/-- The message makes object `e` take away the wait of Context `c`: Make Runnable on the Context
itself, or Invalidate of its entry. -/
def KState.EndsWait (s : KState) (e : TableIndex) (m : Message) (c : TableIndex) : Prop :=
  e = c ∧ ContextMethod.ofSelector m.desc.getSelector = some .makeRunnable ∨
    s.kind e = .objectTable ∧ ObjectTableMethod.ofSelector m.desc.getSelector = some .invalidate ∧
      m.d0.toNat = c

instance (s : KState) (e : TableIndex) (m : Message) (c : TableIndex) : Decidable (s.EndsWait e m c) :=
  inferInstanceAs (Decidable (_ ∨ _))

section

variable {cfg : Config} {s s' : KState} {e c : TableIndex} {brand : Brand} {m : Message} {k : Keys}
  {rs : ReplySender}

theorem KState.expected_advanceReply (s : KState) {x : TableIndex} (hx : c ≠ x) :
    ((s.advanceReply x).context c).expectedReplyBrand = (s.context c).expectedReplyBrand := by
  simp [advanceReply, hx]

/-- Only Make Runnable and Invalidate advance reply brands. -/
theorem Effect.expected_kept (h : Effect cfg e brand m k s rs s') (hc : s.kind c = .context)
    (hkept : ¬s.EndsWait e m c) :
    (s'.context c).expectedReplyBrand = (s.context c).expectedReplyBrand := by
  cases h with
  | writeKey | setTarget => exact (sameReplies_setKeyAt _ _ _).expected c
  | writeRegion r =>
    have hstored := (sameReplies_setKeyAt s (.regionReg e r) (k 1)).expected c
    split
    · exact ((sameReplies_loadMpu _ _).expected c).trans hstored
    · exact hstored
  | writeSave => exact (sameReplies_updateContext s e rfl).expected c
  | callOff => exact ((sameReplies_reseat s e _).trans (sameReplies_calledOff _ e)).expected c
  | callOffReply hm =>
    have hne : c ≠ e := fun heq => hkept (.inl ⟨heq.symm, hm⟩)
    have hrest := (sameReplies_reseat (s.advanceReply e) e .runnable).trans (sameReplies_calledOff _ e)
    rw [hrest.expected, expected_advanceReply s hne]
  | start => exact (sameReplies_reseat s e _).expected c
  | setPriority seat =>
    have hset : SameReplies s (s.updateContext e fun b => { b with priority := m.d0.toNat }) :=
      sameReplies_updateContext s e rfl
    exact (hset.trans (sameReplies_seat _ e seat)).expected c
  | invalidate he hm =>
    have hne : c ≠ m.d0.toNat := fun heq => hkept (.inr ⟨he, hm, heq.symm⟩)
    rw [invalidated, (sameReplies_bump _ _).expected]
    unfold invalidationHook
    split
    · exact (sameReplies_loadMpu _ _).expected c
    · dsimp only
      split
      · exact (expected_advanceReply _ hne).trans ((sameReplies_seat _ _ .stopped).expected c)
      · exact (expected_advanceReply _ hne).trans ((sameReplies_seat _ _ .stopped).expected c)
    · rfl
    · rfl
  | split slot =>
    unfold splitMemory
    extract_lets _ top bottom
    have htop : SameReplies s top := (sameReplies_bump s slot).trans (sameReplies_buildMemory _ _ _ _ _ _)
    have horphan : SameReplies top (top.orphan e) := .of_history (by simp) fun _ => by simp
    have hbottom : SameReplies s bottom := ((htop.trans horphan).trans (sameReplies_bump _ e)).trans
      (sameReplies_buildMemory _ _ _ _ _ _)
    exact (hbottom.trans (sameReplies_loadMpu _ _)).expected c
  | makeChild slot =>
    exact ((sameReplies_bump s slot).trans (sameReplies_buildMemory _ _ _ _ _ _)).expected c
  | become t hok =>
    have hne : c ≠ e := by
      rintro rfl
      simp [hok.memory] at hc
    have hbuilt : (((s.bump e).buildObject t e (s.memory e).base m.d1).context c).expectedReplyBrand =
        (s.context c).expectedReplyBrand := by
      cases t with
      | context => simp [buildObject, hne]
      | gate | interrupt => rfl
    exact ((sameReplies_loadMpu _ _).expected c).trans hbuilt
  | _ => rfl

/-- Nor do other methods move the generation of a Context. -/
theorem Effect.generation_kept (h : Effect cfg e brand m k s rs s') (hc : s.kind c = .context)
    (hkept : ¬s.EndsWait e m c) : s'.generation c = s.generation c := by
  cases h.ticks with
  | none hsame => exact congrFun hsame.generation c
  | invalidate he hm _ hsame =>
    have hne : c ≠ m.d0.toNat := fun heq => hkept (.inr ⟨he, hm, heq.symm⟩)
    rw [hsame.generation, generation_bump, Function.update_of_ne hne]
  | split slot hok _ hsame =>
    have hne : c ≠ e ∧ c ≠ slot := ⟨by rintro rfl; simp [hok.memory] at hc, by rintro rfl; simp [hok.slot] at hc⟩
    rw [hsame.generation, generation_bump, Function.update_of_ne hne.1, generation_bump,
      Function.update_of_ne hne.2]
  | makeChild slot hok _ hsame =>
    have hne : c ≠ slot := by
      rintro rfl
      simp [hok.slot] at hc
    rw [hsame.generation, generation_bump, Function.update_of_ne hne]
  | become t hok hsame =>
    have hne : c ≠ e := by
      rintro rfl
      simp [hok.memory] at hc
    rw [hsame.generation, generation_bump, Function.update_of_ne hne]

theorem KState.Expects.looked {key : Key} (h : s.Expects c key) (kind : Kind) (x : TableIndex)
    (b : Brand) : (s.looked kind x b).Expects c key := by
  rcases s.looked_cases kind x b with hsame | hrecorded
  · rwa [hsame]
  · rw [hrecorded]
    exact ⟨(sameSeats_record _ _).sits h.1, h.2.1, h.2.2⟩

/-- A Context that awaits a reply goes on doing so. -/
theorem Effect.expects (h : Effect cfg e brand m k s rs s') {key : Key} (hc : s.Expects c key)
    (hkept : ¬s.EndsWait e m c) : s'.Expects c key := by
  obtain ⟨hsits, hkey, htop⟩ := hc
  have hkind := hsits.kind (by simp)
  refine ⟨?_, ?_, htop⟩
  · rcases h.sits_cases hsits with hstays | ⟨rfl, hm, -⟩ | ⟨heq, hm, he, -⟩
    · exact hstays
    · exact absurd (.inl ⟨rfl, hm⟩) hkept
    · exact absurd (.inr ⟨he, hm, heq.symm⟩) hkept
  · rw [hkey, filled, filled, h.expected_kept hkind hkept, h.generation_kept hkind hkept]

/-- The reply to a Context that expects it is honoured. -/
theorem Replied.of_expects {key : Key} (h : Replied s key rs s') (hc : s.Expects c key) :
    s' = s.replied c rs := by
  obtain ⟨hsits, hkey, htop⟩ := hc
  have hkind := hsits.kind (by simp)
  have hresolve : s.resolve key = key := by
    rw [hkey]
    simp [resolve, isLive, filled]
  have htarget : s.target key = c := by
    rw [target, hresolve, hkey]
    rfl
  have hbrand : key.brand = (s.context c).expectedReplyBrand := congrArg Key.brand hkey
  cases h with
  | elided hnull => simp [htarget, hkind] at hnull
  | passed hsends =>
    rw [htarget, hresolve] at hsends
    cases hsends with
    | queued hgate | woken hgate => simp [hkind] at hgate
    | answered _ _ _ _ htaken =>
      obtain rfl := htaken
      simp only [readRef, hbrand]
      rfl
  | misunderstood hserved =>
    rw [htarget, hresolve] at hserved
    simp [served, hkind, hbrand, hbrand ▸ htop] at hserved

/-- The caller of a kernel object, after a switch from the state that its reply has led to. -/
structure KState.Returned (t : KState) (c : TableIndex) (rs : ReplySender) (s' : KState) : Prop where
  switches : Switches (t.replied c rs) s'
  runnable : s'.Sits c .runnable
  message : (s'.context c).save.message = rs.message
  keys : (s'.context c).keys = storeKeys (t.context c).keys ((t.context c).save 7) rs.keys

theorem Switches.save (h : Switches s s') (c : TableIndex) :
    (s'.context c).save = (s.context c).save ∧ (s'.context c).keys = (s.context c).keys := by
  cases h with
  | stays => exact ⟨rfl, rfl⟩
  | elects x =>
    by_cases hc : c = x
    · subst hc
      simp [switchTo, loadMpu]
    · simp [switchTo, loadMpu, hc]

theorem KState.returned_of_switches (hc : s.Sits c .awaiting)
    (h : Switches (s.replied c rs) s') : s.Returned c rs s' := by
  have hfields : ((s.replied c rs).context c).save.message = rs.message ∧
      ((s.replied c rs).context c).keys =
        storeKeys (s.context c).keys ((s.context c).save 7) rs.keys := by
    simp [replied, informed, deposit, answered, reseat, pend, advanceReply, SavedRegisters.message,
      SavedRegisters.setMessage, SavedRegisters.setBrand]
  have hruns : (s.replied c rs).Sits c .runnable := by
    have hwoken : (((s.advanceReply c).record (.answered c (s.context c).expectedReplyBrand)).reseat c
        .runnable).Sits c .runnable := sits_reseat _ c .runnable (fun _ => hc.kind (by simp)) (by simp [Seat.gate])
    exact (((sameSeats_pend _).trans (sameSeats_deposit _ _ _)).trans (sameSeats_informed _ c _ _ _)).sits hwoken
  obtain ⟨hsave, hkeys⟩ := h.save c
  refine ⟨h, ?_, by rw [hsave]; exact hfields.1, by rw [hkeys]; exact hfields.2⟩
  cases h with
  | stays => exact hruns
  | elects x =>
    have hidle : SameSeats (s.replied c rs) ({ s.replied c rs with switchPending := false } : KState) :=
      ⟨rfl, rfl, rfl, fun _ => .refl _, fun _ => .refl _⟩
    exact (hidle.trans (sameSeats_switchTo _ x)).sits hruns

/-- While the method runs, the caller expects its reply. -/
theorem KState.Settled.expects_calling (hs : s.Settled) (htallied : s.Tallied) {stack : Word}
    {regs : UserRegisters} (hcall : (⟨regs 0⟩ : Descriptor).isCall = true) :
    (s.calling stack regs).Expects s.current (s.svcKeys stack regs 0) := by
  have hfree := (hs.free stack regs).2.2
  have hkind : (s.svcSending stack regs).kind s.current = .context := hfree.kind_of_runnable
  have hsits : (s.calling stack regs).Sits s.current .awaiting :=
    (sameSeats_pend _).sits (sits_reseat _ _ .awaiting (fun _ => hkind) (by simp [Seat.gate]))
  have hexpected : ((s.calling stack regs).context s.current).expectedReplyBrand =
      ((s.svcSending stack regs).context s.current).expectedReplyBrand :=
    expectedReplyBrand_reseat _ _ _ _
  have hdesc : ((s.svcSending stack regs).context s.current).save.message.desc = ⟨regs 0⟩ := by
    rw [save_svcSending]
    rfl
  have hkey : s.svcKeys stack regs 0 = (s.svcSending stack regs).filled s.current
      ((s.svcSending stack regs).context s.current).expectedReplyBrand := by
    simp [svcKeys, sentKeys, hdesc, hcall]
  refine ⟨hsits, ?_, ?_⟩
  · rw [hkey, hexpected]
    rfl
  · rw [hkey]
    change ((s.svcSending stack regs).context s.current).expectedReplyBrand.isTop = true
    rw [expectedReplyBrand_svcSending]
    have hcurrent := hs.running.kind_of_runnable
    rw [htallied.expected _ hcurrent]
    exact Brand.isTop_reply _

end

/-! ## Calls in a run -/

/-- The method, the reply to the caller and the switch, one after the other. -/
theorem KState.Settled.call_replied {etl : Etl} {s s' : KState} (hs : s.Settled) {stack : Word}
    {regs : UserRegisters}
    (hsys : (⟨regs 0⟩ : Descriptor).getSysnum = 0)
    (hsend : (⟨regs 0⟩ : Descriptor).getSendEnabled = true)
    (hcall : (⟨regs 0⟩ : Descriptor).isCall = true) {kind : Kind}
    (hserved : s.served (s.invoked regs) (s.invokedBrand regs) = some kind)
    (hstep : BrittleKernel.step (.source etl) (.svc stack regs) s = .ok () s') :
    ∃ rs t u, Object.serve (.source etl) (s.invoked regs) (s.invokedBrand regs) (svcMessage regs)
        (s.svcKeys stack regs) kind (s.calling stack regs) = .ok rs t ∧
      Effect (.source etl) (s.invoked regs) (s.invokedBrand regs) (svcMessage regs)
        (s.svcKeys stack regs)
        ((s.calling stack regs).looked kind (s.invoked regs) (s.invokedBrand regs)) rs t ∧
      Replied t (s.svcKeys stack regs 0) rs u ∧ Switches u s' := by
  have hentry : svcEntry (.source etl) stack regs s = .ok () s' := hstep
  rw [svcEntry_call hs hsys hsend hcall hserved] at hentry
  have hwf : (s.calling stack regs).WellFormed :=
    (((hs.wellFormed_svcSending stack regs).reseat s.current .awaiting
      (fun _ => (hs.free stack regs).2.2.kind_of_runnable) (by simp [Seat.gate])).of_sameSeats (sameSeats_pend _))
  have hkinds : (s.calling stack regs).kind = s.kind := kind_of_objects objects_svcSending
  have hkind := served_kind hserved
  rw [← hkinds] at hkind
  have hrun : wp (do
      let rs ← Object.serve (.source etl) (s.invoked regs) (s.invokedBrand regs) (svcMessage regs)
        (s.svcKeys stack regs) kind
      scopedReply (.source etl) (deliverFrom (.source etl) 1) (s.svcKeys stack regs 0) rs
      doDeferredSwitch : K Unit)
      (fun _ s' => ∃ rs t u, Object.serve (.source etl) (s.invoked regs) (s.invokedBrand regs)
          (svcMessage regs) (s.svcKeys stack regs) kind (s.calling stack regs) = .ok rs t ∧
        Effect (.source etl) (s.invoked regs) (s.invokedBrand regs) (svcMessage regs)
          (s.svcKeys stack regs)
          ((s.calling stack regs).looked kind (s.invoked regs) (s.invokedBrand regs)) rs t ∧
        Replied t (s.svcKeys stack regs 0) rs u ∧ Switches u s')
      (fun _ _ => True) (s.calling stack regs) := by
    rw [wp_bind]
    refine wp_mono (wp_outcome (serve_effect rfl hwf hkind)) (fun rs t hmethod => ?_) fun _ _ _ => trivial
    obtain ⟨hserve, heffect⟩ := hmethod
    have hlooked := sameSeats_looked (s.calling stack regs) kind (s.invoked regs) (s.invokedBrand regs)
    have ht := heffect.wellFormed (hwf.of_sameSeats hlooked)
    rw [wp_bind]
    have hreplies : wp (scopedReply (.source etl) (deliverFrom (.source etl) (0 + 1))
        (s.svcKeys stack regs 0) rs) (fun _ u => Replied t (s.svcKeys stack regs 0) rs u)
        (fun _ _ => True) t := scopedReply_replied rfl ht heffect.plain fun _ => trivial
    refine wp_mono hreplies (fun _ u hreplied => ?_) fun _ _ _ => trivial
    have hu := Acts.wellFormed (hreplied.acts ht) ht
    have hswitch : wp doDeferredSwitch (fun _ s' => Switches u s') (fun _ _ => True) u :=
      doDeferredSwitch_switches hu fun _ => trivial
    exact wp_mono hswitch (fun _ s' hswitches => ⟨rs, t, u, hserve, heffect, hreplied, hswitches⟩)
      fun _ _ _ => trivial
  exact wp_ok hrun hentry

theorem KState.Settled.call_returned {etl : Etl} {s s' : KState} (hs : s.Settled) (htallied : s.Tallied)
    {stack : Word} {regs : UserRegisters}
    (hsys : (⟨regs 0⟩ : Descriptor).getSysnum = 0)
    (hsend : (⟨regs 0⟩ : Descriptor).getSendEnabled = true)
    (hcall : (⟨regs 0⟩ : Descriptor).isCall = true) {kind : Kind}
    (hserved : s.served (s.invoked regs) (s.invokedBrand regs) = some kind)
    (hstep : BrittleKernel.step (.source etl) (.svc stack regs) s = .ok () s') :
    ∃ rs t, Object.serve (.source etl) (s.invoked regs) (s.invokedBrand regs) (svcMessage regs)
        (s.svcKeys stack regs) kind (s.calling stack regs) = .ok rs t ∧
      (¬s.EndsWait (s.invoked regs) (svcMessage regs) s.current → t.Returned s.current rs s') := by
  obtain ⟨rs, t, u, hserve, heffect, hreplied, hswitches⟩ :=
    hs.call_replied hsys hsend hcall hserved hstep
  refine ⟨rs, t, hserve, fun hkept => ?_⟩
  have hlooked := sameSeats_looked (s.calling stack regs) kind (s.invoked regs) (s.invokedBrand regs)
  have hkinds : (s.calling stack regs).kind = s.kind := kind_of_objects objects_svcSending
  have hnot : ¬((s.calling stack regs).looked kind (s.invoked regs) (s.invokedBrand regs)).EndsWait
      (s.invoked regs) (svcMessage regs) s.current := by
    rwa [EndsWait, hlooked.kind, hkinds]
  have hawaits := heffect.expects ((hs.expects_calling htallied hcall).looked kind _ _) hnot
  obtain rfl := hreplied.of_expects hawaits
  exact KState.returned_of_switches hawaits.1 hswitches

/-- Mint Key for entry 4. -/
def Sample.minting : UserRegisters :=
  registers (descriptor 1 1 0 true true false) 4#32 0x30000#32 0#32 0#32 0x20#32

end BrittleKernel
