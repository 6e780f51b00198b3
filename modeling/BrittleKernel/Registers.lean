import BrittleKernel.Steps

/-!
# The Sender's Own Registers

A message may come with a receive phase, and a sender that is already queued at the Gate
to receive from puts its keys into the registers of the Context that is still sending.
Which keys these are can be told from the state before the send.
-/

namespace BrittleKernel

open Hoare KState

/-! ## Objects outside an authority -/

section

variable {A : Authority} {s s' : KState}

theorem ne_of_obj {x c : TableIndex} (hx : A.obj x) (hc : ¬A.obj c) : c ≠ x := by
  rintro rfl
  exact hc hx

/-- The body of a Context outside the authority stays as it is. -/
theorem Act.context_eq (h : Act A s s') {c : TableIndex} (hc : ¬A.obj c) :
    s'.context c = s.context c := by
  have hdeposit : ∀ {dst : KeysRef} (ks : Keys), A.into dst →
      (s.deposit dst ks).context c = s.context c := by
    intro dst ks hinto
    cases dst with
    | frame => rfl
    | bank x map => simp [KState.deposit, ne_of_obj (x := x) hinto hc]
  have hreseat : ∀ (t : KState) {x : TableIndex} (seat : Seat), A.obj x →
      ((t.reseat x seat).pend).context c = t.context c := by
    intro t x seat hx
    simp [pend, reseat, ne_of_obj hx hc]
  cases h with
  | save x f hx => simp [ne_of_obj hx hc]
  | drop loc howner =>
    cases loc with
    | keyReg x i | regionReg x i => simp [setKeyAt, ne_of_obj (x := x) howner hc]
    | target x => rfl
  | note => rfl
  | deposit dst ks hinto => exact hdeposit ks hinto
  | call x dst _ hx hinto => exact (hreseat _ _ hx).trans (hdeposit _ hinto)
  | rouse x g seat hx => exact hreseat _ _ hx
  | answer x b hx =>
    refine (hreseat _ _ hx).trans ?_
    simp [advanceReply, ne_of_obj hx hc]
  | takeIrq | blockIrq => rfl
  | blockInReceive x g _ hx => exact hreseat _ _ hx
  | blockInReply x _ hx => exact hreseat _ _ hx
  | blockInSend x g b _ hx =>
    refine (hreseat _ _ hx).trans ?_
    simp [saveBrand, ne_of_obj hx hc]

theorem Acts.context_eq (h : Acts A s s') {c : TableIndex} (hc : ¬A.obj c) :
    s'.context c = s.context c := by
  induction h with
  | refl => rfl
  | tail _ hact ih => exact (hact.context_eq hc).trans ih

end

/-! ## Deliveries to others -/

/-- Everything but one Context. -/
def Authority.others (c : TableIndex) : Authority := ⟨fun _ _ => True, fun x => x ≠ c, True⟩

/-- As long as a Context is runnable, deliveries to others have no need to touch it: it waits
at no Gate. -/
theorem guarded_others (c : TableIndex) : Guarded (.others c) (fun s => s.Sits c .runnable) where
  null _ := trivial
  held _ _ _ := trivial
  gate _ hc _ _ _ hgate := by
    rintro rfl
    simp [hc.kind_of_runnable] at hgate
  waiting _ hc _ hx hg := by
    rintro rfl
    obtain rfl := hx.unique hc
    simp [Seat.gate] at hg
  queued _ hc _ hi := by
    rintro rfl
    simpa [hc.kind_of_runnable] using hi.kind (by simp)
  interrupt _ _ _ _ := trivial
  reply _ _ _ _ _ := trivial
  act _ hc h := by
    have hbody := h.context_eq (c := c) (fun hne => hne rfl)
    have hkind := kind_of_objects h.objects
    exact ⟨hbody ▸ hc.body, fun _ => hkind ▸ hc.kind_of_runnable, by simp [Seat.gate]⟩
  stable _ _ _ _ := trivial

/-! ## The keys that arrive -/

namespace KState

/-- The keys that the owner of a sender item sends. -/
def blockedKeys (s : KState) : ItemRef → Keys
  | .irqItem i => ![s.filled i 0#64, s.nullKey, s.nullKey, s.nullKey]
  | .ctxItem c | .senderItem c => s.sentKeys c

/-- The sender whose message a Context's receive phase takes in at once, if the phase is not
that of a call and finds one queued. -/
def queuedSender (s : KState) (c : TableIndex) : Option ItemRef :=
  let d := (s.context c).save.message.desc
  let source := s.keyAt (.keyReg c d.getSource)
  if d.getReceiveEnabled = true ∧ d.isCall = false ∧ s.kind (s.target source) = .gate ∧
      (s.resolve source).brand.isTop = false then
    s.peek (.senders (s.target source))
  else
    none

/-- What a register that holds a live key holds after the receive phase. -/
def registerAfter (s : KState) (c : TableIndex) (r : Fin nTaskKeys) : Key :=
  match s.queuedSender c with
  | none => s.keyAt (.keyReg c r)
  | some sender =>
    storeKeys (s.context c).keys ((s.context c).save 7) (s.blockedKeys sender) r

end KState

section

variable {s : KState} {c : TableIndex} {dst : KeysRef}

theorem keyAt_deposit_of_ne (hdst : ∀ map, dst ≠ .bank c map) (ks : Keys) :
    (s.deposit dst ks).context c = s.context c := by
  cases dst with
  | frame => rfl
  | bank x map =>
    have hx : c ≠ x := by rintro rfl; exact hdst map rfl
    simp [KState.deposit, hx]

/-- Once a Context's keys have arrived, the rest of the delivery leaves others alone. -/
theorem contextOnDelivery_others {x : TableIndex} {deliverTo : DeliverTo} {fuel : Nat}
    (hD : Delivers (.others x) (fun s => s.Sits x .runnable) deliverTo fuel)
    (hs : s.WellFormed) (hx : s.Sits x .runnable) (hc : s.Sits c .runnable) (hne : c ≠ x)
    (hfuel : s.blockedSenders < fuel) (hdst : ∀ map, dst ≠ .bank c map) :
    wp (Context.onDelivery deliverTo c dst)
      (fun r s' => r = ((s.context c).save.message.sanitized, s.sentKeys c) ∧
        Acts (.others x) (s.deposit dst (s.sentKeys c)) s') never s := by
  rw [wp_contextOnDelivery hdst]
  have hsame := s.sameSeats_deposit dst (s.sentKeys c)
  have hs₁ := hs.of_sameSeats hsame
  have hcontext := keyAt_deposit_of_ne (s := s) hdst (s.sentKeys c)
  refine ⟨fun hcall => ?_, fun _ _ => ?_, fun _ => ⟨rfl, .refl⟩⟩
  · have hkey : s.sentKeys c 0 = s.filled c (s.context c).expectedReplyBrand := by
      simp [sentKeys, hcall]
    have hlive : (s.deposit dst (s.sentKeys c)).isLive (s.sentKeys c 0) = true := by
      rw [isLive_of_objects (objects_deposit s dst _), hkey]
      simp [isLive, filled]
    have htarget : (s.deposit dst (s.sentKeys c)).target (s.sentKeys c 0) = c := by
      rw [target, resolve, if_pos hlive, hkey]
      rfl
    have hbrand : ((s.deposit dst (s.sentKeys c)).resolve (s.sentKeys c 0)).brand =
        ((s.deposit dst (s.sentKeys c)).context c).expectedReplyBrand := by
      rw [resolve, if_pos hlive, hkey, hcontext]
      rfl
    rw [htarget, hbrand, hD.own hs₁ (hsame.sits hc) (by omega)]
    exact ⟨rfl, .single (.blockInReply c trivial hne (hsame.sits hc))⟩
  · refine wp_seq (keyGet_acts (guarded_others x) hs₁ (hsame.sits hx) (c := c) hne _)
      fun object s₂ hgot => ?_
    obtain ⟨h₂, hsame₂, hobject⟩ := hgot
    refine wp_mono (hD.acts (h₂.wellFormed hs₁) ((guarded_others x).acts hs₁ (hsame.sits hx) h₂) hne
      (hsame₂.sits (hsame.sits hc)) hobject ?_) (fun _ s₃ h₃ => ⟨rfl, h₂.trans h₃⟩) fun _ _ h => h
    rwa [blockedSenders_of_sameSeats hsame₂, blockedSenders_of_sameSeats hsame]

/-- The kernel's answer to a bad receive only writes the save area. -/
theorem wp_completeReceiveExc {Q : PUnit → KState → Prop} {E : Panic → KState → Prop} (x : Exception) :
    wp (Context.completeReceiveExc c x) Q E s ↔
      Q ⟨⟩ ((s.updateContext c fun b =>
        { b with save := (b.save.setMessage (Message.failure x)).setBrand 0#64 }).record
          (.excepted c (Message.failure x))) := Iff.rfl

/-- Taking in the message of the first sender in a Gate's list. -/
theorem completeReceive_registers {fuel : Nat} {g : TableIndex} {r : ItemRef} {p : Priority}
    (hs : s.WellFormed) (hc : s.Sits c .runnable) (hr : r ∈ s.queues (.senders g) p)
    (hfuel : s.blockedSenders ≤ fuel) :
    wp (Context.completeReceive (deliverTo fuel) c r)
      (fun _ s' => (s'.context c).keys =
        storeKeys (s.context c).keys ((s.context c).save 7) (s.blockedKeys r)) never (s.unlink r) := by
  have hfinish : ∀ {s₁ : KState} (m : Message) (b : Brand) {regs : Fin nTaskKeys → Key},
      (s₁.context c).keys = regs → wp (do
        Context.setSys c m b
        modify (·.record (.delivered (some r.owner) c b m)) : K Unit)
        (fun _ s' => (s'.context c).keys = regs) never s₁ := by
    intro s₁ m b regs h₁
    simpa [Context.setSys] using h₁
  simp only [Context.completeReceive, wp_bind, wp_get]
  rcases hs.mem_senders hr with ⟨x, rfl, hx⟩ | ⟨i, rfl, hi⟩
  · -- A Context: it is woken, its keys arrive, and what else it receives is its own affair.
    have hne : x ≠ c := by
      rintro rfl
      cases hx.unique hc
    have hact : Act (.any True) s (s.reseat x .runnable).pend :=
      .rouse x g _ trivial trivial hx rfl
    have hx₁ : (s.reseat x .runnable).pend.Sits x .runnable :=
      (sameSeats_pend _).sits
        (s.sits_reseat x _ (fun _ => hx.kind (by simp)) (by simp [Seat.gate]))
    have hc₁ : (s.reseat x .runnable).pend.Sits c .runnable :=
      (sameSeats_pend _).sits (sits_reseat_of_ne hne.symm _ hc)
    have hkeys : (s.reseat x .runnable).pend.sentKeys x = s.sentKeys x := by
      funext j
      simp [sentKeys, reseat, pend, filled, keyAt]
    have hbody : ((s.unlink (.senderItem x)).context c) = s.context c := by
      simp [unlink_eq hs.threaded, setItem, hne.symm]
    have hbody₁ : (s.reseat x .runnable).pend.context c = s.context c := by
      simp [reseat, pend, hne.symm]
    simp only [onBlockedDelivery, wp_bind, wp_makeRunnable_sender hs hx]
    refine wp_conseq (contextOnDelivery_others (delivers (guarded_others c) trivial fuel)
      (hact.wellFormed hs) hc₁ hx₁ hne ((blockedSenders_rouse hs hx).trans_le hfuel)
      (by rintro _ ⟨⟩; exact hne rfl)) fun sent s₂ hsent => ?_
    obtain ⟨-, h₂⟩ := hsent
    refine (wp_bind _ _).mp (hfinish sent.1 _ ?_)
    rw [h₂.context_eq (c := c) (fun h => h rfl), hkeys, hbody]
    simp [KState.deposit, hbody₁, blockedKeys]
  · -- An Interrupt only sends its own key.
    rw [unlink_irqItem hs]
    simp only [onBlockedDelivery, wp_bind]
    rw [wp_interruptOnDelivery]
    exact (wp_bind _ _).mp (hfinish _ _ (by simp [KState.deposit, requeue, blockedKeys, filled, nullKey]))

/-- The receive phase of a send that is not a call. -/
theorem receivePhase_registers (hs : s.WellFormed) (hc : s.Sits c .runnable)
    (hreceive : (s.context c).save.message.desc.getReceiveEnabled = true)
    (hcall : (s.context c).save.message.desc.isCall = false) :
    wp (receivePhase deliverToBounded c (s.context c).save.message.desc)
      (fun _ s' => ∀ r, s.isLive (s.keyAt (.keyReg c r)) = true →
        s'.keyAt (.keyReg c r) = s.registerAfter c r) never s := by
  generalize hsource : (s.context c).save.message.desc.getSource = source
  simp only [receivePhase, hsource, wp_bind, wp_keyGet, wp_get]
  have hstate : (if s.isLive (s.keyAt (.keyReg c source)) then s
      else s.setKeyAt (.keyReg c source) s.nullKey) = s.dropped (.keyReg c source) := rfl
  rw [hstate]
  have hsame := s.sameSeats_dropped (.keyReg c source)
  have hobjects := objects_dropped s (.keyReg c source)
  have hs₁ := hs.of_sameSeats hsame
  have hc₁ := hsame.sits hc
  have hbrand : ((s.dropped (.keyReg c source)).keyAt (.keyReg c source)).brand =
      (s.resolve (s.keyAt (.keyReg c source))).brand := by
    rw [keyAt_dropped]
  have hkeep : ∀ r, s.isLive (s.keyAt (.keyReg c r)) = true →
      (s.dropped (.keyReg c source)).keyAt (.keyReg c r) = s.keyAt (.keyReg c r) := by
    intro r hlive
    unfold dropped
    split
    · rfl
    · refine keyAt_setKeyAt_of_ne ?_ _
      rintro ⟨⟩
      simp_all
  -- Unless a queued sender is found, the registers stay.
  have hnone : s.queuedSender c = none → ∀ {s' : KState},
      s'.keyAt = (s.dropped (.keyReg c source)).keyAt →
      ∀ r, s.isLive (s.keyAt (.keyReg c r)) = true →
        s'.keyAt (.keyReg c r) = s.registerAfter c r := by
    intro hq s' hkeys r hlive
    rw [hkeys, hkeep r hlive, registerAfter, hq]
  have hexc : s.queuedSender c = none → ∀ x, wp (Context.completeReceiveExc c x)
      (fun _ s' => ∀ r, s.isLive (s.keyAt (.keyReg c r)) = true →
        s'.keyAt (.keyReg c r) = s.registerAfter c r) never (s.dropped (.keyReg c source)) := by
    intro hq x
    rw [wp_completeReceiveExc]
    refine hnone hq ?_
    rw [keyAt_record]
    exact keyAt_updateContext rfl rfl
  simp only [deliverToBounded, deliverTo, wp_bind, wp_get, hbrand, kind_of_objects hobjects]
  split
  next hkind =>
    -- A Gate.
    simp only [Gate.deliverTo, wp_ite, wp_bind, wp_listTake]
    refine ⟨fun htop => hexc (by simp [queuedSender, hsource, htop]) _, fun htop => ?_⟩
    have hqueued : s.queuedSender c =
        (s.dropped (.keyReg c source)).peek (.senders (s.target (s.keyAt (.keyReg c source)))) := by
      simp [queuedSender, hsource, hreceive, hcall, hkind, htop, peek, hsame.queues]
    cases hpeek : (s.dropped (.keyReg c source)).peek
        (.senders (s.target (s.keyAt (.keyReg c source)))) with
    | none =>
      simp only [wp_blockInReceive hs₁ hc₁]
      exact hnone (hqueued.trans hpeek) (by simp)
    | some sender =>
      obtain ⟨p, hmem⟩ := exists_mem_of_peek hpeek
      refine wp_conseq (completeReceive_registers hs₁ hc₁ hmem le_rfl) fun _ s' hkeys r _ => ?_
      -- A key to a Gate is live, so `Key::get` did not change it.
      have hlive : s.isLive (s.keyAt (.keyReg c source)) = true := by
        rcases Guarded.target_null_or_live hs (s.keyAt (.keyReg c source)) with hnull | h
        · simp [hkind] at hnull
        · exact h.1
      have hself : s.dropped (.keyReg c source) = s := by simp [dropped, hlive]
      rw [registerAfter, hqueued.trans hpeek, keyAt, hkeys, hself]
  next hkind =>
    have hq : s.queuedSender c = none := by simp [queuedSender, hsource, hkind]
    simp only [Context.deliverTo, wp_bind, wp_get, wp_ite]
    refine ⟨fun _ => hexc hq _, fun h => ?_⟩
    obtain hself : c = s.target (s.keyAt (.keyReg c source)) := by
      by_contra hne
      exact h (.inr hne)
    rw [← hself, wp_blockInReply hs₁ hc₁]
    exact hnone hq (by simp)
  all_goals exact hexc (by simp_all [queuedSender]) _

/-- What a Context's registers hold once it has sent its message. -/
theorem contextOnDelivery_registers (hs : s.WellFormed) (hc : s.Sits c .runnable)
    (hdst : ∀ map, dst ≠ .bank c map) :
    wp (Context.onDelivery deliverToBounded c dst)
      (fun _ s' => ∀ r, s.isLive (s.keyAt (.keyReg c r)) = true →
        s'.keyAt (.keyReg c r) = (s.deposit dst (s.sentKeys c)).registerAfter c r) never s := by
  rw [wp_contextOnDelivery hdst]
  have hsame := s.sameSeats_deposit dst (s.sentKeys c)
  have hs₁ := hs.of_sameSeats hsame
  have hc₁ := hsame.sits hc
  have hcontext := keyAt_deposit_of_ne (s := s) hdst (s.sentKeys c)
  have hkey : ∀ r, (s.deposit dst (s.sentKeys c)).keyAt (.keyReg c r) = s.keyAt (.keyReg c r) := by
    intro r
    simp only [keyAt, hcontext]
  have hlive : ∀ k, (s.deposit dst (s.sentKeys c)).isLive k = s.isLive k :=
    isLive_of_objects (objects_deposit s dst _)
  refine ⟨fun hcall => ?_, fun hcall hreceive => ?_, fun hreceive => fun r _ => ?_⟩
  · -- A call blocks on its own reply key.
    have hreply : s.sentKeys c 0 = s.filled c (s.context c).expectedReplyBrand := by
      simp [sentKeys, hcall]
    have hfresh : (s.deposit dst (s.sentKeys c)).resolve (s.sentKeys c 0) = s.sentKeys c 0 := by
      rw [resolve, if_pos]
      rw [hlive, hreply]
      simp [isLive, filled]
    have htarget : (s.deposit dst (s.sentKeys c)).target (s.sentKeys c 0) = c := by
      rw [target, hfresh, hreply]
      rfl
    have hbrand : (s.sentKeys c 0).brand =
        ((s.deposit dst (s.sentKeys c)).context c).expectedReplyBrand := by
      rw [hreply, hcontext]
      rfl
    rw [hfresh, htarget, hbrand, (delivers_bounded (guarded_others c) trivial 1).own hs₁ hc₁ one_pos]
    intro r _
    have hq : (s.deposit dst (s.sentKeys c)).queuedSender c = none := by
      simp [queuedSender, hcontext, hcall]
    rw [registerAfter, hq]
    simp
  · have hphase := receivePhase_registers hs₁ hc₁ (by rw [hcontext]; exact hreceive)
      (by rw [hcontext]; exact hcall)
    rw [hcontext] at hphase
    refine wp_conseq hphase fun _ s' h r hr => h r ?_
    rwa [hkey, hlive]
  · have hq : (s.deposit dst (s.sentKeys c)).queuedSender c = none := by
      simp [queuedSender, hcontext, hreceive]
    rw [registerAfter, hq]

end

end BrittleKernel
