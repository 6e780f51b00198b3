import BrittleKernel.Acts
import Mathlib.Data.Fintype.Basic
import Mathlib.Tactic.FinCases

/-!
# Message Passing as Acts

Every delivery of the kernel is a sequence of acts.  The recursion of deliveries ends
because each nested one takes a blocked sender off its Gate, so the bound of
`deliverToBounded` is never reached, and none of the list checks fires on the way.
-/

namespace BrittleKernel

open Hoare KState

/-! ## Counting blocked senders -/

private theorem countP_lt {α : Type} {l : List α} {p q : α → Bool} (h : ∀ x, p x → q x)
    {a : α} (ha : a ∈ l) (hp : p a = false) (hq : q a = true) : l.countP p < l.countP q := by
  induction l with
  | nil => simp at ha
  | cons x l ih =>
    have hle : l.countP p ≤ l.countP q := List.countP_mono_left fun x _ => h x
    rcases List.mem_cons.mp ha with rfl | ha'
    · simp only [List.countP_cons, hp, hq]
      simp only [Bool.false_eq_true, if_false, if_true]
      omega
    · have hlt := ih ha'
      have hx := h x
      simp only [List.countP_cons]
      split_ifs <;> grind

theorem blockedSenders_of_sameSeats {s s' : KState} (h : SameSeats s s') :
    s'.blockedSenders = s.blockedSenders := by
  simp only [blockedSenders, h.item, h.count]

section Measure

variable {s : KState}

/-- A sender that is woken is one blocked sender less. -/
theorem blockedSenders_rouse (h : s.WellFormed) {c g : TableIndex} (hc : s.Sits c (.sending g)) :
    (s.reseat c .runnable).pend.blockedSenders < s.blockedSenders := by
  have hitem : (s.reseat c .runnable).pend.item = _ := item_reseat c .runnable
  have hsender : s.item (.senderItem c) = _ := hc.body.senderItem
  have hcount : c < s.count := h.inTable c (by simp [hc.kind (by simp)])
  simp only [blockedSenders, hitem]
  refine countP_lt (a := c) (fun e he => ?_) (List.mem_range.mpr hcount) ?_ ?_
  · by_cases hec : e = c
    · subst hec; simp [hsender, Seat.senderList]
    · simpa [hec] using he
  · obtain ⟨q, hq⟩ := h.interrupt c
    have hirq : s.item (.irqItem c) = _ := hq.item
    have hnone : q = none := by
      by_contra hne
      simpa [hc.kind (by simp)] using hq.kind hne
    simp [Seat.senderList, hirq, hnone]
  · simp [hsender, Seat.senderList]

/-- So is an Interrupt whose message is taken. -/
theorem blockedSenders_takeIrq (h : s.WellFormed) {i g : TableIndex}
    (hi : s.Queued i (some g)) : (s.requeue i none).blockedSenders < s.blockedSenders := by
  have hitem : (s.requeue i none).item = _ := item_requeue i none
  have hirq : s.item (.irqItem i) = _ := hi.item
  have hcount : i < s.count := h.inTable i (by simp [hi.kind (by simp)])
  simp only [blockedSenders, hitem]
  refine countP_lt (a := i) (fun e he => ?_) (List.mem_range.mpr hcount) ?_ ?_
  · by_cases hei : e = i
    · subst hei; simp [hirq]
    · simpa [hei] using he
  · obtain ⟨seat, hseat⟩ := h.context i
    have hsender : s.item (.senderItem i) = _ := hseat.body.senderItem
    have hstopped : seat = .stopped := by
      by_contra hne
      simpa [hi.kind (by simp)] using hseat.kind hne
    simp [hsender, hstopped, Seat.senderList]
  · simp [hirq]

end Measure

/-! ## Taking in a message -/

/-- One key arrives at its destination. -/
def KState.put (s : KState) (dst : KeysRef) (i : Nat) (k : Key) : KState :=
  match dst with
  | .frame => s
  | .bank c map => s.updateContext c fun b => { b with keys := storeKey b.keys map i k }

theorem put_eq_deposit (s : KState) (dst : KeysRef) (ks : Keys) :
    (((s.put dst 0 (ks 0)).put dst 1 (ks 1)).put dst 2 (ks 2)).put dst 3 (ks 3) =
      s.deposit dst ks := by
  cases dst with
  | frame => rfl
  | bank c map => simp [put, deposit, updateContext, storeKeys]

/-- The receive phase of `Context::on_delivery`, when it is not a call. -/
def receivePhase (deliverTo : DeliverTo) (c : TableIndex) (d : Descriptor) : K Unit := do
  let object ← keyGet (.keyReg c d.getSource)
  deliverTo object ((← get).keyAt (.keyReg c d.getSource)).brand c

section Rules

variable {s : KState} {c : TableIndex} {dst : KeysRef} {E : Panic → KState → Prop}

theorem wp_keysRef_set {Q : PUnit → KState → Prop} (dst : KeysRef) (i : Nat) (k : Key) :
    wp (KeysRef.set dst i k) Q E s ↔ Q ⟨⟩ (s.put dst i k) := by
  cases dst with
  | frame => rfl
  | bank c map => by_cases h : nibble map i = 0 <;> simp [KeysRef.set, put, storeKey, h, setKeyAt]

theorem keyAt_put (hdst : ∀ map, dst ≠ .bank c map) (i : Nat) (k : Key) (r : Fin nTaskKeys) :
    (s.put dst i k).keyAt (.keyReg c r) = s.keyAt (.keyReg c r) := by
  cases dst with
  | frame => rfl
  | bank x map =>
    have hx : c ≠ x := by rintro rfl; exact hdst map rfl
    simp [put, keyAt, hx]

variable {Q : Message × Keys → KState → Prop}

/-- `Context::on_delivery` in two phases: the keys arrive, then the sender receives. -/
theorem wp_contextOnDelivery (hdst : ∀ map, dst ≠ .bank c map) (deliverTo : DeliverTo) :
    wp (Context.onDelivery deliverTo c dst) Q E s ↔
      let d := (s.context c).save.message.desc
      let keys := s.sentKeys c
      let arrived := s.deposit dst keys
      let result := ((s.context c).save.message.sanitized, keys)
      (d.isCall = true →
        wp (deliverTo (arrived.target (keys 0)) (arrived.resolve (keys 0)).brand c)
          (fun _ s' => Q result s') E arrived) ∧
      (d.isCall = false → d.getReceiveEnabled = true →
        wp (receivePhase deliverTo c d) (fun _ s' => Q result s') E arrived) ∧
      (d.getReceiveEnabled = false → Q result arrived) := by
  have hkeys : (![s.sentKeys c 0, s.keyAt (.keyReg c (nibble ((s.context c).save 6) 1)),
      s.keyAt (.keyReg c (nibble ((s.context c).save 6) 2)),
      s.keyAt (.keyReg c (nibble ((s.context c).save 6) 3))] : Keys) = s.sentKeys c := by
    funext i
    fin_cases i <;> simp [sentKeys]
  simp only [Context.onDelivery, wp_bind, wp_get]
  rw [← put_eq_deposit s dst (s.sentKeys c), ← hkeys]
  cases hcall : (s.context c).save.message.desc.isCall with
  | true =>
    have hreceive : (s.context c).save.message.desc.getReceiveEnabled = true := by
      simp only [Descriptor.isCall, Bool.and_eq_true] at hcall
      exact hcall.1
    have hreply : s.filled c (s.context c).expectedReplyBrand = s.sentKeys c 0 := by
      simp [sentKeys, hcall]
    simp only [if_true, Context.makeReplyKey, makeKey, maybeRef, wp_bind, wp_get, wp_pure,
      wp_keysRef_set, bankGet, keyAt_put hdst, hreceive, localKeyGet, hreply]
    simp
  | false =>
    have hreply : s.keyAt (.keyReg c (nibble ((s.context c).save 6) 0)) = s.sentKeys c 0 := by
      simp [sentKeys, hcall]
    cases hreceive : (s.context c).save.message.desc.getReceiveEnabled <;>
      simp [bankGet, wp_keysRef_set, keyAt_put hdst, hreply, receivePhase]

/-- `Interrupt::on_delivery` only deposits keys. -/
theorem wp_interruptOnDelivery (i : TableIndex) :
    wp (Interrupt.onDelivery i dst) Q E s ↔
      let keys : Keys := ![s.filled i 0#64, s.nullKey, s.nullKey, s.nullKey]
      Q ({ desc := Descriptor.zero.withSelector 1#16, d0 := (s.interrupt i).identifier }, keys)
        (s.deposit dst keys) := by
  have hnull : ∀ (t : KState) i k, (t.put dst i k).nullKey = t.nullKey := by
    intro t i k
    cases dst <;> rfl
  have hirq : ∀ (t : KState) i k, (t.put dst i k).interrupt = t.interrupt := by
    intro t i k
    cases dst <;> rfl
  dsimp only
  rw [← put_eq_deposit]
  simp [Interrupt.onDelivery, makeKey, maybeRef, wp_keysRef_set, hnull, hirq]

/-- So does a reply's. -/
theorem wp_replyOnDelivery (rs : ReplySender) :
    wp (rs.onDelivery dst) Q E s ↔ Q (rs.message, rs.keys) (s.deposit dst rs.keys) := by
  rw [← put_eq_deposit]
  simp [ReplySender.onDelivery, wp_keysRef_set]

/-- `Key::get` on a stored key nulls it if it is stale. -/
theorem wp_keyGet {Q : TableIndex → KState → Prop} (loc : KeyLoc) :
    wp (keyGet loc) Q E s ↔
      Q (s.target (s.keyAt loc))
        (if s.isLive (s.keyAt loc) then s else s.setKeyAt loc s.nullKey) := by
  cases h : s.isLive (s.keyAt loc) <;> simp [keyGet, h]

end Rules

/-! ## Nested deliveries -/

section Deliveries

variable {A : Authority} {I : KState → Prop} {s : KState}

/-- Taking an object's address out of a key register. -/
theorem keyGet_acts (G : Guarded A I) (hs : s.WellFormed) (hI : I s) {c : TableIndex}
    (hc : A.obj c) (r : Fin nTaskKeys) :
    wp (keyGet (.keyReg c r))
      (fun object s' => Acts A s s' ∧ SameSeats s s' ∧
        (s'.kind object = .gate → A.obj object)) never s := by
  rw [wp_keyGet]
  have htarget := G.target hs hI (G.held (.keyReg c r) hI hc)
  split
  next => exact ⟨.refl, ⟨rfl, rfl, rfl, fun _ => .refl _, fun _ => .refl _⟩, htarget⟩
  next hlive =>
    exact ⟨.single (.drop _ hc (by simp) (by simpa using hlive)), sameSeats_setKeyAt _ _ _, htarget⟩

/-- A virtual `deliver_to` that is good for `fuel` nested deliveries. -/
structure Delivers (A : Authority) (I : KState → Prop) (deliverTo : DeliverTo) (fuel : Nat) :
    Prop where
  blocks : A.blocks
  acts : ∀ {s object brand c}, s.WellFormed → I s → A.obj c → s.Sits c .runnable →
    (s.kind object = .gate → A.obj object) → s.blockedSenders < fuel →
    wp (deliverTo object brand c) (fun _ s' => Acts A s s') never s
  /-- Receiving from one's own reply key is awaiting the reply. -/
  own : ∀ {s c} {Q : PUnit → KState → Prop} {E : Panic → KState → Prop}, s.WellFormed →
    s.Sits c .runnable → 0 < fuel →
    (wp (deliverTo c (s.context c).expectedReplyBrand c) Q E s ↔ Q ⟨⟩ (s.reseat c .awaiting).pend)

theorem setSys_acts {c : TableIndex} (hc : A.obj c) (m : Message) (b : Brand) :
    wp (Context.setSys c m b) (fun _ s' => Acts A s s') never s := by
  simp only [Context.setSys, wp_modify]
  exact .single (.save c (fun regs => (regs.setMessage m).setBrand b) hc)

theorem completeReceiveExc_acts {c : TableIndex} (hc : A.obj c) (e : Exception) :
    wp (Context.completeReceiveExc c e) (fun _ s' => Acts A s s') never s := by
  refine wp_seq (setSys_acts hc _ _) fun _ s₁ h₁ => ?_
  exact h₁.tail (.note _ trivial)

variable {deliverTo : DeliverTo} {fuel : Nat}

/-- A Context's message is taken in. -/
theorem contextOnDelivery_acts (G : Guarded A I) (hD : Delivers A I deliverTo fuel)
    (hs : s.WellFormed) (hI : I s) {c : TableIndex} (hc : A.obj c) (hsits : s.Sits c .runnable)
    (hfuel : s.blockedSenders < fuel) (dst : KeysRef) (hinto : A.into dst)
    (hdst : ∀ map, dst ≠ .bank c map) :
    wp (Context.onDelivery deliverTo c dst)
      (fun r s' => r = ((s.context c).save.message.sanitized, s.sentKeys c) ∧ Acts A s s' ∧
        ∀ i, A.key s' (r.2 i)) never s := by
  rw [wp_contextOnDelivery hdst]
  have hsame := s.sameSeats_deposit dst (s.sentKeys c)
  have hcontext : (s.deposit dst (s.sentKeys c)).context c = s.context c := by
    cases dst with
    | frame => rfl
    | bank x map =>
      have hx : c ≠ x := by rintro rfl; exact hdst map rfl
      simp [KState.deposit, hx]
  have hregister : ∀ i, (s.context c).save.message.desc.isCall = false ∨ i ≠ 0 →
      A.key s (s.sentKeys c i) := by
    intro i hi
    have hnot : ¬(i = 0 ∧ (s.context c).save.message.desc.isCall = true) := by
      rintro ⟨rfl, hcall⟩
      rcases hi with hi | hi
      · simp [hcall] at hi
      · exact hi rfl
    simpa only [sentKeys, hnot, if_false] using G.held (.keyReg c _) hI hc
  refine ⟨fun hcall => ?_, fun hcall hreceive => ?_, fun hreceive => ?_⟩
  · -- A call: the reply key names the caller, which starts to await the reply.
    have hkey : s.sentKeys c 0 = s.filled c (s.context c).expectedReplyBrand := by
      simp [sentKeys, hcall]
    have hlive : (s.deposit dst (s.sentKeys c)).isLive (s.sentKeys c 0) = true := by
      rw [isLive_of_objects (objects_deposit s dst _), hkey]
      simp [isLive, filled]
    have hact := Act.call c dst hD.blocks hc hinto hdst hsits hcall
    have hrun : wp (deliverTo c ((s.deposit dst (s.sentKeys c)).context c).expectedReplyBrand c)
        (fun _ s' => Acts A s s' ∧ ∀ i, A.key s' (s.sentKeys c i)) never
        (s.deposit dst (s.sentKeys c)) := by
      rw [hD.own (hs.of_sameSeats hsame) (hsame.sits hsits) (by omega)]
      refine ⟨.single hact, fun i => ?_⟩
      by_cases hi : i = 0
      · rw [hi, hkey]
        exact G.reply hD.blocks hs hI hc hsits
      · exact G.stable hs hI hact (hregister i (.inr hi))
    have htarget : (s.deposit dst (s.sentKeys c)).target (s.sentKeys c 0) = c := by
      rw [target, resolve, if_pos hlive, hkey]
      rfl
    have hbrand : ((s.deposit dst (s.sentKeys c)).resolve (s.sentKeys c 0)).brand =
        ((s.deposit dst (s.sentKeys c)).context c).expectedReplyBrand := by
      rw [resolve, if_pos hlive, hkey, hcontext]
      rfl
    rw [htarget, hbrand]
    exact wp_mono hrun (fun _ _ h => ⟨rfl, h⟩) fun _ _ h => h
  · -- Not a call: all keys come from registers, and the receive phase may deliver further.
    have hact := Act.deposit dst (s.sentKeys c) hinto fun i => hregister i (.inl hcall)
    have hs₁ := hact.wellFormed hs
    have hI₁ := G.act hs hI hact
    refine wp_seq (keyGet_acts G hs₁ hI₁ hc _) fun object s₂ hgot => ?_
    obtain ⟨h₂, hsame₂, hobject⟩ := hgot
    refine wp_mono (hD.acts (h₂.wellFormed hs₁) (G.acts hs₁ hI₁ h₂) hc
      (hsame₂.sits (hsame.sits hsits)) hobject ?_) (fun _ s₃ h₃ => ?_) fun _ _ h => h
    · rwa [blockedSenders_of_sameSeats hsame₂, blockedSenders_of_sameSeats hsame]
    · have hacts := (Relation.ReflTransGen.single hact).trans (h₂.trans h₃)
      exact ⟨rfl, hacts, fun i => G.stable_acts hs hI hacts (hregister i (.inl hcall))⟩
  · have hcall : (s.context c).save.message.desc.isCall = false := by
      simp [Descriptor.isCall, hreceive]
    have hact := Act.deposit dst (s.sentKeys c) hinto fun i => hregister i (.inl hcall)
    exact ⟨rfl, .single hact, fun i => G.stable hs hI hact (hregister i (.inl hcall))⟩

/-- An Interrupt's message is taken in. -/
theorem interruptOnDelivery_acts (G : Guarded A I) (hs : s.WellFormed) (hI : I s) {i : TableIndex}
    (hi : A.obj i) (hkind : s.kind i = .interrupt) (dst : KeysRef) (hinto : A.into dst) :
    wp (Interrupt.onDelivery i dst)
      (fun r s' =>
        r = ({ desc := Descriptor.zero.withSelector 1#16, d0 := (s.interrupt i).identifier },
          ![s.filled i 0#64, s.nullKey, s.nullKey, s.nullKey]) ∧
        Acts A s s' ∧ ∀ j, A.key s' (r.2 j)) never s := by
  rw [wp_interruptOnDelivery]
  have hkeys : ∀ j, A.key s ((![s.filled i 0#64, s.nullKey, s.nullKey, s.nullKey] : Keys) j) := by
    intro j
    fin_cases j
    · exact G.interrupt hs hI hi hkind
    all_goals exact G.null hI
  have hact := Act.deposit dst _ hinto hkeys
  exact ⟨rfl, .single hact, fun j => G.stable hs hI hact (hkeys j)⟩

/-- A receiver takes the message of the sender that was just taken off a Gate. -/
theorem completeReceive_acts (G : Guarded A I) (hD : Delivers A I deliverTo fuel)
    (hs : s.WellFormed) (hI : I s) {c g : TableIndex} (hc : A.obj c) (hg : A.obj g)
    (hsits : s.Sits c .runnable) {r : ItemRef} {p : Priority} (hr : r ∈ s.queues (.senders g) p)
    (hfuel : s.blockedSenders ≤ fuel) :
    wp (Context.completeReceive deliverTo c r) (fun _ s' => Acts A s s') never (s.unlink r) := by
  have hfinish : ∀ {s₁ : KState} (m : Message) (b : Brand), Acts A s s₁ →
      wp (do
        Context.setSys c m b
        modify (·.record (.delivered (some r.owner) c b m)) : K Unit)
        (fun _ s' => Acts A s s') never s₁ := fun m b h₁ =>
    wp_seq (setSys_acts hc m b) fun _ s₂ h₂ => (h₁.trans h₂).tail (.note _ trivial)
  simp only [Context.completeReceive, wp_bind, wp_get]
  rcases hs.mem_senders hr with ⟨x, rfl, hx⟩ | ⟨i, rfl, hi⟩
  · -- The sender is a Context, which is woken and may go on to receive.
    have hobj := G.waiting hs hI hg hx rfl
    have hact := Act.rouse x g _ hobj hg hx rfl
    have hs₁ := hact.wellFormed hs
    have hne : x ≠ c := by
      rintro rfl
      cases hx.unique hsits
    have hx₁ : (s.reseat x .runnable).pend.Sits x .runnable :=
      (sameSeats_pend _).sits
        (s.sits_reseat x _ (fun _ => hx.kind (by simp)) (by simp [Seat.gate]))
    simp only [onBlockedDelivery, wp_bind, wp_makeRunnable_sender hs hx]
    refine wp_conseq (contextOnDelivery_acts G hD hs₁ (G.act hs hI hact) hobj hx₁
      ((blockedSenders_rouse hs hx).trans_le hfuel) (.bank c _) hc
      (by rintro _ ⟨⟩; exact hne rfl)) fun sent s₂ hsent => ?_
    obtain ⟨-, h₂, -⟩ := hsent
    exact (wp_bind _ _).mp (hfinish sent.1 _ ((Relation.ReflTransGen.single hact).trans h₂))
  · -- The sender is an Interrupt.
    have hobj := G.queued hs hI hg hi
    have hact := Act.takeIrq i g hobj hg hi
    rw [unlink_irqItem hs]
    simp only [onBlockedDelivery, wp_bind]
    refine wp_conseq (interruptOnDelivery_acts G (hact.wellFormed hs) (G.act hs hI hact) hobj
      (hi.kind (by simp)) (.bank c _) hc) fun sent s₂ hsent => ?_
    obtain ⟨-, h₂, -⟩ := hsent
    exact (wp_bind _ _).mp (hfinish sent.1 _ ((Relation.ReflTransGen.single hact).trans h₂))

end Deliveries

section Recursion

variable {A : Authority} {I : KState → Prop} {s : KState}

/-- Every nested delivery has enough fuel, so `deliverTo` is good for any number of them. -/
theorem delivers (G : Guarded A I) (hblocks : A.blocks) : ∀ fuel, Delivers A I (deliverTo fuel) fuel := by
  intro fuel
  induction fuel with
  | zero => exact ⟨hblocks, fun _ _ _ _ _ h => absurd h (Nat.not_lt_zero _),
      fun _ _ h => absurd h (Nat.lt_irrefl _)⟩
  | succ fuel ih =>
    refine ⟨hblocks, ?_, ?_⟩
    · intro s object brand c hs hI hc hsits hobject hfuel
      simp only [deliverTo, wp_bind, wp_get]
      split
      next hkind =>
        -- A Gate: take a sender, or wait for one.
        have hg : A.obj object := hobject hkind
        unfold Gate.deliverTo
        rw [wp_ite]
        refine ⟨fun _ => completeReceiveExc_acts hc _, fun _ => ?_⟩
        rw [wp_bind, wp_listTake]
        cases hpeek : s.peek (.senders object) with
        | none =>
          simp only [wp_blockInReceive hs hsits]
          exact .single (.blockInReceive c object hblocks hc hg hsits hkind)
        | some r =>
          obtain ⟨p, hr⟩ := exists_mem_of_peek hpeek
          exact completeReceive_acts G ih hs hI hc hg hsits hr (by omega)
      next =>
        simp only [Context.deliverTo, wp_bind, wp_get, wp_ite]
        refine ⟨fun _ => completeReceiveExc_acts hc _, fun h => ?_⟩
        obtain rfl : c = object := by
          by_contra hne
          exact h (.inr hne)
        rw [wp_blockInReply hs hsits]
        exact .single (.blockInReply c hblocks hc hsits)
      all_goals exact completeReceiveExc_acts hc _
    · intro s c Q E hs hsits _
      simp only [deliverTo, wp_bind, wp_get, hsits.kind_of_runnable]
      simp [Context.deliverTo, wp_blockInReply hs hsits]

theorem delivers_bounded (G : Guarded A I) (hblocks : A.blocks) (fuel : Nat) :
    Delivers A I deliverToBounded fuel := by
  refine ⟨hblocks, ?_, ?_⟩
  · intro s object brand c hs hI hc hsits hobject _
    simp only [deliverToBounded, wp_bind, wp_get]
    exact (delivers G hblocks _).acts hs hI hc hsits hobject (Nat.lt_succ_self _)
  · intro s c Q E hs hsits _
    simp only [deliverToBounded, wp_bind, wp_get]
    exact (delivers G hblocks _).own hs hsits (Nat.succ_pos _)

end Recursion

end BrittleKernel
