import BrittleKernel.Registers
import BrittleKernel.Settled

/-!
# Chains of Deliveries

What a receive operation does, with everything that it sets off: the message of a queued
sender is taken, that sender goes on to receive, which takes the message of another queued
sender, and so on.  `Receives` describes such a chain from its outcome; its derivations are
as long as the chain, so that facts about chains are proved by induction on them.
-/

namespace BrittleKernel

open Hoare KState

namespace KState

/-! ## Links of a chain -/

/-- A Context's operation is completed by an exception. -/
def refused (s : KState) (c : TableIndex) (x : Exception) : KState :=
  (s.updateContext c fun b =>
    { b with save := (b.save.setMessage (Message.failure x)).setBrand 0#64 }).record
      (.excepted c (Message.failure x))

/-- A message reaches a Context's save area. -/
def informed (s : KState) (c : TableIndex) (sender : Option TableIndex) (m : Message) (b : Brand) :
    KState :=
  (s.updateContext c fun body => { body with save := (body.save.setMessage m).setBrand b }).record
    (.delivered sender c b m)

/-- The message that the owner of a sender item sends. -/
def blockedMessage (s : KState) : ItemRef → Message
  | .irqItem i => { desc := Descriptor.zero.withSelector 1#16, d0 := (s.interrupt i).identifier }
  | .ctxItem c | .senderItem c => (s.context c).save.message.sanitized

/-- The key designates a Gate, and its brand allows to receive from it. -/
def opens (s : KState) (k : Key) : Prop :=
  s.kind (s.target k) = .gate ∧ (s.resolve k).brand.isTop = false

/-- Receiving through the key is awaiting a reply. -/
def ownReply (s : KState) (c : TableIndex) (k : Key) : Prop :=
  s.target k = c ∧ s.kind c = .context ∧ (s.resolve k).brand = (s.context c).expectedReplyBrand

instance (s : KState) (k : Key) : Decidable (s.opens k) := by unfold opens; infer_instance

instance (s : KState) (c : TableIndex) (k : Key) : Decidable (s.ownReply c k) := by
  unfold ownReply; infer_instance

/-- The key that a Context receives through once its message has been taken. -/
def receiveKey (s : KState) (c : TableIndex) : Key :=
  if (s.context c).save.message.desc.isCall then s.sentKeys c 0
  else s.keyAt (.keyReg c (s.context c).save.message.desc.getSource)

/-- The state in which it starts to receive: a source register was checked. -/
def receiving (s : KState) (c : TableIndex) : KState :=
  if (s.context c).save.message.desc.isCall then s
  else s.dropped (.keyReg c (s.context c).save.message.desc.getSource)

/-- A queued Context is woken and its keys reach the receiver. -/
def taken (s : KState) (x c : TableIndex) : KState :=
  (s.reseat x .runnable).pend.deposit (.bank c ((s.context c).save 7)) (s.sentKeys x)

/-- A queued Interrupt's message is taken. -/
def takenIrq (s : KState) (i c : TableIndex) : KState :=
  ((s.requeue i none).deposit (.bank c ((s.context c).save 7)) (s.blockedKeys (.irqItem i))).informed
    c (some i) (s.blockedMessage (.irqItem i)) (s.interrupt i).savedBrand

end KState

/-! ## Chains -/

/-- Context `c` receives through key `k` in state `s`, and `s'` is the state in which the
operation and all it set off are over. -/
inductive Receives : KState → TableIndex → Key → KState → Prop where
  | refused {s : KState} {c : TableIndex} {k : Key} : ¬s.opens k → ¬s.ownReply c k →
      Receives s c k (s.refused c .badOperation)
  | awaiting {s : KState} {c : TableIndex} {k : Key} : s.ownReply c k →
      Receives s c k (s.reseat c .awaiting).pend
  /-- Nobody is queued at the Gate. -/
  | waiting {s : KState} {c : TableIndex} {k : Key} : s.opens k →
      s.peek (.senders (s.target k)) = none →
      Receives s c k (s.reseat c (.receiving (s.target k))).pend
  /-- An Interrupt is first in the Gate's list of senders. -/
  | irq {s : KState} {c i : TableIndex} {k : Key} : s.opens k →
      s.peek (.senders (s.target k)) = some (.irqItem i) →
      Receives s c k (s.takenIrq i c)
  /-- A Context is: its own receive phase comes before the message is handed over. -/
  | sender {s s' : KState} {c x : TableIndex} {k : Key} : s.opens k →
      s.peek (.senders (s.target k)) = some (.senderItem x) →
      ((s.context x).save.message.desc.getReceiveEnabled = true →
        Receives ((s.taken x c).receiving x) x ((s.taken x c).receiveKey x) s') →
      ((s.context x).save.message.desc.getReceiveEnabled = false → s' = s.taken x c) →
      Receives s c k
        (s'.informed c (some x) (s.blockedMessage (.senderItem x)) (s'.context x).savedBrand)

/-- The receive phase of a Context whose message has been taken. -/
def Received (s : KState) (c : TableIndex) (s' : KState) : Prop :=
  ((s.context c).save.message.desc.getReceiveEnabled = true →
    Receives (s.receiving c) c (s.receiveKey c) s') ∧
  ((s.context c).save.message.desc.getReceiveEnabled = false → s' = s)

/-- A virtual `deliver_to` does what `Receives` says as long as the chain is no longer than
the bound. -/
def Follows (deliverTo : DeliverTo) (fuel : Nat) : Prop :=
  ∀ {s : KState} {c : TableIndex} {k : Key}, s.WellFormed → s.Sits c .runnable →
    s.blockedSenders < fuel →
    wp (deliverTo (s.target k) (s.resolve k).brand c) (fun _ s' => Receives s c k s') never s

section

variable {s : KState} {c x : TableIndex}

theorem receiving_eq (hcall : (s.context c).save.message.desc.isCall = false) :
    s.receiving c = s.dropped (.keyReg c (s.context c).save.message.desc.getSource) := by
  simp [receiving, hcall]

theorem sameSeats_receiving (s : KState) (c : TableIndex) : SameSeats s (s.receiving c) := by
  unfold receiving
  split
  · exact ⟨rfl, rfl, rfl, fun _ => .refl _, fun _ => .refl _⟩
  · exact sameSeats_dropped _ _

@[simp] theorem objects_receiving (s : KState) (c : TableIndex) :
    (s.receiving c).objects = s.objects := by
  unfold receiving
  split <;> simp

@[simp] theorem objects_taken (s : KState) (x c : TableIndex) : (s.taken x c).objects = s.objects := by
  simp [taken]

/-- A move from seat to seat leaves a Context's registers alone. -/
theorem save_reseat (s : KState) (x y : TableIndex) (seat : Seat) :
    ((s.reseat x seat).pend.context y).save = (s.context y).save := by
  by_cases hy : y = x <;> simp [reseat, pend, hy]

theorem expectedReplyBrand_reseat (s : KState) (x y : TableIndex) (seat : Seat) :
    ((s.reseat x seat).pend.context y).expectedReplyBrand = (s.context y).expectedReplyBrand := by
  by_cases hy : y = x <;> simp [reseat, pend, hy]

theorem sentKeys_reseat (s : KState) (x y : TableIndex) (seat : Seat) :
    (s.reseat x seat).pend.sentKeys y = s.sentKeys y := by
  have hfilled : ∀ e b, (s.reseat x seat).pend.filled e b = s.filled e b := fun _ _ => rfl
  have hkey : (s.reseat x seat).pend.keyAt = s.keyAt := by simp
  funext i
  simp only [sentKeys, hfilled, hkey, save_reseat, expectedReplyBrand_reseat]

/-- Handing its keys to a receiver leaves a sender's own registers alone. -/
theorem save_taken (hne : x ≠ c) : ((s.taken x c).context x).save = (s.context x).save := by
  rw [taken, keyAt_deposit_of_ne (by rintro _ ⟨⟩; exact hne rfl), save_reseat]

/-- What a Context sends depends on its own body and the generations. -/
theorem sentKeys_congr {t : KState} (hbody : t.context c = s.context c)
    (hgeneration : t.generation = s.generation) : t.sentKeys c = s.sentKeys c := by
  funext i
  simp only [sentKeys, keyAt, filled, hbody, hgeneration]

/-- What a Context sends is not touched by keys that reach others. -/
theorem sentKeys_deposit {dst : KeysRef} (hdst : ∀ map, dst ≠ .bank c map) (ks : Keys) :
    (s.deposit dst ks).sentKeys c = s.sentKeys c :=
  sentKeys_congr (keyAt_deposit_of_ne hdst ks) (generation_of_objects (objects_deposit s dst ks))

/-- `Context::on_delivery` hands over the message as it is, and receives. -/
theorem contextOnDelivery_received {deliverTo : DeliverTo} {fuel : Nat} (hD : Follows deliverTo fuel)
    (hs : s.WellFormed) (hc : s.Sits c .runnable) (hfuel : s.blockedSenders < fuel) {dst : KeysRef}
    (hdst : ∀ map, dst ≠ .bank c map) :
    wp (Context.onDelivery deliverTo c dst)
      (fun r s' => r = (s.blockedMessage (.senderItem c), s.sentKeys c) ∧
        Received (s.deposit dst (s.sentKeys c)) c s') never s := by
  rw [wp_contextOnDelivery hdst]
  have hsame := s.sameSeats_deposit dst (s.sentKeys c)
  have hs₁ := hs.of_sameSeats hsame
  have hc₁ := hsame.sits hc
  have hfuel₁ : (s.deposit dst (s.sentKeys c)).blockedSenders < fuel := by
    rwa [blockedSenders_of_sameSeats hsame]
  have hbody := keyAt_deposit_of_ne (s := s) hdst (s.sentKeys c)
  have hkeys := sentKeys_deposit (s := s) hdst (s.sentKeys c)
  refine ⟨fun hcall => ?_, fun hcall hreceive => ?_, fun hreceive => ⟨rfl, ?_⟩⟩
  · -- A call receives through the fresh reply key.
    refine wp_mono (hD (k := s.sentKeys c 0) hs₁ hc₁ hfuel₁) (fun _ s' h => ⟨rfl, fun _ => ?_, ?_⟩)
      fun _ _ h => h
    · rw [receiving, receiveKey, hbody, if_pos hcall, if_pos hcall, hkeys]
      exact h
    · intro hnot
      rw [hbody] at hnot
      simp [Descriptor.isCall, hnot] at hcall
  · -- Otherwise the source register is checked first.
    generalize hsource : (s.context c).save.message.desc.getSource = source
    simp only [receivePhase, hsource, wp_bind, wp_keyGet, wp_get]
    have hstate : (if (s.deposit dst (s.sentKeys c)).isLive
          ((s.deposit dst (s.sentKeys c)).keyAt (.keyReg c source)) then s.deposit dst (s.sentKeys c)
        else (s.deposit dst (s.sentKeys c)).setKeyAt (.keyReg c source)
          (s.deposit dst (s.sentKeys c)).nullKey) =
        (s.deposit dst (s.sentKeys c)).dropped (.keyReg c source) := rfl
    rw [hstate]
    generalize s.deposit dst (s.sentKeys c) = t at hs₁ hc₁ hfuel₁ hbody ⊢
    have hdrop := objects_dropped t (.keyReg c source)
    have hsame₂ := sameSeats_dropped t (.keyReg c source)
    have hrun := hD (k := t.keyAt (.keyReg c source)) (hs₁.of_sameSeats hsame₂) (hsame₂.sits hc₁)
      (by rwa [blockedSenders_of_sameSeats hsame₂])
    rw [target_of_objects hdrop, resolve_of_objects hdrop, ← keyAt_dropped] at hrun
    refine wp_mono hrun (fun _ s' h => ⟨rfl, fun _ => ?_, ?_⟩) fun _ _ h => h
    · rw [receiving, receiveKey, hbody, hcall, hsource]
      exact h
    · intro hnot
      rw [hbody] at hnot
      simp [hreceive] at hnot
  · refine ⟨fun h => ?_, fun _ => rfl⟩
    rw [hbody] at h
    simp [hreceive] at h

/-- Every chain is followed to its end. -/
theorem deliverTo_receives (fuel : Nat) : Follows (deliverTo fuel) fuel := by
  induction fuel with
  | zero => exact fun _ _ h => absurd h (Nat.not_lt_zero _)
  | succ fuel ih =>
    intro s c k hs hc hfuel
    have hrefused : ¬s.opens k → ¬s.ownReply c k →
        wp (Context.completeReceiveExc c .badOperation) (fun _ s' => Receives s c k s') never s :=
      fun h h' => (wp_completeReceiveExc _).mpr (.refused h h')
    simp only [deliverTo, wp_bind, wp_get]
    split
    next hkind =>
      -- A Gate: take the first sender, or wait.
      have hother : ¬s.ownReply c k := by
        rintro ⟨rfl, hown, -⟩
        simp [hown] at hkind
      simp only [Gate.deliverTo, wp_ite, wp_bind, wp_listTake]
      refine ⟨fun htop => hrefused (fun h => ?_) hother, fun htop => ?_⟩
      · simp [opens, htop] at h
      have hopens : s.opens k := ⟨hkind, by simpa using htop⟩
      cases hpeek : s.peek (.senders (s.target k)) with
      | none =>
        simp only [wp_blockInReceive hs hc]
        exact .waiting hopens hpeek
      | some r =>
        obtain ⟨p, hr⟩ := exists_mem_of_peek hpeek
        simp only [Context.completeReceive, wp_bind, wp_get]
        rcases hs.mem_senders hr with ⟨x, rfl, hx⟩ | ⟨i, rfl, hi⟩
        · -- A Context is woken, and its keys arrive before it goes on to receive.
          have hne : x ≠ c := by
            rintro rfl
            cases hx.unique hc
          have hact : Act (.any True) s (s.reseat x .runnable).pend :=
            .rouse x _ _ trivial trivial hx rfl
          have hx₁ : (s.reseat x .runnable).pend.Sits x .runnable := (sameSeats_pend _).sits
            (s.sits_reseat x _ (fun _ => hx.kind (by simp)) (by simp [Seat.gate]))
          have hmap : ((s.unlink (.senderItem x)).context c).save = (s.context c).save := by
            simp [unlink_eq hs.threaded, setItem, hne.symm]
          have hmessage : (s.reseat x .runnable).pend.blockedMessage (.senderItem x) =
              s.blockedMessage (.senderItem x) := by
            simp only [blockedMessage, save_reseat]
          simp only [onBlockedDelivery, wp_bind, wp_makeRunnable_sender hs hx, hmap]
          refine wp_conseq (contextOnDelivery_received ih (hact.wellFormed hs) hx₁
            ((blockedSenders_rouse hs hx).trans_le (by omega))
            (by rintro _ ⟨⟩; exact hne rfl)) fun sent s₂ hsent => ?_
          obtain ⟨hm, h₂⟩ := hsent
          obtain ⟨m, ks⟩ := sent
          obtain rfl : m = s.blockedMessage (.senderItem x) := (congrArg Prod.fst hm).trans hmessage
          have harrived : (s.reseat x .runnable).pend.deposit (.bank c ((s.context c).save 7))
              ((s.reseat x .runnable).pend.sentKeys x) = s.taken x c := by
            rw [sentKeys_reseat]
            rfl
          rw [harrived] at h₂
          rw [Received, save_taken hne] at h₂
          exact .sender hopens hpeek h₂.1 h₂.2
        · -- An Interrupt has no receive phase.
          have hmap : ((s.unlink (.irqItem i)).context c).save = (s.context c).save := by
            rw [unlink_irqItem hs]
            rfl
          have hident : ((s.requeue i none).interrupt i).identifier = (s.interrupt i).identifier := by
            simp [requeue]
          have hbrand : ∀ (t : KState) dst ks, ((t.deposit dst ks).interrupt i) = t.interrupt i := by
            intro t dst ks
            cases dst <;> rfl
          have hsaved : ((s.requeue i none).interrupt i).savedBrand = (s.interrupt i).savedBrand := by
            simp [requeue]
          simp only [onBlockedDelivery, wp_bind, hmap]
          rw [unlink_irqItem hs, wp_interruptOnDelivery]
          simp only [wp_get, wp_pure, hident, hbrand, hsaved, Context.setSys, wp_modify]
          exact .irq hopens hpeek
    next hkind =>
      -- A Context: only the reply key of the receiver itself is good for anything.
      have hclosed : ¬s.opens k := by
        rintro ⟨hgate, -⟩
        simp [hkind] at hgate
      simp only [Context.deliverTo, wp_bind, wp_get, wp_ite]
      refine ⟨fun h => hrefused hclosed ?_, fun h => ?_⟩
      · rintro ⟨htarget, -, hbrand⟩
        rw [htarget] at h
        simp [hbrand] at h
      · simp only [not_or, not_not] at h
        obtain ⟨hbrand, rfl⟩ := h
        rw [wp_blockInReply hs hc]
        exact .awaiting ⟨rfl, hkind, hbrand⟩
    all_goals
      refine hrefused ?_ ?_
      · rintro ⟨hgate, -⟩
        simp_all
      · rintro ⟨rfl, hown, -⟩
        simp_all

theorem deliverToBounded_receives : ∀ fuel, Follows deliverToBounded fuel := by
  intro fuel s c k hs hc _
  simp only [deliverToBounded, wp_bind, wp_get]
  exact deliverTo_receives _ hs hc (Nat.lt_succ_self _)

end

/-! ## Chains are acts -/

section

variable {s s' : KState} {c x i g : TableIndex} {k : Key}

/-- A sender item at the head of a Gate's list belongs to a Context that waits there. -/
theorem sits_of_peek (hs : s.WellFormed) (hpeek : s.peek (.senders g) = some (.senderItem x)) :
    s.Sits x (.sending g) := by
  obtain ⟨p, hr⟩ := exists_mem_of_peek hpeek
  rcases hs.mem_senders hr with ⟨y, hy, hsits⟩ | ⟨i, hi, -⟩
  · cases hy
    exact hsits
  · cases hi

theorem queued_of_peek (hs : s.WellFormed) (hpeek : s.peek (.senders g) = some (.irqItem i)) :
    s.Queued i (some g) := by
  obtain ⟨p, hr⟩ := exists_mem_of_peek hpeek
  rcases hs.mem_senders hr with ⟨y, hy, -⟩ | ⟨j, hj, hqueued⟩
  · cases hy
  · cases hj
    exact hqueued

/-- A queued Context is woken and its keys reach the receiver. -/
theorem acts_taken (hx : s.Sits x (.sending g)) (c : TableIndex) :
    Acts (.any True) s (s.taken x c) :=
  (Relation.ReflTransGen.single (.rouse x g _ trivial trivial hx rfl)).tail
    (.deposit (.bank c _) _ trivial fun _ => trivial)

theorem sits_taken (hx : s.Sits x (.sending g)) (c : TableIndex) : (s.taken x c).Sits x .runnable :=
  (sameSeats_deposit _ _ _).sits ((sameSeats_pend _).sits
    (s.sits_reseat x _ (fun _ => hx.kind (by simp)) (by simp [Seat.gate])))

theorem acts_receiving (s : KState) (c : TableIndex) : Acts (.any True) s (s.receiving c) := by
  unfold receiving dropped
  split
  · exact .refl
  · split
    · exact .refl
    next h => exact .single (.drop _ trivial (by simp) (by simpa using h))

theorem acts_refused (s : KState) (c : TableIndex) (x : Exception) :
    Acts (.any True) s (s.refused c x) :=
  (Relation.ReflTransGen.single (.save c (fun save =>
    (save.setMessage (Message.failure x)).setBrand 0#64) trivial)).tail (.note _ trivial)

theorem acts_informed (s : KState) (c : TableIndex) (sender : Option TableIndex) (m : Message)
    (b : Brand) : Acts (.any True) s (s.informed c sender m b) :=
  (Relation.ReflTransGen.single (.save c (fun save => (save.setMessage m).setBrand b) trivial)).tail
    (.note _ trivial)

theorem acts_takenIrq (hi : s.Queued i (some g)) (c : TableIndex) :
    Acts (.any True) s (s.takenIrq i c) :=
  ((Relation.ReflTransGen.single (.takeIrq i g trivial trivial hi)).tail
    (.deposit (.bank c _) _ trivial fun _ => trivial)).trans (acts_informed _ _ _ _ _)

theorem Receives.acts (h : Receives s c k s') (hs : s.WellFormed) (hc : s.Sits c .runnable) :
    Acts (.any True) s s' := by
  induction h with
  | refused => exact acts_refused _ _ _
  | awaiting => exact .single (.blockInReply _ trivial trivial hc)
  | waiting hopens => exact .single (.blockInReceive _ _ trivial trivial trivial hc hopens.1)
  | irq _ hpeek => exact acts_takenIrq (queued_of_peek hs hpeek) _
  | @sender s s' c x k hopens hpeek _ hsilent ih =>
    have hx := sits_of_peek hs hpeek
    have htaken := acts_taken hx c
    have hreceiving := acts_receiving (s.taken x c) x
    have hchain : Acts (.any True) s s' := by
      cases henabled : (s.context x).save.message.desc.getReceiveEnabled with
      | false => exact hsilent henabled ▸ htaken
      | true =>
        exact htaken.trans (hreceiving.trans (ih henabled
          (hreceiving.wellFormed (htaken.wellFormed hs))
          ((sameSeats_receiving _ _).sits (sits_taken hx c))))
    exact hchain.trans (acts_informed _ _ _ _ _)

theorem Received.acts (h : Received s c s') (hs : s.WellFormed) (hc : s.Sits c .runnable) :
    Acts (.any True) s s' := by
  cases henabled : (s.context c).save.message.desc.getReceiveEnabled with
  | false => exact h.2 henabled ▸ .refl
  | true =>
    have hreceiving := acts_receiving s c
    exact hreceiving.trans ((h.1 henabled).acts (hreceiving.wellFormed hs)
      ((sameSeats_receiving _ _).sits hc))

/-- The links of a chain after its first. -/
theorem acts_chain (hs : s.WellFormed) (hc : s.Sits c .runnable) (hx : s.Sits x (.sending g))
    (hreceive : (s.context x).save.message.desc.getReceiveEnabled = true →
      Receives ((s.taken x c).receiving x) x ((s.taken x c).receiveKey x) s')
    (hsilent : (s.context x).save.message.desc.getReceiveEnabled = false → s' = s.taken x c) :
    Acts (.any True) (s.taken x c) s' := by
  have hne : x ≠ c := by
    rintro rfl
    cases hx.unique hc
  have hreceived : Received (s.taken x c) x s' := by
    rw [Received, save_taken hne]
    exact ⟨hreceive, hsilent⟩
  exact hreceived.acts ((acts_taken hx c).wellFormed hs) (sits_taken hx c)

end

end BrittleKernel
