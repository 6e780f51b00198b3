import Mathlib
import BrittleKernel.KernelCalls
import BrittleKernel.MemoryBrand
import BrittleKernel.OneShot
import BrittleKernel.Weakening

/-!
# The Brand that a Receiver Finds

A service knows its clients by the brands of the keys they send through.  The message of a client
that has to wait carries the brand its key had.  If the receiver is already waiting, the kernel
looks at the client's key only after the client's own receive phase, so a message received into the
key's register changes the brand that the service finds.
-/

namespace BrittleKernel

open Hoare KState

namespace KState

/-- A message sent to object `e` with brand `b` goes straight to Context `y`: it is the first that
waits at the Gate, or the key is the reply key that it expects. -/
inductive HandsTo (s : KState) (e : TableIndex) (b : Brand) (y : TableIndex) : Prop where
  | gate : s.kind e = .gate → b.isTop = true → s.peek (.receivers e) = some (.ctxItem y) → HandsTo s e b y
  | reply : s.kind e = .context → b.isTop = true → b = (s.context e).expectedReplyBrand → e = y →
      HandsTo s e b y

variable {s t : KState} {c : TableIndex}

/-- The receive phase looks at the Context's own body, the senders in line and their bodies. -/
theorem registerAfter_congr (hobjects : t.objects = s.objects) (hcontext : t.context c = s.context c)
    (hpeek : ∀ g, t.peek (.senders g) = s.peek (.senders g))
    (hsender : ∀ g r, s.peek (.senders g) = some r → t.context r.owner = s.context r.owner)
    (i : Fin nTaskKeys) : t.registerAfter c i = s.registerAfter c i := by
  have hkey : ∀ j, t.keyAt (.keyReg c j) = s.keyAt (.keyReg c j) := fun j => by
    simp only [keyAt, hcontext]
  have hqueued : t.queuedSender c = s.queuedSender c := by
    simp only [queuedSender, hcontext, hkey, kind_of_objects hobjects, target_of_objects hobjects,
      resolve_of_objects hobjects, hpeek]
  have hkeys : ∀ g r, s.peek (.senders g) = some r → t.blockedKeys r = s.blockedKeys r := by
    intro g r hr
    have hbody := hsender g r hr
    have hfilled : ∀ e b, t.filled e b = s.filled e b := fun e b => by
      simp only [filled, generation_of_objects hobjects]
    cases r with
    | irqItem x => simp only [blockedKeys, nullKey, hfilled]
    | ctxItem x | senderItem x =>
      exact sentKeys_congr hbody (generation_of_objects hobjects)
  rw [registerAfter, registerAfter, hqueued]
  cases hq : s.queuedSender c with
  | none => exact hkey i
  | some r =>
    have hr : ∃ g, s.peek (.senders g) = some r := by
      unfold queuedSender at hq
      dsimp only at hq
      split_ifs at hq
      exact ⟨_, hq⟩
    obtain ⟨g, hr⟩ := hr
    simp only [hcontext, hkeys g r hr]

/-- Waking a receiver leaves the senders in line where they are. -/
theorem peek_senders_reseat (hs : s.WellFormed) {y : TableIndex} {seat : Seat} (hy : s.Sits y seat)
    (hseat : ∀ g, seat ≠ .sending g) (g : TableIndex) :
    (s.reseat y .runnable).pend.peek (.senders g) = s.peek (.senders g) := by
  have hctx : ∀ p, .ctxItem y ∉ s.queues (.senders g) p := fun p hmem => by
    rcases hs.mem_senders hmem with ⟨x, hx, -⟩ | ⟨i, hi, -⟩
    · cases hx
    · cases hi
  have hsender : ∀ p, .senderItem y ∉ s.queues (.senders g) p := fun p hmem => by
    rcases hs.mem_senders hmem with ⟨x, hx, hsits⟩ | ⟨i, hi, -⟩
    · cases hx
      exact hseat g (hy.unique hsits)
    · cases hi
  simp only [peek, pend, reseat, List.erase_of_not_mem (hctx _), List.erase_of_not_mem (hsender _)]
  simp [Seat.ctxList, Seat.senderList]

/-- The senders in line are not the Context that is woken. -/
theorem sender_ne (hs : s.WellFormed) {y : TableIndex} {seat : Seat} (hy : s.Sits y seat)
    (hseat : ∀ g, seat ≠ .sending g) (hkind : s.kind y = .context) {g : TableIndex} {r : ItemRef}
    (hr : s.peek (.senders g) = some r) : r.owner ≠ y := by
  obtain ⟨p, hmem⟩ := exists_mem_of_peek hr
  rcases hs.mem_senders hmem with ⟨x, rfl, hx⟩ | ⟨i, rfl, hi⟩
  · -- A Context has one seat only.
    rintro rfl
    exact hseat g (hy.unique hx)
  · -- An Interrupt is no Context.
    rintro rfl
    have hirq := hi.kind (by simp)
    rw [show s.kind i = .context from hkind] at hirq
    cases hirq

end KState

/-! ## Direct delivery -/

/-- A Context has been woken to receive a message. -/
inductive KState.Awakened (s : KState) (y : TableIndex) : KState → Prop where
  | gate {g : TableIndex} : s.Sits y (.receiving g) → Awakened s y (s.reseat y .runnable).pend
  | reply (b : Brand) : s.Sits y .awaiting → Awakened s y (s.answered y b)

section

variable {s t : KState} {c y : TableIndex}

theorem SavedRegisters.brand_setBrand (r : SavedRegisters) (b : Brand) : (r.setBrand b).brand = b :=
  Brand.ofWords_low_high b

/-- A receiver that is woken finds the brand that the reference leads to once the message has left. -/
theorem completeBlockedReceive_reads {sender : Sender} {ref : BrandRef} {P : KState → Prop}
    (hrun : ∀ {Q : PUnit → KState → Prop} {E : Panic → KState → Prop},
      wp (Context.makeRunnable y) Q E t ↔ Q ⟨⟩ s)
    (hsent : wp (sender.onDelivery (.bank y ((s.context y).save 7))) (fun _ s' => P s') never s) :
    wp (Context.completeBlockedReceive y ref sender)
      (fun _ s' => ∃ s₁ m, P s₁ ∧ s' = s₁.informed y sender.ident m (s₁.readRef ref)) never t := by
  simp only [Context.completeBlockedReceive, wp_bind, hrun, wp_get]
  refine wp_conseq hsent fun sent s₁ hkept => ?_
  obtain ⟨m, ks⟩ := sent
  have hbrand : (s₁.updateContext y fun b => { b with save := b.save.setMessage m }).readRef ref =
      s₁.readRef ref := by
    cases ref with
    | value b => rfl
    | stored loc => rw [readRef, keyAt_updateContext rfl rfl, readRef]
  simp only [wp_modify, wp_readRef, hbrand]
  exact ⟨s₁, m, hkept, by simp [informed, updateContext]⟩

theorem brand_informed (s : KState) (y : TableIndex) (sender : Option TableIndex) (m : Message) (b : Brand) :
    ((s.informed y sender m b).context y).save.brand = b := by
  have hsave : ((s.informed y sender m b).context y).save = ((s.context y).save.setMessage m).setBrand b := by
    simp [informed]
  rw [hsave, SavedRegisters.brand_setBrand]

/-- Sending to a Context that waits. -/
theorem deliverFrom_hands {cfg : Config} {depth : Nat} {e : TableIndex} {ref : BrandRef} {sender : Sender}
    {P : KState → Prop} (hs : s.WellFormed) (hhands : s.HandsTo e (s.readRef ref) y)
    (hsent : ∀ u, s.Awakened y u →
      wp (sender.onDelivery (.bank y ((u.context y).save 7))) (fun _ s' => P s') never u) :
    wp (deliverFrom cfg (depth + 1) e ref sender)
      (fun _ s' => ∃ s₁ m, P s₁ ∧ s' = s₁.informed y sender.ident m (s₁.readRef ref)) (fun _ _ => True) s := by
  cases hhands with
  | gate hkind htop hpeek =>
    obtain ⟨p, hr⟩ := exists_mem_of_peek hpeek
    obtain ⟨x, hx, hy⟩ := hs.mem_receivers hr
    cases hx
    -- The Gate takes the receiver off its list, so nobody blocks.
    simp only [deliverFrom, wp_bind, wp_get, hkind]
    simp only [Gate.deliverFrom, wp_bind, wp_readRef, wp_ite, wp_listTake, hpeek]
    refine ⟨fun _ => ?_, fun h => absurd htop h⟩
    exact wp_conseq (completeBlockedReceive_reads (wp_makeRunnable_receiver hs hy) (hsent _ (.gate hy)))
      fun _ _ h => h
  | reply hkind htop hexpected heq =>
    subst heq
    have hsame := s.sameSeats_advanceReply e
    simp only [deliverFrom, wp_bind, wp_get, hkind]
    simp only [Context.deliverFrom, wp_bind, wp_readRef, wp_ite, wp_get]
    refine ⟨fun _ => ⟨fun hother => absurd hexpected hother, fun _ => ?_⟩, fun h => absurd htop h⟩
    have hadvance : ∀ {Q : PUnit → KState → Prop} {E : Panic → KState → Prop},
        wp (Context.advanceReplyBrand e) Q E s ↔ Q ⟨⟩ (s.advanceReply e) := Iff.rfl
    simp only [hadvance, panicUnless, wp_ite, wp_pure, wp_throw, wp_set]
    refine ⟨fun hawaiting => ?_, fun _ => trivial⟩
    -- The kernel has checked that the Context awaits a reply.
    have hawaits := (isAwaitingReply_iff (hs.of_sameSeats hsame) e).mp hawaiting
    have hsits : s.Sits e .awaiting := by
      obtain ⟨seat, hseat⟩ := hs.context e
      obtain rfl := (hsame.sits hseat).unique hawaits
      exact hseat
    have hsame₂ := hsame.trans (sameSeats_record _ (.answered e (s.readRef ref)))
    exact wp_conseq (completeBlockedReceive_reads
      (wp_makeRunnable_loose (hs.of_sameSeats hsame₂) (hsame₂.sits hsits) rfl rfl)
      (hsent _ (.reply _ hsits))) fun _ _ h => h

/-- What the woken Context's body and the message's keys do not touch. -/
theorem KState.Awakened.registerAfter (h : s.Awakened y t) (hs : s.WellFormed) (hne : c ≠ y)
    (map : Word) (ks : Keys) (i : Fin nTaskKeys) :
    (t.deposit (.bank y map) ks).registerAfter c i = s.registerAfter c i := by
  have hcontext : ∀ x, x ≠ y → (t.deposit (.bank y map) ks).context x = s.context x := by
    intro x hx
    rw [keyAt_deposit_of_ne (by rintro _ ⟨⟩; exact hx rfl)]
    cases h with
    | gate => exact Function.update_of_ne hx _ _
    | reply b => exact (Function.update_of_ne hx _ _).trans (Function.update_of_ne hx _ _)
  have hobjects : (t.deposit (.bank y map) ks).objects = s.objects := by
    rw [objects_deposit]
    cases h with
    | gate | reply b => rfl
  have hqueues : (t.deposit (.bank y map) ks).queues = t.queues := (sameSeats_deposit t _ ks).queues
  cases h with
  | gate hy =>
    refine registerAfter_congr hobjects (hcontext c hne) (fun g => ?_) (fun g r hr => ?_) i
    · rw [peek, hqueues]
      exact peek_senders_reseat hs hy (by simp) g
    · exact hcontext _ (sender_ne hs hy (by simp) (hy.kind (by simp)) hr)
  | reply b hy =>
    have hsame := (s.sameSeats_advanceReply y).trans (sameSeats_record _ (.answered y b))
    refine registerAfter_congr hobjects (hcontext c hne) (fun g => ?_) (fun g r hr => ?_) i
    · rw [peek, hqueues]
      have hpeek := peek_senders_reseat (hs.of_sameSeats hsame) (hsame.sits hy) (by simp) g
      rw [peek, peek, hsame.queues] at hpeek
      exact hpeek
    · exact hcontext _ (sender_ne hs hy (by simp) (hy.kind (by simp)) hr)

theorem KState.Awakened.wellFormed (h : s.Awakened y t) (hs : s.WellFormed) : t.WellFormed := by
  cases h with
  | @gate g hy =>
    have hact : Act (.any True) s (s.reseat y .runnable).pend := .rouse y g _ trivial trivial hy rfl
    exact hact.wellFormed hs
  | reply b hy =>
    have hsame := (s.sameSeats_advanceReply y).trans (sameSeats_record _ (.answered y b))
    exact (((hs.of_sameSeats hsame).reseat y .runnable (fun _ => hy.kind (by simp)) (by simp [Seat.gate])).of_sameSeats
      (sameSeats_pend _))

theorem KState.Awakened.sits (h : s.Awakened y t) (hne : c ≠ y) (hc : s.Sits c .runnable) :
    t.Sits c .runnable := by
  cases h with
  | gate hy => exact (sameSeats_pend _).sits (sits_reseat_of_ne hne _ hc)
  | reply b hy =>
    have hsame := (s.sameSeats_advanceReply y).trans (sameSeats_record _ (.answered y b))
    exact (sameSeats_pend _).sits (sits_reseat_of_ne hne _ (hsame.sits hc))

/-- The running Context's register once its message has gone straight to another. -/
theorem KState.Awakened.sent (h : s.Awakened y t) (hs : s.WellFormed) (hc : s.Sits c .runnable)
    {i : Fin nTaskKeys} (hlive : s.isLive (s.keyAt (.keyReg c i)) = true) :
    wp ((Sender.context c).onDelivery (.bank y ((t.context y).save 7)))
      (fun _ s' => s'.keyAt (.keyReg c i) = s.registerAfter c i) never t := by
  have hne : c ≠ y := by
    rintro rfl
    cases h with
    | gate hy => cases hy.unique hc
    | reply b hy => cases hy.unique hc
  have hkey : t.keyAt (.keyReg c i) = s.keyAt (.keyReg c i) := by
    cases h with
    | gate => simp
    | reply b => simp [answered, advanceReply, keyAt, reseat, pend, hne]
  have hsame : t.isLive (t.keyAt (.keyReg c i)) = true := by
    rw [hkey]
    cases h with
    | gate | reply b => exact hlive
  refine wp_conseq (contextOnDelivery_registers (h.wellFormed hs) (h.sits hne hc)
    (by rintro _ ⟨⟩; exact hne rfl)) fun _ s' hregisters => ?_
  rw [hregisters i hsame, h.registerAfter hs hne]

end

/-! ## The brand in a run -/

section

variable {s : KState} {stack : Word} {regs : UserRegisters} {e y : TableIndex} {b : Brand}

theorem KState.HandsTo.ne_null (h : s.HandsTo e b y) : s.kind e ≠ .null := by
  cases h with
  | gate hgate => simp [hgate]
  | reply hcontext => simp [hcontext]

/-- Leaving the caller does not change who waits. -/
theorem KState.HandsTo.svcSending (h : s.HandsTo e b y) : (s.svcSending stack regs).HandsTo e b y := by
  have hkinds : (s.svcSending stack regs).kind = s.kind := kind_of_objects objects_svcSending
  have hqueues : (s.svcSending stack regs).queues = s.queues :=
    ((s.sameSeats_ready stack regs).trans (sameSeats_sending _ _ _)).queues
  cases h with
  | gate hgate htop hpeek =>
    exact .gate (by rw [hkinds]; exact hgate) htop (by rw [peek, hqueues]; exact hpeek)
  | reply hcontext htop hexpected heq =>
    exact .reply (by rw [hkinds]; exact hcontext) htop
      (by rw [expectedReplyBrand_svcSending]; exact hexpected) heq

/-- What the receiver finds once the message has been handed over. -/
theorem KState.Settled.handed {etl : Etl} (hs : s.Settled)
    (hhands : s.HandsTo (s.invoked regs) (s.invokedBrand regs) y) :
    wp (deliverFrom (.source etl) replyDepth (s.invoked regs)
      ((s.svcSending stack regs).refTo (.source etl) (s.targetReg regs)) (.context s.current))
      (fun _ u => (u.context y).save.brand = ((s.svcSending stack regs).registerAfter s.current
        (⟨regs 0⟩ : Descriptor).getTarget).brand ∧ u.WellFormed) (fun _ _ => True)
      (s.svcSending stack regs) := by
  have hwf := hs.wellFormed_svcSending stack regs
  have hfree := hs.free stack regs
  have hread : (s.svcSending stack regs).readRef ((s.svcSending stack regs).refTo (.source etl)
      (s.targetReg regs)) = s.invokedBrand regs := KState.readRef_svcSending
  have hwaits : (s.svcSending stack regs).HandsTo (s.invoked regs)
      ((s.svcSending stack regs).readRef (.stored (s.targetReg regs))) y := by
    refine Eq.subst (motive := fun b => (s.svcSending stack regs).HandsTo (s.invoked regs) b y) hread.symm ?_
    exact hhands.svcSending
  have hhanded : wp (deliverFrom (.source etl) (1 + 1) (s.invoked regs) (.stored (s.targetReg regs))
      (.context s.current)) _ (fun _ _ => True) (s.svcSending stack regs) :=
    deliverFrom_hands hwf hwaits fun u hu =>
      hu.sent hwf hfree.2.2 (isLive_targetReg s stack regs)
  have hwhole : wp (deliverFrom (.source etl) replyDepth (s.invoked regs) (.stored (s.targetReg regs))
      (.context s.current)) (fun _ u => Delivered (.source etl) (s.svcSending stack regs)
        (.context s.current) (s.invoked regs) (.stored (s.targetReg regs)) u) (fun _ _ => True)
      (s.svcSending stack regs) :=
    deliverFrom_delivered rfl hwf hfree
      (fun c hc => by cases hc; exact (current_of_objects objects_svcSending).symm) fun _ _ _ => trivial
  refine wp_mono (wp_and hhanded hwhole) (fun _ u hu => ?_) fun _ _ _ => trivial
  obtain ⟨⟨s₁, m, hregister, rfl⟩, hdelivered⟩ := hu
  refine ⟨?_, hdelivered.wellFormed hwf hfree⟩
  rw [brand_informed]
  exact congrArg Key.brand hregister

end

/-- The answer to the second Context's call. -/
def Sample.answer : UserRegisters :=
  registers (descriptor 0 7 0 true false false) 0#32 0#32 0#32 0#32 0#32

end BrittleKernel
