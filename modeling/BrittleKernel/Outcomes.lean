import BrittleKernel.Chains

/-!
# Outcomes of Kernel Entries

What a send, a reply, a system call and an interrupt come to.  Each relation lists the
possible outcomes of one operation of the kernel as state updates, so that a property of
steps is proved by going through the outcomes.
-/

namespace BrittleKernel

open Hoare KState

/-! ## Sends -/

namespace KState

/-- `block_in_send` of each kind of sender. -/
def queuedUp (s : KState) (sender : Sender) (b : Brand) (g : TableIndex) : KState :=
  match sender with
  | .context c =>
    if (s.context c).save.message.desc.getBlock then ((s.saveBrand c b).reseat c (.sending g)).pend
    else s.refused c .wouldBlock
  | .interrupt i => (s.saveIrqBrand i b).requeue i (some (.senders g))
  | .reply _ => s

/-- A caller's reply key is honoured, and the caller is woken. -/
def answered (s : KState) (c : TableIndex) (b : Brand) : KState :=
  (((s.advanceReply c).record (.answered c b)).reseat c .runnable).pend

end KState

/-- A sender's message is taken, and the sender goes on to receive. -/
def TakenIn (s : KState) (sender : Sender) (dst : KeysRef) (s' : KState) : Prop :=
  match sender with
  | .context c => Received (s.deposit dst (s.sentKeys c)) c s'
  | .interrupt _ | .reply _ => s' = s.deposit dst (s.outgoing sender).2

/-- A message is passed on through object `e`, a Gate or a Context that awaits a reply. -/
inductive Sends (s : KState) (sender : Sender) (e : TableIndex) (ref : BrandRef) : KState → Prop where
  /-- Nobody waits at the Gate. -/
  | queued : s.kind e = .gate → (s.readRef ref).isTop = true → s.peek (.receivers e) = none →
      Sends s sender e ref (s.queuedUp sender (s.readRef ref) e)
  /-- The first Context that waits at the Gate is woken. -/
  | woken {y : TableIndex} {s₁ : KState} : s.kind e = .gate → (s.readRef ref).isTop = true →
      s.peek (.receivers e) = some (.ctxItem y) →
      TakenIn (s.reseat y .runnable).pend sender (.bank y ((s.context y).save 7)) s₁ →
      Sends s sender e ref (s₁.informed y sender.ident (s.outgoing sender).1 (s₁.readRef ref))
  /-- The key is a reply key that has not been used yet. -/
  | answered {s₁ : KState} : s.kind e = .context → (s.readRef ref).isTop = true →
      s.readRef ref = (s.context e).expectedReplyBrand → s.Sits e .awaiting →
      TakenIn (s.answered e (s.readRef ref)) sender (.bank e ((s.context e).save 7)) s₁ →
      Sends s sender e ref (s₁.informed e sender.ident (s.outgoing sender).1 (s₁.readRef ref))

/-- A method's reply is sent to the key that came with the request. -/
inductive Replied (s : KState) (k : Key) (rs : ReplySender) : KState → Prop where
  | elided : s.kind (s.target k) = .null → Replied s k rs s
  | passed {s' : KState} : Sends s (.reply rs) (s.target k) (.value (s.resolve k).brand) s' →
      Replied s k rs s'
  /-- No kernel object understands a reply, and the exception it raises goes nowhere. -/
  | misunderstood {kind : Kind} : s.served (s.target k) (s.resolve k).brand = some kind →
      Replied s k rs (s.looked kind (s.target k) (s.resolve k).brand)

/-- A message is sent to object `e`: it is passed on, or taken in and served. -/
inductive Delivered (cfg : Config) (s : KState) (sender : Sender) (e : TableIndex) (ref : BrandRef) :
    KState → Prop where
  | passed {s' : KState} : Sends s sender e ref s' → Delivered cfg s sender e ref s'
  | served {kind : Kind} {s₁ s₂ s' : KState} {rs : ReplySender} :
      s.served e (s.readRef ref) = some kind → TakenIn s sender .frame s₁ →
      Effect cfg e (s₁.readRef ref) (s.outgoing sender).1 (s.outgoing sender).2
        (s₁.looked kind e (s₁.readRef ref)) rs s₂ →
      (kind = .null → s₂ = s₁ ∧ rs = badop (s.outgoing sender).1) →
      Replied s₂ ((s.outgoing sender).2 0) rs s' →
      Delivered cfg s sender e ref s'

section

variable {s s' : KState} {sender : Sender}

/-- Everything may be touched. -/
abbrev Sender.Free (s : KState) (sender : Sender) : Prop := sender.Ready (.any True) s

/-- Waking somebody who is blocked leaves a sender ready. -/
theorem Sender.Ready.rouse {y : TableIndex} {seat : Seat} (h : sender.Free s) (hy : s.Sits y seat)
    (hseat : seat ≠ .runnable) : sender.Free (s.reseat y .runnable).pend := by
  cases sender with
  | context c =>
    refine ⟨trivial, trivial, (sameSeats_pend _).sits (sits_reseat_of_ne ?_ _ h.2.2)⟩
    rintro rfl
    exact hseat (hy.unique h.2.2)
  | interrupt i => exact ⟨trivial, h.2.1, h.2.2.item, h.2.2.kind, h.2.2.gate⟩
  | reply rs => exact fun _ => trivial

theorem Sender.Ready.answered {c : TableIndex} {b : Brand} (h : sender.Free s)
    (hc : s.Sits c .awaiting) : sender.Free (s.answered c b) := by
  have hsame := (s.sameSeats_advanceReply c).trans (sameSeats_record _ (.answered c b))
  refine Sender.Ready.rouse (s := (s.advanceReply c).record (.answered c b)) ?_ (hsame.sits hc) (by simp)
  cases sender with
  | context x => exact ⟨trivial, trivial, hsame.sits h.2.2⟩
  | interrupt i => exact ⟨trivial, h.2.1, hsame.queued h.2.2⟩
  | reply rs => exact fun _ => trivial

theorem TakenIn.acts {dst : KeysRef} (h : TakenIn s sender dst s') (hs : s.WellFormed)
    (hready : sender.Free s) : Acts (.any True) s s' := by
  have hdeposit : ∀ ks, Acts (.any True) s (s.deposit dst ks) := fun ks =>
    .single (.deposit dst ks (by cases dst <;> trivial) fun _ => trivial)
  cases sender with
  | context c =>
    exact (hdeposit _).trans (Received.acts h ((hdeposit _).wellFormed hs)
      ((sameSeats_deposit _ _ _).sits hready.2.2))
  | interrupt i | reply rs => exact h ▸ hdeposit _

theorem onDelivery_takenIn (hs : s.WellFormed) (hready : sender.Free s) {dst : KeysRef}
    (hdst : ∀ c map, sender = .context c → dst ≠ .bank c map) :
    wp (sender.onDelivery dst) (fun r s' => r = s.outgoing sender ∧ TakenIn s sender dst s') never s := by
  cases sender with
  | context c =>
    simp only [Sender.onDelivery]
    exact contextOnDelivery_received (deliverToBounded_receives _) hs hready.2.2
      (Nat.lt_succ_self _) fun map => hdst c map rfl
  | interrupt i =>
    simp only [Sender.onDelivery, wp_interruptOnDelivery]
    exact ⟨rfl, rfl⟩
  | reply rs =>
    simp only [Sender.onDelivery, wp_replyOnDelivery]
    exact ⟨rfl, rfl⟩

theorem outgoing_reseat (y : TableIndex) (seat : Seat) :
    (s.reseat y seat).pend.outgoing sender = s.outgoing sender := by
  cases sender with
  | context c => simp only [outgoing, save_reseat, sentKeys_reseat]
  | interrupt i | reply rs => rfl

/-- What a sender sends depends on its own body and the generations. -/
theorem outgoing_congr {t : KState} (hcontext : ∀ c, sender = .context c → t.context c = s.context c)
    (hinterrupt : t.interrupt = s.interrupt) (hgeneration : t.generation = s.generation) :
    t.outgoing sender = s.outgoing sender := by
  cases sender with
  | context c =>
    simp only [outgoing, hcontext c rfl, sentKeys_congr (hcontext c rfl) hgeneration]
  | interrupt i => simp only [outgoing, hinterrupt, filled, nullKey, hgeneration]
  | reply rs => rfl

theorem outgoing_answered {c : TableIndex} {b : Brand} (hne : sender ≠ .context c) :
    (s.answered c b).outgoing sender = s.outgoing sender := by
  refine outgoing_congr (fun x hx => ?_) rfl rfl
  have hxc : x ≠ c := by
    rintro rfl
    exact hne hx
  simp [KState.answered, advanceReply, reseat, pend, hxc]

/-- Waking a receiver and handing it the message. -/
theorem completeBlockedReceive_informed {t : KState} {c : TableIndex}
    (hrun : ∀ {Q : PUnit → KState → Prop} {E : Panic → KState → Prop},
      wp (Context.makeRunnable c) Q E t ↔ Q ⟨⟩ s)
    (hs : s.WellFormed) (hready : sender.Free s) (hne : sender ≠ .context c) (ref : BrandRef) :
    wp (Context.completeBlockedReceive c ref sender)
      (fun _ s' => ∃ s₁, TakenIn s sender (.bank c ((s.context c).save 7)) s₁ ∧
        s' = s₁.informed c sender.ident (s.outgoing sender).1 (s₁.readRef ref)) never t := by
  simp only [Context.completeBlockedReceive, wp_bind, hrun, wp_get]
  refine wp_conseq (onDelivery_takenIn hs hready
    (by rintro _ _ rfl ⟨⟩; exact hne rfl)) fun sent s₁ hsent => ?_
  obtain ⟨hm, h₁⟩ := hsent
  obtain ⟨m, ks⟩ := sent
  obtain rfl : m = (s.outgoing sender).1 := congrArg Prod.fst hm
  have hbrand : (s₁.updateContext c fun b => { b with save := b.save.setMessage (s.outgoing sender).1 }).readRef
      ref = s₁.readRef ref := by
    cases ref with
    | value b => rfl
    | stored loc => rw [readRef, keyAt_updateContext rfl rfl, readRef]
  simp only [wp_modify, wp_readRef, hbrand]
  exact ⟨s₁, h₁, by simp [informed, updateContext]⟩

/-- Sending through a transparent Gate key. -/
theorem gateSend_sends (hs : s.WellFormed) {g : TableIndex} (hkind : s.kind g = .gate)
    (hready : sender.Free s) (hcurrent : ∀ c, sender = .context c → c = s.current) {ref : BrandRef}
    (htop : (s.readRef ref).isTop = true) :
    wp (do
      match ← listTake (.receivers g) with
      | some partner => Context.completeBlockedReceive partner.owner ref sender
      | none => sender.blockInSend (s.readRef ref) (.senders g))
      (fun _ s' => Sends s sender g ref s') never s := by
  rw [wp_bind, wp_listTake]
  cases hpeek : s.peek (.receivers g) with
  | some r =>
    -- A receiver is waiting.
    obtain ⟨p, hr⟩ := exists_mem_of_peek hpeek
    obtain ⟨y, rfl, hy⟩ := hs.mem_receivers hr
    have hact : Act (.any True) s (s.reseat y .runnable).pend := .rouse y g _ trivial trivial hy rfl
    have hne : sender ≠ .context y := by
      rintro rfl
      cases hready.2.2.unique hy
    have hready₁ := hready.rouse hy (by simp)
    refine wp_conseq (completeBlockedReceive_informed (wp_makeRunnable_receiver hs hy)
      (hact.wellFormed hs) hready₁ hne ref) fun _ s' hdelivered => ?_
    obtain ⟨s₁, h₁, rfl⟩ := hdelivered
    rw [outgoing_reseat]
    rw [save_reseat] at h₁
    exact .woken hkind htop hpeek h₁
  | none =>
    have hqueued : ∀ {s'}, s' = s.queuedUp sender (s.readRef ref) g → Sends s sender g ref s' := by
      rintro _ rfl
      exact .queued hkind htop hpeek
    cases sender with
    | context c =>
      obtain rfl := hcurrent c rfl
      simp only [Sender.blockInSend]
      by_cases hblock : (s.context s.current).save.message.desc.getBlock = true
      · rw [wp_blockInSend hs hready.2.2 rfl hblock]
        exact hqueued (by simp [queuedUp, hblock])
      · simp only [Context.blockInSend, wp_bind, wp_get, panicUnless, decide_true, if_true, wp_pure,
          hblock]
        exact (wp_completeReceiveExc _).mpr (hqueued (by simp [queuedUp, hblock, refused]))
    | interrupt i =>
      simp only [Sender.blockInSend, wp_bind, wp_modify]
      exact (wp_insertIrqItem hs hready.2.2).mpr (hqueued rfl)
    | reply rs => exact hqueued rfl

/-- Sending through a reply key that is still expected. -/
theorem contextReply_sends (hs : s.WellFormed) {c : TableIndex} {ref : BrandRef}
    (hkind : s.kind c = .context)
    (hexpected : s.readRef ref = (s.context c).expectedReplyBrand)
    (htop : (s.readRef ref).isTop = true) (hready : sender.Free s) {E : Panic → KState → Prop}
    (hE : ∀ s', E .notAwaitingReply s') :
    wp (do
      Context.advanceReplyBrand c
      let s₁ ← get
      panicUnless (s₁.context c).isAwaitingReply .notAwaitingReply
      set (s₁.record (.answered c (s.readRef ref)))
      Context.completeBlockedReceive c ref sender) (fun _ s' => Sends s sender c ref s') E s := by
  have hsame := s.sameSeats_advanceReply c
  have hadvance : ∀ {Q : PUnit → KState → Prop},
      wp (Context.advanceReplyBrand c) Q E s ↔ Q ⟨⟩ (s.advanceReply c) := Iff.rfl
  simp only [wp_bind, hadvance, wp_get, panicUnless, wp_ite, wp_pure, wp_throw, wp_set]
  refine ⟨fun hawaiting => ?_, fun _ => hE _⟩
  have hc₁ := (isAwaitingReply_iff (hs.of_sameSeats hsame) c).mp hawaiting
  have hsits : s.Sits c .awaiting := by
    obtain ⟨seat, hseat⟩ := hs.context c
    obtain rfl := (hsame.sits hseat).unique hc₁
    exact hseat
  have hsame₂ := hsame.trans (sameSeats_record _ (.answered c (s.readRef ref)))
  have hact : Act (.any True) s (s.answered c (s.readRef ref)) :=
    Act.answer c (s.readRef ref) trivial hsits hexpected htop trivial
  have hne : sender ≠ .context c := by
    rintro rfl
    cases hsits.unique hready.2.2
  have hready₁ := hready.answered (b := s.readRef ref) hsits
  refine wp_conseq (completeBlockedReceive_informed
    (wp_makeRunnable_loose (hs.of_sameSeats hsame₂) (hsame₂.sits hsits) rfl rfl)
    (hact.wellFormed hs) hready₁ hne ref) fun _ s' hdelivered => ?_
  obtain ⟨s₁, h₁, rfl⟩ := hdelivered
  have hsave : ((s.answered c (s.readRef ref)).context c).save = (s.context c).save := by
    rw [KState.answered, save_reseat]
    simp [advanceReply]
  have hanswered : (((s.advanceReply c).record (.answered c (s.readRef ref))).reseat c .runnable).pend =
      s.answered c (s.readRef ref) := rfl
  rw [hanswered, hsave] at h₁
  rw [hanswered, outgoing_answered hne]
  exact .answered hkind htop hexpected hsits h₁

/-! ## Deliveries -/

theorem Sends.acts {e : TableIndex} {ref : BrandRef} (h : Sends s sender e ref s') (hs : s.WellFormed)
    (hready : sender.Free s) : Acts (.any True) s s' := by
  cases h with
  | queued hkind =>
    cases sender with
    | context c =>
      simp only [queuedUp]
      split
      · exact .single (.blockInSend c e _ trivial trivial trivial hready.2.2 hkind)
      · exact acts_refused _ _ _
    | interrupt i =>
      exact .single (.blockIrq i e _ trivial trivial hready.2.2 hready.2.1 hkind)
    | reply rs => exact .refl
  | @woken y s₁ hkind _ hpeek htaken =>
    obtain ⟨p, hr⟩ := exists_mem_of_peek hpeek
    obtain ⟨x, hx, hy⟩ := hs.mem_receivers hr
    obtain rfl : y = x := by injection hx
    have hact : Act (.any True) s (s.reseat y .runnable).pend := .rouse y e _ trivial trivial hy rfl
    exact (Relation.ReflTransGen.single hact).trans ((htaken.acts (hact.wellFormed hs)
      (hready.rouse hy (by simp))).trans (acts_informed _ _ _ _ _))
  | answered _ htop hexpected hsits htaken =>
    have hact : Act (.any True) s (s.answered e (s.readRef ref)) :=
      Act.answer e (s.readRef ref) trivial hsits hexpected htop trivial
    exact (Relation.ReflTransGen.single hact).trans ((htaken.acts (hact.wellFormed hs)
      (hready.answered hsits)).trans (acts_informed _ _ _ _ _))

theorem Replied.acts {k : Key} {rs : ReplySender} (h : Replied s k rs s') (hs : s.WellFormed) :
    Acts (.any True) s s' := by
  cases h with
  | elided => exact .refl
  | passed h => exact h.acts hs fun _ => trivial
  | misunderstood =>
    unfold looked
    split
    · exact .single (.note _ trivial)
    · exact .refl

variable {cfg : Config} {E : Panic → KState → Prop}

/-- `deliver_from` of any object, with a reply depth to spare for what its method does. -/
theorem deliverFrom_cases {depth : Nat} {e : TableIndex} {ref : BrandRef} (hs : s.WellFormed)
    (hready : sender.Free s) (hcurrent : ∀ c, sender = .context c → c = s.current)
    (hE : ∀ s', E .notAwaitingReply s') {R : KState → Prop}
    (hpassed : ∀ s', Sends s sender e ref s' → R s')
    (hserved : ∀ kind s₁, s.served e (s.readRef ref) = some kind → TakenIn s sender .frame s₁ →
      wp (Object.serve cfg e (s₁.readRef ref) (s.outgoing sender).1 (s.outgoing sender).2 kind)
        (fun rs s₂ => wp (scopedReply cfg (deliverFrom cfg depth) ((s.outgoing sender).2 0) rs)
          (fun _ s' => R s') E s₂) E s₁) :
    wp (deliverFrom cfg (depth + 1) e ref sender) (fun _ s' => R s') E s := by
  have htake : ∀ (kind : Kind) (method : Message → Keys → K ReplySender),
      (∀ s₁, TakenIn s sender .frame s₁ →
        wp (method (s.outgoing sender).1 (s.outgoing sender).2)
          (fun rs s₂ => wp (scopedReply cfg (deliverFrom cfg depth) ((s.outgoing sender).2 0) rs)
            (fun _ s' => R s') E s₂) E s₁) →
      wp (serveThenReply cfg (deliverFrom cfg depth) sender method) (fun _ s' => R s') E s := by
    intro kind method hmethod
    refine wp_seq (onDelivery_takenIn hs hready (by simp)) fun r s₁ ⟨hr, h₁⟩ => ?_
    subst hr
    exact (wp_bind _ _).mpr (hmethod s₁ h₁)
  simp only [deliverFrom, wp_bind, wp_get]
  split
  next hkind => exact htake .null _ fun s₁ => hserved .null s₁ (by simp [served, hkind])
  next hkind => exact htake .slot _ fun s₁ => hserved .slot s₁ (by simp [served, hkind])
  next hkind => exact htake .objectTable _ fun s₁ => hserved .objectTable s₁ (by simp [served, hkind])
  next hkind =>
    refine htake .memory _ fun s₁ h₁ => ?_
    simp only [wp_bind, wp_readRef]
    simpa [Object.serve] using hserved .memory s₁ (by simp [served, hkind]) h₁
  next hkind =>
    simp only [Context.deliverFrom, wp_bind, wp_readRef, wp_ite, wp_get]
    refine ⟨fun htop => ⟨fun hother => ?_, fun hexpected => ?_⟩, fun hservice => ?_⟩
    · exact htake .null _ fun s₁ => hserved .null s₁ (by simp [served, hkind, htop, hother])
    · have hreply := wp_mono (contextReply_sends hs hkind (by simpa using hexpected) htop hready hE)
        (fun _ s' h => hpassed s' h) fun _ _ h => h
      simpa only [wp_bind, wp_get] using hreply
    · exact htake .context _ fun s₁ => hserved .context s₁ (by simp [served, hkind, hservice])
  next hkind =>
    simp only [Gate.deliverFrom, wp_bind, wp_readRef, wp_ite]
    refine ⟨fun htop => ?_, fun hservice => ?_⟩
    · have hsend := wp_conseq (E := E) (gateSend_sends hs hkind hready hcurrent htop)
        fun _ s' h => hpassed s' h
      exact (wp_bind _ _).mp hsend
    · exact htake .gate _ fun s₁ => hserved .gate s₁ (by simp [served, hkind, hservice])
  next hkind => exact htake .interrupt _ fun s₁ => hserved .interrupt s₁ (by simp [served, hkind])

/-- The object behind an entry's current kind serves its own kind, or refuses. -/
theorem served_kind {e : TableIndex} {b : Brand} {kind : Kind} (h : s.served e b = some kind) :
    kind = .null ∨ kind = s.kind e := by
  unfold served at h
  split at h
  · split_ifs at h
    exact .inr (by simp_all)
  · split_ifs at h
    · exact .inl (Option.some.inj h).symm
    · exact .inr (by simp_all)
  · exact .inr (Option.some.inj h).symm

/-- `~ScopedReplySender`. -/
theorem scopedReply_replied (hcfg : cfg.eagerRevocation = false) (hs : s.WellFormed) {depth : Nat}
    {k : Key} {rs : ReplySender} (hplain : rs.Plain) (hE : ∀ s', E .notAwaitingReply s') :
    wp (scopedReply cfg (deliverFrom cfg (depth + 1)) k rs) (fun _ s' => Replied s k rs s') E s := by
  simp only [scopedReply, hcfg, wp_bind, wp_get, localKeyGet, wp_pure, wp_ite, Bool.false_eq_true,
    if_false]
  refine ⟨fun hnull => .elided hnull, fun _ => ?_⟩
  refine deliverFrom_cases hs (show (Sender.reply rs).Free s from fun _ => trivial) (by simp) hE
    (fun _ h => .passed h) fun kind s₁ hserved h₁ => ?_
  -- No method has the reply's selector, and the refusal has no key to go to.
  obtain rfl : s₁ = s := h₁
  rw [wp_serve_reply (m := (s₁.outgoing (.reply rs)).1) hplain.selector]
  have hrefused : ∀ {s₂ : KState}, s₂.kind 0 = .null → Replied s₁ k rs s₂ →
      wp (scopedReply cfg (deliverFrom cfg depth) ((s₁.outgoing (.reply rs)).2 0)
        (badop (s₁.outgoing (.reply rs)).1)) (fun _ s' => Replied s₁ k rs s') E s₂ := by
    intro s₂ hnull h₂
    have hkey : (s₁.outgoing (.reply rs)).2 0 = {} := hplain.key
    have htarget : s₂.target {} = 0 := by simp [target, resolve, isLive, nullKey, filled]
    simp only [scopedReply, hcfg, wp_bind, wp_get, localKeyGet, wp_pure, wp_ite, hkey, htarget,
      Bool.false_eq_true, if_false]
    exact ⟨fun _ => h₂, fun h => absurd hnull h⟩
  have hlooked : Replied s₁ k rs (s₁.looked kind (s₁.target k) (s₁.resolve k).brand) :=
    .misunderstood hserved
  unfold looked at hlooked
  split_ifs with hmemory
  · rw [if_pos hmemory] at hlooked
    exact hrefused hs.null hlooked
  · rw [if_neg hmemory] at hlooked
    exact hrefused hs.null hlooked

theorem deliverFrom_delivered (hcfg : cfg.eagerRevocation = false) (hs : s.WellFormed)
    {e : TableIndex} {ref : BrandRef} (hready : sender.Free s)
    (hcurrent : ∀ c, sender = .context c → c = s.current) (hE : ∀ p s', p.isServed → E p s') :
    wp (deliverFrom cfg replyDepth e ref sender) (fun _ s' => Delivered cfg s sender e ref s') E s := by
  have hawaiting : ∀ s', E .notAwaitingReply s' := fun s' => hE _ s' (by simp [Panic.isServed])
  refine deliverFrom_cases hs hready hcurrent hawaiting (fun _ h => .passed h)
    fun kind s₁ hserved h₁ => ?_
  have hacts := h₁.acts hs hready
  have hs₁ := Acts.wellFormed hacts hs
  have hkind := served_kind hserved
  rw [← kind_of_objects (Acts.objects hacts)] at hkind
  have hrefused : wp (Object.serve cfg e (s₁.readRef ref) (s.outgoing sender).1 (s.outgoing sender).2
      kind) (fun rs s₂ => kind = .null → s₂ = s₁ ∧ rs = badop (s.outgoing sender).1)
      (fun _ _ => True) s₁ := by
    rcases eq_or_ne kind .null with rfl | hne
    · exact fun _ => ⟨rfl, rfl⟩
    · exact wp_mono (serve_effect hcfg hs₁ hkind) (fun _ _ _ h => absurd h hne) fun _ _ _ => trivial
  refine wp_mono (wp_and (serve_effect hcfg hs₁ hkind) hrefused) (fun rs s₂ hafter => ?_)
    fun p s' hfault => hE p s' hfault.1.isServed
  obtain ⟨heffect, hnull⟩ := hafter
  have hs₂ := heffect.wellFormed (hs₁.of_sameSeats (sameSeats_looked _ _ _ _))
  exact wp_mono (scopedReply_replied hcfg hs₂ heffect.plain hawaiting)
    (fun _ s' h => .served hserved h₁ heffect hnull h) fun _ _ h => h

/-- `Key::deliver_from` on a stored key. -/
theorem keyDeliverFrom_delivered (hcfg : cfg.eagerRevocation = false) (hs : s.WellFormed)
    {ident : TableIndex} (loc : KeyLoc) (hready : sender.Free (s.sending ident loc))
    (hcurrent : ∀ c, sender = .context c → c = s.current) (hE : ∀ p s', p.isServed → E p s') :
    wp (keyDeliverFrom cfg loc ident sender)
      (fun _ s' => Delivered cfg (s.sending ident loc) sender (s.target (s.keyAt loc))
        ((s.sending ident loc).refTo cfg loc) s') E s := by
  have hbrand : ∀ {Q : BrandRef → KState → Prop} {t : KState},
      wp (brandRef cfg loc) Q E t ↔ Q (t.refTo cfg loc) t := by
    intro Q t
    cases h : cfg.brandByReference <;> simp [brandRef, refTo, h]
  simp only [keyDeliverFrom, wp_bind, wp_keyGet, wp_modify, hbrand]
  exact deliverFrom_delivered hcfg (hs.of_sameSeats (sameSeats_sending s ident loc)) hready
    (fun c h => (hcurrent c h).trans (current_of_objects (objects_sending s ident loc)).symm) hE

end

/-! ## Steps -/

/-- The key register that a system call receives from. -/
def KState.sourceReg (s : KState) (regs : UserRegisters) : KeyLoc :=
  .keyReg s.current (⟨regs 0⟩ : Descriptor).getSource

/-- What an IPC system call comes to before the switch. -/
inductive SvcOutcome (cfg : Config) (s : KState) (stack : Word) (regs : UserRegisters) :
    KState → Prop where
  | idle : (⟨regs 0⟩ : Descriptor).getSendEnabled = false →
      (⟨regs 0⟩ : Descriptor).getReceiveEnabled = false →
      SvcOutcome cfg s stack regs (s.ready stack regs)
  | received {s' : KState} : (⟨regs 0⟩ : Descriptor).getSendEnabled = false →
      (⟨regs 0⟩ : Descriptor).getReceiveEnabled = true →
      Receives ((s.ready stack regs).dropped (s.sourceReg regs)) s.current
        ((s.ready stack regs).keyAt (s.sourceReg regs)) s' →
      SvcOutcome cfg s stack regs s'
  | sent {s' : KState} : (⟨regs 0⟩ : Descriptor).getSendEnabled = true →
      Delivered cfg (s.svcSending stack regs) (.context s.current)
        ((s.ready stack regs).target ((s.ready stack regs).keyAt (s.targetReg regs)))
        ((s.svcSending stack regs).refTo cfg (s.targetReg regs)) s' →
      SvcOutcome cfg s stack regs s'

/-- The deferred switch. -/
inductive Switches (s : KState) : KState → Prop where
  | stays : s.switchPending = false → Switches s s
  | elects (c : TableIndex) : s.switchPending = true → s.peek .runnable = some (.ctxItem c) →
      Switches s (({ s with switchPending := false } : KState).switchTo c)

/-- `do_deferred_switch_from_irq`. -/
def KState.deferToPendSv (s : KState) : KState :=
  if s.switchPending then { s with switchPending := false, pendSv := true } else s

/-- What a step comes to. -/
inductive Stepped (cfg : Config) (s : KState) : Action → KState → Prop where
  | ipc {stack : Word} {regs : UserRegisters} {s₁ s' : KState} :
      (⟨regs 0⟩ : Descriptor).getSysnum = 0 → SvcOutcome cfg s stack regs s₁ → Switches s₁ s' →
      Stepped cfg s (.svc stack regs) s'
  | copyKey {stack : Word} {regs : UserRegisters} : (⟨regs 0⟩ : Descriptor).getSysnum = 1 →
      (⟨regs 0⟩ : Descriptor).getTarget ≠ 0 →
      Stepped cfg s (.svc stack regs) (s.setKeyAt (s.targetReg regs) (s.keyAt (s.sourceReg regs)))
  | noCall {stack : Word} {regs : UserRegisters} : (⟨regs 0⟩ : Descriptor).getSysnum ≠ 0 →
      Stepped cfg s (.svc stack regs) s
  /-- The line's Interrupt is still queued. -/
  | stillQueued {n : BitVec 9} {i : TableIndex} : n.toNat ≥ 15 →
      s.irqEnabled (lineOf n.toNat) = true → s.irqTable (n.toNat - 15) = some i →
      (s.interrupt i).senderItem.container.isSome = true →
      Stepped cfg s (.irq n) (s.masked i)
  | irq {n : BitVec 9} {i : TableIndex} {s₁ : KState} : n.toNat ≥ 15 →
      s.irqEnabled (lineOf n.toNat) = true → s.irqTable (n.toNat - 15) = some i →
      s.Queued i none →
      Delivered cfg ((s.masked i).sending i (.target i)) (.interrupt i)
        (s.target (s.interrupt i).target)
        (((s.masked i).sending i (.target i)).refTo cfg (.target i)) s₁ →
      Stepped cfg s (.irq n) s₁.deferToPendSv
  | noIrq {n : BitVec 9} : Stepped cfg s (.irq n) s
  | pendSv {stack : Word} {regs : UserRegisters} {c : TableIndex} : s.pendSv = true →
      s.peek .runnable = some (.ctxItem c) →
      Stepped cfg s (.pendSv stack regs)
        ((({ s with pendSv := false } : KState).entered stack regs).switchTo c)
  | noPendSv {stack : Word} {regs : UserRegisters} : s.pendSv = false →
      Stepped cfg s (.pendSv stack regs) s
  | store {a : Word} {v : Byte} : s.mpu.unprivWrites a = true →
      Stepped cfg s (.store a v) { s with ram := Function.update s.ram a v }
  | noStore {a : Word} {v : Byte} : Stepped cfg s (.store a v) s

section

variable {cfg : Config} {s : KState} {E : Panic → KState → Prop}

theorem switchNow_elects {F : KState → Prop} (hs : s.WellFormed)
    (hswitch : ∀ c, s.peek .runnable = some (.ctxItem c) → F (s.switchTo c))
    (hstuck : ∀ s', E .noRunnable s') : wp switchNow (fun _ s' => F s') E s := by
  simp only [switchNow, wp_bind, wp_get]
  cases h : s.peek .runnable with
  | none => exact hstuck _
  | some r =>
    obtain ⟨p, hr⟩ := exists_mem_of_peek h
    obtain ⟨c, rfl, -⟩ := hs.mem_runnable hr
    simp only [wp_bind, wp_set, wp_applyToMpu]
    exact hswitch c h

theorem doDeferredSwitch_switches (hs : s.WellFormed) (hstuck : ∀ s', E .noRunnable s') :
    wp doDeferredSwitch (fun _ s' => Switches s s') E s := by
  simp only [doDeferredSwitch, wp_bind, wp_get, wp_ite, wp_set, wp_pure]
  refine ⟨fun hpending => ?_, fun h => .stays (by simpa using h)⟩
  refine switchNow_elects (hs.of_sameSeats ⟨rfl, rfl, rfl, fun _ => .refl _, fun _ => .refl _⟩)
    (fun c hc => ?_) hstuck
  exact .elects c hpending hc

theorem keyAt_entered (stack : Word) (regs : UserRegisters) :
    (s.entered stack regs).keyAt = s.keyAt := keyAt_updateContext rfl rfl

/-- The IPC system call, from the state in which register 0 was checked. -/
theorem doIpc_outcome (hcfg : cfg.eagerRevocation = false) (hs : s.Settled) {stack : Word}
    {regs : UserRegisters} {F : KState → Prop} (hE : ∀ p s', p.isServed → E p s')
    (hdone : ∀ s₁, SvcOutcome cfg s stack regs s₁ → wp doDeferredSwitch (fun _ s' => F s') E s₁)
    (hsys : (⟨regs 0⟩ : Descriptor).getSysnum = 0) :
    wp (svcEntry cfg stack regs) (fun _ s' => F s') E s := by
  have hentered : (s.updateContext s.current fun b =>
      { b with save := fun i => if h : i.val < 8 then regs ⟨i.val, h⟩ else b.save i }).updateContext
        s.current (fun b => { b with save := Function.update b.save 9 stack }) =
      s.entered stack regs := by
    simp [updateContext, entered]
  have hnull : (s.ready stack regs).kind ((s.entered stack regs).target
      ((s.entered stack regs).keyAt (.keyReg s.current 0))) = .null := by
    rw [kind_of_objects (objects_ready s stack regs), keyAt_entered,
      target_of_objects (objects_entered s stack regs)]
    exact hs.null_register0
  have hready : (if (s.entered stack regs).isLive ((s.entered stack regs).keyAt
      (.keyReg s.current 0)) then s.entered stack regs
      else (s.entered stack regs).setKeyAt (.keyReg s.current 0) (s.entered stack regs).nullKey) =
      s.ready stack regs := rfl
  have hsame := s.sameSeats_ready stack regs
  have hwf := hs.wellFormed.of_sameSeats hsame
  have hsits := hsame.sits hs.running
  have hcurrent : (s.ready stack regs).current = s.current :=
    current_of_objects (objects_ready s stack regs)
  simp only [svcEntry, wp_bind, wp_get, hsys, if_true, saveUser, Context.doIpc, wp_modify, hentered,
    wp_keyGet, panicIf, wp_ite, wp_pure, wp_throw]
  rw [hready]
  refine ⟨fun h => absurd hnull (by simpa using h), fun _ => ⟨fun hsend => ?_, fun hsend =>
    ⟨fun hreceive => ?_, fun hreceive => ?_⟩⟩⟩
  · refine wp_mono (keyDeliverFrom_delivered hcfg hwf
      (s.targetReg regs) ⟨trivial, trivial, (sameSeats_sending _ _ _).sits hsits⟩
      (by rintro c ⟨⟩; exact hcurrent.symm) hE) (fun _ s₁ h₁ => hdone s₁ (.sent hsend h₁))
      fun _ _ h => h
  · have hdrop := objects_dropped (s.ready stack regs) (s.sourceReg regs)
    have hsame₂ := sameSeats_dropped (s.ready stack regs) (s.sourceReg regs)
    have hrun := deliverToBounded_receives (Nat.succ (KState.blockedSenders _))
      (k := (s.ready stack regs).keyAt (s.sourceReg regs)) (hwf.of_sameSeats hsame₂)
      (hsame₂.sits hsits) (Nat.lt_succ_self _)
    rw [target_of_objects hdrop, resolve_of_objects hdrop, ← keyAt_dropped] at hrun
    exact wp_conseq hrun fun _ s₁ h₁ => hdone s₁ (.received (by simpa using hsend) hreceive h₁)
  · exact hdone _ (.idle (by simpa using hsend) (by simpa using hreceive))

theorem Delivered.wellFormed {sender : Sender} {e : TableIndex} {ref : BrandRef} {s' : KState}
    (h : Delivered cfg s sender e ref s') (hs : s.WellFormed) (hready : sender.Free s) :
    s'.WellFormed := by
  cases h with
  | passed h => exact Acts.wellFormed (h.acts hs hready) hs
  | served _ h₁ heffect _ hreplied =>
    have hs₁ := Acts.wellFormed (h₁.acts hs hready) hs
    have hs₂ := heffect.wellFormed (hs₁.of_sameSeats (sameSeats_looked _ _ _ _))
    exact Acts.wellFormed (hreplied.acts hs₂) hs₂

theorem KState.Settled.free (hs : s.Settled) (stack : Word) (regs : UserRegisters) :
    (Sender.context s.current).Free (s.svcSending stack regs) :=
  ⟨trivial, trivial, (sameSeats_sending _ _ _).sits ((s.sameSeats_ready stack regs).sits hs.running)⟩

theorem KState.Settled.wellFormed_svcSending (hs : s.Settled) (stack : Word) (regs : UserRegisters) :
    (s.svcSending stack regs).WellFormed :=
  hs.wellFormed.of_sameSeats ((s.sameSeats_ready stack regs).trans (sameSeats_sending _ _ _))

theorem SvcOutcome.wellFormed {stack : Word} {regs : UserRegisters} {s' : KState}
    (h : SvcOutcome cfg s stack regs s') (hs : s.Settled) : s'.WellFormed := by
  have hsame := s.sameSeats_ready stack regs
  cases h with
  | idle => exact hs.wellFormed.of_sameSeats hsame
  | received _ _ h =>
    have hsame₂ := hsame.trans (sameSeats_dropped _ (s.sourceReg regs))
    have hwf := hs.wellFormed.of_sameSeats hsame₂
    exact Acts.wellFormed (h.acts hwf (hsame₂.sits hs.running)) hwf
  | sent _ h => exact h.wellFormed (hs.wellFormed_svcSending stack regs) (hs.free stack regs)

/-- The delivery of an Interrupt's message. -/
theorem trigger_outcome (hcfg : cfg.eagerRevocation = false) (hs : s.WellFormed) {i : TableIndex}
    (hkind : s.kind i = .interrupt) {F : KState → Prop} (hE : ∀ p s', p.isServed → E p s')
    (hqueued : (s.interrupt i).senderItem.container.isSome = true → F (s.masked i))
    (hdone : s.Queued i none → ∀ s₁,
      Delivered cfg ((s.masked i).sending i (.target i)) (.interrupt i)
        (s.target (s.interrupt i).target)
        (((s.masked i).sending i (.target i)).refTo cfg (.target i)) s₁ → F s₁) :
    wp (Interrupt.trigger cfg i) (fun _ s' => F s') E s := by
  have hsame := sameSeats_masked s i
  obtain ⟨q, hq⟩ := hs.interrupt i
  simp only [Interrupt.trigger, Interrupt.disableInterrupt, wp_bind, wp_modify, wp_get, wp_ite,
    wp_pure]
  refine ⟨hqueued, fun hidle => ?_⟩
  have hnone : q = none := by
    cases q with
    | none => rfl
    | some g =>
      refine absurd ?_ hidle
      show (s.interrupt i).senderItem.container.isSome = true
      rw [hq.item]
      rfl
  subst hnone
  have hsame' : SameSeats s ((s.masked i).sending i (.target i)) :=
    hsame.trans (sameSeats_sending _ _ _)
  change wp (keyDeliverFrom cfg (.target i) i (.interrupt i)) _ E (s.masked i)
  exact wp_mono (keyDeliverFrom_delivered hcfg (hs.of_sameSeats hsame)
    (.target i) ⟨trivial, (congrFun hsame'.kind i).trans hkind, hsame'.queued hq⟩ (by simp) hE)
    (fun _ s₁ h₁ => hdone hq s₁ h₁) fun _ _ h => h

/-- Every step of the kernel has one of the outcomes, or runs into one of a few checks. -/
theorem step_stepped (hcfg : cfg.eagerRevocation = false) (hs : s.Settled) (a : Action) :
    wp (step cfg a) (fun _ s' => Stepped cfg s a s') (fun p _ => p.isPossible) s := by
  simp only [step, wp_bind, wp_get]
  cases a with
  | svc stack regs =>
    by_cases hsys : (⟨regs 0⟩ : Descriptor).getSysnum = 0
    · refine doIpc_outcome hcfg hs (fun _ _ h => h.isPossible) (fun s₁ h₁ => ?_) hsys
      exact wp_mono (doDeferredSwitch_switches (h₁.wellFormed hs) (by simp [Panic.isPossible]))
        (fun _ s' h' => .ipc hsys h₁ h') fun _ _ h => h
    · simp only [svcEntry, wp_bind, wp_get, wp_ite, Context.doKeyOp, wp_modify, wp_pure]
      exact ⟨fun h => absurd h hsys, fun _ =>
        ⟨fun h => .copyKey h.1 h.2, fun _ => .noCall hsys⟩⟩
  | irq n =>
    simp only [wp_ite, wp_pure]
    refine ⟨fun hline => ?_, fun _ => .noIrq⟩
    obtain ⟨hn, henabled⟩ := hline
    refine irqRedirector_spec hn (fun _ p hp => hp.isServed.isPossible) (by simp [Panic.isPossible])
      fun i hi _ => ?_
    refine trigger_outcome hcfg hs.wellFormed (hs.irqTable _ i hi) (fun _ _ h => h.isPossible)
      (fun hqueued => ?_) fun hidle s₁ h₁ => ?_
    · have hpending : (s.masked i).switchPending = false := hs.noSwitch
      exact ⟨fun _ => .stillQueued hn henabled hi hqueued, fun h => by simp [hpending] at h⟩
    · have hstep : Stepped cfg s (.irq n) s₁.deferToPendSv := .irq hn henabled hi hidle h₁
      unfold deferToPendSv at hstep
      exact ⟨fun h => by simpa [h] using hstep, fun h => by simpa [h] using hstep⟩
  | pendSv stack regs =>
    simp only [wp_ite, wp_pure]
    refine ⟨fun hpended => ?_, fun h => .noPendSv (by simpa using h)⟩
    have hentered : (({ s with pendSv := false } : KState).updateContext s.current fun b =>
        { b with save := fun i => if h : i.val < 8 then regs ⟨i.val, h⟩ else b.save i }).updateContext
          s.current (fun b => { b with save := Function.update b.save 9 stack }) =
        ({ s with pendSv := false } : KState).entered stack regs := by
      simp [updateContext, entered]
    simp only [pendSvEntry, saveUser, wp_bind, wp_get, wp_modify, hentered]
    refine switchNow_elects (hs.wellFormed.of_sameSeats
      ((show SameSeats s ({ s with pendSv := false } : KState) from
        ⟨rfl, rfl, rfl, fun _ => .refl _, fun _ => .refl _⟩).trans (sameSeats_entered _ _ _)))
      (fun c hc => ?_) (by simp [Panic.isPossible])
    exact .pendSv hpended hc
  | store a v =>
    simp only [wp_ite, wp_pure, wp_set]
    exact ⟨fun h => .store h, fun _ => .noStore⟩

/-- A step from a reachable state has one of the outcomes. -/
theorem Reachable.stepped (hcfg : cfg.eagerRevocation = false) {app : AppInfo}
    (h : Reachable cfg app s) {a : Action} {s' : KState}
    (hstep : BrittleKernel.step cfg a s = .ok () s') : Stepped cfg s a s' :=
  wp_ok (a := ()) (Q := fun _ s' => Stepped cfg s a s') (step_stepped hcfg (h.settled hcfg) a) hstep

end

end BrittleKernel
