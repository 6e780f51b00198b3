import BrittleKernel.Ipc

/-!
# Sends and Replies

Sending a message is taking it in at its target, running a method there if the target is
a kernel object, and sending the reply.  The two rounds of message passing are acts; what
the method does is left to the invariant at hand.
-/

namespace BrittleKernel

open Hoare KState

/-! ## Outgoing messages -/

/-- The message and keys that a sender sends. -/
def KState.outgoing (s : KState) : Sender → Message × Keys
  | .context c => ((s.context c).save.message.sanitized, s.sentKeys c)
  | .interrupt i =>
    ({ desc := Descriptor.zero.withSelector 1#16, d0 := (s.interrupt i).identifier },
      ![s.filled i 0#64, s.nullKey, s.nullKey, s.nullKey])
  | .reply rs => (rs.message, rs.keys)

/-- A sender within the authority, in a state to send. -/
def Sender.Ready (A : Authority) (s : KState) : Sender → Prop
  | .context c => A.blocks ∧ A.obj c ∧ s.Sits c .runnable
  | .interrupt i => A.obj i ∧ s.kind i = .interrupt ∧ s.Queued i none
  | .reply rs => ∀ i, A.key s (rs.keys i)

/-- The brand behind a reference. -/
def KState.readRef (s : KState) : BrandRef → Brand
  | .value b => b
  | .stored loc => (s.keyAt loc).brand

/-- A reply as the methods write them: no method selector, and no reply key of its own. -/
structure ReplySender.Plain (rs : ReplySender) : Prop where
  selector : rs.message.desc.getSelector = 0#16
  key : rs.keys 0 = {}

/-- The method that an object of the given kind runs on a message. -/
def Object.serve (cfg : Config) (e : TableIndex) (brand : Brand) (m : Message) (k : Keys) :
    Kind → K ReplySender
  | .null | .slot => pure (badop m)
  | .objectTable => ObjectTable.serve cfg m k
  | .memory => do
    modify (·.record (.consulted e brand))
    Memory.serve cfg e brand m k
  | .context => Context.serve e m k
  | .gate => Gate.serve e m
  | .interrupt => Interrupt.serve e m k

section

variable {A : Authority} {I : KState → Prop} {s : KState}

theorem wp_readRef {Q : Brand → KState → Prop} {E : Panic → KState → Prop} (ref : BrandRef) :
    wp ref.read Q E s ↔ Q (s.readRef ref) s := by
  cases ref <;> simp [BrandRef.read, KState.readRef]

/-- Taking in a sender's message, at a destination that is not the sender itself. -/
theorem onDelivery_acts (G : Guarded A I) (hs : s.WellFormed) (hI : I s) {sender : Sender}
    (hready : sender.Ready A s) (dst : KeysRef) (hinto : A.into dst)
    (hdst : ∀ c map, sender = .context c → dst ≠ .bank c map) :
    wp (sender.onDelivery dst)
      (fun r s' => r = s.outgoing sender ∧ Acts A s s' ∧ ∀ i, A.key s' (r.2 i)) never s := by
  cases sender with
  | context c =>
    obtain ⟨hblocks, hc, hsits⟩ := hready
    simp only [Sender.onDelivery]
    exact contextOnDelivery_acts G (delivers_bounded G hblocks _) hs hI hc hsits (Nat.lt_succ_self _)
      dst hinto fun map => hdst c map rfl
  | interrupt i =>
    obtain ⟨hi, hkind, -⟩ := hready
    exact interruptOnDelivery_acts G hs hI hi hkind dst hinto
  | reply rs =>
    simp only [Sender.onDelivery, wp_replyOnDelivery]
    have hact := Act.deposit dst rs.keys hinto hready
    exact ⟨rfl, .single hact, fun i => G.stable hs hI hact (hready i)⟩

/-! ## Transparent keys -/

/-- Waking a receiver and handing it the message. -/
theorem completeBlockedReceive_acts (G : Guarded A I) {t : KState} {c : TableIndex}
    (hrun : ∀ {Q : PUnit → KState → Prop} {E : Panic → KState → Prop},
      wp (Context.makeRunnable c) Q E t ↔ Q ⟨⟩ s)
    (hs : s.WellFormed) (hI : I s) (hc : A.obj c) {sender : Sender}
    (hready : sender.Ready A s) (hne : sender ≠ .context c) (brand : BrandRef) :
    wp (Context.completeBlockedReceive c brand sender) (fun _ s' => Acts A s s') never t := by
  simp only [Context.completeBlockedReceive, wp_bind, hrun, wp_get]
  refine wp_conseq (onDelivery_acts G hs hI hready (.bank c _) hc
    (by rintro _ _ rfl ⟨⟩; exact hne rfl)) fun sent s₁ hsent => ?_
  obtain ⟨-, h₁, -⟩ := hsent
  simp only [wp_modify, wp_readRef]
  exact ((h₁.tail (.save c (·.setMessage sent.1) hc)).tail (.save c (·.setBrand _) hc)).tail
    (.note _ trivial)

/-- Sending through a transparent Gate key. -/
theorem gateSend_acts (G : Guarded A I) (hs : s.WellFormed) (hI : I s) {g : TableIndex}
    (hg : A.obj g) (hkind : s.kind g = .gate) {sender : Sender} (hready : sender.Ready A s)
    (hcurrent : ∀ c, sender = .context c → c = s.current) (brand : BrandRef) :
    wp (do
      match ← listTake (.receivers g) with
      | some partner => Context.completeBlockedReceive partner.owner brand sender
      | none => sender.blockInSend (s.readRef brand) (.senders g)) (fun _ s' => Acts A s s')
      never s := by
  rw [wp_bind, wp_listTake]
  cases hpeek : s.peek (.receivers g) with
  | some r =>
    -- A receiver is waiting: it is woken and takes the message.
    obtain ⟨p, hr⟩ := exists_mem_of_peek hpeek
    obtain ⟨x, rfl, hx⟩ := hs.mem_receivers hr
    have hact := Act.rouse x g _ (G.waiting hs hI hg hx rfl) hg hx rfl
    have hne : sender ≠ .context x := by
      rintro rfl
      cases hready.2.2.unique hx
    have hready₁ : sender.Ready A (s.reseat x .runnable).pend := by
      cases sender with
      | context c =>
        refine ⟨hready.1, hready.2.1, (sameSeats_pend _).sits (sits_reseat_of_ne ?_ _ hready.2.2)⟩
        rintro rfl
        exact hne rfl
      | interrupt i => exact ⟨hready.1, hready.2.1, hready.2.2.item, hready.2.2.kind, hready.2.2.gate⟩
      | reply rs => exact fun i => G.stable hs hI hact (hready i)
    refine wp_conseq (completeBlockedReceive_acts G (wp_makeRunnable_receiver hs hx)
      (hact.wellFormed hs) (G.act hs hI hact) (G.waiting hs hI hg hx rfl) hready₁ hne brand)
      fun _ s₁ h₁ => (Relation.ReflTransGen.single hact).trans h₁
  | none =>
    cases sender with
    | context c =>
      obtain rfl := hcurrent c rfl
      simp only [Sender.blockInSend]
      by_cases hblock : (s.context s.current).save.message.desc.getBlock = true
      · rw [wp_blockInSend hs hready.2.2 rfl hblock]
        exact .single (.blockInSend _ g _ hready.1 hready.2.1 hg hready.2.2 hkind)
      · simp only [Context.blockInSend, wp_bind, wp_get, panicUnless, decide_true, if_true, wp_pure,
          hblock]
        exact completeReceiveExc_acts hready.2.1 _
    | interrupt i =>
      obtain ⟨hi, hkind_i, hidle⟩ := hready
      simp only [Sender.blockInSend, wp_bind, wp_modify]
      exact (wp_insertIrqItem hs hidle).mpr (.single (.blockIrq i g _ hi hg hidle hkind_i hkind))
    | reply rs => exact .refl

/-- A Context awaits its reply exactly when the source's test says so. -/
theorem isAwaitingReply_iff (hs : s.WellFormed) (c : TableIndex) :
    (s.context c).isAwaitingReply = true ↔ s.Sits c .awaiting := by
  obtain ⟨seat, hseat⟩ := hs.context c
  have hstate := hseat.body.state
  have hctx := hseat.body.ctxItem
  constructor
  · intro h
    have : seat = .awaiting := by
      cases seat <;> simp_all [Context.isAwaitingReply, Seat.state, Seat.ctxList, Item.on]
    exact this ▸ hseat
  · intro h
    obtain rfl := hseat.unique h
    simp [Context.isAwaitingReply, hstate, hctx, Seat.state, Seat.ctxList]

/-- A throw of "context not awaiting reply" is allowed for, in case a key within the authority
would honour a reply that nobody awaits. -/
def Authority.Honest (A : Authority) (s : KState) (E : Panic → KState → Prop) : Prop :=
  ∀ {c b}, A.key s (s.filled c b) → b = (s.context c).expectedReplyBrand → b.isTop = true →
    s.kind c = .context → ¬s.Sits c .awaiting → E .notAwaitingReply (s.advanceReply c)

/-- Sending through a reply key. -/
theorem contextReply_acts (G : Guarded A I) (hs : s.WellFormed) (hI : I s) {c : TableIndex}
    (hc : A.obj c) {brand : BrandRef} (hkey : A.key s (s.filled c (s.readRef brand)))
    (hexpected : s.readRef brand = (s.context c).expectedReplyBrand)
    (htop : (s.readRef brand).isTop = true) {sender : Sender} (hready : sender.Ready A s)
    {E : Panic → KState → Prop}
    (hE : ¬s.Sits c .awaiting → E .notAwaitingReply (s.advanceReply c)) :
    wp (do
      Context.advanceReplyBrand c
      let s₁ ← get
      panicUnless (s₁.context c).isAwaitingReply .notAwaitingReply
      set (s₁.record (.answered c (s.readRef brand)))
      Context.completeBlockedReceive c brand sender) (fun _ s' => Acts A s s') E s := by
  have hsame := s.sameSeats_advanceReply c
  have hadvance : ∀ {Q : PUnit → KState → Prop},
      wp (Context.advanceReplyBrand c) Q E s ↔ Q ⟨⟩ (s.advanceReply c) := Iff.rfl
  simp only [wp_bind, hadvance, wp_get, panicUnless, wp_ite, wp_pure, wp_throw, wp_set]
  refine ⟨fun hawaiting => ?_, fun hawaiting => hE fun h => hawaiting ?_⟩
  · have hc₁ := (isAwaitingReply_iff (hs.of_sameSeats hsame) c).mp hawaiting
    have hsits : s.Sits c .awaiting := by
      obtain ⟨seat, hseat⟩ := hs.context c
      obtain rfl := (hsame.sits hseat).unique hc₁
      exact hseat
    have hsame₂ := hsame.trans (sameSeats_record _ (.answered c (s.readRef brand)))
    have hact := Act.answer c (s.readRef brand) hc hsits hexpected htop hkey
    have hready₁ : sender.Ready A
        (((s.advanceReply c).record (.answered c (s.readRef brand))).reseat c .runnable).pend := by
      cases sender with
      | context x =>
        refine ⟨hready.1, hready.2.1,
          (sameSeats_pend _).sits (sits_reseat_of_ne ?_ _ (hsame₂.sits hready.2.2))⟩
        rintro rfl
        cases hsits.unique hready.2.2
      | interrupt i => exact ⟨hready.1, hready.2.1, hready.2.2.item, hready.2.2.kind, hready.2.2.gate⟩
      | reply rs => exact fun i => G.stable hs hI hact (hready i)
    have hne : sender ≠ .context c := by
      rintro rfl
      cases hsits.unique hready.2.2
    refine wp_conseq (completeBlockedReceive_acts G
      (wp_makeRunnable_loose (hs.of_sameSeats hsame₂) (hsame₂.sits hsits) rfl rfl)
      (hact.wellFormed hs) (G.act hs hI hact) hc hready₁ hne brand) fun _ s₁ h₁ =>
        (Relation.ReflTransGen.single hact).trans h₁
  · exact (isAwaitingReply_iff (hs.of_sameSeats hsame) c).mpr (hsame.sits h)

/-! ## Dispatch -/

/-- The kind of object whose methods serve a message that comes with this brand; `none` if
the message is passed on to a Context. -/
def KState.served (s : KState) (e : TableIndex) (b : Brand) : Option Kind :=
  match s.kind e with
  | .gate => if b.isTop then none else some .gate
  | .context =>
    if b.isTop then
      if b = (s.context e).expectedReplyBrand then none else some .null
    else some .context
  | kind => some kind

/-- Sending a message through a key: it is passed on, or taken in and served. -/
theorem deliverFrom_spec (G : Guarded A I) (hs : s.WellFormed) (hI : I s) {cfg : Config}
    {depth : Nat} {e : TableIndex} (brand : BrandRef) (sender : Sender)
    (hready : sender.Ready A s) (hcurrent : ∀ c, sender = .context c → c = s.current)
    (he : s.kind e = .null ∨ A.obj e ∧ A.key s (s.filled e (s.readRef brand)))
    {R : KState → Prop} {E : Panic → KState → Prop} (hdone : ∀ s', Acts A s s' → R s')
    (hserve : ∀ s₁ kind, s.served e (s.readRef brand) = some kind → Acts A s s₁ →
      (∀ i, A.key s₁ ((s.outgoing sender).2 i)) →
      wp (Object.serve cfg e (s₁.readRef brand) (s.outgoing sender).1 (s.outgoing sender).2 kind)
        (fun rs s₂ => wp (scopedReply cfg (deliverFrom cfg depth) ((s.outgoing sender).2 0) rs)
          (fun _ s' => R s') E s₂) E s₁)
    (hE : A.Honest s E) :
    wp (deliverFrom cfg (depth + 1) e brand sender) (fun _ s' => R s') E s := by
  have htake : ∀ method : Message → Keys → K ReplySender,
      (∀ s₁, Acts A s s₁ → (∀ i, A.key s₁ ((s.outgoing sender).2 i)) →
        wp (method (s.outgoing sender).1 (s.outgoing sender).2)
          (fun rs s₂ => wp (scopedReply cfg (deliverFrom cfg depth) ((s.outgoing sender).2 0) rs)
            (fun _ s' => R s') E s₂) E s₁) →
      wp (serveThenReply cfg (deliverFrom cfg depth) sender method) (fun _ s' => R s') E s := by
    intro method hmethod
    refine wp_seq (onDelivery_acts G hs hI hready .frame trivial (by simp))
      fun r s₁ ⟨hr, h₁, hkeys⟩ => ?_
    subst hr
    exact (wp_bind _ _).mpr (hmethod s₁ h₁ hkeys)
  simp only [deliverFrom, wp_bind, wp_get]
  split
  next hkind => exact htake _ fun s₁ => hserve s₁ .null (by simp [served, hkind])
  next hkind => exact htake _ fun s₁ => hserve s₁ .slot (by simp [served, hkind])
  next hkind => exact htake _ fun s₁ => hserve s₁ .objectTable (by simp [served, hkind])
  next hkind =>
    refine htake _ fun s₁ h₁ hkeys => ?_
    simp only [wp_bind, wp_readRef]
    simpa [Object.serve] using hserve s₁ .memory (by simp [served, hkind]) h₁ hkeys
  next hkind =>
    obtain ⟨hobj, hkey⟩ := he.resolve_left (by simp [hkind])
    simp only [Context.deliverFrom, wp_bind, wp_readRef, wp_ite, wp_get]
    refine ⟨fun htop => ⟨fun hother => ?_, fun hexpected => ?_⟩, fun hservice => ?_⟩
    · exact htake _ fun s₁ => hserve s₁ .null (by simp [served, hkind, htop, hother])
    · have hexpected' : s.readRef brand = (s.context e).expectedReplyBrand := by
        simpa using hexpected
      have hreply := wp_mono (contextReply_acts G hs hI hobj hkey hexpected' htop hready
        (hE hkey hexpected' htop hkind)) (fun _ s' h => hdone s' h) fun _ _ h => h
      simpa only [wp_bind, wp_get] using hreply
    · exact htake _ fun s₁ => hserve s₁ .context (by simp [served, hkind, hservice])
  next hkind =>
    obtain ⟨hobj, -⟩ := he.resolve_left (by simp [hkind])
    simp only [Gate.deliverFrom, wp_bind, wp_readRef, wp_ite]
    refine ⟨fun htop => ?_, fun hservice => ?_⟩
    · have hsend := wp_conseq (E := E) (gateSend_acts G hs hI hobj hkind hready hcurrent brand)
        fun _ s' h => hdone s' h
      exact (wp_bind _ _).mp hsend
    · exact htake _ fun s₁ => hserve s₁ .gate (by simp [served, hkind, hservice])
  next hkind => exact htake _ fun s₁ => hserve s₁ .interrupt (by simp [served, hkind])

/-! ## Replies -/

/-- A live key is the key that would be made for its entry now. -/
theorem exists_filled_of_isLive {k : Key} (h : s.isLive k = true) :
    ∃ e, k = s.filled e k.brand := by
  obtain ⟨b, g, p⟩ := k
  cases p with
  | none => simp [isLive] at h
  | some e => exact ⟨e, by simpa [isLive, filled] using h⟩

/-- The object behind a key, with the key as `Key::get` leaves it. -/
theorem target_cases (s : KState) (k : Key) :
    s.target k = 0 ∧ s.isLive k = false ∧ s.resolve k = s.nullKey ∨
      k = s.filled (s.target k) k.brand ∧ s.isLive k = true ∧ s.resolve k = k := by
  cases hlive : s.isLive k with
  | false => exact .inl ⟨by simp [target, resolve, hlive, nullKey, filled], rfl, by simp [resolve, hlive]⟩
  | true =>
    obtain ⟨e, he⟩ := exists_filled_of_isLive hlive
    have htarget : s.target k = e := by
      rw [target, resolve, if_pos hlive, he]
      rfl
    exact .inr ⟨by rw [htarget]; exact he, rfl, by simp [resolve, hlive]⟩

/-- No method has selector 0, so a reply that reaches a kernel object is not understood. -/
theorem wp_serve_reply {cfg : Config} {e : TableIndex} {b : Brand} {m : Message} {k : Keys}
    {kind : Kind} (hm : m.desc.getSelector = 0#16) {Q : ReplySender → KState → Prop}
    {E : Panic → KState → Prop} :
    wp (Object.serve cfg e b m k kind) Q E s ↔
      Q (badop m) (if kind = .memory then s.record (.consulted e b) else s) := by
  cases kind <;>
    simp [Object.serve, ObjectTable.serve, Memory.serve, Context.serve, Gate.serve,
      Interrupt.serve, hm, ObjectTableMethod.ofSelector, MemoryMethod.ofSelector,
      ContextMethod.ofSelector, GateMethod.ofSelector, InterruptMethod.ofSelector, badop]

/-- Sending the reply of a method. -/
theorem scopedReply_acts (G : Confined A I) (hs : s.WellFormed) (hI : I s) {cfg : Config}
    (hcfg : cfg.eagerRevocation = false) {depth : Nat} {k : Key} {rs : ReplySender}
    (hk : A.key s k) (hplain : rs.Plain) (hkeys : ∀ i, A.key s (rs.keys i))
    {E : Panic → KState → Prop} (hE : A.Honest s E) :
    wp (scopedReply cfg (deliverFrom cfg (depth + 1)) k rs) (fun _ s' => Acts A s s') E s := by
  simp only [scopedReply, hcfg, wp_bind, wp_get, localKeyGet, wp_pure, wp_ite, Bool.false_eq_true,
    if_false]
  refine ⟨fun _ => .refl, fun _ => ?_⟩
  have hobj : s.kind (s.target k) = .null ∨
      A.obj (s.target k) ∧ A.key s (s.filled (s.target k) (s.resolve k).brand) := by
    rcases target_cases s k with ⟨htarget, -, -⟩ | ⟨hfilled, -, hresolve⟩
    · exact .inl (htarget ▸ hs.null)
    · rw [hresolve, ← hfilled]
      exact (G.object hs hI hk).imp_right fun h => ⟨h, hk⟩
  refine deliverFrom_spec G.toGuarded hs hI (.value _) (.reply rs) hkeys (by simp) hobj
    (fun _ h => h) (fun s₁ kind _ h₁ _ => ?_) hE
  rw [wp_serve_reply (m := (s.outgoing (.reply rs)).1) hplain.selector]
  have hrefused : ∀ s₂, Acts A s s₂ →
      wp (scopedReply cfg (deliverFrom cfg depth) ((s.outgoing (.reply rs)).2 0)
        (badop (s.outgoing (.reply rs)).1)) (fun _ s' => Acts A s s') E s₂ := by
    intro s₂ h₂
    have hkey : (s.outgoing (.reply rs)).2 0 = {} := hplain.key
    have htarget : s₂.target {} = 0 := by simp [target, resolve, isLive, nullKey, filled]
    simp only [scopedReply, hcfg, wp_bind, wp_get, localKeyGet, wp_pure, wp_ite, hkey, htarget,
      Bool.false_eq_true, if_false]
    exact ⟨fun _ => h₂, fun h => absurd (Acts.wellFormed h₂ hs).null h⟩
  split_ifs
  · exact hrefused _ (h₁.tail (.note _ trivial))
  · exact hrefused _ h₁

end

end BrittleKernel
