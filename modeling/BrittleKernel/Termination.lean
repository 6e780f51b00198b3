import BrittleKernel.GateRendezvous

/-!
# Every Chain of Deliveries Ends

A delivery that sets off another one has taken a queued sender off its Gate before, and
queues none.  A reply of a kernel object sets off no further reply.  Both bounds of the
model, on the length of chains and on the nesting of replies, are therefore never reached.
-/

namespace BrittleKernel

open Hoare KState

/-! ## Chains -/

/-- `object->deliver_to(brand, ctx)` in terms of the `deliver_to` calls it makes in turn. -/
def deliverToBody (deliverTo : DeliverTo) : DeliverTo := fun object brand ctx => do
  match (← get).kind object with
  | .gate => Gate.deliverTo deliverTo object brand ctx
  | .context => Context.deliverTo object brand ctx
  | _ => Object.deliverTo ctx

/-- The state `t` in which a delivery started in `s` sets off another one, to the sender `x`:
`x` was queued and is not any more, and nobody else has moved. -/
structure Nested (s t : KState) (x : TableIndex) : Prop where
  wellFormed : t.WellFormed
  runnable : t.Sits x .runnable
  waited : ∃ g, s.QueuedAt x g
  queued : ∀ y g, t.QueuedAt y g ↔ s.QueuedAt y g ∧ y ≠ x
  fewer : t.blockedSenders < s.blockedSenders

section

variable {s : KState} {c : TableIndex}

theorem deliverTo_succ (fuel : Nat) : deliverTo (fuel + 1) = deliverToBody (deliverTo fuel) := rfl

theorem deliverToBounded_eq (o : TableIndex) (b : Brand) :
    deliverToBounded o b c s = deliverTo (s.blockedSenders + 1) o b c s :=
  eq_of_wp fun h => by
    simp only [deliverToBounded, wp_bind, wp_get]
    exact h

theorem KState.SameSeats.nested {t t' : KState} {x : TableIndex} (h : Nested s t x) (hsame : SameSeats t t') :
    Nested s t' x where
  wellFormed := h.wellFormed.of_sameSeats hsame
  runnable := hsame.sits h.runnable
  waited := h.waited
  queued y g := hsame.queuedAt_iff.trans (h.queued y g)
  fewer := blockedSenders_of_sameSeats hsame ▸ h.fewer

/-- Taking a queued Context off its Gate. -/
theorem nested_rouse (hs : s.WellFormed) {x g : TableIndex} (hx : s.Sits x (.sending g)) :
    Nested s (s.reseat x .runnable).pend x where
  wellFormed := (Act.rouse (A := .any True) x g _ trivial trivial hx rfl).wellFormed hs
  runnable := (sameSeats_pend _).sits
    (s.sits_reseat x _ (fun _ => hx.kind (by simp)) (by simp [Seat.gate]))
  waited := ⟨g, .inl hx⟩
  queued y g' := by
    rw [(sameSeats_pend _).queuedAt_iff, queuedAt_reseat_iff (hx.kind (by simp)) (by simp [Seat.gate])]
    split
    next hy => simp [hy]
    next hy => simp [hy]
  fewer := blockedSenders_rouse hs hx

/-- `deliver_to` calls itself in nested states only. -/
theorem deliverToBody_congr (hs : s.WellFormed) (hc : s.Sits c .runnable) {D D' : DeliverTo}
    (hD : ∀ t x o b, Nested s t x → D o b x t = D' o b x t) (o : TableIndex) (b : Brand) :
    deliverToBody D o b c s = deliverToBody D' o b c s := by
  refine eq_of_wp fun {Q E} => ?_
  simp only [deliverToBody, wp_bind, wp_get]
  cases s.kind o with
  | gate =>
    simp only [Gate.deliverTo, wp_ite, wp_bind, wp_listTake]
    refine And.imp_right fun hgate htop => ?_
    have hgate := hgate htop
    cases hpeek : s.peek (.senders o) with
    | none => simpa only [hpeek] using hgate
    | some r =>
      rw [hpeek] at hgate
      obtain ⟨p, hr⟩ := exists_mem_of_peek hpeek
      rcases hs.mem_senders hr with ⟨x, rfl, hx⟩ | ⟨i, rfl, -⟩
      · -- The sender's receive phase is the only nested call.
        have hne : x ≠ c := by
          rintro rfl
          cases hx.unique hc
        have hnested := nested_rouse hs hx
        simp only [Context.completeReceive, onBlockedDelivery, wp_bind, wp_get,
          wp_makeRunnable_sender hs hx] at hgate ⊢
        rw [wp_contextOnDelivery (by rintro _ ⟨⟩; exact hne rfl)] at hgate ⊢
        obtain ⟨hcall, hreceive, hsilent⟩ := hgate
        have harrived := SameSeats.nested hnested
          (sameSeats_deposit _ (.bank c (((s.unlink (.senderItem x)).context c).save 7))
            ((s.reseat x .runnable).pend.sentKeys x))
        refine ⟨fun h => ?_, fun h h' => ?_, hsilent⟩
        · exact (wp_congr (hD _ _ _ _ harrived)).mpr (hcall h)
        · have hphase := hreceive h h'
          simp only [receivePhase, wp_bind, wp_keyGet, wp_get] at hphase ⊢
          refine (wp_congr (hD _ _ _ _ (SameSeats.nested harrived ?_))).mpr hphase
          exact sameSeats_dropped _ (.keyReg x _)
      · exact hgate
  | _ => exact id

/-- The bound on the chain makes no difference as long as it exceeds the number of queued
senders. -/
theorem deliverTo_stable (fuel fuel' : Nat) (hs : s.WellFormed) (hc : s.Sits c .runnable)
    (hfuel : s.blockedSenders < fuel) (hfuel' : s.blockedSenders < fuel') (o : TableIndex) (b : Brand) :
    deliverTo fuel o b c s = deliverTo fuel' o b c s := by
  induction fuel generalizing s c fuel' o b with
  | zero => exact absurd hfuel (Nat.not_lt_zero _)
  | succ fuel ih =>
    cases fuel' with
    | zero => exact absurd hfuel' (Nat.not_lt_zero _)
    | succ fuel' =>
      rw [deliverTo_succ, deliverTo_succ]
      refine deliverToBody_congr hs hc (fun t x o b hnested => ?_) o b
      have hfewer := hnested.fewer
      exact ih fuel' hnested.wellFormed hnested.runnable (by omega) (by omega) o b

end

/-- Chains that start in this state end. -/
structure KState.ChainsEnd (s : KState) : Prop where
  /-- The result depends on nested calls only, where one sender less is queued. -/
  nested : ∀ {D D' : DeliverTo} {c : TableIndex} (o : TableIndex) (b : Brand), s.Sits c .runnable →
    (∀ t x o' b', Nested s t x → D o' b' x t = D' o' b' x t) →
    deliverToBody D o b c s = deliverToBody D' o b c s
  /-- The source's equation holds without the bound. -/
  equation : ∀ {c : TableIndex} (o : TableIndex) (b : Brand), s.Sits c .runnable →
    deliverToBounded o b c s = deliverToBody deliverToBounded o b c s
  /-- The chain returns; it takes off their Gates the senders whose messages it delivers, each
  once, and queues nobody. -/
  returns : ∀ {c : TableIndex} (o : TableIndex) (b : Brand), s.Sits c .runnable →
    ∃ t evs, deliverToBounded o b c s = .ok ⟨⟩ t ∧ Passing s t evs
  bound : ∀ {c : TableIndex} (fuel : Nat) (o : TableIndex) (b : Brand), s.Sits c .runnable →
    s.blockedSenders < fuel → deliverTo fuel o b c s = deliverToBounded o b c s

theorem KState.WellFormed.chainsEnd {s : KState} (hs : s.WellFormed) : s.ChainsEnd where
  nested o b hc hD := deliverToBody_congr hs hc hD o b
  bound fuel o b hc hfuel := by
    rw [deliverToBounded_eq]
    exact deliverTo_stable fuel _ hs hc hfuel (Nat.lt_succ_self _) o b
  equation {c} o b hc := by
    rw [deliverToBounded_eq, deliverTo_succ]
    refine deliverToBody_congr hs hc (fun t x o b hnested => ?_) o b
    rw [deliverToBounded_eq]
    exact deliverTo_stable _ _ hnested.wellFormed hnested.runnable hnested.fewer
      (Nat.lt_succ_self _) o b
  returns {c} o b hc := by
    have htarget : s.target (s.filled o b) = o := by simp [target, resolve, isLive, filled]
    have hresolve : s.resolve (s.filled o b) = s.filled o b := by simp [resolve, isLive, filled]
    have hrun := deliverToBounded_receives _ (k := s.filled o b) hs hc (Nat.lt_succ_self _)
    rw [htarget, hresolve] at hrun
    obtain ⟨⟨⟩, t, hreturn, hreceives⟩ := exists_ok hrun
    obtain ⟨evs, hevs⟩ := hreceives.passing hs hc
    exact ⟨t, evs, hreturn, hevs⟩

/-! ## Replies -/

/-- Replies that are sent in this state end. -/
structure KState.RepliesEnd (cfg : Config) (s : KState) : Prop where
  /-- Every method's reply has no selector and no reply key. -/
  plain : ∀ {e : TableIndex} {kind : Kind} (b : Brand) (m : Message) (k : Keys),
    kind = .null ∨ kind = s.kind e →
    wp (Object.serve cfg e b m k kind) (fun rs _ => rs.Plain) (fun _ _ => True) s
  /-- A reply to a kernel object runs no method there and provokes no reply. -/
  served : ∀ (depth : Nat) {k : Key} {rs : ReplySender} {kind : Kind}, rs.Plain →
    s.served (s.target k) (s.resolve k).brand = some kind →
    scopedReply cfg (deliverFrom cfg (depth + 1)) k rs s =
      .ok ⟨⟩ (s.looked kind (s.target k) (s.resolve k).brand)
  /-- A message and the one reply it may provoke are all the nesting there is. -/
  depth : ∀ (depth : Nat) (e : TableIndex) (ref : BrandRef) {sender : Sender}, sender.Free s →
    (∀ c, sender = .context c → c = s.current) →
    deliverFrom cfg (replyDepth + depth) e ref sender s = deliverFrom cfg replyDepth e ref sender s

section

variable {cfg : Config} {s : KState}

/-- A refusal has no key to go to. -/
theorem scopedReply_badop (hcfg : cfg.eagerRevocation = false) (hs : s.kind 0 = .null)
    (D : DeliverFrom) (m : Message) : scopedReply cfg D {} (badop m) s = .ok ⟨⟩ s := by
  have htarget : s.target {} = 0 := by simp [target, resolve, isLive, nullKey, filled]
  refine eq_of_wp (y := (pure () : K Unit)) fun {Q E} h => ?_
  simp only [scopedReply, hcfg, wp_bind, wp_get, localKeyGet, wp_pure, wp_ite, htarget,
    Bool.false_eq_true, if_false]
  exact ⟨fun _ => h, fun hnull => absurd hs hnull⟩

/-- A message that is passed on is not affected by the bound on replies. -/
theorem deliverFrom_passed {e : TableIndex} {ref : BrandRef} {sender : Sender}
    (h : s.served e (s.readRef ref) = none) (depth : Nat) :
    deliverFrom cfg (depth + 1) e ref sender s = deliverFrom cfg 1 e ref sender s := by
  refine eq_of_wp fun {Q E} => ?_
  simp only [deliverFrom, wp_bind, wp_get]
  unfold served at h
  split at h
  next hkind =>
    have htop : (s.readRef ref).isTop = true := by
      by_contra hnot
      simp [hnot] at h
    simp [hkind, Gate.deliverFrom, wp_readRef, htop]
  next hkind =>
    split_ifs at h with htop hexpected
    have htop' : (s.context e).expectedReplyBrand.isTop = true := hexpected ▸ htop
    simp [hkind, Context.deliverFrom, wp_readRef, htop', hexpected]
  next => simp at h

/-- A message that a kernel object takes in. -/
theorem deliverFrom_served {e : TableIndex} {ref : BrandRef} {sender : Sender} {kind : Kind}
    (h : s.served e (s.readRef ref) = some kind) (depth : Nat) :
    deliverFrom cfg (depth + 1) e ref sender s = (do
      let (m, k) ← sender.onDelivery .frame
      let b ← ref.read
      let rs ← Object.serve cfg e b m k kind
      scopedReply cfg (deliverFrom cfg depth) (k 0) rs : K Unit) s := by
  refine eq_of_wp fun {Q E} => ?_
  simp only [deliverFrom, wp_bind, wp_get, wp_readRef]
  unfold served at h
  split at h
  next hkind =>
    split_ifs at h with htop
    obtain rfl := Option.some.inj h
    simp [hkind, Gate.deliverFrom, wp_readRef, htop, serveThenReply, Object.serve]
  next hkind =>
    split_ifs at h with htop hexpected
    · obtain rfl := Option.some.inj h
      simp [hkind, Context.deliverFrom, wp_readRef, htop, hexpected, Object.deliverFrom, serveThenReply,
        Object.serve]
    · obtain rfl := Option.some.inj h
      simp [hkind, Context.deliverFrom, wp_readRef, htop, serveThenReply, Object.serve]
  next hgate hcontext =>
    obtain rfl := Option.some.inj h
    cases hkind : s.kind e with
    | gate => exact absurd hkind hgate
    | context => exact absurd hkind hcontext
    | null | slot => simp [Object.deliverFrom, serveThenReply, Object.serve]
    | objectTable | interrupt => simp [serveThenReply, Object.serve]
    | memory => simp [Memory.deliverFrom, serveThenReply, Object.serve, wp_readRef]

/-- A reply that reaches a kernel object is not understood, and the exception it raises goes
nowhere. -/
theorem scopedReply_served (hcfg : cfg.eagerRevocation = false) (hs : s.kind 0 = .null) (depth : Nat)
    {k : Key} {rs : ReplySender} {kind : Kind} (hplain : rs.Plain)
    (h : s.served (s.target k) (s.resolve k).brand = some kind) :
    scopedReply cfg (deliverFrom cfg (depth + 1)) k rs s =
      .ok ⟨⟩ (s.looked kind (s.target k) (s.resolve k).brand) := by
  have hlooked : (s.looked kind (s.target k) (s.resolve k).brand).kind 0 = .null := by
    unfold looked
    split
    · exact hs
    · exact hs
  have helided : s.kind (s.target k) = .null → s.looked kind (s.target k) (s.resolve k).brand = s := by
    intro hnull
    obtain rfl : kind = .null := by simpa [served, hnull] using h.symm
    simp [looked]
  have hdone : wp (deliverFrom cfg (depth + 1) (s.target k) (.value (s.resolve k).brand) (.reply rs))
      (fun _ s' => s' = s.looked kind (s.target k) (s.resolve k).brand) never s := by
    have hserved : s.served (s.target k) (s.readRef (.value (s.resolve k).brand)) = some kind := h
    rw [wp_congr (deliverFrom_served hserved depth)]
    simp only [wp_bind, Sender.onDelivery, wp_replyOnDelivery, wp_readRef,
      wp_serve_reply hplain.selector, hplain.key]
    change wp _ _ never (s.looked kind (s.target k) (s.resolve k).brand)
    rw [wp_of_eq (scopedReply_badop hcfg hlooked (deliverFrom cfg depth) rs.message)]
  have hreply : wp (scopedReply cfg (deliverFrom cfg (depth + 1)) k rs)
      (fun _ s' => s' = s.looked kind (s.target k) (s.resolve k).brand) never s := by
    simp only [scopedReply, hcfg, wp_bind, wp_get, localKeyGet, wp_pure, wp_ite, Bool.false_eq_true,
      if_false]
    exact ⟨fun hnull => (helided hnull).symm, fun _ => hdone⟩
  obtain ⟨⟨⟩, t, hreturn, rfl⟩ := exists_ok hreply
  exact hreturn

theorem scopedReply_depth (hcfg : cfg.eagerRevocation = false) (hs : s.kind 0 = .null) (depth : Nat)
    {k : Key} {rs : ReplySender} (hplain : rs.Plain) :
    scopedReply cfg (deliverFrom cfg (depth + 1)) k rs s = scopedReply cfg (deliverFrom cfg 1) k rs s := by
  cases h : s.served (s.target k) (s.resolve k).brand with
  | some kind => rw [scopedReply_served hcfg hs depth hplain h, scopedReply_served hcfg hs 0 hplain h]
  | none =>
    have hpassed : s.served (s.target k) (s.readRef (.value (s.resolve k).brand)) = none := h
    refine eq_of_wp fun {Q E} => ?_
    simp only [scopedReply, hcfg, wp_bind, wp_get, localKeyGet, wp_pure, wp_ite, Bool.false_eq_true,
      if_false]
    exact And.imp_right fun hpass hnull =>
      (wp_congr (deliverFrom_passed hpassed depth)).mpr (hpass hnull)

theorem KState.WellFormed.repliesEnd (hcfg : cfg.eagerRevocation = false) (hs : s.WellFormed) :
    s.RepliesEnd cfg where
  plain b m k hkind :=
    wp_mono (serve_effect hcfg hs hkind) (fun _ _ h => h.plain) fun _ _ _ => trivial
  served depth _ _ _ hplain h := scopedReply_served hcfg hs.null depth hplain h
  depth depth e ref {sender} hready hcurrent := by
    cases h : s.served e (s.readRef ref) with
    | none =>
      rw [replyDepth, Nat.add_comm, deliverFrom_passed h, deliverFrom_passed h 1]
    | some kind =>
      rw [replyDepth, Nat.add_comm, deliverFrom_served h, deliverFrom_served h 1]
      refine bind_congr_of_wp (E := fun _ _ => True) (wp_conseq
        (onDelivery_takenIn hs hready (by simp)) fun _ _ h => h) ?_
      rintro ⟨m, k⟩ s₁ ⟨-, h₁⟩
      have hacts := h₁.acts hs hready
      have hs₁ := Acts.wellFormed hacts hs
      have hkind := served_kind h
      rw [← kind_of_objects (Acts.objects hacts)] at hkind
      refine bind_congr_of_wp (Q := fun _ s₂ => s₂ = s₁) (E := fun _ _ => True)
        ((wp_readRef ref).mpr rfl) ?_
      rintro b _ rfl
      refine bind_congr_of_wp (serve_effect hcfg hs₁ hkind) fun rs s₂ heffect => ?_
      have hs₂ := heffect.wellFormed (hs₁.of_sameSeats (sameSeats_looked _ _ _ _))
      exact scopedReply_depth hcfg hs₂.null depth heffect.plain

end

/-! ## Kernel entries -/

end BrittleKernel
