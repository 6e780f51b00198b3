import BrittleKernel.Outcomes

/-!
# Who Waits to Send

A Context or an Interrupt that could not deliver its message at once is queued at a Gate.
A chain of deliveries takes queued senders off their Gates, each of them once, and adds
none; the history tells which ones.
-/

namespace BrittleKernel

open Hoare KState

namespace KState

/-- A Context or an Interrupt is queued as a sender at a Gate. -/
def QueuedAt (s : KState) (x g : TableIndex) : Prop := s.Sits x (.sending g) ∨ s.Queued x (some g)

variable {s s' : KState} {x y g : TableIndex}

theorem SameSeats.sits_iff (h : SameSeats s s') {seat : Seat} : s'.Sits x seat ↔ s.Sits x seat :=
  ⟨h.symm.sits, h.sits⟩

theorem SameSeats.queued_iff (h : SameSeats s s') {q : Option TableIndex} :
    s'.Queued x q ↔ s.Queued x q :=
  ⟨h.symm.queued, h.queued⟩

theorem SameSeats.queuedAt_iff (h : SameSeats s s') : s'.QueuedAt x g ↔ s.QueuedAt x g :=
  or_congr h.sits_iff h.queued_iff

/-- A queued sender is not runnable. -/
theorem Sits.not_queuedAt (h : s.Sits x .runnable) : ¬s.QueuedAt x g := by
  rintro (hsits | hqueued)
  · cases h.unique hsits
  · have hkind := hqueued.kind (by simp)
    simp [h.kind_of_runnable] at hkind

theorem Queued.not_queuedAt (h : s.Queued x none) (hkind : s.kind x = .interrupt) :
    ¬s.QueuedAt x g := by
  rintro (hsits | hqueued)
  · simp [hsits.kind (by simp)] at hkind
  · cases h.unique hqueued

/-- Nobody waits at two Gates. -/
theorem QueuedAt.unique {g' : TableIndex} (h : s.QueuedAt x g) (h' : s.QueuedAt x g') : g = g' := by
  rcases h with h | h <;> rcases h' with h' | h'
  · have hseat := h.unique h'
    cases hseat
    rfl
  · simpa [h.kind (by simp)] using h'.kind (by simp)
  · simpa [h'.kind (by simp)] using h.kind (by simp)
  · exact Option.some.inj (h.unique h')

/-- The Gate's list of senders says who is queued. -/
theorem WellFormed.queuedAt_iff (h : s.WellFormed) :
    s.QueuedAt x g ↔ ∃ r p, r ∈ s.queues (.senders g) p ∧ r.owner = x := by
  constructor
  · rintro (hx | hx)
    · refine ⟨.senderItem x, (s.context x).priority, ?_, rfl⟩
      rw [h.threaded.mem_iff, item, hx.body.senderItem]
      rfl
    · refine ⟨.irqItem x, (s.interrupt x).priority, ?_, rfl⟩
      rw [h.threaded.mem_iff, item, hx.item]
      rfl
  · rintro ⟨r, p, hr, rfl⟩
    rcases h.mem_senders hr with ⟨c, rfl, hc⟩ | ⟨i, rfl, hi⟩
    · exact .inl hc
    · exact .inr hi

/-- An empty list shows it at its head. -/
theorem WellFormed.queue_eq_nil (h : s.WellFormed) {l : ListId} (hpeek : s.peek l = none)
    (p : Priority) : s.queues l p = [] := by
  have hhead : ∀ p < nPriorities, s.queues l p = [] := by
    intro p hp
    have hnone := List.findSome?_eq_none_iff.mp hpeek p (List.mem_range.mpr hp)
    exact List.head?_eq_none_iff.mp hnone
  by_contra hne
  obtain ⟨r, hr⟩ := List.exists_mem_of_ne_nil _ hne
  refine hne (hhead p ?_)
  -- An item is in the sublist of its owner's priority.
  have hring := (h.threaded.mem_iff l p r).mp hr
  cases r with
  | ctxItem c =>
    obtain ⟨seat, hseat⟩ := h.context c
    rw [item, hseat.body.ctxItem] at hring
    cases hlist : seat.ctxList with
    | none => simp [hlist] at hring
    | some l' =>
      rw [hlist] at hring
      have hp : (s.context c).priority = p := congrArg Prod.snd (Option.some.inj hring)
      exact hp ▸ h.contextPriority c
  | senderItem c =>
    obtain ⟨seat, hseat⟩ := h.context c
    rw [item, hseat.body.senderItem] at hring
    cases hlist : seat.senderList with
    | none => simp [hlist] at hring
    | some l' =>
      rw [hlist] at hring
      have hp : (s.context c).priority = p := congrArg Prod.snd (Option.some.inj hring)
      exact hp ▸ h.contextPriority c
  | irqItem i =>
    obtain ⟨q, hq⟩ := h.interrupt i
    rw [item, hq.item] at hring
    cases q with
    | none => simp at hring
    | some g =>
      have hp : (s.interrupt i).priority = p := congrArg Prod.snd (Option.some.inj hring)
      exact hp ▸ h.interruptPriority i

theorem WellFormed.not_queuedAt (h : s.WellFormed) (hpeek : s.peek (.senders g) = none) :
    ¬s.QueuedAt x g := by
  rw [h.queuedAt_iff]
  rintro ⟨r, p, hr, -⟩
  simp [h.queue_eq_nil hpeek] at hr

theorem WellFormed.not_receiving (h : s.WellFormed) (hpeek : s.peek (.receivers g) = none) :
    ¬s.Sits x (.receiving g) := by
  intro hx
  have hr : .ctxItem x ∈ s.queues (.receivers g) (s.context x).priority := by
    rw [h.threaded.mem_iff, item, hx.body.ctxItem]
    rfl
  simp [h.queue_eq_nil hpeek] at hr

/-! ## Moves -/

theorem sits_reseat_iff (hkind : s.kind x = .context) {seat seat' : Seat}
    (hgate : ∀ g, seat.gate = some g → s.kind g = .gate) :
    (s.reseat x seat).Sits y seat' ↔ if y = x then seat' = seat else s.Sits y seat' := by
  split
  next hy =>
    subst hy
    have hself := s.sits_reseat y seat (fun _ => hkind) hgate
    exact ⟨fun h => h.unique hself, fun h => h ▸ hself⟩
  next hy =>
    refine ⟨fun h => ⟨?_, h.kind, h.gate⟩, sits_reseat_of_ne hy seat⟩
    simpa [reseat, hy] using h.body

theorem queued_reseat_iff {seat : Seat} {q : Option TableIndex} :
    (s.reseat x seat).Queued y q ↔ s.Queued y q :=
  ⟨fun h => ⟨h.item, h.kind, h.gate⟩, fun h => ⟨h.item, h.kind, h.gate⟩⟩

theorem queuedAt_reseat_iff (hkind : s.kind x = .context) {seat : Seat}
    (hgate : ∀ g, seat.gate = some g → s.kind g = .gate) :
    (s.reseat x seat).QueuedAt y g ↔ if y = x then seat = .sending g else s.QueuedAt y g := by
  rw [QueuedAt, sits_reseat_iff hkind hgate, queued_reseat_iff]
  split
  next hy =>
    subst hy
    refine ⟨fun h => ?_, fun h => .inl h.symm⟩
    rcases h with h | h
    · exact h.symm
    · simpa [hkind] using h.kind (by simp)
  next => rfl

theorem queuedAt_requeue_iff (hkind : s.kind x = .interrupt) {q : Option TableIndex}
    (hgate : ∀ g, q = some g → s.kind g = .gate) :
    (s.requeue x (q.map .senders)).QueuedAt y g ↔ if y = x then q = some g else s.QueuedAt y g := by
  have hsits : (s.requeue x (q.map .senders)).Sits y (.sending g) ↔ s.Sits y (.sending g) :=
    ⟨fun h => ⟨h.body, h.kind, h.gate⟩, fun h => ⟨h.body, h.kind, h.gate⟩⟩
  rw [QueuedAt, hsits]
  split
  next hy =>
    subst hy
    have hself : (s.requeue y (q.map .senders)).Queued y q :=
      ⟨by simp [requeue], fun _ => hkind, hgate⟩
    refine ⟨fun h => ?_, fun h => .inr (h ▸ hself)⟩
    rcases h with h | h
    · simpa [hkind] using h.kind (by simp)
    · exact hself.unique h
  next hy =>
    refine or_congr Iff.rfl ⟨fun h => ⟨?_, h.kind, h.gate⟩, fun h => ⟨?_, h.kind, h.gate⟩⟩
    · simpa [requeue, hy] using h.item
    · simpa [requeue, hy] using h.item

end KState

/-! ## Deliveries in the history -/

/-- The Context or Interrupt whose message an event delivers. -/
def Event.deliveredBy : Event → Option TableIndex
  | .delivered sender _ _ _ => sender
  | _ => none

/-- The senders whose messages were delivered, latest first. -/
def deliverers (evs : List Event) : List TableIndex := evs.filterMap Event.deliveredBy

@[simp] theorem deliverers_delivered (x c : TableIndex) (b : Brand) (m : Message) (evs : List Event) :
    deliverers (.delivered (some x) c b m :: evs) = x :: deliverers evs := rfl

@[simp] theorem deliverers_append (evs evs' : List Event) :
    deliverers (evs ++ evs') = deliverers evs ++ deliverers evs' := List.filterMap_append

/-- Message passing from `s` to `s'` records the events `evs`: the senders it takes off their
Gates are those whose messages it delivers, each once. -/
structure Passing (s s' : KState) (evs : List Event) : Prop where
  history : s'.history = evs ++ s.history
  once : (deliverers evs).Nodup
  queued : ∀ x g, s'.QueuedAt x g ↔ s.QueuedAt x g ∧ x ∉ deliverers evs
  waited : ∀ x ∈ deliverers evs, ∃ g, s.QueuedAt x g

namespace Passing

variable {s s' s'' : KState} {evs evs' : List Event}

theorem refl (s : KState) : Passing s s [] := ⟨rfl, by simp [deliverers], by simp [deliverers],
  by simp [deliverers]⟩

theorem trans (h : Passing s s' evs) (h' : Passing s' s'' evs') :
    Passing s s'' (evs' ++ evs) where
  history := by rw [h'.history, h.history, List.append_assoc]
  once := by
    rw [deliverers_append]
    refine List.Nodup.append h'.once h.once fun x hx' hx => ?_
    obtain ⟨g, hg⟩ := h'.waited x hx'
    exact ((h.queued x g).mp hg).2 hx
  queued x g := by
    rw [h'.queued, h.queued, deliverers_append, List.mem_append]
    tauto
  waited x hx := by
    rw [deliverers_append, List.mem_append] at hx
    rcases hx with hx | hx
    · obtain ⟨g, hg⟩ := h'.waited x hx
      exact ⟨g, ((h.queued x g).mp hg).1⟩
    · exact h.waited x hx

/-- Updates that take nobody off a Gate and deliver nothing. -/
theorem quiet (hhistory : s'.history = evs ++ s.history) (hevs : deliverers evs = [])
    (hqueued : ∀ x g, s'.QueuedAt x g ↔ s.QueuedAt x g) : Passing s s' evs := by
  refine ⟨hhistory, by simp [hevs], fun x g => ?_, by simp [hevs]⟩
  simp [hqueued, hevs]

theorem of_sameSeats (h : SameSeats s s') (hhistory : s'.history = s.history) : Passing s s' [] :=
  .quiet (by simp [hhistory]) rfl fun _ _ => h.queuedAt_iff

end Passing

section

variable {s s' : KState} {c x i g : TableIndex} {k : Key}

theorem passing_receiving (s : KState) (c : TableIndex) : Passing s (s.receiving c) [] := by
  refine .of_sameSeats (sameSeats_receiving s c) ?_
  unfold receiving dropped
  split
  · rfl
  · split <;> rfl

theorem passing_deposit (s : KState) (dst : KeysRef) (ks : Keys) : Passing s (s.deposit dst ks) [] :=
  .of_sameSeats (sameSeats_deposit s dst ks) (by cases dst <;> rfl)

theorem sameSeats_refused (s : KState) (c : TableIndex) (x : Exception) : SameSeats s (s.refused c x) :=
  (s.sameSeats_updateContext c ⟨rfl, rfl, rfl, rfl⟩).trans (sameSeats_record _ _)

theorem passing_refused (s : KState) (c : TableIndex) (x : Exception) :
    Passing s (s.refused c x) [.excepted c (Message.failure x)] :=
  .quiet rfl rfl fun _ _ => (sameSeats_refused s c x).queuedAt_iff

theorem sameSeats_informed (s : KState) (c : TableIndex) (sender : Option TableIndex) (m : Message)
    (b : Brand) : SameSeats s (s.informed c sender m b) :=
  (s.sameSeats_updateContext c ⟨rfl, rfl, rfl, rfl⟩).trans (sameSeats_record _ _)

/-- A runnable Context that blocks, though not to send, changes nothing about who is queued. -/
theorem passing_reseat (hc : s.Sits c .runnable) {seat : Seat}
    (hgate : ∀ g, seat.gate = some g → s.kind g = .gate) (hseat : ∀ g, seat ≠ .sending g) :
    Passing s (s.reseat c seat).pend [] := by
  refine .quiet rfl rfl fun x g => ?_
  rw [(sameSeats_pend _).queuedAt_iff, queuedAt_reseat_iff hc.kind_of_runnable hgate]
  split
  next hx =>
    subst hx
    exact ⟨fun h => absurd h (hseat g), fun h => absurd h hc.not_queuedAt⟩
  next => rfl

/-- Taking a queued Context off its Gate. -/
theorem queuedAt_taken (hx : s.Sits x (.sending g)) (c y g' : TableIndex) :
    (s.taken x c).QueuedAt y g' ↔ s.QueuedAt y g' ∧ y ≠ x := by
  rw [taken, (sameSeats_deposit _ _ _).queuedAt_iff, (sameSeats_pend _).queuedAt_iff,
    queuedAt_reseat_iff (hx.kind (by simp)) (by simp [Seat.gate])]
  split
  next hy => simp [hy]
  next hy => simp [hy]

theorem queuedAt_takenIrq (hi : s.Queued i (some g)) (c y g' : TableIndex) :
    (s.takenIrq i c).QueuedAt y g' ↔ s.QueuedAt y g' ∧ y ≠ i := by
  rw [takenIrq, (sameSeats_informed _ _ _ _ _).queuedAt_iff, (sameSeats_deposit _ _ _).queuedAt_iff]
  have hrequeue := queuedAt_requeue_iff (s := s) (y := y) (g := g') (hi.kind (by simp)) (q := none)
    (by simp)
  simp only [Option.map_none] at hrequeue
  rw [hrequeue]
  split
  next hy => simp [hy]
  next hy => simp [hy]

/-- A chain takes off their Gates exactly the senders whose messages it delivers. -/
theorem Receives.passing (h : Receives s c k s') (hs : s.WellFormed) (hc : s.Sits c .runnable) :
    ∃ evs, Passing s s' evs := by
  induction h with
  | refused => exact ⟨_, passing_refused _ _ _⟩
  | awaiting => exact ⟨_, passing_reseat hc (by simp [Seat.gate]) (by simp)⟩
  | waiting hopens =>
    refine ⟨_, passing_reseat hc ?_ (by simp)⟩
    rintro g ⟨⟩
    exact hopens.1
  | @irq s c i k _ hpeek =>
    have hi := queued_of_peek hs hpeek
    refine ⟨[.delivered (some i) c (s.interrupt i).savedBrand (s.blockedMessage (.irqItem i))],
      rfl, by simp [deliverers, Event.deliveredBy], fun x g => ?_, ?_⟩
    · simp [queuedAt_takenIrq hi, deliverers, Event.deliveredBy]
    · simpa [deliverers, Event.deliveredBy] using ⟨_, .inr hi⟩
  | @sender s s' c x k hopens hpeek _ hsilent ih =>
    have hx := sits_of_peek hs hpeek
    have htaken := acts_taken hx c
    -- The rest of the chain starts with the sender off its Gate.
    have hrest : ∃ evs, Passing (s.taken x c) s' evs := by
      cases henabled : (s.context x).save.message.desc.getReceiveEnabled with
      | false => exact hsilent henabled ▸ ⟨_, .refl _⟩
      | true =>
        obtain ⟨evs, hevs⟩ := ih henabled
          ((acts_receiving _ _).wellFormed (htaken.wellFormed hs))
          ((sameSeats_receiving _ _).sits (sits_taken hx c))
        exact ⟨_, (passing_receiving _ _).trans hevs⟩
    obtain ⟨evs, hevs⟩ := hrest
    have hhistory : (s.taken x c).history = s.history := rfl
    have hx' : x ∉ deliverers evs := by
      intro hmem
      obtain ⟨g, hg⟩ := hevs.waited x hmem
      exact ((queuedAt_taken hx c x g).mp hg).2 rfl
    refine ⟨.delivered (some x) c (s'.context x).savedBrand (s.blockedMessage (.senderItem x)) :: evs,
      ?_, ?_, fun y g => ?_, fun y hy => ?_⟩
    · simp [informed, KState.record, updateContext, hevs.history, hhistory]
    · exact List.nodup_cons.mpr ⟨hx', hevs.once⟩
    · rw [(sameSeats_informed _ _ _ _ _).queuedAt_iff, hevs.queued, queuedAt_taken hx c]
      simp only [deliverers_delivered, List.mem_cons, not_or]
      tauto
    · rcases List.mem_cons.mp hy with rfl | hy
      · exact ⟨_, .inl hx⟩
      · obtain ⟨g, hg⟩ := hevs.waited y hy
        exact ⟨g, ((queuedAt_taken hx c y g).mp hg).1⟩

theorem Received.passing (h : Received s c s') (hs : s.WellFormed) (hc : s.Sits c .runnable) :
    ∃ evs, Passing s s' evs := by
  cases henabled : (s.context c).save.message.desc.getReceiveEnabled with
  | false => exact h.2 henabled ▸ ⟨_, .refl _⟩
  | true =>
    obtain ⟨evs, hevs⟩ := (h.1 henabled).passing ((acts_receiving _ _).wellFormed hs)
      ((sameSeats_receiving _ _).sits hc)
    exact ⟨_, (passing_receiving _ _).trans hevs⟩

theorem TakenIn.passing {sender : Sender} {dst : KeysRef} (h : TakenIn s sender dst s')
    (hs : s.WellFormed) (hready : sender.Free s) : ∃ evs, Passing s s' evs := by
  cases sender with
  | context c =>
    have hsame := s.sameSeats_deposit dst (s.sentKeys c)
    obtain ⟨evs, hevs⟩ := Received.passing h (hs.of_sameSeats hsame) (hsame.sits hready.2.2)
    exact ⟨_, (passing_deposit _ _ _).trans hevs⟩
  | interrupt i | reply rs => exact h ▸ ⟨_, passing_deposit _ _ _⟩

end

end BrittleKernel
