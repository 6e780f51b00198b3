import BrittleKernel.Termination
import Mathlib.Tactic.IntervalCases

/-!
# What a Message Carries

A Context finds in its registers what the sender's registers held before the system call,
although both sender and receiver may take part in further deliveries of the same chain.
-/

namespace BrittleKernel

open Hoare KState

/-! ## Faithful deliveries -/

/-- What Context `R` holds in state `t` is the message that Context `S` was about to send in
state `s`. -/
structure Conveyed (s t : KState) (S R : TableIndex) : Prop where
  /-- Of the descriptor, the selector and the error bit arrive. -/
  descriptor : (t.context R).save 0 = (s.context S).save 0 &&& 0x1FFFF#32
  data : ∀ i : Fin 10, 1 ≤ i.val → i.val ≤ 5 → (t.context R).save i = (s.context S).save i
  /-- A register that one position of the receive map names holds the key sent there. -/
  keys : ∀ i : Fin nMessageKeys, nibble ((s.context R).save 7) i ≠ 0 →
    (∀ j : Fin nMessageKeys, j ≠ i → nibble ((s.context R).save 7) j ≠ nibble ((s.context R).save 7) i) →
    t.keyAt (.keyReg R (nibble ((s.context R).save 7) i)) = s.sentKeys S i
  /-- The other registers are as they were. -/
  others : ∀ r, (r = 0 ∨ ∀ i : Fin nMessageKeys, nibble ((s.context R).save 7) i ≠ r) →
    t.keyAt (.keyReg R r) = s.keyAt (.keyReg R r)

/-- The delivery is completed between the two states, and what the receiver has got stays in
its registers. -/
structure Arrives (s t : KState) (S R : TableIndex) (b : Brand) (m : Message) : Prop where
  completed : ∃ u older, u.history = .delivered (some S) R b m :: older ∧
    Acts (.any True) s u ∧ Acts (.any True) u t ∧ t.context R = u.context R
  conveyed : Conveyed s t S R

/-- What `sanitized` leaves of a descriptor. -/
theorem Descriptor.bits_sanitized (d : Descriptor) : d.sanitized.bits = d.bits &&& 0x1FFFF#32 := by
  apply BitVec.eq_of_getLsbD_eq
  intro i hi
  simp only [sanitized, withSelector, withError, zero, getSelector, getError]
  interval_cases i <;> simp

/-- Registers that the receive map does not name stay as they are. -/
theorem storeKeys_other (regs : Fin nTaskKeys → Key) (map : Word) (ks : Keys) (r : Fin nTaskKeys)
    (hr : r = 0 ∨ ∀ i : Fin nMessageKeys, nibble map i ≠ r) : storeKeys regs map ks r = regs r := by
  have hstep : ∀ (regs : Fin nTaskKeys → Key) (i : Fin nMessageKeys) (k : Key),
      storeKey regs map i k r = regs r := by
    intro regs i k
    unfold storeKey
    split
    · rfl
    next hzero =>
      refine Function.update_of_ne ?_ _ _
      rcases hr with rfl | hr
      · exact Ne.symm hzero
      · exact Ne.symm (hr i)
  have h₀ := hstep regs 0 (ks 0)
  have h₁ := hstep (storeKey regs map 0 (ks 0)) 1 (ks 1)
  have h₂ := hstep (storeKey (storeKey regs map 0 (ks 0)) map 1 (ks 1)) 2 (ks 2)
  have h₃ := hstep (storeKey (storeKey (storeKey regs map 0 (ks 0)) map 1 (ks 1)) map 2 (ks 2)) 3 (ks 3)
  exact h₃.trans (h₂.trans (h₁.trans h₀))

/-- A register that exactly one position names holds the key of that position. -/
theorem storeKeys_named (regs : Fin nTaskKeys → Key) (map : Word) (ks : Keys) (i : Fin nMessageKeys)
    (hzero : nibble map i ≠ 0) (honce : ∀ j : Fin nMessageKeys, j ≠ i → nibble map j ≠ nibble map i) :
    storeKeys regs map ks (nibble map i) = ks i := by
  have hself : ∀ (regs : Fin nTaskKeys → Key) (k : Key),
      storeKey regs map i k (nibble map i) = k := by
    intro regs k
    simp [storeKey, hzero]
  have hother : ∀ (regs : Fin nTaskKeys → Key) (j : Fin nMessageKeys) (k : Key), j ≠ i →
      storeKey regs map j k (nibble map i) = regs (nibble map i) := by
    intro regs j k hj
    unfold storeKey
    split
    · rfl
    · exact Function.update_of_ne (Ne.symm (honce j hj)) _ _
  unfold storeKeys
  fin_cases i
  · exact (hother _ 3 _ (by decide)).trans ((hother _ 2 _ (by decide)).trans
      ((hother _ 1 _ (by decide)).trans (hself _ _)))
  · exact (hother _ 3 _ (by decide)).trans ((hother _ 2 _ (by decide)).trans (hself _ _))
  · exact (hother _ 3 _ (by decide)).trans (hself _ _)
  · exact hself _ _

/-- Between the two states no Context's or Interrupt's message is delivered. -/
def Quiet (s s' : KState) : Prop := ∃ evs, s'.history = evs ++ s.history ∧ deliverers evs = []

theorem Quiet.refl (s : KState) : Quiet s s := ⟨[], rfl, rfl⟩

theorem Quiet.trans {s s' s'' : KState} (h : Quiet s s') (h' : Quiet s' s'') : Quiet s s'' := by
  obtain ⟨evs, hhistory, hquiet⟩ := h
  obtain ⟨evs', hhistory', hquiet'⟩ := h'
  exact ⟨evs' ++ evs, by rw [hhistory', hhistory, List.append_assoc], by simp [hquiet, hquiet']⟩

theorem quiet_looked (s : KState) (kind : Kind) (e : TableIndex) (b : Brand) :
    Quiet s (s.looked kind e b) := by
  unfold looked
  split
  · exact ⟨[.consulted e b], rfl, rfl⟩
  · exact .refl s

/-! ## Chains -/

section

variable {s s' : KState} {c x y : TableIndex} {k : Key}

theorem context_dropped_of_ne (s : KState) {l : KeyLoc} (hne : y ≠ l.owner) :
    (s.dropped l).context y = s.context y := by
  unfold dropped
  split
  · rfl
  · cases l with
    | target i => rfl
    | keyReg z i | regionReg z i =>
      have hyz : y ≠ z := hne
      simp [setKeyAt, hyz]

theorem context_receiving_of_ne (s : KState) (hne : y ≠ c) :
    (s.receiving c).context y = s.context y := by
  unfold receiving
  split
  · rfl
  · exact context_dropped_of_ne s hne

/-- Receiving through a key that opens no Gate delivers nothing. -/
theorem Receives.quiet (h : Receives s c k s') (hclosed : ¬s.opens k) : Quiet s s' := by
  cases h with
  | refused => exact ⟨[.excepted _ _], rfl, rfl⟩
  | awaiting => exact ⟨[], rfl, rfl⟩
  | waiting hopens | irq hopens | sender hopens => exact absurd hopens hclosed

/-- A chain leaves a Context alone that is not queued, unless it starts with it. -/
theorem Receives.context_eq (h : Receives s c k s') (hs : s.WellFormed) (hc : s.Sits c .runnable)
    (hy : ∀ g, ¬s.QueuedAt y g) (hne : y ≠ c) : s'.context y = s.context y := by
  induction h with
  | refused => simp [KState.refused, hne]
  | awaiting | waiting => simp [reseat, pend, hne]
  | irq => simp [takenIrq, KState.informed, deposit, requeue, hne]
  | @sender s s' c x k hopens hpeek _ hsilent ih =>
    have hx := sits_of_peek hs hpeek
    have hyx : y ≠ x := by
      rintro rfl
      exact hy _ (.inl hx)
    have htaken : (s.taken x c).context y = s.context y := by
      simp [KState.taken, deposit, reseat, pend, hne, hyx]
    have hchain : s'.context y = (s.taken x c).context y := by
      cases henabled : (s.context x).save.message.desc.getReceiveEnabled with
      | false => rw [hsilent henabled]
      | true =>
        refine (ih henabled ((acts_receiving _ _).wellFormed ((acts_taken hx c).wellFormed hs))
          ((sameSeats_receiving _ _).sits (sits_taken hx c)) (fun g hg => ?_) hyx).trans
            (context_receiving_of_ne _ hyx)
        have hq := (sameSeats_receiving _ _).queuedAt_iff.mp hg
        exact hy g ((queuedAt_taken hx c y g).mp hq).1
    rw [← htaken, ← hchain]
    simp [KState.informed, hne]

/-- The receiver of a delivery, once the message is in. -/
theorem conveyed_informed {S R : TableIndex} {b : Brand} {m : Message}
    (hm : m = (s.context S).save.message.sanitized)
    (hkeys : (s'.context R).keys = storeKeys (s.context R).keys ((s.context R).save 7) (s.sentKeys S)) :
    Conveyed s (s'.informed R (some S) m b) S R := by
  have hregister : ∀ r, (s'.informed R (some S) m b).keyAt (.keyReg R r) =
      storeKeys (s.context R).keys ((s.context R).save 7) (s.sentKeys S) r := by
    intro r
    simp [keyAt, KState.informed, hkeys]
  have hsave : ((s'.informed R (some S) m b).context R).save =
      ((s'.context R).save.setMessage m).setBrand b := by
    simp [KState.informed]
  refine ⟨?_, fun i hlow hhigh => ?_, fun i hzero honce => ?_, fun r hr => ?_⟩
  · rw [hsave, hm]
    exact Descriptor.bits_sanitized _
  · rw [hsave, hm]
    fin_cases i
    all_goals first
    | rfl
    | exact absurd hlow (by decide)
    | exact absurd hhigh (by decide)
  · rw [hregister]
    exact storeKeys_named _ _ _ i hzero honce
  · rw [hregister, storeKeys_other _ _ _ r hr]
    rfl

/-- What message passing reads of a Context's body. -/
structure SameRegisters (b b' : Context) : Prop where
  save : b'.save = b.save
  keys : b'.keys = b.keys
  expectedReplyBrand : b'.expectedReplyBrand = b.expectedReplyBrand

theorem SameRegisters.of_eq {b b' : Context} (h : b' = b) : SameRegisters b b' := h ▸ ⟨rfl, rfl, rfl⟩

/-- The same delivery, told from an earlier state in which both bodies looked the same. -/
theorem Conveyed.rebase {u t : KState} {S R : TableIndex} (h : Conveyed u t S R)
    (hgeneration : u.generation = s.generation) (hS : SameRegisters (s.context S) (u.context S))
    (hR : SameRegisters (s.context R) (u.context R)) : Conveyed s t S R where
  descriptor := hS.save ▸ h.descriptor
  data := hS.save ▸ h.data
  keys i := by
    have hkey := h.keys i
    have hsent : u.sentKeys S = s.sentKeys S := by
      funext j
      simp only [sentKeys, keyAt, filled, hS.save, hS.keys, hS.expectedReplyBrand, hgeneration]
    rw [hR.save, hsent] at hkey
    exact hkey
  others r hr := by
    have hother := h.others r (by rwa [hR.save])
    rwa [keyAt, keyAt, hR.keys] at hother

theorem Conveyed.congr {u t : KState} {S R : TableIndex} (h : Conveyed s t S R)
    (hR : u.context R = t.context R) : Conveyed s u S R where
  descriptor := by rw [hR]; exact h.descriptor
  data := by rw [hR]; exact h.data
  keys i hzero honce := by rw [keyAt, hR]; exact h.keys i hzero honce
  others r hr := by rw [keyAt, hR]; exact h.others r hr

/-- What happens before and after leaves the receiver's registers alone. -/
theorem Arrives.extend {u t t' : KState} {S R : TableIndex} {b : Brand} {m : Message}
    (h : Arrives u t S R b m) (hbefore : Acts (.any True) s u) (hafter : Acts (.any True) t t')
    (hR : t'.context R = t.context R) (hconveyed : Conveyed s t S R) : Arrives s t' S R b m where
  completed := by
    obtain ⟨v, older, hhistory, hsu, hut, hv⟩ := h.completed
    exact ⟨v, older, hhistory, hbefore.trans hsu, hut.trans hafter, hR.trans hv⟩
  conveyed := hconveyed.congr hR

/-- The deliveries that a receive operation of `c` sets off: the senders were queued, and what
each was about to send arrives. -/
def Forwards (s : KState) (c : TableIndex) (s' : KState) : Prop :=
  ∃ evs, s'.history = evs ++ s.history ∧
    ∀ S R b m, .delivered (some S) R b m ∈ evs → s.kind S = .context →
      (∃ g, s.QueuedAt S g) ∧ (R = c ∨ ∃ g, s.QueuedAt R g) ∧ Arrives s s' S R b m

theorem not_mem_of_deliverers_nil {evs : List Event} (h : deliverers evs = []) {S R : TableIndex}
    {b : Brand} {m : Message} : .delivered (some S) R b m ∉ evs := by
  intro hmem
  have hdeliverer : S ∈ deliverers evs := List.mem_filterMap.mpr ⟨_, hmem, rfl⟩
  simp [h] at hdeliverer

theorem Forwards.of_quiet (h : Quiet s s') : Forwards s c s' := by
  obtain ⟨evs, hhistory, hnone⟩ := h
  exact ⟨evs, hhistory, fun S R b m hmem => absurd hmem (not_mem_of_deliverers_nil hnone)⟩

/-- Checking the source register first makes no difference. -/
theorem Forwards.of_dropped {l : KeyLoc} (hnull : s.kind 0 = .null)
    (h : Receives (s.dropped l) c (s.keyAt l) s') (hchain : Forwards (s.dropped l) c s') :
    Forwards s c s' := by
  by_cases hgate : s.opens (s.keyAt l)
  · -- The key opens a Gate, so it was live.
    rcases target_cases s (s.keyAt l) with ⟨htarget, -, -⟩ | ⟨-, hlive, -⟩
    · have hkind := hgate.1
      rw [htarget, hnull] at hkind
      cases hkind
    · rwa [show s.dropped l = s by simp [dropped, hlive]] at hchain
  · -- Otherwise nothing is delivered.
    have hclosed : ¬(s.dropped l).opens (s.keyAt l) := by
      rwa [opens, kind_of_objects (objects_dropped _ _), target_of_objects (objects_dropped _ _),
        resolve_of_objects (objects_dropped _ _)]
    obtain ⟨evs, hhistory, hnone⟩ := h.quiet hclosed
    exact .of_quiet ⟨evs, hhistory.trans (congrArg _ (history_dropped s l)), hnone⟩

theorem Received.forwards_of (h : Received s c s') (hs : s.WellFormed) (hc : s.Sits c .runnable)
    (hchain : (s.receiving c).WellFormed → (s.receiving c).Sits c .runnable →
      (s.context c).save.message.desc.getReceiveEnabled = true → Forwards (s.receiving c) c s') :
    Forwards s c s' := by
  cases henabled : (s.context c).save.message.desc.getReceiveEnabled with
  | false => exact .of_quiet ⟨[], by rw [h.2 henabled]; rfl, rfl⟩
  | true =>
    have hreceives := h.1 henabled
    have hforwards := hchain ((acts_receiving s c).wellFormed hs) ((sameSeats_receiving s c).sits hc)
      henabled
    cases hcall : (s.context c).save.message.desc.isCall with
    | true => simpa [receiving, hcall] using hforwards
    | false =>
      have hkey : s.receiveKey c = s.keyAt (.keyReg c (s.context c).save.message.desc.getSource) := by
        simp [receiveKey, hcall]
      rw [receiving_eq hcall] at hreceives hforwards
      exact .of_dropped hs.null (hkey ▸ hreceives) hforwards

theorem Received.context_eq (h : Received s c s') (hs : s.WellFormed) (hc : s.Sits c .runnable)
    (hy : ∀ g, ¬s.QueuedAt y g) (hne : y ≠ c) : s'.context y = s.context y := by
  cases henabled : (s.context c).save.message.desc.getReceiveEnabled with
  | false => rw [h.2 henabled]
  | true =>
    have hsame := sameSeats_receiving s c
    rw [(h.1 henabled).context_eq ((acts_receiving s c).wellFormed hs) (hsame.sits hc)
      (fun g hg => hy g (hsame.queuedAt_iff.mp hg)) hne, context_receiving_of_ne s hne]

/-! ## Handing over -/

/-- Between the two states Context `x` hands its keys to Context `c`, and nobody else's
registers are touched. -/
structure HandsOver (s v : KState) (x c : TableIndex) : Prop where
  acts : Acts (.any True) s v
  generation : v.generation = s.generation
  registers : ∀ z, z ≠ c → SameRegisters (s.context z) (v.context z)
  keys : (v.context c).keys = storeKeys (s.context c).keys ((s.context c).save 7) (s.sentKeys x)
  quiet : Quiet s v

/-- The sender's own receive phase comes between the delivery of its keys and of its words. -/
theorem HandsOver.informed {v : KState} (h : HandsOver s v x c) (hchain : Forwards v x s')
    (hacts : Acts (.any True) v s') (hkind : v.kind = s.kind) (hqueued : ∀ g, ¬v.QueuedAt c g)
    (hne : c ≠ x) (hbody : s'.context c = v.context c) (b : Brand) :
    ∃ evs, (s'.informed c (some x) (s.blockedMessage (.senderItem x)) b).history = evs ++ s.history ∧
      ∀ S R b' m, .delivered (some S) R b' m ∈ evs → s.kind S = .context →
        (S = x ∧ R = c ∨ (∃ g, v.QueuedAt S g) ∧ (R = x ∨ ∃ g, v.QueuedAt R g)) ∧
          Arrives s (s'.informed c (some x) (s.blockedMessage (.senderItem x)) b) S R b' m := by
  obtain ⟨own, hown, hsilent⟩ := h.quiet
  obtain ⟨evs, hhistory, hall⟩ := hchain
  have hinformed := acts_informed s' c (some x) (s.blockedMessage (.senderItem x)) b
  refine ⟨.delivered (some x) c b (s.blockedMessage (.senderItem x)) :: (evs ++ own), ?_,
    fun S R b' m hmem hS => ?_⟩
  · simp [KState.informed, hhistory, hown]
  · rcases List.mem_cons.mp hmem with heq | hmem
    · -- The delivery from `x` to `c` is the last one.
      obtain ⟨rfl, rfl, rfl, rfl⟩ : S = x ∧ R = c ∧ b' = b ∧ m = _ := by simpa using heq
      refine ⟨.inl ⟨rfl, rfl⟩, ⟨_, s'.history, rfl, (h.acts.trans hacts).trans hinformed, .refl, rfl⟩,
        conveyed_informed rfl ?_⟩
      rw [hbody, h.keys]
    · have hmem : .delivered (some S) R b' m ∈ evs :=
        (List.mem_append.mp hmem).resolve_right (not_mem_of_deliverers_nil hsilent)
      obtain ⟨hS', hR', harrives⟩ := hall S R b' m hmem (by rwa [hkind])
      have hSc : S ≠ c := by
        rintro rfl
        obtain ⟨g, hg⟩ := hS'
        exact hqueued g hg
      have hRc : R ≠ c := by
        rintro rfl
        rcases hR' with rfl | ⟨g, hg⟩
        · exact hne rfl
        · exact hqueued g hg
      exact ⟨.inr ⟨hS', hR'⟩, harrives.extend h.acts hinformed (by simp [KState.informed, hRc])
        (harrives.conveyed.rebase h.generation (h.registers S hSc) (h.registers R hRc))⟩

theorem handsOver_taken {g : TableIndex} (hx : s.Sits x (.sending g)) (hne : x ≠ c) :
    HandsOver s (s.taken x c) x c where
  acts := acts_taken hx c
  generation := generation_of_objects (objects_taken _ _ _)
  registers z hz := by
    rw [KState.taken, keyAt_deposit_of_ne (by rintro _ ⟨⟩; exact hz rfl)]
    by_cases hzx : z = x
    · subst hzx
      exact ⟨by simp [reseat, pend], by simp [reseat, pend], by simp [reseat, pend]⟩
    · exact .of_eq (by simp [reseat, pend, hzx])
  keys := by simp [KState.taken, deposit, reseat, pend, hne.symm]
  quiet := ⟨[], rfl, rfl⟩

/-- Every delivery of a chain conveys what its sender was about to send. -/
theorem Receives.forwards (h : Receives s c k s') (hs : s.WellFormed) (hc : s.Sits c .runnable) :
    Forwards s c s' := by
  induction h with
  | refused => exact .of_quiet ⟨[.excepted _ _], rfl, rfl⟩
  | awaiting | waiting => exact .of_quiet ⟨[], rfl, rfl⟩
  | @irq s c i k _ hpeek =>
    have hi := queued_of_peek hs hpeek
    refine ⟨[.delivered (some i) c _ _], rfl, fun S R b m hmem hkind => ?_⟩
    obtain ⟨rfl, -⟩ : S = i ∧ _ := by simpa using hmem
    simp [hi.kind (by simp)] at hkind
  | @sender s s' c x k hopens hpeek hreceive hsilent ih =>
    have hx := sits_of_peek hs hpeek
    have hne : x ≠ c := by
      rintro rfl
      cases hx.unique hc
    have htaken := (acts_taken hx c).wellFormed hs
    have hsits := sits_taken hx c
    have hreceived : Received (s.taken x c) x s' := by
      rw [Received, save_taken hne]
      exact ⟨hreceive, hsilent⟩
    have hqueued : ∀ g, ¬(s.taken x c).QueuedAt c g := fun g hg =>
      hc.not_queuedAt ((queuedAt_taken hx c c g).mp hg).1
    have hchain : Forwards (s.taken x c) x s' :=
      hreceived.forwards_of htaken hsits fun hwf hx' henabled => by
        rw [save_taken hne] at henabled
        exact ih henabled hwf hx'
    obtain ⟨evs, hhistory, hall⟩ := (handsOver_taken hx hne).informed hchain
      (acts_chain hs hc hx hreceive hsilent) (kind_of_objects (objects_taken _ _ _)) hqueued hne.symm
      (hreceived.context_eq htaken hsits hqueued hne.symm) (s'.context x).savedBrand
    refine ⟨evs, hhistory, fun S R b m hmem hS => ?_⟩
    obtain ⟨hwho, harrives⟩ := hall S R b m hmem hS
    rcases hwho with ⟨rfl, rfl⟩ | ⟨⟨g, hg⟩, hR⟩
    · exact ⟨⟨_, .inl hx⟩, .inl rfl, harrives⟩
    · refine ⟨⟨g, ((queuedAt_taken hx c S g).mp hg).1⟩, .inr ?_, harrives⟩
      rcases hR with rfl | ⟨g', hg'⟩
      · exact ⟨_, .inl hx⟩
      · exact ⟨g', ((queuedAt_taken hx c R g').mp hg').1⟩

theorem Received.forwards (h : Received s c s') (hs : s.WellFormed) (hc : s.Sits c .runnable) :
    Forwards s c s' :=
  h.forwards_of hs hc fun hwf hsits henabled => (h.1 henabled).forwards hwf hsits

/-! ## Sends -/

/-- Every Context's message that is delivered between the two states arrives. -/
def Faithful (s s' : KState) : Prop :=
  ∃ evs, s'.history = evs ++ s.history ∧
    ∀ S R b m, .delivered (some S) R b m ∈ evs → s.kind S = .context → Arrives s s' S R b m

theorem Forwards.faithful (h : Forwards s c s') : Faithful s s' := by
  obtain ⟨evs, hhistory, hall⟩ := h
  exact ⟨evs, hhistory, fun S R b m hmem hS => (hall S R b m hmem hS).2.2⟩

theorem Faithful.of_quiet (h : Quiet s s') : Faithful s s' :=
  (Forwards.of_quiet (c := 0) h).faithful

/-- A Context hands its message to one that was woken for it. -/
theorem HandsOver.faithful {v : KState} (h : HandsOver s v x c) (hs : s.WellFormed)
    (hx : v.Sits x .runnable) (hc : v.Sits c .runnable) (hne : c ≠ x) (hreceived : Received v x s')
    (b : Brand) :
    Faithful s (s'.informed c (some x) (s.blockedMessage (.senderItem x)) b) := by
  have hv := h.acts.wellFormed hs
  have hqueued : ∀ g, ¬v.QueuedAt c g := fun g => hc.not_queuedAt
  obtain ⟨evs, hhistory, hall⟩ := h.informed (hreceived.forwards hv hx) (hreceived.acts hv hx)
    (kind_of_objects h.acts.objects) hqueued hne (hreceived.context_eq hv hx hqueued hne) b
  exact ⟨evs, hhistory, fun S R b m hmem hS => (hall S R b m hmem hS).2⟩

theorem Sends.faithful {e : TableIndex} {ref : BrandRef} (h : Sends s (.context x) e ref s')
    (hs : s.WellFormed) (hready : (Sender.context x).Free s) : Faithful s s' := by
  have hx : s.Sits x .runnable := hready.2.2
  cases h with
  | queued =>
    simp only [queuedUp]
    split
    · exact .of_quiet ⟨[], rfl, rfl⟩
    · exact .of_quiet ⟨[.excepted _ _], rfl, rfl⟩
  | @woken y s₁ hkind _ hpeek htaken =>
    obtain ⟨p, hr⟩ := exists_mem_of_peek hpeek
    obtain ⟨z, hz, hy⟩ := hs.mem_receivers hr
    obtain rfl : y = z := by injection hz
    have hne : y ≠ x := by
      rintro rfl
      cases hy.unique hx
    have hact : Act (.any True) s (s.reseat y .runnable).pend := .rouse y e _ trivial trivial hy rfl
    have hhand : HandsOver s ((s.reseat y .runnable).pend.deposit (.bank y ((s.context y).save 7))
        ((s.reseat y .runnable).pend.sentKeys x)) x y := by
      refine ⟨(Relation.ReflTransGen.single hact).tail (.deposit (.bank y _) _ trivial fun _ => trivial),
        rfl, fun z hz => ?_, ?_, [], rfl, rfl⟩
      · exact .of_eq (by simp [deposit, reseat, pend, hz])
      · rw [sentKeys_reseat]
        simp [deposit, reseat, pend]
    have hx₁ := (sameSeats_pend _).sits (sits_reseat_of_ne hne.symm .runnable hx)
    have hy₁ := (sameSeats_pend _).sits
      (s.sits_reseat y .runnable (fun _ => hy.kind (by simp)) (by simp [Seat.gate]))
    exact hhand.faithful hs ((sameSeats_deposit _ _ _).sits hx₁) ((sameSeats_deposit _ _ _).sits hy₁)
      hne htaken _
  | answered hkind htop hexpected hsits htaken =>
    have hne : e ≠ x := by
      rintro rfl
      cases hsits.unique hx
    have hact : Act (.any True) s (s.answered e (s.readRef ref)) :=
      Act.answer e (s.readRef ref) trivial hsits hexpected htop trivial
    have hsent : (s.answered e (s.readRef ref)).outgoing (.context x) = s.outgoing (.context x) :=
      outgoing_answered (by rintro ⟨⟩; exact hne rfl)
    have hkeys : (s.answered e (s.readRef ref)).sentKeys x = s.sentKeys x := congrArg Prod.snd hsent
    have hhand : HandsOver s ((s.answered e (s.readRef ref)).deposit (.bank e ((s.context e).save 7))
        ((s.answered e (s.readRef ref)).sentKeys x)) x e := by
      refine ⟨(Relation.ReflTransGen.single hact).tail (.deposit (.bank e _) _ trivial fun _ => trivial),
        rfl, fun z hz => ?_, ?_, [.answered e _, .replyBrandAdvanced e], rfl, rfl⟩
      · exact .of_eq (by simp [deposit, KState.answered, advanceReply, reseat, pend, hz])
      · rw [hkeys]
        simp [deposit, KState.answered, advanceReply, reseat, pend]
    have hsame := (s.sameSeats_advanceReply e).trans (sameSeats_record _ (.answered e (s.readRef ref)))
    have hx₁ := (sameSeats_pend _).sits (sits_reseat_of_ne hne.symm .runnable (hsame.sits hx))
    have he₁ := (sameSeats_pend _).sits (sits_reseat ((s.advanceReply e).record
      (.answered e (s.readRef ref))) e .runnable (fun _ => hkind) (by simp [Seat.gate]))
    exact hhand.faithful hs ((sameSeats_deposit _ _ _).sits hx₁) ((sameSeats_deposit _ _ _).sits he₁)
      hne htaken _

end

/-! ## System calls -/

namespace KState

/-- The state in which the message passing of a system call starts: the program's registers
are saved, and the keys it uses have been checked. -/
def launched (s : KState) (stack : Word) (regs : UserRegisters) : KState :=
  if (⟨regs 0⟩ : Descriptor).getSendEnabled then s.svcSending stack regs else s.ready stack regs

/-- `s₀` shows the registers and keys as they were just before a system call from `s`. -/
structure Launches (s s₀ : KState) (regs : UserRegisters) : Prop where
  saved : ∀ i : Fin 8, (s₀.context s.current).save (i.castLE (by decide)) = regs i
  /-- A key stays, or it was stale and checking it has made it null. -/
  keys : ∀ r, s₀.keyAt (.keyReg s.current r) = s.keyAt (.keyReg s.current r) ∨
    s.isLive (s.keyAt (.keyReg s.current r)) = false ∧ s₀.keyAt (.keyReg s.current r) = s.nullKey
  expectedReplyBrand :
    (s₀.context s.current).expectedReplyBrand = (s.context s.current).expectedReplyBrand
  others : ∀ c, c ≠ s.current → s₀.context c = s.context c
  objects : s₀.objects = s.objects

end KState

/-- The states in which the message passing of a system call is over and, if an object serves
the message, its method is about to run. -/
inductive MessagesPassed (cfg : Config) (s : KState) (stack : Word) (regs : UserRegisters) :
    KState → Prop where
  | idle : (⟨regs 0⟩ : Descriptor).getSendEnabled = false →
      (⟨regs 0⟩ : Descriptor).getReceiveEnabled = false →
      MessagesPassed cfg s stack regs (s.launched stack regs)
  | received {t : KState} : (⟨regs 0⟩ : Descriptor).getSendEnabled = false →
      (⟨regs 0⟩ : Descriptor).getReceiveEnabled = true →
      receivePhase deliverToBounded s.current ⟨regs 0⟩ (s.launched stack regs) = .ok ⟨⟩ t →
      MessagesPassed cfg s stack regs t
  | passed {t : KState} : (⟨regs 0⟩ : Descriptor).getSendEnabled = true →
      (s.launched stack regs).served (s.invoked regs)
        ((s.launched stack regs).keyAt (s.targetReg regs)).brand = none →
      deliverFrom cfg replyDepth (s.invoked regs) ((s.launched stack regs).refTo cfg (s.targetReg regs))
        (.context s.current) (s.launched stack regs) = .ok ⟨⟩ t →
      MessagesPassed cfg s stack regs t
  | taken {kind : Kind} {r : Message × Keys} {t : KState} :
      (⟨regs 0⟩ : Descriptor).getSendEnabled = true →
      (s.launched stack regs).served (s.invoked regs)
        ((s.launched stack regs).keyAt (s.targetReg regs)).brand = some kind →
      Context.onDelivery deliverToBounded s.current .frame (s.launched stack regs) = .ok r t →
      MessagesPassed cfg s stack regs t

section

variable {cfg : Config} {s : KState} {stack : Word} {regs : UserRegisters}

theorem KState.Launches.dropped {s₀ : KState} (h : s.Launches s₀ regs) (r : Fin nTaskKeys) :
    s.Launches (s₀.dropped (.keyReg s.current r)) regs where
  saved i := by rw [save_dropped, h.saved]
  keys r' := by
    unfold KState.dropped
    split
    · exact h.keys r'
    next hstale =>
      by_cases hr : r' = r
      · subst hr
        have hnull : s₀.nullKey = s.nullKey := by
          simp only [nullKey, filled, generation_of_objects h.objects]
        rw [isLive_of_objects h.objects] at hstale
        rcases h.keys r' with hkeep | ⟨hdead, -⟩
        · exact .inr ⟨by simpa [hkeep] using hstale, by rw [keyAt_setKeyAt, hnull]⟩
        · exact .inr ⟨hdead, by rw [keyAt_setKeyAt, hnull]⟩
      · rw [keyAt_setKeyAt_of_ne (by rintro ⟨⟩; exact hr rfl)]
        exact h.keys r'
  expectedReplyBrand := by
    rw [← h.expectedReplyBrand]
    unfold KState.dropped
    split
    · rfl
    · simp [setKeyAt]
  others c hc := by
    rw [context_dropped_of_ne s₀ (l := .keyReg s.current r) hc]
    exact h.others c hc
  objects := (objects_dropped _ _).trans h.objects

theorem KState.launches (s : KState) (stack : Word) (regs : UserRegisters) :
    s.Launches (s.launched stack regs) regs := by
  have hentered : s.Launches (s.entered stack regs) regs := by
    refine ⟨fun i => ?_, fun r => .inl ?_, ?_, fun c hc => ?_, rfl⟩
    · have hne : i.castLE (by decide) ≠ (9 : Fin 10) := by
        intro h
        have hval := congrArg Fin.val h
        have hlt := i.isLt
        simp at hval
        omega
      simp [entered, hne]
    · exact congrFun (keyAt_entered stack regs) _
    · simp [entered]
    · simp [entered, hc]
  have hready := hentered.dropped 0
  unfold launched
  split
  · have hsent := hready.dropped (⟨regs 0⟩ : Descriptor).getTarget
    refine ⟨hsent.saved, fun r => ?_, hsent.expectedReplyBrand, hsent.others, hsent.objects⟩
    rw [svcSending, sending, keyAt_record]
    exact hsent.keys r
  · exact hready

theorem KState.launched_of_send (hsend : (⟨regs 0⟩ : Descriptor).getSendEnabled = true) :
    s.launched stack regs = s.svcSending stack regs := if_pos hsend

theorem KState.launched_of_silent (hsend : (⟨regs 0⟩ : Descriptor).getSendEnabled = false) :
    s.launched stack regs = s.ready stack regs := by simp [launched, hsend]

/-- The receive operation of a system call that does not send. -/
theorem receivePhase_receives {c : TableIndex} {d : Descriptor} (hs : s.WellFormed)
    (hc : s.Sits c .runnable) :
    wp (receivePhase deliverToBounded c d) (fun _ t =>
      Receives (s.dropped (.keyReg c d.getSource)) c (s.keyAt (.keyReg c d.getSource)) t) never s := by
  have hdrop := objects_dropped s (.keyReg c d.getSource)
  have hsame := sameSeats_dropped s (.keyReg c d.getSource)
  have hrun := deliverToBounded_receives _ (k := s.keyAt (.keyReg c d.getSource))
    (hs.of_sameSeats hsame) (hsame.sits hc) (Nat.lt_succ_self _)
  rw [target_of_objects hdrop, resolve_of_objects hdrop, ← keyAt_dropped] at hrun
  simp only [receivePhase, wp_bind, wp_keyGet, wp_get]
  exact hrun

/-- What message passing has delivered has arrived. -/
theorem MessagesPassed.faithful (hcfg : cfg.eagerRevocation = false) (hs : s.Settled) {t : KState}
    (h : MessagesPassed cfg s stack regs t) : Faithful (s.launched stack regs) t := by
  have hsame := s.sameSeats_ready stack regs
  have hwf := hs.wellFormed.of_sameSeats hsame
  have hsits := hsame.sits hs.running
  cases h with
  | idle => exact .of_quiet ⟨[], rfl, rfl⟩
  | received hsend _ hrun =>
    rw [launched_of_silent hsend] at hrun ⊢
    have hreceives := wp_ok (receivePhase_receives hwf hsits) hrun
    have hsame₂ := sameSeats_dropped (s.ready stack regs) (s.sourceReg regs)
    exact (Forwards.of_dropped hwf.null hreceives
      (hreceives.forwards (hwf.of_sameSeats hsame₂) (hsame₂.sits hsits))).faithful
  | passed hsend hserved hrun =>
    rw [launched_of_send hsend] at hserved hrun ⊢
    have hdelivered := wp_ok (deliverFrom_delivered hcfg (hs.wellFormed_svcSending stack regs)
      (hs.free stack regs) (by
        rintro c ⟨⟩
        exact (current_of_objects objects_svcSending).symm) (E := fun _ _ => True) (by simp)) hrun
    cases hdelivered with
    | passed h => exact h.faithful (hs.wellFormed_svcSending stack regs) (hs.free stack regs)
    | served h =>
      rw [readRef_refTo, hserved] at h
      cases h
  | taken hsend _ hrun =>
    rw [launched_of_send hsend] at hrun ⊢
    have hfree := hs.free stack regs
    have htaken := wp_ok (onDelivery_takenIn (hs.wellFormed_svcSending stack regs) hfree
      (by simp)) hrun
    exact (Received.forwards htaken.2 (hs.wellFormed_svcSending stack regs) hfree.2.2).faithful

/-- A reply delivers no other message than its own. -/
theorem Replied.quiet {k : Key} {rs : ReplySender} {s' : KState} (h : Replied s k rs s') :
    Quiet s s' := by
  cases h with
  | elided => exact ⟨[], rfl, rfl⟩
  | passed h =>
    cases h with
    | queued => exact ⟨[], rfl, rfl⟩
    | woken _ _ _ htaken =>
      obtain rfl := htaken
      exact ⟨[_], rfl, rfl⟩
    | answered _ _ _ _ htaken =>
      obtain rfl := htaken
      exact ⟨[_, _, _], rfl, rfl⟩
  | misunderstood => exact quiet_looked _ _ _ _

/-- The operation that an IPC system call asks for, once the checks on entry are done. -/
def passMessages (cfg : Config) (s : KState) (stack : Word) (regs : UserRegisters) : K Unit :=
  if (⟨regs 0⟩ : Descriptor).getSendEnabled then
    deliverFrom cfg replyDepth (s.invoked regs) ((s.launched stack regs).refTo cfg (s.targetReg regs))
      (.context s.current)
  else if (⟨regs 0⟩ : Descriptor).getReceiveEnabled then
    receivePhase deliverToBounded s.current ⟨regs 0⟩
  else
    pure ()

theorem wp_svcEntry_ipc (hs : s.Settled) (hsys : (⟨regs 0⟩ : Descriptor).getSysnum = 0)
    {Q : Unit → KState → Prop} {E : Panic → KState → Prop} :
    wp (svcEntry cfg stack regs) Q E s ↔
      wp (passMessages cfg s stack regs) (fun _ s₁ => wp doDeferredSwitch Q E s₁) E
        (s.launched stack regs) := by
  have hentered : (s.updateContext s.current fun b =>
      { b with save := fun i => if h : i.val < 8 then regs ⟨i.val, h⟩ else b.save i }).updateContext
        s.current (fun b => { b with save := Function.update b.save 9 stack }) =
      s.entered stack regs := by
    simp [updateContext, entered]
  have hready : (if (s.entered stack regs).isLive ((s.entered stack regs).keyAt
      (.keyReg s.current 0)) then s.entered stack regs
      else (s.entered stack regs).setKeyAt (.keyReg s.current 0) (s.entered stack regs).nullKey) =
      s.ready stack regs := rfl
  have hnull : (s.ready stack regs).kind ((s.entered stack regs).target
      ((s.entered stack regs).keyAt (.keyReg s.current 0))) = .null := by
    rw [kind_of_objects (objects_ready s stack regs), keyAt_entered,
      target_of_objects (objects_entered s stack regs)]
    exact hs.null_register0
  have hbrand : ∀ {Q : BrandRef → KState → Prop} {t : KState} {loc : KeyLoc},
      wp (brandRef cfg loc) Q E t ↔ Q (t.refTo cfg loc) t := by
    intro Q t loc
    cases h : cfg.brandByReference <;> simp [brandRef, refTo, h]
  simp only [svcEntry, wp_bind, wp_get, hsys, if_true, saveUser, Context.doIpc, wp_modify, hentered,
    wp_keyGet, panicIf]
  rw [hready]
  simp only [hnull, ne_eq, not_true_eq_false, decide_false, Bool.false_eq_true, if_false, wp_pure,
    passMessages]
  cases hsend : (⟨regs 0⟩ : Descriptor).getSendEnabled with
  | true =>
    have hinvoked : s.invoked regs = (s.ready stack regs).target
        ((s.ready stack regs).keyAt (s.targetReg regs)) := (target_keyAt_ready _).symm
    rw [launched_of_send hsend, hinvoked]
    simp only [if_true, keyDeliverFrom, wp_bind, wp_keyGet, wp_modify, hbrand]
    rfl
  | false =>
    rw [launched_of_silent hsend]
    cases hreceive : (⟨regs 0⟩ : Descriptor).getReceiveEnabled with
    | true => simp [receivePhase]
    | false => simp

theorem Switches.quiet {s' : KState} (h : Switches s s') : Quiet s s' := by
  cases h with
  | stays => exact ⟨[], rfl, rfl⟩
  | elects c => exact ⟨[.switched c], rfl, rfl⟩

/-- After message passing only a kernel object's reply is delivered. -/
theorem passMessages_passes (hcfg : cfg.eagerRevocation = false) (hs : s.Settled) :
    wp (passMessages cfg s stack regs) (fun _ s₁ => s₁.WellFormed ∧
      ∃ t, MessagesPassed cfg s stack regs t ∧ Quiet t s₁)
      (fun _ _ => True) (s.launched stack regs) := by
  have hsame := s.sameSeats_ready stack regs
  have hwf := hs.wellFormed.of_sameSeats hsame
  have hsits := hsame.sits hs.running
  unfold passMessages
  cases hsend : (⟨regs 0⟩ : Descriptor).getSendEnabled with
  | false =>
    cases hreceive : (⟨regs 0⟩ : Descriptor).getReceiveEnabled with
    | false => exact ⟨launched_of_silent hsend ▸ hwf, _, .idle hsend hreceive, .refl _⟩
    | true =>
      rw [launched_of_silent hsend]
      obtain ⟨⟨⟩, t, hrun, hreceives⟩ := exists_ok (receivePhase_receives (d := ⟨regs 0⟩) hwf hsits)
      have hsame₂ := sameSeats_dropped (s.ready stack regs) (s.sourceReg regs)
      have hwf₂ := hwf.of_sameSeats hsame₂
      have ht : MessagesPassed cfg s stack regs t :=
        .received hsend hreceive (by rw [launched_of_silent hsend]; exact hrun)
      exact (wp_of_eq hrun).mpr ⟨(hreceives.acts hwf₂ (hsame₂.sits hsits)).wellFormed hwf₂, t, ht,
        .refl t⟩
  | true =>
    have hs₀ := hs.wellFormed_svcSending stack regs
    have hfree := hs.free stack regs
    have hcurrent : ∀ c, Sender.context s.current = .context c → c = (s.svcSending stack regs).current := by
      rintro c ⟨⟩
      exact (current_of_objects objects_svcSending).symm
    rw [launched_of_send hsend]
    simp only [if_true]
    have hread : (s.svcSending stack regs).readRef
        ((s.svcSending stack regs).refTo cfg (s.targetReg regs)) =
          ((s.svcSending stack regs).keyAt (s.targetReg regs)).brand := readRef_refTo _ _ _
    cases hserved : (s.svcSending stack regs).served (s.invoked regs)
        ((s.svcSending stack regs).keyAt (s.targetReg regs)).brand with
    | none =>
      cases hrun : deliverFrom cfg replyDepth (s.invoked regs)
          ((s.svcSending stack regs).refTo cfg (s.targetReg regs)) (.context s.current)
          (s.svcSending stack regs) with
      | error p t => simp [wp, hrun]
      | ok u t =>
        have hdelivered := wp_ok (deliverFrom_delivered hcfg hs₀ hfree hcurrent
          (E := fun _ _ => True) (by simp)) hrun
        have ht : MessagesPassed cfg s stack regs t :=
          .passed hsend (by rw [launched_of_send hsend]; exact hserved)
            (by rw [launched_of_send hsend]; exact hrun)
        exact (wp_of_eq hrun).mpr ⟨hdelivered.wellFormed hs₀ hfree, t, ht, .refl t⟩
    | some kind =>
      rw [replyDepth, wp_congr (deliverFrom_served (hread ▸ hserved) 1)]
      have hframe : ∀ c map, Sender.context s.current = .context c → KeysRef.frame ≠ .bank c map := by
        simp
      obtain ⟨r, t, hrun, rfl, htaken⟩ := exists_ok (onDelivery_takenIn hs₀ hfree hframe)
      have ht : MessagesPassed cfg s stack regs t :=
        .taken hsend (by rw [launched_of_send hsend]; exact hserved)
          (by rw [launched_of_send hsend]; exact hrun)
      have hacts := htaken.acts hs₀ hfree
      have ht' := Acts.wellFormed hacts hs₀
      have hkind := served_kind hserved
      rw [← kind_of_objects (Acts.objects hacts)] at hkind
      simp only [wp_bind, wp_of_eq hrun, wp_readRef]
      -- The method runs, and its reply is sent.
      refine wp_mono (serve_effect hcfg ht' hkind) (fun rs s₂ heffect => ?_) fun _ _ _ => trivial
      have hlooked := ht'.of_sameSeats (sameSeats_looked t kind (s.invoked regs) (t.readRef
        ((s.svcSending stack regs).refTo cfg (s.targetReg regs))))
      have hs₂ := heffect.wellFormed hlooked
      refine wp_mono (scopedReply_replied (E := fun _ _ => True) hcfg hs₂ heffect.plain (by simp))
        (fun _ s₁ hreplied => ?_) fun _ _ h => h
      exact ⟨Acts.wellFormed (hreplied.acts hs₂) hs₂, t, ht,
        (quiet_looked _ _ _ _).trans (Quiet.trans heffect.history hreplied.quiet)⟩

end

/-! ## Fidelity -/

end BrittleKernel
