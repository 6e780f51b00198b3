import Mathlib
import BrittleKernel.Runs
import BrittleKernel.Requests
import BrittleKernel.Growth
import Mathlib.Tactic.IntervalCases

/-!
# The Brand of a Memory Key

A Memory object looks at the brand of the invoked key only after the sender's receive phase.
The kernel decides with the brand that the key had at the time of the system call exactly
if no sender queued at the receive Gate replaces the key in the sender's register.
-/

namespace BrittleKernel

open Hoare KState

/-- What `Memory::deliver_from` does once the message is in and the brand has been looked at,
and the rest of the system call. -/
def decideMemory (cfg : Config) (e : TableIndex) (brand : Brand) (m : Message) (k : Keys) :
    K Unit := do
  modify (·.record (.consulted e brand))
  let rs ← Memory.serve cfg e brand m k
  scopedReply cfg (deliverFrom cfg 1) (k 0) rs
  doDeferredSwitch

section

variable {s : KState} {stack : Word} {regs : UserRegisters}

theorem wp_svcEntry_memory {cfg : Config} (hs : s.Settled)
    (hsys : (⟨regs 0⟩ : Descriptor).getSysnum = 0)
    (hsend : (⟨regs 0⟩ : Descriptor).getSendEnabled = true)
    (hlive : s.isLive (s.keyAt (s.targetReg regs)) = true)
    (hkind : s.kind (s.invoked regs) = .memory) {Q : Unit → KState → Prop}
    {E : Panic → KState → Prop} :
    wp (svcEntry cfg stack regs) Q E s ↔
      wp (Context.onDelivery deliverToBounded s.current .frame)
        (fun r s₁ => wp (decideMemory cfg (s.invoked regs)
          (s₁.readRef ((s.svcSending stack regs).refTo cfg (s.targetReg regs))) r.1 r.2) Q E s₁)
        E (s.svcSending stack regs) := by
  have hentered : (s.updateContext s.current fun b =>
      { b with save := fun i => if h : i.val < 8 then regs ⟨i.val, h⟩ else b.save i }).updateContext
        s.current (fun b => { b with save := Function.update b.save 9 stack }) =
      s.entered stack regs := by
    simp [updateContext, entered]
  have hkey0 : (s.entered stack regs).keyAt = s.keyAt := keyAt_updateContext rfl rfl
  have htarget0 : (s.entered stack regs).target (s.keyAt (.keyReg s.current 0)) =
      s.target (s.keyAt (.keyReg s.current 0)) := target_of_objects (objects_entered s stack regs) _
  have hready : (if (s.entered stack regs).isLive (s.keyAt (.keyReg s.current 0)) = true
      then s.entered stack regs
      else (s.entered stack regs).setKeyAt (.keyReg s.current 0) (s.entered stack regs).nullKey) =
      s.ready stack regs := by
    rw [ready, dropped, hkey0]
  have hnull : (s.ready stack regs).kind (s.target (s.keyAt (.keyReg s.current 0))) = .null := by
    rw [kind_of_objects (objects_ready s stack regs)]
    exact hs.null_register0
  have hloc : (s.ready stack regs).keyAt (.keyReg s.current (⟨regs 0⟩ : Descriptor).getTarget) =
      s.keyAt (s.targetReg regs) := keyAt_ready_of_live hlive
  have hlive' : (s.ready stack regs).isLive (s.keyAt (s.targetReg regs)) = true := by
    rwa [isLive_of_objects (objects_ready s stack regs)]
  have htarget : (s.ready stack regs).target (s.keyAt (s.targetReg regs)) = s.invoked regs :=
    target_of_objects (objects_ready s stack regs) _
  have hsending : s.svcSending stack regs =
      (s.ready stack regs).record (.sent s.current (s.keyAt (s.targetReg regs)).brand) := by
    have hloc' : (s.ready stack regs).keyAt (s.targetReg regs) = s.keyAt (s.targetReg regs) := hloc
    rw [svcSending, sending, dropped, hloc', if_pos hlive', hloc']
  have hbrand : ∀ {Q : BrandRef → KState → Prop} {t : KState} {loc : KeyLoc},
      wp (brandRef cfg loc) Q E t ↔ Q (t.refTo cfg loc) t := by
    intro Q t loc
    cases h : cfg.brandByReference <;> simp [brandRef, refTo, h]
  simp only [svcEntry, wp_bind, wp_get, hsys, if_true, saveUser, Context.doIpc, wp_modify, hentered,
    wp_keyGet, hkey0, htarget0, hready, panicIf, hnull, ne_eq, not_true_eq_false, decide_false,
    Bool.false_eq_true, if_false, wp_pure, hsend, keyDeliverFrom, hloc, hlive', htarget, hbrand]
  rw [← hsending]
  have hkind' : (s.svcSending stack regs).kind (s.invoked regs) = .memory := by
    rwa [hsending, kind_record, kind_of_objects (objects_ready s stack regs)]
  simp only [replyDepth, deliverFrom, wp_bind, wp_get, hkind', Memory.deliverFrom, serveThenReply,
    Sender.onDelivery, wp_readRef, wp_modify, decideMemory]
  rfl

/-- Replies are sent the same way whether or not brands travel by reference. -/
theorem deliverFrom_byValue (etl : Etl) (depth : Nat) :
    deliverFrom (Config.source etl) depth = deliverFrom ⟨etl, false, false⟩ depth := by
  induction depth with
  | zero => rfl
  | succ depth ih =>
    funext e brand sender
    simp only [deliverFrom, ih]
    rfl

theorem decideMemory_byValue (etl : Etl) (e : TableIndex) (brand : Brand) (m : Message) (k : Keys) :
    decideMemory (Config.source etl) e brand m k = decideMemory ⟨etl, false, false⟩ e brand m k := by
  simp only [decideMemory, deliverFrom_byValue]
  rfl

end

/-- The decision on a Memory method starts by recording the brand it is made with. -/
theorem decideMemory_history {cfg : Config} (hcfg : cfg.eagerRevocation = false) {s : KState}
    (hs : s.WellFormed) {e : TableIndex} (he : s.kind e = .memory) (brand : Brand) (m : Message)
    (k : Keys) :
    wp (decideMemory cfg e brand m k)
      (fun _ s' => Event.consulted e brand :: s.history <:+ s'.history)
      (fun _ s' => Event.consulted e brand :: s.history <:+ s'.history) s := by
  have hserve := wp_and
    (memoryServe_effect hcfg (s := s.record (.consulted e brand)) (k := k) (m := m) he)
    (Grows.memoryServe cfg e brand m k (.consulted e brand :: s.history)
      (s.record (.consulted e brand)) List.suffix_rfl)
  simp only [decideMemory, wp_bind, wp_modify]
  refine wp_mono hserve (fun rs s₂ hserved => ?_) fun _ _ h => h.2
  obtain ⟨heffect, hgrow⟩ := hserved
  have hs₂ := heffect.wellFormed (hs.of_sameSeats (sameSeats_record _ _))
  have hany : Confined (.any True) (fun _ => True) := .any fun _ _ _ => trivial
  refine wp_mono (scopedReply_acts (E := fun _ s' => Event.consulted e brand :: s.history <:+ s'.history)
    hany hs₂ trivial hcfg trivial heffect.plain (fun _ => trivial) ?_) (fun _ s₃ h₃ => ?_) fun _ _ h => h
  · exact fun _ _ _ _ _ => hgrow.trans (List.suffix_cons _ _)
  · have hgrow₃ := hgrow.trans h₃.history
    exact doDeferredSwitch_spec (Acts.wellFormed h₃ hs₂) (fun _ => hgrow₃)
      (fun c _ => hgrow₃.trans (List.suffix_cons _ _)) fun _ => hgrow₃

/-- Decisions with different brands have different outcomes. -/
theorem decideMemory_injective {cfg : Config} (hcfg : cfg.eagerRevocation = false) {s : KState}
    (hs : s.WellFormed) {e : TableIndex} (he : s.kind e = .memory) {b b' : Brand} {m : Message}
    {k : Keys} (h : decideMemory cfg e b m k s = decideMemory cfg e b' m k s) : b = b' := by
  have hb := decideMemory_history hcfg hs he b m k
  have hb' := decideMemory_history hcfg hs he b' m k
  have hfirst : ∀ {l : List Event}, Event.consulted e b :: s.history <:+ l →
      Event.consulted e b' :: s.history <:+ l → b = b' := by
    intro l h₁ h₂
    have hsame := (List.suffix_of_suffix_length_le h₁ h₂ le_rfl).eq_of_length rfl
    simpa using hsame
  rw [wp, h] at hb
  rw [wp] at hb'
  cases hout : decideMemory cfg e b' m k s with
  | ok u t =>
    rw [hout] at hb hb'
    exact hfirst hb hb'
  | error p t =>
    rw [hout] at hb hb'
    exact hfirst hb hb'

/-! ## Which key replaces the invoked one -/

/-- The last map position that names a register. -/
def lastPosition (map : Word) (r : Fin nTaskKeys) : Option (Fin nMessageKeys) :=
  if nibble map 3 = r then some 3
  else if nibble map 2 = r then some 2
  else if nibble map 1 = r then some 1
  else if nibble map 0 = r then some 0
  else none

/-- Of the keys that are put in a register, the last one stays. -/
theorem storeKeys_eq (regs : Fin nTaskKeys → Key) (map : Word) (ks : Keys) {r : Fin nTaskKeys}
    (hr : r ≠ 0) :
    storeKeys regs map ks r = ((lastPosition map r).map ks).getD (regs r) := by
  have hstep : ∀ (regs : Fin nTaskKeys → Key) (i : Nat) (k : Key),
      storeKey regs map i k r = if nibble map i = r then k else regs r := by
    intro regs i k
    unfold storeKey
    split_ifs with h h' h'
    · exact absurd (h'.symm.trans h) hr
    · rfl
    · subst h'; simp
    · simp [Ne.symm h']
  simp only [storeKeys, hstep, lastPosition]
  split_ifs <;> rfl

namespace KState

/-- The sender already queued at the Gate that a system call's receive phase names, if the
system call is no call. -/
def pendingSender (s : KState) (regs : UserRegisters) : Option ItemRef :=
  let d : Descriptor := ⟨regs 0⟩
  let source := s.keyAt (.keyReg s.current d.getSource)
  if d.getReceiveEnabled = true ∧ d.isCall = false ∧ s.kind (s.target source) = .gate ∧
      (s.resolve source).brand.isTop = false then
    s.peek (.senders (s.target source))
  else
    none

/-- A queued sender's message will replace the invoked key with one of another brand. -/
def Overwritten (s : KState) (regs : UserRegisters) : Prop :=
  ∃ sender i, s.pendingSender regs = some sender ∧
    lastPosition (regs 7) (⟨regs 0⟩ : Descriptor).getTarget = some i ∧
    (s.blockedKeys sender i).brand ≠ (s.keyAt (s.targetReg regs)).brand

variable {s : KState} {stack : Word} {regs : UserRegisters}

theorem queuedSender_svcSending :
    (s.svcSending stack regs).queuedSender s.current = s.pendingSender regs := by
  have hdesc : ((s.svcSending stack regs).context s.current).save.message.desc = ⟨regs 0⟩ := by
    rw [save_svcSending]
    rfl
  have hresolve := resolve_keyAt_svcSending s stack regs
    (.keyReg s.current (⟨regs 0⟩ : Descriptor).getSource)
  have hqueues : (s.svcSending stack regs).queues = s.queues :=
    ((s.sameSeats_ready stack regs).trans (sameSeats_sending _ _ _)).queues
  simp only [queuedSender, pendingSender, hdesc, target, hresolve,
    kind_of_objects objects_svcSending, peek, hqueues]
  congr

theorem blockedKeys_svcSending (hs : s.Settled) {sender : ItemRef}
    (hsender : s.pendingSender regs = some sender) :
    (s.svcSending stack regs).blockedKeys sender = s.blockedKeys sender := by
  have hfilled : ∀ e b, (s.svcSending stack regs).filled e b = s.filled e b := by
    intro e b
    simp only [filled, generation_of_objects objects_svcSending]
  have hpeek : ∃ g, s.peek (.senders g) = some sender := by
    unfold pendingSender at hsender
    dsimp only at hsender
    split_ifs at hsender
    exact ⟨_, hsender⟩
  obtain ⟨g, hpeek⟩ := hpeek
  obtain ⟨p, hmem⟩ := exists_mem_of_peek hpeek
  rcases hs.wellFormed.mem_senders hmem with ⟨x, rfl, hx⟩ | ⟨i, rfl, -⟩
  · have hne : x ≠ s.current := by
      rintro rfl
      cases hx.unique hs.running
    funext j
    simp only [blockedKeys, sentKeys, hfilled, keyAt, context_svcSending_of_ne hne]
  · simp only [blockedKeys, nullKey, hfilled]

/-- The brand in the invoked register once the message has left. -/
theorem registerAfter_brand_iff_of_ne_null (hs : s.Settled)
    (hkind : s.kind (s.invoked regs) ≠ .null) :
    ((s.svcSending stack regs).registerAfter s.current (⟨regs 0⟩ : Descriptor).getTarget).brand =
      (s.keyAt (s.targetReg regs)).brand ↔ ¬s.Overwritten regs := by
  have hlive : s.isLive (s.keyAt (s.targetReg regs)) = true := by
    rcases Guarded.target_null_or_live hs.wellFormed (s.keyAt (s.targetReg regs)) with hnull | h
    · exact absurd hnull hkind
    · exact h.1
  have hzero : (⟨regs 0⟩ : Descriptor).getTarget ≠ 0 := by
    intro hzero
    have hnull := hs.null_register0
    rw [← hzero] at hnull
    exact hkind hnull
  have hkey : (s.svcSending stack regs).keyAt (s.targetReg regs) = s.keyAt (s.targetReg regs) := by
    have hresolve := resolve_keyAt_svcSending s stack regs
      (s.targetReg regs)
    have hsending : (s.svcSending stack regs).keyAt (s.targetReg regs) =
        (s.ready stack regs).resolve ((s.ready stack regs).keyAt (s.targetReg regs)) :=
      keyAt_sending _ _ _
    rw [hsending, keyAt_ready_of_live hlive, resolve_of_objects (objects_ready s stack regs), resolve,
      if_pos hlive]
  have hmap : ((s.svcSending stack regs).context s.current).save 7 = regs 7 := by
    rw [save_svcSending]
    rfl
  have hregister : ((s.svcSending stack regs).context s.current).keys
      (⟨regs 0⟩ : Descriptor).getTarget = s.keyAt (s.targetReg regs) := hkey
  rw [registerAfter, queuedSender_svcSending]
  cases hsender : s.pendingSender regs with
  | none =>
    have hnot : ¬s.Overwritten regs := by
      rintro ⟨sender, i, hsome, -⟩
      simp [hsender] at hsome
    exact iff_of_true (congrArg Key.brand hkey) hnot
  | some sender =>
    dsimp only
    rw [storeKeys_eq _ _ _ hzero, hmap, hregister, blockedKeys_svcSending hs hsender]
    cases hlast : lastPosition (regs 7) (⟨regs 0⟩ : Descriptor).getTarget with
    | none => simp [Overwritten, hlast]
    | some i => simp [Overwritten, hsender, hlast]

theorem registerAfter_brand_iff (hs : s.Settled)
    (hkind : s.kind (s.invoked regs) = .memory) :
    ((s.svcSending stack regs).registerAfter s.current (⟨regs 0⟩ : Descriptor).getTarget).brand =
      (s.keyAt (s.targetReg regs)).brand ↔ ¬s.Overwritten regs :=
  registerAfter_brand_iff_of_ne_null hs (by simp [hkind])

end KState

/-! ## Brands and access -/

namespace Rasr

theorem getAp_enabled (r : Rasr) (size : Word) :
    getAp (withEnable (withSize r size) true) = getAp r := by
  apply BitVec.eq_of_getLsbD_eq
  intro i hi
  simp only [getAp, withEnable, withSize, BitVec.getLsbD_setWidth, BitVec.getLsbD_ushiftRight,
    BitVec.getLsbD_or, BitVec.getLsbD_and, BitVec.getLsbD_not, BitVec.getLsbD_shiftLeft]
  interval_cases i <;> simp

theorem getSrd_enabled (r : Rasr) (size : Word) :
    getSrd (withEnable (withSize r size) true) = getSrd r := by
  apply BitVec.eq_of_getLsbD_eq
  intro i hi
  simp only [getSrd, withEnable, withSize, BitVec.getLsbD_setWidth, BitVec.getLsbD_ushiftRight,
    BitVec.getLsbD_or, BitVec.getLsbD_and, BitVec.getLsbD_not, BitVec.getLsbD_shiftLeft]
  interval_cases i <;> simp

/-- The fields of a RASR value are those of the brand made from it. -/
theorem getAp_ofBrand (r : Rasr) :
    getAp (Brand.low ((r >>> 8).setWidth 64) <<< 8) = getAp r := by
  apply BitVec.eq_of_getLsbD_eq
  intro i hi
  simp only [getAp, Brand.low, BitVec.getLsbD_setWidth, BitVec.getLsbD_ushiftRight,
    BitVec.getLsbD_shiftLeft]
  interval_cases i <;> simp

theorem getSrd_ofBrand (r : Rasr) :
    getSrd (Brand.low ((r >>> 8).setWidth 64) <<< 8) = getSrd r := by
  apply BitVec.eq_of_getLsbD_eq
  intro i hi
  simp only [getSrd, Brand.low, BitVec.getLsbD_setWidth, BitVec.getLsbD_ushiftRight,
    BitVec.getLsbD_shiftLeft]
  interval_cases i <;> simp

end Rasr

/-- One brand gives no more access than another: its access permissions are the same or
decode to no stronger ones, and it disables every subregion that the other disables. -/
def Brand.NoStronger (etl : Etl) (b' b : Brand) : Prop :=
  (Rasr.getAp (b'.low <<< 8) = Rasr.getAp (b.low <<< 8) ∨
    ∃ new current, decodeAp etl (Rasr.getAp (b'.low <<< 8)) = some new ∧
      decodeAp etl (Rasr.getAp (b.low <<< 8)) = some current ∧ new.isStronger current = false) ∧
  Rasr.getSrd (b.low <<< 8) &&& ~~~Rasr.getSrd (b'.low <<< 8) = 0#8

theorem Brand.NoStronger.refl (etl : Etl) (b : Brand) : b.NoStronger etl b :=
  ⟨.inl rfl, BitVec.and_not_self _⟩

/-- The key that Change, Split or Make Child returns gives no more access than the brand the
method was decided with. -/
theorem Effect.noStronger {cfg : Config} {e : TableIndex} {b : Brand} {m : Message} {k : Keys}
    {s s' : KState} {rs : ReplySender} (h : Effect cfg e b m k s rs s') (he : s.kind e = .memory)
    (hm : MemoryMethod.ofSelector m.desc.getSelector ≠ some .become) {i : Fin nMessageKeys}
    (hkey : (rs.keys i).ptr ≠ none) : (rs.keys i).brand.NoStronger cfg.etl b := by
  have hone : ∀ (key : Key), ((ReplySender.withKey key).keys i).ptr ≠ none →
      (ReplySender.withKey key).keys i = key := by
    intro key hptr
    by_cases hi : i = 1
    · simp [ReplySender.withKey, ReplySender.setKey, hi]
    · simp [ReplySender.withKey, ReplySender.setKey, hi] at hptr
  cases h with
  | change new current _ _ hmappable hnew hcurrent hweak hsubregions =>
    rw [hone _ hkey]
    have hregion : ((s.memory e).getRegionForBrand b).rasr =
        Rasr.withEnable (Rasr.withSize (b.low <<< 8) (s.memory e).getCachedL2HalfSize) true := by
      simp [Memory.getRegionForBrand, hmappable]
    rw [hregion, Rasr.getAp_enabled] at hcurrent
    rw [hregion, Rasr.getSrd_enabled] at hsubregions
    refine ⟨.inr ⟨new, current, ?_, hcurrent, hweak⟩, ?_⟩
    · rw [filled, Rasr.getAp_ofBrand]
      exact hnew
    · rw [filled, Rasr.getSrd_ofBrand]
      exact hsubregions
  | split slot =>
    have hbrand : ((({} : ReplySender).setKey 2 ((s.splitMemory e slot m.d0).filled slot b)).setKey 1
        ((s.splitMemory e slot m.d0).filled e b)).keys i = {} ∨
        (((({} : ReplySender).setKey 2 ((s.splitMemory e slot m.d0).filled slot b)).setKey 1
        ((s.splitMemory e slot m.d0).filled e b)).keys i).brand = b := by
      by_cases h1 : i = 1
      · right; simp [ReplySender.setKey, h1, filled]
      · by_cases h2 : i = 2
        · right; simp [ReplySender.setKey, h2, filled]
        · left; simp [ReplySender.setKey, h1, h2]
    rcases hbrand with hempty | hbrand
    · simp [hempty] at hkey
    · rw [hbrand]
      exact .refl _ _
  | makeChild slot =>
    rw [hone _ hkey]
    exact .refl _ _
  | become t hok => exact absurd hok.method hm
  | reply _ hrs | noInvalidate _ _ _ hrs => simp [hrs.keys i] at hkey
  | readKey _ he' | clientKey he' | mint he' => simp [he] at he'
  | _ => exact absurd rfl hkey

/-! ## The brand that a method is decided with -/

/-- The system call is decided with the given brand: once the sender's part of the delivery
is done, Memory runs its protocol with this brand, and the keys that Change, Split and Make
Child return give no more access than it. -/
structure KState.DecidedWith (s : KState) (etl : Etl) (stack : Word) (regs : UserRegisters)
    (b : Brand) : Prop where
  decided : ∃ m k s₁,
    Context.onDelivery deliverToBounded s.current .frame (s.svcSending stack regs) = .ok (m, k) s₁ ∧
      svcEntry (Config.source etl) stack regs s =
        decideMemory (Config.source etl) (s.invoked regs) b m k s₁ ∧
      ∀ rs s₂, Memory.serve (Config.source etl) (s.invoked regs) b m k
          (s₁.record (.consulted (s.invoked regs) b)) = .ok rs s₂ →
        MemoryMethod.ofSelector m.desc.getSelector ≠ some .become →
        ∀ i, (rs.keys i).ptr ≠ none → (rs.keys i).brand.NoStronger etl b

/-- The outcome of the sender's part of the delivery is the same for every brand, so the brand
that is read off the register afterwards decides. -/
theorem KState.Settled.decidedWith_iff {etl : Etl} {s : KState} (hs : s.Settled)
    (stack : Word) (regs : UserRegisters) (hsys : (⟨regs 0⟩ : Descriptor).getSysnum = 0)
    (hsend : (⟨regs 0⟩ : Descriptor).getSendEnabled = true)
    (hkind : s.kind (s.invoked regs) = .memory) :
    s.DecidedWith etl stack regs (s.keyAt (s.targetReg regs)).brand ↔ ¬s.Overwritten regs := by
  have hlive : s.isLive (s.keyAt (s.targetReg regs)) = true := by
    rcases Guarded.target_null_or_live hs.wellFormed (s.keyAt (s.targetReg regs)) with hnull | hl
    · simp [show s.kind (s.target (s.keyAt (s.targetReg regs))) = .memory from hkind] at hnull
    · exact hl.1
  have hsame := (s.sameSeats_ready stack regs).trans (sameSeats_sending _ s.current (s.targetReg regs))
  have hwf : (s.svcSending stack regs).WellFormed := hs.wellFormed.of_sameSeats hsame
  have hsits : (s.svcSending stack regs).Sits s.current .runnable := hsame.sits hs.running
  -- The sender's part never panics, and leaves the predicted key in the invoked register.
  have hdelivery := wp_and
    (contextOnDelivery_acts (Confined.any (I := fun _ => True) fun _ _ _ => trivial).toGuarded
      (delivers_bounded (Confined.any (I := fun _ => True) fun _ _ _ => trivial).toGuarded trivial _)
      hwf trivial (A := .any True) trivial hsits (Nat.lt_succ_self _) .frame trivial (by simp))
    (contextOnDelivery_registers hwf hsits (by simp))
  obtain ⟨⟨m, k⟩, s₁, hok, ⟨-, hacts, -⟩, hregisters⟩ :=
    exists_ok (wp_mono hdelivery (fun _ _ h => h) fun _ _ h => h.1)
  have hobjects : s₁.objects = s.objects := (Acts.objects hacts).trans objects_svcSending
  have hwf₁ := Acts.wellFormed hacts hwf
  have hkind₁ : s₁.kind (s.invoked regs) = .memory := by
    rwa [kind_of_objects hobjects]
  have hkeyLive : (s.svcSending stack regs).isLive ((s.svcSending stack regs).keyAt
      (s.targetReg regs)) = true := by
    rw [svcSending, keyAt_sending, isLive_of_objects (objects_sending _ _ _)]
    exact isLive_resolve _ _
  have hread : s₁.readRef ((s.svcSending stack regs).refTo (Config.source etl) (s.targetReg regs)) =
      ((s.svcSending stack regs).registerAfter s.current (⟨regs 0⟩ : Descriptor).getTarget).brand := by
    have hkey := hregisters (⟨regs 0⟩ : Descriptor).getTarget hkeyLive
    exact congrArg Key.brand hkey
  have hout : svcEntry (Config.source etl) stack regs s = decideMemory (Config.source etl)
      (s.invoked regs) ((s.svcSending stack regs).registerAfter s.current
        (⟨regs 0⟩ : Descriptor).getTarget).brand m k s₁ := by
    refine eq_of_wp fun {Q E} hrun => ?_
    rw [wp_svcEntry_memory hs hsys hsend hlive hkind, wp_of_eq hok, hread]
    exact hrun
  have hstrength : ∀ b rs s₂, Memory.serve (Config.source etl) (s.invoked regs) b m k
      (s₁.record (.consulted (s.invoked regs) b)) = .ok rs s₂ →
      MemoryMethod.ofSelector m.desc.getSelector ≠ some .become →
      ∀ i, (rs.keys i).ptr ≠ none → (rs.keys i).brand.NoStronger etl b := by
    intro b rs s₂ hserve hm i hi
    have heffect := wp_ok (memoryServe_effect rfl (k := k) (m := m)
      (s := s₁.record (.consulted (s.invoked regs) b)) hkind₁) hserve
    exact heffect.noStronger hkind₁ hm hi
  rw [← registerAfter_brand_iff hs hkind]
  constructor
  · rintro ⟨m', k', s₁', hok', hdecided, -⟩
    obtain ⟨⟨rfl, rfl⟩, rfl⟩ : ((m, k) = (m', k')) ∧ s₁ = s₁' := by
      rw [hok] at hok'
      injection hok' with h₁ h₂
      exact ⟨h₁, h₂⟩
    exact decideMemory_injective rfl hwf₁ hkind₁ (hout.symm.trans hdecided)
  · intro hbrand
    rw [hbrand] at hout
    exact ⟨m, k, s₁, hok, hout, hstrength _⟩

namespace Sample

/-- A Gate (entry 5) at which a second Context (entry 4) waits to send a key to entry 6 that
gives full access, and a key to entry 6 in register 4 that gives read access. -/
def contention : List Action := [
  call 1 1 4#32 0x30000#32 0#32 0#32 0x20#32,
  call 1 1 5#32 0x30000#32 0#32 0#32 0x30#32,
  call 4 2 0#32 0#32 0#32 0#32 0x20#32,
  call 4 3 1#32 0#32 0#32 0#32 0x30#32,
  call 1 1 6#32 0x20000#32 0#32 0#32 0x40#32,
  call 1 1 6#32 0x30000#32 0#32 0#32 0x50#32,
  call 1 3 0#32 0#32 0#32 0#32 0x60#32,
  call 4 2 1#32 0#32 0#32 0x60#32 0#32,
  call 4 2 2#32 0#32 0#32 0x50#32 0#32,
  call 4 2 3#32 0#32 0#32 0x30#32 0#32,
  call 7 2 0#32 0#32 0#32 0#32 0#32,
  ipc (descriptor 0 1 3 true true true) 0#32 0#32 0#32 0x20#32 0x50#32]

/-- Change with the read-only key, asking for full access, and then receiving from the Gate
with the key's own register in the receive map. -/
def upgrade : UserRegisters :=
  registers (descriptor 2 4 3 true true false) 0x03000000#32 0#32 0#32 0x06#32 0x40#32

end Sample

end BrittleKernel
