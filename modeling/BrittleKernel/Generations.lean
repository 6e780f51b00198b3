import Mathlib
import BrittleKernel.Lib.Epochs
import BrittleKernel.Keeping
import BrittleKernel.Methods

/-!
# Generations and Revocation

An entry's generation counts how often its keys were revoked, modulo 2^32.  Every stored key was
made at one of the entry's generations so far, so that a key that fails the generation check keeps
failing it until the counter has gone around.  Only Invalidate guards against that.
-/

namespace BrittleKernel

open Hoare KState

/-! ## Counting -/

/-- Whether the event is an advance of the entry's generation. -/
def Event.advances (e : TableIndex) : Event → Bool
  | .generationAdvanced x _ => x == e
  | _ => false

namespace KState

variable {s s' : KState}

/-- How often an entry's generation has moved. -/
def advances (s : KState) (e : TableIndex) : Nat := s.history.countP (Event.advances e)

theorem advances_record (s : KState) (ev : Event) (e : TableIndex) :
    (s.record ev).advances e = s.advances e + if ev.advances e then 1 else 0 :=
  List.countP_cons

theorem advances_bump (s : KState) (x e : TableIndex) :
    (s.bump x).advances e = s.advances e + if x = e then 1 else 0 := by
  simp [advances, Event.advances, List.countP_cons]

/-- No generation moves. -/
structure SameClock (s s' : KState) : Prop where
  generation : s'.generation = s.generation
  advances : ∀ e, s'.advances e = s.advances e

theorem SameClock.refl (s : KState) : SameClock s s := ⟨rfl, fun _ => rfl⟩

theorem SameClock.trans {s'' : KState} (h : SameClock s s') (h' : SameClock s' s'') : SameClock s s'' :=
  ⟨h'.generation.trans h.generation, fun e => (h'.advances e).trans (h.advances e)⟩

theorem SameClock.of_history (hgeneration : s'.generation = s.generation)
    (hhistory : s'.history = s.history) : SameClock s s' :=
  ⟨hgeneration, fun e => by rw [KState.advances, hhistory, KState.advances]⟩

theorem SameClock.record (s : KState) {ev : Event} (h : ∀ e, ev.advances e = false) :
    SameClock s (s.record ev) :=
  ⟨rfl, fun e => by simp [advances_record, h e]⟩

theorem SameClock.of_untouched (h : Untouched s s') : SameClock s s' := by
  have hledger : ∀ (t : KState) e, t.advances e = t.ledger.countP (Event.advances e) := by
    intro t e
    rw [ledger, List.countP_filter, KState.advances]
    refine List.countP_congr fun ev _ => ?_
    cases ev <;> simp [Event.advances, Event.isTable]
  refine ⟨h.generation, fun e => ?_⟩
  rw [hledger, hledger, h.ledger]

theorem SameClock.setKeyAt (s : KState) (loc : KeyLoc) (k : Key) : SameClock s (s.setKeyAt loc k) :=
  .of_untouched (.setKeyAt s loc k)

theorem SameClock.looked (s : KState) (kind : Kind) (e : TableIndex) (b : Brand) :
    SameClock s (s.looked kind e b) :=
  .of_untouched (.looked s kind e b)

theorem SameClock.advanceReply (s : KState) (c : TableIndex) : SameClock s (s.advanceReply c) :=
  ⟨rfl, fun e => (advances_record _ (.replyBrandAdvanced c) e).trans rfl⟩

theorem SameClock.calledOff (s : KState) (c : TableIndex) : SameClock s (s.calledOff c) :=
  ⟨rfl, fun e => (advances_record _ (.excepted c (Message.failure .wouldBlock)) e).trans rfl⟩

end KState

theorem Act.sameClock {A : Authority} {s s' : KState} (h : Act A s s') : SameClock s s' :=
  .of_untouched h.untouched

section

variable {cfg : Config} {e : TableIndex} {brand : Brand} {m : Message} {k : Keys} {s s' : KState}
  {rs : ReplySender}

theorem KState.sameClock_invalidationHook (s : KState) (x : TableIndex) :
    SameClock s (s.invalidationHook x) := by
  unfold invalidationHook
  split
  · exact .of_history rfl rfl
  · -- Stopping a Context also advances its reply brand.
    have hseat : SameClock s (s.reseat x .stopped) := .of_history rfl rfl
    have hstopped := hseat.trans (.advanceReply _ x)
    split
    · exact hstopped.trans (.of_history rfl rfl)
    · exact hstopped
  · exact .of_history rfl rfl
  · exact .refl s

/-- Which generations a method moves. -/
inductive Ticks (e : TableIndex) (brand : Brand) (m : Message) (k : Keys) (s s' : KState) : Prop where
  | none : SameClock s s' → Ticks e brand m k s s'
  | invalidate : s.kind e = .objectTable →
      ObjectTableMethod.ofSelector m.desc.getSelector = some .invalidate →
      ((m.d1 != 0#32) = false → s.generation m.d0.toNat ≠ 0#32 - 1#32) →
      SameClock (s.bump m.d0.toNat) s' → Ticks e brand m k s s'
  | split (slot : TableIndex) : s.SplitAccepted e slot brand m → slot = s.target (k 1) →
      SameClock ((s.bump slot).bump e) s' → Ticks e brand m k s s'
  | makeChild (slot : TableIndex) : s.ChildAccepted e slot brand m → slot = s.target (k 1) →
      SameClock (s.bump slot) s' → Ticks e brand m k s s'
  | become (t : TypeCode) : s.BecomeAccepted e t brand m →
      SameClock (s.bump e) s' → Ticks e brand m k s s'

theorem Effect.ticks (h : Effect cfg e brand m k s rs s') : Ticks e brand m k s s' := by
  cases h with
  | writeKey | setTarget => exact .none (.setKeyAt _ _ _)
  | writeRegion r =>
    have hstored := SameClock.setKeyAt s (.regionReg e r) (k 1)
    split
    · exact .none (hstored.trans (.of_history rfl rfl))
    · exact .none hstored
  | callOff seat g =>
    have hroused : SameClock s (s.reseat e .runnable).pend := .of_history rfl rfl
    exact .none (hroused.trans (.calledOff _ e))
  | callOffReply =>
    have hroused : SameClock (s.advanceReply e) ((s.advanceReply e).reseat e .runnable).pend :=
      .of_history rfl rfl
    exact .none (((SameClock.advanceReply s e).trans hroused).trans (.calledOff _ e))
  | mint | noInvalidate => exact .none (.record _ fun _ => rfl)
  | invalidate he hm _ hguard =>
    refine .invalidate he hm hguard ?_
    have hhook : SameClock s
        ((s.record (.invalidateRequested m.d0 (m.d1 != 0#32))).invalidationHook m.d0.toNat) :=
      (SameClock.record s fun _ => rfl).trans (sameClock_invalidationHook _ _)
    constructor
    · rw [invalidated, generation_bump, generation_bump, hhook.generation]
    · intro x
      rw [invalidated, advances_bump, advances_bump, hhook.advances]
  | split slot hok hslot =>
    refine .split slot hok hslot ?_
    have hne : e ≠ slot := by
      rintro rfl
      exact absurd (hok.memory.symm.trans hok.slot) (by decide)
    have hsplit : (s.splitMemory e slot m.d0).generation = ((s.bump slot).bump e).generation ∧
        (s.splitMemory e slot m.d0).history = ((s.bump slot).bump e).history := by
      simp [splitMemory, hne]
    exact .of_history hsplit.1 hsplit.2
  | makeChild slot hok hslot => exact .makeChild slot hok hslot (.of_history (by simp [makeChildMemory])
      (by simp [makeChildMemory]))
  | become t hok =>
    refine .become t hok ?_
    have hbuilt : SameClock (s.bump e) ((s.bump e).buildObject t e (s.memory e).base m.d1) := by
      cases t <;> exact .of_history rfl rfl
    have hdonated : SameClock (s.bump e) (((s.bump e).buildObject t e (s.memory e).base m.d1).record
        (.donated e (s.memory e).base (s.memory e).size)) := hbuilt.trans (.record _ fun _ => rfl)
    exact hdonated.trans (.of_history rfl rfl)
  | _ => exact .none (.of_history rfl rfl)

end

/-! ## When a key was made -/

namespace KState

variable {s s' : KState}

/-- The generation is the number of advances, as far as 32 bits keep it. -/
def Counted (s : KState) : Prop := ∀ e, s.generation e = stamp 32 (s.advances e)

/-- The key was made at one of its entry's generations so far. -/
def Issued (s : KState) (k : Key) : Prop :=
  ∀ e, k.ptr = some e → ∃ n ≤ s.advances e, k.generation = stamp 32 n

/-- Every stored key was. -/
structure Dated (s : KState) : Prop where
  counted : s.Counted
  issued : ∀ loc, s.Issued (s.keyAt loc)

theorem Counted.filled (hs : s.Counted) (e : TableIndex) (b : Brand) : s.Issued (s.filled e b) := by
  rintro x ⟨⟩
  exact ⟨s.advances e, le_rfl, hs e⟩

theorem issued_empty : s.Issued {} := by
  rintro x ⟨⟩

theorem Issued.mono (h : ∀ e, s.advances e ≤ s'.advances e) {k : Key} (hk : s.Issued k) : s'.Issued k := by
  intro e he
  obtain ⟨n, hn, hgeneration⟩ := hk e he
  exact ⟨n, hn.trans (h e), hgeneration⟩

theorem Counted.of_sameClock (hs : s.Counted) (h : SameClock s s') : s'.Counted := by
  intro e
  rw [h.generation, h.advances]
  exact hs e

theorem Counted.bump (hs : s.Counted) (x : TableIndex) : (s.bump x).Counted := by
  intro e
  rw [advances_bump, generation_bump]
  by_cases he : e = x
  · subst he
    simp [hs e, stamp_succ]
  · simp [he, Ne.symm he, hs e]

/-- The same keys under the same generations. -/
theorem Dated.of_sameClock (hs : s.Dated) (h : SameClock s s') (hkeys : s'.keyAt = s.keyAt) : s'.Dated :=
  ⟨hs.counted.of_sameClock h, fun loc => hkeys ▸ (hs.issued loc).mono fun e => (h.advances e).ge⟩

theorem Dated.bump (hs : s.Dated) (x : TableIndex) : (s.bump x).Dated := by
  refine ⟨hs.counted.bump x, fun loc => ?_⟩
  rw [keyAt_bump]
  refine (hs.issued loc).mono fun e => ?_
  rw [advances_bump]
  exact Nat.le_add_right _ _

theorem Dated.setKeyAt (hs : s.Dated) (loc : KeyLoc) {k : Key} (hk : s.Issued k) :
    (s.setKeyAt loc k).Dated := by
  have hclock := SameClock.setKeyAt s loc k
  refine ⟨hs.counted.of_sameClock hclock, fun loc' => ?_⟩
  have hkey : s.Issued ((s.setKeyAt loc k).keyAt loc') := by
    by_cases h : loc' = loc
    · subst h
      rwa [keyAt_setKeyAt]
    · rw [keyAt_setKeyAt_of_ne h]
      exact hs.issued loc'
  exact hkey.mono fun e => (hclock.advances e).ge

theorem Dated.resolve (hs : s.Dated) {k : Key} (hk : s.Issued k) : s.Issued (s.resolve k) := by
  unfold KState.resolve
  split
  · exact hk
  · exact hs.counted.filled 0 0#64

theorem Dated.loadMpu (hs : s.Dated) (c : TableIndex) : (s.loadMpu c).Dated := by
  have hclock : SameClock s (s.loadMpu c) := .of_history rfl rfl
  refine ⟨hs.counted.of_sameClock hclock, fun loc => ?_⟩
  refine Issued.mono (s := s) (fun e => (hclock.advances e).ge) ?_
  cases loc with
  | keyReg x i =>
    have hkey : (s.loadMpu c).keyAt (.keyReg x i) = s.keyAt (.keyReg x i) := by
      by_cases hx : x = c <;> simp [KState.loadMpu, keyAt, hx]
    exact hkey ▸ hs.issued _
  | regionReg x i =>
    by_cases hx : x = c
    · subst hx
      have hkey : (s.loadMpu x).keyAt (.regionReg x i) = s.resolve (s.keyAt (.regionReg x i)) := by
        simp [KState.loadMpu, keyAt]
      exact hkey ▸ hs.resolve (hs.issued _)
    · have hkey : (s.loadMpu c).keyAt (.regionReg x i) = s.keyAt (.regionReg x i) := by
        simp [KState.loadMpu, keyAt, hx]
      exact hkey ▸ hs.issued _
  | target x => exact hs.issued (.target x)

theorem sameClock_switchTo (s : KState) (c : TableIndex) : SameClock s (s.switchTo c) := by
  have hrecorded : SameClock s (s.record (.switched c)) := .record s fun _ => rfl
  exact hrecorded.trans (.of_history rfl rfl)

theorem Dated.switchTo (hs : s.Dated) (c : TableIndex) : (s.switchTo c).Dated := by
  have hrecorded : SameClock s (s.record (.switched c)) := .record s fun _ => rfl
  have hcurrent : ({ s.record (.switched c) with current := c } : KState).Dated :=
    hs.of_sameClock (hrecorded.trans (.of_history rfl rfl)) (keyAt_of_bodies rfl rfl)
  exact hcurrent.loadMpu c

end KState

section

variable {cfg : Config} {e : TableIndex} {brand : Brand} {m : Message} {k : Keys} {s s' : KState}
  {rs : ReplySender}

/-- The invalidation of Memory loads the MPU; the others leave all stored keys alone. -/
theorem KState.invalidationHook_keys (s : KState) (x : TableIndex) :
    s.invalidationHook x = s.loadMpu s.current ∨ (s.invalidationHook x).keyAt = s.keyAt := by
  unfold invalidationHook
  split
  · exact .inl rfl
  · right
    dsimp only
    split
    · simp
    · simp
  · right
    funext loc
    cases loc with
    | keyReg | regionReg => rfl
    | target i => by_cases hi : i = x <;> simp [keyAt, requeue, hi]
  · exact .inr rfl

theorem KState.Dated.invalidationHook (hs : s.Dated) (x : TableIndex) : (s.invalidationHook x).Dated := by
  rcases s.invalidationHook_keys x with hload | hkeys
  · rw [hload]
    exact hs.loadMpu _
  · exact hs.of_sameClock (s.sameClock_invalidationHook x) hkeys

theorem KState.Dated.buildObject (hs : s.Dated) (t : TypeCode) (x : TableIndex) (body argument : Word) :
    (s.buildObject t x body argument).Dated := by
  have hclock : SameClock s (s.buildObject t x body argument) := by
    cases t <;> exact .of_history rfl rfl
  refine ⟨hs.counted.of_sameClock hclock, fun loc => ?_⟩
  rcases keyAt_buildObject (s := s) t x body argument loc with hkeep | ⟨-, hempty⟩
  · rw [hkeep]
    exact (hs.issued loc).mono fun e => (hclock.advances e).ge
  · rw [hempty]
    exact issued_empty

/-- Methods store keys that were made at a generation so far. -/
theorem Effect.dated (h : Effect cfg e brand m k s rs s') (hs : s.Dated) (hk : s.Issued (k 1)) :
    s'.Dated := by
  cases h with
  | writeKey | setTarget => exact hs.setKeyAt _ hk
  | writeRegion r =>
    split
    · exact (hs.setKeyAt (.regionReg e r) hk).loadMpu _
    · exact hs.setKeyAt _ hk
  | writeSave | setPriority =>
    refine hs.of_sameClock (.of_history rfl rfl) ?_
    simp [keyAt_updateContext]
  | callOff seat g =>
    have hroused : SameClock s (s.reseat e .runnable).pend := .of_history rfl rfl
    exact hs.of_sameClock (hroused.trans (.calledOff _ e)) (by simp)
  | callOffReply =>
    have hroused : SameClock (s.advanceReply e) ((s.advanceReply e).reseat e .runnable).pend :=
      .of_history rfl rfl
    exact hs.of_sameClock (((SameClock.advanceReply s e).trans hroused).trans (.calledOff _ e))
      (by simp)
  | start => exact hs.of_sameClock (.of_history rfl rfl) (by simp)
  | mint | noInvalidate => exact hs.of_sameClock (.record _ fun _ => rfl) (keyAt_record _)
  | invalidate =>
    have hrecorded : (s.record (.invalidateRequested m.d0 (m.d1 != 0#32))).Dated :=
      hs.of_sameClock (.record _ fun _ => rfl) (keyAt_record _)
    exact (hrecorded.invalidationHook _).bump _
  | split slot =>
    unfold splitMemory
    extract_lets _ top bottom
    have htop : top.Dated := (hs.bump slot).of_sameClock (.of_history (by simp [top]) (by simp [top]))
      (by simp [top])
    have horphan : (top.orphan e).Dated := htop.of_sameClock (.of_history (by simp) (by simp)) (by simp)
    have hbottom : bottom.Dated := (horphan.bump e).of_sameClock
      (.of_history (by simp [bottom]) (by simp [bottom])) (by simp [bottom])
    exact hbottom.loadMpu _
  | makeChild slot =>
    exact (hs.bump slot).of_sameClock (.of_history (by simp [makeChildMemory]) (by simp [makeChildMemory]))
      (by simp [makeChildMemory])
  | become t =>
    have hbuilt := (hs.bump e).buildObject t e (s.memory e).base m.d1
    have hdonated : (((s.bump e).buildObject t e (s.memory e).base m.d1).record
        (.donated e (s.memory e).base (s.memory e).size)).Dated :=
      hbuilt.of_sameClock (.record _ fun _ => rfl) (keyAt_record _)
    exact hdonated.loadMpu _
  | _ => exact hs.of_sameClock (.of_history rfl rfl) rfl

/-- The keys in a reply are as good as stored ones. -/
theorem Effect.issued (h : Effect cfg e brand m k s rs s') (hs : s.Dated) (hk : s.Issued (k 1))
    (i : Fin nMessageKeys) : s'.Issued (rs.keys i) := by
  have hcounted := (h.dated hs hk).counted
  have hwith : ∀ {t : KState} {key : Key}, t.Issued key → t.Issued ((ReplySender.withKey key).keys i) := by
    intro t key hkey
    by_cases hi : i = 1
    · subst hi
      simpa [ReplySender.withKey, ReplySender.setKey] using hkey
    · simpa [ReplySender.withKey, ReplySender.setKey, hi] using issued_empty
  cases h with
  | reply rs hrs | noInvalidate rs _ _ hrs => exact hrs.keys i ▸ issued_empty
  | readKey loc => exact hwith (hs.issued loc)
  | clientKey | change => exact hwith (hs.counted.filled _ _)
  | mint => exact hwith (hcounted.filled _ _)
  | makeChild | become => exact hwith (hcounted.filled _ _)
  | split slot =>
    by_cases h1 : i = 1
    · subst h1
      simpa [ReplySender.setKey] using hcounted.filled _ _
    · by_cases h2 : i = 2
      · subst h2
        simpa [ReplySender.setKey] using hcounted.filled _ _
      · simpa [ReplySender.setKey, h1, h2] using issued_empty
  | _ => exact issued_empty

theorem Ticks.advances_le (h : Ticks e brand m k s s') (x : TableIndex) :
    s.advances x ≤ s'.advances x := by
  cases h with
  | none h => exact (h.advances x).ge
  | invalidate _ _ _ h | makeChild _ _ _ h | become _ _ h =>
    rw [h.advances, advances_bump]
    exact Nat.le_add_right _ _
  | split slot _ _ h =>
    rw [h.advances, advances_bump, advances_bump]
    omega

/-- A key passes the generation check where its generation stands for the entry's. -/
theorem KState.Counted.isLive_iff (hs : s.Counted) {k : Key} {e : TableIndex} {n : Nat}
    (hptr : k.ptr = some e) (hgeneration : k.generation = stamp 32 n) (hn : n ≤ s.advances e) :
    s.isLive k = true ↔ 2 ^ 32 ∣ s.advances e - n := by
  rw [← stamp_eq_iff_dvd hn, ← hgeneration, ← hs e]
  simp [KState.isLive, hptr]

/-- An object takes another's place only in an entry whose generation moves. -/
theorem Effect.kind_or_advances (h : Effect cfg e brand m k s rs s') (x : TableIndex) :
    s'.kind x = s.kind x ∨ s.advances x < s'.advances x := by
  cases h with
  | split slot =>
    have hadvances : (s.splitMemory e slot m.d0).advances x =
        s.advances x + (if slot = x then 1 else 0) + if e = x then 1 else 0 := by
      simp [KState.advances, splitMemory, Event.advances, List.countP_cons]
    rw [hadvances]
    by_cases hx : slot = x ∨ e = x
    · right
      rcases hx with rfl | rfl
      · simp only [if_true]
        omega
      · simp only [if_true]
        omega
    · obtain ⟨hslot, he⟩ := not_or.mp hx
      exact .inl (by simp [splitMemory, Ne.symm hslot, Ne.symm he])
  | makeChild slot =>
    have hadvances : (s.makeChildMemory e slot m.d0 m.d1).advances x =
        s.advances x + if slot = x then 1 else 0 := by
      simp [KState.advances, makeChildMemory, Event.advances, List.countP_cons]
    rw [hadvances]
    by_cases hx : slot = x
    · right
      rw [if_pos hx]
      omega
    · exact .inl (by simp [makeChildMemory, Ne.symm hx])
  | become t =>
    have hadvances : (s.becomeObject e t m.d1).advances x = s.advances x + if e = x then 1 else 0 := by
      cases t <;> simp [KState.advances, becomeObject, buildObject, Event.advances, List.countP_cons]
    rw [hadvances]
    by_cases hx : e = x
    · right
      rw [if_pos hx]
      omega
    · left
      cases t <;> simp [becomeObject, buildObject, Ne.symm hx]
  | invalidate =>
    left
    simp only [invalidated, kind_bump, invalidationHook]
    split <;> (try split) <;> rfl
  | writeKey | setTarget => exact .inl (congrFun (kind_of_objects (objects_setKeyAt _ _ _)) x)
  | writeRegion r =>
    left
    split
    · exact congrFun (kind_of_objects (objects_setKeyAt _ (.regionReg e r) (k 1))) x
    · exact congrFun (kind_of_objects (objects_setKeyAt _ _ _)) x
  | _ => exact .inl rfl

/-- Short of a rollover, a key that is live after a method was live before it, and for the same
object. -/
theorem Effect.live_before (h : Effect cfg e brand m k s rs s') (hs : s.Dated) (hs' : s'.Dated)
    (hfew : ∀ x, s'.advances x < 2 ^ 32) {key : Key} (hkey : s.Issued key)
    (hlive : s'.isLive key = true) :
    s.isLive key = true ∧ ∀ c, key.ptr = some c → s'.kind c = s.kind c := by
  cases hptr : key.ptr with
  | none => simp [KState.isLive, hptr] at hlive
  | some c =>
    obtain ⟨n, hn, hgeneration⟩ := hkey c hptr
    have hle := h.ticks.advances_le c
    -- The key is from the present epoch, which began before the method.
    have hturns := (hs'.counted.isLive_iff hptr hgeneration (hn.trans hle)).mp hlive
    have hnow : s'.advances c - n = 0 :=
      Nat.eq_zero_of_dvd_of_lt hturns ((Nat.sub_le _ _).trans_lt (hfew c))
    have hsame : s.advances c - n = 0 := by omega
    refine ⟨(hs.counted.isLive_iff hptr hgeneration hn).mpr (by simp [hsame]), ?_⟩
    rintro x ⟨⟩
    refine (h.kind_or_advances c).resolve_right fun hlt => ?_
    omega

end

/-! ## Steps -/

section

variable {cfg : Config} {s s' : KState}

/-- The keys that arrive with a message are stored ones, or new. -/
theorem Act.dated {A : Authority} (h : Act A s s') (hA : ∀ k, A.key s k → s.Issued k) (hs : s.Dated) :
    s'.Dated := by
  have hclock := h.sameClock
  refine ⟨hs.counted.of_sameClock hclock, fun loc => ?_⟩
  refine Issued.mono (s := s) (fun e => (hclock.advances e).ge) ?_
  rcases h.keyAt_cases loc with hkeep | ⟨-, -, -, hnull⟩ | ⟨c, r, -, -, -, harrives⟩
  · exact hkeep ▸ hs.issued loc
  · exact hnull ▸ hs.counted.filled 0 0#64
  · rcases harrives with hkey | ⟨loc', -, hkey⟩ | ⟨x, -, -, -, -, hkey⟩
    · exact hA _ hkey
    · exact hkey ▸ hs.issued loc'
    · exact hkey ▸ hs.counted.filled _ _

/-- Every stored key is from a generation so far, and no counter goes back. -/
def KState.DatedFrom (n : TableIndex → Nat) (s : KState) : Prop := s.Dated ∧ ∀ e, n e ≤ s.advances e

theorem KState.DatedFrom.of_sameClock {n : TableIndex → Nat} (hs : s.DatedFrom n) (h : SameClock s s')
    (hkeys : s'.keyAt = s.keyAt) : s'.DatedFrom n :=
  ⟨hs.1.of_sameClock h hkeys, fun e => (hs.2 e).trans (h.advances e).ge⟩

theorem dated_confined (n : TableIndex → Nat) : Confined (.sort Issued) (DatedFrom n) := by
  refine .sort (fun h => h.1.counted.filled 0 0#64) (fun loc h => h.1.issued loc)
    (fun _ h _ => h.1.counted.filled _ _) (fun {s c dst} _ h hsits => ?_) (fun _ h hact => ?_)
    (fun _ _ hact hk => hk.mono fun e => (hact.sameClock.advances e).ge)
  · -- The reply key is made before its caller blocks.
    refine (h.1.counted.filled c _).mono fun e => ?_
    cases dst <;> exact le_rfl
  · exact ⟨hact.dated (fun _ hk => hk) h.1, fun e => (h.2 e).trans (hact.sameClock.advances e).ge⟩

theorem dated_keeps (cfg : Config) (n : TableIndex → Nat) :
    Keeps cfg (.sort Issued) (DatedFrom n) (DatedFrom n) (fun p _ => p.isPossible) where
  rules :=
    { pass := dated_confined n
      reply := dated_confined n
      through := fun _ h => h
      serve := by
        intro s e b m k kind rs s' _ h _ _ hkeys heffect
        have hlooked := SameClock.looked s kind e b
        have hdated : (s.looked kind e b).Dated := by
          refine h.1.of_sameClock hlooked ?_
          rcases s.looked_cases kind e b with h | h
          · rw [h]
          · rw [h, keyAt_record]
        have hk : ∀ i, (s.looked kind e b).Issued (k i) := fun i =>
          Issued.mono (fun x => (hlooked.advances x).ge) (hkeys i)
        have hmono : ∀ x, s.advances x ≤ s'.advances x := fun x =>
          (hlooked.advances x).ge.trans (heffect.ticks.advances_le x)
        exact ⟨⟨heffect.dated hdated (hk 1), fun x => (h.2 x).trans (hmono x)⟩,
          Issued.mono hmono (hkeys 0), fun i => heffect.issued hdated (hk 1) i⟩
      fault := fun _ _ _ _ hfault _ => hfault.isServed.isPossible
      honest := fun _ _ _ _ _ _ _ _ _ => by simp [Panic.isPossible]
      honestReply := fun _ _ _ _ _ _ _ _ _ => by simp [Panic.isPossible] }
  object _ := trivial
  blocks := trivial
  masked i h := h.of_sameClock (.of_history rfl rfl) (keyAt_of_bodies rfl rfl)
  entered stack regs h := by
    refine h.of_sameClock (.of_history rfl rfl) ?_
    rw [entered, keyAt_updateContext rfl rfl]
    exact keyAt_of_bodies rfl rfl
  copied c dst src _ h :=
    ⟨h.1.setKeyAt _ (h.1.issued _), fun e =>
      (h.2 e).trans ((SameClock.setKeyAt _ _ _).advances e).ge⟩
  stored a v _ h := h.of_sameClock (.of_history rfl rfl) (keyAt_of_bodies rfl rfl)
  deferred h := h.of_sameClock (.of_history rfl rfl) (keyAt_of_bodies rfl rfl)
  elected {t} c _ _ h := by
    have hidle : ({ t with switchPending := false } : KState).DatedFrom n :=
      h.of_sameClock (.of_history rfl rfl) (keyAt_of_bodies rfl rfl)
    exact ⟨hidle.1.switchTo c, fun e => (hidle.2 e).trans ((sameClock_switchTo _ c).advances e).ge⟩
  checks p s' h := by
    rcases h with h | rfl | rfl
    · exact h.isServed.isPossible
    · simp [Panic.isPossible]
    · simp [Panic.isPossible]

/-- At boot all generations are 0. -/
theorem Booted.dated {app : AppInfo} (h : Booted app s) : s.Dated := by
  have hcounted : s.Counted := by
    intro e
    rw [h.generation, advances, h.history]
    rfl
  refine ⟨hcounted, fun loc => ?_⟩
  cases loc with
  | keyReg c i =>
    by_cases hc : c = 2
    · subst hc
      rw [keyAt, h.keys]
      by_cases hi : i = 1
      · subst hi
        simpa using hcounted.filled 1 0#64
      · simpa [hi] using issued_empty
    · rw [keyAt, h.others c hc]
      exact issued_empty
  | regionReg c i =>
    by_cases hc : c = 2
    · subst hc
      obtain ⟨e, b, -, hkey⟩ := h.regions i
      rw [keyAt, hkey]
      exact hcounted.filled e _
    · rw [keyAt, h.others c hc]
      exact issued_empty
  | target i =>
    rw [keyAt, h.interrupt]
    exact issued_empty

theorem Reachable.dated (hcfg : cfg.eagerRevocation = false) {app : AppInfo}
    (h : Reachable cfg app s) : s.Dated :=
  ((dated_keeps cfg fun _ => 0).reachable hcfg (fun hboot => ⟨hboot.dated, fun _ => Nat.zero_le _⟩) h).1

end

/-! ## Runs -/

/-- A later state of a run all of whose steps meet a condition. -/
def LaterUnder (cfg : Config) (ok : KState → Action → Prop) : KState → KState → Prop :=
  Relation.ReflTransGen fun s s' => ∃ a, ok s a ∧ step cfg a s = .ok () s'

/-- A later state of a run. -/
abbrev Later (cfg : Config) : KState → KState → Prop := LaterUnder cfg fun _ _ => True

section

variable {etl : Etl} {app : AppInfo} {ok : KState → Action → Prop} {s s' : KState}

theorem LaterUnder.later {cfg : Config} (h : LaterUnder cfg ok s s') : Later cfg s s' := by
  induction h with
  | refl => exact .refl
  | tail _ hstep ih =>
    obtain ⟨a, -, hrun⟩ := hstep
    exact ih.tail ⟨a, trivial, hrun⟩

theorem ReachableUnder.later (h : ReachableUnder (.source etl) app ok s)
    (hlater : LaterUnder (.source etl) ok s s') : ReachableUnder (.source etl) app ok s' := by
  induction hlater with
  | refl => exact h
  | tail _ hstep ih =>
    obtain ⟨a, hok, hrun⟩ := hstep
    exact .step ih hok hrun

/-- No step takes an advance back. -/
theorem Reachable.advances_step (h : Reachable (.source etl) app s) {a : Action}
    (hstep : BrittleKernel.step (.source etl) a s = .ok () s') (e : TableIndex) :
    s.advances e ≤ s'.advances e :=
  (wp_ok (a := ()) (Q := fun _ (t : KState) => t.DatedFrom s.advances)
    ((dated_keeps (.source etl) s.advances).step rfl (h.settled rfl) ⟨h.dated rfl, fun _ => le_rfl⟩ a)
    hstep).2 e

theorem ReachableUnder.advances_le (h : ReachableUnder (.source etl) app ok s)
    (hlater : LaterUnder (.source etl) ok s s') (e : TableIndex) : s.advances e ≤ s'.advances e := by
  induction hlater with
  | refl => exact le_rfl
  | tail hmid hstep ih =>
    obtain ⟨a, -, hrun⟩ := hstep
    exact ih.trans ((h.later hmid).reachable.advances_step hrun e)

/-- The methods that give an entry to a new object. -/
def MemoryMethod.Rebuilds (method : MemoryMethod) : Prop :=
  method = .split ∨ method = .makeChild ∨ method = .become

/-- The step may take a generation past its last value: an Invalidate that permits it, or a
rebuilding of Memory or of a Slot, which does not ask. -/
def KState.RollsOver (s : KState) (a : Action) : Prop :=
  ∃ e m x, Requests s a e m ∧ s.generation x = 0#32 - 1#32 ∧
    (s.kind e = .objectTable ∧
        ObjectTableMethod.ofSelector m.desc.getSelector = some .invalidate ∧
        x = m.d0.toNat ∧ m.d1 ≠ 0#32 ∨
      s.kind e = .memory ∧
        (∃ method, MemoryMethod.ofSelector m.desc.getSelector = some method ∧ method.Rebuilds) ∧
        (x = e ∨ s.kind x = .slot))

theorem KState.Counted.advances_lt (hs : s.Counted) {e : TableIndex} (hlt : s.advances e < 2 ^ 32)
    (hlast : s.generation e ≠ 0#32 - 1#32) : s.advances e + 1 < 2 ^ 32 := by
  by_contra hge
  refine hlast ?_
  rw [hs e, ← stamp_last, show s.advances e = 2 ^ 32 - 1 by omega]

/-- A run without rollovers never gets to the end of a counter. -/
theorem ReachableUnder.advances_lt
    (h : ReachableUnder (.source etl) app (fun s a => ¬s.RollsOver a) s) (e : TableIndex) :
    s.advances e < 2 ^ 32 := by
  have hinvariant : s.Counted ∧ ∀ e, s.advances e < 2 ^ 32 := by
    refine h.tables (I := fun s => s.Counted ∧ ∀ e, s.advances e < 2 ^ 32) rfl (fun hboot => ?_) ?_ ?_
    · refine ⟨hboot.dated.counted, fun e => ?_⟩
      have hnone := hboot.history
      rw [KState.advances, hnone]
      show 0 < 2 ^ 32
      decide
    · intro s s' huntouched hs
      have hclock := SameClock.of_untouched huntouched
      exact ⟨hs.1.of_sameClock hclock, fun e => hclock.advances e ▸ hs.2 e⟩
    · intro s s' t a e m k rs brand _ hs hok hrequest huntouched _ heffect
      have hclock := SameClock.of_untouched huntouched
      have ht : t.Counted ∧ ∀ e, t.advances e < 2 ^ 32 :=
        ⟨hs.1.of_sameClock hclock, fun e => hclock.advances e ▸ hs.2 e⟩
      -- An entry whose generation moves is not at its last one.
      have htick : ∀ x, t.generation x ≠ 0#32 - 1#32 →
          (t.bump x).Counted ∧ ∀ y, (t.bump x).advances y < 2 ^ 32 := by
        intro x hx
        refine ⟨ht.1.bump x, fun y => ?_⟩
        rw [advances_bump]
        split
        next hxy => exact ht.1.advances_lt (ht.2 y) (hxy ▸ hx)
        · exact ht.2 y
      have hend : ∀ {u : KState}, (u.Counted ∧ ∀ y, u.advances y < 2 ^ 32) → SameClock u s' →
          s'.Counted ∧ ∀ y, s'.advances y < 2 ^ 32 := fun hu hsame =>
        ⟨hu.1.of_sameClock hsame, fun y => hsame.advances y ▸ hu.2 y⟩
      have hrebuild : ∀ method, MemoryMethod.ofSelector m.desc.getSelector = some method →
          method.Rebuilds → t.kind e = .memory → ∀ x, x = e ∨ t.kind x = .slot →
          t.generation x ≠ 0#32 - 1#32 := by
        intro method hm hrebuilds he x hx hlast
        rw [huntouched.kind] at he hx
        rw [huntouched.generation] at hlast
        exact hok ⟨e, m, x, hrequest, hlast, .inr ⟨he, ⟨method, hm, hrebuilds⟩, hx⟩⟩
      cases heffect.ticks with
      | none hsame => exact hend ht hsame
      | invalidate he hm hguard hsame =>
        refine hend (htick _ fun hlast => ?_) hsame
        by_cases hforced : m.d1 = 0#32
        · exact hguard (by simp [hforced]) hlast
        · rw [huntouched.kind] at he
          rw [huntouched.generation] at hlast
          exact hok ⟨e, m, _, hrequest, hlast, .inl ⟨he, hm, rfl, hforced⟩⟩
      | split slot haccepted _ hsame =>
        have hgenerations := hrebuild .split haccepted.method (.inl rfl) haccepted.memory
        have hne : e ≠ slot := by
          rintro rfl
          exact absurd (haccepted.memory.symm.trans haccepted.slot) (by decide)
        have hslot := htick slot (hgenerations slot (.inr haccepted.slot))
        refine hend ⟨hslot.1.bump e, fun y => ?_⟩ hsame
        rw [advances_bump]
        split
        next hey =>
          subst hey
          refine hslot.1.advances_lt (hslot.2 e) ?_
          rw [generation_bump, Function.update_of_ne hne]
          exact hgenerations e (.inl rfl)
        · exact hslot.2 y
      | makeChild slot haccepted _ hsame =>
        exact hend (htick slot (hrebuild .makeChild haccepted.method (.inr (.inl rfl))
          haccepted.memory slot (.inr haccepted.slot))) hsame
      | become typeCode haccepted hsame =>
        exact hend (htick e (hrebuild .become haccepted.method (.inr (.inr rfl)) haccepted.memory e
          (.inl rfl))) hsame
  exact hinvariant.2 e

/-- A run whose counters stay short of the end has no rollovers. -/
theorem Reachable.under_of_few (h : Reachable (.source etl) app s)
    (hfew : ∀ e, s.advances e < 2 ^ 32 - 1) :
    ReachableUnder (.source etl) app (fun s a => ¬s.RollsOver a) s := by
  induction h with
  | boot hboot => exact .boot hboot
  | step hr hstep ih =>
    have hbefore : ∀ e, _ := fun e => (hr.advances_step hstep e).trans_lt (hfew e)
    refine .step (ih hbefore) ?_ hstep
    rintro ⟨-, -, x, -, hlast, -⟩
    -- The last generation stands for the last epoch.
    have hx := hbefore x
    rw [(hr.dated rfl).counted x, ← stamp_last] at hlast
    have heq := eq_of_stamp_eq hx.le (by decide) hlast
    omega

end

end BrittleKernel
