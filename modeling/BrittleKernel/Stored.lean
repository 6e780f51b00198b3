import BrittleKernel.Rebuilding

/-!
# Stored Keys

What the acts of message passing and the methods of the kernel objects do to the keys in
key registers, region registers and Interrupt targets.
-/

namespace BrittleKernel

open KState

/-- A key that was made null, or never filled. -/
def Key.Blank (k : Key) : Prop := k.brand = 0#64 ∧ (k.ptr = none ∨ k.ptr = some 0)

theorem KState.blank_nullKey (s : KState) : s.nullKey.Blank := ⟨rfl, .inr rfl⟩

namespace KState

variable {s : KState}

theorem keyAt_setKeyAt (s : KState) (loc : KeyLoc) (k : Key) : (s.setKeyAt loc k).keyAt loc = k := by
  cases loc <;> simp [setKeyAt, keyAt]

theorem keyAt_setKeyAt_of_ne {loc loc' : KeyLoc} (h : loc' ≠ loc) (k : Key) :
    (s.setKeyAt loc k).keyAt loc' = s.keyAt loc' := by
  cases loc with
  | keyReg c i =>
    cases loc' with
    | keyReg x j =>
      by_cases hx : x = c
      · subst hx
        have hj : j ≠ i := by rintro rfl; exact h rfl
        simp [setKeyAt, keyAt, hj]
      · simp [setKeyAt, keyAt, hx]
    | regionReg x j => by_cases hx : x = c <;> simp [setKeyAt, keyAt, hx]
    | target x => rfl
  | regionReg c i =>
    cases loc' with
    | keyReg x j => by_cases hx : x = c <;> simp [setKeyAt, keyAt, hx]
    | regionReg x j =>
      by_cases hx : x = c
      · subst hx
        have hj : j ≠ i := by rintro rfl; exact h rfl
        simp [setKeyAt, keyAt, hj]
      · simp [setKeyAt, keyAt, hx]
    | target x => rfl
  | target i =>
    cases loc' with
    | keyReg | regionReg => rfl
    | target x =>
      have hx : x ≠ i := by rintro rfl; exact h rfl
      simp [setKeyAt, keyAt, hx]

theorem keyAt_updateContext {f : Context → Context} {c : TableIndex}
    (hkeys : (f (s.context c)).keys = (s.context c).keys)
    (hregions : (f (s.context c)).regions = (s.context c).regions) :
    (s.updateContext c f).keyAt = s.keyAt := by
  funext loc
  cases loc with
  | keyReg x j => by_cases hx : x = c <;> simp [keyAt, hx, hkeys]
  | regionReg x j => by_cases hx : x = c <;> simp [keyAt, hx, hregions]
  | target x => rfl

theorem keyAt_updateInterrupt {f : Interrupt → Interrupt} {i : TableIndex}
    (htarget : (f (s.interrupt i)).target = (s.interrupt i).target) :
    (s.updateInterrupt i f).keyAt = s.keyAt := by
  funext loc
  cases loc with
  | keyReg | regionReg => rfl
  | target x => by_cases hx : x = i <;> simp [keyAt, hx, htarget]

@[simp] theorem keyAt_record (ev : Event) : (s.record ev).keyAt = s.keyAt := by
  funext loc
  cases loc <;> rfl

@[simp] theorem keyAt_pend : s.pend.keyAt = s.keyAt := by
  funext loc
  cases loc <;> rfl

@[simp] theorem keyAt_reseat (c : TableIndex) (seat : Seat) : (s.reseat c seat).keyAt = s.keyAt :=
  keyAt_updateContext (s := s) (c := c) (f := fun b => { b with
        state := seat.state
        ctxItem := Item.on seat.ctxList b.priority
        senderItem := Item.on seat.senderList b.priority }) rfl rfl

@[simp] theorem keyAt_requeue (i : TableIndex) (l : Option ListId) :
    (s.requeue i l).keyAt = s.keyAt :=
  keyAt_updateInterrupt (s := s) (i := i) (f := fun b =>
    { b with senderItem := Item.on l b.priority }) rfl

@[simp] theorem keyAt_advanceReply (c : TableIndex) : (s.advanceReply c).keyAt = s.keyAt := by
  rw [advanceReply, keyAt_record]
  exact keyAt_updateContext rfl rfl

theorem keyAt_deposit (dst : KeysRef) (ks : Keys) (loc : KeyLoc) :
    (s.deposit dst ks).keyAt loc = s.keyAt loc ∨
      ∃ c map r i, dst = .bank c map ∧ loc = .keyReg c r ∧ r ≠ 0 ∧
        (s.deposit dst ks).keyAt loc = ks i := by
  cases dst with
  | frame => exact .inl rfl
  | bank c map =>
    cases loc with
    | keyReg x r =>
      by_cases hx : x = c
      · subst hx
        have hregs : (s.deposit (.bank x map) ks).keyAt (.keyReg x r) =
            storeKeys (s.context x).keys map ks r := by
          simp [deposit, keyAt]
        rcases storeKeys_cases (s.context x).keys map ks r with h | ⟨hr, i, h⟩
        · exact .inl (hregs.trans h)
        · exact .inr ⟨x, map, r, i, rfl, rfl, hr, hregs.trans h⟩
      · exact .inl (by simp [deposit, keyAt, hx])
    | regionReg x r =>
      left
      by_cases hx : x = c
      · subst hx; simp [deposit, keyAt]
      · simp [deposit, keyAt, hx]
    | target i => exact .inl rfl

end KState

/-- Where a key that message passing puts in a register comes from: the kernel was holding
it, another register holds it, or it is the reply key of a caller that has just blocked. -/
def Act.Arriving (A : Authority) (s s' : KState) (k : Key) : Prop :=
  A.key s k ∨ (∃ loc, A.obj loc.owner ∧ k = s.keyAt loc) ∨
    ∃ x, A.obj x ∧ A.blocks ∧ s.Sits x .runnable ∧ s'.Sits x .awaiting ∧
      k = s.filled x (s.context x).expectedReplyBrand

/-- What an act does to a stored key: it stays, or it was stale and is nulled, or a message's
key replaces it. -/
theorem Act.keyAt_cases {A : Authority} {s s' : KState} (h : Act A s s') (loc : KeyLoc) :
    s'.keyAt loc = s.keyAt loc ∨
      (A.obj loc.owner ∧ (∀ c i, loc ≠ .regionReg c i) ∧ s.isLive (s.keyAt loc) = false ∧
        s'.keyAt loc = s.nullKey) ∨
      ∃ c r, loc = .keyReg c r ∧ r ≠ 0 ∧ A.obj c ∧ Act.Arriving A s s' (s'.keyAt loc) := by
  cases h with
  | drop loc' howner hregion hstale =>
    by_cases hloc : loc = loc'
    · subst hloc
      exact .inr (.inl ⟨howner, hregion, hstale, keyAt_setKeyAt _ _ _⟩)
    · exact .inl (keyAt_setKeyAt_of_ne hloc _)
  | deposit dst ks hinto hks =>
    rcases keyAt_deposit dst ks loc with h | ⟨c, map, r, i, rfl, hloc, hr, h⟩
    · exact .inl h
    · exact .inr (.inr ⟨c, r, hloc, hr, hinto, .inl (h ▸ hks i)⟩)
  | call c dst hblocks hc hinto _ hsits hcall =>
    rcases keyAt_deposit dst (s.sentKeys c) loc with h | ⟨x, map, r, i, rfl, hloc, hr, h⟩
    · exact .inl (by simpa using h)
    · refine .inr (.inr ⟨x, r, hloc, hr, hinto, .inr ?_⟩)
      have hkey : (((s.deposit (.bank x map) (s.sentKeys c)).reseat c .awaiting).pend).keyAt loc =
          s.sentKeys c i := by
        simpa using h
      rw [hkey]
      by_cases hi : i = 0
      · right
        have hsame := s.sameSeats_deposit (.bank x map) (s.sentKeys c)
        refine ⟨c, hc, hblocks, hsits, (sameSeats_pend _).sits (sits_reseat _ _ _ (fun _ => ?_)
          (by simp [Seat.gate])), by simp [sentKeys, hi, hcall]⟩
        exact (hsame.sits hsits).kind_of_runnable
      · exact .inl ⟨.keyReg c (nibble ((s.context c).save 6) i), hc, by simp [sentKeys, hi]⟩
  | save | blockInSend =>
    left
    simp [saveBrand, keyAt_updateContext]
  | blockIrq =>
    left
    simp [saveIrqBrand, keyAt_updateInterrupt]
  | _ => exact .inl (by simp)

/-! ## Methods -/

namespace KState

variable {s : KState}

theorem keyAt_loadMpu (c : TableIndex) (loc : KeyLoc) :
    (s.loadMpu c).keyAt loc = s.keyAt loc ∨
      ((s.loadMpu c).keyAt loc).Blank ∧ ∃ i, loc = .regionReg c i := by
  cases loc with
  | keyReg x i => by_cases hx : x = c <;> simp [loadMpu, keyAt, hx]
  | target x => exact .inl rfl
  | regionReg x i =>
    by_cases hx : x = c
    · subst hx
      have hkey : (s.loadMpu x).keyAt (.regionReg x i) = s.resolve (s.keyAt (.regionReg x i)) := by
        simp [loadMpu, keyAt]
      rw [hkey]
      cases hlive : s.isLive (s.keyAt (.regionReg x i)) with
      | true => exact .inl (by simp [resolve, hlive])
      | false => exact .inr ⟨by simp [resolve, hlive, blank_nullKey], i, rfl⟩
    · exact .inl (by simp [loadMpu, keyAt, hx])

@[simp] theorem keyAt_bump (e : TableIndex) : (s.bump e).keyAt = s.keyAt := by
  funext loc
  cases loc <;> rfl

@[simp] theorem keyAt_buildMemory (e : TableIndex) (base size attributes : Word)
    (parent : Option TableIndex) : (s.buildMemory e base size attributes parent).keyAt = s.keyAt := by
  funext loc
  cases loc <;> simp [keyAt]

@[simp] theorem keyAt_orphan (e : TableIndex) : (s.orphan e).keyAt = s.keyAt := by
  funext loc
  cases loc <;> simp [keyAt]

@[simp] theorem keyAt_calledOff (c : TableIndex) : (s.calledOff c).keyAt = s.keyAt := by
  rw [calledOff, keyAt_record]
  exact keyAt_updateContext rfl rfl

theorem keyAt_buildObject (t : TypeCode) (e : TableIndex) (body argument : Word) (loc : KeyLoc) :
    (s.buildObject t e body argument).keyAt loc = s.keyAt loc ∨
      loc.owner = e ∧ (s.buildObject t e body argument).keyAt loc = {} := by
  cases t with
  | context =>
    cases loc with
    | keyReg x i | regionReg x i =>
      by_cases hx : x = e
      · exact .inr ⟨hx, by simp [buildObject, keyAt, hx]⟩
      · exact .inl (by simp [buildObject, keyAt, hx])
    | target x => exact .inl rfl
  | gate => cases loc <;> exact .inl rfl
  | interrupt =>
    cases loc with
    | keyReg | regionReg => exact .inl rfl
    | target x =>
      by_cases hx : x = e
      · exact .inr ⟨hx, by simp [buildObject, keyAt, hx]⟩
      · exact .inl (by simp [buildObject, keyAt, hx])

theorem keyAt_invalidationHook (e : TableIndex) (loc : KeyLoc) :
    (s.invalidationHook e).keyAt loc = s.keyAt loc ∨
      ((s.invalidationHook e).keyAt loc).Blank ∧ ∃ i, loc = .regionReg s.current i := by
  unfold invalidationHook
  split
  · exact keyAt_loadMpu s.current loc
  · left
    simp only
    split <;> simp
  · left
    cases loc with
    | keyReg | regionReg => rfl
    | target x => by_cases hx : x = e <;> simp [keyAt, requeue, hx]
  · exact .inl rfl

end KState

/-- What a method does to a stored key: it stays, or it is made null, or the message's key 1
is written to the object. -/
theorem Effect.keyAt_cases {cfg : Config} {e : TableIndex} {brand : Brand} {m : Message} {k : Keys}
    {s s' : KState} {rs : ReplySender} (h : Effect cfg e brand m k s rs s') (loc : KeyLoc) :
    s'.keyAt loc = s.keyAt loc ∨
      ((s'.keyAt loc).Blank ∧ (loc.owner = e ∨ ∃ i, loc = .regionReg s.current i)) ∨
      s'.keyAt loc = k 1 ∧ loc.owner = e ∧ (∀ c, loc ≠ .keyReg c 0) ∧
        (s.kind e = .context ∨ s.kind e = .interrupt) := by
  have hwrite : ∀ loc', loc'.owner = e → (∀ c, loc' ≠ .keyReg c 0) →
      (s.kind e = .context ∨ s.kind e = .interrupt) →
      (s.setKeyAt loc' (k 1)).keyAt loc = s.keyAt loc ∨
        (s.setKeyAt loc' (k 1)).keyAt loc = k 1 ∧ loc.owner = e ∧ (∀ c, loc ≠ .keyReg c 0) ∧
          (s.kind e = .context ∨ s.kind e = .interrupt) := by
    intro loc' howner hzero hkind
    by_cases hloc : loc = loc'
    · subst hloc
      exact .inr ⟨keyAt_setKeyAt _ _ _, howner, hzero, hkind⟩
    · exact .inl (keyAt_setKeyAt_of_ne hloc _)
  cases h with
  | writeKey r he _ hr =>
    exact (hwrite (.keyReg e r) rfl (by simpa using hr) (.inl he)).imp_right .inr
  | setTarget he => exact (hwrite (.target e) rfl (by simp) (.inr he)).imp_right .inr
  | writeRegion r he =>
    have hstored := hwrite (.regionReg e r) rfl (by simp) (.inl he)
    split
    · rcases keyAt_loadMpu (s := s.setKeyAt (.regionReg e r) (k 1)) e loc with hkeep | ⟨hblank, i, rfl⟩
      · rw [hkeep]
        exact hstored.imp_right .inr
      · exact .inr (.inl ⟨hblank, .inl rfl⟩)
    · exact hstored.imp_right .inr
  | setPriority =>
    rw [keyAt_reseat, keyAt_updateContext rfl rfl]
    exact .inl rfl
  | writeSave =>
    rw [keyAt_updateContext rfl rfl]
    exact .inl rfl
  | invalidate =>
    rw [invalidated, keyAt_bump]
    rcases keyAt_invalidationHook (s := s.record (.invalidateRequested m.d0 (m.d1 != 0#32)))
      m.d0.toNat loc with hkeep | ⟨hblank, i, rfl⟩
    · exact .inl (hkeep.trans (by simp))
    · exact .inr (.inl ⟨hblank, .inr ⟨i, rfl⟩⟩)
  | split slot =>
    unfold splitMemory
    extract_lets _ top bottom
    have hbottom : bottom.keyAt = s.keyAt := by simp [bottom, top]
    rcases keyAt_loadMpu (s := bottom) bottom.current loc with hkeep | ⟨hblank, i, rfl⟩
    · exact .inl (hkeep.trans (congrFun hbottom loc))
    · exact .inr (.inl ⟨hblank, .inr ⟨i, by simp [bottom, top]⟩⟩)
  | makeChild slot => exact .inl (by simp [makeChildMemory])
  | become t =>
    unfold becomeObject
    extract_lets _ built
    have hbuilt : built.keyAt loc = s.keyAt loc ∨ loc.owner = e ∧ built.keyAt loc = {} := by
      simpa [built] using keyAt_buildObject (s := s.bump e) t e (s.memory e).base m.d1 loc
    have hcurrent : built.current = s.current := by cases t <;> rfl
    rcases keyAt_loadMpu (s := built) built.current loc with hkeep | ⟨hblank, i, rfl⟩
    · rw [hkeep]
      refine hbuilt.imp_right fun hnew => ?_
      obtain ⟨howner, hempty⟩ := hnew
      exact .inl ⟨hempty ▸ ⟨rfl, .inl rfl⟩, .inl howner⟩
    · exact .inr (.inl ⟨hblank, .inr ⟨i, by rw [hcurrent]⟩⟩)
  | _ =>
    left
    first
    | rfl
    | simp

end BrittleKernel
