import Mathlib
import BrittleKernel.Generations
import BrittleKernel.Rendezvous
import BrittleKernel.Turns

/-!
# Confinement

What a program can do is bounded by the keys it holds.  A set of Object Table entries is closed
if all that its members hold live keys to, and all that wait at its Gates, are members too.  While
members of a closed set run, the set stays closed and the entries outside stay as they are.  The
Object Table itself must be outside, since it can make keys to everything.
-/

namespace BrittleKernel

open Hoare KState

/-! ## Closed sets of entries -/

namespace KState

/-- An entry leads to another if it holds a live key to it, or if the other one waits there. -/
inductive Leads (s : KState) : TableIndex → TableIndex → Prop where
  | key {loc : KeyLoc} {e : TableIndex} : s.isLive (s.keyAt loc) = true →
      (s.keyAt loc).ptr = some e → Leads s loc.owner e
  | waits {g c : TableIndex} {seat : Seat} : s.Sits c seat → seat.gate = some g → Leads s g c
  | queued {g i : TableIndex} : s.Queued i (some g) → Leads s g i

/-- Nothing leads out of the set, and the Object Table is not in it. -/
structure Closed (R : TableIndex → Prop) (s : KState) : Prop where
  null : R 0
  leads : ∀ x e, R x → s.Leads x e → R e
  noTable : ∀ e, R e → s.kind e ≠ .objectTable

open scoped Classical in
/-- The items of a sublist whose owners are not in the set. -/
noncomputable def others (R : TableIndex → Prop) (l : List ItemRef) : List ItemRef :=
  l.filter fun r => ¬R r.owner

/-- The entries outside a set are as before: their bodies, their keys, and their places in all
lists.  The kernel may have nulled revoked region keys, and counted a child more or less. -/
structure Outside (R : TableIndex → Prop) (s s' : KState) : Prop where
  kind : ∀ e, ¬R e → s'.kind e = s.kind e
  generation : ∀ e, ¬R e → s'.generation e = s.generation e
  bodyAddr : ∀ e, ¬R e → s'.bodyAddr e = s.bodyAddr e
  memory : ∀ e, ¬R e → ∃ n, s'.memory e = { s.memory e with childCount := n }
  context : ∀ c, ¬R c → ∃ regions, s'.context c = { s.context c with regions := regions }
  region : ∀ c i, ¬R c → s'.keyAt (.regionReg c i) = s.keyAt (.regionReg c i) ∨
    s'.isLive (s.keyAt (.regionReg c i)) = false ∧ (s'.keyAt (.regionReg c i)).Blank
  interrupt : ∀ i, ¬R i → s'.interrupt i = s.interrupt i
  queues : ∀ l p, others R (s'.queues l p) = others R (s.queues l p)

variable {R : TableIndex → Prop} {s s' s'' : KState}

theorem Outside.refl (s : KState) : Outside R s s :=
  ⟨fun _ _ => rfl, fun _ _ => rfl, fun _ _ => rfl, fun _ _ => ⟨_, rfl⟩, fun _ _ => ⟨_, rfl⟩,
    fun _ _ _ => .inl rfl, fun _ _ => rfl, fun _ _ => rfl⟩

theorem Outside.trans_of_regions (h : Outside R s s') (h' : Outside R s' s'')
    (hregion : ∀ c i, ¬R c → s''.keyAt (.regionReg c i) = s.keyAt (.regionReg c i) ∨
      s''.isLive (s.keyAt (.regionReg c i)) = false ∧ (s''.keyAt (.regionReg c i)).Blank) :
    Outside R s s'' where
  kind e he := (h'.kind e he).trans (h.kind e he)
  generation e he := (h'.generation e he).trans (h.generation e he)
  bodyAddr e he := (h'.bodyAddr e he).trans (h.bodyAddr e he)
  memory e he := by
    obtain ⟨n, hn⟩ := h.memory e he
    obtain ⟨n', hn'⟩ := h'.memory e he
    exact ⟨n', by rw [hn', hn]⟩
  context c hc := by
    obtain ⟨regions, hr⟩ := h.context c hc
    obtain ⟨regions', hr'⟩ := h'.context c hc
    exact ⟨regions', by rw [hr', hr]⟩
  region := hregion
  interrupt i hi := (h'.interrupt i hi).trans (h.interrupt i hi)
  queues l p := (h'.queues l p).trans (h.queues l p)

/-- Revoked keys must not come back on the way. -/
theorem Outside.trans (h : Outside R s s') (h' : Outside R s' s'')
    (hdead : ∀ loc, s''.isLive (s.keyAt loc) = true → s'.isLive (s.keyAt loc) = true) :
    Outside R s s'' := by
  refine h.trans_of_regions h' fun c i hc => ?_
  rcases h.region c i hc with hkeep | ⟨hstale, hblank⟩
  · rw [← hkeep]
    exact h'.region c i hc
  · -- A key that was nulled stays revoked, and its register blank.
    right
    constructor
    · by_contra hlive
      have := hdead _ (by simpa using hlive)
      rw [hstale] at this
      cases this
    · rcases h'.region c i hc with hkeep' | ⟨-, hblank'⟩
      · rwa [hkeep']
      · exact hblank'

/-- Keys that stay in their registers cannot come back. -/
theorem Outside.trans_of_keys (h : Outside R s s') (h' : Outside R s' s'')
    (hkeys : ∀ c i, ¬R c → s'.keyAt (.regionReg c i) = s.keyAt (.regionReg c i)) : Outside R s s'' := by
  refine h.trans_of_regions h' fun c i hc => ?_
  rw [← hkeys c i hc]
  exact h'.region c i hc

/-- Bodies change within the set only. -/
theorem Outside.of_bodies (hobjects : s'.objects = s.objects)
    (hcontext : ∀ c, ¬R c → s'.context c = s.context c)
    (hinterrupt : ∀ i, ¬R i → s'.interrupt i = s.interrupt i)
    (hqueues : ∀ l p, others R (s'.queues l p) = others R (s.queues l p)) : Outside R s s' where
  kind e _ := congrFun (kind_of_objects hobjects) e
  generation e _ := congrFun (generation_of_objects hobjects) e
  bodyAddr e _ := congrFun (congrArg Objects.bodyAddr hobjects) e
  memory e _ := ⟨(s.memory e).childCount, congrFun (memory_of_objects hobjects) e⟩
  context c hc := ⟨(s.context c).regions, hcontext c hc⟩
  region c i hc := .inl (by simp only [keyAt, hcontext c hc])
  interrupt := hinterrupt
  queues := hqueues

/-! ### Lists -/

theorem others_append (l l' : List ItemRef) : others R (l ++ l') = others R l ++ others R l' :=
  List.filter_append l l'

theorem others_erase {r : ItemRef} (hr : R r.owner) (l : List ItemRef) :
    others R (l.erase r) = others R l := by
  have hnone : r ∉ others R l := by
    intro hmem
    have := (List.mem_filter.mp hmem).2
    simp [hr] at this
  rw [others, ← List.erase_filter]
  exact List.erase_of_not_mem hnone

theorem others_single {r : ItemRef} (hr : R r.owner) (q : Prop) [Decidable q] :
    others R (if q then [r] else []) = [] := by
  split
  · simp [others, hr]
  · rfl

theorem others_reseat {c : TableIndex} (hc : R c) (s : KState) (seat : Seat) (l : ListId)
    (p : Priority) : others R ((s.reseat c seat).queues l p) = others R (s.queues l p) := by
  have hctx : R (ItemRef.ctxItem c).owner := hc
  have hsender : R (ItemRef.senderItem c).owner := hc
  simp only [reseat, others_append, others_single hctx, others_single hsender, List.append_nil,
    others_erase hsender, others_erase hctx]

theorem others_requeue {i : TableIndex} (hi : R i) (s : KState) (q : Option ListId) (l : ListId)
    (p : Priority) : others R ((s.requeue i q).queues l p) = others R (s.queues l p) := by
  have hitem : R (ItemRef.irqItem i).owner := hi
  simp only [requeue, others_append, others_single hitem, List.append_nil, others_erase hitem]

/-! ### Bodies -/

theorem context_setKeyAt_of_ne {loc : KeyLoc} {c : TableIndex} (hc : c ≠ loc.owner) (k : Key) :
    (s.setKeyAt loc k).context c = s.context c := by
  cases loc with
  | keyReg x i | regionReg x i => exact Function.update_of_ne hc _ _
  | target x => rfl

theorem interrupt_setKeyAt_of_ne {loc : KeyLoc} {i : TableIndex} (hi : i ≠ loc.owner) (k : Key) :
    (s.setKeyAt loc k).interrupt i = s.interrupt i := by
  cases loc with
  | keyReg x j | regionReg x j => rfl
  | target x => exact Function.update_of_ne hi _ _

theorem context_deposit_of_ne {c x : TableIndex} {map : Word} (hx : x ≠ c) (ks : Keys) :
    (s.deposit (.bank c map) ks).context x = s.context x :=
  Function.update_of_ne hx _ _

end KState

/-! ## Message passing -/

section

variable {A : Authority} {s s' : KState}

/-- An act touches the bodies of objects within the authority only. -/
theorem Act.outside (h : Act A s s') : Outside A.obj s s' := by
  have hne : ∀ {x c : TableIndex}, ¬A.obj x → A.obj c → x ≠ c := by
    rintro x c hx hc rfl
    exact hx hc
  have hcontext : ∀ {c} (f : Context → Context), A.obj c → ∀ x, ¬A.obj x →
      (s.updateContext c f).context x = s.context x := fun f hc x hx =>
    Function.update_of_ne (hne hx hc) _ _
  -- Most acts move one Context to another seat.
  have hseat : ∀ {t : KState} {c : TableIndex} (seat : Seat), A.obj c → t.objects = s.objects →
      (∀ x, ¬A.obj x → t.context x = s.context x) → t.interrupt = s.interrupt →
      t.queues = s.queues → Outside A.obj s (t.reseat c seat).pend := by
    intro t c seat hc hobjects hctx hirq hqueues
    refine .of_bodies (by simpa using hobjects) (fun x hx => ?_) (fun i _ => congrFun hirq i) fun l p => ?_
    · exact (Function.update_of_ne (hne hx hc) _ _).trans (hctx x hx)
    · exact (others_reseat hc t seat l p).trans (by rw [hqueues])
  cases h with
  | save c f hc =>
    exact .of_bodies (by simp) (hcontext _ hc) (fun _ _ => rfl) fun _ _ => rfl
  | drop loc hloc =>
    refine .of_bodies (by simp) (fun x hx => context_setKeyAt_of_ne (hne hx hloc) _)
      (fun i hi => interrupt_setKeyAt_of_ne (hne hi hloc) _) fun l p => ?_
    rw [(s.sameSeats_setKeyAt loc _).queues]
  | note ev => exact .of_bodies rfl (fun _ _ => rfl) (fun _ _ => rfl) fun _ _ => rfl
  | deposit dst ks hinto =>
    cases dst with
    | frame => exact .refl s
    | bank c map =>
      exact .of_bodies rfl (fun x hx => context_deposit_of_ne (hne hx hinto) ks) (fun _ _ => rfl)
        fun _ _ => rfl
  | call c dst _ hc hinto =>
    cases dst with
    | frame => exact hseat _ hc rfl (fun _ _ => rfl) rfl rfl
    | bank x map =>
      exact hseat _ hc rfl (fun y hy => context_deposit_of_ne (hne hy hinto) _) rfl rfl
  | rouse c g seat hc => exact hseat _ hc rfl (fun _ _ => rfl) rfl rfl
  | answer c b hc => exact hseat _ hc rfl (fun x hx => Function.update_of_ne (hne hx hc) _ _) rfl rfl
  | takeIrq i g hi =>
    exact .of_bodies rfl (fun _ _ => rfl) (fun x hx => Function.update_of_ne (hne hx hi) _ _)
      (others_requeue hi s none)
  | blockInReceive c g _ hc | blockInReply c _ hc => exact hseat _ hc rfl (fun _ _ => rfl) rfl rfl
  | blockInSend c g brand _ hc => exact hseat _ hc rfl (hcontext _ hc) rfl rfl
  | blockIrq i g brand hi =>
    refine .of_bodies rfl (fun _ _ => rfl) (fun x hx => ?_) (others_requeue hi _ _)
    exact (Function.update_of_ne (hne hx hi) _ _).trans (Function.update_of_ne (hne hx hi) _ _)

/-- Whoever changes seats is within the authority. -/
theorem Act.seat_cases (h : Act A s s') {c : TableIndex} {seat : Seat} (hc : s.Sits c seat) :
    s'.Sits c seat ∨ A.obj c := by
  have hmove : ∀ {t : KState} {x : TableIndex} (seat' : Seat), SameSeats s t → A.obj x →
      ((t.reseat x seat').pend).Sits c seat ∨ A.obj c := by
    intro t x seat' hsame hx
    by_cases hcx : c = x
    · exact .inr (hcx ▸ hx)
    · exact .inl ((sameSeats_pend _).sits (sits_reseat_of_ne hcx _ (hsame.sits hc)))
  have hself : SameSeats s s := ⟨rfl, rfl, rfl, fun _ => .refl _, fun _ => .refl _⟩
  cases h with
  | save x f => exact .inl ((s.sameSeats_updateContext x ⟨rfl, rfl, rfl, rfl⟩).sits hc)
  | drop loc => exact .inl ((s.sameSeats_setKeyAt loc _).sits hc)
  | note ev => exact .inl ((s.sameSeats_record ev).sits hc)
  | deposit dst ks => exact .inl ((s.sameSeats_deposit dst ks).sits hc)
  | call x dst _ hx => exact hmove _ (s.sameSeats_deposit dst _) hx
  | rouse x g seat' hx => exact hmove _ hself hx
  | answer x b hx => exact hmove _ ((s.sameSeats_advanceReply x).trans (sameSeats_record _ _)) hx
  | takeIrq | blockIrq => exact .inl ⟨hc.body, hc.kind, hc.gate⟩
  | blockInReceive x g _ hx | blockInReply x _ hx => exact hmove _ hself hx
  | blockInSend x g brand _ hx =>
    exact hmove _ (s.sameSeats_updateContext x ⟨rfl, rfl, rfl, rfl⟩) hx

theorem Act.queue_cases (h : Act A s s') {i : TableIndex} {q : Option TableIndex}
    (hi : s.Queued i q) : s'.Queued i q ∨ A.obj i := by
  have hmove : ∀ {t : KState} (x : TableIndex) (seat : Seat), SameSeats s t →
      ((t.reseat x seat).pend).Queued i q := fun x seat hsame =>
    ⟨(hsame.queued hi).item, (hsame.queued hi).kind, (hsame.queued hi).gate⟩
  have hself : SameSeats s s := ⟨rfl, rfl, rfl, fun _ => .refl _, fun _ => .refl _⟩
  cases h with
  | save x f => exact .inl ((s.sameSeats_updateContext x ⟨rfl, rfl, rfl, rfl⟩).queued hi)
  | drop loc => exact .inl ((s.sameSeats_setKeyAt loc _).queued hi)
  | note ev => exact .inl ((s.sameSeats_record ev).queued hi)
  | deposit dst ks => exact .inl ((s.sameSeats_deposit dst ks).queued hi)
  | call x dst => exact .inl (hmove x _ (s.sameSeats_deposit dst _))
  | rouse x | blockInReceive x | blockInReply x => exact .inl (hmove x _ hself)
  | answer x b =>
    exact .inl (hmove x _ ((s.sameSeats_advanceReply x).trans (sameSeats_record _ _)))
  | takeIrq x g hx =>
    by_cases hix : i = x
    · exact .inr (hix ▸ hx)
    · exact .inl ⟨by simpa [requeue, hix] using hi.item, hi.kind, hi.gate⟩
  | blockIrq x g brand hx =>
    by_cases hix : i = x
    · exact .inr (hix ▸ hx)
    · exact .inl ⟨by simpa [requeue, saveIrqBrand, hix] using hi.item, hi.kind, hi.gate⟩
  | blockInSend x g brand =>
    exact .inl (hmove x _ (s.sameSeats_updateContext x ⟨rfl, rfl, rfl, rfl⟩))

end

/-! ## Methods -/

namespace KState

variable {R : TableIndex → Prop} {s : KState} {e : TableIndex}

theorem outside_bump (he : R e) : Outside R s (s.bump e) where
  kind _ _ := rfl
  generation x hx := by
    rw [generation_bump]
    exact Function.update_of_ne (by rintro rfl; exact hx he) _ _
  bodyAddr _ _ := rfl
  memory x _ := ⟨(s.memory x).childCount, rfl⟩
  context c _ := ⟨(s.context c).regions, rfl⟩
  region c i _ := .inl (by simp)
  interrupt _ _ := rfl
  queues _ _ := rfl

theorem outside_loadMpu (s : KState) (c : TableIndex) : Outside R s (s.loadMpu c) where
  kind _ _ := rfl
  generation _ _ := rfl
  bodyAddr _ _ := rfl
  memory x _ := ⟨(s.memory x).childCount, rfl⟩
  context x _ := by
    by_cases hx : x = c
    · subst hx
      exact ⟨_, Function.update_self _ _ _⟩
    · exact ⟨(s.context x).regions, Function.update_of_ne hx _ _⟩
  region x i _ := by
    by_cases hx : x = c
    · subst hx
      have hkey : (s.loadMpu x).keyAt (.regionReg x i) = s.resolve (s.keyAt (.regionReg x i)) := by
        simp [loadMpu, keyAt]
      rw [hkey]
      cases hlive : s.isLive (s.keyAt (.regionReg x i)) with
      | true => exact .inl (by simp [resolve, hlive])
      | false => exact .inr ⟨hlive, by simp [resolve, hlive, blank_nullKey]⟩
    · exact .inl (by simp [loadMpu, keyAt, hx])
  interrupt _ _ := rfl
  queues _ _ := rfl

theorem outside_updateMemory {p : TableIndex} (n : Memory → Word) :
    Outside R s (s.updateMemory p fun m => { m with childCount := n m }) where
  kind _ _ := rfl
  generation _ _ := rfl
  bodyAddr _ _ := rfl
  memory x _ := by
    by_cases hx : x = p
    · subst hx
      exact ⟨_, Function.update_self _ _ _⟩
    · exact ⟨(s.memory x).childCount, Function.update_of_ne hx _ _⟩
  context c _ := ⟨(s.context c).regions, rfl⟩
  region _ _ _ := .inl rfl
  interrupt _ _ := rfl
  queues _ _ := rfl

/-- Memory outside may be the parent. -/
theorem outside_buildMemory (he : R e) (base size attributes : Word) (parent : Option TableIndex) :
    Outside R s (s.buildMemory e base size attributes parent) := by
  have hne : ∀ {x}, ¬R x → x ≠ e := by
    rintro x hx rfl
    exact hx he
  unfold buildMemory
  extract_lets t
  have hbuilt : Outside R s t :=
    { kind := fun x hx => Function.update_of_ne (hne hx) _ _
      generation := fun _ _ => rfl
      bodyAddr := fun _ _ => rfl
      memory := fun x hx => ⟨(s.memory x).childCount, Function.update_of_ne (hne hx) _ _⟩
      context := fun c _ => ⟨(s.context c).regions, rfl⟩
      region := fun _ _ _ => .inl rfl
      interrupt := fun _ _ => rfl
      queues := fun _ _ => rfl }
  cases parent with
  | none => exact hbuilt
  | some p =>
    exact hbuilt.trans_of_keys (outside_updateMemory fun m => m.childCount + 1#32) fun _ _ _ => rfl

theorem outside_orphan (he : R e) : Outside R s (s.orphan e) := by
  unfold orphan
  split
  · exact .refl s
  next p _ =>
    refine (outside_updateMemory (p := p) fun m => m.childCount - 1#32).trans_of_keys ?_
      fun _ _ _ => rfl
    exact
      { kind := fun _ _ => rfl
        generation := fun _ _ => rfl
        bodyAddr := fun _ _ => rfl
        memory := fun x hx => ⟨_, Function.update_of_ne (by rintro rfl; exact hx he) _ _⟩
        context := fun c _ => ⟨_, rfl⟩
        region := fun _ _ _ => .inl rfl
        interrupt := fun _ _ => rfl
        queues := fun _ _ => rfl }

/-- A new Gate's lists were empty before. -/
theorem outside_buildObject (he : R e) (hempty : ∀ p, s.queues (.senders e) p = [] ∧
    s.queues (.receivers e) p = []) (t : TypeCode) (body argument : Word) :
    Outside R s (s.buildObject t e body argument) := by
  have hne : ∀ {x}, ¬R x → x ≠ e := by
    rintro x hx rfl
    exact hx he
  cases t with
  | context =>
    exact
      { kind := fun x hx => Function.update_of_ne (hne hx) _ _
        generation := fun _ _ => rfl
        bodyAddr := fun x hx => Function.update_of_ne (hne hx) _ _
        memory := fun x _ => ⟨(s.memory x).childCount, rfl⟩
        context := fun c hc => ⟨(s.context c).regions, Function.update_of_ne (hne hc) _ _⟩
        region := fun c i hc => .inl (by simp [buildObject, keyAt, hne hc])
        interrupt := fun _ _ => rfl
        queues := fun _ _ => rfl }
  | gate =>
    exact
      { kind := fun x hx => Function.update_of_ne (hne hx) _ _
        generation := fun _ _ => rfl
        bodyAddr := fun x hx => Function.update_of_ne (hne hx) _ _
        memory := fun x _ => ⟨(s.memory x).childCount, rfl⟩
        context := fun c _ => ⟨(s.context c).regions, rfl⟩
        region := fun _ _ _ => .inl rfl
        interrupt := fun _ _ => rfl
        queues := fun l p => by
          simp only [buildObject, Function.update_apply]
          split
          next hl => rw [hl, (hempty p).2]
          next =>
            split
            next hl => rw [hl, (hempty p).1]
            next => rfl }
  | interrupt =>
    exact
      { kind := fun x hx => Function.update_of_ne (hne hx) _ _
        generation := fun _ _ => rfl
        bodyAddr := fun x hx => Function.update_of_ne (hne hx) _ _
        memory := fun x _ => ⟨(s.memory x).childCount, rfl⟩
        context := fun c _ => ⟨(s.context c).regions, rfl⟩
        region := fun _ _ _ => .inl rfl
        interrupt := fun x hx => Function.update_of_ne (hne hx) _ _
        queues := fun _ _ => rfl }

end KState

section

variable {cfg : Config} {e : TableIndex} {brand : Brand} {m : Message} {k : Keys} {s s' : KState}
  {rs : ReplySender} {R : TableIndex → Prop}

/-- A method touches its object, and the donated Slot. -/
theorem Effect.outside (h : Effect cfg e brand m k s rs s') (hwf : s.WellFormed) (he : R e)
    (hslot : R (s.target (k 1))) (htable : s.kind e ≠ .objectTable) : Outside R s s' := by
  have hne : ∀ {x}, ¬R x → x ≠ e := by
    rintro x hx rfl
    exact hx he
  have hstore : ∀ {loc : KeyLoc}, loc.owner = e → Outside R s (s.setKeyAt loc (k 1)) := by
    rintro loc rfl
    refine .of_bodies (by simp) (fun x hx => context_setKeyAt_of_ne (hne hx) _)
      (fun i hi => interrupt_setKeyAt_of_ne (hne hi) _) fun l p => ?_
    rw [(s.sameSeats_setKeyAt loc _).queues]
  have hrest : ∀ {t : KState} (seat : Seat), (∀ x, ¬R x → t.context x = s.context x) →
      t.objects = s.objects → t.interrupt = s.interrupt → t.queues = s.queues →
      Outside R s (t.reseat e seat).pend := by
    intro t seat hctx hobjects hirq hqueues
    refine .of_bodies (by simpa using hobjects) (fun x hx => ?_) (fun i _ => congrFun hirq i) fun l p => ?_
    · exact (Function.update_of_ne (hne hx) _ _).trans (hctx x hx)
    · exact (others_reseat he t seat l p).trans (by rw [hqueues])
  have hcalledOff : ∀ t : KState, Outside R t (t.calledOff e) := fun t =>
    .of_bodies rfl (fun x hx => Function.update_of_ne (hne hx) _ _) (fun _ _ => rfl) fun _ _ => rfl
  cases h with
  | reply | readKey | clientKey | change => exact .refl s
  | mint he' | noInvalidate _ he' | invalidate he' => exact absurd he' htable
  | writeKey | setTarget => exact hstore rfl
  | writeRegion r =>
    have hwritten : Outside R s (s.setKeyAt (.regionReg e r) (k 1)) := hstore rfl
    split
    · exact hwritten.trans (outside_loadMpu _ _) fun loc hlive => hlive
    · exact hwritten
  | writeSave =>
    exact .of_bodies rfl (fun x hx => Function.update_of_ne (hne hx) _ _) (fun _ _ => rfl) fun _ _ => rfl
  | callOff seat g =>
    exact (hrest .runnable (fun _ _ => rfl) rfl rfl rfl).trans (hcalledOff _) fun _ hlive => hlive
  | callOffReply =>
    have hroused : Outside R s ((s.advanceReply e).reseat e .runnable).pend :=
      hrest .runnable (fun x hx => Function.update_of_ne (hne hx) _ _) rfl rfl rfl
    exact hroused.trans (hcalledOff _) fun _ hlive => hlive
  | start => exact hrest .runnable (fun _ _ => rfl) rfl rfl rfl
  | setPriority seat =>
    exact .of_bodies rfl (fun x hx => (Function.update_of_ne (hne hx) _ _).trans
      (Function.update_of_ne (hne hx) _ _)) (fun _ _ => rfl) (others_reseat he _ _)
  | enable | poke =>
    exact ⟨fun _ _ => rfl, fun _ _ => rfl, fun _ _ => rfl, fun _ _ => ⟨_, rfl⟩, fun _ _ => ⟨_, rfl⟩,
      fun _ _ _ => .inl rfl, fun _ _ => rfl, fun _ _ => rfl⟩
  | split slot hok hslot' =>
    subst hslot'
    unfold splitMemory
    extract_lets _ top bottom
    have htop : Outside R s top := (outside_bump hslot).trans_of_keys (outside_buildMemory hslot _ _ _ _)
      (by simp)
    have horphan : Outside R s (top.orphan e) := htop.trans_of_keys (outside_orphan he) (by simp [top])
    have hbump : Outside R s ((top.orphan e).bump e) :=
      horphan.trans_of_keys (outside_bump he) (by simp [top])
    have hbottom : Outside R s bottom := hbump.trans_of_keys (outside_buildMemory he _ _ _ _)
      (by simp [top])
    exact hbottom.trans_of_keys (outside_loadMpu _ _) (by simp [bottom, top])
  | makeChild slot hok hslot' =>
    subst hslot'
    exact (outside_bump hslot).trans_of_keys (outside_buildMemory hslot _ _ _ _) (by simp)
  | become t hok =>
    have hempty := hwf.queue_of_kind (e := e) (by simp [hok.memory])
    have hbuilt : Outside R s ((s.bump e).buildObject t e (s.memory e).base m.d1) :=
      (outside_bump he).trans_of_keys (outside_buildObject (s := s.bump e) he hempty t _ _) (by simp)
    have hkeys : ∀ c i, ¬R c → ((s.bump e).buildObject t e (s.memory e).base m.d1).keyAt (.regionReg c i) =
        s.keyAt (.regionReg c i) := by
      intro c i hc
      rcases keyAt_buildObject (s := s.bump e) t e (s.memory e).base m.d1 (.regionReg c i) with h | ⟨h, -⟩
      · rw [h, keyAt_bump]
      · exact absurd h (hne hc)
    have hdonated : Outside R s (((s.bump e).buildObject t e (s.memory e).base m.d1).record
        (.donated e (s.memory e).base (s.memory e).size)) :=
      hbuilt.trans_of_keys (.of_bodies rfl (fun _ _ => rfl) (fun _ _ => rfl) fun _ _ => rfl) hkeys
    exact hdonated.trans_of_keys (outside_loadMpu _ _) fun c i hc => by simpa using hkeys c i hc

theorem Effect.not_objectTable (h : Effect cfg e brand m k s rs s') {x : TableIndex}
    (hx : s.kind x ≠ .objectTable) : s'.kind x ≠ .objectTable := by
  cases h with
  | split slot =>
    simp only [splitMemory, kind_loadMpu, kind_buildMemory, kind_bump, kind_orphan,
      Function.update_apply]
    split_ifs <;> simp [hx]
  | makeChild slot =>
    simp only [makeChildMemory, kind_buildMemory, kind_bump, Function.update_apply]
    split_ifs <;> simp [hx]
  | become t =>
    by_cases hxe : x = e
    · subst hxe
      cases t <;> simp [becomeObject, buildObject]
    · cases t <;> simpa [becomeObject, buildObject, hxe] using hx
  | invalidate =>
    simp only [invalidated, kind_bump, invalidationHook]
    split <;> (try split) <;> exact hx
  | writeKey | setTarget => rwa [congrFun (kind_of_objects (objects_setKeyAt _ _ _)) x]
  | writeRegion r =>
    split
    · rwa [kind_loadMpu, congrFun (kind_of_objects (objects_setKeyAt _ _ _)) x]
    · rwa [congrFun (kind_of_objects (objects_setKeyAt _ _ _)) x]
  | _ => exact hx

end

/-! ## The authority of a closed set -/

/-- The kernel may hold keys that lead into the set, and touch its members. -/
def Authority.within (R : TableIndex → Prop) : Authority :=
  ⟨fun s k => s.Issued k ∧ (s.isLive k = true → ∀ e, k.ptr = some e → R e), R, True⟩

section

variable {R : TableIndex → Prop} {s s' : KState}

theorem KState.Closed.target (hs : Closed R s) {k : Key} (hk : (Authority.within R).key s k) :
    R (s.target k) := by
  rcases target_cases s k with ⟨hzero, -, -⟩ | ⟨hfilled, hlive, -⟩
  · exact hzero ▸ hs.null
  · refine hk.2 hlive _ ?_
    conv_lhs => rw [hfilled]
    rfl

theorem Act.closed (h : Act (.within R) s s') (hwf : s.WellFormed) (hs : Closed R s) : Closed R s' where
  null := hs.null
  noTable e he := by
    rw [kind_of_objects h.objects]
    exact hs.noTable e he
  leads x e hx hlead := by
    have hkeyed : ∀ {loc : KeyLoc}, R loc.owner → s'.isLive (s.keyAt loc) = true →
        (s.keyAt loc).ptr = some e → R e := fun hloc hlive hptr =>
      hs.leads _ e hloc (.key (isLive_of_objects h.objects _ ▸ hlive) hptr)
    cases hlead with
    | @key loc _ hlive hptr =>
      rcases h.keyAt_cases loc with hkeep | ⟨-, -, -, hnull⟩ | ⟨c, r, -, -, -, harrives⟩
      · rw [hkeep] at hlive hptr
        exact hkeyed hx hlive hptr
      · rw [hnull] at hptr
        exact Option.some.inj hptr ▸ hs.null
      · rcases harrives with hkey | ⟨loc', howner, hkey⟩ | ⟨y, hy, -, -, -, hkey⟩
        · exact hkey.2 (isLive_of_objects h.objects _ ▸ hlive) e hptr
        · rw [hkey] at hlive hptr
          exact hkeyed howner hlive hptr
        · rw [hkey] at hptr
          exact Option.some.inj hptr ▸ hy
    | waits hsits hgate =>
      obtain ⟨seat, hseat⟩ := hwf.context e
      rcases h.seat_cases hseat with hstay | hmember
      · obtain rfl := hsits.unique hstay
        exact hs.leads x e hx (.waits hseat hgate)
      · exact hmember
    | queued hqueued =>
      obtain ⟨q, hq⟩ := hwf.interrupt e
      rcases h.queue_cases hq with hstay | hmember
      · obtain rfl := hqueued.unique hstay
        exact hs.leads x e hx (.queued hq)
      · exact hmember

variable {cfg : Config} {e : TableIndex} {brand : Brand} {m : Message} {k : Keys} {rs : ReplySender}

/-- Short of a rollover, a method leads nowhere else. -/
theorem Effect.closed (h : Effect cfg e brand m k s rs s') (hwf : s.WellFormed) (hdated : s.Dated)
    (hdated' : s'.Dated) (hfew : ∀ x, s'.advances x < 2 ^ 32) (hs : Closed R s)
    (hk : (Authority.within R).key s (k 1)) : Closed R s' where
  null := hs.null
  noTable x hx := h.not_objectTable (hs.noTable x hx)
  leads x y hx hlead := by
    cases hlead with
    | @key loc _ hlive hptr =>
      rcases h.keyAt_cases loc with hkeep | ⟨hblank, -⟩ | ⟨hwritten, -⟩
      · rw [hkeep] at hlive hptr
        have hbefore := (h.live_before hdated hdated' hfew (hdated.issued loc) hlive).1
        exact hs.leads _ y hx (.key hbefore hptr)
      · rcases hblank.2 with hnone | hzero
        · simp [hnone] at hptr
        · exact Option.some.inj (hzero.symm.trans hptr) ▸ hs.null
      · rw [hwritten] at hlive hptr
        exact hk.2 (h.live_before hdated hdated' hfew hk.1 hlive).1 y hptr
    | @waits _ _ seat hsits hgate =>
      -- Methods queue nobody.
      cases seat with
      | sending g =>
        obtain rfl := Option.some.inj hgate
        rcases h.queuedAt_of hwf (.inl hsits) with hsent | hirq
        · exact hs.leads _ y hx (.waits hsent rfl)
        · exact hs.leads _ y hx (.queued hirq)
      | receiving g => exact hs.leads _ y hx (.waits (h.receiving_of hwf hsits) hgate)
      | stopped | runnable | awaiting => simp [Seat.gate] at hgate
    | queued hqueued =>
      rcases h.queuedAt_of hwf (.inr hqueued) with hsent | hirq
      · exact hs.leads x y hx (.waits hsent rfl)
      · exact hs.leads x y hx (.queued hirq)

/-- The keys of a reply lead into the set. -/
theorem Effect.keys_within (h : Effect cfg e brand m k s rs s') (hs : Closed R s) (he : R e)
    (hslot : R (s.target (k 1))) (i : Fin nMessageKeys) (hlive : s'.isLive (rs.keys i) = true)
    {x : TableIndex} (hptr : (rs.keys i).ptr = some x) : R x := by
  have hwith : ∀ {key : Key}, (s'.isLive key = true → key.ptr = some x → R x) →
      s'.isLive ((ReplySender.withKey key).keys i) = true →
      ((ReplySender.withKey key).keys i).ptr = some x → R x := by
    intro key hkey hl hp
    by_cases hi : i = 1
    · subst hi
      simp only [ReplySender.withKey, ReplySender.setKey, Function.update_self] at hl hp
      exact hkey hl hp
    · simp [ReplySender.withKey, ReplySender.setKey, hi] at hp
  have hfilled : ∀ {t : KState} {y : TableIndex} {b : Brand} {live : Prop}, R y → live →
      (t.filled y b).ptr = some x → R x := fun hy _ hp => Option.some.inj hp ▸ hy
  cases h with
  | reply rs hrs | noInvalidate rs _ _ hrs => simp [hrs.keys i] at hptr
  | readKey loc _ howner =>
    exact hwith (fun hl hp => hs.leads _ x (howner ▸ he) (.key hl hp)) hlive hptr
  | clientKey | change | become => exact hwith (hfilled he) hlive hptr
  | mint he' => exact absurd he' (hs.noTable e he)
  | makeChild slot _ hslot' =>
    exact hwith (hfilled (hslot' ▸ hslot)) hlive hptr
  | split slot _ hslot' =>
    by_cases h1 : i = 1
    · subst h1
      simp only [ReplySender.setKey, Function.update_self] at hptr
      exact Option.some.inj hptr ▸ he
    · by_cases h2 : i = 2
      · subst h2
        simp only [ReplySender.setKey, Function.update_self, ne_eq, h1, not_false_eq_true,
          Function.update_of_ne] at hptr
        exact Option.some.inj hptr ▸ hslot' ▸ hslot
      · simp [ReplySender.setKey, h1, h2] at hptr
  | _ => simp at hptr

end

/-! ## Steps -/

/-- The state of an entry that started in `s₀`, and has moved no generation beyond `n`. -/
structure KState.Inside (R : TableIndex → Prop) (n : TableIndex → Nat) (s₀ s : KState) : Prop where
  dated : s.DatedFrom s₀.advances
  few : ∀ e, s.advances e ≤ n e
  closed : Closed R s
  outside : Outside R s₀ s

section

variable {cfg : Config} {R : TableIndex → Prop} {n : TableIndex → Nat} {s₀ s s' : KState}

theorem KState.Inside.act (h : Inside R n s₀ s) (hwf : s.WellFormed) (hact : Act (.within R) s s') :
    Inside R n s₀ s' where
  dated := ⟨hact.dated (fun _ hk => hk.1) h.dated.1, fun e =>
    (h.dated.2 e).trans (hact.sameClock.advances e).ge⟩
  few e := (hact.sameClock.advances e).le.trans (h.few e)
  closed := hact.closed hwf h.closed
  outside := h.outside.trans hact.outside fun _ hlive => isLive_of_objects hact.objects _ ▸ hlive

theorem inside_confined (R : TableIndex → Prop) (n : TableIndex → Nat) (s₀ : KState) :
    Confined (.within R) (Inside R n s₀) where
  null h := ⟨h.dated.1.counted.filled 0 _, fun _ _ hptr => Option.some.inj hptr ▸ h.closed.null⟩
  held loc h howner := ⟨h.dated.1.issued loc, fun hlive e hptr =>
    h.closed.leads _ e howner (.key hlive hptr)⟩
  gate _ _ hk hlive hptr _ := hk.2 hlive _ hptr
  deref _ _ hk hlive hptr := hk.2 hlive _ hptr
  waiting _ h hg hsits hgate := h.closed.leads _ _ hg (.waits hsits hgate)
  queued _ h hg hqueued := h.closed.leads _ _ hg (.queued hqueued)
  interrupt _ h hi _ := ⟨h.dated.1.counted.filled _ _, fun _ _ hptr => Option.some.inj hptr ▸ hi⟩
  reply {s c dst} _ _ h hc _ := by
    refine ⟨(h.dated.1.counted.filled c _).mono fun e => ?_, fun _ _ hptr => Option.some.inj hptr ▸ hc⟩
    cases dst <;> exact le_rfl
  act hwf h hact := h.act hwf hact
  stable _ _ hact hk := ⟨hk.1.mono fun e => (hact.sameClock.advances e).ge, fun hlive =>
    hk.2 (isLive_of_objects hact.objects _ ▸ hlive)⟩

theorem KState.Inside.mono {n' : TableIndex → Nat} (h : Inside R n s₀ s) (hn : ∀ e, n e ≤ n' e) :
    Inside R n' s₀ s :=
  ⟨h.dated, fun e => (h.few e).trans (hn e), h.closed, h.outside⟩

/-- A method moves each generation at most once. -/
theorem Ticks.advances_le_succ {e : TableIndex} {brand : Brand} {m : Message} {k : Keys}
    (h : Ticks e brand m k s s') (x : TableIndex) : s'.advances x ≤ s.advances x + 1 := by
  cases h with
  | none h => exact (h.advances x).le.trans (Nat.le_succ _)
  | invalidate _ _ _ h | makeChild _ _ _ h | become _ _ h =>
    rw [h.advances, advances_bump]
    split <;> omega
  | split slot hok _ h =>
    have hne : slot ≠ e := by
      rintro rfl
      exact absurd (hok.memory.symm.trans hok.slot) (by decide)
    rw [h.advances, advances_bump, advances_bump]
    by_cases hx : slot = x
    · rw [if_pos hx, if_neg (hx ▸ Ne.symm hne)]
    · rw [if_neg hx]
      split <;> omega

/-- A whole entry on behalf of a member. -/
theorem inside_rules (cfg : Config) (hdated : s₀.Dated) (hfew : ∀ e, s₀.advances e + 1 < 2 ^ 32) :
    Rules cfg (.within R) (.within R) (Inside R s₀.advances s₀)
      (Inside R (fun e => s₀.advances e + 1) s₀) (fun _ e _ _ _ => R e) (fun _ _ => True) where
  pass := inside_confined _ _ _
  reply := inside_confined _ _ _
  through _ h := h.mono fun _ => Nat.le_succ _
  serve := by
    intro s e b m k kind rs s' hwf h he _ hkeys heffect
    have hnote : Act (.within R) s (s.record (.consulted e b)) := .note _ trivial
    have hlooked : Inside R s₀.advances s₀ (s.looked kind e b) ∧
        ∀ i, (Authority.within R).key (s.looked kind e b) (k i) := by
      rcases s.looked_cases kind e b with hsame | hrecorded
      · rw [hsame]
        exact ⟨h, hkeys⟩
      · rw [hrecorded]
        exact ⟨h.act hwf hnote, fun i => (inside_confined R s₀.advances s₀).stable hwf h hnote (hkeys i)⟩
    obtain ⟨ht, hk⟩ := hlooked
    have hwft := WellFormed.looked hwf kind e b
    have hdated' := heffect.dated ht.dated.1 (hk 1).1
    have hle : ∀ x, s'.advances x ≤ s₀.advances x + 1 := fun x =>
      (heffect.ticks.advances_le_succ x).trans (Nat.succ_le_succ (ht.few x))
    have hfew' : ∀ x, s'.advances x < 2 ^ 32 := fun x => (hle x).trans_lt (hfew x)
    have hgrow : ∀ x, s₀.advances x ≤ s'.advances x := fun x =>
      (ht.dated.2 x).trans (heffect.ticks.advances_le x)
    have hclosed := heffect.closed hwft ht.dated.1 hdated' hfew' ht.closed (hk 1)
    have hslot := ht.closed.target (hk 1)
    refine ⟨⟨⟨hdated', hgrow⟩, hle, hclosed, ?_⟩, ⟨?_, ?_⟩, fun i => ⟨?_, ?_⟩⟩
    · -- What was revoked since the entry began stays revoked.
      refine ht.outside.trans (heffect.outside hwft he hslot (ht.closed.noTable e he)) fun loc hlive => ?_
      have hissued : (s.looked kind e b).Issued (s₀.keyAt loc) := (hdated.issued loc).mono ht.dated.2
      exact (heffect.live_before ht.dated.1 hdated' hfew' hissued hlive).1
    · exact (hk 0).1.mono heffect.ticks.advances_le
    · exact fun hlive => (hk 0).2 (heffect.live_before ht.dated.1 hdated' hfew' (hk 0).1 hlive).1
    · exact heffect.issued ht.dated.1 (hk 1).1 i
    · exact fun hlive _ hptr => heffect.keys_within ht.closed he hslot i hlive hptr
  fault _ _ _ _ _ _ := trivial
  honest _ _ _ _ _ _ _ _ _ := trivial
  honestReply _ _ _ _ _ _ _ _ _ := trivial

/-- A step on behalf of a member of the set: its system call or store, or its interrupt. -/
def KState.Within (R : TableIndex → Prop) (s : KState) : Action → Prop
  | .irq n => ∀ i, s.irqTable (n.toNat - 15) = some i → R i
  | _ => R s.current

/-- Nobody changes seats, and members' keys are nulled or copied from one to another. -/
theorem KState.Inside.still (h : Inside R n s₀ s) (hseats : SameSeats s s') (hclock : SameClock s s')
    (hkeys : ∀ loc, R loc.owner → (s'.keyAt loc).Blank ∨
      ∃ loc', R loc'.owner ∧ s'.keyAt loc = s.keyAt loc')
    (hdated : s'.Dated) (hout : Outside R s s') : Inside R n s₀ s' where
  dated := ⟨hdated, fun e => (h.dated.2 e).trans (hclock.advances e).ge⟩
  few e := (hclock.advances e).le.trans (h.few e)
  outside := h.outside.trans hout fun loc hlive => by rwa [isLive, hclock.generation] at hlive
  closed :=
    { null := h.closed.null
      noTable := fun e he => by
        rw [hseats.kind]
        exact h.closed.noTable e he
      leads := by
        intro x e hx hlead
        cases hlead with
        | @key loc _ hlive hptr =>
          rcases hkeys loc hx with hblank | ⟨loc', howner, hcopy⟩
          · rcases hblank.2 with hnone | hzero
            · simp [hnone] at hptr
            · exact Option.some.inj (hzero.symm.trans hptr) ▸ h.closed.null
          · rw [isLive, hclock.generation, ← isLive, hcopy] at hlive
            exact h.closed.leads _ e howner (.key hlive (hcopy ▸ hptr))
        | waits hsits hgate =>
          exact h.closed.leads x e hx (.waits (hseats.sits_iff.mp hsits) hgate)
        | queued hqueued =>
          have hitem := (hseats.interrupt e).senderItem
          have hpriority := (hseats.interrupt e).priority
          refine h.closed.leads x e hx (.queued ⟨?_, fun hne => ?_, fun g hg => ?_⟩)
          · rw [← hitem, hqueued.item, hpriority]
          · exact hseats.kind ▸ hqueued.kind hne
          · exact hseats.kind ▸ hqueued.gate g hg }

/-- What only concerns the hardware and the scheduler's flags. -/
theorem KState.Inside.flags (h : Inside R n s₀ s) (hseats : SameSeats s s')
    (hgeneration : s'.generation = s.generation) (hmemory : s'.memory = s.memory)
    (hbody : s'.bodyAddr = s.bodyAddr) (hcontext : s'.context = s.context)
    (hinterrupt : s'.interrupt = s.interrupt) (hhistory : s'.history = s.history) :
    Inside R n s₀ s' := by
  have hclock : SameClock s s' := .of_history hgeneration hhistory
  have hkeys := keyAt_of_bodies hcontext hinterrupt
  refine h.still hseats hclock (fun loc howner => .inr ⟨loc, howner, congrFun hkeys loc⟩)
    (h.dated.1.of_sameClock hclock hkeys) ?_
  exact
    { kind := fun e _ => congrFun hseats.kind e
      generation := fun e _ => congrFun hgeneration e
      bodyAddr := fun e _ => congrFun hbody e
      memory := fun e _ => ⟨(s.memory e).childCount, congrFun hmemory e⟩
      context := fun c _ => ⟨(s.context c).regions, congrFun hcontext c⟩
      region := fun c i _ => .inl (congrFun hkeys _)
      interrupt := fun i _ => congrFun hinterrupt i
      queues := fun l p => by rw [hseats.queues] }

/-- A member copies one of its keys. -/
theorem KState.Inside.copy (h : Inside R n s₀ s) {c : TableIndex} (hc : R c) (dst src : Fin nTaskKeys) :
    Inside R n s₀ (s.setKeyAt (.keyReg c dst) (s.keyAt (.keyReg c src))) := by
  refine h.still (s.sameSeats_setKeyAt _ _) (.setKeyAt _ _ _) (fun loc howner => .inr ?_)
    (h.dated.1.setKeyAt _ (h.dated.1.issued _)) ?_
  · by_cases hloc : loc = .keyReg c dst
    · exact ⟨.keyReg c src, hc, by rw [hloc, keyAt_setKeyAt]⟩
    · exact ⟨loc, howner, keyAt_setKeyAt_of_ne hloc _⟩
  · refine .of_bodies (by simp) (fun x hx => context_setKeyAt_of_ne ?_ _) (fun _ _ => rfl) fun _ _ => rfl
    rintro rfl
    exact hx hc

theorem outside_switchTo (s : KState) (c : TableIndex) : Outside R s (s.switchTo c) := by
  have hcurrent : Outside R s ({ s.record (.switched c) with current := c } : KState) :=
    ⟨fun _ _ => rfl, fun _ _ => rfl, fun _ _ => rfl, fun _ _ => ⟨_, rfl⟩, fun _ _ => ⟨_, rfl⟩,
      fun _ _ _ => .inl rfl, fun _ _ => rfl, fun _ _ => rfl⟩
  exact hcurrent.trans_of_keys (outside_loadMpu _ c) fun _ _ _ => rfl

theorem KState.Inside.switchTo (h : Inside R n s₀ s) (c : TableIndex) : Inside R n s₀ (s.switchTo c) :=
  h.still (sameSeats_switchTo s c) (sameClock_switchTo s c)
    (fun loc howner => (keyAt_switchTo s c loc).symm.imp_right fun hkeep => ⟨loc, howner, hkeep⟩)
    (h.dated.1.switchTo c) (outside_switchTo s c)

/-- A step on behalf of a member leaves the entries outside the set alone. -/
theorem step_inside (hcfg : cfg.eagerRevocation = false) (hs : s.Settled) (hdated : s.Dated)
    (hfew : ∀ e, s.advances e + 1 < 2 ^ 32) (hclosed : Closed R s) {a : Action} (ha : s.Within R a) :
    wp (step cfg a) (fun _ s' => Inside R (fun e => s.advances e + 1) s s') (fun _ _ => True) s := by
  have hstart : Inside R s.advances s s := ⟨⟨hdated, fun _ => le_rfl⟩, fun _ => le_rfl, hclosed, .refl s⟩
  have hrules := inside_rules (R := R) cfg hdated hfew
  refine step_spec (fun stack regs haction => ?_) (fun i haction hn _ => ?_) (fun stack regs haction _ => ?_)
    (fun x v _ _ => ?_) (hrules.through hs.wellFormed hstart)
  · -- A system call sends through a member's key.
    subst haction
    refine Rules.svc (hrules.of_request fun hreq => ?_) hcfg hs.wellFormed hstart trivial ha hs.running
      (fun _ _ => trivial) (fun t hwf ht => ?_) (fun src dst _ => ?_)
      (hrules.through hs.wellFormed hstart)
    · obtain ⟨-, htarget, -⟩ := hreq
      rw [htarget, target_keyAt_ready]
      exact hclosed.target ((inside_confined R _ s).held _ hstart ha)
    · refine doDeferredSwitch_spec hwf (fun _ => ht) (fun c _ => ?_) fun _ => trivial
      have hidle : Inside R _ s ({ t with switchPending := false } : KState) :=
        ht.flags ⟨rfl, rfl, rfl, fun _ => .refl _, fun _ => .refl _⟩ rfl rfl rfl rfl rfl rfl
      exact hidle.switchTo c
    · exact (hstart.copy ha dst src).mono fun _ => Nat.le_succ _
  · -- An interrupt sends through a member's target key.
    subst haction
    refine irqRedirector_spec hn (fun _ _ _ => trivial) (fun _ _ => trivial) fun x hx _ => ?_
    have hmasked : Inside R s.advances s (s.masked x) :=
      hstart.flags (sameSeats_masked s x) rfl rfl rfl rfl rfl rfl
    refine wp_mono (Rules.trigger (hrules.of_request fun hreq => ?_) hcfg hs.wellFormed hmasked (ha x hx)
      (hs.irqTable _ x hx)) (fun _ t ht => ⟨fun _ => ht.2, fun _ => ?_⟩) fun _ _ h => h
    · rw [hreq.1]
      exact hclosed.target ((inside_confined R _ s).held (.target x) hstart (ha x hx))
    · exact ht.2.flags ⟨rfl, rfl, rfl, fun _ => .refl _, fun _ => .refl _⟩ rfl rfl rfl rfl rfl rfl
  · subst haction
    refine pendSvEntry_spec hs.wellFormed (fun c _ => ?_) fun _ _ => trivial
    have hunpended : Inside R s.advances s ({ s with pendSv := false } : KState) :=
      hstart.flags ⟨rfl, rfl, rfl, fun _ => .refl _, fun _ => .refl _⟩ rfl rfl rfl rfl rfl rfl
    have hsaved : Act (.within R) ({ s with pendSv := false } : KState)
        (({ s with pendSv := false } : KState).entered stack regs) :=
      .save s.current
        (fun save => Function.update (fun i => if h : i.val < 8 then regs ⟨i.val, h⟩ else save i) 9 stack) ha
    have hentered := hunpended.act (hs.wellFormed.of_sameSeats ⟨rfl, rfl, rfl, fun _ => .refl _, fun _ => .refl _⟩) hsaved
    exact (hentered.mono fun _ => Nat.le_succ _).switchTo c
  · have hstored : Inside R s.advances s ({ s with ram := Function.update s.ram x v } : KState) :=
      hstart.flags ⟨rfl, rfl, rfl, fun _ => .refl _, fun _ => .refl _⟩ rfl rfl rfl rfl rfl rfl
    exact hstored.mono fun _ => Nat.le_succ _

end

/-! ## Runs -/

namespace KState

/-- What programs can get at through live keys, starting from some entries and the null object. -/
def Reaches (s : KState) (A : TableIndex → Prop) (e : TableIndex) : Prop :=
  ∃ a, (a = 0 ∨ A a) ∧ Relation.ReflTransGen s.Leads a e

variable {A R : TableIndex → Prop} {s s' : KState}

theorem closed_reaches (htable : ∀ e, s.Reaches A e → s.kind e ≠ .objectTable) :
    Closed (s.Reaches A) s where
  null := ⟨0, .inl rfl, .refl⟩
  leads := fun _ _ ⟨a, ha, hpath⟩ hlead => ⟨a, ha, hpath.tail hlead⟩
  noTable := htable

/-- A closed set contains what its members reach. -/
theorem Closed.reaches (h : Closed R s) (hA : ∀ e, A e → R e) {e : TableIndex} (he : s.Reaches A e) :
    R e := by
  obtain ⟨a, ha, hpath⟩ := he
  induction hpath with
  | refl => exact ha.elim (fun hnull => hnull ▸ h.null) (hA a)
  | tail _ hlead ih => exact h.leads _ _ ih hlead

/-- A set without Gates is closed when its members' keys are to members. -/
theorem Closed.of_keys (hnull : R 0) (hkind : ∀ e, R e → s.kind e ≠ .gate ∧ s.kind e ≠ .objectTable)
    (hkeys : ∀ loc e, R loc.owner → (s.keyAt loc).ptr = some e → R e) : Closed R s where
  null := hnull
  leads x e hx hlead := by
    cases hlead with
    | @key loc _ _ hptr => exact hkeys loc e hx hptr
    | waits hsits hgate => exact absurd (hsits.gate x hgate) (hkind x hx).1
    | queued hqueued => exact absurd (hqueued.gate x rfl) (hkind x hx).1
  noTable e he := (hkind e he).2

/-- A key that passes the check now passed it at every moment since it was issued. -/
theorem Counted.live_before (hs : s.Counted) (hs' : s'.Counted) (hle : ∀ e, s.advances e ≤ s'.advances e)
    (hfew : ∀ e, s'.advances e < 2 ^ 32) {k : Key} (hk : s.Issued k) (hlive : s'.isLive k = true) :
    s.isLive k = true := by
  cases hptr : k.ptr with
  | none => simp [isLive, hptr] at hlive
  | some e =>
    obtain ⟨n, hn, hgeneration⟩ := hk e hptr
    have hturns := (hs'.isLive_iff hptr hgeneration (hn.trans (hle e))).mp hlive
    have hnow : s'.advances e - n = 0 :=
      Nat.eq_zero_of_dvd_of_lt hturns ((Nat.sub_le _ _).trans_lt (hfew e))
    have hsame : s.advances e - n = 0 := by
      have := hle e
      omega
    exact (hs.isLive_iff hptr hgeneration hn).mpr (by simp [hsame])

end KState

section

variable {etl : Etl} {app : AppInfo} {R : TableIndex → Prop} {s s' : KState}

/-- A run on behalf of members. -/
theorem Reachable.stays_closed (h : Reachable (.source etl) app s)
    (hlater : LaterUnder (.source etl) (fun t a => t.Within R a) s s')
    (hfew : ∀ e, s'.advances e < 2 ^ 32 - 1) (hclosed : Closed R s) :
    Closed R s' ∧ Outside R s s' := by
  induction hlater with
  | refl => exact ⟨hclosed, .refl s⟩
  | @tail t s' hmid hstep ih =>
    obtain ⟨a, hwithin, hrun⟩ := hstep
    have hany : Later (.source etl) s t := LaterUnder.later hmid
    have ht : Reachable (.source etl) app t := (h.under.later hany).reachable
    have hgrow := ht.advances_step hrun
    have hbefore : ∀ e, t.advances e < 2 ^ 32 - 1 := fun e => (hgrow e).trans_lt (hfew e)
    obtain ⟨hclosedt, houtside⟩ := ih hbefore
    have hinside := wp_ok (step_inside rfl (ht.settled rfl) (ht.dated rfl)
      (fun e => Nat.add_lt_of_lt_sub (hbefore e)) hclosedt hwithin) hrun
    refine ⟨hinside.closed, houtside.trans hinside.outside fun loc => ?_⟩
    -- A key from the run's start cannot be revoked and then pass again.
    exact (ht.dated rfl).counted.live_before hinside.dated.1.counted hgrow
      (fun e => (hfew e).trans (by decide)) (((h.dated rfl).issued loc).mono (h.under.advances_le hany))

variable {A : TableIndex → Prop}

end

/-! ## A confined program -/

namespace Sample

/-- The second Context (entry 4) is made runnable, with one key: to the Memory of entry 5. -/
def confining : List Action := [
  call 1 1 4#32 0x30000#32 0#32 0#32 0x20#32,
  call 1 1 5#32 0x30000#32 0#32 0#32 0x30#32,
  call 4 2 0#32 0#32 0#32 0#32 0x20#32,
  call 4 2 1#32 0#32 0#32 0x30#32 0#32,
  call 7 2 0#32 0#32 0#32 0#32 0#32]

/-- The second Context turns its Memory into a Gate. -/
def gating : Action := call 4 1 1#32 0#32 0#32 0#32 0x20#32

/-- What the second Context can get at. -/
def cell (e : TableIndex) : Prop := e = 0 ∨ e = 4 ∨ e = 5

/-- All keys of an entry's bodies are to the cell, or empty. -/
def keepsToCell (s : KState) (e : TableIndex) : Prop :=
  (∀ i, (s.keyAt (.keyReg e i)).ptr ∈ [none, some 0, some 4, some 5]) ∧
    (∀ i, (s.keyAt (.regionReg e i)).ptr ∈ [none, some 0, some 4, some 5]) ∧
    (s.keyAt (.target e)).ptr ∈ [none, some 0, some 4, some 5]

instance (s : KState) (e : TableIndex) : Decidable (keepsToCell s e) :=
  inferInstanceAs (Decidable (_ ∧ _ ∧ _))

theorem keepsToCell.cell {s : KState} {loc : KeyLoc} (h : keepsToCell s loc.owner) {e : TableIndex}
    (hptr : (s.keyAt loc).ptr = some e) : cell e := by
  have hmem : (s.keyAt loc).ptr ∈ [none, some 0, some 4, some 5] := by
    cases loc with
    | keyReg c i => exact h.1 i
    | regionReg c i => exact h.2.1 i
    | target i => exact h.2.2
  simpa [hptr, Sample.cell] using hmem

/-- The second Context's step: its run, and what it can get at before. -/
theorem confined_run : ∃ s s' : KState, Reachable (.source etl) app s ∧
    LaterUnder (.source etl) (fun t a => t.Within (s.Reaches (· = 4)) a) s s' ∧
    (∀ e, s'.advances e < 2 ^ 32 - 1) ∧ s.kind 5 = .memory ∧ s'.kind 5 = .gate ∧
    (∀ e, s.Reaches (· = 4) e → cell e ∧ s.kind e ≠ .objectTable) := by
  have hrun : passes (fun s => s.current = 4 ∧ s.kind 5 = .memory ∧
      (∀ e ∈ ([0, 4, 5] : List TableIndex), (s.kind e ≠ .gate ∧ s.kind e ≠ .objectTable) ∧ keepsToCell s e) ∧
      returned (BrittleKernel.step (.source etl) gating s) = true ∧
      (endState (BrittleKernel.step (.source etl) gating s)).kind 5 = .gate ∧
      (endState (BrittleKernel.step (.source etl) gating s)).history.length < 1000)
      (after confining) = true := by decide_cbv
  obtain ⟨s, -, hreach, htest⟩ := exists_of_passes hrun
  obtain ⟨hcurrent, hmemory, hcell, hreturned, hgate, hshort⟩ := of_decide_eq_true htest
  have hmembers : ∀ e, cell e → (s.kind e ≠ .gate ∧ s.kind e ≠ .objectTable) ∧ keepsToCell s e :=
    fun e he => hcell e (by simpa [cell] using he)
  have hclosed : Closed cell s :=
    .of_keys (.inl rfl) (fun e he => (hmembers e he).1) fun _ _ howner hptr =>
      (hmembers _ howner).2.cell hptr
  have hinside : ∀ e, s.Reaches (· = 4) e → cell e := fun e he =>
    hclosed.reaches (fun a ha => .inr (.inl ha)) he
  refine ⟨s, _, hreach, .single ⟨gating, ?_, eq_ok_of_returned hreturned⟩, fun e => ?_, hmemory, hgate,
    fun e he => ⟨hinside e he, (hmembers e (hinside e he)).1.2⟩⟩
  · exact ⟨4, .inr rfl, hcurrent ▸ .refl⟩
  · exact (List.countP_le_length (p := Event.advances e)).trans_lt (hshort.trans (by decide))

end Sample

end BrittleKernel
