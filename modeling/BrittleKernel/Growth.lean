import BrittleKernel.Steps

/-!
# The History Only Grows

No program of the kernel takes back what was recorded, also where it panics.
-/

namespace BrittleKernel

open Hoare KState

/-- Whatever the program does, what was recorded before stays recorded. -/
def Grows {α : Type} (x : K α) : Prop :=
  ∀ (h : List Event) (s : KState), h <:+ s.history →
    wp x (fun _ s' => h <:+ s'.history) (fun _ s' => h <:+ s'.history) s

namespace Grows

variable {α β : Type} {x : K α} {f : α → K β}

theorem pure (a : α) : Grows (Pure.pure a : K α) := fun _ _ hs => hs

theorem throw (p : Panic) : Grows (MonadExcept.throw p : K α) := fun _ _ hs => hs

theorem get : Grows (MonadState.get : K KState) := fun _ _ hs => hs

theorem modify {f : KState → KState} (hf : ∀ s, s.history <:+ (f s).history) :
    Grows (modify f : K Unit) := fun _ _ hs => hs.trans (hf _)

theorem bind (hx : Grows x) (hf : ∀ a, Grows (f a)) : Grows (x >>= f) := fun h s hs =>
  wp_seq_throws (hx h s hs) (fun a s' => hf a h s') fun _ _ h => h

theorem panicIf (c : Bool) (p : Panic) : Grows (panicIf c p) := by
  cases c
  · exact pure ()
  · exact throw p

theorem panicUnless (c : Bool) (p : Panic) : Grows (panicUnless c p) := by
  cases c
  · exact throw p
  · exact pure ()

theorem maybeRef (o : Option α) : Grows (maybeRef o) := by
  cases o
  · exact throw _
  · exact pure _

theorem makeKey (e : TableIndex) (b : Brand) : Grows (makeKey e b) := get.bind fun _ => pure _

theorem localKeyGet (k : Key) : Grows (localKeyGet k) := get.bind fun _ => pure _

theorem applyToMpu (c : TableIndex) : Grows (applyToMpu c) := fun _ _ hs => (wp_applyToMpu c).mpr hs

theorem advanceGeneration (cfg : Config) (e : TableIndex) : Grows (advanceGeneration cfg e) := by
  intro h s hs
  have hgrow := hs.trans (List.suffix_cons (Event.generationAdvanced e (s.generation e)) s.history)
  simp only [BrittleKernel.advanceGeneration, wp_bind, wp_get, wp_set, wp_ite, wp_modify, wp_pure]
  exact ⟨fun _ => hgrow, fun _ => hgrow⟩

theorem construct (e : TableIndex) (base size attributes : Word) (parent : Option TableIndex) :
    Grows (Memory.construct e base size attributes parent) := by
  refine bind (panicIf _ _) fun _ => bind (modify ?_) fun _ => ?_
  · exact fun s => List.suffix_rfl
  · cases parent with
    | none => exact pure ()
    | some p =>
      exact bind get fun _ => bind (panicUnless _ _) fun _ => modify fun s => List.suffix_rfl

theorem destroy (e : TableIndex) : Grows (Memory.destroy e) := by
  refine bind get fun s => bind (panicIf _ _) fun _ => ?_
  cases (s.memory e).parent with
  | none => exact pure ()
  | some p =>
    refine bind (modify ?_) fun _ => modify ?_
    · exact fun s => List.suffix_rfl
    · exact fun s => List.suffix_rfl

theorem setRedirection (index : Nat) (handler : Option TableIndex) :
    Grows (setRedirection index handler) := by
  intro h s hs
  simp only [BrittleKernel.setRedirection, wp_bind, wp_get, BrittleKernel.panicIf,
    BrittleKernel.panicUnless, wp_ite, wp_pure, wp_throw, wp_set]
  exact ⟨fun _ => hs, fun _ => ⟨fun _ => hs, fun _ => hs⟩⟩

theorem doSplit (cfg : Config) (e : TableIndex) (brand : Brand) (m : Message) (k : Keys) :
    Grows (Memory.doSplit cfg e brand m k) := by
  refine bind get fun s => ?_
  dsimp only
  split_ifs
  · exact pure _
  · exact pure _
  refine bind (localKeyGet _) fun _ => bind get fun _ => ?_
  split_ifs
  · exact pure _
  refine bind (advanceGeneration _ _) fun _ => bind (construct _ _ _ _ _) fun _ =>
    bind (makeKey _ _) fun _ => bind (maybeRef _) fun _ => bind (destroy _) fun _ =>
    bind (advanceGeneration _ _) fun _ => bind (construct _ _ _ _ _) fun _ =>
    bind (makeKey _ _) fun _ => bind (maybeRef _) fun _ => bind get fun _ =>
    bind (applyToMpu _) fun _ => pure _

theorem makeChild (cfg : Config) (e : TableIndex) (brand : Brand) (m : Message) (k : Keys) :
    Grows (Memory.makeChild cfg e brand m k) := by
  refine bind get fun s => ?_
  dsimp only
  split_ifs
  · exact pure _
  · exact pure _
  refine bind (localKeyGet _) fun _ => bind get fun _ => ?_
  split_ifs
  · exact pure _
  exact bind (advanceGeneration _ _) fun _ => bind (construct _ _ _ _ _) fun _ =>
    bind (makeKey _ _) fun _ => bind (maybeRef _) fun _ => pure _

theorem become (cfg : Config) (e : TableIndex) (m : Message) : Grows (become cfg e m) := by
  refine bind get fun s => ?_
  dsimp only
  split_ifs
  · exact pure _
  cases TypeCode.ofWord m.d0 with
  | none => exact pure _
  | some t =>
    dsimp only
    split_ifs
    · exact pure _
    have hconstruct : ∀ body argument, Grows (t.construct e body argument) := by
      intro body argument
      cases t with
      | context | gate => exact modify fun s => List.suffix_rfl
      | interrupt =>
        refine bind (modify ?_) fun _ => setRedirection _ _
        exact fun s => List.suffix_rfl
    exact bind (destroy _) fun _ => bind (advanceGeneration _ _) fun _ => bind (hconstruct _ _) fun _ =>
      bind (modify fun s => List.suffix_cons _ _) fun _ => bind (makeKey _ _) fun _ =>
      bind (maybeRef _) fun _ => bind get fun _ => bind (applyToMpu _) fun _ => pure _

theorem change (cfg : Config) (e : TableIndex) (brand : Brand) (m : Message) :
    Grows (Memory.change cfg e brand m) := by
  refine bind get fun s => ?_
  dsimp only
  split_ifs
  · exact pure _
  · exact pure _
  cases decodeAp cfg.etl (Rasr.getAp (scrubRasr m.d0)) with
  | none => exact throw _
  | some new =>
    cases decodeAp cfg.etl (Rasr.getAp ((s.memory e).getRegionForBrand brand).rasr) with
    | none => exact throw _
    | some current =>
      dsimp only
      split_ifs
      · exact pure _
      · exact bind (makeKey _ _) fun _ => bind (maybeRef _) fun _ => pure _

theorem access (e : TableIndex) (write : Bool) (m : Message) : Grows (Memory.access e write m) := by
  intro h s hs
  simp only [Memory.access, wp_bind, wp_get, wp_ite, wp_pure, wp_set]
  exact ⟨fun _ => hs, fun _ => ⟨fun _ => hs, fun _ => hs⟩⟩

/-- The Memory protocol only adds to the history, also where it panics. -/
theorem memoryServe (cfg : Config) (e : TableIndex) (brand : Brand) (m : Message) (k : Keys) :
    Grows (Memory.serve cfg e brand m k) := by
  unfold Memory.serve
  split
  · exact bind get fun _ => pure _
  · exact change _ _ _ _
  · exact doSplit _ _ _ _ _
  · refine bind get fun _ => ?_
    split_ifs
    · exact pure _
    · exact become _ _ _
  · exact access _ _ _
  · exact access _ _ _
  · exact makeChild _ _ _ _ _
  · exact pure _

end Grows

theorem Act.history {A : Authority} {s s' : KState} (h : Act A s s') : s.history <:+ s'.history := by
  have hdeposit : ∀ dst ks, (s.deposit dst ks).history = s.history := by
    intro dst ks
    cases dst <;> rfl
  cases h with
  | drop loc => cases loc <;> exact List.suffix_rfl
  | note ev => exact List.suffix_cons _ _
  | deposit dst ks => rw [hdeposit]
  | call c dst => exact (hdeposit _ _).symm ▸ List.suffix_rfl
  | answer c b => exact (List.suffix_cons _ _).trans (List.suffix_cons _ _)
  | _ => exact List.suffix_rfl

theorem Acts.history {A : Authority} {s s' : KState} (h : Acts A s s') : s.history <:+ s'.history := by
  induction h with
  | refl => exact List.suffix_rfl
  | tail _ hact ih => exact ih.trans hact.history

end BrittleKernel
