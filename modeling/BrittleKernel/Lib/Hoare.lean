import Mathlib.Logic.Basic

/-!
# Weakest Preconditions for Failing State Programs

A rule for each way of building an `EStateM` program.  Both outcomes have a
postcondition: `Q` for a program that returns, `E` for one that throws.
-/

namespace Hoare

variable {ε σ α β : Type}

/-! ## Weakest preconditions -/

/-- The program, started in `s`, returns as `Q` says or throws as `E` says. -/
def wp (x : EStateM ε σ α) (Q : α → σ → Prop) (E : ε → σ → Prop) (s : σ) : Prop :=
  match x s with
  | .ok a s' => Q a s'
  | .error e s' => E e s'

/-- No exception is thrown. -/
abbrev never : ε → σ → Prop := fun _ _ => False

variable {Q Q' : α → σ → Prop} {R : β → σ → Prop} {E E' : ε → σ → Prop} {s s' : σ}

@[simp] theorem wp_pure (a : α) : wp (pure a : EStateM ε σ α) Q E s ↔ Q a s := Iff.rfl

@[simp] theorem wp_bind (x : EStateM ε σ α) (f : α → EStateM ε σ β) :
    wp (x >>= f) R E s ↔ wp x (fun a s' => wp (f a) R E s') E s := by
  simp only [wp, bind, EStateM.bind]
  cases x s <;> rfl

@[simp] theorem wp_map (f : α → β) (x : EStateM ε σ α) :
    wp (f <$> x) R E s ↔ wp x (fun a s' => R (f a) s') E s := by
  simp only [wp, Functor.map, EStateM.map]
  cases x s <;> rfl

@[simp] theorem wp_get {Q : σ → σ → Prop} : wp (get : EStateM ε σ σ) Q E s ↔ Q s s := Iff.rfl

@[simp] theorem wp_set {Q : PUnit → σ → Prop} (t : σ) :
    wp (set t : EStateM ε σ PUnit) Q E s ↔ Q ⟨⟩ t := Iff.rfl

@[simp] theorem wp_modify {Q : PUnit → σ → Prop} (f : σ → σ) :
    wp (modify f : EStateM ε σ PUnit) Q E s ↔ Q ⟨⟩ (f s) := Iff.rfl

@[simp] theorem wp_throw (e : ε) : wp (throw e : EStateM ε σ α) Q E s ↔ E e s := Iff.rfl

@[simp] theorem wp_ite (c : Prop) [Decidable c] (x y : EStateM ε σ α) :
    wp (if c then x else y) Q E s ↔ (c → wp x Q E s) ∧ (¬c → wp y Q E s) := by
  by_cases h : c <;> simp [h]

@[simp] theorem wp_dite (c : Prop) [Decidable c] (x : c → EStateM ε σ α)
    (y : ¬c → EStateM ε σ α) :
    wp (if h : c then x h else y h) Q E s ↔
      (∀ h, wp (x h) Q E s) ∧ (∀ h, wp (y h) Q E s) := by
  by_cases h : c <;> simp [h]

/-! ## Consequence and composition -/

theorem wp_mono {x : EStateM ε σ α} (h : wp x Q E s) (hQ : ∀ a s', Q a s' → Q' a s')
    (hE : ∀ e s', E e s' → E' e s') : wp x Q' E' s := by
  simp only [wp] at h ⊢
  cases hx : x s with
  | ok a s' => exact hQ a s' (by simpa [hx] using h)
  | error e s' => exact hE e s' (by simpa [hx] using h)

/-- Weaken the postcondition of a program that never throws. -/
theorem wp_conseq {x : EStateM ε σ α} (h : wp x Q never s) (hQ : ∀ a s', Q a s' → Q' a s') :
    wp x Q' E s :=
  wp_mono h hQ fun _ _ h => h.elim

/-- Run a program that never throws, then the rest. -/
theorem wp_seq {x : EStateM ε σ α} {f : α → EStateM ε σ β} (h : wp x Q never s)
    (hf : ∀ a s', Q a s' → wp (f a) R E s') : wp (x >>= f) R E s :=
  (wp_bind x f).mpr (wp_conseq h hf)

/-- Run a program that may throw, then the rest. -/
theorem wp_seq_throws {x : EStateM ε σ α} {f : α → EStateM ε σ β} (h : wp x Q E' s)
    (hf : ∀ a s', Q a s' → wp (f a) R E s') (hE : ∀ e s', E' e s' → E e s') :
    wp (x >>= f) R E s :=
  (wp_bind x f).mpr (wp_mono h hf hE)

/-- Postconditions that always hold. -/
theorem wp_of_forall (x : EStateM ε σ α) (hQ : ∀ a s', Q a s') (hE : ∀ e s', E e s') :
    wp x Q E s := by
  simp only [wp]
  cases x s with
  | ok a s' => exact hQ a s'
  | error e s' => exact hE e s'

theorem wp_and {x : EStateM ε σ α} (h : wp x Q E s) (h' : wp x Q' E' s) :
    wp x (fun a s' => Q a s' ∧ Q' a s') (fun e s' => E e s' ∧ E' e s') s := by
  simp only [wp] at h h' ⊢
  cases hx : x s <;> simp_all

/-- What a return tells us. -/
theorem wp_ok {x : EStateM ε σ α} {a : α} (h : wp x Q E s) (hx : x s = .ok a s') : Q a s' := by
  simpa [wp, hx] using h

/-- What a throw tells us. -/
theorem wp_error {x : EStateM ε σ α} {e : ε} (h : wp x Q E s) (hx : x s = .error e s') :
    E e s' := by
  simpa [wp, hx] using h

/-- The outcome, beside what is known of it. -/
theorem wp_outcome {x : EStateM ε σ α} (h : wp x Q E s) :
    wp x (fun a s' => x s = .ok a s' ∧ Q a s') E s := by
  simp only [wp] at h ⊢
  cases hx : x s with
  | ok a s' => exact ⟨rfl, by simpa [hx] using h⟩
  | error e s' => simpa [hx] using h

/-- A program that never throws returns. -/
theorem exists_ok {x : EStateM ε σ α} (h : wp x Q never s) : ∃ a s', x s = .ok a s' ∧ Q a s' := by
  cases hx : x s with
  | ok a s' => exact ⟨a, s', rfl, wp_ok h hx⟩
  | error e s' => exact (wp_error h hx).elim

/-- Programs that satisfy the same specifications have the same outcome. -/
theorem eq_of_wp {x y : EStateM ε σ α}
    (h : ∀ {Q : α → σ → Prop} {E : ε → σ → Prop}, wp y Q E s' → wp x Q E s) : x s = y s' := by
  cases hy : y s' with
  | ok a t =>
    have hx : wp x (fun b u => b = a ∧ u = t) never s := h (by simp [wp, hy])
    obtain ⟨b, u, hreturn, rfl, rfl⟩ := exists_ok hx
    exact hreturn
  | error e t =>
    have hx : wp x (fun _ _ => False) (fun d u => d = e ∧ u = t) s := h (by simp [wp, hy])
    cases hx' : x s with
    | ok b u => exact (wp_ok hx hx').elim
    | error d u =>
      obtain ⟨rfl, rfl⟩ := wp_error hx hx'
      rfl

/-- Programs with the same outcome satisfy the same specifications. -/
theorem wp_congr {x y : EStateM ε σ α} (h : x s = y s) : wp x Q E s ↔ wp y Q E s := by
  simp only [wp, h]

/-- Two continuations that agree wherever the first program may return. -/
theorem bind_congr_of_wp {x : EStateM ε σ α} {f g : α → EStateM ε σ β} (h : wp x Q E s)
    (hfg : ∀ a s', Q a s' → f a s' = g a s') : (x >>= f) s = (x >>= g) s := by
  simp only [bind, EStateM.bind]
  cases hx : x s with
  | ok a s' => exact hfg a s' (wp_ok h hx)
  | error e s' => rfl

/-- A program whose outcome is known. -/
theorem wp_of_eq {x : EStateM ε σ α} {a : α} (hx : x s = .ok a s') :
    wp x Q E s ↔ Q a s' := by
  simp [wp, hx]

/-! ## Loops -/

/-- A loop over a list keeps what its body keeps. -/
theorem wp_forM {l : List α} {body : α → EStateM ε σ PUnit} {I : σ → Prop}
    (h : ∀ a ∈ l, ∀ s, I s → wp (body a) (fun _ s' => I s') E s) (hs : I s) :
    wp (l.forM body) (fun _ s' => I s') E s := by
  induction l generalizing s with
  | nil => exact hs
  | cons a l ih =>
    refine wp_seq_throws (h a (by simp) s hs) (fun _ s' hs' => ?_) fun _ _ h => h
    exact ih (fun b hb => h b (List.mem_cons_of_mem a hb)) hs'

/-- A counted loop, with an invariant that knows the count. -/
theorem wp_forM_range' {k n : Nat} {body : Nat → EStateM ε σ PUnit} {I : Nat → σ → Prop}
    (h : ∀ i, k ≤ i → i < k + n → ∀ s, I i s → wp (body i) (fun _ s' => I (i + 1) s') E s)
    (hs : I k s) : wp ((List.range' k n).forM body) (fun _ s' => I (k + n) s') E s := by
  induction n generalizing k s with
  | zero => exact hs
  | succ n ih =>
    apply wp_seq_throws (h k (Nat.le_refl k) (by omega) s hs)
    · intro _ s' hs'
      have hrest := ih (k := k + 1) (fun i hlow hhigh => h i (by omega) (by omega)) hs'
      rw [show k + 1 + n = k + (n + 1) by omega] at hrest
      exact hrest
    · intro _ _ he
      exact he

theorem wp_forM_range {n : Nat} {body : Nat → EStateM ε σ PUnit} {I : Nat → σ → Prop}
    (h : ∀ i < n, ∀ s, I i s → wp (body i) (fun _ s' => I (i + 1) s') E s) (hs : I 0 s) :
    wp ((List.range n).forM body) (fun _ s' => I n s') E s := by
  have hloop := wp_forM_range' (k := 0) (n := n) (fun i _ hi => h i (by omega)) hs
  rw [List.range_eq_range']
  rwa [Nat.zero_add] at hloop

/-! ## What a program may throw -/

/-- From any state the program throws nothing but what `P` allows. -/
def Throws (P : ε → Prop) (x : EStateM ε σ α) : Prop :=
  ∀ s, wp x (fun _ _ => True) (fun e _ => P e) s

namespace Throws

variable {P : ε → Prop}

theorem pure (a : α) : Throws P (Pure.pure a : EStateM ε σ α) := fun _ => trivial

theorem get : Throws P (MonadState.get : EStateM ε σ σ) := fun _ => trivial

theorem throw {e : ε} (he : P e) : Throws P (MonadExcept.throw e : EStateM ε σ α) := fun _ => he

theorem bind {x : EStateM ε σ α} {f : α → EStateM ε σ β} (hx : Throws P x)
    (hf : ∀ a, Throws P (f a)) : Throws P (x >>= f) := fun s =>
  wp_seq_throws (hx s) (fun a s' _ => hf a s') fun _ _ h => h

theorem ite {c : Prop} [Decidable c] {x y : EStateM ε σ α} (hx : c → Throws P x)
    (hy : ¬c → Throws P y) : Throws P (if c then x else y) := by
  split
  next h => exact hx h
  next h => exact hy h

theorem forM {l : List α} {body : α → EStateM ε σ PUnit} (h : ∀ a ∈ l, Throws P (body a)) :
    Throws P (l.forM body) := fun _ =>
  wp_mono (wp_forM (I := fun _ => True) (fun a ha s _ => h a ha s) trivial) (fun _ _ h => h)
    fun _ _ h => h

end Throws

end Hoare
