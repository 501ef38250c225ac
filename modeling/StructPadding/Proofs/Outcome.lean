-- SUMMARY: How stateful computations with failures succeed and fail, step by step, and what they keep.
import Mathlib.Data.List.Forall2

/-!
# Outcomes

A computation that threads a state and may fail does so in one of its steps. The equations here take a
result apart into the results of the steps; the rules below them carry an invariant of the state through
all steps, with a property of the value or of the failure at the end.
-/

namespace StructPadding

variable {ε σ α β : Type}

/-! ## Results -/

theorem bind_eq_ok_iff {x : EStateM ε σ α} {f : α → EStateM ε σ β} {s t : σ} {b : β} :
    (x >>= f) s = .ok b t ↔ ∃ a u, x s = .ok a u ∧ f a u = .ok b t := by
  simp only [bind, EStateM.bind]
  constructor
  · intro h
    split at h
    · next a u hx => exact ⟨a, u, hx, h⟩
    · cases h
  · rintro ⟨a, u, hx, hf⟩
    rw [hx]
    exact hf

/-- Two computations whose steps do the same. -/
theorem bind_eq_bind {x y : EStateM ε σ α} {f g : α → EStateM ε σ β} {s : σ} (hx : x s = y s)
    (hf : ∀ a t, x s = .ok a t → f a t = g a t) : (x >>= f) s = (y >>= g) s := by
  simp only [bind, EStateM.bind, ← hx]
  cases hres : x s with
  | error e t => rfl
  | ok a t => exact hf a t hres

@[simp] theorem pure_eq_ok_iff {a b : α} {s t : σ} :
    (pure a : EStateM ε σ α) s = .ok b t ↔ a = b ∧ s = t := by
  simp [pure, EStateM.pure]

@[simp] theorem throw_ne_ok {e : ε} {s t : σ} {a : α} : (throw e : EStateM ε σ α) s ≠ .ok a t := nofun

theorem exists_of_toOption_map {x : Except ε α} {f : α → β} {b : β} (h : x.toOption.map f = some b) :
    ∃ a, x = .ok a ∧ f a = b := by
  cases x with
  | error => cases h
  | ok a => exact ⟨a, rfl, Option.some.inj h⟩

section

variable {f : α → Except ε β} {as : List α} {bs : List β}

/-- All elements succeed if each of them does. -/
theorem mapM_eq_ok_iff : as.mapM f = .ok bs ↔ List.Forall₂ (fun a b => f a = .ok b) as bs := by
  induction as generalizing bs with
  | nil => cases bs <;> simp [pure, Except.pure]
  | cons a rest ih =>
    rw [List.mapM_cons]
    cases ha : f a with
    | error e => cases bs <;> simp [bind, Except.bind, ha]
    | ok b =>
      cases hrest : rest.mapM f with
      | error e => cases bs <;> simp [bind, Except.bind, ← ih, ha, hrest]
      | ok others => cases bs <;> simp [bind, Except.bind, pure, Except.pure, ← ih, ha, hrest]

/-- The first element that fails decides how all fail. -/
theorem mapM_eq_error {before after : List α} {a : α} {e : ε} (hbefore : ∀ b ∈ before, ∃ c, f b = .ok c)
    (ha : f a = .error e) : (before ++ a :: after).mapM f = .error e := by
  induction before with
  | nil => rw [List.nil_append, List.mapM_cons, ha]; rfl
  | cons b before ih =>
    obtain ⟨⟨c, hc⟩, hbefore⟩ := List.forall_mem_cons.1 hbefore
    rw [List.cons_append, List.mapM_cons, hc, ih hbefore]
    rfl

/-- Where all elements succeed, each result comes from the element at its place. -/
theorem getElem?_of_mapM_eq_ok (h : as.mapM f = .ok bs) {i : Nat} {b : β} (hb : bs[i]? = some b) :
    ∃ a, as[i]? = some a ∧ f a = .ok b := by
  induction mapM_eq_ok_iff.1 h generalizing i with
  | nil => simp at hb
  | @cons a c as bs ha hrest ih =>
    cases i with
    | zero =>
      cases hb
      exact ⟨a, rfl, ha⟩
    | succ i => exact ih (mapM_eq_ok_iff.2 hrest) hb

end

/-- The failure of a computation, if it fails. -/
def error? : Except ε α → Option ε
  | .ok _ => none
  | .error e => some e

theorem error?_eq_some_iff {r : Except ε α} {e : ε} : error? r = some e ↔ r = .error e := by cases r <;> simp [error?]

/-- What is seen of a result that is no failure. -/
def seen? (look : α → σ → β) : EStateM.Result ε σ α → Option β
  | .ok a s => some (look a s)
  | .error .. => none

theorem exists_of_seen? {look : α → σ → β} {r : EStateM.Result ε σ α} {b : β} (h : seen? look r = some b) :
    ∃ a s, r = .ok a s ∧ look a s = b := by
  cases r with
  | error => cases h
  | ok a s => exact ⟨a, s, rfl, Option.some.inj h⟩

/-! ## Other failures -/

section

variable {δ : Type} (f : ε → δ)

theorem mapError_bind (x : Except ε α) (g : α → Except ε β) :
    (x >>= g).mapError f = x.mapError f >>= fun a => (g a).mapError f := by
  cases x <;> rfl

@[simp] theorem adaptExcept_pure (a : α) : (pure a : EStateM ε σ α).adaptExcept f = pure a := rfl

@[simp] theorem adaptExcept_throw (e : ε) : (throw e : EStateM ε σ α).adaptExcept f = throw (f e) := rfl

@[simp] theorem adaptExcept_get : (get : EStateM ε σ σ).adaptExcept f = get := rfl

@[simp] theorem adaptExcept_modify (g : σ → σ) : (modify g : EStateM ε σ PUnit).adaptExcept f = modify g := rfl

@[simp] theorem adaptExcept_bind (x : EStateM ε σ α) (g : α → EStateM ε σ β) :
    (x >>= g).adaptExcept f = x.adaptExcept f >>= fun a => (g a).adaptExcept f := by
  funext s
  simp only [bind, EStateM.bind, EStateM.adaptExcept]
  cases x s <;> rfl

@[simp] theorem adaptExcept_ite (c : Prop) [Decidable c] (x y : EStateM ε σ α) :
    (if c then x else y).adaptExcept f = if c then x.adaptExcept f else y.adaptExcept f := by
  split <;> rfl

end

/-! ## Invariants -/

/-- Whether a computation that starts in a state with `I` ends in such a state and with a value that has `Q`,
    or fails in a way that has `E`. -/
def Keeps (I : σ → Prop) (x : EStateM ε σ α) (Q : α → Prop) (E : ε → Prop) : Prop :=
  ∀ s, I s →
    match x s with
    | .ok a t => I t ∧ Q a
    | .error e _ => E e

namespace Keeps

variable {I : σ → Prop} {P Q : α → Prop} {R : β → Prop} {E : ε → Prop}

theorem pure {a : α} (h : Q a) : Keeps I (pure a) Q E := fun _ hs => ⟨hs, h⟩

theorem throw {e : ε} (h : E e) : Keeps I (throw e) Q E := fun _ _ => h

theorem get : Keeps I get I E := fun _ hs => ⟨hs, hs⟩

theorem modify {f : σ → σ} (h : ∀ s, I s → I (f s)) : Keeps I (modify f) (fun _ => True) E :=
  fun s hs => ⟨h s hs, trivial⟩

theorem bind {x : EStateM ε σ α} {f : α → EStateM ε σ β} (hx : Keeps I x P E)
    (hf : ∀ a, P a → Keeps I (f a) R E) : Keeps I (x >>= f) R E := by
  intro s hs
  have h := hx s hs
  simp only [Bind.bind, EStateM.bind]
  cases hres : x s with
  | error e t =>
    rw [hres] at h
    exact h
  | ok a t =>
    rw [hres] at h
    exact hf a h.2 t h.1

theorem mono {x : EStateM ε σ α} (hx : Keeps I x P E) (h : ∀ a, P a → Q a) : Keeps I x Q E := by
  intro s hs
  have hres := hx s hs
  cases hx : x s with
  | error e t =>
    rw [hx] at hres
    exact hres
  | ok a t =>
    rw [hx] at hres
    exact ⟨hres.1, h a hres.2⟩

theorem adaptExcept {δ : Type} {x : EStateM δ σ α} {f : δ → ε} (hx : Keeps I x Q fun e => E (f e)) :
    Keeps I (x.adaptExcept f) Q E := by
  intro s hs
  have hres := hx s hs
  simp only [EStateM.adaptExcept]
  cases hx : x s with
  | error e t =>
    rw [hx] at hres
    exact hres
  | ok a t =>
    rw [hx] at hres
    exact hres

theorem ite {c : Prop} [Decidable c] {x y : EStateM ε σ α} (hx : c → Keeps I x Q E) (hy : ¬ c → Keeps I y Q E) :
    Keeps I (if c then x else y) Q E := by
  split
  · exact hx ‹_›
  · exact hy ‹_›

/-- A step that is taken only under a condition. -/
theorem when {c : Prop} [Decidable c] {x : EStateM ε σ α} {y : EStateM ε σ β}
    (hx : c → Keeps I x (fun _ => True) E) (hy : Keeps I y R E) :
    Keeps I (if c then x >>= fun _ => y else y) R E :=
  ite (fun h => bind (hx h) fun _ _ => hy) fun _ => hy

end Keeps

/-! ## Postconditions -/

/-- Whether a computation ends, from a state, with a value and a state that have `Q`, or with a failure and a state
    that have `E`. -/
def Ends (x : EStateM ε σ α) (s : σ) (Q : α → σ → Prop) (E : ε → σ → Prop) : Prop :=
  match x s with
  | .ok a t => Q a t
  | .error e t => E e t

namespace Ends

variable {s : σ} {P : α → σ → Prop} {Q : β → σ → Prop} {E F : ε → σ → Prop}

theorem pure {a : α} (h : P a s) : Ends (pure a) s P E := h

theorem throw {e : ε} (h : E e s) : Ends (throw e : EStateM ε σ α) s P E := h

theorem get_bind {f : σ → EStateM ε σ β} (h : Ends (f s) s Q E) : Ends (get >>= f) s Q E := h

theorem modify_bind {f : σ → σ} {g : PUnit → EStateM ε σ β} (h : Ends (g ⟨⟩) (f s) Q E) :
    Ends (modify f >>= g) s Q E := h

theorem bind {x : EStateM ε σ α} {f : α → EStateM ε σ β} (hx : Ends x s P F)
    (hf : ∀ a t, P a t → Ends (f a) t Q E) (herror : ∀ e t, F e t → E e t) : Ends (x >>= f) s Q E := by
  simp only [Ends, Bind.bind, EStateM.bind] at hx ⊢
  cases hres : x s with
  | error e t =>
    rw [hres] at hx
    exact herror e t hx
  | ok a t =>
    rw [hres] at hx
    exact hf a t hx

/-- A computation whose first step is known to succeed. -/
theorem bind_of_ok {x : EStateM ε σ α} {f : α → EStateM ε σ β} {a : α} {t : σ} (hx : x s = .ok a t)
    (hf : Ends (f a) t Q E) : Ends (x >>= f) s Q E := by
  simp only [Ends, Bind.bind, EStateM.bind, hx]
  exact hf

/-- A computation whose first step is known to fail. -/
theorem bind_of_error {x : EStateM ε σ α} {f : α → EStateM ε σ β} {e : ε} {t : σ} (hx : x s = .error e t)
    (he : E e t) : Ends (x >>= f) s Q E := by
  simp only [Ends, Bind.bind, EStateM.bind, hx]
  exact he

theorem map {x : EStateM ε σ α} {f : α → β} (hx : Ends x s (fun a => Q (f a)) E) : Ends (f <$> x) s Q E := by
  simp only [Ends, Functor.map, EStateM.map] at hx ⊢
  cases hres : x s with
  | error e t =>
    rw [hres] at hx
    exact hx
  | ok a t =>
    rw [hres] at hx
    exact hx

theorem ite {c : Prop} [Decidable c] {x y : EStateM ε σ β} (hx : c → Ends x s Q E) (hy : ¬ c → Ends y s Q E) :
    Ends (if c then x else y) s Q E := by
  split
  · exact hx ‹_›
  · exact hy ‹_›

theorem mono {R : α → σ → Prop} {x : EStateM ε σ α} (hx : Ends x s P F) (hok : ∀ a t, P a t → R a t)
    (herror : ∀ e t, F e t → E e t) : Ends x s R E := by
  simp only [Ends] at hx ⊢
  cases hres : x s with
  | error e t =>
    rw [hres] at hx
    exact herror e t hx
  | ok a t =>
    rw [hres] at hx
    exact hok a t hx

/-- A failure that only arises under a condition. -/
theorem guarded {c : Prop} [Decidable c] {x : EStateM ε σ α} {y : EStateM ε σ β}
    (hx : c → Ends x s (fun _ _ => False) E) (hy : ¬ c → Ends y s Q E) :
    Ends (if c then x >>= fun _ => y else y) s Q E := by
  split
  · next hc => exact bind (hx hc) (fun _ _ h => h.elim) fun _ _ h => h
  · next hc => exact hy hc

theorem trivial {x : EStateM ε σ α} : Ends x s (fun _ _ => True) fun _ _ => True := by
  unfold Ends
  split <;> exact True.intro

/-- What is known of a result. -/
theorem of_ok {x : EStateM ε σ α} {a : α} {t : σ} (h : Ends x s P E) (hx : x s = .ok a t) : P a t := by
  simpa only [Ends, hx] using h

theorem of_error {x : EStateM ε σ α} {e : ε} {t : σ} (h : Ends x s P E) (hx : x s = .error e t) : E e t := by
  simpa only [Ends, hx] using h

end Ends

/-! ## Two runs -/

/-- Whether two computations end alike, each from a state of its own: with the same value and with states that have
    `Q`, or with the same failure. It may also be that the first one fails in a way that has `F`. -/
def Alike (x y : EStateM ε σ α) (s t : σ) (Q : α → σ → σ → Prop) (F : ε → Prop) : Prop :=
  match x s, y t with
  | .ok a s', .ok b t' => a = b ∧ Q a s' t'
  | .error e _, .error f _ => e = f ∨ F e
  | .error e _, .ok .. => F e
  | .ok .., .error .. => False

namespace Alike

variable {s t : σ} {P R : α → σ → σ → Prop} {Q : β → σ → σ → Prop} {F : ε → Prop}

theorem pure {a : α} (h : P a s t) : Alike (pure a) (pure a) s t P F := ⟨rfl, h⟩

theorem throw {e : ε} : Alike (throw e : EStateM ε σ α) (throw e) s t P F := .inl rfl

theorem get_bind {f g : σ → EStateM ε σ β} (h : Alike (f s) (g t) s t Q F) : Alike (get >>= f) (get >>= g) s t Q F := h

theorem get_bind_left {f : σ → EStateM ε σ β} {y : EStateM ε σ β} (h : Alike (f s) y s t Q F) :
    Alike (get >>= f) y s t Q F := h

theorem modify_bind {f f' : σ → σ} {g g' : PUnit → EStateM ε σ β} (h : Alike (g ⟨⟩) (g' ⟨⟩) (f s) (f' t) Q F) :
    Alike (modify f >>= g) (modify f' >>= g') s t Q F := h

/-- Two runs that are looked at one after the other. -/
theorem of_ends {x y : EStateM ε σ α} {E : ε → σ → Prop}
    (hx : Ends x s (fun a s' => Ends y t (fun b t' => a = b ∧ P a s' t') fun _ _ => False) E)
    (herror : ∀ e s', E e s' → F e) : Alike x y s t P F := by
  simp only [Ends] at hx
  simp only [Alike]
  cases hres : x s with
  | ok a s' =>
    rw [hres] at hx
    cases hres' : y t with
    | ok b t' =>
      rw [hres'] at hx
      exact hx
    | error f t' =>
      rw [hres'] at hx
      exact hx.elim
  | error e s' =>
    rw [hres] at hx
    cases hres' : y t with
    | ok b t' => exact herror e s' hx
    | error f t' => exact .inr (herror e s' hx)

theorem bind {x y : EStateM ε σ α} {f g : α → EStateM ε σ β} (hx : Alike x y s t P F)
    (hf : ∀ a s' t', P a s' t' → Alike (f a) (g a) s' t' Q F) : Alike (x >>= f) (y >>= g) s t Q F := by
  simp only [Alike, Bind.bind, EStateM.bind] at hx ⊢
  cases hres : x s with
  | ok a s' =>
    cases hres' : y t with
    | ok b t' =>
      rw [hres, hres'] at hx
      obtain ⟨rfl, hstates⟩ := hx
      exact hf a s' t' hstates
    | error f t' =>
      rw [hres, hres'] at hx
      exact hx.elim
  | error e s' =>
    cases hres' : y t with
    | ok b t' =>
      rw [hres, hres'] at hx
      simp only
      split <;> simp_all
    | error f t' =>
      rw [hres, hres'] at hx
      exact hx

/-- What is known of each run alone holds of the two. -/
theorem and_ends {x y : EStateM ε σ α} {A B : α → σ → Prop} {E E' : ε → σ → Prop} (h : Alike x y s t P F)
    (hx : Ends x s A E) (hy : Ends y t B E') (hR : ∀ a s' t', P a s' t' → A a s' → B a t' → R a s' t') :
    Alike x y s t R F := by
  simp only [Alike, Ends] at h hx hy ⊢
  cases hres : x s with
  | ok a s' =>
    cases hres' : y t with
    | ok b t' =>
      rw [hres, hres'] at h
      rw [hres] at hx
      rw [hres'] at hy
      obtain ⟨rfl, hstates⟩ := h
      exact ⟨rfl, hR a s' t' hstates hx hy⟩
    | error f t' =>
      rw [hres, hres'] at h
      exact h
  | error e s' =>
    cases hres' : y t with
    | ok b t' =>
      rw [hres, hres'] at h
      exact h
    | error f t' =>
      rw [hres, hres'] at h
      exact h

end Alike

/-- Whether two computations end alike from all states that are related, and leave related states. -/
def InStep (R : σ → σ → Prop) (F : ε → Prop) (x y : EStateM ε σ α) : Prop :=
  ∀ s t, R s t → Alike x y s t (fun _ => R) F

namespace InStep

variable {R : σ → σ → Prop} {F : ε → Prop}

theorem pure {a : α} : InStep R F (Pure.pure a) (Pure.pure a) := fun _ _ h => .pure h

theorem throw {e : ε} : InStep R F (throw e : EStateM ε σ α) (MonadExcept.throw e) := fun _ _ _ => .throw

theorem bind {x y : EStateM ε σ α} {f g : α → EStateM ε σ β} (hx : InStep R F x y) (hf : ∀ a, InStep R F (f a) (g a)) :
    InStep R F (x >>= f) (y >>= g) :=
  fun s t h => (hx s t h).bind fun a s' t' h' => hf a s' t' h'

/-- A failure of the first computation that need not be matched. -/
theorem fail {e : ε} {y : EStateM ε σ α} (h : F e) : InStep R F (MonadExcept.throw e) y := by
  intro s t _
  simp only [Alike]
  cases y t with
  | ok b t' => exact h
  | error f t' => exact .inr h

/-- A failure of the first computation alone that only arises under a condition. -/
theorem guarded_left {c : Prop} [Decidable c] {e : ε} {x y : EStateM ε σ β} (h : F e) (hxy : ¬ c → InStep R F x y) :
    InStep R F (if c then (MonadExcept.throw e : EStateM ε σ α) >>= fun _ => x else x) y := by
  split
  · exact fail (e := e) h
  · next hc => exact hxy hc

/-- A failure that only arises under a condition. -/
theorem guarded {c : Prop} [Decidable c] {e f : ε} {x y : EStateM ε σ β} (hfail : e = f ∨ F e)
    (hxy : ¬ c → InStep R F x y) :
    InStep R F (if c then (MonadExcept.throw e : EStateM ε σ α) >>= fun _ => x else x)
      (if c then (MonadExcept.throw f : EStateM ε σ α) >>= fun _ => y else y) := by
  split
  · exact fun _ _ _ => hfail
  · next hc => exact hxy hc

end InStep

/-! ## Two kinds of states -/

/-- Whether two results in states of two kinds have the same value or the same failure, and related states. -/
inductive Agree {τ : Type} (R : σ → τ → Prop) : EStateM.Result ε σ α → EStateM.Result ε τ α → Prop
  | ok {a : α} {s : σ} {t : τ} (h : R s t) : Agree R (.ok a s) (.ok a t)
  | error {e : ε} {s : σ} {t : τ} (h : R s t) : Agree R (.error e s) (.error e t)

namespace Agree

variable {τ : Type} {R : σ → τ → Prop} {s : σ} {t : τ}

theorem bind {x : EStateM ε σ α} {y : EStateM ε τ α} {f : α → EStateM ε σ β} {g : α → EStateM ε τ β}
    (h : Agree R (x s) (y t)) (hf : ∀ a s t, R s t → Agree R (f a s) (g a t)) :
    Agree R ((x >>= f) s) ((y >>= g) t) := by
  simp only [Bind.bind, EStateM.bind]
  generalize x s = r at h
  generalize y t = r' at h
  cases h with
  | ok hstates => exact hf _ _ _ hstates
  | error hstates => exact .error hstates

theorem map {x : EStateM ε σ α} {y : EStateM ε τ α} {f : α → β} (h : Agree R (x s) (y t)) :
    Agree R ((f <$> x) s) ((f <$> y) t) := by
  simp only [Functor.map, EStateM.map]
  generalize x s = r at h
  generalize y t = r' at h
  cases h with
  | ok hstates => exact .ok hstates
  | error hstates => exact .error hstates

end Agree

end StructPadding
