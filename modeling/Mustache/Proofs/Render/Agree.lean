import Mustache.Proofs.Render.Outcome

/-! # Renderings that agree

Two parts of a rendering agree from the states with a property if they end alike, up to a function of
their values, in the same state, which has the property again. Agreement is closed under the ways in
which renderings are put together.
-/
namespace Mustache.RenderM

variable {α β γ δ : Type} {P : RenderState → Prop}

/-- From a state with the property, `y` ends as `x` does, with `f` of its value, and keeps the property. -/
def Agrees (P : RenderState → Prop) (f : α → β) (x : RenderM α) (y : RenderM β) : Prop :=
  ∀ t, P t → y.run t = ((x.run t).1.map f, (x.run t).2) ∧ P (x.run t).2

theorem agrees_pure (f : α → β) (a : α) : Agrees P f (pure a) (pure (f a)) :=
  fun _ ht => ⟨rfl, ht⟩

theorem agrees_lift {ε : Type} (wrap : ε → RenderError) (x : Except ε α) :
    Agrees P id (lift wrap x) (lift wrap x) := by
  intro t ht
  cases x with
  | ok a => exact ⟨rfl, ht⟩
  | error e => exact ⟨rfl, ht⟩

theorem Agrees.bind {f : α → β} {g : γ → δ} {x : RenderM α} {y : RenderM β} {k : α → RenderM γ}
    {l : β → RenderM δ} (h : Agrees P f x y) (hk : ∀ a, Agrees P g (k a) (l (f a))) :
    Agrees P g (x >>= k) (y >>= l) := by
  intro t ht
  obtain ⟨hy, hP⟩ := h t ht
  rw [run_bind, run_bind, hy]
  rcases hx : x.run t with ⟨a | a, t'⟩
  · rw [hx] at hP
    exact ⟨rfl, hP⟩
  · rw [hx] at hP
    exact hk a t' hP

/-- What follows a look-up has to agree for the values that the look-up can have. -/
theorem agrees_resolve_bind {g : γ → δ} {k : Value → RenderM γ} {l : Value → RenderM δ}
    {lookup : Lookup} {name : String}
    (h : ∀ t, P t → Agrees P g (k (t.store.current (t.context.resolve lookup name)))
      (l (t.store.current (t.context.resolve lookup name)))) :
    Agrees P g (resolve lookup name >>= k) (resolve lookup name >>= l) := by
  intro t ht
  rw [run_bind, run_bind, run_resolve]
  exact h t ht t ht

theorem Agrees.withScope {f : α → β} {x : RenderM α} {y : RenderM β} {v : Value}
    (hpush : ∀ t, P t → P { t with context := t.context.push v })
    (hdrop : ∀ t, P t → P { t with context := t.context.drop }) (h : Agrees P f x y) :
    Agrees P f (RenderM.withScope v x) (RenderM.withScope v y) := by
  intro t ht
  obtain ⟨hy, hP⟩ := h _ (hpush t ht)
  rw [run_withScope, run_withScope, run_thenRestore, run_thenRestore, hy]
  exact ⟨rfl, hdrop _ hP⟩

section Same

variable {x y : RenderM α} {t : RenderState}

theorem Agrees.run_eq (h : Agrees P id x y) (ht : P t) : y.run t = x.run t := by
  rw [(h t ht).1]
  rcases x.run t with ⟨e | a, t'⟩ <;> rfl

theorem Agrees.andThen {k l : α → RenderM β} (h : Agrees P id x y) (hk : ∀ a, Agrees P id (k a) (l a)) :
    Agrees P id (x >>= k) (y >>= l) :=
  h.bind hk

theorem Agrees.map (h : Agrees P id x y) (f : α → β) : Agrees P id (f <$> x) (f <$> y) := by
  rw [map_eq_pure_bind, map_eq_pure_bind]
  exact h.andThen fun a => agrees_pure id (f a)

theorem Agrees.mapM {f g : α → RenderM β} (h : ∀ a, Agrees P id (f a) (g a)) (as : List α) :
    Agrees P id (as.mapM f) (as.mapM g) := by
  induction as with
  | nil => exact agrees_pure id []
  | cons a as ih =>
    rw [List.mapM_cons, List.mapM_cons]
    apply (h a).andThen
    intro b
    apply ih.andThen
    exact fun bs => agrees_pure id (b :: bs)

end Same

end Mustache.RenderM
