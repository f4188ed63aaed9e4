import Mustache.Render.Run

/-! # Outcomes of renderings

A rendering is a function of its state. These equations say what each way of building one does to the
outcome and to the state, so that no later proof unfolds the layers it is made of.
-/
namespace Mustache

section Sequences

variable {ε α β : Type} {x : Except ε α} {f : α → Except ε β} {g : α → β} {b : β} {e : ε}

theorem bind_eq_ok_iff : x >>= f = .ok b ↔ ∃ a, x = .ok a ∧ f a = .ok b := by
  cases x with
  | error e => exact ⟨nofun, nofun⟩
  | ok a => exact ⟨fun h => ⟨a, rfl, h⟩, fun ⟨a', ha, h⟩ => (Except.ok.inj ha) ▸ h⟩

theorem bind_eq_error_iff : x >>= f = .error e ↔ x = .error e ∨ ∃ a, x = .ok a ∧ f a = .error e := by
  cases x with
  | error e' =>
    have hbind : .error e' >>= f = .error e' := rfl
    simp [hbind]
  | ok a =>
    have hbind : .ok a >>= f = f a := rfl
    simp [hbind]

theorem map_eq_ok_iff : x.map g = .ok b ↔ ∃ a, x = .ok a ∧ g a = b := by
  cases x <;> simp [Except.map]

theorem map_eq_error_iff : x.map g = .error e ↔ x = .error e := by
  cases x <;> simp [Except.map]

end Sequences

namespace Store

variable {store store' : Store} {id : Nat} {v : Value}

theorem remaining_of_next? (h : store.next? id = some (v, store')) :
    store.remaining id = v :: store'.remaining id ∧
      ∀ other, other ≠ id → store'.remaining other = store.remaining other := by
  unfold next? at h
  split at h
  · cases h
  · rename_i w rest hrest
    cases h
    have hlt : id < store.iterators.length := by
      rcases Nat.lt_or_ge id store.iterators.length with hlt | hge
      · exact hlt
      · rw [remaining, List.getElem?_eq_none hge] at hrest
        cases hrest
    constructor
    · rw [hrest, remaining, List.getElem?_set_self hlt]
      rfl
    · intro other hne
      rw [remaining, List.getElem?_set_ne (Ne.symm hne)]
      rfl

theorem sets_of_next? (h : store.next? id = some (v, store')) : store'.sets = store.sets := by
  unfold next? at h
  split at h
  · cases h
  · cases h
    rfl

end Store

namespace RenderM

variable {α β : Type}

theorem run_pure (a : α) (s : RenderState) : (pure a : RenderM α).run s = (.ok a, s) := rfl

theorem run_get (s : RenderState) : (get : RenderM RenderState).run s = (.ok s, s) := rfl

/-- An error ends a sequence; the state it leaves is that of the part that failed. -/
theorem run_bind (x : RenderM α) (f : α → RenderM β) (s : RenderState) :
    (x >>= f).run s = match x.run s with
      | (.ok a, t) => (f a).run t
      | (.error e, t) => (.error e, t) := by
  have h : (x >>= f).run s = ExceptT.bindCont f (x.run s).1 (x.run s).2 := rfl
  rw [h]
  rcases x.run s with ⟨a | a, t⟩ <;> rfl

theorem run_bind_error {x : RenderM α} {s : RenderState} {e : RenderError} (h : (x.run s).1 = .error e)
    (f : α → RenderM β) : ((x >>= f).run s).1 = .error e := by
  rcases hrun : x.run s with ⟨r, t⟩
  simp only [hrun] at h
  simp [run_bind, hrun, h]

theorem run_map (f : α → β) (x : RenderM α) (s : RenderState) :
    (f <$> x).run s = match x.run s with
      | (.ok a, t) => (.ok (f a), t)
      | (.error e, t) => (.error e, t) := by
  rw [map_eq_pure_bind, run_bind]
  rfl

theorem run_thenRestore (restore : Context → Context) (body : RenderM α) (s : RenderState) :
    (thenRestore restore body).run s =
      ((body.run s).1, { (body.run s).2 with context := restore (body.run s).2.context }) := rfl

theorem run_withScope (v : Value) (body : RenderM α) (s : RenderState) :
    (withScope v body).run s =
      (thenRestore Context.drop body).run { s with context := s.context.push v } := rfl

theorem run_withDepth (frames : Nat) (body : RenderM α) (s : RenderState) :
    (withDepth frames body).run s = match s.context.deeper? frames with
      | none => (.error (.tooDeep s.context.limit), s)
      | some deeper => (thenRestore Context.shallower body).run { s with context := deeper } := by
  rw [withDepth, run_bind, run_get]
  cases h : s.context.deeper? frames with
  | none => simp only [h]; rfl
  | some deeper => simp only [h]; rfl

theorem run_resolve (lookup : Lookup) (name : String) (s : RenderState) :
    (resolve lookup name).run s = (.ok (s.store.current (s.context.resolve lookup name)), s) := rfl

theorem run_takeNext (id : Nat) (s : RenderState) :
    (takeNext id).run s = match s.store.next? id with
      | none => (.ok none, s)
      | some (v, store) => (.ok (some v), { s with store }) := by
  rw [takeNext, run_bind, run_get]
  cases h : s.store.next? id with
  | none => simp only [h]; rfl
  | some r => simp only [h]; rfl

theorem run_checkSize (id : Nat) (items : List Value) (s : RenderState) :
    (checkSize id items).run s = (if (s.store.sets[id]?.getD items).length ≠ items.length then
      .error .setResized else .ok (), s) := by
  rw [checkSize, run_bind, run_get]
  simp only
  split
  · rfl
  · rfl

theorem run_lift {ε : Type} (wrap : ε → RenderError) (x : Except ε α) (s : RenderState) :
    (lift wrap x).run s = (x.mapError wrap, s) := by
  cases x <;> rfl

end RenderM

namespace Program

variable (p : Program) (templates : Templates) (escaper : Escaper) (indent : String) (carried : Bool)
  (s : RenderState)

theorem run_runAt (frames : Nat) : (p.runAt templates escaper frames indent carried).run s =
    (renderWithin templates escaper s.context.levelsLeft frames p indent carried).run s := by
  rw [runAt, RenderM.run_bind, RenderM.run_get]

theorem render_eq_runAt :
    p.render templates escaper indent false = p.runAt templates escaper 0 indent false :=
  bind_pure _

theorem run_run : (p.run templates escaper indent carried).run s =
    (renderWithin templates escaper s.context.levelsLeft 0 p indent carried).run s :=
  p.run_runAt templates escaper indent carried s 0

theorem run_render : (p.render templates escaper indent false).run s =
    (renderWithin templates escaper s.context.levelsLeft 0 p indent false).run s := by
  rw [render_eq_runAt, run_runAt]

/-- A rendering runs the instructions of the program, other programs with one level less. -/
theorem exists_renderWithin_eq (levels : Nat) :
    ∃ nested, (∀ inner, levels = inner + 1 → nested = renderWithin templates escaper inner) ∧
      ∀ frames p indent carried, renderWithin templates escaper levels frames p indent carried =
        (Surroundings.runAll ⟨templates, escaper, p.name, indent, frames, nested⟩ p.instructions carried >>=
          fun out => pure out.text) := by
  cases levels with
  | zero =>
    refine ⟨_, ?_, fun _ _ _ _ => rfl⟩
    intro inner h
    cases h
  | succ levels =>
    refine ⟨_, ?_, fun _ _ _ _ => rfl⟩
    intro inner h
    cases h
    rfl

theorem exists_run_run : ∃ sur : Surroundings, sur.escaper = escaper ∧ sur.indent = indent ∧
    (p.run templates escaper indent carried).run s =
      (sur.runAll p.instructions carried >>= fun out => pure out.text).run s := by
  obtain ⟨nested, -, hwithin⟩ := exists_renderWithin_eq templates escaper s.context.levelsLeft
  rw [run_run, hwithin]
  exact ⟨_, rfl, rfl, rfl⟩

theorem exists_run_render : ∃ sur : Surroundings, sur.escaper = escaper ∧ sur.indent = indent ∧
    (p.render templates escaper indent false).run s =
      (sur.runAll p.instructions false >>= fun out => pure out.text).run s := by
  rw [run_render, ← run_run]
  exact p.exists_run_run templates escaper indent false s

end Program
end Mustache
