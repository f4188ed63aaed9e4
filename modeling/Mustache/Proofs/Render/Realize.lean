import Mustache.Proofs.Render.Course
import Mustache.Proofs.Render.Lockstep

/-! # Courses that go where renderings end

The course of a part of a rendering *realizes* the part from a state if it goes to the end that the part has
there. There is one rule for each way to build a rendering. Each part puts the context back and adds to no
iterator; what comes after it relies on that.
-/
namespace Mustache

namespace Context

def Below (d : Int) (c : Context) : Prop :=
  c.limit ≤ d ∧ (c.depth : Int) ≤ d

variable {c c' : Context} {d : Int} {frames : Nat}

theorem Below.deeper (h : c.Below d) (hdeeper : c.deeper? frames = some c') : c'.Below d := by
  obtain ⟨⟨hlt, -⟩, rfl⟩ := deeper?_eq_some_iff.mp hdeeper
  obtain ⟨hlimit, -⟩ := h
  exact ⟨hlimit, by push_cast; omega⟩

theorem levelsLeft_of_deeper? (h : c.deeper? frames = some c') : c'.levelsLeft + 1 = c.levelsLeft := by
  obtain ⟨⟨hlt, -⟩, rfl⟩ := deeper?_eq_some_iff.mp h
  simp only [levelsLeft]
  push_cast
  omega

structure At (d : Int) (level : Nat) (c : Context) : Prop where
  level_eq : c.levelsLeft = level
  below : c.Below d

theorem At.push {level : Nat} (h : c.At d level) (v : Value) : (c.push v).At d level :=
  ⟨h.level_eq, h.below⟩

theorem At.deeper {level : Nat} (h : c.At d level) (hdeeper : c.deeper? frames = some c') :
    ∃ inner, inner + 1 = level ∧ c'.At d inner := by
  refine ⟨c'.levelsLeft, ?_, rfl, h.below.deeper hdeeper⟩
  rw [← h.level_eq]
  exact levelsLeft_of_deeper? hdeeper

end Context

namespace Store

def AtMost (before after : Store) : Prop :=
  ∀ id, (after.remaining id).length ≤ (before.remaining id).length

variable {s t u : Store}

theorem AtMost.refl (s : Store) : s.AtMost s :=
  fun _ => Nat.le_refl _

theorem AtMost.trans (h : s.AtMost t) (h' : t.AtMost u) : s.AtMost u :=
  fun id => Nat.le_trans (h' id) (h id)

theorem atMost_after (s : Store) (a : Answer) : s.AtMost (s.after a) := by
  unfold after
  split
  · exact .refl s
  · exact fun _ => Nat.le_refl _

end Store

namespace RenderM

variable {α β : Type}

def IsStep (m : RenderM α) : Prop :=
  ∀ s, (m.run s).2.context = s.context ∧ s.store.AtMost (m.run s).2.store

theorem isStep_pure (a : α) : IsStep (pure a) :=
  fun s => ⟨rfl, .refl s.store⟩

theorem IsStep.bind {m : RenderM α} {k : α → RenderM β} (h : IsStep m) (hk : ∀ a, IsStep (k a)) :
    IsStep (m >>= k) := by
  intro s
  obtain ⟨hcontext, hstore⟩ := h s
  rw [run_bind]
  rcases hm : m.run s with ⟨e | a, t⟩
  · rw [hm] at hcontext hstore
    exact ⟨hcontext, hstore⟩
  · rw [hm] at hcontext hstore
    exact ⟨(hk a t).1.trans hcontext, hstore.trans (hk a t).2⟩

theorem isStep_lift {ε : Type} (wrap : ε → RenderError) (x : Except ε α) : IsStep (lift wrap x) := by
  intro s
  rw [run_lift]
  exact ⟨rfl, .refl s.store⟩

theorem isStep_resolve (lookup : Lookup) (name : String) : IsStep (resolve lookup name) :=
  fun s => ⟨rfl, .refl s.store⟩

theorem isStep_note (events : List Event) : IsStep (note events) :=
  fun s => ⟨rfl, .refl s.store⟩

theorem isStep_answer (call : Option String → Except CallError Answer) (argument : Option String) :
    IsStep (answer call argument) :=
  (isStep_lift _ _).bind fun a =>
    IsStep.bind (fun s => ⟨rfl, s.store.atMost_after a⟩) fun _ => isStep_pure a.text

theorem isStep_load (found : List Event × Except RenderError Program) :
    IsStep (Surroundings.load found) :=
  (isStep_note _).bind fun _ => isStep_lift _ _

theorem isStep_takeNext (id : Nat) : IsStep (takeNext id) := by
  intro s
  rw [run_takeNext]
  cases hnext : s.store.next? id with
  | none => exact ⟨rfl, .refl s.store⟩
  | some r =>
    obtain ⟨hrest, hothers⟩ := Store.remaining_of_next? hnext
    refine ⟨rfl, fun other => ?_⟩
    by_cases heq : other = id
    · rw [heq, hrest]
      exact Nat.le_succ _
    · exact Nat.le_of_eq (congrArg List.length (hothers other heq))

theorem isStep_checkSize (id : Nat) (items : List Value) : IsStep (checkSize id items) := by
  intro s
  rw [run_checkSize]
  exact ⟨rfl, .refl s.store⟩

end RenderM

/-- From a state the course of `x` goes to the end that `m` has. No moment of it is above the bound, the
context is put back and no iterator is added to. -/
def Realizes {α : Type} (templates : Templates) (escaper : Escaper) (d : Int) (bound : Left)
    (s : RenderState) (x : CourseM α) (m : RenderM α) : Prop :=
  ∃ moments, Goes templates escaper bound (x.run s) moments (m.run s) ∧
    (∀ t ∈ moments, t.context.Below d) ∧ (m.run s).2.context = s.context ∧
    s.store.AtMost (m.run s).2.store

namespace Realizes

variable {α β : Type} {templates : Templates} {escaper : Escaper} {d : Int} {bound : Left}
  {s : RenderState} {x y : CourseM α} {m n : RenderM α}

theorem congr (h : Realizes templates escaper d bound s x m) (hx : y.run s = x.run s)
    (hm : n.run s = m.run s) : Realizes templates escaper d bound s y n := by
  rw [Realizes, hx, hm]
  exact h

theorem of_pure (a : α) : Realizes templates escaper d bound s (pure a) (pure a) :=
  ⟨[], .ends _, nofun, rfl, .refl _⟩

theorem bind {k : α → CourseM β} {l : α → RenderM β} (h : Realizes templates escaper d bound s x m)
    (hk : ∀ a t, m.run s = (.ok a, t) → t.context = s.context → s.store.AtMost t.store →
      Realizes templates escaper d bound t (k a) (l a)) :
    Realizes templates escaper d bound s (x >>= k) (m >>= l) := by
  obtain ⟨moments, hgoes, hbelow, hcontext, hstore⟩ := h
  rw [Realizes, RenderM.run_bind, CourseM.run_bind]
  rcases hm : m.run s with ⟨e | a, t⟩
  · -- an error is the end of both
    rw [hm] at hgoes hcontext hstore
    exact ⟨moments ++ [], hgoes.bind (.ends _), by simpa using hbelow, hcontext, hstore⟩
  · rw [hm] at hgoes hcontext hstore
    obtain ⟨rest, hrest, hbelow', hcontext', hstore'⟩ := hk a t hm hcontext hstore
    refine ⟨moments ++ rest, hgoes.bind hrest, ?_, hcontext'.trans hcontext, hstore.trans hstore'⟩
    intro u hu
    exact (List.mem_append.mp hu).elim (hbelow u) (hbelow' u)

theorem perform (hbelow : s.context.Below d) (h : m.IsStep) :
    Realizes templates escaper d bound s (CourseM.perform m) m := by
  obtain ⟨hcontext, hstore⟩ := h s
  refine ⟨[(m.run s).2], .passes (.ends _), ?_, hcontext, hstore⟩
  intro t ht
  rw [List.mem_singleton.mp ht, hcontext]
  exact hbelow

theorem step {level : Nat} {k : α → CourseM β} {l : α → RenderM β} (hs : s.context.At d level)
    (h : m.IsStep) (hk : ∀ a t, m.run s = (.ok a, t) → t.context.At d level →
      Realizes templates escaper d bound t (k a) (l a)) :
    Realizes templates escaper d bound s (CourseM.perform m >>= k) (m >>= l) := by
  refine (perform hs.below h).bind fun a t hrun hcontext _ => hk a t hrun ?_
  rw [hcontext]
  exact hs

theorem within {context : Context} {restore : Context → Context} (hbelow : s.context.Below d)
    (hinner : context.Below d) (hrestore : restore context = s.context)
    (h : Realizes templates escaper d bound { s with context } x m) :
    Realizes templates escaper d bound s (fun s => CourseM.within context restore x s)
      (fun s => (RenderM.thenRestore restore m).run { s with context }) := by
  obtain ⟨moments, hgoes, hmoments, hcontext, hstore⟩ := h
  have hback : restore (m.run { s with context }).2.context = s.context := by rw [hcontext, hrestore]
  refine ⟨_, .passes (hgoes.bind (.passes (.ends _))), ?_, hback, hstore⟩
  intro t ht
  simp only [List.mem_cons, List.mem_append, List.not_mem_nil, or_false] at ht
  rcases ht with rfl | ht | rfl
  · exact hinner
  · exact hmoments t ht
  · have hafter : (restore (m.run { s with context }).2.context).Below d := by
      rw [hback]
      exact hbelow
    exact hafter

theorem withScope (hbelow : s.context.Below d) (v : Value)
    (h : Realizes templates escaper d bound { s with context := s.context.push v } x m) :
    Realizes templates escaper d bound s (CourseM.withScope v x) (RenderM.withScope v m) :=
  within hbelow hbelow (Context.drop_push s.context v) h

/-- Either no template may nest or what runs one level deeper has one level less. -/
theorem withDepth {level : Nat} (frames : Nat) (hs : s.context.At d level)
    (h : ∀ deeper inner, inner + 1 = level → deeper.At d inner →
      Realizes templates escaper d bound { s with context := deeper } x m) :
    Realizes templates escaper d bound s (CourseM.withDepth frames x) (RenderM.withDepth frames m) := by
  cases hdeeper : s.context.deeper? frames with
  | none =>
    have hx : (CourseM.withDepth frames x).run s = .ends (.error (.tooDeep s.context.limit), s) := by
      simp only [CourseM.withDepth, ExceptT.run, hdeeper]
    rw [Realizes, hx, RenderM.run_withDepth, hdeeper]
    exact ⟨[], .ends _, nofun, rfl, .refl _⟩
  | some deeper =>
    obtain ⟨inner, hone, hinner⟩ := hs.deeper hdeeper
    have hback := Context.shallower_of_deeper? hdeeper
    refine (within hs.below hinner.below hback (h deeper inner hone hinner)).congr ?_ ?_
    · simp only [CourseM.withDepth, ExceptT.run, hdeeper]
    · rw [RenderM.run_withDepth, hdeeper]
      rfl

theorem call {called : Activation} {m : RenderM Output}
    (h : Realizes templates escaper d (called.left s) s (called.course templates escaper) m)
    (hbelow : s.context.Below d) (hlt : called.left s < bound) :
    Realizes templates escaper d bound s (CourseM.call called) m := by
  obtain ⟨moments, hgoes, hmoments, hrest⟩ := h
  refine ⟨s :: (moments ++ []), .calls hlt hgoes (.ends _), ?_, hrest⟩
  intro t ht
  rw [List.append_nil] at ht
  rcases List.mem_cons.mp ht with rfl | ht
  · exact hbelow
  · exact hmoments t ht

end Realizes

end Mustache
