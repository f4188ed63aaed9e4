import Mustache.Proofs.Render.Emission

/-! # Steady instructions

Which emissions take the indent of their line is marked in the instructions, but which of them run is up to
the data. Instructions are steady if the marks are right for every choice of runs: the state of the line is
followed as far as it is known, and a section body has to fit the state before it and the state it leaves
itself. What steady instructions put out has its indents in the right places.
-/
namespace Mustache

/-- Emissions whose indents come where a line waits for one and nowhere else. -/
def EvenlyIndented (es : List Emission) : Prop :=
  ((es.flatMap Emission.symbols).foldlM LineState.step .pending).isSome = true

instance (es : List Emission) : Decidable (EvenlyIndented es) :=
  inferInstanceAs (Decidable (_ = true))

def UnbrokenValues (es : List Emission) : Prop :=
  ∀ e ∈ es, e.value = true → '\n' ∉ e.text.toList

namespace Instruction

/-- The state after something that takes the indent of its line if it is marked, as far as the state before
it is known. Nothing if the mark may be wrong. -/
def claim (known : Option LineState) (indent : Bool) : Option (Option LineState) :=
  if known = some (if indent then .pending else .consumed) then some (some .consumed) else none

theorem claim_eq_some_iff {known after : Option LineState} {indent : Bool} :
    claim known indent = some after ↔
      known = some (if indent then .pending else .consumed) ∧ after = some .consumed := by
  simp [claim, eq_comm]

mutual

/-- The state of the line after an instruction, as far as it is known; nothing if a mark may be wrong. -/
def steadyOne (known : Option LineState) : Instruction → Option (Option LineState)
  | literal text indent =>
    if text = "\n" ∧ indent = false then some (some .pending)
    else if '\n' ∈ text.toList then none
    else claim known indent
  | interpolate _ _ _ indent => claim known indent
  | callSection ⟨_, _, _, body⟩ _ _ _ =>
    -- A body that changes the state may run any number of times, so it has to fit every state.
    match steadyAll known body with
    | none => none
    | some after =>
      if after = known then some known
      else if (steadyAll none body).isSome then some none
      else none
  | callInverted _ _ body =>
    match steadyAll known body with
    | none => none
    | some after => some (if after = known then known else none)
  | callPartial _ _ _ => none

def steadyAll (known : Option LineState) : List Instruction → Option (Option LineState)
  | [] => some known
  | i :: is => (steadyOne known i).bind fun after => steadyAll after is

end

def Steady (is : List Instruction) : Prop :=
  (steadyAll (some .pending) is).isSome = true

instance (is : List Instruction) : Decidable (Steady is) :=
  inferInstanceAs (Decidable (_ = true))

end Instruction

namespace Emission
open Instruction

def Fits (known : Option LineState) (l : LineState) : Prop :=
  ∀ k, known = some k → l = k

def Leads (before after : Option LineState) (es : List Emission) : Prop :=
  UnbrokenValues es → ∀ l, Fits before l →
    ∃ l', (es.flatMap symbols).foldlM LineState.step l = some l' ∧ Fits after l'

variable {known before between after : Option LineState} {es fs : List Emission}

theorem leads_nil : Leads known known [] :=
  fun _ l hl => ⟨l, rfl, hl⟩

theorem Leads.append (h : Leads before between es) (h' : Leads between after fs) :
    Leads before after (es ++ fs) := by
  intro hvalues l hl
  obtain ⟨m, hm, hfit⟩ := h (fun e he => hvalues e (List.mem_append_left _ he)) l hl
  obtain ⟨r, hr, hfit'⟩ := h' (fun e he => hvalues e (List.mem_append_right _ he)) m hfit
  refine ⟨r, ?_, hfit'⟩
  rw [List.flatMap_append, List.foldlM_append, hm]
  exact hr

theorem Leads.forget (h : Leads before after es) : Leads before none es := by
  intro hvalues l hl
  obtain ⟨m, hm, -⟩ := h hvalues l hl
  exact ⟨m, hm, nofun⟩

theorem Leads.specialize (h : Leads none after es) : Leads before after es :=
  fun hvalues l _ => h hvalues l nofun

theorem foldlM_step_of_unbroken {cs : List Char} (hcs : '\n' ∉ cs) :
    (cs.map some).foldlM LineState.step .consumed = some .consumed := by
  induction cs with
  | nil => rfl
  | cons c cs ih =>
    have hc : c ≠ '\n' := fun hc => hcs (hc ▸ List.mem_cons_self)
    simpa [LineState.step, hc] using ih fun hmem => hcs (List.mem_cons_of_mem c hmem)

theorem leads_of_claim {text : String} {indent value : Bool} (h : claim known indent = some after)
    (htext : value = false → '\n' ∉ text.toList) : Leads known after [⟨text, indent, value⟩] := by
  intro hvalues l hl
  have hunbroken : '\n' ∉ text.toList := by
    cases value with
    | false => exact htext rfl
    | true => exact hvalues _ List.mem_cons_self rfl
  have hconsumed := foldlM_step_of_unbroken hunbroken
  obtain ⟨hknown, rfl⟩ := claim_eq_some_iff.mp h
  refine ⟨.consumed, ?_, fun k hk => Option.some.inj hk⟩
  rw [hl _ hknown]
  cases indent with
  | false => simpa [symbols] using hconsumed
  | true => simpa [symbols, LineState.step] using hconsumed

def Always (Q : List Emission → Prop) (x : RenderM (List Emission)) : Prop :=
  ∀ s es t, x.run s = (.ok es, t) → Q es

variable {Q R : List Emission → Prop} {x y : RenderM (List Emission)} {α : Type}

theorem always_pure (h : Q es) : Always Q (pure es) := by
  intro s fs t hrun
  cases hrun
  exact h

theorem Always.mono (h : Always Q x) (hQ : ∀ es, Q es → R es) : Always R x :=
  fun s es t hrun => hQ es (h s es t hrun)

theorem always_bind {k : α → RenderM (List Emission)} (h : ∀ a, Always Q (k a)) (z : RenderM α) :
    Always Q (z >>= k) := by
  intro s es t hrun
  rw [RenderM.run_bind] at hrun
  rcases hz : z.run s with ⟨e | a, u⟩
  · rw [hz] at hrun
    cases hrun
  · rw [hz] at hrun
    exact h a u es t hrun

theorem Always.append (h : Always (Leads before between) x) (h' : Always (Leads between after) y) :
    Always (Leads before after) (do
      let first ← x
      let rest ← y
      return first ++ rest) := by
  intro s es t hrun
  rw [RenderM.run_bind] at hrun
  rcases hx : x.run s with ⟨e | first, u⟩
  · rw [hx] at hrun
    cases hrun
  · rw [hx] at hrun
    simp only [RenderM.run_bind] at hrun
    rcases hy : y.run u with ⟨e | rest, w⟩
    · rw [hy] at hrun
      cases hrun
    · rw [hy] at hrun
      cases hrun
      exact (h s first u hx).append (h' u rest _ hy)

theorem Always.withScope (h : Always Q x) (v : Value) : Always Q (RenderM.withScope v x) := by
  intro s es t hrun
  rw [RenderM.run_withScope, RenderM.run_thenRestore] at hrun
  obtain ⟨hes, -⟩ := Prod.mk.inj hrun
  exact h _ es _ (Prod.ext hes rfl)

theorem Always.checkSize (h : Always Q x) (id : Nat) (items : List Value) :
    Always Q (x <* RenderM.checkSize id items) := by
  intro s es t hrun
  change (x >>= fun es => RenderM.checkSize id items >>= fun _ => pure es).run s = _ at hrun
  rw [RenderM.run_bind] at hrun
  rcases hx : x.run s with ⟨e | first, u⟩
  · rw [hx] at hrun
    cases hrun
  · rw [hx] at hrun
    have hsame : Always (· = first) (RenderM.checkSize id items >>= fun _ => pure first) :=
      always_bind (Q := (· = first)) (fun _ => always_pure rfl) _
    rw [hsame u es t hrun]
    exact h s first u hx

theorem Always.forEach (h : Always (Leads known known) x) (items : List Value) :
    Always (Leads known known) (forEach x items) := by
  induction items with
  | nil => exact always_pure leads_nil
  | cons v vs ih => exact (h.withScope v).append ih

theorem Always.forGiven (h : Always (Leads known known) x) (id bound : Nat) :
    Always (Leads known known) (forGiven x id bound) := by
  induction bound with
  | zero => exact always_pure leads_nil
  | succ bound ih =>
    refine always_bind (fun next => ?_) _
    cases next with
    | none => exact always_pure leads_nil
    | some v => exact (h.withScope v).append ih

/-- A section body that leaves the state as it finds it may run any number of times. -/
theorem Always.overValue (h : Always (Leads known known) x) (v : Value) :
    Always (Leads known known) (overValue v x) := by
  unfold Emission.overValue
  cases v.truth with
  | false => exact always_pure leads_nil
  | true =>
    simp only [Bool.not_true, Bool.false_eq_true, if_false]
    cases v.iteration with
    | once => exact h.withScope v
    | each items => exact h.forEach items
    | members id items => exact (h.checkSize id items).forEach items
    | drain id => exact always_bind (fun s => h.forGiven id _) _

variable {escaper : Escaper}

section Instructions

variable {lookup : Lookup} {name : String} {body : List Instruction}

theorem always_literal {text : String} {indent : Bool}
    (h : steadyOne before (.literal text indent) = some after) :
    Always (Leads before after) (ofOne escaper (.literal text indent)) := by
  rw [ofOne]
  apply always_pure
  rw [steadyOne] at h
  split at h
  · rename_i hnl
    obtain ⟨rfl, rfl⟩ := hnl
    cases h
    intro _ l _
    exact ⟨.pending, by cases l <;> rfl, fun k hk => Option.some.inj hk⟩
  · split at h
    · cases h
    · rename_i htext
      exact leads_of_claim h fun _ => htext

theorem always_interpolate {escape indent : Bool}
    (h : steadyOne before (.interpolate lookup name escape indent) = some after) :
    Always (Leads before after) (ofOne escaper (.interpolate lookup name escape indent)) := by
  rw [ofOne]
  rw [steadyOne] at h
  have hone : ∀ text, Always (Leads before after) (pure [⟨text, indent, true⟩]) :=
    fun text => always_pure (leads_of_claim h fun hvalue => by cases hvalue)
  refine always_bind (fun v => ?_) _
  cases escape with
  | false => simpa using hone v.rendered
  | true => exact always_bind hone _

theorem always_callSection {key source : String} {tag : Option String} {inline : Bool}
    (hbody : ∀ {before after}, steadyAll before body = some after →
      Always (Leads before after) (ofAll escaper body))
    (h : steadyOne before (.callSection ⟨key, source, tag, body⟩ lookup name inline) = some after) :
    Always (Leads before after)
      (ofOne escaper (.callSection ⟨key, source, tag, body⟩ lookup name inline)) := by
  rw [ofOne]
  rw [steadyOne] at h
  refine always_bind (fun v => ?_) _
  cases honce : steadyAll before body with
  | none =>
    rw [honce] at h
    cases h
  | some once =>
    have hruns := hbody honce
    simp only [honce] at h
    split at h
    · rename_i hsame
      cases h
      rw [hsame] at hruns
      exact hruns.overValue v
    · split at h
      · rename_i hany
        cases h
        -- The body fits every state, so nothing has to be known between its runs.
        obtain ⟨any, hany'⟩ := Option.isSome_iff_exists.mp hany
        have hruns' := hbody hany'
        exact ((hruns'.mono fun es hes => hes.forget).overValue v).mono fun es hes => hes.specialize
      · cases h

theorem always_callInverted
    (hbody : ∀ {before after}, steadyAll before body = some after →
      Always (Leads before after) (ofAll escaper body))
    (h : steadyOne before (.callInverted lookup name body) = some after) :
    Always (Leads before after) (ofOne escaper (.callInverted lookup name body)) := by
  rw [ofOne]
  rw [steadyOne] at h
  refine always_bind (fun v => ?_) _
  cases honce : steadyAll before body with
  | none =>
    rw [honce] at h
    cases h
  | some once =>
    have hruns := hbody honce
    simp only [honce] at h
    cases h
    by_cases hsame : once = before
    · rw [if_pos hsame]
      rw [hsame] at hruns
      cases v.truth with
      | true => exact always_pure leads_nil
      | false => exact hruns
    · rw [if_neg hsame]
      cases v.truth with
      | true => exact always_pure leads_nil.forget
      | false => exact hruns.mono fun es hes => hes.forget

mutual

theorem always_ofOne : ∀ (i : Instruction) {before after : Option LineState},
    steadyOne before i = some after → Always (Leads before after) (ofOne escaper i)
  | .literal _ _, _, _, h => always_literal h
  | .interpolate _ _ _ _, _, _, h => always_interpolate h
  | .callSection ⟨_, _, _, body⟩ _ _ _, _, _, h => always_callSection (always_ofAll body) h
  | .callInverted _ _ body, _, _, h => always_callInverted (always_ofAll body) h
  | .callPartial _ _ _, _, _, h => by
    rw [steadyOne] at h
    cases h

theorem always_ofAll : ∀ (is : List Instruction) {before after : Option LineState},
    steadyAll before is = some after → Always (Leads before after) (ofAll escaper is)
  | [], before, after, h => by
    rw [steadyAll] at h
    cases h
    rw [ofAll]
    exact always_pure leads_nil
  | i :: is, before, after, h => by
    rw [steadyAll] at h
    obtain ⟨between, hi, his⟩ := Option.bind_eq_some_iff.mp h
    rw [ofAll]
    exact (always_ofOne i hi).append (always_ofAll is his)

end

end Instructions

theorem evenlyIndented_of_steady {is : List Instruction} {s t : RenderState} (h : Steady is)
    (hrun : (ofAll escaper is).run s = (.ok es, t)) (hvalues : UnbrokenValues es) :
    EvenlyIndented es := by
  obtain ⟨after, hafter⟩ := Option.isSome_iff_exists.mp h
  obtain ⟨l, hl, -⟩ := always_ofAll is hafter s es t hrun hvalues .pending fun k hk => Option.some.inj hk
  rw [EvenlyIndented, hl]
  rfl

end Emission
end Mustache
