import Mustache.Proofs.Compile.Implements
import Mustache.Proofs.Text.Indented

/-! # What a rendering puts out

Instructions put out texts one after the other. What they put out does not depend on the indent of the
lines: that only comes before the texts marked for it, unless the line under way is carried. So a rendering
with any indent is its emissions, written with that indent.
-/
namespace Mustache

/-- A text that is put out: whether it takes the indent of its line and whether it is the text of a
value. -/
structure Emission where
  text : String
  indent : Bool
  value : Bool
  deriving DecidableEq, Repr

namespace Emission

/-- What emissions come to, with an indent and on a line that is carried or not. A line break in a
literal ends the carried line. -/
def output (indent : String) : Bool → List Emission → Output
  | carried, [] => ⟨"", carried⟩
  | carried, e :: es =>
    if e.indent then
      let rest := output indent false es
      ⟨(if carried then "" else indent) ++ e.text ++ rest.text, rest.carried⟩
    else
      let rest := output indent (carried && (e.value || '\n' ∉ e.text.toList)) es
      ⟨e.text ++ rest.text, rest.carried⟩

def written (indent : String) (es : List Emission) : String :=
  (output indent false es).text

/-- The characters of an emission after the place of its indent. -/
def symbols (e : Emission) : List (Option Char) :=
  if e.indent then none :: e.text.toList.map some else e.text.toList.map some

variable {indent : String} {carried : Bool} {es fs : List Emission}

theorem output_append : output indent carried (es ++ fs) =
    ⟨(output indent carried es).text ++ (output indent (output indent carried es).carried fs).text,
      (output indent (output indent carried es).carried fs).carried⟩ := by
  induction es generalizing carried with
  | nil => simp [output]
  | cons e es ih =>
    by_cases h : e.indent = true
    · simp [output, h, ih, String.append_assoc]
    · simp [output, h, ih, String.append_assoc]

theorem toList_written : (written indent es).toList =
    Text.spread indent.toList (es.flatMap symbols) := by
  induction es with
  | nil => rfl
  | cons e es ih =>
    rw [written] at ih
    by_cases h : e.indent = true
    · simp [written, output, h, ih, symbols, Text.spread_append]
    · simp [written, output, h, ih, symbols, Text.spread_append]

def forEach (body : RenderM (List Emission)) : List Value → RenderM (List Emission)
  | [] => pure []
  | v :: vs => do
    let first ← RenderM.withScope v body
    let rest ← forEach body vs
    return first ++ rest

def forGiven (body : RenderM (List Emission)) (id : Nat) : Nat → RenderM (List Emission)
  | 0 => pure []
  | bound + 1 => do
    match ← RenderM.takeNext id with
    | none => return []
    | some v =>
      let first ← RenderM.withScope v body
      let rest ← forGiven body id bound
      return first ++ rest

def overValue (v : Value) (body : RenderM (List Emission)) : RenderM (List Emission) :=
  if !v.truth then pure []
  else match v.iteration with
    | .once => RenderM.withScope v body
    | .each items => forEach body items
    | .members id items => forEach (body <* RenderM.checkSize id items) items
    | .drain id => do
      let bound := ((← get).store.remaining id).length
      forGiven body id bound

mutual

/-- What an instruction puts out where nothing is called. Partials are not looked into. -/
def ofOne (escaper : Escaper) : Instruction → RenderM (List Emission)
  | .literal text indent => return [⟨text, indent, false⟩]
  | .interpolate lookup name escape indent => do
    let v ← RenderM.resolve lookup name
    let text ← if escape then RenderM.lift .unescapable (escaper.escape v.rendered) else pure v.rendered
    return [⟨text, indent, true⟩]
  | .callSection ⟨_, _, _, body⟩ lookup name _ => do
    let v ← RenderM.resolve lookup name
    overValue v (ofAll escaper body)
  | .callInverted lookup name body => do
    let v ← RenderM.resolve lookup name
    if v.truth then return [] else ofAll escaper body
  | .callPartial _ _ _ => return []

def ofAll (escaper : Escaper) : List Instruction → RenderM (List Emission)
  | [] => return []
  | i :: is => do
    let first ← ofOne escaper i
    let rest ← ofAll escaper is
    return first ++ rest

end

end Emission

/-- Instructions that ask scopes for some keys only and need no other template. -/
inductive Asks (keys : List String) : List Instruction → Prop
  | nil : Asks keys []
  | literal {text : String} {indent : Bool} {is : List Instruction} :
      Asks keys is → Asks keys (.literal text indent :: is)
  | interpolate {lookup : Lookup} {name : String} {escape indent : Bool} {is : List Instruction} :
      (∀ key ∈ lookup.keys name, key ∈ keys) → Asks keys is →
      Asks keys (.interpolate lookup name escape indent :: is)
  | callSection {lookup : Lookup} {name key source : String} {tag : Option String}
      {body is : List Instruction} {inline : Bool} :
      (∀ key ∈ lookup.keys name, key ∈ keys) → Asks keys body → Asks keys is →
      Asks keys (.callSection ⟨key, source, tag, body⟩ lookup name inline :: is)
  | callInverted {lookup : Lookup} {name : String} {body is : List Instruction} :
      (∀ key ∈ lookup.keys name, key ∈ keys) → Asks keys body → Asks keys is →
      Asks keys (.callInverted lookup name body :: is)

namespace Surroundings
open RenderM RenderState Emission

variable {sur : Surroundings} {s : RenderState} {keys : List String} {P : RenderState → Prop}

def PutsOut (P : RenderState → Prop) (indent : String) (x : RenderM (List Emission))
    (y : Bool → RenderM Output) : Prop :=
  ∀ carried, Agrees P (output indent carried) x (y carried)

variable {indent : String} {x x' : RenderM (List Emission)} {y y' : Bool → RenderM Output}

theorem putsOut_nil : PutsOut P indent (pure []) fun carried => pure ⟨"", carried⟩ :=
  fun carried => agrees_pure (output indent carried) []

theorem PutsOut.append (h : PutsOut P indent x y) (h' : PutsOut P indent x' y') :
    PutsOut P indent
      (do let first ← x
          let rest ← x'
          return first ++ rest)
      fun carried => (do
        let first ← y carried
        let rest ← y' first.carried
        return ⟨first.text ++ rest.text, rest.carried⟩) := by
  intro carried
  refine (h carried).bind fun first => (h' _).bind fun rest => ?_
  rw [← output_append]
  exact agrees_pure (output indent carried) _

section Loops

variable {v : Value}

theorem PutsOut.withScope (hv : s.Reachable keys v) (h : PutsOut (s.Within keys) indent x y) :
    PutsOut (s.Within keys) indent (withScope v x) fun carried => RenderM.withScope v (y carried) :=
  fun carried => Agrees.withScope (fun _ ht => ht.push hv) (fun _ ht => ht.drop) (h carried)

theorem PutsOut.runEach {items : List Value} (hitems : ∀ v ∈ items, s.Reachable keys v)
    (h : PutsOut (s.Within keys) indent x y) :
    PutsOut (s.Within keys) indent (forEach x items) (runEach y items) := by
  induction items with
  | nil => exact putsOut_nil
  | cons v vs ih =>
    have hrest := ih fun w hw => hitems w (List.mem_cons_of_mem v hw)
    exact (h.withScope (hitems v List.mem_cons_self)).append hrest

theorem PutsOut.drain {id : Nat} (hgiven : ∀ v ∈ s.store.remaining id, s.Reachable keys v)
    (h : PutsOut (s.Within keys) indent x y) (bound : Nat) :
    PutsOut (s.Within keys) indent (forGiven x id bound) (drain y id bound) := by
  induction bound with
  | zero => exact putsOut_nil
  | succ bound ih =>
    intro carried t ht
    rw [forGiven, Surroundings.drain, run_bind, run_bind, run_takeNext]
    cases hnext : t.store.next? id with
    | none => exact ⟨rfl, ht⟩
    | some r =>
      obtain ⟨w, store⟩ := r
      obtain ⟨ht', hw, -⟩ := ht.takeNext hnext
      exact (h.withScope (hgiven w hw)).append ih carried _ ht'

theorem PutsOut.checkSize (h : PutsOut P indent x y) (id : Nat) (items : List Value) :
    PutsOut P indent (x <* checkSize id items) fun carried => y carried <* RenderM.checkSize id items := by
  intro carried
  have hcheck : ∀ es, Agrees P (output indent carried) (RenderM.checkSize id items >>= fun _ => pure es)
      (RenderM.checkSize id items >>= fun _ => pure (output indent carried es)) := by
    intro es t ht
    rw [run_bind, run_bind, run_checkSize]
    by_cases hsize : (t.store.sets[id]?.getD items).length ≠ items.length
    · rw [if_pos hsize]
      exact ⟨rfl, ht⟩
    · rw [if_neg hsize]
      exact ⟨rfl, ht⟩
  exact (h carried).bind hcheck

theorem PutsOut.runOver (hv : s.Reachable keys v) (h : PutsOut (s.Within keys) indent x y) :
    PutsOut (s.Within keys) indent (overValue v x) (runOver v y) := by
  unfold overValue Surroundings.runOver
  cases htruth : v.truth with
  | false => exact putsOut_nil
  | true =>
    simp only [Bool.not_true, Bool.false_eq_true, if_false]
    cases hiter : v.iteration with
    | once => exact h.withScope hv
    | each items => exact h.runEach fun w hw => .element hv hiter hw
    | members id items => exact (h.checkSize id items).runEach fun w hw => .setElement hv hiter hw
    | drain id =>
      intro carried t ht
      have hgiven : ∀ w ∈ s.store.remaining id, s.Reachable keys w := fun w hw => .given hv hiter hw
      simp only
      rw [run_bind, run_bind, run_get]
      exact h.drain hgiven _ carried t ht

end Loops

theorem putsOut_literal (text : String) (indent : Bool) :
    PutsOut P sur.indent (ofOne sur.escaper (.literal text indent)) (sur.runOne (.literal text indent)) := by
  intro carried
  have houtput : output sur.indent carried [⟨text, indent, false⟩] = sur.literal text indent carried := by
    cases indent with
    | false => simp [output, literal, lead]
    | true => simp [output, literal, lead]
  rw [ofOne, runOne, ← houtput]
  exact agrees_pure _ _

theorem putsOut_interpolate (hcalls : s.CallFree keys) {lookup : Lookup} {name : String}
    (hkeys : ∀ key ∈ lookup.keys name, key ∈ keys) (escape indent : Bool) :
    PutsOut (s.Within keys) sur.indent
      (ofOne sur.escaper (.interpolate lookup name escape indent))
      (sur.runOne (.interpolate lookup name escape indent)) := by
  have hlead : ∀ text carried, Agrees (s.Within keys) (output sur.indent carried)
      (pure [⟨text, indent, true⟩]) (pure (sur.lead indent carried text)) := by
    intro text carried
    have houtput : output sur.indent carried [⟨text, indent, true⟩] = sur.lead indent carried text := by
      cases indent <;> simp [output, lead]
    rw [← houtput]
    exact agrees_pure _ _
  intro carried
  rw [ofOne, runOne]
  refine agrees_resolve_bind fun t ht => ?_
  rw [variableText_of_not_isLambda (hcalls _ (ht.reachable_lookup hkeys)), pure_bind]
  cases escape with
  | false => simpa using hlead _ carried
  | true =>
    simp only [if_true]
    exact (agrees_lift _ _).bind fun text => hlead text carried

theorem putsOut_callSection (hcalls : s.CallFree keys) {lookup : Lookup} {name : String}
    (hkeys : ∀ key ∈ lookup.keys name, key ∈ keys) {body : List Instruction}
    (hbody : PutsOut (s.Within keys) sur.indent (ofAll sur.escaper body) (sur.inBody.runAll body))
    (key source : String) (tag : Option String) (inline : Bool) :
    PutsOut (s.Within keys) sur.indent
      (ofOne sur.escaper (.callSection ⟨key, source, tag, body⟩ lookup name inline))
      (sur.runOne (.callSection ⟨key, source, tag, body⟩ lookup name inline)) := by
  intro carried
  rw [ofOne, runOne]
  refine agrees_resolve_bind fun t ht => ?_
  have hv := ht.reachable_lookup hkeys
  simp only [call?_of_not_isLambda (hcalls _ hv)]
  exact hbody.runOver hv carried

theorem putsOut_callInverted {lookup : Lookup} {name : String} {body : List Instruction}
    (hbody : PutsOut P sur.indent (ofAll sur.escaper body) (sur.inBody.runAll body)) :
    PutsOut P sur.indent (ofOne sur.escaper (.callInverted lookup name body))
      (sur.runOne (.callInverted lookup name body)) := by
  intro carried
  rw [ofOne, runOne]
  refine agrees_resolve_bind fun t _ => ?_
  cases (t.store.current (t.context.resolve lookup name)).truth with
  | true => exact putsOut_nil carried
  | false => exact hbody carried

/-- Instructions put out their emissions, by induction on what they ask for. -/
theorem putsOut_runAll {sur : Surroundings} (hcalls : s.CallFree keys) {is : List Instruction}
    (h : Asks keys is) : PutsOut (s.Within keys) sur.indent (ofAll sur.escaper is) (sur.runAll is) := by
  have hcons : ∀ {sur : Surroundings} {i : Instruction} {is : List Instruction},
      PutsOut (s.Within keys) sur.indent (ofOne sur.escaper i) (sur.runOne i) →
      PutsOut (s.Within keys) sur.indent (ofAll sur.escaper is) (sur.runAll is) →
      PutsOut (s.Within keys) sur.indent (ofAll sur.escaper (i :: is)) (sur.runAll (i :: is)) := by
    intro sur i is hfirst hrest carried
    rw [ofAll, runAll]
    exact hfirst.append hrest carried
  induction h generalizing sur with
  | nil =>
    intro carried
    rw [ofAll, runAll]
    exact putsOut_nil carried
  | literal _ ih => exact hcons (putsOut_literal _ _) ih
  | interpolate hkeys _ ih => exact hcons (putsOut_interpolate hcalls hkeys _ _) ih
  | callSection hkeys _ _ ihbody ih =>
    exact hcons (putsOut_callSection hcalls hkeys (@ihbody sur.inBody) _ _ _ _) ih
  | callInverted _ _ _ ihbody ih => exact hcons (putsOut_callInverted (@ihbody sur.inBody)) ih

end Surroundings

theorem Program.run_run_eq_output {p : Program} {s : RenderState} {keys : List String}
    (h : Asks keys p.instructions) (hcalls : s.CallFree keys) (templates : Templates) (escaper : Escaper)
    (indent : String) (carried : Bool) : (p.run templates escaper indent carried).run s =
      (((Emission.ofAll escaper p.instructions).run s).1.map
        fun es => (Emission.output indent carried es).text,
        ((Emission.ofAll escaper p.instructions).run s).2) := by
  obtain ⟨sur, rfl, rfl, hrun⟩ := p.exists_run_run templates escaper indent carried s
  have hputs : Surroundings.PutsOut (s.Within keys) sur.indent (Emission.ofAll sur.escaper p.instructions)
      (sur.runAll p.instructions) := Surroundings.putsOut_runAll hcalls h
  have hout := (hputs carried s (RenderState.within_self s keys)).1
  rw [hrun, RenderM.run_bind, hout]
  rcases (Emission.ofAll sur.escaper p.instructions).run s with ⟨e | es, t⟩
  · rfl
  · rfl

theorem Program.run_render_eq_written {p : Program} {s : RenderState} {keys : List String}
    (h : Asks keys p.instructions) (hcalls : s.CallFree keys) (templates : Templates) (escaper : Escaper)
    (indent : String) : (p.render templates escaper indent false).run s =
      (((Emission.ofAll escaper p.instructions).run s).1.map (Emission.written indent),
        ((Emission.ofAll escaper p.instructions).run s).2) := by
  rw [run_render, ← run_run]
  exact run_run_eq_output h hcalls templates escaper indent false

end Mustache
