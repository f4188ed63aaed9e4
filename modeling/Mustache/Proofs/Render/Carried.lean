import Mustache.Engine
import Mustache.Proofs.Render.Emission

/-! # Renderings on a carried line

A rendering whose first line is carried puts out the same emissions as one that starts a line. The carried
line lasts until an emission is marked for an indent, which is then left out, or until a literal breaks the
line; from there on both go alike. So the two texts differ by one indent at most: that of the first marked
emission, and only if no literal has broken the line before it (`losesFirstIndent_output`).
-/
namespace Mustache

namespace Instruction

mutual

def isPlain : Instruction → Bool
  | literal _ _ | interpolate _ _ _ _ => true
  | callSection ⟨_, _, _, body⟩ _ _ _ => allPlain body
  | callInverted _ _ body => allPlain body
  | callPartial _ _ _ => false

def allPlain : List Instruction → Bool
  | [] => true
  | i :: is => isPlain i && allPlain is

end

mutual

def keysOne : Instruction → List String
  | literal _ _ | callPartial _ _ _ => []
  | interpolate lookup name _ _ => lookup.keys name
  | callSection ⟨_, _, _, body⟩ lookup name _ => lookup.keys name ++ keysIn body
  | callInverted lookup name body => lookup.keys name ++ keysIn body

def keysIn : List Instruction → List String
  | [] => []
  | i :: is => keysOne i ++ keysIn is

end

variable {keys : List String}

mutual

theorem asks_cons_of_isPlain : ∀ (i : Instruction) {is : List Instruction}, isPlain i = true →
    keysOne i ⊆ keys → Asks keys is → Asks keys (i :: is)
  | literal _ _, _, _, _, his => .literal his
  | interpolate _ _ _ _, _, _, hkeys, his => .interpolate (fun _ hkey => hkeys hkey) his
  | callSection ⟨_, _, _, body⟩ lookup name _, _, hplain, hkeys, his => by
    rw [isPlain] at hplain
    rw [keysOne, List.append_subset] at hkeys
    exact .callSection (fun _ hkey => hkeys.1 hkey) (asks_of_allPlain body hplain hkeys.2) his
  | callInverted lookup name body, _, hplain, hkeys, his => by
    rw [isPlain] at hplain
    rw [keysOne, List.append_subset] at hkeys
    exact .callInverted (fun _ hkey => hkeys.1 hkey) (asks_of_allPlain body hplain hkeys.2) his
  | callPartial _ _ _, _, hplain, _, _ => by
    rw [isPlain] at hplain
    cases hplain

theorem asks_of_allPlain : ∀ is : List Instruction, allPlain is = true → keysIn is ⊆ keys → Asks keys is
  | [], _, _ => .nil
  | i :: is, hplain, hkeys => by
    rw [allPlain, Bool.and_eq_true] at hplain
    rw [keysIn, List.append_subset] at hkeys
    exact asks_cons_of_isPlain i hplain.1 hkeys.1 (asks_of_allPlain is hplain.2 hkeys.2)

end

end Instruction

namespace Emission

def BreaksLine (e : Emission) : Prop :=
  e.value = false ∧ '\n' ∈ e.text.toList

instance (e : Emission) : Decidable e.BreaksLine :=
  inferInstanceAs (Decidable (_ ∧ _))

structure FirstMarked (es before : List Emission) (e : Emission) (after : List Emission) : Prop where
  eq_append : es = before ++ e :: after
  marked : e.indent = true
  unmarked : ∀ d ∈ before, d.indent = false

def MarksFirstLine (es : List Emission) : Prop :=
  ∃ before e after, FirstMarked es before e after ∧ ∀ d ∈ before, ¬ d.BreaksLine

/-- `shorter` is `text`, which emissions come to, without the indent of the first marked one. -/
def LosesFirstIndent (indent : String) (es : List Emission) (text shorter : String) : Prop :=
  ∃ before e after, FirstMarked es before e after ∧
    text = String.join (before.map (·.text)) ++ indent ++ (e.text ++ written indent after) ∧
    shorter = String.join (before.map (·.text)) ++ (e.text ++ written indent after)

variable {indent text shorter : String} {carried : Bool} {es before after : List Emission} {e : Emission}

theorem exists_firstMarked_or (es : List Emission) :
    (∃ before e after, FirstMarked es before e after) ∨ ∀ e ∈ es, e.indent = false := by
  cases hfind : es.find? (·.indent) with
  | none =>
    right
    simpa using hfind
  | some e =>
    left
    obtain ⟨hmarked, before, after, heq, hbefore⟩ := List.find?_eq_some_iff_append.mp hfind
    exact ⟨before, e, after, heq, hmarked, by simpa using hbefore⟩

theorem output_cons_of_unmarked (h : e.indent = false) : output indent carried (e :: es) =
    ⟨e.text ++ (output indent (carried && !decide e.BreaksLine) es).text,
      (output indent (carried && !decide e.BreaksLine) es).carried⟩ := by
  have hkeeps : (e.value || decide ('\n' ∉ e.text.toList)) = !decide e.BreaksLine := by
    cases hvalue : e.value <;> simp [BreaksLine, hvalue]
  rw [output, h, hkeeps]
  rfl

theorem text_output_of_unmarked (h : ∀ e ∈ es, e.indent = false) :
    (output indent carried es).text = String.join (es.map (·.text)) := by
  induction es generalizing carried with
  | nil => rfl
  | cons e es ih =>
    rw [output_cons_of_unmarked (h e List.mem_cons_self), List.map_cons, String.join_cons,
      ih fun d hd => h d (List.mem_cons_of_mem e hd)]

theorem carried_output_of_unmarked (h : ∀ e ∈ es, e.indent = false) :
    (output indent carried es).carried = true ↔ carried = true ∧ ∀ e ∈ es, ¬ e.BreaksLine := by
  induction es generalizing carried with
  | nil => simp [output]
  | cons e es ih =>
    rw [output_cons_of_unmarked (h e List.mem_cons_self), ih fun d hd => h d (List.mem_cons_of_mem e hd)]
    simp [and_assoc]

/-- Up to the first marked emission only texts are put out, and after it the line is carried no more. -/
theorem FirstMarked.text_output (h : FirstMarked es before e after) (carried : Bool) :
    (output indent carried es).text = String.join (before.map (·.text)) ++
      (if (output indent carried before).carried then "" else indent) ++ (e.text ++ written indent after) := by
  rw [h.eq_append, output_append, text_output_of_unmarked h.unmarked]
  simp only [output, h.marked, if_true, written, String.append_assoc]

theorem FirstMarked.text_written (h : FirstMarked es before e after) : written indent es =
    String.join (before.map (·.text)) ++ indent ++ (e.text ++ written indent after) := by
  have hcarried : ¬ (output indent false before).carried = true :=
    fun hc => Bool.false_ne_true ((carried_output_of_unmarked h.unmarked).mp hc).1
  rw [written, h.text_output, if_neg hcarried]

theorem losesFirstIndent_output (h : MarksFirstLine es) :
    LosesFirstIndent indent es (written indent es) (output indent true es).text := by
  obtain ⟨before, e, after, hfirst, hbreaks⟩ := h
  have hcarried : (output indent true before).carried = true :=
    (carried_output_of_unmarked hfirst.unmarked).mpr ⟨rfl, hbreaks⟩
  refine ⟨before, e, after, hfirst, hfirst.text_written, ?_⟩
  rw [hfirst.text_output, if_pos hcarried, String.append_empty]

theorem output_carried_of_not_marksFirstLine (h : ¬ MarksFirstLine es) :
    (output indent true es).text = written indent es := by
  rcases exists_firstMarked_or es with ⟨before, e, after, hfirst⟩ | hunmarked
  · have hcarried : ¬ (output indent true before).carried = true :=
      fun hc => h ⟨before, e, after, hfirst, ((carried_output_of_unmarked hfirst.unmarked).mp hc).2⟩
    rw [hfirst.text_output, if_neg hcarried, hfirst.text_written]
  · rw [written, text_output_of_unmarked hunmarked, text_output_of_unmarked hunmarked]

theorem LosesFirstIndent.ne (h : LosesFirstIndent indent es text shorter) (hne : indent ≠ "") :
    shorter ≠ text := by
  obtain ⟨before, e, after, -, rfl, rfl⟩ := h
  intro heq
  have hlength := congrArg String.length heq
  simp only [String.length_append] at hlength
  exact hne (String.length_eq_zero_iff.mp (by omega))

end Emission

open Emission in
/-- Without partials and calls, a rendering on a carried line succeeds where one that starts a line does,
with the same emissions and in the same state. Its text lacks the indent of the first marked emission if
that one comes before every line break of a literal, and is the same text otherwise. -/
theorem Program.run_carried {p : Program} {s t : RenderState} {text : String}
    (hplain : Instruction.allPlain p.instructions = true)
    (hcalls : s.CallFree (Instruction.keysIn p.instructions)) (templates : Templates) (escaper : Escaper)
    (indent : String) (hrun : (p.run templates escaper indent false).run s = (.ok text, t)) :
    ∃ es shorter, (Emission.ofAll escaper p.instructions).run s = (.ok es, t) ∧
      text = Emission.written indent es ∧
      (p.run templates escaper indent true).run s = (.ok shorter, t) ∧
      (MarksFirstLine es → LosesFirstIndent indent es text shorter) ∧
      (¬ MarksFirstLine es → shorter = text) ∧
      (indent ≠ "" → (shorter ≠ text ↔ MarksFirstLine es)) := by
  have hasks := Instruction.asks_of_allPlain p.instructions hplain (List.Subset.refl _)
  have houtput := run_run_eq_output hasks hcalls templates escaper indent
  rcases hes : (Emission.ofAll escaper p.instructions).run s with ⟨e | es, t'⟩
  · rw [houtput, hes] at hrun
    cases hrun
  · rw [houtput, hes] at hrun
    cases hrun
    have hloses : MarksFirstLine es → LosesFirstIndent indent es (written indent es)
        (output indent true es).text := losesFirstIndent_output
    have hsame : ¬ MarksFirstLine es → (output indent true es).text = written indent es :=
      output_carried_of_not_marksFirstLine
    refine ⟨es, (output indent true es).text, rfl, rfl, ?_, hloses, hsame, ?_⟩
    · rw [houtput, hes]
      rfl
    · intro hne
      exact ⟨fun hdiffer => not_not.mp fun hnot => hdiffer (hsame hnot), fun h => (hloses h).ne hne⟩

open Emission in
/-- The body of the section is run for each element of an iterator; only its first run lacks the indent. -/
theorem Program.run_carried_iterator : ∃ (e : Engine) (p : Program) (s : RenderState) (es : List Emission),
    Instruction.allPlain p.instructions = true ∧ s.CallFree (Instruction.keysIn p.instructions) ∧
    ((p.run e.templates e.escaper "> " false).run s).1 = .ok "> x> x\n> y" ∧
    ((p.run e.templates e.escaper "> " true).run s).1 = .ok "x> x\n> y" ∧
    ((Emission.ofAll e.escaper p.instructions).run s).1 = .ok es ∧
    LosesFirstIndent "> " es "> x> x\n> y" "x> x\n> y" := by
  let e : Engine := ⟨.standard, 100, false, .nowhere⟩
  let body : Routine Instruction := ⟨"x", "x", none, [.literal "x" true]⟩
  let p : Program := ⟨"p", [.callSection body .nearest "a" false, .literal "\n" false,
    .interpolate .nearest "b" true true]⟩
  let s : RenderState := ⟨⟨[.map [(.text "a", .iterator 0), (.text "b", .text "y")]], 0, 100, .standard⟩,
    { iterators := [[.int 1, .int 2]] }, []⟩
  have hcalls : s.CallFree (Instruction.keysIn p.instructions) := by
    refine RenderState.callFree_of_data (by decide) ?_ rfl _
    intro id v hv
    cases id with
    | zero =>
      revert v
      decide
    | succ id => cases hv
  have hrun : ((p.run e.templates e.escaper "> " false).run s).1 = .ok "> x> x\n> y" := by
    decide +kernel
  have hcarried : ((p.run e.templates e.escaper "> " true).run s).1 = .ok "x> x\n> y" := by
    decide +kernel
  rcases hfirst : (p.run e.templates e.escaper "> " false).run s with ⟨outcome, t⟩
  obtain rfl : outcome = .ok "> x> x\n> y" := (congrArg Prod.fst hfirst).symm.trans hrun
  obtain ⟨es, shorter, hes, -, hshorter, hloses, -, hdiffer⟩ :=
    Program.run_carried rfl hcalls e.templates e.escaper "> " hfirst
  obtain rfl : shorter = "x> x\n> y" :=
    Except.ok.inj ((congrArg Prod.fst hshorter).symm.trans hcarried)
  exact ⟨e, p, s, es, rfl, hcalls, hrun, hcarried, congrArg Prod.fst hes,
    hloses ((hdiffer (by decide)).mp (by decide))⟩

end Mustache
