import Mustache.Proofs.Escape.Safe
import Mustache.Proofs.Render.Layout
import Mustache.Proofs.Render.Steady

/-! # Partials that leave the line as it is taken to be

After a partial a rendering takes the line to be where it was before. That is right if the partial's text
ends there: at the start of a line if it started there, and on the line if it started on it. `followWithin`
follows the situations through parts and the partials in them, as far as they are known, and fails where
something would be put out on a line that may not be what it is taken to be.
-/
namespace Mustache

namespace Situation

def line : Situation → LineState
  | fresh => .pending
  | carried | taken => .consumed

/-- The situation after a partial, from that at the end of its text; nothing if the line may not be what it
is taken to be. -/
def resumed : Situation → Option Situation → Option Situation
  | fresh, some fresh => some fresh
  | carried, some carried => some carried
  | carried, some fresh => some fresh
  | taken, some carried => some taken
  | taken, some taken => some taken
  | _, _ => none

end Situation

def Fragment.isUnbroken : Fragment → Bool
  | text t => '\n' ∉ t.toList
  | value _ _ => true

/-- The situation after a part, as far as it is known; nothing at all if an indent may be in a wrong place. -/
def Part.follow (nested : String → Situation → Option (Option Situation)) (known : Option Situation) :
    Part → Option (Option Situation)
  | newline => some (some .fresh)
  | fragment f => if known.isSome ∧ f.isUnbroken then some (some .taken) else none
  | insertion blanks name => known.bind fun a =>
    if '\n' ∈ blanks.toList then none else (nested name a.nested).map a.resumed

def followAll (nested : String → Situation → Option (Option Situation)) :
    Option Situation → List Part → Option (Option Situation)
  | known, [] => some known
  | known, q :: qs => (q.follow nested known).bind fun next => followAll nested next qs

def followWithin (docs : String → Except RenderError (List Part)) :
    Nat → Option Situation → List Part → Option (Option Situation)
  | 0 => followAll fun _ _ => none
  | levels + 1 => followAll fun name a => (docs name).toOption.bind (followWithin docs levels (some a))

/-- Parts are rendered from the start of a line with every line taken for what it is. -/
def KeepsLines (docs : String → Except RenderError (List Part)) (qs : List Part) : Prop :=
  ∃ levels, (followWithin docs levels (some .fresh) qs).isSome = true

namespace Escaper

theorem newline_notMem_escape {e : Escaper} {text escaped : String} (h : e.escape text = .ok escaped)
    (htext : '\n' ∉ text.toList) : '\n' ∉ escaped.toList := by
  cases hcharset : e.charset.isTextEncoding with
  | false =>
    rw [escape, hcharset] at h
    cases h
  | true =>
    rw [escape_of_isTextEncoding hcharset] at h
    cases h
    rw [String.toList_ofList, List.mem_flatMap]
    rintro ⟨c, hc, hmem⟩
    rcases e.escapeChar_cases c with ⟨hstay, -, -⟩ | ⟨⟨name, hname, hchars⟩, -⟩
    · rw [hstay, List.mem_singleton] at hmem
      exact htext (hmem ▸ hc)
    · rw [hname, List.mem_cons] at hmem
      rcases hmem with hamp | hmem
      · exact absurd hamp (by decide)
      · exact absurd (hchars _ hmem) (by decide)

end Escaper

theorem Fragment.newline_notMem_of_expand {escaper : Escaper} {s : RenderState} {name text : String}
    {escape : Bool} (hvalue : '\n' ∉ (s.valueOf name).rendered.toList)
    (h : (Fragment.value name escape).expand escaper s = .ok text) : '\n' ∉ text.toList := by
  cases escape with
  | false =>
    cases h
    exact hvalue
  | true =>
    rw [Fragment.expand, if_pos rfl] at h
    cases hescape : escaper.escape (s.valueOf name).rendered with
    | error error =>
      rw [hescape] at h
      cases h
    | ok escaped =>
      rw [hescape] at h
      cases h
      exact Escaper.newline_notMem_escape hescape hvalue

def Situation.Fits (known : Option Situation) (a : Situation) (l : LineState) : Prop :=
  ∀ k, known = some k → a = k ∧ l = k.line

theorem Situation.Fits.refl (a : Situation) : Fits (some a) a a.line := by
  rintro k ⟨⟩
  exact ⟨rfl, rfl⟩

section Sound
open Situation

variable {escaper : Escaper} {s : RenderState} {a b : Situation} {xs : List (Option Char)}
  {l l' : LineState} {known known' : Option Situation}
  {insert : String → Situation → Except RenderError (List (Option Char) × Situation)}
  {nested : String → Situation → Option (Option Situation)}

theorem foldlM_step_behind {blanks : List Char} (hblanks : '\n' ∉ blanks)
    (h : xs.foldlM LineState.step l = some l') :
    (xs.flatMap (Text.behind blanks)).foldlM LineState.step l = some l' := by
  induction xs generalizing l with
  | nil => exact h
  | cons x xs ih =>
    rw [List.foldlM_cons, Option.bind_eq_bind, Option.bind_eq_some_iff] at h
    obtain ⟨m, hm, h⟩ := h
    rw [List.flatMap_cons, List.foldlM_append]
    cases x with
    | some c =>
      have hfirst : (Text.behind blanks (some c)).foldlM LineState.step l = some m := by
        simp [Text.behind, hm]
      rw [hfirst]
      exact ih h
    | none =>
      cases l with
      | consumed => cases hm
      | pending =>
        cases hm
        have hfirst : (Text.behind blanks none).foldlM LineState.step .pending = some .consumed :=
          Emission.foldlM_step_of_unbroken hblanks
        rw [hfirst]
        exact ih h

theorem Situation.Passes.fits_resumed (h : a.nested.Passes xs b) (hfits : Fits known b l) :
    Fits (a.resumed known) (a.resume xs) l := by
  intro k hk
  cases known with
  | none => cases a <;> cases hk
  | some c =>
    obtain ⟨rfl, rfl⟩ := hfits c rfl
    cases a with
    | fresh =>
      cases b <;> cases hk
      exact ⟨rfl, rfl⟩
    | taken => cases b <;> cases hk <;> exact ⟨rfl, rfl⟩
    | carried =>
      cases b with
      | taken => cases hk
      | carried =>
        cases hk
        rw [(h.of_carried rfl).2]
        exact ⟨rfl, rfl⟩
      | fresh =>
        cases hk
        have hne := (h.of_fresh rfl).resolve_left nofun
        exact ⟨if_pos ⟨rfl, hne⟩, rfl⟩

def Situation.LeadsTo (xs : List (Option Char)) (b : Situation) (l : LineState)
    (known : Option Situation) : Prop :=
  ∃ l', xs.foldlM LineState.step l = some l' ∧ Fits known b l'

theorem Part.leadsTo {q : Part}
    (hinsert : ∀ name c ys d, insert name c = .ok (ys, d) → c.Passes ys d)
    (hnested : ∀ blanks name, q = .insertion blanks name → ∀ c after, nested name c = some after →
      ∀ ys d, insert name c = .ok (ys, d) → LeadsTo ys d c.line after)
    (hvalue : ∀ name escape text, q = .fragment (.value name escape) →
      (Fragment.value name escape).expand escaper s = .ok text → '\n' ∉ text.toList)
    (hfollow : q.follow nested known = some known') (hlayout : q.layout escaper s insert a = .ok (xs, b))
    (hfits : Fits known a l) : LeadsTo xs b l known' := by
  cases q with
  | newline =>
    cases hfollow
    cases hlayout
    exact ⟨.pending, by simp [LineState.step], .refl .fresh⟩
  | fragment f =>
    obtain ⟨text, htext, hlayout⟩ := bind_eq_ok_iff.mp hlayout
    cases hlayout
    rw [Part.follow] at hfollow
    split at hfollow
    · rename_i hboth
      cases hfollow
      obtain ⟨k, rfl⟩ := Option.isSome_iff_exists.mp hboth.1
      obtain ⟨rfl, rfl⟩ := hfits k rfl
      have hunbroken : '\n' ∉ text.toList := by
        cases f with
        | text t =>
          cases htext
          simpa [Fragment.isUnbroken] using hboth.2
        | value name escape => exact hvalue name escape text rfl htext
      have hconsumed := Emission.foldlM_step_of_unbroken hunbroken
      refine ⟨.consumed, ?_, .refl .taken⟩
      cases a with
      | fresh => simpa [lead, line, LineState.step] using hconsumed
      | carried => exact hconsumed
      | taken => exact hconsumed
    · cases hfollow
  | insertion blanks name =>
    obtain ⟨⟨ys, d⟩, hinner, hlayout⟩ := bind_eq_ok_iff.mp hlayout
    cases hlayout
    obtain ⟨k, rfl, hnext⟩ := Option.bind_eq_some_iff.mp hfollow
    obtain ⟨rfl, rfl⟩ := hfits k rfl
    clear hfollow
    split at hnext
    · cases hnext
    · rename_i hblanks
      obtain ⟨after, hafter, rfl⟩ := Option.map_eq_some_iff.mp hnext
      obtain ⟨l', hl', hfits'⟩ := hnested blanks name rfl a.nested after hafter ys d hinner
      have hline : a.nested.line = a.line := by cases a <;> rfl
      rw [hline] at hl'
      exact ⟨l', foldlM_step_behind hblanks hl', (hinsert name a.nested ys d hinner).fits_resumed hfits'⟩

theorem leadsTo_of_followAll {qs : List Part}
    (hinsert : ∀ name c ys d, insert name c = .ok (ys, d) → c.Passes ys d)
    (hnested : ∀ blanks name, .insertion blanks name ∈ qs → ∀ c after, nested name c = some after →
      ∀ ys d, insert name c = .ok (ys, d) → LeadsTo ys d c.line after)
    (hvalue : ∀ name escape text, .fragment (.value name escape) ∈ qs →
      (Fragment.value name escape).expand escaper s = .ok text → '\n' ∉ text.toList)
    (hfollow : followAll nested known qs = some known') (hlayout : layoutAll escaper s insert a qs = .ok (xs, b))
    (hfits : Fits known a l) : LeadsTo xs b l known' := by
  induction qs generalizing known a xs l with
  | nil =>
    cases hfollow
    cases hlayout
    exact ⟨l, rfl, hfits⟩
  | cons q qs ih =>
    obtain ⟨next, hnext, hfollow⟩ := Option.bind_eq_some_iff.mp hfollow
    obtain ⟨⟨ys, c⟩, hfirst, hlayout⟩ := bind_eq_ok_iff.mp hlayout
    obtain ⟨⟨zs, d⟩, hrest, hlayout⟩ := bind_eq_ok_iff.mp hlayout
    cases hlayout
    obtain ⟨m, hm, hfits'⟩ := Part.leadsTo hinsert
      (fun blanks name hq => hnested blanks name (hq ▸ List.mem_cons_self))
      (fun name escape text hq => hvalue name escape text (hq ▸ List.mem_cons_self)) hnext hfirst hfits
    obtain ⟨r, hr, hfits''⟩ := ih
      (fun blanks name hmem => hnested blanks name (List.mem_cons_of_mem q hmem))
      (fun name escape text hmem => hvalue name escape text (List.mem_cons_of_mem q hmem))
      hfollow hrest hfits'
    exact ⟨r, by rw [List.foldlM_append, hm]; exact hr, hfits''⟩

/-- The places of the layout of parts that have been followed to their end are where lines start. By
induction on the levels followed, for any number of levels put in. -/
theorem leadsTo_of_followWithin {docs : String → Except RenderError (List Part)} {known₀ : List Part → Prop}
    (hdocs : ∀ qs, known₀ qs → ∀ blanks name inner, .insertion blanks name ∈ qs →
      docs name = .ok inner → known₀ inner)
    (hvalue : ∀ qs, known₀ qs → ∀ name escape text, .fragment (.value name escape) ∈ qs →
      (Fragment.value name escape).expand escaper s = .ok text → '\n' ∉ text.toList)
    {followed levels : Nat} {qs : List Part} (hqs : known₀ qs)
    (hfollow : followWithin docs followed known qs = some known')
    (hlayout : layoutWithin escaper s docs levels a qs = .ok (xs, b)) (hfits : Fits known a l) :
    LeadsTo xs b l known' := by
  induction followed generalizing levels known known' a b l xs qs with
  | zero =>
    obtain ⟨insert, heq, hinsert, -⟩ := exists_insert_layoutWithin escaper s docs levels
    rw [heq] at hlayout
    refine leadsTo_of_followAll hinsert ?_ (hvalue qs hqs) hfollow hlayout hfits
    intro blanks name _ c after hafter
    cases hafter
  | succ followed ih =>
    obtain ⟨insert, heq, hinsert, hinside⟩ := exists_insert_layoutWithin escaper s docs levels
    rw [heq] at hlayout
    refine leadsTo_of_followAll hinsert ?_ (hvalue qs hqs) hfollow hlayout hfits
    intro blanks name hmem c after hafter ys d hinner
    obtain ⟨fewer, inner, hdoc, hinner⟩ := hinside name c ys d hinner
    rw [hdoc] at hafter
    exact ih (hdocs qs hqs blanks name inner hmem hdoc) hafter hinner (Fits.refl c)

theorem KeepsLines.isSome_layout {docs : String → Except RenderError (List Part)} {known₀ : List Part → Prop}
    {qs : List Part} {levels : Nat} (h : KeepsLines docs qs)
    (hdocs : ∀ qs, known₀ qs → ∀ blanks name inner, .insertion blanks name ∈ qs →
      docs name = .ok inner → known₀ inner)
    (hvalue : ∀ qs, known₀ qs → ∀ name escape text, .fragment (.value name escape) ∈ qs →
      (Fragment.value name escape).expand escaper s = .ok text → '\n' ∉ text.toList)
    (hqs : known₀ qs) (hlayout : layoutWithin escaper s docs levels .fresh qs = .ok (xs, b)) :
    (xs.foldlM LineState.step .pending).isSome = true := by
  obtain ⟨followed, hfollowed⟩ := h
  obtain ⟨after, hfollow⟩ := Option.isSome_iff_exists.mp hfollowed
  obtain ⟨l, hl, -⟩ := leadsTo_of_followWithin hdocs hvalue hqs hfollow hlayout (Fits.refl .fresh)
  exact Option.isSome_iff_exists.mpr ⟨l, hl⟩

end Sound

end Mustache
