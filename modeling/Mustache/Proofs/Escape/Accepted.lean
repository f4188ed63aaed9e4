import Mathlib.Control.Monad.Basic
import Mustache.Proofs.Compile.Source
import Mustache.Proofs.Escape.Safe
import Mustache.Proofs.Render.Tame
import Mustache.Proofs.Settings

/-! # Accepted charsets

Settings and escapers accept every name of a charset, and with them those of transformations that are no
encodings of texts, for which every escape fails. With an encoding of texts no escape fails, so renderings
do not fail for their charset either.
-/
namespace Mustache

namespace Escaper

variable {e : Escaper}

theorem escape_of_not_isTextEncoding (h : e.charset.isTextEncoding = false) (text : String) :
    e.escape text = .error (.notTextEncoding e.charset.name) := by
  rw [escape, h]
  rfl

theorem escapes_all_iff :
    (∀ text, ∃ escaped, e.escape text = .ok escaped) ↔ e.charset.isTextEncoding = true := by
  constructor
  · intro h
    obtain ⟨escaped, hescaped⟩ := h ""
    cases hc : e.charset.isTextEncoding with
    | true => rfl
    | false =>
      rw [escape_of_not_isTextEncoding hc] at hescaped
      cases hescaped
  · exact fun h text => ⟨_, escape_of_isTextEncoding h text⟩

end Escaper

def RenderError.isOfTemplate : RenderError → Bool
  | malformed _ | uncompilable _ | notFound _ _ | unreadable _ => true
  | tooDeep _ | unescapable _ | callFailed _ | setResized => false

theorem isOfTemplate_of_compileText {source : String} {label : Option String} {e : RenderError}
    (h : (compileText source label).2 = .error e) : e.isOfTemplate = true := by
  cases hparse : parse source with
  | error e' =>
    simp only [compileText, hparse] at h
    cases h
    rfl
  | ok tree =>
    simp only [compileText, hparse] at h
    split at h
    · cases h
      rfl
    · cases h

theorem TemplateSource.isOfTemplate_of_text {source : TemplateSource} {name : String} {e : RenderError}
    (h : source.text name = .error e) : e.isOfTemplate = true := by
  cases source with
  | nowhere =>
    cases h
    rfl
  | table texts =>
    rw [text] at h
    split at h
    · cases h
    · cases h
      rfl
  | directory files base extension =>
    simp only [text] at h
    split at h
    all_goals cases h
    all_goals rfl

namespace Engine

variable (e : Engine)

theorem isOfTemplate_of_partialText {name : String} {events : List Event} {error : RenderError}
    (h : e.partialText name = (events, .error error)) : error.isOfTemplate = true := by
  unfold partialText at h
  split at h
  · cases h
  · split at h
    · cases h
      rfl
    · cases h
  · rename_i htext
    cases h
    exact TemplateSource.isOfTemplate_of_text htext

theorem failOnly_templates {Q : RenderError → Prop} (hQ : ∀ e, e.isOfTemplate = true → Q e) :
    e.templates.FailOnly Q where
  partialNamed name error h := by
    apply hQ
    change (e.loadPartial name).2 = .error error at h
    unfold loadPartial at h
    split at h
    · rename_i htext
      cases h
      exact isOfTemplate_of_partialText e htext
    · exact isOfTemplate_of_compileText h
  lambdaText text delimiters error h := hQ error (isOfTemplate_of_compileText h)

section Accepted

variable {e : Engine} (hcharset : e.escaper.charset.isTextEncoding = true) (p : Program) (indent : String)
  (escape : Bool)
include hcharset

theorem failsOnly_render {P : RenderState → Prop} {V : Value → Prop} {Q : RenderError → Prop}
    (hP : Confines P V Q) (hQ : ∀ error, error.isOfTemplate = true → Q error) :
    RenderM.FailsOnly P Q (e.render p indent escape) := by
  refine Program.failsOnly_render hP (e.failOnly_templates hQ) (fun text error h => ?_) p indent escape
  rw [Escaper.escape_of_isTextEncoding hcharset] at h
  cases h

theorem render_ne_unescapable (s : RenderState) (reason : EscapeError) :
    ((e.render p indent escape).run s).1 ≠ .error (.unescapable reason) := by
  have hany : Confines (fun _ => True) (fun _ => True) fun error => error ≠ .unescapable reason :=
    confines_any nofun nofun nofun
  have htemplate : ∀ error : RenderError, error.isOfTemplate = true → error ≠ .unescapable reason := by
    rintro _ h rfl
    cases h
  intro h
  exact (failsOnly_render hcharset p indent escape hany htemplate s trivial).2 _ h rfl

theorem isLookup_of_render {s : RenderState} (hs : s.Tame) {error : RenderError}
    (h : ((e.render p indent escape).run s).1 = .error error) : error.isLookup = false := by
  have htemplate : ∀ error : RenderError, error.isOfTemplate = true → error.isLookup = false := by
    intro error h
    cases error with
    | unescapable _ | callFailed _ => cases h
    | _ => rfl
  have hrender := failsOnly_render hcharset p indent escape hs.confines htemplate
  exact (hrender s ⟨[], s.within_self []⟩).2 error h

end Accepted

theorem render_variable_unescapable {e : Engine} (h : e.escaper.charset.isTextEncoding = false) :
    ∃ events p, compileText "{{a}}" (some "t") = (events, .ok p) ∧
      ((e.render p "" false).run ⟨e.newContext (.map []), {}, []⟩).1 =
        .error (.unescapable (.notTextEncoding e.escaper.charset.name)) := by
  have hscan : scan "{{a}}" = .ok [⟨.escaped, "a", 1, 0, 5, .standard, ""⟩] := by
    decide +kernel
  have hparse : parse "{{a}}" = .ok [.interpolation "a" true] := by
    rw [parse, hscan]
    rfl
  obtain ⟨name, hname⟩ := exists_compileText hparse (some "t")
  refine ⟨_, ⟨name, [.interpolate .nearest "a" true true]⟩, hname _ _ rfl, ?_⟩
  obtain ⟨sur, hescaper, -, hrun⟩ :=
    Program.exists_run_render ⟨name, [.interpolate .nearest "a" true true]⟩ e.templates e.escaper ""
      ⟨e.newContext (.map []), {}, []⟩
  rw [render, hrun]
  apply RenderM.run_bind_error
  rw [Surroundings.runAll]
  apply RenderM.run_bind_error
  have hescape := Escaper.escape_of_not_isTextEncoding h ""
  rw [← hescaper] at hescape ⊢
  -- the variable has no value, so the empty text is escaped
  change ((RenderM.lift .unescapable (sur.escaper.escape "") >>= fun text =>
    pure (sur.lead true false text)).run _).1 = _
  rw [hescape]
  rfl

theorem exists_ofSettings {settings : Settings} {charset : Charset}
    (h : Charset.find? settings.charset = some charset) (files : Files) (partials : Option TemplateSource) :
    ∃ e, ofSettings settings files partials = .ok e ∧ e.escaper.charset = charset := by
  have hescaper : Escaper.ofName settings.charset settings.escapeSingleQuotes =
      .ok ⟨charset, settings.escapeSingleQuotes⟩ := by
    rw [Escaper.ofName, h]
  unfold ofSettings
  rw [hescaper]
  exact ⟨_, rfl, rfl⟩

/-- Settings that are read name a charset, and their engine has it. Exactly if it is an encoding of texts
every text can be escaped, and exactly then a program rendered where no call fails with an error of a
look-up ends with none either. Nor is the charset then ever a reason for a rendering to fail, whatever is
called. -/
theorem accepted_charset_exact {base : Option Path} {entries : Settings.Entries} {settings : Settings}
    (h : Settings.ofEntries base entries = .ok settings) (files : Files) (partials : Option TemplateSource) :
    ∃ charset engine, Charset.find? settings.charset = some charset ∧
      ofSettings settings files partials = .ok engine ∧
      (charset.isTextEncoding = true ↔ ∀ text, ∃ escaped, engine.escaper.escape text = .ok escaped) ∧
      (charset.isTextEncoding = true ↔ ∀ source label events p, compileText source label = (events, .ok p) →
        ∀ indent escape, ∀ s : RenderState, s.Tame →
          ∀ e, ((engine.render p indent escape).run s).1 = .error e → e.isLookup = false) ∧
      (charset.isTextEncoding = true → ∀ p indent escape s reason,
        ((engine.render p indent escape).run s).1 ≠ .error (.unescapable reason)) := by
  obtain ⟨charset, hcharset⟩ := Option.isSome_iff_exists.mp (Settings.ofEntries_eq_ok_iff.mp h).known
  obtain ⟨engine, hengine, rfl⟩ := exists_ofSettings hcharset files partials
  refine ⟨_, engine, hcharset, hengine, Escaper.escapes_all_iff.symm, ⟨?_, fun hrender => ?_⟩, ?_⟩
  · exact fun htext _ _ _ p _ indent escape s hs e => isLookup_of_render htext p indent escape hs
  · by_contra htext
    obtain ⟨events, p, hp, herror⟩ := render_variable_unescapable (Bool.not_eq_true _ ▸ htext)
    have hdata : ∀ v ∈ (engine.newContext (.map [])).scopes, v.isData = true := by
      intro v hv
      rw [List.mem_singleton.mp hv]
      rfl
    have htame : RenderState.Tame ⟨engine.newContext (.map []), {}, []⟩ :=
      RenderState.tame_of_callFree (RenderState.callFree_of_data hdata nofun rfl)
    have hlookup := hrender _ _ _ p hp "" false _ htame _ herror
    cases hlookup
  · exact fun htext p indent escape => render_ne_unescapable htext p indent escape

theorem accepted_charset_exact_latin : ∃ settings,
    Settings.ofEntries none [(.text "charset", .text "Latin-1"), (.text "max_depth", .int 3)] = .ok settings ∧
    ∀ files, ∃ engine, ofSettings settings files none = .ok engine ∧
      (∀ text, ∃ escaped, engine.escaper.escape text = .ok escaped) ∧
      ∀ source label events p, compileText source label = (events, .ok p) →
        ∀ e, ((engine.render p "> " true).run ⟨engine.newContext (.map [(.text "d", .moment ⟨2024, 2, 29, none⟩),
          (.text "f", .lambda fun _ => .ok "{{d.isoformat}}")]), {}, []⟩).1 = .error e →
            e.isLookup = false := by
  have hread : Settings.ofEntries none [(.text "charset", .text "Latin-1"), (.text "max_depth", .int 3)] =
      .ok ⟨"Latin-1", true, 3, false, none, ".mustache"⟩ := by
    decide +kernel
  refine ⟨_, hread, fun files => ?_⟩
  obtain ⟨charset, engine, hcharset, hengine, hescape, hrender, -⟩ := accepted_charset_exact hread files none
  have htext : charset.isTextEncoding = true := by
    have hlatin : Charset.find? "Latin-1" = some .latin1 := by decide +kernel
    rw [hlatin] at hcharset
    cases hcharset
    rfl
  refine ⟨engine, hengine, hescape.mp htext, fun source label events p hp => ?_⟩
  refine hrender.mp htext source label events p hp "> " true _ (RenderState.tame_of_calm ?_ nofun rfl)
  intro v hv
  rw [List.mem_singleton.mp hv]
  refine .map fun entry hentry => ?_
  simp only [List.mem_cons, List.not_mem_nil, or_false] at hentry
  rcases hentry with rfl | rfl
  · exact .moment _
  · exact .lambda nofun

/-- The name of a transformation is accepted, and the first variable that is escaped fails. -/
theorem accepted_charset_not_text : ∃ settings,
    Settings.ofEntries none [(.text "charset", .text "hex")] = .ok settings ∧
    ∀ files, ∃ engine events p, ofSettings settings files none = .ok engine ∧
      compileText "{{a}}" (some "t") = (events, .ok p) ∧
      ((engine.render p "" false).run ⟨engine.newContext (.map []), {}, []⟩).1 =
        .error (.unescapable (.notTextEncoding "hex")) := by
  have hread : Settings.ofEntries none [(.text "charset", .text "hex")] =
      .ok ⟨"hex", true, 100, false, none, ".mustache"⟩ := by
    decide +kernel
  have hhex : Charset.find? "hex" = some (.transform "hex") := by decide +kernel
  refine ⟨_, hread, fun files => ?_⟩
  obtain ⟨engine, hengine, hcharset⟩ :=
    @exists_ofSettings ⟨"hex", true, 100, false, none, ".mustache"⟩ _ hhex files none
  have htext : engine.escaper.charset.isTextEncoding = false := by
    rw [hcharset]
    rfl
  obtain ⟨events, p, hp, herror⟩ := render_variable_unescapable htext
  rw [hcharset] at herror
  exact ⟨engine, events, p, hengine, hp, herror⟩

end Engine

end Mustache
