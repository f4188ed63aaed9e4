import Mathlib.Control.Monad.Basic
import Mustache.Proofs.File.Path
import Mustache.Proofs.Render.Outcome
import Mustache.Settings

/-! # Settings and their entries

Entries are settings if every key is known, each value is of its kind, the charset is known and the limit
admits a template. Written settings are such entries: what was read once is read again as it is, since a
directory that was read is in normal form.
-/
namespace Mustache.Settings

/-- What settings have to do with entries that they are read from. -/
structure ReadFrom (base : Option Path) (entries : Entries) (s : Settings) : Prop where
  keys : checkKeys entries = .ok ()
  charset : read entries "charset" "str" text? "utf-8" = .ok s.charset
  known : (Charset.find? s.charset).isSome = true
  escapeSingleQuotes :
    read entries "escape_single_quotes" "bool" bool? true = .ok s.escapeSingleQuotes
  maxDepth : read entries "max_depth" "int" int? Context.standardLimit = .ok s.maxDepth
  admits : 1 ≤ s.maxDepth
  strictPartials : read entries "strict_partials" "bool" bool? false = .ok s.strictPartials
  partialsDir : read entries "partials_dir" "str" (directory? base) none = .ok s.partialsDir
  partialsExtension :
    read entries "partials_extension" "str" text? ".mustache" = .ok s.partialsExtension

variable {base : Option Path} {entries : Entries} {s : Settings}

theorem ofEntries_eq_ok_iff : ofEntries base entries = .ok s ↔ ReadFrom base entries s := by
  constructor
  · intro h
    simp only [ofEntries, bind_eq_ok_iff] at h
    obtain ⟨_, hkeys, charset, hcharset, h⟩ := h
    split at h
    · cases h
    · rename_i hknown
      simp only [bind_eq_ok_iff] at h
      obtain ⟨escapeSingleQuotes, hquotes, maxDepth, hdepth, h⟩ := h
      split at h
      · cases h
      · rename_i hadmits
        simp only [bind_eq_ok_iff] at h
        obtain ⟨strict, hstrict, directory, hdirectory, extension, hextension, h⟩ := h
        cases h
        exact ⟨hkeys, hcharset, by simpa [Option.isSome_iff_ne_none] using hknown, hquotes, hdepth,
          by simpa using hadmits, hstrict, hdirectory, hextension⟩
  · intro h
    have hknown : ¬ (Charset.find? s.charset).isNone = true := by
      simpa [Option.isSome_iff_ne_none] using h.known
    have hadmits : ¬ s.maxDepth < 1 := by simpa using h.admits
    simp only [ofEntries, bind_eq_ok_iff]
    refine ⟨(), h.keys, s.charset, h.charset, ?_⟩
    rw [if_neg hknown]
    simp only [bind_eq_ok_iff]
    refine ⟨s.escapeSingleQuotes, h.escapeSingleQuotes, s.maxDepth, h.maxDepth, ?_⟩
    rw [if_neg hadmits]
    simp only [bind_eq_ok_iff]
    exact ⟨s.strictPartials, h.strictPartials, s.partialsDir, h.partialsDir, s.partialsExtension,
      h.partialsExtension, rfl⟩

theorem isNormal_of_directory? {base : Option String} {v : Value} {path : Path}
    (h : directory? (base.map Path.ofString) v = some (some path)) : path.IsNormal := by
  cases v with
  | text t =>
    cases base with
    | none =>
      cases h
      exact Path.isNormal_ofString t
    | some b =>
      cases h
      exact (Path.isNormal_ofString b).join (Path.isNormal_ofString t)
  | null => cases h
  | _ => cases h

theorem ReadFrom.isNormal {base : Option String} (h : ReadFrom (base.map Path.ofString) entries s) {path : Path}
    (hpath : s.partialsDir = some path) : path.IsNormal := by
  have hread := h.partialsDir
  rw [hpath, read] at hread
  split at hread
  · cases hread
  · rename_i v _
    split at hread
    · rename_i directory hdirectory
      cases hread
      exact isNormal_of_directory? hdirectory
    · cases hread

theorem read_partialsDir_toEntries (hnormal : ∀ path, s.partialsDir = some path → path.IsNormal) :
    read s.toEntries "partials_dir" "str" (directory? none) none = .ok s.partialsDir := by
  cases hdir : s.partialsDir with
  | none =>
    have hentry : Value.entry? s.toEntries "partials_dir" = some .null := by
      simp [Value.entry?, toEntries, hdir]
    rw [read, hentry]
    rfl
  | some path =>
    have hentry : Value.entry? s.toEntries "partials_dir" = some (.text path.toString) := by
      simp [Value.entry?, toEntries, hdir]
    simp only [read, hentry, directory?, Path.ofString_toString (hnormal path hdir)]

theorem checkKeys_toEntries (s : Settings) : checkKeys s.toEntries = .ok () := by
  have hknown : (s.toEntries.map Prod.fst).filter isUnknown = [] := rfl
  simp [checkKeys, hknown]

theorem ReadFrom.toEntries {base : Option String} (h : ReadFrom (base.map Path.ofString) entries s) :
    ReadFrom none s.toEntries s where
  keys := checkKeys_toEntries s
  charset := rfl
  known := h.known
  escapeSingleQuotes := rfl
  maxDepth := rfl
  admits := h.admits
  strictPartials := rfl
  partialsDir := read_partialsDir_toEntries fun _ hpath => h.isNormal hpath
  partialsExtension := rfl

/-- Settings that have been read, seen from some directory or from none, are written as entries that are
read again, seen from none, as the same settings. -/
theorem ofEntries_toEntries {base : Option String} {entries : Entries} {s : Settings}
    (h : ofEntries (base.map Path.ofString) entries = .ok s) : ofEntries none s.toEntries = .ok s :=
  ofEntries_eq_ok_iff.mpr (ofEntries_eq_ok_iff.mp h).toEntries

theorem ofEntries_toEntries_joined : ∃ s,
    ofEntries (some (Path.ofString "//srv//conf/."))
      [(.text "partials_dir", .text "../p//./q/"), (.text "max_depth", .int 7)] = .ok s ∧
    s.partialsDir.map Path.toString = some "//srv/conf/../p/q" ∧ ofEntries none s.toEntries = .ok s := by
  have hread : ofEntries ((some "//srv//conf/.").map Path.ofString)
      [(.text "partials_dir", .text "../p//./q/"), (.text "max_depth", .int 7)] =
      .ok ⟨"utf-8", true, 7, false, some ⟨"//", ["srv", "conf", "..", "p", "q"]⟩, ".mustache"⟩ := by
    decide +kernel
  exact ⟨_, hread, by decide, ofEntries_toEntries hread⟩

end Mustache.Settings
