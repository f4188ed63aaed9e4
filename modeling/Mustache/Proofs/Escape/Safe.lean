import Mathlib.Data.List.Basic
import Mustache.Escape

/-! # What escaping leaves

Escaping works in two passes: reserved characters become named references, then what the charset does
not represent becomes a reference to its code point. All references are written in characters that every
charset represents, and in none of the reserved ones but the ampersand they start with. So the second
pass leaves the references of the first one alone, and every ampersand of the result starts a reference.
-/
namespace Mustache

def isReferenceChar (c : Char) : Bool :=
  c.isAlphanum || c = '#' || c = ';'

def IsReferenceText (r : List Char) : Prop :=
  ∃ name, r = '&' :: name ∧ ∀ c ∈ name, isReferenceChar c = true

theorem toNat_lt_of_isReferenceChar {c : Char} (h : isReferenceChar c = true) : c.toNat < 0x80 := by
  rw [isReferenceChar] at h
  delta Char.isAlphanum Char.isAlpha Char.isUpper Char.isLower Char.isDigit at h
  simp only [Bool.or_eq_true, Bool.and_eq_true, decide_eq_true_eq, UInt32.le_iff_toNat_le,
    ge_iff_le] at h
  have hval : c.toNat = c.val.toNat := rfl
  have hupper : 'Z'.val.toNat = 90 := rfl
  have hlower : 'z'.val.toNat = 122 := rfl
  have hdigit : '9'.val.toNat = 57 := rfl
  rcases h with (h | rfl) | rfl
  · omega
  · decide
  · decide

namespace Charset

theorem represents_of_lt {charset : Charset} (htext : charset.isTextEncoding = true) {c : Char}
    (hc : c.toNat < 0x80) : charset.represents c = true := by
  have hwide : c.toNat < 0x100 := by omega
  cases charset with
  | ascii => simp [represents, hc]
  | latin1 => simp [represents, hwide]
  | latin9 =>
    have hkept : c.toNat ∉ latin9Missing := by
      simp only [latin9Missing, List.mem_cons, List.not_mem_nil, or_false]
      omega
    simp [represents, hwide, hkept]
  | windows1252 => simp [represents, hc]
  | unicode _ => rfl
  | transform _ => cases htext

theorem flatMap_encodable_of_isReferenceText {charset : Charset}
    (htext : charset.isTextEncoding = true) {r : List Char} (hr : IsReferenceText r) :
    r.flatMap charset.encodable = r := by
  obtain ⟨name, rfl, hname⟩ := hr
  have hsame : ∀ c ∈ '&' :: name, charset.encodable c = [c] := by
    intro c hc
    have hlow : c.toNat < 0x80 := by
      rcases List.mem_cons.mp hc with rfl | hc
      · decide
      · exact toNat_lt_of_isReferenceChar (hname c hc)
    rw [encodable, if_pos (represents_of_lt htext hlow)]
  rw [List.flatMap_congr hsame, List.flatMap_singleton']

/-- The references that escaping for the charset can put out: to the reserved characters, and by the code
point to those that the charset does not represent. -/
def IsReference (charset : Charset) (r : String) : Prop :=
  r ∈ ["&amp;", "&lt;", "&gt;", "&quot;", "&#039;"] ∨
    ∃ c : Char, charset.represents c = false ∧ r = "&#" ++ toString c.toNat ++ ";"

end Charset

namespace Escaper

variable {e : Escaper} {c : Char}

def escapeChar (e : Escaper) (c : Char) : List Char :=
  match e.entity? c with
  | some entity => entity.toList
  | none => e.charset.encodable c

def reserved : List (Char × String) :=
  [('&', "&amp;"), ('<', "&lt;"), ('>', "&gt;"), ('"', "&quot;"), ('\'', "&#039;")]

theorem mem_reserved_of_entity? {entity : String} (h : e.entity? c = some entity) :
    (c, entity) ∈ reserved := by
  unfold entity? at h
  split_ifs at h
  all_goals
    obtain rfl := Option.some.inj h
    simp_all [reserved]

theorem isReferenceText_of_mem_reserved {entity : String} (h : (c, entity) ∈ reserved) :
    IsReferenceText entity.toList ∧ e.charset.IsReference entity := by
  simp only [reserved, List.mem_cons, Prod.mk.injEq, List.not_mem_nil, or_false] at h
  rcases h with ⟨-, rfl⟩ | ⟨-, rfl⟩ | ⟨-, rfl⟩ | ⟨-, rfl⟩ | ⟨-, rfl⟩
  all_goals exact ⟨⟨_, rfl, List.all_eq_true.mp (by decide)⟩, .inl (by decide)⟩

theorem isReferenceText_reference (c : Char) : IsReferenceText (reference c) := by
  refine ⟨'#' :: (Nat.toDigits 10 c.toNat ++ [';']), rfl, fun d hd => ?_⟩
  rw [List.mem_cons, List.mem_append, List.mem_singleton] at hd
  rcases hd with rfl | hd | rfl
  · decide
  · have hdigit := Nat.isDigit_of_mem_toDigits (by decide) (by decide) hd
    simp [isReferenceChar, Char.isAlphanum, hdigit]
  · decide

theorem isReference_reference (hc : e.charset.represents c = false) :
    e.charset.IsReference (String.ofList (reference c)) := by
  refine .inr ⟨c, hc, ?_⟩
  rw [Nat.toString_eq_ofList_toDigits]
  simp [reference, ← String.toList_inj]

theorem ne_of_entity?_eq_none (h : e.entity? c = none) :
    c ≠ '&' ∧ c ≠ '<' ∧ c ≠ '>' ∧ c ≠ '"' ∧ (e.singleQuotes = true → c ≠ '\'') := by
  unfold entity? at h
  split_ifs at h with hamp hlt hgt hquote hsingle
  refine ⟨hamp, hlt, hgt, hquote, ?_⟩
  rintro hq rfl
  exact hsingle (by simp [hq])

theorem escapeChar_eq_flatMap (htext : e.charset.isTextEncoding = true) (c : Char) :
    e.escapeChar c = (e.named c).flatMap e.charset.encodable := by
  unfold escapeChar named
  cases h : e.entity? c with
  | some entity =>
    -- the charset represents all of the reference, so the second pass does nothing to it
    have hentity := (isReferenceText_of_mem_reserved (e := e) (mem_reserved_of_entity? h)).1
    exact (Charset.flatMap_encodable_of_isReferenceText htext hentity).symm
  | none => simp

/-- The two passes are one over the text: the second takes no reference of the first one apart. -/
theorem flatMap_escapeChar_eq_passes (htext : e.charset.isTextEncoding = true) (text : List Char) :
    text.flatMap e.escapeChar = (text.flatMap e.named).flatMap e.charset.encodable := by
  rw [List.flatMap_assoc, List.flatMap_congr fun c _ => escapeChar_eq_flatMap htext c]

theorem escape_of_isTextEncoding (h : e.charset.isTextEncoding = true) (text : String) :
    e.escape text = .ok (String.ofList (text.toList.flatMap e.escapeChar)) := by
  rw [flatMap_escapeChar_eq_passes h]
  exact if_pos h

/-- A character stays, and then is no reserved one and can be represented, or a reference stands for it. -/
theorem escapeChar_cases (e : Escaper) (c : Char) :
    (e.escapeChar c = [c] ∧ e.entity? c = none ∧ e.charset.represents c = true) ∨
      (IsReferenceText (e.escapeChar c) ∧ e.charset.IsReference (String.ofList (e.escapeChar c))) := by
  unfold escapeChar
  cases h : e.entity? c with
  | some entity =>
    obtain ⟨htext, href⟩ := isReferenceText_of_mem_reserved (e := e) (mem_reserved_of_entity? h)
    exact .inr ⟨htext, by rw [String.ofList_toList]; exact href⟩
  | none =>
    cases hc : e.charset.represents c with
    | true => exact .inl ⟨if_pos hc, rfl, rfl⟩
    | false =>
      have hencoded : e.charset.encodable c = reference c := if_neg (by simp [hc])
      simp only [hencoded]
      exact .inr ⟨isReferenceText_reference c, isReference_reference hc⟩

structure Safe (e : Escaper) (out : String) : Prop where
  reserved : ∀ c ∈ out.toList, c ≠ '<' ∧ c ≠ '>' ∧ c ≠ '"'
  quote : e.singleQuotes = true → '\'' ∉ out.toList
  /-- Every ampersand starts a reference. -/
  ampersand : ∀ before after, out.toList = before ++ '&' :: after →
    ∃ r, e.charset.IsReference r ∧ r.toList <+: '&' :: after
  representable : ∀ c ∈ out.toList, e.charset.represents c = true

theorem mem_escapeChar {d : Char} (htext : e.charset.isTextEncoding = true)
    (hd : d ∈ e.escapeChar c) : d ≠ '<' ∧ d ≠ '>' ∧ d ≠ '"' ∧
      (e.singleQuotes = true → d ≠ '\'') ∧ e.charset.represents d = true := by
  rcases e.escapeChar_cases c with ⟨hstay, hnone, hrep⟩ | ⟨⟨name, hname, hchars⟩, -⟩
  · rw [hstay, List.mem_singleton] at hd
    subst hd
    obtain ⟨-, hlt, hgt, hquote, hsingle⟩ := ne_of_entity?_eq_none hnone
    exact ⟨hlt, hgt, hquote, hsingle, hrep⟩
  · rw [hname, List.mem_cons] at hd
    rcases hd with rfl | hd
    · exact ⟨by decide, by decide, by decide, fun _ => by decide,
        Charset.represents_of_lt htext (by decide)⟩
    · have hchar := hchars d hd
      refine ⟨?_, ?_, ?_, fun _ => ?_,
        Charset.represents_of_lt htext (toNat_lt_of_isReferenceChar hchar)⟩
      all_goals
        rintro rfl
        exact absurd hchar (by decide)

theorem exists_reference_of_ampersand {text before after : List Char}
    (h : text.flatMap e.escapeChar = before ++ '&' :: after) :
    ∃ r, e.charset.IsReference r ∧ r.toList <+: '&' :: after := by
  induction text generalizing before with
  | nil => simp at h
  | cons c text ih =>
    rw [List.flatMap_cons] at h
    rcases e.escapeChar_cases c with ⟨hstay, hnone, -⟩ | ⟨⟨name, hname, hchars⟩, href⟩
    · rw [hstay] at h
      cases before with
      | nil => exact absurd (List.cons.inj h).1 (ne_of_entity?_eq_none hnone).1
      | cons d before => exact ih (List.cons.inj h).2
    · cases before with
      | nil =>
        refine ⟨_, href, ?_⟩
        rw [String.toList_ofList, ← List.nil_append ('&' :: after), ← h]
        exact List.prefix_append _ _
      | cons d before =>
        -- no ampersand is in the rest of a reference, so this one stands behind it
        rw [hname, List.cons_append, List.cons_append] at h
        have hrest := (List.cons.inj h).2
        rcases List.append_eq_append_iff.mp hrest with ⟨mid, -, hmid⟩ | ⟨mid, hmid, hafter⟩
        · exact ih hmid
        · cases mid with
          | nil =>
            apply @ih []
            simpa using hafter.symm
          | cons x mid =>
            obtain ⟨rfl, -⟩ := List.cons.inj hafter
            have hmem : '&' ∈ name := by simp [hmid]
            exact absurd (hchars '&' hmem) (by decide)

/-- Escaping for an encoding of texts ends, and what the two passes leave is safe. -/
theorem escape_safe (e : Escaper) (htext : e.charset.isTextEncoding = true) (text : String) :
    ∃ out, e.escape text = .ok out ∧ e.Safe out ∧
      out.toList = (text.toList.flatMap e.named).flatMap e.charset.encodable := by
  have hout : ∀ c, c ∈ (String.ofList (text.toList.flatMap e.escapeChar)).toList →
      ∃ d, c ∈ e.escapeChar d := by
    intro c hc
    rw [String.toList_ofList] at hc
    obtain ⟨d, -, hd⟩ := List.mem_flatMap.mp hc
    exact ⟨d, hd⟩
  refine ⟨_, escape_of_isTextEncoding htext text, ⟨?_, ?_, ?_, ?_⟩, ?_⟩
  · intro c hc
    obtain ⟨d, hd⟩ := hout c hc
    obtain ⟨hlt, hgt, hquote, -, -⟩ := mem_escapeChar htext hd
    exact ⟨hlt, hgt, hquote⟩
  · intro hq hmem
    obtain ⟨d, hd⟩ := hout _ hmem
    obtain ⟨-, -, -, hsingle, -⟩ := mem_escapeChar htext hd
    exact hsingle hq rfl
  · intro before after h
    rw [String.toList_ofList] at h
    exact exists_reference_of_ampersand h
  · intro c hc
    obtain ⟨d, hd⟩ := hout c hc
    exact (mem_escapeChar htext hd).2.2.2.2
  · rw [String.toList_ofList]
    exact flatMap_escapeChar_eq_passes htext text.toList

theorem escape_safe_windows1252 : Charset.windows1252.isTextEncoding = true ∧
    Escaper.escape ⟨.windows1252, true⟩ "\x81<&'" = .ok "&#129;&lt;&amp;&#039;" ∧
    Safe ⟨.windows1252, true⟩ "&#129;&lt;&amp;&#039;" := by
  have hescape : Escaper.escape ⟨.windows1252, true⟩ "\x81<&'" = .ok "&#129;&lt;&amp;&#039;" := by
    decide +kernel
  obtain ⟨out, hout, hsafe, -⟩ := escape_safe ⟨.windows1252, true⟩ rfl "\x81<&'"
  rw [hescape] at hout
  obtain rfl := Except.ok.inj hout
  exact ⟨rfl, hescape, hsafe⟩

end Escaper
end Mustache
