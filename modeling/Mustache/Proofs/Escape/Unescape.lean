import Mustache.Proofs.Escape.Safe

/-! # Reading escaped texts

`unescape` reads a text from left to right and puts the character in the place of each named or decimal
reference; an ampersand that starts no reference stays. Every character of an escaped text that is not
part of a reference is no ampersand, so reading cannot lose its place: it gives back the text that was
escaped, also where that looks like a reference itself.
-/
namespace Mustache.Text

def decimalReference? (cs : List Char) : Option (Char × List Char) :=
  let digits := cs.takeWhile Char.isDigit
  let code := Nat.ofDigitChars 10 digits 0
  match cs.dropWhile Char.isDigit with
  | ';' :: rest => if digits.isEmpty || !decide code.isValidChar then none else some (Char.ofNat code, rest)
  | _ => none

def reference? : List Char → Option (Char × List Char)
  | 'a' :: 'm' :: 'p' :: ';' :: rest => some ('&', rest)
  | 'l' :: 't' :: ';' :: rest => some ('<', rest)
  | 'g' :: 't' :: ';' :: rest => some ('>', rest)
  | 'q' :: 'u' :: 'o' :: 't' :: ';' :: rest => some ('"', rest)
  | '#' :: rest => decimalReference? rest
  | _ => none

theorem length_lt_of_decimalReference? {c : Char} {cs rest : List Char}
    (h : decimalReference? cs = some (c, rest)) : rest.length < cs.length := by
  have hlen := (List.dropWhile_suffix (l := cs) Char.isDigit).length_le
  simp only [decimalReference?] at h
  split at h
  · rename_i after hafter
    rw [hafter, List.length_cons] at hlen
    split at h
    · cases h
    · obtain ⟨-, rfl⟩ := Prod.mk.inj (Option.some.inj h)
      omega
  · cases h

theorem length_lt_of_reference? {c : Char} {cs rest : List Char}
    (h : reference? cs = some (c, rest)) : rest.length < cs.length := by
  unfold reference? at h
  split at h
  case h_5 body =>
    have := length_lt_of_decimalReference? h
    simp only [List.length_cons]
    omega
  case h_6 => cases h
  all_goals
    obtain ⟨-, rfl⟩ := Prod.mk.inj (Option.some.inj h)
    simp only [List.length_cons]
    omega

/-- The text with the references in it read, once, from left to right. -/
def unescape : List Char → List Char
  | [] => []
  | c :: cs =>
    if c = '&' then
      match _h : reference? cs with
      | some (d, rest) => d :: unescape rest
      | none => c :: unescape cs
    else c :: unescape cs
termination_by cs => cs.length
decreasing_by
  · have := length_lt_of_reference? _h
    simp only [List.length_cons]
    omega
  all_goals simp

theorem unescape_cons {c : Char} (hc : c ≠ '&') (cs : List Char) :
    unescape (c :: cs) = c :: unescape cs := by
  rw [unescape, if_neg hc]

theorem unescape_reference {c : Char} {cs rest : List Char} (h : reference? cs = some (c, rest)) :
    unescape ('&' :: cs) = c :: unescape rest := by
  rw [unescape, if_pos rfl]
  split
  · rename_i hd
    rw [h] at hd
    obtain ⟨rfl, rfl⟩ := Prod.mk.inj (Option.some.inj hd)
    rfl
  · rename_i hnone
    rw [h] at hnone
    cases hnone

end Mustache.Text

namespace Mustache.Escaper
open Text

/-- Digits end where the semicolon stands, so the whole number is read. -/
theorem decimalReference?_toDigits (c : Char) (rest : List Char) :
    decimalReference? (Nat.toDigits 10 c.toNat ++ ';' :: rest) = some (c, rest) := by
  have hdigits : ∀ d ∈ Nat.toDigits 10 c.toNat, d.isDigit = true := fun d hd =>
    Nat.isDigit_of_mem_toDigits (by decide) (by decide) hd
  have htake : (Nat.toDigits 10 c.toNat ++ ';' :: rest).takeWhile Char.isDigit =
      Nat.toDigits 10 c.toNat := by
    rw [List.takeWhile_append_of_pos hdigits]
    simp
  have hdrop : (Nat.toDigits 10 c.toNat ++ ';' :: rest).dropWhile Char.isDigit = ';' :: rest := by
    rw [List.dropWhile_append_of_pos hdigits]
    rfl
  have hvalid : c.toNat.isValidChar := c.valid
  have hne := Nat.toDigits_ne_nil (b := 10) (n := c.toNat)
  simp [decimalReference?, htake, hdrop, Nat.ofDigitChars_ten_toDigits, hvalid, hne]

theorem unescape_escapeChar (e : Escaper) (c : Char) (rest : List Char) :
    unescape (e.escapeChar c ++ rest) = c :: unescape rest := by
  unfold escapeChar
  cases h : e.entity? c with
  | some entity =>
    have hreserved := mem_reserved_of_entity? h
    simp only [reserved, List.mem_cons, Prod.mk.injEq, List.not_mem_nil, or_false] at hreserved
    rcases hreserved with ⟨rfl, rfl⟩ | ⟨rfl, rfl⟩ | ⟨rfl, rfl⟩ | ⟨rfl, rfl⟩ | ⟨rfl, rfl⟩
    all_goals exact unescape_reference rfl
  | none =>
    have hamp := (ne_of_entity?_eq_none h).1
    by_cases hrep : e.charset.represents c = true
    · rw [Charset.encodable, if_pos hrep]
      exact unescape_cons hamp rest
    · -- the semicolon ends the number, also where `rest` starts with digits
      rw [Charset.encodable, if_neg hrep]
      have hreference : reference? ('#' :: (Nat.toDigits 10 c.toNat ++ [';'] ++ rest)) = some (c, rest) := by
        rw [reference?, List.append_assoc]
        exact decimalReference?_toDigits c rest
      exact unescape_reference hreference

theorem unescape_flatMap_escapeChar (e : Escaper) (text : List Char) :
    unescape (text.flatMap e.escapeChar) = text := by
  induction text with
  | nil => rw [List.flatMap_nil, unescape]
  | cons c text ih => rw [List.flatMap_cons, unescape_escapeChar, ih]

/-- Escaping for an encoding of texts acts piece by piece, and reading its references gives back what was
escaped; so no two texts are escaped to the same. -/
theorem unescape_escape (e : Escaper) (htext : e.charset.isTextEncoding = true) (a b : String) :
    ∃ x y, e.escape a = .ok x ∧ e.escape b = .ok y ∧ e.escape (a ++ b) = .ok (x ++ y) ∧
      String.ofList (unescape x.toList) = a ∧ (x = y → a = b) := by
  have hescape : ∀ s : String, e.escape s = .ok (String.ofList (s.toList.flatMap e.escapeChar)) :=
    escape_of_isTextEncoding htext
  have hback : ∀ s : String,
      String.ofList (unescape (String.ofList (s.toList.flatMap e.escapeChar)).toList) = s := by
    intro s
    rw [String.toList_ofList, unescape_flatMap_escapeChar, String.ofList_toList]
  refine ⟨_, _, hescape a, hescape b, ?_, hback a, fun hxy => ?_⟩
  · rw [hescape, String.toList_append, List.flatMap_append, String.ofList_append]
  · rw [← hback a, hxy, hback b]

theorem unescape_escape_ascii : Charset.ascii.isTextEncoding = true ∧
    Escaper.escape ⟨.ascii, false⟩ "&#233;1" = .ok "&amp;#233;1" ∧
    Escaper.escape ⟨.ascii, false⟩ "é;" = .ok "&#233;;" ∧
    Escaper.escape ⟨.ascii, false⟩ ("&#233;1" ++ "é;") = .ok ("&amp;#233;1" ++ "&#233;;") ∧
    String.ofList (unescape "&amp;#233;1".toList) = "&#233;1" := by
  have hx : Escaper.escape ⟨.ascii, false⟩ "&#233;1" = .ok "&amp;#233;1" := by decide +kernel
  have hy : Escaper.escape ⟨.ascii, false⟩ "é;" = .ok "&#233;;" := by decide +kernel
  obtain ⟨x, y, hx', hy', happ, hback, -⟩ :=
    unescape_escape ⟨.ascii, false⟩ rfl "&#233;1" "é;"
  obtain rfl := Except.ok.inj (hx.symm.trans hx')
  obtain rfl := Except.ok.inj (hy.symm.trans hy')
  exact ⟨rfl, hx, hy, happ, hback⟩

end Mustache.Escaper
