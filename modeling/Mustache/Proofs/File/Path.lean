import Mustache.File.Path

/-! # Paths and their texts

Reading a path brings it into normal form: a root of at most two slashes and parts that lead somewhere.
Joining paths keeps the form. A path in normal form is what reading its text gives, since its parts hold
no slash and its root is followed by none.
-/
namespace Mustache.Path

def IsPart (part : String) : Prop :=
  part ≠ "" ∧ part ≠ "." ∧ '/' ∉ part.toList

structure IsNormal (p : Path) : Prop where
  root : p.root = "" ∨ p.root = "/" ∨ p.root = "//"
  parts : ∀ part ∈ p.parts, IsPart part

theorem rootOf_cases (cs : List Char) : rootOf cs = "" ∨ rootOf cs = "/" ∨ rootOf cs = "//" := by
  unfold rootOf
  split <;> simp

theorem not_mem_of_mem_splitOn {x : Char} {cs part : List Char} (h : part ∈ cs.splitOn x) : x ∉ part := by
  induction cs generalizing part with
  | nil =>
    rw [List.splitOn_nil, List.mem_singleton] at h
    simp [h]
  | cons c cs ih =>
    rw [List.splitOn_cons_eq_if_modifyHead] at h
    split at h
    · rcases List.mem_cons.mp h with rfl | h
      · simp
      · exact ih h
    · rename_i hc
      obtain ⟨first, rest, hcs⟩ := List.exists_cons_of_ne_nil (List.splitOn_ne_nil x cs)
      rw [hcs] at h ih
      rcases List.mem_cons.mp h with rfl | h
      · have hne : x ≠ c := fun hx => hc (by simp [hx])
        exact List.not_mem_cons_of_ne_of_not_mem hne (ih List.mem_cons_self)
      · exact ih (List.mem_cons_of_mem _ h)

theorem isPart_of_mem_partsOf {cs : List Char} {part : String} (h : part ∈ partsOf cs) : IsPart part := by
  rw [partsOf, List.mem_filter] at h
  obtain ⟨hmem, hpart⟩ := h
  obtain ⟨piece, hpiece, rfl⟩ := List.mem_map.mp hmem
  have hslash := not_mem_of_mem_splitOn hpiece
  exact ⟨by simp_all, by simp_all, by simpa using hslash⟩

theorem isNormal_ofString (s : String) : (ofString s).IsNormal where
  root := rootOf_cases s.toList
  parts _ h := isPart_of_mem_partsOf h

theorem IsNormal.join {p q : Path} (hp : p.IsNormal) (hq : q.IsNormal) : (p.join q).IsNormal := by
  unfold Path.join
  split
  · exact hq
  · refine ⟨hp.root, fun part hpart => ?_⟩
    rcases List.mem_append.mp hpart with hpart | hpart
    · exact hp.parts part hpart
    · exact hq.parts part hpart

def written (parts : List String) : List Char :=
  List.intercalate ['/'] (parts.map String.toList)

theorem toList_toString {p : Path} (h : p.root ≠ "" ∨ p.parts ≠ []) :
    p.toString.toList = p.root.toList ++ written p.parts := by
  rw [toString, if_neg (by simpa [Classical.or_iff_not_imp_left] using h), String.toList_append,
    String.toList_intercalate]
  rfl

theorem partsOf_slash (cs : List Char) : partsOf ('/' :: cs) = partsOf cs := by
  simp [partsOf, List.splitOn_cons_eq_if_modifyHead]

/-- Slashes between parts are where a text is taken apart again. -/
theorem partsOf_written {parts : List String} (h : ∀ part ∈ parts, IsPart part) :
    partsOf (written parts) = parts := by
  cases parts with
  | nil => rfl
  | cons first rest =>
    have hsplit : (written (first :: rest)).splitOn '/' = (first :: rest).map String.toList := by
      refine List.splitOn_intercalate '/' (fun piece hpiece => ?_) (List.cons_ne_nil _ _)
      obtain ⟨part, hpart, rfl⟩ := List.mem_map.mp hpiece
      exact (h part hpart).2.2
    have hread : ((first :: rest).map String.toList).map String.ofList = first :: rest := by
      simp [Function.comp_def]
    rw [partsOf, hsplit, hread, List.filter_eq_self]
    intro part hpart
    simpa using ⟨(h part hpart).1, (h part hpart).2.1⟩

theorem head?_written {parts : List String} (h : ∀ part ∈ parts, IsPart part) :
    (written parts).head? ≠ some '/' := by
  cases parts with
  | nil => simp [written]
  | cons first rest =>
    obtain ⟨hne, -, hslash⟩ := h first List.mem_cons_self
    obtain ⟨c, cs, hfirst⟩ := List.exists_cons_of_ne_nil (l := first.toList) (by simpa using hne)
    have hc : c ≠ '/' := by
      rintro rfl
      simp [hfirst] at hslash
    cases rest <;> simp [written, hfirst, hc, List.intercalate]

theorem rootOf_append {root : String} {cs : List Char} (hroot : root = "" ∨ root = "/" ∨ root = "//")
    (hcs : cs.head? ≠ some '/') : rootOf (root.toList ++ cs) = root := by
  cases cs with
  | nil => rcases hroot with rfl | rfl | rfl <;> rfl
  | cons c cs =>
    have hc : c ≠ '/' := by simpa using hcs
    rcases hroot with rfl | rfl | rfl <;> simp [rootOf, hc]

theorem partsOf_append {root : String} (cs : List Char) (hroot : root = "" ∨ root = "/" ∨ root = "//") :
    partsOf (root.toList ++ cs) = partsOf cs := by
  rcases hroot with rfl | rfl | rfl <;> simp [partsOf_slash]

/-- A path in normal form is what its text is read as. -/
theorem ofString_toString {p : Path} (h : p.IsNormal) : ofString p.toString = p := by
  by_cases hdot : p.root = "" ∧ p.parts = []
  · obtain ⟨root, parts⟩ := p
    obtain ⟨rfl, rfl⟩ := hdot
    rfl
  · rw [ofString, toList_toString (by simpa [Classical.or_iff_not_imp_left] using hdot),
      rootOf_append h.root (head?_written h.parts), partsOf_append _ h.root, partsOf_written h.parts]

end Mustache.Path
