import Mustache.Proofs.Token.Span

/-! # Settling lines

Settling goes line by line: what the tokens up to a line break contribute does not depend on what
follows. A line that stands alone for a tag contributes that tag only; every other line contributes its
tokens and its line break as they are. So tags are never lost, and apart from the indent of a partial no
token is changed.
-/
namespace Mustache

def Token.bare (t : Token) : Token := { t with indent := "" }

variable {line ts : List Token} {nl t : Token}

theorem settleLines_append_newline (hts : ∀ u ∈ ts, u.kind ≠ .newline) (hnl : nl.kind = .newline)
    (rest : List Token) : settleLines line (ts ++ nl :: rest) =
      settleLine (line ++ ts) (some nl) ++ settleLines [] rest := by
  induction ts generalizing line with
  | nil => simp [settleLines, hnl]
  | cons t ts ih =>
    have ht : t.kind ≠ .newline := hts t List.mem_cons_self
    rw [List.cons_append, settleLines, if_neg ht, ih fun u hu => hts u (List.mem_cons_of_mem t hu)]
    simp

theorem settleLines_of_no_newline (hts : ∀ u ∈ ts, u.kind ≠ .newline) :
    settleLines line ts = settleLine (line ++ ts) none := by
  induction ts generalizing line with
  | nil => simp [settleLines]
  | cons t ts ih =>
    have ht : t.kind ≠ .newline := hts t List.mem_cons_self
    rw [settleLines, if_neg ht, ih fun u hu => hts u (List.mem_cons_of_mem t hu)]
    simp

theorem settleLines_nil : settleLines [] [] = [] := rfl

theorem exists_first_newline (ts : List Token) :
    (∀ u ∈ ts, u.kind ≠ .newline) ∨ ∃ xs nl us, ts = xs ++ nl :: us ∧ nl.kind = .newline ∧
      ∀ u ∈ xs, u.kind ≠ .newline := by
  induction ts with
  | nil => exact Or.inl nofun
  | cons t ts ih =>
    by_cases hk : t.kind = .newline
    · exact Or.inr ⟨[], t, ts, rfl, hk, nofun⟩
    · rcases ih with hno | ⟨xs, nl, us, rfl, hnl, hno⟩
      · exact Or.inl (List.forall_mem_cons.mpr ⟨hk, hno⟩)
      · exact Or.inr ⟨t :: xs, nl, us, rfl, hnl, List.forall_mem_cons.mpr ⟨hk, hno⟩⟩

structure LineEnds (ts xs : List Token) (newline : Option Token) (us : List Token) : Prop where
  eq : ts = xs ++ (newline.toList ++ us)
  unbroken : ∀ u ∈ xs, u.kind ≠ .newline
  newline_spec : ∀ nl, newline = some nl → nl.kind = .newline
  rest_spec : newline = none → us = []

theorem exists_lineEnds (ts : List Token) : ∃ xs newline us, LineEnds ts xs newline us := by
  rcases exists_first_newline ts with hno | ⟨xs, nl, us, rfl, hnl, hno⟩
  · exact ⟨ts, none, [], by simp, hno, nofun, fun _ => rfl⟩
  · refine ⟨xs, some nl, us, rfl, hno, fun nl' h => ?_, nofun⟩
    rw [← Option.some.inj h]
    exact hnl

theorem LineEnds.append {xs us qs : List Token} {newline : Option Token}
    (h : LineEnds qs xs newline us) (hts : ∀ u ∈ ts, u.kind ≠ .newline) :
    LineEnds (ts ++ qs) (ts ++ xs) newline us where
  eq := by rw [h.eq, List.append_assoc]
  unbroken u hu := by
    rcases List.mem_append.mp hu with hu | hu
    · exact hts u hu
    · exact h.unbroken u hu
  newline_spec := h.newline_spec
  rest_spec := h.rest_spec

theorem LineEnds.settleLines_eq {xs us : List Token} {newline : Option Token}
    (h : LineEnds ts xs newline us) (line : List Token) :
    settleLines line ts = settleLine (line ++ xs) newline ++ settleLines [] us := by
  rw [h.eq]
  cases newline with
  | none =>
    rw [h.rest_spec rfl]
    simp [settleLines_of_no_newline h.unbroken, settleLines_nil]
  | some nl => exact settleLines_append_newline h.unbroken (h.newline_spec nl rfl) us

theorem LineEnds.rest {xs us : List Token} {newline : Option Token} (h : LineEnds ts xs newline us) :
    newline.toList ++ us = [] ∨ ∃ nl ys, newline.toList ++ us = nl :: ys ∧ nl.kind = .newline := by
  cases newline with
  | none =>
    rw [h.rest_spec rfl]
    exact Or.inl rfl
  | some nl => exact Or.inr ⟨nl, us, rfl, h.newline_spec nl rfl⟩

/-- After a line break settling starts anew. -/
theorem settleLines_append_of_newline (hnl : nl.kind = .newline) (rest : List Token) :
    settleLines line (ts ++ nl :: rest) = settleLines line (ts ++ [nl]) ++ settleLines [] rest := by
  induction ts generalizing line with
  | nil =>
    simp only [List.nil_append, settleLines, hnl, if_true]
    rw [List.append_assoc]
    rfl
  | cons t ts ih =>
    simp only [List.cons_append, settleLines]
    split
    · rw [ih, List.append_assoc]
    · exact ih

theorem TokenKind.ne_text_of_standsAlone {k : TokenKind} (h : k.standsAlone = true) : k ≠ .text := by
  rintro rfl
  cases h

theorem TokenKind.isTag_of_standsAlone {k : TokenKind} (h : k.standsAlone = true) :
    k.isTag = true := by
  cases k <;> first | rfl | cases h

def Token.settledAfter (before : List Token) (tag : Token) : Token :=
  if tag.kind = .partialTag then { tag with indent := String.join (before.map (·.value)) } else tag

theorem standaloneTag?_append {before after : List Token} {tag : Token}
    (htext : ∀ u ∈ before ++ after, u.kind = .text) (htag : tag.kind ≠ .text) :
    standaloneTag? (before ++ tag :: after) =
      if tag.kind.standsAlone && (before ++ after).all (·.value.toList.all Text.isLineBlank) then
        some (tag.settledAfter before) else none := by
  have hbefore : ∀ u ∈ before, (u.kind == TokenKind.text) = true := by
    intro u hu
    simpa using htext u (List.mem_append_left _ hu)
  have hafter : ∀ u ∈ after, (u.kind == TokenKind.text) = true := by
    intro u hu
    simpa using htext u (List.mem_append_right _ hu)
  have htag' : (tag.kind == TokenKind.text) = false := by simpa using htag
  have hothers : (before ++ tag :: after).filter (·.kind != .text) = [tag] := by
    rw [List.filter_append, List.filter_eq_nil_iff.mpr fun u hu => by simp [bne, hbefore u hu],
      List.filter_cons_of_pos (by simp [bne, htag']),
      List.filter_eq_nil_iff.mpr fun u hu => by simp [bne, hafter u hu], List.nil_append]
  have htexts : (before ++ tag :: after).filter (·.kind == .text) = before ++ after := by
    rw [List.filter_append, List.filter_eq_self.mpr hbefore,
      List.filter_cons_of_neg (by simp [htag']), List.filter_eq_self.mpr hafter]
  have htake : (before ++ tag :: after).takeWhile (·.kind == .text) = before := by
    rw [List.takeWhile_append_of_pos hbefore, List.takeWhile_cons_of_neg (by simp [htag']),
      List.append_nil]
  simp only [standaloneTag?, hothers, htexts, htake, Token.settledAfter]
  split
  · split <;> rfl
  · rfl

/-- A line stands alone for a tag if the tag is of a kind that does, and nothing but blank texts is
around it. -/
theorem standaloneTag?_eq_some_iff : standaloneTag? line = some t ↔
    ∃ before tag after, line = before ++ tag :: after ∧ tag.kind.standsAlone = true ∧
      (∀ u ∈ before ++ after, u.kind = .text ∧ u.value.toList.all Text.isLineBlank = true) ∧
      t = tag.settledAfter before := by
  constructor
  · intro h
    have hone : ∃ tag, line.filter (·.kind != .text) = [tag] := by
      unfold standaloneTag? at h
      split at h
      · rename_i tag htag
        exact ⟨tag, htag⟩
      · cases h
    obtain ⟨tag, hone⟩ := hone
    obtain ⟨before, after, rfl, hbefore, htag, hafter⟩ := List.filter_eq_cons_iff.mp hone
    have htext : ∀ u ∈ before ++ after, u.kind = .text := by
      intro u hu
      rcases List.mem_append.mp hu with hu | hu
      · simpa using hbefore u hu
      · simpa using List.filter_eq_nil_iff.mp hafter u hu
    rw [standaloneTag?_append htext (by simpa using htag)] at h
    split at h
    · rename_i hcond
      rw [Bool.and_eq_true] at hcond
      refine ⟨before, tag, after, rfl, hcond.1, fun u hu => ⟨htext u hu, ?_⟩, (Option.some.inj h).symm⟩
      exact List.all_eq_true.mp hcond.2 u hu
    · cases h
  · rintro ⟨before, tag, after, rfl, halone, htext, rfl⟩
    have hblank : (before ++ after).all (·.value.toList.all Text.isLineBlank) = true :=
      List.all_eq_true.mpr fun u hu => (htext u hu).2
    rw [standaloneTag?_append (fun u hu => (htext u hu).1)
      (TokenKind.ne_text_of_standsAlone halone), halone, hblank]
    rfl

theorem Token.bare_settledAfter (before : List Token) (tag : Token) :
    (tag.settledAfter before).bare = tag.bare := by
  unfold Token.settledAfter
  split <;> rfl

theorem Token.kind_settledAfter (before : List Token) (tag : Token) :
    (tag.settledAfter before).kind = tag.kind := by
  unfold Token.settledAfter
  split <;> rfl

theorem Token.settledAfter_of_ne {tag : Token} (h : tag.kind ≠ .partialTag) (before : List Token) :
    tag.settledAfter before = tag := if_neg h

theorem settleLine_sublist (line : List Token) (newline : Option Token) :
    ((settleLine line newline).map Token.bare).Sublist
      ((line ++ newline.toList).map Token.bare) := by
  unfold settleLine
  split
  · rename_i t ht
    obtain ⟨before, tag, after, rfl, -, -, rfl⟩ := standaloneTag?_eq_some_iff.mp ht
    rw [List.map_singleton, Token.bare_settledAfter, List.singleton_sublist]
    exact List.mem_map_of_mem (by simp)
  · exact List.Sublist.refl _

/-- Settling drops tokens and changes no other, but for the indents of partials. -/
theorem settleLines_sublist (line ts : List Token) :
    ((settleLines line ts).map Token.bare).Sublist ((line ++ ts).map Token.bare) := by
  induction ts generalizing line with
  | nil =>
    have h := settleLine_sublist line none
    rwa [settleLines]
  | cons t ts ih =>
    rw [settleLines]
    split
    · have h := (settleLine_sublist line (some t)).append (ih [])
      simpa using h
    · have h := ih (line ++ [t])
      simpa using h

theorem settleLine_tags {newline : Option Token} (hnl : ∀ u, newline = some u → u.kind = .newline) :
    ((settleLine line newline).filter (·.kind.isTag)).map Token.bare =
      (line.filter (·.kind.isTag)).map Token.bare := by
  unfold settleLine
  split
  · rename_i t ht
    obtain ⟨before, tag, after, rfl, halone, htext, rfl⟩ := standaloneTag?_eq_some_iff.mp ht
    have htag := TokenKind.isTag_of_standsAlone halone
    have hsettled : (tag.settledAfter before).kind.isTag = true := by
      rw [Token.kind_settledAfter, htag]
    have hnone : ∀ us ⊆ before ++ after, us.filter (·.kind.isTag) = [] := by
      intro us hus
      rw [List.filter_eq_nil_iff]
      intro u hu
      rw [(htext u (hus hu)).1]
      decide
    have hbefore := hnone before (List.subset_append_left _ _)
    have hafter := hnone after (List.subset_append_right _ _)
    simp [hsettled, htag, hbefore, hafter, Token.bare_settledAfter]
  · have hnone : newline.toList.filter (·.kind.isTag) = [] := by
      rw [List.filter_eq_nil_iff]
      intro u hu
      rw [hnl u (by simpa using hu)]
      decide
    rw [List.filter_append, hnone, List.append_nil]

/-- No tag is lost. -/
theorem settleLines_tags (line ts : List Token) :
    ((settleLines line ts).filter (·.kind.isTag)).map Token.bare =
      ((line ++ ts).filter (·.kind.isTag)).map Token.bare := by
  induction ts generalizing line with
  | nil =>
    rw [settleLines, settleLine_tags (by simp), List.append_nil]
  | cons t ts ih =>
    rw [settleLines]
    split
    · rename_i hk
      have hnl : ∀ u, some t = some u → u.kind = .newline := by simpa using hk
      have hline := @settleLine_tags line _ hnl
      rw [List.filter_append, List.map_append, hline, ih]
      simp [hk, TokenKind.isTag]
    · rw [ih]
      simp

theorem Token.bare_congr {t u : Token} (h : t.bare = u.bare) :
    t.kind = u.kind ∧ t.value = u.value ∧ t.start = u.start ∧ t.stop = u.stop ∧
      t.delimiters = u.delimiters := by
  have hk : t.bare.kind = u.bare.kind := by rw [h]
  have hv : t.bare.value = u.bare.value := by rw [h]
  have hs : t.bare.start = u.bare.start := by rw [h]
  have he : t.bare.stop = u.bare.stop := by rw [h]
  have hd : t.bare.delimiters = u.bare.delimiters := by rw [h]
  exact ⟨hk, hv, hs, he, hd⟩

theorem Token.WrittenIn.congr {source : List Char} {d : Delimiters} {t u : Token}
    (h : t.WrittenIn source d) (hb : u.bare = t.bare) : u.WrittenIn source d := by
  obtain ⟨hk, hv, hs, he, hd⟩ := Token.bare_congr hb
  constructor
  · rw [hs, he]
    exact h.nonempty
  · rw [he]
    exact h.inside
  · rw [hk, hv, hs, he]
    exact h.text_spec
  · rw [hk, hv, hs, he]
    exact h.newline_spec
  · rw [hk, hd, hs, he]
    exact h.tag_spec

theorem mem_of_mem_settleLines {line ts : List Token} {u : Token} (hu : u ∈ settleLines line ts) :
    ∃ t ∈ line ++ ts, u.bare = t.bare := by
  have hmem := (settleLines_sublist line ts).subset (List.mem_map_of_mem hu)
  obtain ⟨t, ht, hb⟩ := List.mem_map.mp hmem
  exact ⟨t, ht, hb.symm⟩

theorem mem_of_mem_settleLine {line : List Token} {newline : Option Token} {u : Token}
    (hu : u ∈ settleLine line newline) : ∃ t ∈ line ++ newline.toList, u.bare = t.bare := by
  have hmem := (settleLine_sublist line newline).subset (List.mem_map_of_mem hu)
  obtain ⟨t, ht, hb⟩ := List.mem_map.mp hmem
  exact ⟨t, ht, hb.symm⟩

theorem delimitersAt_congr {ts us : List Token} (place : Nat)
    (h : (ts.filter (·.kind.isTag)).map Token.bare = (us.filter (·.kind.isTag)).map Token.bare) :
    delimitersAt ts place = delimitersAt us place := by
  have hfold : ∀ (vs : List Token) (d : Delimiters),
      (vs.filter fun t => t.stop ≤ place).foldl Token.setDelimiters d =
        (((vs.filter (·.kind.isTag)).map Token.bare).filter fun t => t.stop ≤ place).foldl
          Token.setDelimiters d := by
    intro vs
    induction vs with
    | nil => exact fun _ => rfl
    | cons v vs ih =>
      intro d
      have hbare : v.bare.setDelimiters d = v.setDelimiters d := rfl
      by_cases hp : v.stop ≤ place
      · have hpb : v.bare.stop ≤ place := hp
        by_cases ht : v.kind.isTag = true
        · simp [ht, hp, hpb, hbare, ih]
        · have hk : v.kind ≠ .delimiterTag := fun hk => ht (by rw [hk]; rfl)
          simp [ht, hp, Cursor.setDelimiters_of_ne hk, ih]
      · have hpb : ¬ v.bare.stop ≤ place := hp
        by_cases ht : v.kind.isTag = true
        · simp [ht, hp, hpb, ih]
        · simp [ht, hp, ih]
  rw [delimitersAt, delimitersAt, hfold ts, hfold us, h]

end Mustache
