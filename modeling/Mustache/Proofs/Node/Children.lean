import Mustache.Proofs.Node.Bare
import Mustache.Proofs.Node.Forest
import Mustache.Proofs.Token.Alike

/-! # The children of sections with the same raw body

The children of two sections with the same raw body under the same delimiters are the same up to
offsets if the sections sit alike. If they do not, the children give different texts already where no
name has a value: either the number of line breaks differs or blanks are missing.
-/
namespace Mustache

namespace Forest
open TreeBuilder

variable {ts us : List Token} {ns ms : List Node} {t nl : Token} {n : Node}

theorem of_cons_leaf (h : Forest (t :: ts) ns) (hn : t.leaf? = some n) :
    ∃ ms, ns = n :: ms ∧ Forest ts ms := by
  cases h with
  | leaf hn' h =>
    rw [hn] at hn'
    cases hn'
    exact ⟨_, rfl, h⟩
  | skip hk h =>
    rw [Token.leaf?, hk] at hn
    cases hn
  | block ho _ _ _ _ =>
    rcases ho with hk | hk
    · rw [Token.leaf?, hk] at hn
      cases hn
    · rw [Token.leaf?, hk] at hn
      cases hn

theorem of_append_leaf (h : Forest (ts ++ [t]) ns) (hn : t.leaf? = some n) :
    ∃ ms, ns = ms ++ [n] ∧ Forest ts ms := by
  have hok := h.ofTokens
  rw [Node.ofTokens, List.foldlM_append] at hok
  cases hb : ts.foldlM take .empty with
  | error e =>
    rw [hb] at hok
    cases hok
  | ok b =>
    rw [hb] at hok
    have hlast : [t].foldlM take b = .ok (b.add n) := by
      rw [foldlM_take_cons (take_of_leaf? hn b)]
      rfl
    have hfinish : (b.add n).finish = .ok ns := by
      rw [← hok]
      change _ = ([t].foldlM take b >>= finish)
      rw [hlast]
      rfl
    have hbuilds : Builds ([] ++ ts) b := Builds.foldlM_take (.closed .nil) hb
    rw [List.nil_append] at hbuilds
    cases hbuilds with
    | @closed _ ms hf =>
      cases hfinish
      exact ⟨ms, rfl, hf⟩
    | opened _ _ _ => cases hfinish

theorem bare_texts_append (hts : ∀ u ∈ ts, u.kind = .text ∨ u.kind = .newline)
    (h : Forest (ts ++ us) ns) :
    ∃ ms, Forest us ms ∧ Node.bare ns = ts.flatMap (·.value.toList) ++ Node.bare ms := by
  induction ts generalizing ns with
  | nil => exact ⟨ns, h, rfl⟩
  | cons t ts ih =>
    have hn : t.leaf? = some (.text t.value) := by
      rcases hts t List.mem_cons_self with hk | hk
      · rw [Token.leaf?, hk]
      · rw [Token.leaf?, hk]
    obtain ⟨ks, rfl, hks⟩ := of_cons_leaf h hn
    obtain ⟨ms, hms, hbare⟩ := ih (fun u hu => hts u (List.mem_cons_of_mem t hu)) hks
    refine ⟨ms, hms, ?_⟩
    rw [Node.bare, Node.bareOne, hbare, List.flatMap_cons, List.append_assoc]

theorem bare_append_texts (hus : ∀ u ∈ us, u.kind = .text) (h : Forest (ts ++ us) ns) :
    ∃ ms, Forest ts ms ∧ Node.bare ns = Node.bare ms ++ us.flatMap (·.value.toList) := by
  induction us generalizing ts with
  | nil =>
    rw [List.append_nil] at h
    exact ⟨ns, h, by simp⟩
  | cons t us ih =>
    have hn : t.leaf? = some (.text t.value) := by rw [Token.leaf?, hus t List.mem_cons_self]
    have hsplit : ts ++ t :: us = (ts ++ [t]) ++ us := by simp
    rw [hsplit] at h
    obtain ⟨ks, hks, hbare⟩ := ih (fun u hu => hus u (List.mem_cons_of_mem t hu)) h
    obtain ⟨ms, rfl, hms⟩ := of_append_leaf hks hn
    refine ⟨ms, hms, ?_⟩
    rw [hbare, Node.bare_append, Node.bare, Node.bareOne, Node.bare, List.append_nil,
      List.flatMap_cons, List.append_assoc]

theorem exists_count_lt (hts : ∀ u ∈ ts, u.kind = .text) (hnl : nl.kind = .newline)
    (hspelled : nl.Spelled) (h : Forest (ts ++ nl :: us) ns) :
    ∃ ms, Forest us ms ∧ (Node.bare ms).count '\n' < (Node.bare ns).count '\n' := by
  have htexts : ∀ u ∈ ts ++ [nl], u.kind = .text ∨ u.kind = .newline := by
    intro u hu
    rcases List.mem_append.mp hu with hu | hu
    · exact Or.inl (hts u hu)
    · rw [List.mem_singleton.mp hu]
      exact Or.inr hnl
  have hsplit : ts ++ nl :: us = (ts ++ [nl]) ++ us := by simp
  rw [hsplit] at h
  obtain ⟨ms, hms, hbare⟩ := bare_texts_append htexts h
  refine ⟨ms, hms, ?_⟩
  rw [hbare, List.flatMap_append, List.flatMap_singleton, hspelled.newline_spec hnl,
    List.count_append, List.count_append, List.count_singleton_self]
  omega

theorem bare_drop_last (hus : ∀ u ∈ us, u.kind = .text) (hspelled : ∀ u ∈ us, u.Spelled)
    (hne : us ≠ []) (h : Forest ts ns) (h' : Forest (ts ++ us) ms) :
    (Node.bare ns).count '\n' = (Node.bare ms).count '\n' ∧ Node.bare ns ≠ Node.bare ms := by
  obtain ⟨ks, hks, hbare⟩ := bare_append_texts hus h'
  rw [hks.unique h] at hbare
  rw [hbare]
  constructor
  · have hnone : (us.flatMap (·.value.toList)).count '\n' = 0 := by
      rw [List.count_eq_zero]
      intro hmem
      obtain ⟨u, hu, hin⟩ := List.mem_flatMap.mp hmem
      exact ((hspelled u hu).text_spec (hus u hu)).2 hin
    rw [List.count_append, hnone, Nat.add_zero]
  · intro heq
    have hnil := List.append_cancel_left ((List.append_nil _).trans heq)
    obtain ⟨u, vs, rfl⟩ := List.exists_cons_of_ne_nil hne
    have hu := List.mem_cons_self (a := u) (l := vs)
    rw [List.flatMap_cons] at hnil
    exact ((hspelled u hu).text_spec (hus u hu)).1 (List.append_eq_nil_iff.mp hnil.symm).1

section Bodies

variable {front last : List Token} {closed closed' : Bool}

/-- Dropping what follows the last line break or not is a difference, but not one of line breaks. -/
theorem bare_closed (hlast : closed = true ∨ closed' = true → last ≠ [] ∧ ∀ u ∈ last, u.kind = .text)
    (hspelled : ∀ u ∈ last, u.Spelled) (h : Forest (front ++ if closed then [] else last) ns)
    (h' : Forest (front ++ if closed' then [] else last) ms) :
    (Node.bare ns).count '\n' = (Node.bare ms).count '\n' ∧
      (Node.bare ns = Node.bare ms → closed = closed') := by
  cases closed with
  | true =>
    obtain ⟨hne, htext⟩ := hlast (Or.inl rfl)
    rw [if_pos rfl, List.append_nil] at h
    cases closed' with
    | true =>
      rw [if_pos rfl, List.append_nil] at h'
      rw [h.unique h']
      exact ⟨rfl, fun _ => rfl⟩
    | false =>
      obtain ⟨hcount, hdiff⟩ := bare_drop_last htext hspelled hne h h'
      exact ⟨hcount, fun heq => absurd heq hdiff⟩
  | false =>
    cases closed' with
    | true =>
      obtain ⟨hne, htext⟩ := hlast (Or.inr rfl)
      rw [if_pos rfl, List.append_nil] at h'
      obtain ⟨hcount, hdiff⟩ := bare_drop_last htext hspelled hne h' h
      exact ⟨hcount.symm, fun heq => absurd heq.symm hdiff⟩
    | false =>
      rw [h.unique h']
      exact ⟨rfl, fun _ => rfl⟩

/-- A line dropped with its break tells that it was dropped, whatever else is. -/
theorem bare_opened_ne (hts : ∀ u ∈ ts, u.kind = .text) (hnl : nl.kind = .newline)
    (hspelled : nl.Spelled) (hspelled' : ∀ u ∈ last, u.Spelled)
    (hlast : closed = true ∨ closed' = true → last ≠ [] ∧ ∀ u ∈ last, u.kind = .text)
    (h : Forest (front ++ if closed then [] else last) ns)
    (h' : Forest (ts ++ nl :: (front ++ if closed' then [] else last)) ms) :
    Node.bare ns ≠ Node.bare ms := by
  obtain ⟨ks, hks, hlt⟩ := exists_count_lt hts hnl hspelled h'
  have hcount := (bare_closed hlast hspelled' h hks).1
  intro heq
  rw [heq] at hcount
  omega

theorem flags_eq_of_bare_eq {opened opened' : Bool} (hspelled : ∀ u ∈ ts, u.Spelled)
    (hd : Drops opened closed ts) (hd' : Drops opened' closed' ts)
    (h : Forest (settledBody opened closed ts) ns) (h' : Forest (settledBody opened' closed' ts) ms)
    (heq : Node.bare ns = Node.bare ms) : opened = opened' ∧ closed = closed' := by
  rcases exists_first_newline ts with hno | ⟨xs, nl, us, rfl, hnl, hxs⟩
  · obtain ⟨rfl, rfl⟩ := hd.eq_false hno
    obtain ⟨rfl, rfl⟩ := hd'.eq_false hno
    exact ⟨rfl, rfl⟩
  · have hboth : closed = true ∨ closed' = true →
        lineAfter [] us ≠ [] ∧ ∀ u ∈ lineAfter [] us, u.kind = .text := by
      rintro (hc | hc)
      · exact hd.text_of_closed hnl hxs hc
      · exact hd'.text_of_closed hnl hxs hc
    have hspelled' : ∀ u ∈ lineAfter [] us, u.Spelled := by
      obtain ⟨before, hus, -⟩ := @lineAfter_spec [] nofun us
      rw [List.nil_append] at hus
      intro u hu
      apply hspelled
      rw [hus]
      simp [hu]
    rw [settledBody_newline hxs hnl] at h h'
    cases opened with
    | true =>
      cases opened' with
      | true => exact ⟨rfl, (bare_closed hboth hspelled' h h').2 heq⟩
      | false =>
        have hfull : Forest (xs ++ nl :: (settledBefore [] us ++
            if closed' then [] else lineAfter [] us)) ms := by simpa using h'
        exact absurd heq (bare_opened_ne (hd.text_of_opened hnl hxs rfl) hnl (hspelled nl (by simp)) hspelled'
          hboth h hfull)
    | false =>
      cases opened' with
      | true =>
        have hfull : Forest (xs ++ nl :: (settledBefore [] us ++
            if closed then [] else lineAfter [] us)) ns := by simpa using h
        exact absurd heq.symm (bare_opened_ne (hd'.text_of_opened hnl hxs rfl) hnl (hspelled nl (by simp))
          hspelled' (fun hc => hboth hc.symm) h' hfull)
      | false =>
        rw [← List.append_assoc] at h h'
        exact ⟨rfl, (bare_closed hboth hspelled' h h').2 heq⟩

end Bodies

end Forest

section Sections

variable {source : String} {tokens : List Token} {tree : List Node} {name name' : String}
  {start stop start' stop' : Int} {delimiters : Delimiters} {children children' : List Node}

/-- The children of two sections with the same raw body: if they sit alike, there is no difference but
in offsets, else there is one in the text. -/
theorem children_of_same_body (hscan : scan source = .ok tokens) (htree : Forest tokens tree)
    (hmem : Node.sectionBlock name start stop delimiters children ∈ Node.subnodes tree)
    (hmem' : Node.sectionBlock name' start' stop' delimiters children' ∈ Node.subnodes tree)
    (hslice : Text.slice source.toList start stop = Text.slice source.toList start' stop') :
    (SitAlike source.toList tokens start stop start' stop' →
      Node.unplaced children = Node.unplaced children') ∧
    (Node.bare children = Node.bare children' →
      SitAlike source.toList tokens start stop start' stop') := by
  obtain ⟨pre, o, body, c, post, htokens, ho, hc, rfl, rfl, rfl, hbody⟩ := htree.exists_section hmem
  obtain ⟨pre', o', body', c', post', htokens', ho', hc', rfl, rfl, hd, hbody'⟩ :=
    htree.exists_section hmem'
  obtain ⟨ts, ts', opened, closed, opened', closed', rfl, rfl, hsame, hspelled, hdrops, hdrops', halike⟩ :=
    exists_same_body hscan htokens htokens' ho hc ho' hc' hd hslice
  constructor
  · intro h
    obtain ⟨rfl, rfl⟩ := halike.mp h
    refine hbody.unplaced_congr hbody' ?_
    rw [← Token.moves_unplaced.settledBody_map, ← Token.moves_unplaced.settledBody_map, hsame]
  · intro h
    apply halike.mpr
    have hleft := hbody.unplaced
    have hright := hbody'.unplaced
    have hdropsLeft := hdrops.map_unplaced
    have hdropsRight := hdrops'.map_unplaced
    rw [← Token.moves_unplaced.settledBody_map] at hleft hright
    rw [← hsame] at hright hdropsRight
    have hspelled' : ∀ u ∈ ts.map Token.unplaced, u.Spelled := by
      intro u hu
      obtain ⟨v, hv, rfl⟩ := List.mem_map.mp hu
      exact ⟨(hspelled v hv).text_spec, (hspelled v hv).newline_spec⟩
    rw [← Node.bare_unplaced children, ← Node.bare_unplaced children'] at h
    exact Forest.flags_eq_of_bare_eq hspelled' hdropsLeft hdropsRight hleft hright h

end Sections
end Mustache
