import Mustache.Proofs.Token.Step

/-! # Spans of tokens

The tokens read from a text stand side by side: each starts where the one before it ends, and the last
one ends where the text ends. What a token says is written in the text at its span, under the delimiters
that the delimiter tags before it have set.
-/
namespace Mustache

/-- The tokens stand side by side between two places, none of them empty. -/
def Tiles : Nat → List Token → Nat → Prop
  | a, [], b => a = b
  | a, t :: ts, b => t.start = a ∧ t.start < t.stop ∧ Tiles t.stop ts b

theorem eq_of_pairwise_le {ts : List Token} {t u : Token}
    (hp : ts.Pairwise fun t u => t.stop ≤ u.start) (ht : t ∈ ts) (hu : u ∈ ts) {i : Nat}
    (hti : t.start ≤ i ∧ i < t.stop) (hui : u.start ≤ i ∧ i < u.stop) : t = u := by
  obtain ⟨xs, ys, rfl⟩ := List.append_of_mem ht
  have hp' := List.pairwise_append.mp hp
  rcases List.mem_append.mp hu with hx | hx
  · have hle := hp'.2.2 u hx t List.mem_cons_self
    omega
  · rcases List.mem_cons.mp hx with rfl | hy
    · rfl
    · have hle := (List.pairwise_cons.mp hp'.2.1).1 u hy
      omega

namespace Tiles

variable {a b c : Nat} {t : Token} {ts us : List Token}

theorem le (h : Tiles a ts b) : a ≤ b := by
  induction ts generalizing a with
  | nil => exact Nat.le_of_eq h
  | cons t ts ih =>
    obtain ⟨hstart, hlt, hts⟩ := h
    have hle := ih hts
    omega

theorem append_iff : Tiles a (ts ++ us) c ↔ ∃ b, Tiles a ts b ∧ Tiles b us c := by
  induction ts generalizing a with
  | nil =>
    constructor
    · intro h
      exact ⟨a, rfl, h⟩
    · rintro ⟨b, rfl, h⟩
      exact h
  | cons t ts ih =>
    constructor
    · rintro ⟨hstart, hlt, hts⟩
      obtain ⟨b, hb, hc⟩ := ih.mp hts
      exact ⟨b, ⟨hstart, hlt, hb⟩, hc⟩
    · rintro ⟨b, ⟨hstart, hlt, hb⟩, hc⟩
      exact ⟨hstart, hlt, ih.mpr ⟨b, hb, hc⟩⟩

theorem bounds (h : Tiles a ts b) (ht : t ∈ ts) : a ≤ t.start ∧ t.start < t.stop ∧ t.stop ≤ b := by
  obtain ⟨xs, ys, rfl⟩ := List.append_of_mem ht
  obtain ⟨c, hxs, hstart, hlt, hys⟩ := append_iff.mp h
  have hle := le hxs
  have hle' := le hys
  omega

theorem pairwise (h : Tiles a ts b) : ts.Pairwise fun t u => t.stop ≤ u.start := by
  induction ts generalizing a with
  | nil => exact List.Pairwise.nil
  | cons t ts ih =>
    obtain ⟨hstart, hlt, hts⟩ := h
    exact List.pairwise_cons.mpr ⟨fun u hu => (hts.bounds hu).1, ih hts⟩

theorem exists_mem (h : Tiles a ts b) {i : Nat} (ha : a ≤ i) (hb : i < b) :
    ∃ t ∈ ts, t.start ≤ i ∧ i < t.stop := by
  induction ts generalizing a with
  | nil =>
    have hab : a = b := h
    omega
  | cons t ts ih =>
    obtain ⟨hstart, hlt, hts⟩ := h
    by_cases hi : i < t.stop
    · exact ⟨t, List.mem_cons_self, by omega, hi⟩
    · obtain ⟨u, hu, hspan⟩ := ih hts (by omega)
      exact ⟨u, List.mem_cons_of_mem t hu, hspan⟩

theorem eq_of_overlap (h : Tiles a ts b) {u : Token} (ht : t ∈ ts) (hu : u ∈ ts) {i : Nat}
    (hti : t.start ≤ i ∧ i < t.stop) (hui : u.start ≤ i ∧ i < u.stop) : t = u :=
  eq_of_pairwise_le h.pairwise ht hu hti hui

theorem unique (h : Tiles a ts b) (h' : Tiles a ts c) : b = c := by
  induction ts generalizing a with
  | nil => exact h.symm.trans h'
  | cons t ts ih => exact ih h.2.2 h'.2.2

theorem filter_eq {xs ys zs : List Token} {d : Nat} (hx : Tiles a xs b) (hy : Tiles b ys c)
    (hz : Tiles c zs d) :
    (xs ++ (ys ++ zs)).filter (fun u => decide (b ≤ u.start ∧ u.start < c)) = ys := by
  have hxs : xs.filter (fun u => decide (b ≤ u.start ∧ u.start < c)) = [] := by
    rw [List.filter_eq_nil_iff]
    intro u hu
    have hbounds := hx.bounds hu
    simp only [decide_eq_true_eq]
    omega
  have hys : ys.filter (fun u => decide (b ≤ u.start ∧ u.start < c)) = ys := by
    rw [List.filter_eq_self]
    intro u hu
    have hbounds := hy.bounds hu
    exact decide_eq_true (by omega)
  have hzs : zs.filter (fun u => decide (b ≤ u.start ∧ u.start < c)) = [] := by
    rw [List.filter_eq_nil_iff]
    intro u hu
    have hbounds := hz.bounds hu
    simp only [decide_eq_true_eq]
    omega
  rw [List.filter_append, List.filter_append, hxs, hys, hzs, List.nil_append, List.append_nil]

end Tiles

/-- The delimiters in force at a place: those that the delimiter tags before it have set. -/
def delimitersAt (tokens : List Token) (place : Nat) : Delimiters :=
  (tokens.filter fun t => t.stop ≤ place).foldl Token.setDelimiters .standard

/-- What a token says stands in the text at its span; `d` are the delimiters in force there. -/
structure Token.WrittenIn (source : List Char) (d : Delimiters) (t : Token) : Prop where
  nonempty : t.start < t.stop
  inside : t.stop ≤ source.length
  text_spec : t.kind = .text → t.value.toList = Text.slice source t.start t.stop ∧
    '\n' ∉ t.value.toList ∧ ¬ d.opening.toList <:+: t.value.toList
  newline_spec : t.kind = .newline → t.value.toList = Text.slice source t.start t.stop ∧
    t.value.toList = ['\n']
  tag_spec : t.kind.isTag = true → t.delimiters = d ∧
    d.opening.toList <+: Text.slice source t.start t.stop ∧
    d.closing.toList <:+ Text.slice source t.start t.stop

namespace Cursor

structure IsAt (source : List Char) (s : Cursor) : Prop where
  offset_le : s.offset ≤ source.length
  rest_eq : s.rest = source.drop s.offset

variable {source raw : List Char} {s s' : Cursor} {t : Token} {ts : List Token}

theorem IsAt.start (source : List Char) : (Cursor.start source).IsAt source :=
  ⟨Nat.zero_le _, rfl⟩

theorem Reading.isAt (h : s.Reading raw t s') (hs : s.IsAt source) : s'.IsAt source := by
  have hrest := h.rest_eq
  have hoff : s'.offset = s.offset + raw.length := h.offset_eq.trans h.stop_eq
  rw [hs.rest_eq] at hrest
  have hlen := congrArg List.length hrest
  simp only [List.length_drop, List.length_append] at hlen
  have hle := hs.offset_le
  refine ⟨by omega, ?_⟩
  rw [hoff, ← List.drop_drop, hrest, List.drop_left]

theorem Reading.slice_eq (h : s.Reading raw t s') (hs : s.IsAt source) :
    Text.slice source t.start t.stop = raw := by
  have hrest := h.rest_eq
  rw [hs.rest_eq] at hrest
  rw [Text.slice_natCast, h.start_eq, h.stop_eq, List.drop_take, hrest]
  simp

theorem Reading.lt (h : s.Reading raw t s') : t.start < t.stop := by
  have hne := List.length_pos_iff.mpr h.raw_ne_nil
  rw [h.start_eq, h.stop_eq]
  omega

theorem Reading.writtenIn (h : s.Reading raw t s') (hs : s.IsAt source) :
    t.WrittenIn source s.delimiters := by
  have hslice := h.slice_eq hs
  refine ⟨h.lt, ?_, ?_, ?_, ?_⟩
  · rw [← h.offset_eq]
    exact (h.isAt hs).offset_le
  · intro hk
    obtain ⟨hvalue, hfree⟩ := h.text_spec hk
    rw [hslice, hvalue]
    exact ⟨rfl, hfree⟩
  · intro hk
    obtain ⟨hvalue, hraw⟩ := h.newline_spec hk
    rw [hslice, hvalue]
    exact ⟨rfl, hraw⟩
  · intro hk
    rw [hslice]
    exact h.tag_spec hk

theorem Reads.tiles (h : s.Reads ts s') (hwf : s.delimiters.WellFormed) :
    Tiles s.offset ts s'.offset := by
  induction h with
  | done s => rfl
  | step hstep _ ih =>
    obtain ⟨raw, hr⟩ := reading_of_step hwf hstep
    refine ⟨hr.start_eq, hr.lt, ?_⟩
    rw [← hr.offset_eq]
    exact ih hr.wellFormed

theorem Reads.isAt (h : s.Reads ts s') (hwf : s.delimiters.WellFormed) (hs : s.IsAt source) :
    s'.IsAt source := by
  induction h with
  | done s => exact hs
  | step hstep _ ih =>
    obtain ⟨raw, hr⟩ := reading_of_step hwf hstep
    exact ih hr.wellFormed (hr.isAt hs)

theorem Reads.wellFormed (h : s.Reads ts s') (hwf : s.delimiters.WellFormed) :
    s'.delimiters.WellFormed := by
  induction h with
  | done s => exact hwf
  | step hstep _ ih =>
    obtain ⟨raw, hr⟩ := reading_of_step hwf hstep
    exact ih hr.wellFormed

theorem Reads.wellFormed_of_mem (h : s.Reads ts s') (hwf : s.delimiters.WellFormed) (ht : t ∈ ts)
    (htag : t.kind.isTag = true) : t.delimiters.WellFormed := by
  induction h with
  | done _ => cases ht
  | step hstep _ ih =>
    obtain ⟨raw, hr⟩ := reading_of_step hwf hstep
    rcases List.mem_cons.mp ht with rfl | ht
    · rw [(hr.tag_spec htag).1]
      exact hwf
    · exact ih hr.wellFormed ht

theorem Reads.indent_eq (h : s.Reads ts s') (hwf : s.delimiters.WellFormed) (ht : t ∈ ts) :
    t.indent = "" := by
  induction h with
  | done s => cases ht
  | step hstep _ ih =>
    obtain ⟨raw, hr⟩ := reading_of_step hwf hstep
    rcases List.mem_cons.mp ht with rfl | ht
    · exact hr.indent_eq
    · exact ih hr.wellFormed ht

/-- With `pre` the tokens before the cursor, every token read is written in the text under the
delimiters in force where it starts. -/
theorem Reads.writtenIn (h : s.Reads ts s') (hwf : s.delimiters.WellFormed) (hs : s.IsAt source)
    {pre : List Token} (hpre : ∀ u ∈ pre, u.stop ≤ s.offset)
    (hd : pre.foldl Token.setDelimiters .standard = s.delimiters) (ht : t ∈ ts) :
    t.WrittenIn source (delimitersAt (pre ++ ts) t.start) := by
  induction h generalizing pre with
  | done s => cases ht
  | @step s s1 s2 u us hstep hreads ih =>
    obtain ⟨raw, hr⟩ := reading_of_step hwf hstep
    rcases List.mem_cons.mp ht with rfl | ht
    · have hbefore : pre.filter (fun v => v.stop ≤ t.start) = pre := by
        rw [List.filter_eq_self]
        intro v hv
        rw [hr.start_eq]
        exact decide_eq_true (hpre v hv)
      have hafter : (t :: us).filter (fun v => v.stop ≤ t.start) = [] := by
        rw [List.filter_eq_nil_iff]
        intro v hv
        have hlt := hr.lt
        rcases List.mem_cons.mp hv with rfl | hv
        · simpa using hlt
        · have hb := (hreads.tiles hr.wellFormed).bounds hv
          rw [hr.offset_eq] at hb
          simp only [decide_eq_true_eq]
          omega
      have hat : delimitersAt (pre ++ t :: us) t.start = s.delimiters := by
        rw [delimitersAt, List.filter_append, hbefore, hafter, List.append_nil, hd]
      rw [hat]
      exact hr.writtenIn hs
    · have h1 := @ih hr.wellFormed (hr.isAt hs) (pre ++ [u]) ?_ ?_ ht
      · simpa using h1
      · intro v hv
        have hlt := hr.lt
        rw [hr.offset_eq]
        rcases List.mem_append.mp hv with hv | hv
        · have hle := hpre v hv
          rw [hr.start_eq] at hlt
          omega
        · exact Nat.le_of_eq (congrArg Token.stop (List.mem_singleton.mp hv))
      · rw [List.foldl_append, hd, hr.delimiters_eq]
        rfl

theorem tokens_start_spec (h : (Cursor.start source).tokens = .ok ts) :
    Tiles 0 ts source.length ∧
      ∀ t ∈ ts, t.indent = "" ∧ t.WrittenIn source (delimitersAt ts t.start) := by
  obtain ⟨s', hreads, hnil⟩ := reads_of_tokens h
  have hwf : (Cursor.start source).delimiters.WellFormed := Delimiters.wellFormed_standard
  have hat := IsAt.start source
  have hend := hreads.isAt hwf hat
  have hlen := congrArg List.length hend.rest_eq
  rw [hnil, List.length_drop, List.length_nil] at hlen
  have hle := hend.offset_le
  have htiles := hreads.tiles hwf
  have hoff : s'.offset = source.length := by omega
  rw [hoff] at htiles
  refine ⟨htiles, fun t ht => ⟨hreads.indent_eq hwf ht, ?_⟩⟩
  exact @Reads.writtenIn _ _ _ _ _ hreads hwf hat [] nofun rfl ht

end Cursor
end Mustache
