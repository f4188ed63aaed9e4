import Mustache.Proofs.Token.LineNumber

/-! # Progress of a scan

A template sets its own delimiters, and an empty opening delimiter would stand everywhere without taking
the scan on. So what keeps a scan going is that the delimiters in force are well formed: they are so at the
start, every delimiter tag that is read leaves them so, and under such delimiters each step ends at a later
place of the text (`step_advances`). A scan takes no more steps than the text has characters.
-/
namespace Mustache
namespace Cursor

variable {source : List Char} {s s' : Cursor} {ts : List Token}

theorem IsAt.step_eq_none_iff (hs : s.IsAt source) : s.step = none ↔ s.offset = source.length := by
  rw [Cursor.step_eq_none_iff, hs.rest_eq, List.drop_eq_nil_iff]
  have hle := hs.offset_le
  omega

theorem step_advances (hwf : s.delimiters.WellFormed) (hs : s.IsAt source)
    (hlt : s.offset < source.length) :
    (∃ e, s.step = some (.error e)) ∨
      ∃ t s', s.step = some (.ok (t, s')) ∧ s'.delimiters.WellFormed ∧ s'.IsAt source ∧
        s.offset < s'.offset := by
  have hsome : s.step ≠ none := fun hnone => Nat.ne_of_lt hlt (hs.step_eq_none_iff.mp hnone)
  obtain ⟨outcome, hstep⟩ := Option.ne_none_iff_exists'.mp hsome
  rcases outcome with e | ⟨t, s'⟩
  · exact .inl ⟨e, hstep⟩
  · obtain ⟨raw, hr⟩ := reading_of_step hwf hstep
    refine .inr ⟨t, s', hstep, hr.wellFormed, hr.isAt hs, ?_⟩
    rw [← hr.start_eq, hr.offset_eq]
    exact hr.lt

theorem Reads.length_le (h : s.Reads ts s') (hwf : s.delimiters.WellFormed) :
    s.offset + ts.length ≤ s'.offset := by
  induction h with
  | done s => exact Nat.le_refl s.offset
  | @step s s' s'' t ts hstep _ ih =>
    obtain ⟨raw, hr⟩ := reading_of_step hwf hstep
    have hrest := ih hr.wellFormed
    have hlt := hr.lt
    rw [hr.start_eq, ← hr.offset_eq] at hlt
    rw [List.length_cons]
    omega

/-- The steps from a cursor lead to the end of the text or to one that fails. -/
theorem exists_reads (hwf : s.delimiters.WellFormed) : ∃ ts s', s.Reads ts s' ∧
    (s'.step = none ∧ s.tokens = .ok ts ∨ ∃ e, s'.step = some (.error e) ∧ s.tokens = .error e) := by
  cases htokens : s.tokens with
  | ok ts =>
    obtain ⟨s', hreads, hnil⟩ := reads_of_tokens htokens
    exact ⟨ts, s', hreads, .inl ⟨Cursor.step_eq_none_iff.mpr hnil, rfl⟩⟩
  | error e =>
    obtain ⟨ts, s', fault, hreads, hfault, he⟩ := (tokens_eq_error_iff hwf).mp htokens
    have hstep := (step_eq_error_iff (hreads.wellFormed hwf)).mpr ⟨fault, hfault, he⟩
    exact ⟨ts, s', hreads, .inr ⟨e, hstep, rfl⟩⟩

end Cursor

/-- Wherever a scan stands after some steps, the delimiters in force are well formed and, unless the text
is at its end, the next step fails or goes on at a later place of the text. So the scan ends within as many
steps as the text has characters, the one that fails included. -/
theorem scan_advances (source : String) :
    (∀ ts s, (Cursor.start source.toList).Reads ts s →
      s.delimiters.WellFormed ∧ s.IsAt source.toList ∧ ts.length ≤ s.offset ∧
      (s.step = none ↔ s.offset = source.length) ∧
      (s.offset < source.length →
        (∃ e, s.step = some (.error e)) ∨
        ∃ t s', s.step = some (.ok (t, s')) ∧ s.offset < s'.offset ∧ s'.offset ≤ source.length)) ∧
    ∃ ts s, (Cursor.start source.toList).Reads ts s ∧
      (s.step = none ∧ ts.length ≤ source.length ∧ scan source = .ok (settleLines [] ts) ∨
        ∃ e, s.step = some (.error e) ∧ ts.length + 1 ≤ source.length ∧ scan source = .error e) := by
  have hwf : (Cursor.start source.toList).delimiters.WellFormed := Delimiters.wellFormed_standard
  have hstart := Cursor.IsAt.start source.toList
  rw [← String.length_toList]
  constructor
  · intro ts s hreads
    have hs := hreads.isAt hwf hstart
    have hlength := Nat.le_of_add_left_le (hreads.length_le hwf)
    refine ⟨hreads.wellFormed hwf, hs, hlength, hs.step_eq_none_iff, ?_⟩
    intro hlt
    rcases Cursor.step_advances (hreads.wellFormed hwf) hs hlt with herror | ⟨t, s', hstep, -, hs', hlt'⟩
    · exact .inl herror
    · exact .inr ⟨t, s', hstep, hlt', hs'.offset_le⟩
  · obtain ⟨ts, s, hreads, hend⟩ := Cursor.exists_reads hwf
    have hs := hreads.isAt hwf hstart
    have hlength := Nat.le_of_add_left_le (hreads.length_le hwf)
    have hle := hs.offset_le
    refine ⟨ts, s, hreads, ?_⟩
    rw [scan, Cursor.scan]
    rcases hend with ⟨hnone, htokens⟩ | ⟨e, herror, htokens⟩
    · rw [htokens]
      exact .inl ⟨hnone, by omega, rfl⟩
    · have hne : s.offset ≠ source.toList.length := by
        intro heq
        rw [hs.step_eq_none_iff.mpr heq] at herror
        cases herror
      rw [htokens]
      exact .inr ⟨e, herror, by omega, rfl⟩

end Mustache
