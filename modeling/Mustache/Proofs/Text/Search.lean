import Mustache.Text.Search

/-! # Where a search ends

`runBefore` stops at the first place where its condition holds and nowhere before; a search that ends
inside a text gives the same when other text follows. A slice between two offsets that lie in the text is
the part between them.
-/
namespace Mustache.Text

variable {stop : List Char → Bool}

theorem stop_of_runBefore (stop : List Char → Bool) (cs : List Char) :
    (runBefore stop cs).2 = [] ∨ stop (runBefore stop cs).2 = true := by
  induction cs with
  | nil => exact Or.inl rfl
  | cons c cs ih =>
    by_cases h : stop (c :: cs) = true
    · right
      simp [runBefore, h]
    · simpa [runBefore, h] using ih

theorem not_stop_of_runBefore {cs a b : List Char} (h : (runBefore stop cs).1 = a ++ b)
    (hb : b ≠ []) : stop (b ++ (runBefore stop cs).2) = false := by
  induction cs generalizing a with
  | nil =>
    simp only [runBefore] at h
    exact absurd (List.append_eq_nil_iff.mp h.symm).2 hb
  | cons c cs ih =>
    by_cases hs : stop (c :: cs) = true
    · simp only [runBefore, hs, if_true] at h
      exact absurd (List.append_eq_nil_iff.mp h.symm).2 hb
    · simp only [runBefore, hs] at h ⊢
      cases a with
      | nil =>
        have hcs := append_runBefore stop cs
        rw [List.nil_append] at h
        rw [← h]
        simpa [hcs] using hs
      | cons x a =>
        exact ih (List.cons.inj h).2

/-- The run is the whole text before the first place where `stop` holds. -/
theorem runBefore_eq {run rest : List Char} (hrest : rest = [] ∨ stop rest = true)
    (hrun : ∀ a b, run = a ++ b → b ≠ [] → stop (b ++ rest) = false) :
    runBefore stop (run ++ rest) = (run, rest) := by
  induction run with
  | nil =>
    cases rest with
    | nil => rfl
    | cons c cs =>
      have hs : stop (c :: cs) = true := hrest.resolve_left (by simp)
      simp [runBefore, hs]
  | cons c run ih =>
    have hs : stop (c :: (run ++ rest)) = false := hrun [] (c :: run) rfl (by simp)
    have hi := ih fun a b hab hb => hrun (c :: a) b (by rw [hab]; rfl) hb
    simp [runBefore, hs, hi]

theorem append_cons_inj_of_first {α : Type} {p : α → Prop} {xs ys us vs : List α} {x y : α}
    (h : xs ++ x :: us = ys ++ y :: vs) (hx : p x) (hy : p y) (hxs : ∀ u ∈ xs, ¬ p u)
    (hys : ∀ u ∈ ys, ¬ p u) : xs = ys ∧ us = vs := by
  induction xs generalizing ys with
  | nil =>
    cases ys with
    | nil => exact ⟨rfl, (List.cons.inj h).2⟩
    | cons z ys =>
      rw [(List.cons.inj h).1] at hx
      exact absurd hx (hys z List.mem_cons_self)
  | cons w xs ih =>
    cases ys with
    | nil =>
      rw [← (List.cons.inj h).1] at hy
      exact absurd hy (hxs w List.mem_cons_self)
    | cons z ys =>
      obtain ⟨rfl, htail⟩ := List.cons.inj h
      obtain ⟨rfl, rfl⟩ := ih htail (fun u hu => hxs u (List.mem_cons_of_mem w hu))
        (fun u hu => hys u (List.mem_cons_of_mem w hu))
      exact ⟨rfl, rfl⟩

theorem cutAt_append_right {needle cs before after : List Char} (more : List Char)
    (h : cutAt needle cs = some (before, after)) :
    cutAt needle (cs ++ more) = some (before, after ++ more) := by
  induction cs generalizing before with
  | nil =>
    by_cases hn : needle.isEmpty = true
    · have hn' : needle = [] := List.isEmpty_iff.mp hn
      subst hn'
      simp only [cutAt, List.isEmpty_nil, if_true, Option.some.injEq, Prod.mk.injEq] at h
      obtain ⟨rfl, rfl⟩ := h
      cases more <;> simp [cutAt]
    · simp [cutAt, hn] at h
  | cons c cs ih =>
    by_cases hp : needle.isPrefixOf (c :: cs) = true
    · have hp' := List.isPrefixOf_iff_prefix.mp hp
      have hpm : needle.isPrefixOf (c :: (cs ++ more)) = true :=
        List.isPrefixOf_iff_prefix.mpr (hp'.trans (List.prefix_append _ more))
      simp only [cutAt, hp, if_true, Option.some.injEq, Prod.mk.injEq] at h
      obtain ⟨rfl, rfl⟩ := h
      simp only [List.cons_append, cutAt, hpm, if_true, Option.some.injEq, Prod.mk.injEq, true_and]
      rw [← List.cons_append, List.drop_append_of_le_length hp'.length_le]
    · simp only [cutAt, hp] at h
      obtain ⟨⟨b, a⟩, hba, he⟩ := Option.map_eq_some_iff.mp h
      simp only [Prod.mk.injEq] at he
      obtain ⟨rfl, rfl⟩ := he
      have hlen := length_cutAt hba
      have hpm : ¬ needle.isPrefixOf (c :: (cs ++ more)) = true := by
        intro hpm
        apply hp
        have hle : needle.length ≤ (c :: cs).length := by
          simp only [List.length_cons]
          omega
        exact List.isPrefixOf_iff_prefix.mpr (List.prefix_of_prefix_length_le
          (List.isPrefixOf_iff_prefix.mp hpm) (List.prefix_append (c :: cs) more) hle)
      simp [cutAt, hpm, ih hba]

theorem cutAt_ne_none {needle cs : List Char} (h : needle <:+: cs) : cutAt needle cs ≠ none := by
  induction cs with
  | nil => simp [cutAt, List.infix_nil.mp h]
  | cons c cs ih =>
    by_cases hp : needle.isPrefixOf (c :: cs) = true
    · simp [cutAt, hp]
    · rcases List.infix_cons_iff.mp h with hpre | hin
      · exact absurd (List.isPrefixOf_iff_prefix.mpr hpre) hp
      · simpa [cutAt, hp] using ih hin

theorem cutAt_eq_none_iff {needle cs : List Char} : cutAt needle cs = none ↔ ¬ needle <:+: cs := by
  constructor
  · intro h hin
    exact cutAt_ne_none hin h
  · intro h
    cases hc : cutAt needle cs with
    | none => rfl
    | some r => exact absurd ⟨r.1, r.2, append_cutAt hc⟩ h

theorem cutAt_of_append {needle cs more before after : List Char}
    (h : cutAt needle (cs ++ more) = some (before, after ++ more)) :
    cutAt needle cs = some (before, after) := by
  cases hc : cutAt needle cs with
  | some r =>
    have hm := cutAt_append_right more hc
    rw [h] at hm
    simp only [Option.some.injEq, Prod.mk.injEq, List.append_cancel_right_eq] at hm
    rw [hm.1, hm.2]
  | none =>
    have happ := append_cutAt h
    rw [← List.append_assoc, List.append_cancel_right_eq] at happ
    exact absurd hc (cutAt_ne_none ⟨before, after, happ⟩)

/-- A text is found at its first place; that is where a character of it first occurs which neither the
text before this character nor the text before that place has. -/
theorem cutAt_append_of_not_mem {x : Char} {pre xs before : List Char} (hpre : x ∉ pre)
    (hbefore : x ∉ before) (after : List Char) :
    cutAt (pre ++ x :: xs) (before ++ (pre ++ x :: xs ++ after)) = some (before, after) := by
  induction before with
  | nil =>
    have hp : (pre ++ x :: xs).isPrefixOf (pre ++ x :: xs ++ after) = true :=
      List.isPrefixOf_iff_prefix.mpr (List.prefix_append _ _)
    obtain ⟨c, cs, hcs⟩ := List.exists_cons_of_ne_nil
      (show pre ++ x :: xs ++ after ≠ [] by simp)
    rw [hcs] at hp
    rw [List.nil_append, hcs, cutAt, if_pos hp, ← hcs, List.drop_left]
  | cons c cs ih =>
    have hrest := ih fun hmem => hbefore (List.mem_cons_of_mem c hmem)
    have hp : ¬ (pre ++ x :: xs).isPrefixOf (c :: (cs ++ (pre ++ x :: xs ++ after))) = true := by
      intro hp
      obtain ⟨more, hmore⟩ := List.isPrefixOf_iff_prefix.mp hp
      have hfirst : pre ++ x :: (xs ++ more) = (c :: (cs ++ pre)) ++ x :: (xs ++ after) := by
        simpa using hmore
      have hnot : ∀ u ∈ c :: (cs ++ pre), ¬ u = x := by
        rintro u hu rfl
        rcases List.mem_append.mp (List.cons_append ▸ hu) with hu | hu
        · exact hbefore hu
        · exact hpre hu
      obtain ⟨hlen, -⟩ := append_cons_inj_of_first (p := (· = x)) hfirst rfl rfl
        (fun u hu hux => hpre (hux ▸ hu)) hnot
      have := congrArg List.length hlen
      simp at this
      omega
    rw [List.cons_append, cutAt, if_neg hp, hrest, Option.map_some]

theorem cutAt_of_not_mem {x : Char} {xs before : List Char} (h : x ∉ before) (after : List Char) :
    cutAt (x :: xs) (before ++ (x :: xs ++ after)) = some (before, after) :=
  cutAt_append_of_not_mem List.not_mem_nil h after

theorem slice_natCast (cs : List Char) (a b : Nat) : slice cs a b = (cs.take b).drop a := by
  have ha : ¬ (a : Int) < 0 := by omega
  have hb : ¬ (b : Int) < 0 := by omega
  simp only [slice, place, if_neg ha, if_neg hb, Int.toNat_natCast]
  rw [← List.take_eq_take_min]
  rcases Nat.le_total a cs.length with h | h
  · rw [Nat.min_eq_left h]
  · have hb := List.length_take_le' b cs
    rw [Nat.min_eq_right h, List.drop_eq_nil_of_le hb, List.drop_eq_nil_of_le (by omega)]

theorem slice_append_left (pre cs : List Char) {a b : Int} (ha : 0 ≤ a) (hb : 0 ≤ b) :
    slice (pre ++ cs) (a + pre.length) (b + pre.length) = slice cs a b := by
  obtain ⟨a, rfl⟩ := Int.eq_ofNat_of_zero_le ha
  obtain ⟨b, rfl⟩ := Int.eq_ofNat_of_zero_le hb
  have hmoved := slice_natCast (pre ++ cs) (pre.length + a) (pre.length + b)
  rw [List.take_length_add_append, List.drop_length_add_append] at hmoved
  rw [slice_natCast, ← hmoved]
  congr 1
  · push_cast
    exact Int.add_comm _ _
  · push_cast
    exact Int.add_comm _ _

theorem getElem?_slice (cs : List Char) {a b i : Nat} (ha : a ≤ i) (hb : i < b) :
    (slice cs a b)[i - a]? = cs[i]? := by
  rw [slice_natCast, List.getElem?_drop, List.getElem?_take, if_pos (by omega)]
  congr 1
  omega

theorem length_slice (cs : List Char) {a b : Nat} (hb : b ≤ cs.length) :
    (slice cs a b).length = b - a := by
  rw [slice_natCast, List.length_drop, List.length_take, Nat.min_eq_left hb]

theorem slice_append_slice (cs : List Char) {a b c : Nat} (hab : a ≤ b) (hbc : b ≤ c) :
    slice cs a b ++ slice cs b c = slice cs a c := by
  rw [slice_natCast, slice_natCast, slice_natCast]
  have h : (cs.take c).take b = cs.take b := by rw [List.take_take, Nat.min_eq_left hbc]
  have hd : (cs.take c).drop b = ((cs.take c).drop a).drop (b - a) := by
    rw [List.drop_drop, Nat.add_sub_cancel' hab]
  rw [← h, List.drop_take, hd, List.take_append_drop]

end Mustache.Text
