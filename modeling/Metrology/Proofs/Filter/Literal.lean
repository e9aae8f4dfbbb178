import Metrology.Filter.Literal

/-!
# Where a literal ends

A quote ends a literal only if no other quote follows it.  So what stands behind a
literal matters, and all lemmas here have the rest of the text in them.  The rest
must not start with a quote (`StartsOutside`).

Then the literal can be taken off the front of a text in one way only
(`write_append_inj`), and scanning reads exactly this literal and goes on with the
rest (`scanFrom_write_append`).
-/

namespace Metrology.Filter.Literal

/-- A text that does not go on with the literal in front of it. -/
def StartsOutside (cs : List Char) : Prop := cs.head? ≠ some quote

theorem startsOutside_nil : StartsOutside [] := by
  intro h
  cases h

theorem startsOutside_cons {c : Char} (h : c ≠ quote) (cs : List Char) :
    StartsOutside (c :: cs) := by
  intro eq
  exact h (Option.some.inj eq)

/-! ## Taking a literal off a text -/

/-- The induction compares both texts character by character.  A quote inside is
two quotes, and the one at the end stands alone because of the rest. -/
theorem doubleQuotes_append_inj : ∀ (cs ds : List Char) {r r' : List Char},
    StartsOutside r → StartsOutside r' →
    doubleQuotes cs ++ quote :: r = doubleQuotes ds ++ quote :: r' → cs = ds ∧ r = r'
  | [], [], r, r', _, _, h => by
      simp only [doubleQuotes, List.nil_append, List.cons.injEq, true_and] at h
      exact ⟨rfl, h⟩
  | [], d :: ds, r, r', hr, _, h => by
      by_cases hd : d = quote
      · simp only [doubleQuotes, if_pos hd, List.nil_append, List.cons_append, List.cons.injEq,
          true_and] at h
        exact absurd (by rw [h]; rfl) hr
      · simp only [doubleQuotes, if_neg hd, List.nil_append, List.cons_append, List.cons.injEq] at h
        exact absurd h.1.symm hd
  | c :: cs, [], r, r', _, hr', h => by
      by_cases hc : c = quote
      · simp only [doubleQuotes, if_pos hc, List.nil_append, List.cons_append, List.cons.injEq,
          true_and] at h
        exact absurd (by rw [← h]; rfl) hr'
      · simp only [doubleQuotes, if_neg hc, List.nil_append, List.cons_append, List.cons.injEq] at h
        exact absurd h.1 hc
  | c :: cs, d :: ds, r, r', hr, hr', h => by
      by_cases hc : c = quote <;> by_cases hd : d = quote
      · simp only [doubleQuotes, if_pos hc, if_pos hd, List.cons_append, List.cons.injEq,
          true_and] at h
        obtain ⟨rfl, rest⟩ := doubleQuotes_append_inj cs ds hr hr' h
        exact ⟨by rw [hc, hd], rest⟩
      · simp only [doubleQuotes, if_pos hc, if_neg hd, List.cons_append, List.cons.injEq] at h
        exact absurd h.1.symm hd
      · simp only [doubleQuotes, if_neg hc, if_pos hd, List.cons_append, List.cons.injEq] at h
        exact absurd h.1 hc
      · simp only [doubleQuotes, if_neg hc, if_neg hd, List.cons_append, List.cons.injEq] at h
        obtain ⟨rfl, rest⟩ := doubleQuotes_append_inj cs ds hr hr' h.2
        exact ⟨by rw [h.1], rest⟩

/-- A literal can be taken off a text in one way only. -/
theorem write_append_inj {a b : Option String} {r r' : List Char} (hr : StartsOutside r)
    (hr' : StartsOutside r') (h : write a ++ r = write b ++ r') : a = b ∧ r = r' := by
  cases a with
  | none =>
      cases b with
      | none =>
          simp only [write, List.cons_append, List.cons.injEq, true_and] at h
          exact ⟨rfl, h⟩
      | some t => simp [write, enclose, quote] at h
  | some s =>
      cases b with
      | none => simp [write, enclose, quote] at h
      | some t =>
          simp only [write, enclose, List.cons_append, List.append_assoc, List.nil_append,
            List.cons.injEq, true_and] at h
          obtain ⟨text, rest⟩ := doubleQuotes_append_inj s.toList t.toList hr hr' h
          rw [String.toList_inj] at text
          exact ⟨by rw [text], rest⟩

/-! ## Scanning -/

theorem scanFrom_append_of_not_mem {cs : List Char} (h : quote ∉ cs) (r : List Char) :
    scanFrom none (cs ++ r) = scanFrom none r := by
  induction cs with
  | nil => rfl
  | cons c cs ih =>
      simp only [List.mem_cons, not_or] at h
      rw [List.cons_append, scanFrom, if_neg (Ne.symm h.1), ih h.2]

/-- Within a literal the scan collects its characters up to the quote that stands
alone. -/
theorem scanFrom_doubleQuotes_append (cs : List Char) :
    ∀ (read : List Char) {r : List Char}, StartsOutside r →
      scanFrom (some read) (doubleQuotes cs ++ quote :: r) =
        (scanFrom none r).map (String.ofList (read.reverse ++ cs) :: ·) := by
  induction cs with
  | nil =>
      intro read r hr
      cases r with
      | nil => simp [doubleQuotes, scanFrom]
      | cons d r =>
          have hd : d ≠ quote := fun eq => hr (by rw [eq]; rfl)
          simp [doubleQuotes, scanFrom, hd]
  | cons c cs ih =>
      intro read r hr
      by_cases hc : c = quote
      · simp only [doubleQuotes, if_pos hc, List.cons_append, scanFrom]
        rw [if_true, if_true, ih (quote :: read) hr, hc]
        simp
      · obtain ⟨d, tail, eq⟩ : ∃ d tail, doubleQuotes cs ++ quote :: r = d :: tail := by
          cases cs with
          | nil => exact ⟨quote, r, rfl⟩
          | cons d cs =>
              by_cases hd : d = quote
              · exact ⟨_, _, by rw [doubleQuotes, if_pos hd]; rfl⟩
              · exact ⟨_, _, by rw [doubleQuotes, if_neg hd]; rfl⟩
        have step := ih (c :: read) hr
        rw [eq] at step
        simp only [doubleQuotes, if_neg hc, List.cons_append]
        rw [eq, scanFrom, if_neg hc, step]
        simp

/-- Scanning a literal reads its text, and nothing if it is the null literal. -/
theorem scanFrom_write_append (text : Option String) {r : List Char} (hr : StartsOutside r) :
    scanFrom none (write text ++ r) = (scanFrom none r).map (text.toList ++ ·) := by
  cases text with
  | none =>
      rw [write, scanFrom_append_of_not_mem (by decide)]
      simp
  | some s =>
      rw [write, enclose, List.cons_append, scanFrom, if_pos rfl, List.append_assoc,
        List.singleton_append, scanFrom_doubleQuotes_append s.toList [] hr]
      simp

end Metrology.Filter.Literal
