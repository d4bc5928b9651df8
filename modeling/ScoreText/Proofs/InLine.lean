import Mathlib.Data.List.Basic
import ScoreText.Proofs.Matches

/-! Patterns that stay in the line. They find in a line what they find in the whole text: a match does
not read over the line end, so that text behind the line only makes the rests longer. -/
namespace ScoreText.Pattern

/-- Whether no match holds a line end, and every repetition takes text. -/
def staysInLine : Pattern → Bool
  | never => true
  | one p | run p => !p '\n'
  | seq a b | alt a b => a.staysInLine && b.staysInLine
  | opt a => a.staysInLine
  | many a => a.staysInLine && decide (1 ≤ a.least)

theorem no_line_end {p : Pattern} (stays : p.staysInLine = true) {x : List Char}
    (h : Matches p x) : '\n' ∉ x := by
  induction h with
  | @one p c hc =>
    intro member
    simp only [staysInLine, List.mem_singleton.mp member ▸ hc] at stays
    cases stays
  | run hp =>
    intro member
    simp only [staysInLine, hp _ member] at stays
    cases stays
  | seq _ _ iha ihb =>
    simp only [staysInLine, Bool.and_eq_true] at stays
    simp [iha stays.1, ihb stays.2]
  | left _ ih =>
    simp only [staysInLine, Bool.and_eq_true] at stays
    exact ih stays.1
  | right _ ih =>
    simp only [staysInLine, Bool.and_eq_true] at stays
    exact ih stays.2
  | skip | stop => exact List.not_mem_nil
  | once _ ih => exact ih stays
  | again _ _ iha ihb =>
    have inner := stays
    simp only [staysInLine, Bool.and_eq_true] at inner
    simp [iha inner.1, ihb stays]

/-- Puts text behind the rest of a cut. -/
def Cut.extend (r : List Char) (cut : Cut) : Cut :=
  (cut.1, cut.2 ++ r)

theorem extend_nil : Cut.extend [] = id := by
  funext cut
  simp [Cut.extend]

theorem thenCuts_congr {a b other : List Char → List Cut} {cs : List Char}
    (same : ∀ cut ∈ a cs, b cut.2 = other cut.2) : thenCuts a b cs = thenCuts a other cs := by
  apply List.flatMap_congr
  intro cut hc
  simp only [same cut hc]

/-- One match and then another, when both only let the text behind pass. -/
theorem thenCuts_extend {a b other : List Char → List Cut} {cs r : List Char}
    (first : a (cs ++ r) = (a cs).map (Cut.extend r))
    (second : ∀ cut ∈ a cs, b (cut.2 ++ r) = (other cut.2).map (Cut.extend r)) :
    thenCuts a b (cs ++ r) = (thenCuts a other cs).map (Cut.extend r) := by
  rw [thenCuts, thenCuts, first, List.flatMap_map, List.map_flatMap]
  apply List.flatMap_congr
  intro cut hc
  simp only [Cut.extend, second cut hc, List.map_map]
  rfl

theorem shorter_rest {p : Pattern} (positive : 1 ≤ p.least) {cs : List Char} {cut : Cut}
    (h : cut ∈ p.cuts cs) : cut.2.length < cs.length := by
  obtain ⟨whole, taken⟩ := mem_cuts h
  have long := least_le_length taken
  have size := congrArg List.length whole
  rw [List.length_append] at size
  omega

theorem manyCuts_nil {p : Pattern} (positive : 1 ≤ p.least) (limit : List Char) :
    manyCuts p.cuts limit [] = [([], [])] := by
  cases limit with
  | nil => rfl
  | cons c limit =>
    have nothing : p.cuts [] = [] := by
      apply List.eq_nil_iff_forall_not_mem.mpr
      intro cut hc
      exact absurd (shorter_rest positive hc) (Nat.not_lt_zero _)
    simp only [manyCuts, thenCuts, nothing, List.flatMap_nil, List.nil_append]

/-- More repetitions than there are characters make no difference. -/
theorem manyCuts_enough {p : Pattern} (positive : 1 ≤ p.least) {cs limit : List Char}
    (enough : cs.length ≤ limit.length) : manyCuts p.cuts limit cs = manyCuts p.cuts cs cs := by
  induction size : cs.length using Nat.strongRecOn generalizing cs limit with
  | ind n ih =>
    cases cs with
    | nil => rw [manyCuts_nil positive, manyCuts_nil positive]
    | cons c cs =>
      cases limit with
      | nil => cases enough
      | cons d limit =>
        have same : ∀ cut ∈ p.cuts (c :: cs),
            manyCuts p.cuts limit cut.2 = manyCuts p.cuts cs cut.2 := by
          intro cut hc
          have shorter := shorter_rest positive hc
          simp only [List.length_cons] at enough shorter size
          have first : manyCuts p.cuts limit cut.2 = manyCuts p.cuts cut.2 cut.2 :=
            ih _ (by omega) (by omega) rfl
          have second : manyCuts p.cuts cs cut.2 = manyCuts p.cuts cut.2 cut.2 :=
            ih _ (by omega) (by omega) rfl
          exact first.trans second.symm
        rw [manyCuts, manyCuts, thenCuts_congr same]

theorem runCuts_extend {p : Char → Bool} (stays : p '\n' = false) {cs r : List Char}
    (ended : r = [] ∨ '\n' ∈ cs) : runCuts p (cs ++ r) = (runCuts p cs).map (Cut.extend r) := by
  rcases ended with rfl | ended
  · simp [extend_nil]
  · induction cs with
    | nil => cases ended
    | cons c cs ih =>
      rw [List.cons_append, runCuts, runCuts]
      by_cases hc : p c = true
      · have later : '\n' ∈ cs := by
          rcases List.mem_cons.mp ended with rfl | later
          · rw [stays] at hc
            cases hc
          · exact later
        simp only [hc, if_true, ih later, List.map_append, List.map_map]
        rfl
      · simp only [hc, Bool.false_eq_true, if_false]
        rfl

/-- Behind a match that stays in the line, the line goes on to its end. -/
theorem rest_ended {p : Pattern} (stays : p.staysInLine = true) {cs r : List Char}
    (ended : r = [] ∨ '\n' ∈ cs) {cut : Cut} (h : cut ∈ p.cuts cs) : r = [] ∨ '\n' ∈ cut.2 := by
  obtain ⟨whole, taken⟩ := mem_cuts h
  rcases ended with none | ended
  · exact .inl none
  · rw [← whole] at ended
    rcases List.mem_append.mp ended with inside | behind
    · exact absurd inside (no_line_end stays taken)
    · exact .inr behind

/-- A pattern that stays in the line cuts the line as it cuts the whole text. -/
theorem cuts_extend {p : Pattern} (stays : p.staysInLine = true) {cs r : List Char}
    (ended : r = [] ∨ '\n' ∈ cs) : p.cuts (cs ++ r) = (p.cuts cs).map (Cut.extend r) := by
  induction p generalizing cs with
  | never => rfl
  | one p =>
    cases cs with
    | nil =>
      rcases ended with rfl | ended
      · rfl
      · cases ended
    | cons c cs =>
      simp only [List.cons_append, cuts]
      split <;> rfl
  | run p => exact runCuts_extend (by simpa [staysInLine] using stays) ended
  | seq a b iha ihb =>
    simp only [staysInLine, Bool.and_eq_true] at stays
    apply thenCuts_extend (iha stays.1 ended)
    intro cut hc
    exact ihb stays.2 (rest_ended stays.1 ended hc)
  | alt a b iha ihb =>
    simp only [staysInLine, Bool.and_eq_true] at stays
    rw [cuts, cuts, List.map_append, iha stays.1 ended, ihb stays.2 ended]
  | opt a iha =>
    rw [cuts, cuts, List.map_append, iha stays ended]
    rfl
  | many a iha =>
    simp only [staysInLine, Bool.and_eq_true, decide_eq_true_eq] at stays
    -- the induction is on the number of repetitions; each leaves a rest that ends in the line or with the text
    have same : ∀ limit, manyCuts a.cuts limit (cs ++ r) =
        (manyCuts a.cuts limit cs).map (Cut.extend r) := by
      intro limit
      induction limit generalizing cs with
      | nil => rfl
      | cons c limit ih =>
        rw [manyCuts, manyCuts, List.map_append, thenCuts_extend (iha stays.1 ended)]
        · rfl
        · intro cut hc
          exact ih (rest_ended stays.1 ended hc)
    rw [cuts, cuts, same, manyCuts_enough stays.2 (by simp)]

theorem first_extend {p : Pattern} (stays : p.staysInLine = true) {cs r : List Char}
    (ended : r = [] ∨ '\n' ∈ cs) : p.first? (cs ++ r) = (p.first? cs).map (Cut.extend r) := by
  rw [first?_eq_head?, first?_eq_head?, cuts_extend stays ended, List.head?_map]

end ScoreText.Pattern
