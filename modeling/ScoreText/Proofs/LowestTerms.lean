import Mathlib.Data.List.TakeDrop
import Mathlib.Data.List.TakeWhile
import Mathlib.Data.Rat.Lemmas
import Mathlib.Tactic.Linarith
import ScoreText.Time.Fraction

/-! Fractions as written, brought to lowest terms on words. The computation comes to the exact value
wherever that one fits. It leaves the words where a negative number below the slash would have to
change its sign and the value does not fit, which nothing provides for. -/
namespace ScoreText.Fraction

open Text

variable {n d : Int}

section Words

theorem word_eq (n_word : isWord64 n) : word n = .ok n :=
  if_pos n_word

theorem two_words (a b : Int) :
    (do let a ← word a; let b ← word b; .ok (a, b)) =
      if isWord64 a && isWord64 b then Except.ok (a, b) else .error .overflow := by
  unfold word
  cases isWord64 a <;> cases isWord64 b <;> rfl

theorem isWord64_ediv (n_word : isWord64 n) {g : Int} (positive : 0 < g) (divides : g ∣ n) :
    isWord64 (n / g) := by
  obtain ⟨a, rfl⟩ := divides
  rw [Int.mul_ediv_cancel_left a (Int.ne_of_gt positive)]
  rw [isWord64_iff] at n_word ⊢
  constructor <;> nlinarith

/-- Only the least word has a divisor that is no word, so different words have none in common. -/
theorem isWord64_gcd (n_word : isWord64 n) (d_word : isWord64 d) (n_zero : n ≠ 0) (d_zero : d ≠ 0)
    (other : n ≠ d) : isWord64 (n.gcd d : Int) := by
  have n_le : n.gcd d ≤ n.natAbs := Nat.gcd_le_left _ (Int.natAbs_pos.mpr n_zero)
  have d_le : n.gcd d ≤ d.natAbs := Nat.gcd_le_right _ (Int.natAbs_pos.mpr d_zero)
  rw [isWord64_iff] at *
  omega

end Words

section Lowest

/-- Above a positive number the lowest terms are found by division. -/
theorem terms_of_pos (positive : 0 < d) :
    (ofInts n d).num = n / n.gcd d ∧ ((ofInts n d).den : Int) = d / n.gcd d := by
  constructor
  · rw [ofInts, Rat.num_divInt, Int.sign_eq_one_of_pos positive, Int.one_mul, Int.gcd_comm]
  · rw [ofInts, Rat.den_divInt, if_neg (Int.ne_of_gt positive)]
    rw [Int.natCast_ediv, Int.natAbs_of_nonneg (Int.le_of_lt positive), Int.gcd_comm]

theorem terms_of_neg (negative : d < 0) :
    (ofInts n d).num = -(n / n.gcd d) ∧ ((ofInts n d).den : Int) = -(d / n.gcd d) := by
  have turned : ofInts n d = ofInts (-n) (-d) := by
    rw [ofInts, ofInts, Rat.divInt_neg, Int.neg_neg]
  obtain ⟨num, den⟩ := terms_of_pos (n := -n) (Int.neg_pos_of_neg negative)
  rw [turned, num, den, Int.gcd_neg, Int.neg_gcd]
  exact ⟨Int.neg_ediv_of_dvd (Int.gcd_dvd_left ..), Int.neg_ediv_of_dvd (Int.gcd_dvd_right ..)⟩

/-- The computation on words comes to the lowest terms if these fit. -/
theorem lowest_eq (n_word : isWord64 n) (d_word : isWord64 d) (zero : d ≠ 0) :
    lowest n d =
      if fits (ofInts n d) then .ok ((ofInts n d).num, ((ofInts n d).den : Int)) else .error .overflow := by
  by_cases n_zero : n = 0
  · subst n_zero
    have value : ofInts 0 d = 0 := Rat.zero_divInt d
    rw [lowest, if_pos rfl, value]
    rfl
  by_cases same : n = d
  · subst same
    have value : ofInts n n = 1 := Rat.divInt_self' zero
    rw [lowest, if_neg n_zero, if_pos rfl, value]
    rfl
  -- from here on the divisor and both quotients are words, so only the change of sign can leave them
  have divisor := isWord64_gcd n_word d_word n_zero zero same
  have positive : (0 : Int) < n.gcd d := Int.natCast_pos.mpr (Int.gcd_pos_of_ne_zero_left _ n_zero)
  have a_word := isWord64_ediv n_word positive (Int.gcd_dvd_left ..)
  have b_word := isWord64_ediv d_word positive (Int.gcd_dvd_right ..)
  have reduced : lowest n d =
      if d / n.gcd d < 0 then do
        let a ← word (-(n / n.gcd d))
        let b ← word (-(d / n.gcd d))
        .ok (a, b)
      else .ok (n / n.gcd d, d / n.gcd d) := by
    rw [lowest, if_neg n_zero, if_neg same, word_eq divisor]
    show (word (n / n.gcd d) >>= fun a => word (d / n.gcd d) >>= fun b => _) = _
    rw [word_eq a_word, word_eq b_word]
    rfl
  rw [reduced]
  rcases Int.lt_or_gt_of_ne zero with negative | above
  · obtain ⟨num, den⟩ := terms_of_neg (n := n) negative
    rw [if_pos (Int.ediv_neg_of_neg_of_pos negative positive), two_words, fits, num, den]
  · obtain ⟨num, den⟩ := terms_of_pos (n := n) above
    have kept : ¬ d / n.gcd d < 0 := Int.not_lt.mpr (Int.ediv_nonneg (Int.le_of_lt above) (Int.le_of_lt positive))
    rw [if_neg kept, fits, num, den, a_word, b_word]
    rfl

/-- Lowest terms that do not fit come from a negative number below the slash. -/
theorem neg_of_not_fits (n_word : isWord64 n) (d_word : isWord64 d) (zero : d ≠ 0)
    (outside : ¬ fits (ofInts n d)) : d < 0 := by
  by_contra above
  have positive : 0 < d := Int.lt_iff_le_and_ne.mpr ⟨Int.not_lt.mp above, zero.symm⟩
  have divisor : (0 : Int) < n.gcd d := Int.natCast_pos.mpr (Int.gcd_pos_of_ne_zero_right _ zero)
  obtain ⟨num, den⟩ := terms_of_pos (n := n) positive
  apply outside
  rw [fits, num, den, isWord64_ediv n_word divisor (Int.gcd_dvd_left ..),
    isWord64_ediv d_word divisor (Int.gcd_dvd_right ..)]
  rfl

end Lowest

section Written

variable {text : String}

/-- The two words that a text writes as a fraction: those in front of the first slash and behind it, or
the only one, over 1. -/
inductive Writes (text : String) : Int → Int → Prop
  | ratio {a b : List Char} {n d : Int} : text.toList = a ++ '/' :: b → '/' ∉ a →
      int64? (trim a) = some n → int64? (trim b) = some d → Writes text n d
  | whole {n : Int} : '/' ∉ text.toList → int64? (trim text.toList) = some n → Writes text n 1

theorem splitSlash_append {a : List Char} (plain : '/' ∉ a) (b : List Char) :
    splitSlash (a ++ '/' :: b) = some (a, b) := by
  have front : ∀ c ∈ a, (c != '/') = true := fun c member => bne_iff_ne.mpr fun same => plain (same ▸ member)
  simp [splitSlash, List.span_eq_takeWhile_dropWhile, List.takeWhile_append_of_pos front,
    List.dropWhile_append_of_pos front]

theorem splitSlash_plain {cs : List Char} (plain : '/' ∉ cs) : splitSlash cs = none := by
  have all : ∀ c ∈ cs, (c != '/') = true := fun c member => bne_iff_ne.mpr fun same => plain (same ▸ member)
  have rest : cs.dropWhile (· != '/') = [] := List.dropWhile_eq_nil_iff.mpr all
  simp [splitSlash, List.span_eq_takeWhile_dropWhile, rest]

theorem written_iff : written? text = some (n, d) ↔ Writes text n d := by
  unfold written?
  by_cases slash : '/' ∈ text.toList
  · obtain ⟨a, b, cut, plain⟩ := List.eq_append_cons_of_mem slash
    rw [cut, splitSlash_append plain]
    constructor
    · intro read
      obtain ⟨n', above, read⟩ := Option.bind_eq_some_iff.mp read
      obtain ⟨d', below, same⟩ := Option.bind_eq_some_iff.mp read
      cases same
      exact .ratio cut plain above below
    · intro writes
      cases writes with
      | ratio other front above below =>
        have pieces := (splitSlash_append plain b).symm.trans (cut ▸ other ▸ splitSlash_append front _)
        cases pieces
        simp [above, below]
      | whole none => exact absurd slash none
  · rw [splitSlash_plain slash]
    constructor
    · intro read
      obtain ⟨n', only, same⟩ := Option.map_eq_some_iff.mp read
      cases same
      exact .whole slash only
    · intro writes
      cases writes with
      | ratio cut => exact absurd (by simp [cut]) slash
      | whole _ only => simp [only]

theorem Writes.words (writes : Writes text n d) : isWord64 n ∧ isWord64 d := by
  cases writes with
  | ratio _ _ above below => exact ⟨(Option.filter_eq_some_iff.mp above).2, (Option.filter_eq_some_iff.mp below).2⟩
  | whole _ only => exact ⟨(Option.filter_eq_some_iff.mp only).2, rfl⟩

theorem Writes.read_eq (writes : Writes text n d) :
    read text =
      if d = 0 then .ok none
      else if fits (ofInts n d) then .ok (some (ofInts n d)) else .error .overflow := by
  rw [read, written_iff.mpr writes]
  by_cases zero : d = 0
  · simp [zero]
  · have value : ofInts (ofInts n d).num (ofInts n d).den = ofInts n d := Rat.num_divInt_den _
    simp only [zero, if_false, lowest_eq writes.words.1 writes.words.2 zero]
    split
    · simp only [Except.map, value]
    · rfl

theorem read_none (nothing : ∀ n d, ¬ Writes text n d) : read text = .ok none := by
  have unread : written? text = none := Option.eq_none_iff_forall_ne_some.mpr fun p written =>
    nothing p.1 p.2 (written_iff.mp written)
  rw [read, unread]

theorem Writes.unique {n' d' : Int} (writes : Writes text n d) (other : Writes text n' d') :
    n = n' ∧ d = d' :=
  Prod.mk.inj (Option.some.inj ((written_iff.mpr writes).symm.trans (written_iff.mpr other)))

theorem Writes.exists_iff (writes : Writes text n d) {P : Int → Int → Prop} :
    (∃ n' d', Writes text n' d' ∧ P n' d') ↔ P n d := by
  constructor
  · rintro ⟨n', d', other, holds⟩
    obtain ⟨rfl, rfl⟩ := writes.unique other
    exact holds
  · exact fun holds => ⟨n, d, writes, holds⟩

theorem Writes.forall_iff (writes : Writes text n d) {P : Int → Int → Prop} :
    (∀ n' d', Writes text n' d' → P n' d') ↔ P n d := by
  constructor
  · exact fun holds => holds n d writes
  · intro holds n' d' other
    obtain ⟨rfl, rfl⟩ := writes.unique other
    exact holds

/-- What a text is read as. Nothing is read from a text that writes no two words, or a zero below the
slash. Any other text is read as the exact value in lowest terms, with both terms in their range, or it
leaves the words. That happens exactly where the number below is negative and the value does not fit. -/
theorem read_in_words (text : String) :
    (read text = .ok none ↔ ∀ n d, Writes text n d → d = 0) ∧
    (∀ q, read text = .ok (some q) → ∃ n d, Writes text n d ∧ d ≠ 0 ∧ q = (n : Fraction) / d ∧
      lowest n d = .ok (q.num, (q.den : Int)) ∧ q.num.natAbs.Coprime q.den ∧ 0 < q.den ∧ q.fits) ∧
    (read text = .error .overflow ↔
      ∃ n d, Writes text n d ∧ d < 0 ∧ ¬ fits ((n : Fraction) / d)) := by
  have quotient {n d : Int} : (n : Fraction) / d = ofInts n d := (Rat.divInt_eq_div n d).symm
  by_cases written : ∃ n d, Writes text n d
  · obtain ⟨n, d, writes⟩ := written
    simp only [writes.exists_iff, writes.forall_iff, quotient, writes.read_eq]
    by_cases zero : d = 0
    · simp [zero]
    · by_cases inside : fits (ofInts n d)
      · simp only [zero, inside, if_true, if_false]
        refine ⟨by simp, fun q same => ?_, by simp⟩
        cases same
        have terms := lowest_eq writes.words.1 writes.words.2 zero
        rw [if_pos inside] at terms
        exact ⟨zero, rfl, terms, (ofInts n d).reduced, (ofInts n d).den_pos, inside⟩
      · simp [zero, inside, neg_of_not_fits writes.words.1 writes.words.2 zero inside]
  · have nothing : ∀ n d, ¬ Writes text n d := fun n d writes => written ⟨n, d, writes⟩
    simp [read_none nothing, nothing]

/-- The least word cannot stand below the slash: the value has lowest terms that do not fit, and instead
of nothing there is an overflow. -/
theorem least_word_below :
    Writes "1/-9223372036854775808" 1 (-9223372036854775808) ∧
    ¬ fits ((1 : Int) / (-9223372036854775808 : Int) : Fraction) ∧
    read "1/-9223372036854775808" ≠ .ok none ∧
    (∀ q, read "1/-9223372036854775808" ≠ .ok (some q)) ∧
    lowest 1 (-9223372036854775808) = .error .overflow := by
  have writes : Writes "1/-9223372036854775808" 1 (-9223372036854775808) :=
    written_iff.mp (by decide +kernel)
  have overflows : read "1/-9223372036854775808" = .error .overflow := by decide +kernel
  exact ⟨writes, by decide +kernel, by simp [overflows], by simp [overflows], by decide +kernel⟩

end Written

end ScoreText.Fraction
