import ScoreText.Proofs.Fronts
import ScoreText.Proofs.MusicScan
import ScoreText.Proofs.SchemeExpression

/-! What the scanner finds at the front of each part of a Scheme expression. -/
namespace ScoreText

namespace Pattern

variable {a : Pattern} {cs x : List Char}

theorem matches_chars (h : Matches (chars cs) x) : x = cs := by
  induction cs generalizing x with
  | nil =>
    cases h with
    | run all =>
      cases x with
      | nil => rfl
      | cons c x => simpa using all c List.mem_cons_self
  | cons c cs ih =>
    cases cs with
    | nil =>
      cases h with
      | one same => simpa using same
    | cons d cs =>
      cases h with
      | seq first others =>
        rw [ih others]
        cases first with
        | one same => simpa using same

theorem first_opt (none_found : a.first? cs = none) : (opt a).first? cs = some ([], cs) := by
  rw [first?_eq_head?] at none_found ⊢
  rw [cuts, List.head?_eq_none_iff.mp none_found, List.nil_append, List.head?_cons]

end Pattern

/-- What stands behind an atom: a space, the end of a list, or nothing. -/
abbrev Delimited (rest : List Char) : Prop :=
  Ends (fun c => c != ' ' && c != ')') rest

section Behind

variable {p q : Char → Bool} {cs rest : List Char}

theorem Delimited.ends (delimited : Delimited rest) (other : p ' ' = false ∧ p ')' = false) : Ends p rest := by
  intro c first
  have known : c = ' ' ∨ c = ')' := by
    have delimits := delimited c first
    simp only [Bool.and_eq_false_iff, bne_eq_false_iff_eq] at delimits
    exact delimits
  rcases known with rfl | rfl
  · exact other.1
  · exact other.2

/-- A text of one class does not go on with a character of another class where neither the text nor what stands
behind it does. -/
theorem not_front (all : ∀ d ∈ cs, p d = true) (ends : Ends q rest) {c : Char}
    (other : p c = false ∧ q c = true) {x behind : List Char} (within : ∀ d ∈ x, q d = true) :
    x ++ c :: behind ≠ cs ++ rest := by
  intro same
  rcases List.append_eq_append_iff.mp same with ⟨more, text, rest_text⟩ | ⟨more, text, rest_text⟩
  · cases more with
    | nil =>
      have gone := ends c (by simp [show rest = c :: behind from rest_text.symm])
      simp [other.2] at gone
    | cons d more =>
      obtain rfl : c = d := (List.cons.inj rest_text).1
      have inside := all c (by simp [text])
      simp [other.1] at inside
  · cases more with
    | nil =>
      have gone := ends c (by simp [rest_text])
      simp [other.2] at gone
    | cons d more =>
      have gone := ends d (by simp [rest_text])
      simp [within d (by simp [text])] at gone

end Behind

section Letters

def asciiLetters : List Char :=
  "abcdefghijklmnopqrstuvwxyzABCDEFGHIJKLMNOPQRSTUVWXYZ".toList

theorem letter_listed {c : Char} (letter : c.isAlpha = true) : c ∈ asciiLetters := by
  have bounds : c.toNat < 123 := by
    have small : c.val ≤ 'Z'.val ∨ c.val ≤ 'z'.val := by
      have ranges : (decide ('A'.val ≤ c.val ∧ c.val ≤ 'Z'.val) ||
          decide ('a'.val ≤ c.val) && decide (c.val ≤ 'z'.val)) = true := letter
      simp only [Bool.or_eq_true, Bool.and_eq_true, decide_eq_true_eq] at ranges
      rcases ranges with upper | lower
      · exact .inl upper.2
      · exact .inr lower.2
    have high : c.toNat ≤ 90 ∨ c.toNat ≤ 122 := small
    omega
  have listed : ∀ n < 123, (Char.ofNat n).isAlpha = true → Char.ofNat n ∈ asciiLetters := by decide
  rw [← Char.ofNat_toNat c] at letter ⊢
  exact listed _ bounds letter

end Letters

section Numbers

open Lily

variable {rest : List Char}

theorem Numeral.front (n : Numeral) : ∃ c cs, n.digits = c :: cs ∧ c ∈ "0123456789".toList := by
  cases text : n.digits with
  | nil => exact absurd text n.nonempty
  | cons c cs => exact ⟨c, cs, rfl, digit_listed (n.decimal c (by simp [text]))⟩

/-- A sign in front of anything but a bracket is one for Scheme. -/
theorem scheme_sign_at {r : Lily.Region} {c : Char} {cs : List Char}
    (first : ((Region.lily r).starters '#').head? = some (.lily .schemeStart))
    (no_bracket : "\x7b\x7d".toList.contains c = false) (before : Option Char) :
    (Region.lily r).at? before ('#' :: c :: cs) = some ⟨.lily .schemeStart, ['#'], c :: cs⟩ := by
  apply Region.at_first first
  apply TokenKind.at_of_first
  · exact Pattern.first_one rfl
  · simp only [TokenKind.keep?, Kind.keep?, List.head?_cons, Site.holds, no_bracket]
    rfl

theorem Numeral.no_minus (n : Numeral) : (Pattern.char '-').first? (n.digits ++ rest) = none := by
  have other : ∀ c ∈ "0123456789".toList, (c == '-') = false := all_listed (by decide)
  obtain ⟨c, cs, text, digit⟩ := n.front
  simp [text, Pattern.char, Pattern.first?, Pattern.matchThen, other c digit]

theorem digits_decimal {x : List Char} (h : Pattern.Matches .digits x) : ∀ c ∈ x, Text.isDecimal c = true := by
  cases h with
  | seq first others =>
    cases first with
    | one decimal =>
      cases others with
      | run all => simpa [decimal] using all

/-- A signed number does not go on at a character other than a digit. -/
theorem Numeral.no_signed (n : Numeral) (delimited : Delimited rest) {c : Char}
    (sign : c.isDigit = false ∧ (c != ' ' && c != ')') = true) {a x front : List Char}
    (minus : Pattern.Matches (.opt (.char '-')) a)
    (decimal : ∀ d ∈ x, Text.isDecimal d = true) (text : ∃ y, front = a ++ (x ++ c :: y)) (back : List Char) :
    front ++ back ≠ n.digits ++ rest := by
  intro same
  obtain ⟨y, rfl⟩ := text
  cases minus with
  | skip =>
    have behind : x ++ c :: (y ++ back) = n.digits ++ rest := by simpa using same
    have undelimited : ∀ d ∈ x, (d != ' ' && d != ')') = true := by
      intro d member
      have digit := decimal d member
      simp only [Bool.and_eq_true, bne_iff_ne, ne_eq]
      constructor
      · rintro rfl
        exact absurd digit (by decide)
      · rintro rfl
        exact absurd digit (by decide)
    exact not_front n.decimal delimited sign undelimited behind
  | once hyphen =>
    cases hyphen with
    | one hyphen =>
      obtain ⟨d, ds, text, digit⟩ := n.front
      have other : ∀ c ∈ "0123456789".toList, c ≠ '-' := all_listed (by decide)
      rw [text] at same
      exact other d digit ((List.cons.inj same).1.symm.trans (by simpa using hyphen))

theorem no_fraction_at (n : Numeral) (delimited : Delimited rest) (before : Option Char) :
    (TokenKind.scheme .fraction).at? before (n.digits ++ rest) = none := by
  refine TokenKind.at_none_of before fun front behind whole taken => ?_
  cases taken with
  | seq minus number =>
    cases number with
    | seq digits slash =>
      cases slash with
      | seq slash counted =>
        cases slash with
        | one slash =>
          obtain rfl := beq_iff_eq.mp slash
          exact absurd whole (n.no_signed delimited (by decide) minus (digits_decimal digits) ⟨_, rfl⟩ _)

theorem no_float_at (n : Numeral) (delimited : Delimited rest) (before : Option Char) :
    (TokenKind.scheme .float).at? before (n.digits ++ rest) = none := by
  refine TokenKind.at_none_of before fun front behind whole taken => ?_
  cases taken with
  | seq minus number =>
    cases number with
    | seq mantissa exponent =>
      cases mantissa with
      | left decimal =>
        cases decimal with
        | seq digits point =>
          cases point with
          | seq point digits_behind =>
            cases point with
            | one point =>
              obtain rfl := beq_iff_eq.mp point
              exact absurd whole (n.no_signed (c := '.') delimited (by decide) minus
                (digits_decimal digits) ⟨_, by simp; rfl⟩ _)
      | right decimal =>
        cases decimal with
        | seq point digits =>
          cases point with
          | one point =>
            obtain rfl := beq_iff_eq.mp point
            exact absurd whole (n.no_signed (c := '.') (x := []) delimited (by decide) minus
              (by simp) ⟨_, by simp; rfl⟩ _)

theorem number_at (n : Numeral) (delimited : Delimited rest) (before : Option Char) :
    (Region.scheme .expression).at? before (n.digits ++ rest) =
      some ⟨.scheme .number, n.digits, rest⟩ := by
  have number : (TokenKind.scheme .number).at? before (n.digits ++ rest) =
      some ⟨.scheme .number, n.digits, rest⟩ := by
    apply TokenKind.at_of_first
    · apply Pattern.first_left
      apply Pattern.first_seq (x := []) (Pattern.first_opt n.no_minus)
      exact Pattern.first_oneOrMore n.nonempty (fun c member => isDecimal_of_isDigit (n.decimal c member))
        (delimited.ends (by decide))
    · cases rest with
      | nil => rfl
      | cons c rest =>
        have delimiter : (c == ')' || Text.isBlank c) = true := by
          have ends := delimited.ends (p := fun c => !(c == ')' || Text.isBlank c)) (by decide) c rfl
          simpa only [Bool.not_eq_eq_eq_not, Bool.not_false] using ends
        simp only [TokenKind.keep?, Scheme.Kind.keep?, List.head?_cons, delimiter]
        rfl
  have starters : ∀ c ∈ "0123456789".toList, ((Region.scheme .expression).starters c).take 3 =
      [.scheme .fraction, .scheme .float, .scheme .number] := all_listed (by decide)
  obtain ⟨c, cs, text, digit⟩ := n.front
  have fraction := no_fraction_at n delimited before
  have float := no_float_at n delimited before
  rw [text] at number fraction float ⊢
  rw [List.cons_append, Region.at_eq_starters, ← List.take_append_drop 3 ((Region.scheme .expression).starters c),
    starters c digit]
  simp only [List.cons_append] at number fraction float
  simp [number, fraction, float]

end Numbers

section Parts

variable {rest : List Char}

/-- The kinds of words. Tables tell them apart. -/
def wordKinds : List Scheme.Kind :=
  [.constantName, .keyword, .functionName, .variableName, .word]

/-- What the tables make of a word. -/
def Word.kind (w : Word) : Scheme.Kind :=
  let name := String.ofList w.letters
  if Scheme.Words.constants.contains name then .constantName
  else if Scheme.Words.keywords.contains name then .keyword
  else if Scheme.Words.functions.contains name then .functionName
  else if Scheme.Words.knownVariables.contains name then .variableName
  else .word

theorem Word.kind_listed (w : Word) : w.kind ∈ wordKinds := by
  rw [kind]
  split_ifs <;> decide

/-- The only number that begins with a letter has a point in it. -/
theorem no_number_at (w : Word) (delimited : Delimited rest) (before : Option Char) :
    (TokenKind.scheme .number).at? before (w.letters ++ rest) = none := by
  refine TokenKind.at_none_of before fun front behind whole taken => ?_
  have long : 0 < front.length := Nat.lt_of_lt_of_le (by decide) (Pattern.least_le_length taken)
  have first : front.head? = some 'n' := by
    have only : ∀ c ∈ asciiLetters, (TokenKind.scheme .number).pattern.begins c = true → c = 'n' :=
      all_listed (by decide)
    cases front with
    | nil => simp at long
    | cons c more =>
      obtain ⟨d, ds, text⟩ := List.exists_cons_of_ne_nil w.nonempty
      rw [text] at whole
      obtain rfl : c = d := (List.cons.inj whole).1
      have letter := letter_listed (w.ascii c (by simp [text]))
      simp [only c letter (Pattern.begins_of_match taken)]
  have apart : ∀ a : Pattern, a.begins 'n' = false → ¬ Pattern.Matches a front := by
    intro a other matched
    obtain ⟨more, rfl⟩ := List.head?_eq_some_iff.mp first
    simp [Pattern.begins_of_match matched] at other
  cases taken with
  | left signed => exact absurd signed (apart _ rfl)
  | right taken =>
    cases taken with
    | left based => exact absurd based (apart _ rfl)
    | right taken =>
      cases taken with
      | left infinite => exact absurd infinite (apart _ rfl)
      | right taken =>
        cases taken with
        | seq sign nan =>
          rw [Pattern.matches_chars nan] at whole first
          cases sign with
          | skip =>
            exact absurd whole (not_front (x := "nan".toList) (c := '.') w.ascii delimited
              ⟨rfl, rfl⟩ (all_listed (by decide)))
          | once sign =>
            cases sign with
            | one sign =>
              obtain rfl := Option.some.inj first
              exact absurd sign (by decide)

theorem scheme_word_at (w : Word) (delimited : Delimited rest) (before : Option Char) :
    (Region.scheme .expression).at? before (w.letters ++ rest) = some ⟨.scheme w.kind, w.letters, rest⟩ := by
  have plain : ∀ c ∈ asciiLetters, (!("()\"\x7b\x7d".toList.contains c || Text.isBlank c)) = true :=
    all_listed (by decide)
  have taken : (TokenKind.scheme .word).pattern.first? (w.letters ++ rest) = some (w.letters, rest) :=
    Pattern.first_oneOrMore w.nonempty (fun c member => plain c (letter_listed (w.ascii c member)))
      (delimited.ends (by decide))
  have either (k : Scheme.Kind) (listed : Bool)
      (pattern : (TokenKind.scheme k).pattern = (TokenKind.scheme .word).pattern)
      (kept : (TokenKind.scheme k).keep? ⟨before, w.letters, rest⟩ =
        if listed then some w.letters.length else none) :
      (TokenKind.scheme k).at? before (w.letters ++ rest) =
        if listed then some ⟨.scheme k, w.letters, rest⟩ else none := by
    rw [TokenKind.at?, pattern, taken]
    cases listed <;> simp [TokenKind.refine?, kept]
  have first : (wordKinds.map TokenKind.scheme).findSome? (·.at? before (w.letters ++ rest)) =
      some ⟨.scheme w.kind, w.letters, rest⟩ := by
    simp only [wordKinds, List.map_cons, List.map_nil, List.findSome?_cons, either .constantName _ rfl rfl,
      either .keyword _ rfl rfl, either .functionName _ rfl rfl, either .variableName _ rfl rfl,
      either .word true rfl rfl, Word.kind]
    split_ifs <;> rfl
  have starters : ∀ c ∈ asciiLetters,
      (Region.scheme .expression).starters c = wordKinds.map .scheme ∨
      (Region.scheme .expression).starters c = .scheme .number :: wordKinds.map .scheme :=
    all_listed (by decide)
  have no_number := no_number_at w delimited before
  obtain ⟨c, cs, text⟩ := List.exists_cons_of_ne_nil w.nonempty
  have letter := letter_listed (w.ascii c (by simp [text]))
  rw [text, List.cons_append] at first no_number ⊢
  rw [Region.at_eq_starters]
  rcases starters c letter with only | number
  · rw [only, first]
  · rw [number, List.findSome?_cons, no_number, first]

theorem scheme_quote_at (before : Option Char) :
    (Region.scheme .expression).at? before ('\'' :: rest) = some ⟨.scheme .quote, ['\''], rest⟩ := by
  apply Region.at_first (k := .scheme .quote) rfl
  exact TokenKind.at_of_first (Pattern.first_one rfl) rfl

theorem open_paren_at (before : Option Char) :
    (Region.scheme .expression).at? before ('(' :: rest) = some ⟨.scheme .openParen, ['('], rest⟩ := by
  apply Region.at_first (k := .scheme .openParen) rfl
  exact TokenKind.at_of_first (Pattern.first_one rfl) rfl

theorem close_paren_at (before : Option Char) :
    (Region.scheme .expression).at? before (')' :: rest) = some ⟨.scheme .closeParen, [')'], rest⟩ := by
  apply Region.at_first (k := .scheme .closeParen) rfl
  exact TokenKind.at_of_first (Pattern.first_one rfl) rfl

theorem scheme_string_at (before : Option Char) :
    (Region.scheme .expression).at? before ('"' :: rest) =
      some ⟨.scheme .stringQuotedStart, ['"'], rest⟩ := by
  apply Region.at_first (k := .scheme .stringQuotedStart) rfl
  exact TokenKind.at_of_first (Pattern.first_one rfl) rfl

end Parts

end ScoreText
