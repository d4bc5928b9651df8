import ScoreText.Proofs.MarkupTokens
import ScoreText.Proofs.Places

/-! The name of a command in markup is read whole, whether the command is known or not, unless it begins with
the word of the command for a score. That command ends at a boundary of words, and a hyphen is one. -/
namespace ScoreText

open Lily

/-- The first token of a scan is what a region that does not yield finds at the front. -/
theorem State.scan_head {s : State} {text : String} {k : TokenKind} {found : Found}
    (filler : s.top.region.rule.unclaimed = .fill k)
    (hit : s.top.region.at? none text.toList = some found) :
    (s.scan text 0).head? =
      some (⟨found.kind, 0, String.ofList found.lexeme⟩, s.apply found.kind found.lexeme) := by
  have some_text : text.toList ≠ [] := by
    intro empty
    rw [empty, Region.at_end] at hit
    cases hit
  have settled : s.settleAt none text.toList = s := State.settle_of_stays (.inl (Region.solid filler))
  have start : Scanner.ofText s text 0 = ⟨s, none, 0, text.toList, [], false⟩ :=
    ofText_front s text [] text.toList rfl
  have made : (s.settleAt none text.toList).top.region.Makes none text.toList ⟨found.kind, found.lexeme⟩
      found.rest := by
    rw [settled]
    exact .found hit
  obtain ⟨after, next, state, _⟩ := Scanner.next_idle some_text made
  rw [State.scan, start, Scanner.drain_some next, List.head?_cons, state, settled]

section Names

variable {name : String} {part rest : List Char} {parts : List (List Char)}

theorem first_score : (Kind.pattern .markupScore).first? ('\\' :: ("score".toList ++ rest)) =
    some ("\\score".toList, rest) := by
  rfl

theorem keep_score (before : Option Char) (rest : List Char) :
    (Kind.markupScore).keep? ⟨before, "\\score".toList, rest⟩ =
      if Site.holds Text.isAsciiWord rest.head? then none else some "\\score".toList.length := by
  have last : Site.holds Text.isAsciiWord "\\score".toList.getLast? = true := by decide
  simp only [Kind.keep?, Site.wholeIf, Site.boundaryAfter, last]
  cases Site.holds Text.isAsciiWord rest.head? <;> rfl

theorem score_at (ended : Ends Text.isAsciiWord rest) (before : Option Char) :
    (Region.lily .markup).at? before ('\\' :: ("score".toList ++ rest)) =
      some ⟨.lily .markupScore, "\\score".toList, rest⟩ := by
  have next : Site.holds Text.isAsciiWord rest.head? = false := by
    cases rest with
    | nil => rfl
    | cons c rest => exact ends_cons.mp ended
  apply Region.at_first (k := .lily .markupScore) (by rw [starters_backslash, List.head?_cons])
  refine TokenKind.at_of_first (k := .lily .markupScore) first_score ?_
  simp only [TokenKind.keep?, keep_score, next, Bool.false_eq_true, if_false]

/-- Another first word is not taken for the command for a score, also if it is longer. -/
theorem score_none (ascii : ∀ c ∈ part, c.isAlpha = true) (other : part ≠ "score".toList)
    (ends : Ends Char.isAlpha rest) (before : Option Char) :
    (TokenKind.lily .markupScore).at? before ('\\' :: (part ++ rest)) = none := by
  by_cases longer : "score".toList <+: part
  · obtain ⟨more, rfl⟩ := longer
    cases more with
    | nil => exact absurd (List.append_nil _) other
    | cons c more =>
      have word : Text.isAsciiWord c = true := by
        simp [Text.isAsciiWord, Char.isAlphanum, ascii c (by simp)]
      simp only [TokenKind.at?, TokenKind.pattern, List.append_assoc, List.cons_append, first_score,
        TokenKind.refine?, TokenKind.keep?, keep_score, List.head?_cons, Site.holds, word, if_true]
  · have apart : ¬ "\\score".toList <+: '\\' :: (part ++ rest) := by
      intro score
      exact longer (ends.begins (all_listed (by decide)) (List.cons_prefix_cons.mp score).2)
    simp only [TokenKind.at?, TokenKind.pattern, Kind.pattern, Pattern.first_text_none apart]

theorem name_at (hyphenated : Hyphenated (part :: parts)) (other : part ≠ "score".toList)
    (text : name.toList = part ++ parts.flatMap ('-' :: ·)) (parted : Parted rest) (before : Option Char) :
    (Region.lily .markup).at? before ('\\' :: (name.toList ++ rest)) =
      some ⟨if Words.isMarkupCommand name then .lily .markupCommand else .lily .markupUserCommand,
        '\\' :: name.toList, rest⟩ := by
  have score : (TokenKind.lily .markupScore).at? before ('\\' :: (name.toList ++ rest)) = none := by
    rw [text, List.append_assoc]
    exact score_none (hyphenated part List.mem_cons_self).2 other (Hyphenated.ends parted parts) before
  have whole : (Kind.pattern .markupCommand).first? ('\\' :: (name.toList ++ rest)) =
      some ('\\' :: name.toList, rest) := by
    rw [text]
    exact first_command hyphenated parted
  have user : (TokenKind.lily .markupUserCommand).at? before ('\\' :: (name.toList ++ rest)) =
      some ⟨.lily .markupUserCommand, '\\' :: name.toList, rest⟩ :=
    TokenKind.at_of_first (k := .lily .markupUserCommand) whole rfl
  rw [Region.at_eq_starters, starters_backslash]
  by_cases known : Words.isMarkupCommand name = true
  · have command : (TokenKind.lily .markupCommand).at? before ('\\' :: (name.toList ++ rest)) =
        some ⟨.lily .markupCommand, '\\' :: name.toList, rest⟩ := by
      refine TokenKind.at_of_first (k := .lily .markupCommand) whole ?_
      simp [TokenKind.keep?, Kind.keep?, Site.wholeIf, known]
    simp [score, command, known]
  · have command : (TokenKind.lily .markupCommand).at? before ('\\' :: (name.toList ++ rest)) = none := by
      simp only [TokenKind.at?, TokenKind.pattern, whole]
      simp [TokenKind.refine?, TokenKind.keep?, Kind.keep?, Site.wholeIf, known]
    simp [score, command, user, known]

/-- Whether a name begins with the word of the command for a score. -/
def beginsWithScore (name : String) : Bool :=
  (name.toList.splitOn '-').head? == some "score".toList

/-- The first token behind which markup goes on with the name of a command: the whole name, or the command
for a score. -/
theorem first_name_in_markup {s : State} (markup : s.top.region = .lily .markup)
    (hyphenated : isHyphenated name = true) :
    ((s.scan ("\\" ++ name ++ " ") 0).map (·.1)).head? =
      if beginsWithScore name then some ⟨.lily .markupScore, 0, "\\score"⟩
      else if Words.isMarkupCommand name then some ⟨.lily .markupCommand, 0, "\\" ++ name⟩
      else some ⟨.lily .markupUserCommand, 0, "\\" ++ name⟩ := by
  obtain ⟨part, parts, split, text, words⟩ := hyphenated_words hyphenated
  have filler : s.top.region.rule.unclaimed = .fill .unparsed := by rw [markup]; rfl
  have scanned : ("\\" ++ name ++ " ").toList = '\\' :: (name.toList ++ [' ']) := by
    simp
  rw [List.head?_map]
  by_cases score : part = "score".toList
  · have begins : beginsWithScore name = true := by simp [beginsWithScore, split, score]
    have ended : Ends Text.isAsciiWord (parts.flatMap ('-' :: ·) ++ [' ']) := by
      cases parts with
      | nil => simp; decide
      | cons part parts => simp; decide
    have hit := score_at ended none
    rw [← List.append_assoc, ← score, ← text, ← scanned, ← markup] at hit
    rw [State.scan_head filler hit, begins]
    rfl
  · have begins : beginsWithScore name = false := by simpa [beginsWithScore, split] using score
    have hit := name_at words score text (parted_space []) none
    rw [← scanned, ← markup] at hit
    rw [State.scan_head filler hit, begins]
    by_cases known : Words.isMarkupCommand name = true <;> simp [known]

/-- A known command of two words and an unknown one that only begins with the letters of a score. -/
theorem first_name_in_markup_apart :
    (((State.ofRegion (.lily .markup)).scan "\\with-color " 0).map (·.1)).head? =
        some ⟨.lily .markupCommand, 0, "\\with-color"⟩ ∧
      (((State.ofRegion (.lily .markup)).scan "\\scores-all " 0).map (·.1)).head? =
        some ⟨.lily .markupUserCommand, 0, "\\scores-all"⟩ := by
  have color : isHyphenated "with-color" = true := by decide +kernel
  have scores : isHyphenated "scores-all" = true := by decide +kernel
  constructor
  · have first := first_name_in_markup (s := .ofRegion (.lily .markup)) rfl color
    rw [if_neg (by decide +kernel), if_pos (by decide +kernel)] at first
    exact first
  · have first := first_name_in_markup (s := .ofRegion (.lily .markup)) rfl scores
    rw [if_neg (by decide +kernel), if_neg (by decide +kernel)] at first
    exact first

/-- A command of the tables is cut behind its first word. -/
theorem score_lines_cut : isHyphenated "score-lines" = true ∧ Words.isMarkupCommand "score-lines" = true ∧
    (((State.ofRegion (.lily .markup)).scan "\\score-lines " 0).map (·.1)).head? =
      some ⟨.lily .markupScore, 0, "\\score"⟩ := by
  refine ⟨by decide +kernel, by decide +kernel, ?_⟩
  have ended : Ends Text.isAsciiWord "-lines ".toList := ends_cons.mpr (by decide)
  have hit : (State.ofRegion (.lily .markup)).top.region.at? none "\\score-lines ".toList = _ :=
    score_at ended none
  rw [List.head?_map, State.scan_head (k := .unparsed) rfl hit]
  rfl

end Names

end ScoreText
