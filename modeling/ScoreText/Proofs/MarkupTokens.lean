import ScoreText.Proofs.SchemeTokens

/-! What the scanner finds at the front of each part of a markup expression. Behind a part there is a space
or the end of the text. -/
namespace ScoreText

open Lily

namespace Pattern

variable {a : Pattern} {cs rest last x y : List Char}

theorem first_text_none {s : String} (other : ¬ s.toList <+: cs) : (text s).first? cs = none := by
  refine first_none fun x y whole taken => other ?_
  rw [matches_chars taken] at whole
  exact ⟨y, whole⟩

/-- Parts that a pattern finds one after the other, up to a rest at which it finds nothing. -/
inductive Repeats (a : Pattern) : List Char → List Char → Prop
  | stop {rest : List Char} : a.cuts rest = [] → Repeats a [] rest
  | again {x y rest : List Char} : x ≠ [] → a.first? (x ++ (y ++ rest)) = some (x, y ++ rest) →
      Repeats a y rest → Repeats a (x ++ y) rest

theorem Repeats.cuts (repeats : Repeats a x rest) (limit : List Char) (long : x.length ≤ limit.length) :
    (manyCuts a.cuts limit (x ++ rest)).head? = some (x, rest) := by
  induction repeats generalizing limit with
  | @stop rest none_left =>
    cases limit with
    | nil => rfl
    | cons _ limit => simp [manyCuts, thenCuts, none_left]
  | @again x y rest nonempty found _ ih =>
    have positive := List.length_pos_iff.mpr nonempty
    rw [List.length_append] at long
    cases limit with
    | nil =>
      rw [List.length_nil] at long
      omega
    | cons _ limit =>
      rw [List.length_cons] at long
      obtain ⟨more, later⟩ := List.head?_eq_some_iff.mp (ih limit (by omega))
      rw [first?_eq_head?] at found
      obtain ⟨others, front⟩ := List.head?_eq_some_iff.mp found
      simp [manyCuts, thenCuts, front, later, Cut.after]

theorem first_many (repeats : Repeats a x rest) : (many a).first? (x ++ rest) = some (x, rest) := by
  rw [first?_eq_head?]
  exact repeats.cuts _ (by simp)

end Pattern

/-- What stands behind a part: a space, or nothing. -/
abbrev Parted (rest : List Char) : Prop :=
  Ends (· != ' ') rest

section Parted

variable {p : Char → Bool} {rest : List Char}

theorem Parted.ends (parted : Parted rest) (other : p ' ' = false) : Ends p rest := by
  intro c first
  have space : c = ' ' := by simpa using parted c first
  rw [space, other]

theorem Parted.delimited (parted : Parted rest) : Delimited rest :=
  parted.ends rfl

theorem parted_nil : Parted [] := by
  simp [Ends]

theorem parted_space (cs : List Char) : Parted (' ' :: cs) := by
  simp

end Parted

section Commands

/-- The names of all commands of markup. -/
def markupNames : List String :=
  Words.markupCommands0 ++ Words.markupCommands1 ++ Words.markupCommands2 ++ Words.markupCommands3 ++
    Words.markupCommands4 ++ Words.markupCommands5 ++ Words.markupListCommands

theorem name_listed {name : String} (known : Words.isMarkupCommand name = true) : name ∈ markupNames := by
  simp only [Words.isMarkupCommand, Words.markupArguments?, Bool.or_eq_true, List.findIdx?_isSome,
    List.any_cons, List.any_nil, Bool.or_false, List.contains_iff_mem] at known
  simpa only [markupNames, List.mem_append, or_assoc] using known

/-- A name is made of words of letters with hyphens between them. -/
def isHyphenated (name : String) : Bool :=
  (name.toList.splitOn '-').all fun part => !part.isEmpty && part.all Char.isAlpha

theorem names_hyphenated : markupNames.all isHyphenated = true := by
  decide +kernel

/-- Only the commands for scores begin like the one for a score. -/
theorem names_apart : markupNames.all (fun name =>
    name == "score" || "score-".toList.isPrefixOf name.toList || !"score".toList.isPrefixOf name.toList) =
      true := by
  decide +kernel

end Commands

section Find

variable {rest : List Char}

theorem word_at (w : Word) (parted : Parted rest) (before : Option Char) :
    (Region.lily .markup).at? before (w.letters ++ rest) = some ⟨.lily .markupWord, w.letters, rest⟩ := by
  have first : ∀ c ∈ asciiLetters, ((Region.lily .markup).starters c).head? = some (.lily .markupWord) :=
    all_listed (by decide)
  have part : ∀ c ∈ asciiLetters,
      (!("\x7b\x7d\"\\#%".toList.contains c || Text.isBlank c)) = true := all_listed (by decide)
  have found : (TokenKind.lily .markupWord).at? before (w.letters ++ rest) =
      some ⟨.lily .markupWord, w.letters, rest⟩ := by
    apply TokenKind.at_of_first _ rfl
    exact Pattern.first_oneOrMore w.nonempty (fun c member => part c (letter_listed (w.ascii c member)))
      (parted.ends rfl)
  cases text : w.letters with
  | nil => exact absurd text w.nonempty
  | cons c cs =>
    rw [text] at found
    exact Region.at_first (first c (letter_listed (w.ascii c (by simp [text])))) found

theorem quote_at (before : Option Char) :
    (Region.lily .markup).at? before ('"' :: rest) = some ⟨.lily .stringQuotedStart, ['"'], rest⟩ := by
  apply Region.at_first (k := .lily .stringQuotedStart) rfl
  exact TokenKind.at_of_first (Pattern.first_one rfl) rfl

theorem bracket_at (before : Option Char) :
    (Region.lily .markup).at? before ('\x7b' :: rest) =
      some ⟨.lily .openBracketMarkup, ['\x7b'], rest⟩ := by
  apply Region.at_first (k := .lily .openBracketMarkup) rfl
  exact TokenKind.at_of_first (Pattern.first_one rfl) rfl

theorem closing_bracket_at (before : Option Char) :
    (Region.lily .markup).at? before ('\x7d' :: rest) =
      some ⟨.lily .closeBracketMarkup, ['\x7d'], rest⟩ := by
  apply Region.at_first (k := .lily .closeBracketMarkup) rfl
  exact TokenKind.at_of_first (Pattern.first_one rfl) rfl

end Find

section Commands

variable {part rest : List Char} {parts : List (List Char)}

/-- Words of letters with hyphens between them. -/
def Hyphenated (parts : List (List Char)) : Prop :=
  ∀ part ∈ parts, part ≠ [] ∧ ∀ c ∈ part, c.isAlpha = true

theorem Hyphenated.ends (parted : Parted rest) (parts : List (List Char)) :
    Ends Char.isAlpha (parts.flatMap ('-' :: ·) ++ rest) := by
  cases parts with
  | nil => exact parted.ends rfl
  | cons part parts => simp

theorem Hyphenated.repeats (words : Hyphenated parts) (parted : Parted rest) :
    Pattern.Repeats (.seq (.char '-') Lily.letters) (parts.flatMap ('-' :: ·)) rest := by
  induction parts with
  | nil =>
    apply Pattern.Repeats.stop
    cases rest with
    | nil => rfl
    | cons c rest =>
      obtain rfl : c = ' ' := by simpa using parted
      rfl
  | cons part parts ih =>
    obtain ⟨nonempty, ascii⟩ := words part List.mem_cons_self
    rw [List.flatMap_cons]
    apply Pattern.Repeats.again
    · simp
    · exact Pattern.first_seq (Pattern.first_one rfl)
        (Pattern.first_oneOrMore nonempty ascii (ends parted parts))
    · exact ih fun part member => words part (List.mem_cons_of_mem _ member)

theorem hyphenated_words {name : String} (hyphenated : isHyphenated name = true) :
    ∃ part parts, name.toList.splitOn '-' = part :: parts ∧
      name.toList = part ++ parts.flatMap ('-' :: ·) ∧ Hyphenated (part :: parts) := by
  have joined : ['-'].intercalate (name.toList.splitOn '-') = name.toList :=
    List.intercalate_splitOn '-'
  rw [isHyphenated] at hyphenated
  generalize split : name.toList.splitOn '-' = parts at hyphenated joined
  cases parts with
  | nil => exact absurd split (List.splitOn_ne_nil _ _)
  | cons part parts =>
    refine ⟨part, parts, rfl, ?_, ?_⟩
    · rw [← joined, intercalate_one]
    · intro x member
      simpa using List.all_eq_true.mp hyphenated x member

theorem first_command (hyphenated : Hyphenated (part :: parts)) (parted : Parted rest) :
    (Kind.pattern .markupCommand).first? ('\\' :: (part ++ parts.flatMap ('-' :: ·) ++ rest)) =
      some ('\\' :: (part ++ parts.flatMap ('-' :: ·)), rest) := by
  obtain ⟨nonempty, ascii⟩ := hyphenated part List.mem_cons_self
  have others : Hyphenated parts := fun part member => hyphenated part (List.mem_cons_of_mem _ member)
  rw [List.append_assoc]
  exact Pattern.first_seq (Pattern.first_one rfl) (Pattern.first_seq
    (Pattern.first_oneOrMore nonempty ascii (Hyphenated.ends parted parts))
    (Pattern.first_many (others.repeats parted)))

theorem starters_backslash : (Region.lily .markup).starters '\\' =
    [.lily .markupScore, .lily .markupCommand, .lily .markupUserCommand] := by
  rfl

namespace MarkupCommand

variable (c : MarkupCommand)

theorem no_score (parted : Parted rest) : ¬ "\\score".toList <+: '\\' :: (c.name.toList ++ rest) := by
  intro score
  have begins : "score".toList <+: c.name.toList ++ rest := (List.cons_prefix_cons.mp score).2
  have inside : "score".toList <+: c.name.toList := parted.begins (all_listed (by decide)) begins
  have apart := List.all_eq_true.mp names_apart c.name (name_listed c.known)
  simp only [Bool.or_eq_true, beq_iff_eq, List.isPrefixOf_iff_prefix, Bool.not_eq_true',
    ← Bool.not_eq_true] at apart
  rcases apart with (same | score) | other
  · exact c.other.1 same
  · exact c.other.2 score
  · exact other inside

theorem at_front (parted : Parted rest) (before : Option Char) :
    (Region.lily .markup).at? before ('\\' :: (c.name.toList ++ rest)) =
      some ⟨.lily .markupCommand, '\\' :: c.name.toList, rest⟩ := by
  have score : (TokenKind.lily .markupScore).at? before ('\\' :: (c.name.toList ++ rest)) = none := by
    have none_found := Pattern.first_text_none (c.no_score parted)
    simp only [TokenKind.at?, TokenKind.pattern, Kind.pattern, none_found]
  have command : (TokenKind.lily .markupCommand).at? before ('\\' :: (c.name.toList ++ rest)) =
      some ⟨.lily .markupCommand, '\\' :: c.name.toList, rest⟩ := by
    have listed := List.all_eq_true.mp names_hyphenated c.name (name_listed c.known)
    obtain ⟨part, parts, _, text, hyphenated⟩ := hyphenated_words listed
    apply TokenKind.at_of_first
    · rw [text]
      exact first_command hyphenated parted
    · simp [TokenKind.keep?, Kind.keep?, Site.wholeIf, c.known]
  rw [Region.at_eq_starters, starters_backslash]
  simp [score, command]

end MarkupCommand

end Commands

end ScoreText
