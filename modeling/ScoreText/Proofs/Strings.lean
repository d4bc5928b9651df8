import ScoreText.Proofs.MarkupExpression
import ScoreText.Proofs.MusicTokens

/-! Strings, which stand in music and in Scheme. An opening quote opens a region of its own, in which only the
closing quote and what is escaped are found; all else is filler. -/
namespace ScoreText

/-- Where a string stands. -/
inductive StringPlace where
  | lily | scheme

namespace StringPlace

def region : StringPlace → Region
  | lily => .lily .string
  | scheme => .scheme .string

def filler : StringPlace → TokenKind
  | lily => .lily .string
  | scheme => .scheme .string

def escape : StringPlace → TokenKind
  | lily => .lily .stringQuoteEscape
  | scheme => .scheme .stringQuoteEscape

def closing : StringPlace → TokenKind
  | lily => .lily .stringQuotedEnd
  | scheme => .scheme .stringQuotedEnd

end StringPlace

/-- The state in a string. -/
abbrev State.inString (s : State) (place : StringPlace) : State :=
  s.enter place.region

section Find

variable {place : StringPlace} {c : Char} {cs rest : List Char}

theorem string_candidates (place : StringPlace) :
    place.region.rule.candidates = [place.closing, place.escape] := by
  cases place <;> rfl

theorem escape_pattern (place : StringPlace) :
    place.escape.pattern = .seq (.char '\\') (.among "\\\"") := by
  cases place <;> rfl

theorem plain_none (plain : ¬ Escapes c) (before : Option Char) : place.region.at? before (c :: cs) = none := by
  obtain ⟨no_backslash, no_quote⟩ := not_or.mp plain
  have quote : place.closing.pattern.begins c = false := by
    cases place <;> exact beq_eq_false_iff_ne.mpr no_quote
  have backslash : place.escape.pattern.begins c = false := by
    rw [escape_pattern]
    show (c == '\\' || ((1 == 0) && _)) = false
    simp [no_backslash]
  apply Region.at_none
  simp [Region.starters, string_candidates, quote, backslash]

theorem backslash_none (plain : ¬ Escapes c) (before : Option Char) :
    place.region.at? before ('\\' :: c :: cs) = none := by
  have quote : place.closing.at? before ('\\' :: c :: cs) = none := by
    cases place <;> rfl
  have escape : place.escape.at? before ('\\' :: c :: cs) = none := by
    have none_found : place.escape.pattern.first? ('\\' :: c :: cs) = none := by
      have other : ¬ (c = '\\' ∨ c = '"') := plain
      rw [escape_pattern]
      simp [Pattern.first?, Pattern.matchThen, Pattern.char, Pattern.among, other]
    simp only [TokenKind.at?, none_found]
  rw [Region.at?, string_candidates]
  simp [quote, escape]

theorem escape_at (escapes : Escapes c) (before : Option Char) :
    place.region.at? before ('\\' :: c :: cs) = some ⟨place.escape, ['\\', c], cs⟩ := by
  cases place <;> rcases escapes with rfl | rfl <;> rfl

theorem closing_quote_at (before : Option Char) :
    place.region.at? before ('"' :: rest) = some ⟨place.closing, ['"'], rest⟩ := by
  cases place <;> rfl

theorem Region.search_past_one {r : Region} {before : Option Char} {x : List Char} {found : Found}
    (none_here : r.at? before (c :: cs) = none) (later : r.search (some c) cs = some (x, found)) :
    r.search before (c :: cs) = some (c :: x, found) := by
  rw [search, none_here]
  simp [later]

end Find

section Pieces

/-- What a piece within a string stands for. -/
def Piece.content (p : Piece) : List Char :=
  Token.content ⟨p.kind, 0, String.ofList p.text⟩

variable (s : State) (place : StringPlace) (x : List Char)

/-- The text between two finds in a string. -/
def fillerPieces : List (Piece × State) :=
  if x = [] then [] else [(⟨place.filler, x⟩, s.inString place)]

theorem string_content : Piece.content ⟨place.filler, x⟩ = x := by
  have plain : place.filler.categories.contains .character = false := by
    cases place <;> decide
  simp only [Piece.content, Token.content, String.toList_ofList, plain, Bool.false_eq_true, if_false]
  split <;> rfl

theorem escape_content (c : Char) : Piece.content ⟨place.escape, ['\\', c]⟩ = [c] := by
  simp only [Piece.content, Token.content, String.toList_ofList]
  cases place <;> rfl

theorem filler_content : (fillerPieces s place x).flatMap (·.1.content) = x := by
  by_cases empty : x = []
  · simp [fillerPieces, empty]
  · simp [fillerPieces, empty, string_content]

theorem filler_inside : ∀ p ∈ fillerPieces s place x, p.2 = s.inString place := by
  by_cases empty : x = []
  · simp [fillerPieces, empty]
  · simp [fillerPieces, empty]

end Pieces

section Scan

variable {s last : State} {place : StringPlace} {x cs rest value : List Char} {found : Found}
  {ps : List (Piece × State)}

theorem settle_inString (s : State) (place : StringPlace) (before : Option Char) (cs : List Char) :
    (s.inString place).settleAt before cs = s.inString place := by
  apply State.settle_of_stays (s := s.inString place)
  cases place <;> exact .inl rfl

theorem Follows.filler
    (search : ∀ before, place.region.search before cs = some (x, found))
    (next : Follows (s.inString place) (found.lexeme ++ found.rest) ps last) :
    Follows (s.inString place) cs (fillerPieces s place x ++ ps) last := by
  have whole : x ++ (found.lexeme ++ found.rest) = cs := Region.search_split (search none)
  by_cases empty : x = []
  · subst empty
    rw [List.nil_append] at whole
    simpa [fillerPieces, whole] using next
  · intro before
    simp only [fillerPieces, empty, if_false, List.singleton_append]
    have some_text : cs ≠ [] := by
      intro nothing
      exact empty (List.append_eq_nil_iff.mp (whole.trans nothing)).1
    have fills : place.region.rule.unclaimed = .fill place.filler := by
      cases place <;> rfl
    have stays : (s.inString place).apply place.filler x = s.inString place :=
      State.apply_filler (s := s.inString place) fills x
    have piece := Reads.piece some_text (settle_inString s place before cs)
      (.skipped fills empty (search before)) (stays.symm ▸ next _)
    rwa [stays] at piece

/-- The first find in a string, with the text in front of it and all that comes behind it. -/
theorem Quotes.scanned (quotes : Quotes cs value) (next : Follows (s.inString place) ('"' :: rest) ps last) :
    ∃ x found inner,
      (∀ before, place.region.search before (cs ++ '"' :: rest) = some (x, found)) ∧
      Follows (s.inString place) (found.lexeme ++ found.rest) (inner ++ ps) last ∧
      (∀ p ∈ inner, p.2 = s.inString place) ∧ x ++ inner.flatMap (·.1.content) = value := by
  induction quotes with
  | done =>
    refine ⟨[], ⟨place.closing, ['"'], rest⟩, [], ?_, next, by simp, rfl⟩
    intro before
    exact Region.search_of_at (closing_quote_at before)
  | @escape c cs value escapes _ ih =>
    obtain ⟨x, found, inner, search, follows, inside, content⟩ := ih
    have filled := Follows.filler search follows
    -- an escape is the first find; what follows it up to the next find is filler
    refine ⟨[], ⟨place.escape, ['\\', c], cs ++ '"' :: rest⟩,
      (⟨place.escape, ['\\', c]⟩, s.inString place) :: (fillerPieces s place x ++ inner), ?_, ?_, ?_, ?_⟩
    · intro before
      exact Region.search_of_at (escape_at escapes before)
    · have stays : (s.inString place).apply place.escape ['\\', c] = s.inString place := by
        cases place <;> rfl
      have found : Follows (s.inString place) ('\\' :: c :: (cs ++ '"' :: rest))
          ((⟨place.escape, ['\\', c]⟩, s.inString place) :: (fillerPieces s place x ++ (inner ++ ps))) last :=
        .inside rfl (escape_at escapes) stays filled
      simpa using found
    · have fills := filler_inside s place x
      intro p member
      simp only [List.mem_cons, List.mem_append] at member
      rcases member with rfl | member | member
      · rfl
      · exact fills p member
      · exact inside p member
    · simp [List.flatMap_append, escape_content, filler_content, content]
  | backslash plain _ ih =>
    obtain ⟨x, found, inner, search, follows, inside, content⟩ := ih
    refine ⟨'\\' :: x, found, inner, ?_, follows, inside, by simp [content]⟩
    intro before
    exact Region.search_past_one (backslash_none plain before) (search _)
  | @plain c cs value plain _ ih =>
    obtain ⟨x, found, inner, search, follows, inside, content⟩ := ih
    -- a plain character only moves the first find back
    refine ⟨c :: x, found, inner, ?_, follows, inside, by simp [content]⟩
    intro before
    exact Region.search_past_one (plain_none plain before) (search _)

theorem Follows.string (place : StringPlace) (quotes : Quotes cs value)
    (next : Follows s.completeArgument rest ps last) :
    ∃ inner, (∀ p ∈ inner, p.2 = s.inString place) ∧ inner.flatMap (·.1.content) = value ∧
      Follows (s.inString place) (cs ++ '"' :: rest)
        (inner ++ (⟨place.closing, ['"']⟩, s.completeArgument) :: ps) last := by
  have leaves : (s.inString place).apply place.closing ['"'] = s.completeArgument := by
    cases place <;> rfl
  have close : Follows (s.inString place) ('"' :: rest)
      ((⟨place.closing, ['"']⟩, s.completeArgument) :: ps) last :=
    .inside rfl closing_quote_at leaves next
  obtain ⟨x, found, inner, search, follows, all_inside, content⟩ := quotes.scanned close
  refine ⟨fillerPieces s place x ++ inner, ?_, ?_, ?_⟩
  · intro p member
    rcases List.mem_append.mp member with member | member
    · exact filler_inside s place x p member
    · exact all_inside p member
  · rw [List.flatMap_append, filler_content, content]
  · simpa using Follows.filler search follows

end Scan

end ScoreText
