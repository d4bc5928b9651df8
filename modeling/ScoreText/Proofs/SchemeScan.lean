import ScoreText.Proofs.SchemeTokens
import ScoreText.Proofs.Strings

/-! A Scheme expression is scanned into its tokens. Within a list the region waits for no argument, so an
expression there leaves the open regions alone; outside it counts as the argument that the sign in front of it
waits for. A quote opens no region, so it ends where what it quotes does. -/
namespace ScoreText

section Pieces

variable (s : State)

/-- The state behind a sign for Scheme, which waits for one expression. -/
abbrev State.inScheme : State :=
  s.enterAwaiting (.scheme .expression) 1

abbrev State.inList : State :=
  s.enterAwaiting (.scheme .expression) 0

namespace Datum

def Atom.HasPieces (s : State) : Atom → List (Piece × State) → Prop
  | number n, ps => ps = [(⟨.scheme .number, n.digits⟩, s.completeArgument)]
  | word w, ps => ps = [(⟨.scheme w.kind, w.letters⟩, s.completeArgument)]
  | text value, ps => ∃ inner, (∀ p ∈ inner, p.2 = s.inString .scheme) ∧
      inner.flatMap (·.1.content) = value ∧
      ps = (⟨.scheme .stringQuotedStart, ['"']⟩, s.inString .scheme) ::
        (inner ++ [(⟨.scheme .stringQuotedEnd, ['"']⟩, s.completeArgument)])

mutual

/-- The pieces of an expression. Those of a string may be more than one. -/
def HasPieces (s : State) : Datum → List (Piece × State) → Prop
  | atom a, ps => a.HasPieces s ps
  | quote d, ps => ∃ inner, d.HasPieces s inner ∧ ps = (⟨.scheme .quote, ['\'']⟩, s) :: inner
  | list items, ps => ∃ inner, AllHavePieces s.inList items inner ∧
      ps = (⟨.scheme .openParen, ['(']⟩, s.inList) ::
        (inner ++ [(⟨.scheme .closeParen, [')']⟩, s.completeArgument)])

/-- The pieces of expressions in a row. There may be a space in front of each. -/
def AllHavePieces (s : State) : List Datum → List (Piece × State) → Prop
  | [], ps => ps = []
  | d :: ds, ps => ∃ space first others, (space = [] ∨ space = [(spacePiece, s)]) ∧ d.HasPieces s first ∧
      AllHavePieces s ds others ∧ ps = space ++ (first ++ others)

end

end Datum

end Pieces

section Scan

variable {s t last : State} {k : TokenKind} {x cs rest : List Char} {ps : List (Piece × State)}

theorem Follows.schemeSpace (top : s.top.region = .scheme .expression) {c : Char}
    (solid : Text.isBlank c = false) (next : Follows s (c :: cs) ps last) :
    Follows s (' ' :: c :: cs) ((spacePiece, s) :: ps) last := by
  apply Follows.inside top (single_space_at rfl (ends_cons.mpr solid)) _ next
  simp only [State.apply, State.action, top]
  rfl

theorem Datum.Atom.follows (top : s.top.region = .scheme .expression) (a : Datum.Atom)
    (delimited : Delimited rest) (next : Follows s.completeArgument rest ps last) :
    ∃ qs, a.HasPieces s qs ∧ Follows s (a.chars ++ rest) (qs ++ ps) last := by
  cases a with
  | number n => exact ⟨_, rfl, .inside top (number_at n delimited) rfl next⟩
  | word w =>
    have completes : s.apply (.scheme w.kind) w.letters = s.completeArgument := by
      have all : ∀ k ∈ wordKinds, Scheme.Kind.action? k = some .argument := by decide
      have action : (TokenKind.scheme w.kind).action? w.letters = some .argument := all _ w.kind_listed
      simp only [State.apply, State.action, action]
      rfl
    exact ⟨_, rfl, .inside top (scheme_word_at w delimited) completes next⟩
  | text value =>
    obtain ⟨inner, inside, content, follows⟩ := Follows.string .scheme (escaped_quotes value) next
    have whole := Follows.inside (t := s.inString .scheme) top scheme_string_at rfl follows
    refine ⟨_, ⟨inner, inside, content, rfl⟩, ?_⟩
    simpa [Atom.chars, StringPlace.closing] using whole

namespace Datum

/-- An expression begins with a character that is neither blank nor a bracket. -/
theorem chars_front (d : Datum) :
    ∃ c cs, d.chars = c :: cs ∧ Text.isBlank c = false ∧ "\x7b\x7d".toList.contains c = false := by
  have letters : ∀ c ∈ asciiLetters, Text.isBlank c = false ∧ "\x7b\x7d".toList.contains c = false :=
    all_listed (by decide)
  have digits : ∀ c ∈ "0123456789".toList, Text.isBlank c = false ∧ "\x7b\x7d".toList.contains c = false :=
    all_listed (by decide)
  cases d with
  | atom a =>
    cases a with
    | number n =>
      obtain ⟨c, cs, text, digit⟩ := n.front
      exact ⟨c, cs, text, digits c digit⟩
    | word w =>
      obtain ⟨c, cs, text⟩ := List.exists_cons_of_ne_nil w.nonempty
      exact ⟨c, cs, text, letters c (letter_listed (w.ascii c (by simp [text])))⟩
    | text value => exact ⟨'"', _, rfl, by decide⟩
  | quote d => exact ⟨'\'', _, rfl, by decide⟩
  | list items => exact ⟨'(', _, rfl, by decide⟩

theorem items_delimited (parts : List (List Char)) (delimited : Delimited rest) :
    Delimited (parts.flatMap (' ' :: ·) ++ rest) := by
  cases parts with
  | nil => exact delimited
  | cons part parts => simp

mutual

theorem follows {s : State} (top : s.top.region = .scheme .expression) (d : Datum) {rest : List Char}
    {ps : List (Piece × State)} (delimited : Delimited rest) (next : Follows s.completeArgument rest ps last) :
    ∃ qs, d.HasPieces s qs ∧ Follows s (d.chars ++ rest) (qs ++ ps) last := by
  cases d with
  | atom a => exact a.follows top delimited next
  | quote d =>
    obtain ⟨inner, pieces, follows⟩ := follows top d delimited next
    have stays : s.apply (.scheme .quote) ['\''] = s := by
      simp only [State.apply, State.action, top]
      rfl
    exact ⟨_, ⟨inner, pieces, rfl⟩, .inside top scheme_quote_at stays follows⟩
  | list items =>
    have ends : Delimited (')' :: rest) := ends_cons.mpr rfl
    have close : Follows s.inList (')' :: rest)
        ((⟨.scheme .closeParen, [')']⟩, s.completeArgument) :: ps) last :=
      .inside rfl close_paren_at rfl next
    cases items with
    | nil => exact ⟨_, ⟨[], rfl, rfl⟩, .inside top open_paren_at rfl close⟩
    | cons d ds =>
      obtain ⟨others, others_pieces, others_follow⟩ := followsAll (s := s.inList) rfl rfl ds ends close
      obtain ⟨first, first_pieces, first_follows⟩ :=
        follows (s := s.inList) rfl d (items_delimited _ ends) others_follow
      have whole := Follows.inside (t := s.inList) top open_paren_at rfl first_follows
      refine ⟨_, ⟨first ++ others, ⟨[], first, others, .inl rfl, first_pieces, others_pieces, rfl⟩, rfl⟩, ?_⟩
      simpa [chars, charsOfEach, intercalate_one] using whole

theorem followsAll {s : State} (top : s.top.region = .scheme .expression) (full : s.completeArgument = s)
    (ds : List Datum) {rest : List Char} {ps : List (Piece × State)} (delimited : Delimited rest)
    (next : Follows s rest ps last) :
    ∃ qs, AllHavePieces s ds qs ∧
      Follows s ((charsOfEach ds).flatMap (' ' :: ·) ++ rest) (qs ++ ps) last := by
  cases ds with
  | nil => exact ⟨[], rfl, next⟩
  | cons d ds =>
    obtain ⟨others, others_pieces, others_follow⟩ := followsAll top full ds delimited next
    rw [← full] at others_follow
    obtain ⟨first, first_pieces, first_follows⟩ := follows top d (items_delimited _ delimited) others_follow
    obtain ⟨c, cs, text, solid, _⟩ := d.chars_front
    simp only [text, List.cons_append] at first_follows
    have whole := Follows.schemeSpace top solid first_follows
    refine ⟨_, ⟨_, first, others, .inr rfl, first_pieces, others_pieces, rfl⟩, ?_⟩
    simpa [charsOfEach, text] using whole

end

theorem follows_sign {s : State} {r : Lily.Region} (top : s.top.region = .lily r)
    (first : ((Region.lily r).starters '#').head? = some (.lily .schemeStart)) (d : Datum) {rest : List Char}
    {ps : List (Piece × State)} (delimited : Delimited rest) (next : Follows s.completeArgument rest ps last) :
    ∃ qs, d.HasPieces s.inScheme qs ∧
      Follows s ('#' :: (d.chars ++ rest)) ((⟨.lily .schemeStart, ['#']⟩, s.inScheme) :: (qs ++ ps)) last := by
  obtain ⟨qs, pieces, follows⟩ := d.follows (s := s.inScheme) rfl delimited next
  obtain ⟨c, cs, text, _, no_bracket⟩ := d.chars_front
  refine ⟨qs, pieces, ?_⟩
  rw [text] at follows ⊢
  exact .inside top (scheme_sign_at first no_bracket) rfl follows

end Datum

end Scan

end ScoreText
