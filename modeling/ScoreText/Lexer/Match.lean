import ScoreText.Lexer.Grammar
/-!
Finding the next token of a region.

A kind is found at a place if its pattern matches there and enough of the match is kept. Of several
kinds the first candidate wins, and of several places the first one.
-/
namespace ScoreText

/-- A token at the front of a text. -/
structure Found where
  kind : TokenKind
  lexeme : List Char
  rest : List Char
  deriving DecidableEq, Repr

/-- The token of a kind that is kept of a match. -/
def TokenKind.refine? (k : TokenKind) (before : Option Char) (cs : List Char) (cut : Pattern.Cut) :
    Option Found :=
  match k.keep? ⟨before, cut.1, cut.2⟩ with
  | none => none
  | some n => some ⟨k, cs.take n, cs.drop n⟩

def TokenKind.at? (k : TokenKind) (before : Option Char) (cs : List Char) : Option Found :=
  match k.pattern.first? cs with
  | none => none
  | some cut => k.refine? before cs cut

theorem TokenKind.at_split {k : TokenKind} {before : Option Char} {cs : List Char} {found : Found}
    (h : k.at? before cs = some found) : found.lexeme ++ found.rest = cs := by
  simp only [TokenKind.at?, TokenKind.refine?] at h
  split at h
  · contradiction
  · split at h
    · contradiction
    · cases Option.some.inj h
      exact List.take_append_drop _ cs

namespace Region

def at? (r : Region) (before : Option Char) (cs : List Char) : Option Found :=
  r.rule.candidates.findSome? (·.at? before cs)

theorem at_split {r : Region} {before : Option Char} {cs : List Char} {found : Found}
    (h : r.at? before cs = some found) : found.lexeme ++ found.rest = cs := by
  obtain ⟨k, _, hk⟩ := List.exists_of_findSome?_eq_some h
  exact TokenKind.at_split hk

/-- The first token of a region in a text, with the text that it leaves out in front. -/
def search (r : Region) (before : Option Char) (cs : List Char) : Option (List Char × Found) :=
  match r.at? before cs with
  | some found => some ([], found)
  | none =>
    match cs with
    | [] => none
    | c :: cs => (r.search (some c) cs).map fun (skipped, found) => (c :: skipped, found)

theorem search_split {r : Region} {before : Option Char} {cs skipped : List Char} {found : Found}
    (h : r.search before cs = some (skipped, found)) :
    skipped ++ (found.lexeme ++ found.rest) = cs := by
  induction cs generalizing before skipped with
  | nil =>
    rw [search] at h
    split at h
    · rename_i hit
      cases Option.some.inj h
      exact at_split hit
    · contradiction
  | cons c cs ih =>
    rw [search] at h
    split at h
    · rename_i hit
      cases Option.some.inj h
      exact at_split hit
    · obtain ⟨⟨behind, later⟩, hs, same⟩ := Option.map_eq_some_iff.mp h
      cases same
      simpa using ih hs

end Region

end ScoreText
