import ScoreText.Proofs.MarkupScore
import ScoreText.Proofs.SchemeExpression

/-! The tree of a text that is one string has the item of the string at its top. The backslashes that keep quotes
and backslashes apart from the closing quote are gone again in its value. -/
namespace ScoreText

open Reader Reading ScoreText.Tree

namespace Quoted

/-- A string as it stands at the top of a text. -/
def printed (q : Quoted) : String :=
  String.ofList ('"' :: (q.chars ++ ['"']))

/-- The string of a text, with a backslash in front of each quote and each backslash. -/
def ofString (value : String) : Quoted :=
  ⟨Datum.escaped value.toList, value.toList, Datum.escaped_quotes value.toList⟩

variable (q : Quoted)

theorem follows_printed :
    ∃ inner, (∀ p ∈ inner, p.2 = State.lilyRoot.inString .lily) ∧ inner.flatMap (·.1.content) = q.value ∧
      Follows .lilyRoot ('"' :: (q.chars ++ ['"']))
        ((⟨.lily .stringQuotedStart, ['"']⟩, State.lilyRoot.inString .lily) ::
          (inner ++ [(⟨.lily .stringQuotedEnd, ['"']⟩, State.lilyRoot)])) .lilyRoot := by
  have within : State.lilyRoot.In .global := ⟨mode_rooted .lilypond, rfl⟩
  obtain ⟨inner, inside, content, follows⟩ := Follows.string (s := .lilyRoot) .lily q.closed (.ended _)
  have opens (before : Option Char) : (Region.lily .global).at? before ('"' :: (q.chars ++ ['"'])) =
      some ⟨.lily .stringQuotedStart, ['"'], q.chars ++ ['"']⟩ :=
    Region.at_first rfl (TokenKind.at_of_first (Pattern.first_one rfl) rfl)
  exact ⟨inner, inside, content, .token within opens rfl follows⟩

theorem ofTokens_printed {language : String} {depth : Nat} {tree : Tree} (some_level : 0 < depth)
    (read : tree = ofTokens (scanMusic q.printed) language depth) :
    ∃ top, tree.children root = [top] ∧ (Markup.quoted q).MirroredBy tree top := by
  obtain ⟨n, rfl⟩ : ∃ n, depth = n + 1 := ⟨depth - 1, by omega⟩
  obtain ⟨inner, inside, content, follows⟩ := q.follows_printed
  rw [scanMusic, printed, follows.scan, ← scanned, scanned_cons] at read
  refine ofTokens_one (d := State.lilyRoot.depth) ⟨rfl, rfl⟩ (Markup.quoted q).endures ?_ read
  intro r _ took
  rw [← List.append_nil (scanned _ _)] at took
  obtain ⟨r', run, built⟩ := readString_built .lily inside content rfl took
  refine ⟨r', ?_, built⟩
  rw [read_item rfl]
  exact run_then run rfl

/-- Behind the closing quote no region is open. -/
theorem drain_printed : (Scanner.ofText .lilyRoot q.printed 0).drain.2.state = .lilyRoot := by
  obtain ⟨inner, _, _, follows⟩ := q.follows_printed
  obtain ⟨final, drained, reached⟩ := follows.drain
  rw [printed, drained]
  exact reached

end Quoted

/-- A string that is written with a backslash in front of each quote and each backslash is read back: it is the only
item at the top, and its value is the string, whatever characters it has. Behind the text no region is open. -/
theorem escaped_string_read_back (options : Options) (files : Files) (filename : Option String) (value : String)
    (some_level : 0 < options.maxNestingDepth) :
    let text := String.ofList ('"' :: (Datum.escaped value.toList ++ ['"']))
    let tree := ((Family.ofText options files text filename).document 0).tree
    (∃ top, tree.children root = [top] ∧ tree.kind top = .string ∧ tree.unquoted top = value) ∧
    (Scanner.ofText (.ofMode .lilypond) text 0).drain.2.state = .ofMode .lilypond := by
  intro text tree
  obtain ⟨top, only, kind, unquoted, _⟩ := (Quoted.ofString value).ofTokens_printed some_level (rfl : tree = _)
  exact ⟨⟨top, only, kind, unquoted.trans String.ofList_toList⟩, (Quoted.ofString value).drain_printed⟩

/-- Two backslashes in front of a quote, a line end, a backslash in front of a letter, and a quote at the end. -/
theorem backslashes_read_back :
    let value := "\\\\\"\n\\n\""
    let text := String.ofList ('"' :: (Datum.escaped value.toList ++ ['"']))
    let tree := ((Family.ofText .standard (.table []) text none).document 0).tree
    text = "\"\\\\\\\\\\\"\n\\\\n\\\"\"" ∧ 0 < Options.standard.maxNestingDepth ∧
      (∃ top, tree.children root = [top] ∧ tree.kind top = .string ∧ tree.unquoted top = value) ∧
      (Scanner.ofText (.ofMode .lilypond) text 0).drain.2.state = .ofMode .lilypond := by
  intro value text tree
  have some_level : 0 < Options.standard.maxNestingDepth := by decide
  exact ⟨by decide +kernel, some_level, escaped_string_read_back .standard (.table []) none value some_level⟩

end ScoreText
