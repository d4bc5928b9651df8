import ScoreText.Proofs.MarkupScore
import ScoreText.Proofs.SchemeReading

/-! The tree of a written Scheme expression has one item at its top, which holds the item of the expression. What
is looked up there are the strings and numbers of the expression. -/
namespace ScoreText

open Reader Reading ScoreText.Tree

namespace Datum

theorem scan_printed (d : Datum) :
    ∃ ps, d.HasPieces State.lilyRoot.inScheme ps ∧
      State.lilyRoot.scan d.printed 0 = placed 0 ((⟨.lily .schemeStart, ['#']⟩, State.lilyRoot.inScheme) :: ps) := by
  have delimited : Delimited [] := by simp [Ends]
  obtain ⟨ps, pieces, follows⟩ := d.follows_sign (s := .lilyRoot) (r := .global) rfl rfl delimited (.ended _)
  rw [List.append_nil, List.append_nil] at follows
  exact ⟨ps, pieces, follows.scan⟩

theorem ofTokens_printed {d : Datum} {depth : Nat} {language : String} {tree : Tree} (deep : d.levels ≤ depth)
    (read : tree = ofTokens (scanMusic d.printed) language depth) :
    ∃ top, tree.children root = [top] ∧ d.Signed tree top := by
  rw [levels] at deep
  obtain ⟨n, rfl⟩ : ∃ n, depth = n + 1 := ⟨depth - 1, by omega⟩
  obtain ⟨ps, pieces, scan⟩ := d.scan_printed
  obtain ⟨u, tail, front⟩ := pieces.front (0 + byteSize ['#'])
  rw [scanMusic, scan, ← scanned, scanned_cons, front] at read
  refine ofTokens_one (d := State.lilyRoot.inScheme.completeArgument.depth) ⟨rfl, rfl⟩ d.endures.holder ?_ read
  intro r _ took
  rw [← List.append_nil (u :: tail), List.cons_append] at took
  obtain ⟨r', run, built⟩ := readQuoting_built (k := .scheme) d.endures took fun r₁ took₁ =>
    d.readBy n (Nat.le_of_succ_le_succ deep) pieces front took₁
  refine ⟨r', ?_, built⟩
  rw [read_item rfl]
  exact run_then run rfl

/-- A Scheme expression that is written out is read back: the only item at the top is one for Scheme that holds
the item of the expression. Its text is that of all strings of the expression, and its numbers are the first
ones that fit. -/
theorem written_scheme_read_back (options : Options) (files : Files) (filename : Option String) (d : Datum)
    (deep : d.levels ≤ options.maxNestingDepth) :
    let tree := ((Family.ofText options files d.printed filename).document 0).tree
    ∃ top child, tree.children root = [top] ∧ tree.kind top = .scheme ∧ tree.children top = [child] ∧
      d.MirroredBy tree child ∧ tree.schemeText? top = d.joined? ∧
      tree.schemeCount? top = d.integers.head? ∧ tree.schemePair? top = d.firstTwo? := by
  intro tree
  obtain ⟨top, only, signed⟩ := ofTokens_printed deep (rfl : tree = _)
  obtain ⟨_, laid⟩ := Document.ofText_laid options d.printed filename none
  obtain ⟨rank, ranked⟩ : ∃ rank, tree.Ranked rank := laid.exists_ranked
  obtain ⟨kind, child, single, mirrored⟩ := id signed
  exact ⟨top, child, only, kind, single, mirrored, signed.schemeText ranked, signed.schemeCount ranked,
    signed.schemePair ranked⟩

/-- A list of a word, a string, a quoted pair of numbers, a word that is quoted twice, and nothing. -/
def settings : Datum :=
  .list [.atom (.word ⟨['m', 'a', 'p'], by simp, by simp⟩), .atom (.text ['a', '"']),
    .quote (.list [.atom (.number ⟨['3'], by simp, by simp⟩), .atom (.number ⟨['4'], by simp, by simp⟩)]),
    .quote (.quote (.atom (.word ⟨['x'], by simp, by simp⟩))), .list []]

theorem settings_read_back :
    let tree := ((Family.ofText .standard (.table []) settings.printed none).document 0).tree
    settings.printed = "#(map \"a\\\"\" '(3 4) ''x ())" ∧ settings.levels = 5 ∧
      ∃ top child, tree.children root = [top] ∧ tree.kind top = .scheme ∧ tree.children top = [child] ∧
        settings.MirroredBy tree child ∧ tree.schemeText? top = some "a\"" ∧
        tree.schemeCount? top = some 3 ∧ tree.schemePair? top = some (3, 4) := by
  intro tree
  have levels : settings.levels = 5 := by decide
  have read := written_scheme_read_back .standard (.table []) none settings (by rw [levels]; decide)
  exact ⟨by decide +kernel, levels, read⟩

end Datum

end ScoreText
