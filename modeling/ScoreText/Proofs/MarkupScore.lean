import ScoreText.Proofs.MarkupReading
import ScoreText.Proofs.MusicScore

/-! The tree of a written markup has one item at its top, which holds the item of the expression. -/
namespace ScoreText

open Reader Reading ScoreText.Tree

section Scan

theorem Reads.last {s last : State} {before : Option Char} {cs : List Char} {ps : List (Piece × State)}
    (reads : Reads s before cs ps last) (offset : Nat) : s.afterScan (placed offset ps) = last := by
  induction reads generalizing offset with
  | done => rfl
  | @piece s settled before cs rest p ps last _ _ _ _ ih =>
    rw [← ih (offset + byteSize p.text), State.afterScan, State.afterScan, placed, List.getLast?_cons]
    cases (placed (offset + byteSize p.text) ps).getLast? <;> rfl

set_option maxRecDepth 4000 in
theorem markup_at {rest : List Char} (before : Option Char) :
    (Region.lily .global).at? before (Markup.opening ++ ' ' :: rest) =
      some ⟨.lily .markup, Markup.opening, ' ' :: rest⟩ := by
  rfl

abbrev State.lilyRoot : State :=
  .ofMode .lilypond

/-- A markup at the top waits for its one argument. -/
theorem scan_printed (m : Markup) :
    ∃ ps, m.HasPieces (State.lilyRoot.inMarkup 1) ps ∧
      State.lilyRoot.scan m.printed 0 = placed 0 ((⟨.lily .markup, Markup.opening⟩,
        State.lilyRoot.inMarkup 1) :: (spacePiece, State.lilyRoot.inMarkup 1) :: ps) ∧
      State.lilyRoot.afterScan (State.lilyRoot.scan m.printed 0) = .lilyRoot := by
  have within : State.lilyRoot.In .global := ⟨mode_rooted .lilypond, rfl⟩
  have inside : (State.lilyRoot.inMarkup 1).InMarkup := ⟨within.rooted, rfl⟩
  obtain ⟨ps, pieces, follows⟩ := Follows.markup inside m parted_nil (.ended .lilyRoot)
  obtain ⟨c, cs, text, solid⟩ := m.chars_solid
  rw [List.append_nil, List.append_nil, text] at follows
  have space := Follows.markupSpace inside solid follows
  rw [← text] at space
  have whole := Follows.token within markup_at rfl space
  exact ⟨ps, pieces, whole.scan, by rw [Markup.printed, whole.scan]; exact (whole none).last 0⟩

end Scan

section Score

variable {r : Reader} {n offset : Nat} {t : ScannedToken} {ps : List (Piece × State)}

/-- A markup at the end of a text is read as one item with one child. -/
theorem readMarkup_top {m : Markup} (deep : m.depth ≤ n) (kind : t.token.kind = .lily .markup)
    (depth : t.depth = 2) (pieces : m.HasPieces (State.lilyRoot.inMarkup 1) ps)
    (took : r.Took none t (scanned offset ((spacePiece, State.lilyRoot.inMarkup 1) :: ps))) :
    ∃ r', (read (n + 1) .item t.token).run r = (some r.tree.size, r') ∧
      r.Built r' none [] State.lilyRoot.depth (Holder .markup fun u id => m.MirroredBy u id) := by
  have all : (Markups.cons m .nil).ReadBy n := .cons (m.readBy n deep) (.nil n)
  let r1 : Reader := { r with tree := r.tree.push (.single .markup t.token.start (some t.token)) }
  have entering := (took.score r1.tree r.inChord r.duration).entering
  rw [depth, ← List.append_nil (scanned _ _)] at entering
  have holder : r.Grown r1.entering [r.tree.size] := ⟨push_gains .., rfl, rfl⟩
  have row : (Markups.cons m .nil).HasPieces (State.lilyRoot.inMarkup 1)
      ((spacePiece, State.lilyRoot.inMarkup 1) :: ps) := ⟨ps, [], pieces, rfl, by rw [List.append_nil]⟩
  obtain ⟨ids, r2, run₂, stands, filled, mirrored⟩ :=
    all false row (State.lilyRoot.awaits_command 1) (fun _ => Nat.le_refl _)
      (entering.stands (Nat.le_refl _)) holder
  obtain ⟨last, took₂, behind⟩ := stands.ended (by decide)
  obtain ⟨source, ended⟩ := next_over took₂ (by rw [behind]; decide)
  have loop_run : (loop (markupStep (read n) r.tree.size false) ()).run r1.entering =
      ((), { r2 with source }) := by
    rw [run₂, markupStep_over ended]
  have whole : (readWholeMarkup (read n) t.token).run r =
      (r.tree.size, { r2 with source := r.source }) := by
    rw [readWholeMarkup]
    apply run_then (addFor_run ..)
    exact run_then (readMarkupsInto_run r1 { r2 with source } loop_run) rfl
  have first : r1.tree.item r.tree.size = .single .markup t.token.start (some t.token) := by
    rw [item_push, if_pos rfl]
  obtain ⟨child, others, rfl, child_mirrored, rfl⟩ := mirrored
  refine ⟨{ r2 with source := r.source }, ?_,
    ⟨last, took.back ⟨took₂.ahead, took₂.pushed, took₂.current⟩ .., behind⟩,
    ⟨filled.grown.gains, filled.grown.language, filled.grown.inChord⟩, ?_, child, ?_, child_mirrored⟩
  · rw [read_item kind]
    exact run_then whole rfl
  · rw [Tree.kind, filled.item]
    exact congrArg Item.kind first
  · rw [children, filled.item, show r1.entering.tree = r1.tree from rfl, children, first]
    rfl

theorem ofTokens_markup {m : Markup} {depth : Nat} {language : String} {tree : Tree} (deep : m.levels ≤ depth)
    (read : tree = ofTokens (scanMusic m.printed) language depth) :
    ∃ top child, tree.children root = [top] ∧ tree.kind top = .markup ∧ tree.children top = [child] ∧
      m.MirroredBy tree child := by
  rw [Markup.levels] at deep
  obtain ⟨n, rfl⟩ : ∃ n, depth = n + 1 := ⟨depth - 1, by omega⟩
  obtain ⟨ps, pieces, scan, _⟩ := scan_printed m
  rw [scanMusic, scan, ← scanned, scanned_cons] at read
  obtain ⟨top, only, kind, child, single, mirrored⟩ := ofTokens_one ⟨rfl, rfl⟩ m.endures.holder
    (fun r _ took => readMarkup_top (Nat.le_of_succ_le_succ deep) rfl rfl pieces took) read
  exact ⟨top, child, only, kind, single, mirrored⟩

/-- A markup that is written out is read back: the only item at the top is a markup that holds the item of the
expression. Behind the text no region is open. -/
theorem written_markup_read_back (options : Options) (files : Files) (filename : Option String) (m : Markup)
    (deep : m.levels ≤ options.maxNestingDepth) :
    let f := Family.ofText options files m.printed filename
    (∃ top child, (f.document 0).tree.children root = [top] ∧ (f.document 0).tree.kind top = .markup ∧
      (f.document 0).tree.children top = [child] ∧ m.MirroredBy (f.document 0).tree child) ∧
    (State.ofMode .lilypond).afterScan ((State.ofMode .lilypond).scan m.printed 0) = .ofMode .lilypond := by
  intro f
  obtain ⟨_, _, _, again⟩ := scan_printed m
  exact ⟨ofTokens_markup deep rfl, again⟩

/-- A command with arguments that are known to be as many as it takes. -/
def Markup.taking (c : MarkupCommand) {n : Nat} (arguments : Markups n) (count : c.arity = n) : Markup :=
  .command c (count ▸ arguments)

/-- A column of a bold raised word, a string and a flat sign. -/
def Markup.column : Markup :=
  have raised := taking ⟨"raise", by decide +kernel, by decide +kernel⟩
    (.cons (.number ⟨['2'], by simp, by simp⟩) (.cons (.word ⟨['u', 'p'], by simp, by simp⟩) .nil))
    (by decide +kernel)
  have bold := taking ⟨"bold", by decide +kernel, by decide +kernel⟩ (.cons raised .nil) (by decide +kernel)
  have quoted := quoted ⟨['a', '\\', '"'], ['a', '"'], .plain (by simp [Escapes]) (.escape (.inr rfl) .done)⟩
  have flat := taking ⟨"flat", by decide +kernel, by decide +kernel⟩ .nil (by decide +kernel)
  taking ⟨"column", by decide +kernel, by decide +kernel⟩
    (.cons (.list (.cons bold (.cons quoted (.cons flat .nil)))) .nil) (by decide +kernel)

theorem column_read_back :
    let f := Family.ofText .standard (.table []) Markup.column.printed none
    Markup.column.printed = "\\markup \\column \x7b \\bold \\raise #2 up \"a\\\"\" \\flat \x7d" ∧
      Markup.column.levels = 7 ∧
      ∃ top child, (f.document 0).tree.children root = [top] ∧ (f.document 0).tree.kind top = .markup ∧
        (f.document 0).tree.children top = [child] ∧ Markup.column.MirroredBy (f.document 0).tree child := by
  intro f
  have levels : Markup.column.levels = 7 := by decide +kernel
  obtain ⟨mirrored, _⟩ :=
    written_markup_read_back .standard (.table []) none Markup.column (by rw [levels]; decide)
  exact ⟨by decide +kernel, levels, mirrored⟩

end Score

end ScoreText
