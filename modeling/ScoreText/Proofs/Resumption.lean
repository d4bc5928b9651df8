import ScoreText.Lexer.Store
import ScoreText.Proofs.Reachable

/-! Resuming a scan. What the scanner has found behind filler is lost when it is dropped, but the region
that found it is still on top, and it finds the same when it searches from the end of the filler. -/
namespace ScoreText

/-- The byte offset behind tokens that were taken from a start. -/
def behind (start : Nat) (taken : List (Token × State)) : Nat :=
  (taken.getLast?.map (·.1.stop)).getD start

theorem behind_placed (start offset : Nat) (ps : List (Piece × State)) (some : ps ≠ []) :
    behind start (placed offset ps) = offset + byteSize (textOf ps) := by
  induction ps generalizing offset with
  | nil => exact absurd rfl some
  | cons p ps ih =>
    cases ps with
    | nil => simp [behind, placed, textOf, Token.stop, utf8ByteSize_ofList]
    | cons q ps =>
      rw [textOf_cons, byteSize_append, ← Nat.add_assoc, ← ih _ (List.cons_ne_nil q ps)]
      simp only [behind, placed, List.getLast?_cons_cons]

/-- A scan from behind the tokens that were taken starts where the scanner has stopped. -/
theorem behind_faces {text : String} {front rest later : List Char} {start : Nat}
    {taken : List (Piece × State)} (whole : front ++ rest = text.toList)
    (at_start : ∀ t, (Scanner.ofText t text start).Faces front.getLast? (byteSize front) rest)
    (split : textOf taken ++ later = rest) (t : State) :
    (Scanner.ofText t text (behind start (placed (byteSize front) taken))).Faces
      ((textOf taken).getLast?.or front.getLast?) (byteSize front + byteSize (textOf taken))
      later := by
  by_cases none : taken = []
  · subst none
    subst split
    exact at_start t
  · rw [behind_placed _ _ _ none, ← byteSize_append, ← List.getLast?_append,
      ofText_front t text (front ++ textOf taken) later (by rw [List.append_assoc, split, whole])]
    exact .idle

/-- A scan that is dropped after some tokens and resumed from the end of the last one finds the
tokens that were left, and ends in the same state. The state may be frozen in between, and it may be
kept under a number. -/
theorem scan_resumes {s : State} (rooted : s.Rooted) (text : String) (start k : Nat)
    (store : StateStore) :
    let whole := (Scanner.ofText s text start).drain
    let dropped := (Scanner.ofText s text start).pull k
    let kept := store.keep dropped.2.state
    let thawed := dropped.2.state.freeze.thaw
    let resumed := (Scanner.ofText thawed text (behind start dropped.1)).drain
    kept.2.state? kept.1 = some thawed ∧ dropped.1 = whole.1.take k ∧
      resumed.1 = whole.1.drop k ∧ resumed.2.state = whole.2.state := by
  obtain ⟨front, rest, ps, last, text_split, _, at_start, reads⟩ := ofText_reads rooted text start
  obtain ⟨final, drained, reached⟩ := Scanner.drain_reads (at_start s) reads
  obtain ⟨after, later, pulled, taken_split, after_rooted, goes⟩ :=
    Scanner.pull_reads (at_start s) rooted reads k
  have again := behind_faces text_split at_start taken_split after.state
  obtain ⟨resumed, left, ended⟩ := Scanner.drain_reads again goes
  simp only [State.thaw_freeze, pulled, drained, reached, left, ended, placed_take, placed_drop,
    and_true]
  exact store.state_keep after.state

/-- The scanner is dropped between the text of a string and the quote that it has found behind it. -/
theorem scan_resumes_behind_filler :
    let whole := (Scanner.ofText (.ofMode .lilypond) "\"ab\" c" 0).drain
    let dropped := (Scanner.ofText (.ofMode .lilypond) "\"ab\" c" 0).pull 2
    let kept := StateStore.empty.keep dropped.2.state
    let thawed := dropped.2.state.freeze.thaw
    let resumed := (Scanner.ofText thawed "\"ab\" c" (behind 0 dropped.1)).drain
    (State.ofMode .lilypond).Rooted ∧ dropped.2.pending ≠ [] ∧
      kept.2.state? kept.1 = some thawed ∧ dropped.1 = whole.1.take 2 ∧
      resumed.1 = whole.1.drop 2 ∧ resumed.2.state = whole.2.state :=
  ⟨mode_rooted .lilypond, by decide +kernel,
    scan_resumes (mode_rooted .lilypond) "\"ab\" c" 0 2 .empty⟩

end ScoreText
