import ScoreText.Proofs.Pieces
import ScoreText.Proofs.Places

/-! Reading a text line by line. Each line is read on its own, from the state that the line before it
has left behind. -/
namespace ScoreText

theorem lines_flatten (cs : List Char) : (lines cs).flatten = cs := by
  induction cs with
  | nil => rfl
  | cons c cs ih =>
    rw [lines]
    split
    · rw [List.flatten_cons, ih, List.singleton_append]
    · split
      · rename_i none
        rw [none] at ih
        rw [← ih]
        rfl
      · rename_i l ls some
        rw [some] at ih
        rw [← ih]
        rfl

theorem placed_shift (offset start : Nat) (ps : List (Piece × State)) :
    (placed start ps).map (·.1.shift offset) = (placed (offset + start) ps).map (·.1) := by
  induction ps generalizing start with
  | nil => rfl
  | cons p ps ih =>
    rw [placed, placed, List.map_cons, List.map_cons, ih, Nat.add_assoc]
    rfl

theorem placed_text (offset : Nat) (ps : List (Piece × State)) :
    String.join ((placed offset ps).map (·.1.text)) = String.ofList (textOf ps) := by
  induction ps generalizing offset with
  | nil => rfl
  | cons p ps ih =>
    rw [placed, List.map_cons, String.join_cons, ih, textOf_cons, String.ofList_append]

theorem ofText_start (s : State) (text : String) :
    (Scanner.ofText s text 0).Faces none 0 text.toList := by
  have start := ofText_front s text [] text.toList rfl
  rw [show (0 : Nat) = byteSize [] from rfl, start]
  exact .idle

/-- Reading lines one after the other. -/
inductive ReadsLines : State → List (List Char) → List (Piece × State) → State → Prop where
  | done {s : State} : ReadsLines s [] [] s
  | line {s t last : State} {l : List Char} {ls : List (List Char)}
      {ps qs : List (Piece × State)} :
      Reads s none l ps t → ReadsLines t ls qs last → ReadsLines s (l :: ls) (ps ++ qs) last

namespace ReadsLines

variable {s last : State} {ls : List (List Char)} {ps : List (Piece × State)}

theorem text (reads : ReadsLines s ls ps last) : textOf ps = ls.flatten := by
  induction reads with
  | done => rfl
  | line first _ ih => rw [textOf_append, first.text, ih, List.flatten_cons]

theorem sound (reads : ReadsLines s ls ps last) : ∀ q ∈ ps, q.1.text ≠ [] ∧ q.1.kind ≠ .error := by
  induction reads with
  | done =>
    intro q hq
    cases hq
  | line first _ ih =>
    intro q hq
    rcases List.mem_append.mp hq with hq | hq
    · exact first.sound q hq
    · exact ih q hq

theorem scanLines (offset : Nat) (reads : ReadsLines s ls ps last) :
    ScoreText.scanLines s offset ls = ((placed offset ps).map (·.1), last) := by
  induction reads generalizing offset with
  | done => rfl
  | @line s t last l ls ps qs first _ ih =>
    have faces := ofText_start s (String.ofList l)
    rw [String.toList_ofList] at faces
    obtain ⟨final, drained, reached⟩ := Scanner.drain_reads faces first
    simp only [ScoreText.scanLines, drained, reached, ih, placed_shift, placed_append, first.text, List.map_append, Nat.add_zero]

end ReadsLines

theorem readsLines_exists {s : State} (rooted : s.Rooted) (ls : List (List Char)) :
    ∃ ps last, ReadsLines s ls ps last := by
  induction ls generalizing s with
  | nil => exact ⟨_, _, .done⟩
  | cons l ls ih =>
    obtain ⟨ps, t, first⟩ := reads_exists rooted none l
    obtain ⟨qs, last, later⟩ := ih (first.rooted rooted)
    exact ⟨_, _, .line first later⟩

end ScoreText
