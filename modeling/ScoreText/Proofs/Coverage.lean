import Mathlib.Data.List.Chain
import ScoreText.Proofs.Linewise
import ScoreText.Proofs.Reachable

/-! Tokens cover the text. From the place where a scan starts to the end of the text, each token begins
where the one before it ends, none is empty and none is an error. -/
namespace ScoreText

/-- A token stands in a text at the byte offset that it says. -/
def Token.StandsIn (t : Token) (text : String) : Prop :=
  ∃ front behind, front ++ t.text.toList ++ behind = text.toList ∧ byteSize front = t.start

/-- Tokens cover a text from a byte offset to its end. -/
structure Covers (text : String) (first : Nat) (tokens : List Token) : Prop where
  some_text : ∀ t ∈ tokens, t.text ≠ ""
  no_error : ∀ t ∈ tokens, t.kind ≠ .error
  stands : ∀ t ∈ tokens, t.StandsIn text
  bounds : ∀ t ∈ tokens, Boundary text t.start ∧ Boundary text t.stop
  none_left : tokens = [] ↔ first = text.utf8ByteSize
  begins : ∀ t ∈ tokens.head?, t.start = first
  goes_on : tokens.IsChain fun t next => t.stop = next.start
  ends : ∀ t ∈ tokens.getLast?, t.stop = text.utf8ByteSize

theorem Token.StandsIn.bounds {t : Token} {text : String} (stands : t.StandsIn text) :
    Boundary text t.start ∧ Boundary text t.stop := by
  obtain ⟨front, behind, whole, size⟩ := stands
  rw [← size]
  constructor
  · exact boundary_front ⟨t.text.toList ++ behind, by rw [← List.append_assoc, whole]⟩
  · rw [Token.stop, ← size, ← byteSize_toList, ← byteSize_append]
    exact boundary_front ⟨behind, whole⟩

theorem Token.StandsIn.start_lt {t : Token} {text : String} (stands : t.StandsIn text)
    (some_text : t.text ≠ "") : t.start < text.utf8ByteSize := by
  obtain ⟨front, behind, whole, size⟩ := stands
  have positive := byteSize_pos (String.toList_eq_nil_iff.not.mpr some_text)
  rw [← byteSize_toList, ← whole, byteSize_append, byteSize_append, size]
  omega

namespace Covers

theorem nil (text : String) : Covers text text.utf8ByteSize [] where
  some_text := by simp
  no_error := by simp
  stands := by simp
  bounds := by simp
  none_left := by simp
  begins := by simp
  goes_on := .nil
  ends := by simp

theorem cons {text : String} {t : Token} {tokens : List Token} (some_text : t.text ≠ "")
    (no_error : t.kind ≠ .error) (stands : t.StandsIn text) (later : Covers text t.stop tokens) :
    Covers text t.start (t :: tokens) where
  some_text := List.forall_mem_cons.mpr ⟨some_text, later.some_text⟩
  no_error := List.forall_mem_cons.mpr ⟨no_error, later.no_error⟩
  stands := List.forall_mem_cons.mpr ⟨stands, later.stands⟩
  bounds := List.forall_mem_cons.mpr ⟨stands.bounds, later.bounds⟩
  none_left := by
    have ahead := stands.start_lt some_text
    simp only [List.cons_ne_nil, false_iff]
    omega
  begins := by simp
  goes_on := later.goes_on.cons fun next hn => (later.begins next hn).symm
  ends := by
    intro u hu
    cases tokens with
    | nil =>
      cases Option.some.inj hu
      exact later.none_left.mp rfl
    | cons v tokens => exact later.ends u (by simpa using hu)

end Covers

/-- Pieces that are neither empty nor errors cover the text that they make up. -/
theorem placed_covers {text : String} (front : List Char) {ps : List (Piece × State)}
    (whole : front ++ textOf ps = text.toList)
    (sound : ∀ q ∈ ps, q.1.text ≠ [] ∧ q.1.kind ≠ .error) :
    Covers text (byteSize front) ((placed (byteSize front) ps).map (·.1)) := by
  induction ps generalizing front with
  | nil =>
    have all : front = text.toList := (List.append_nil front).symm.trans whole
    rw [all, byteSize_toList]
    exact .nil text
  | cons q ps ih =>
    rw [textOf_cons, ← List.append_assoc] at whole
    have first := sound q List.mem_cons_self
    have later := ih (front ++ q.1.text) whole fun q hq => sound q (List.mem_cons_of_mem _ hq)
    rw [byteSize_append] at later
    rw [placed, List.map_cons]
    let t : Token := ⟨q.1.kind, byteSize front, String.ofList q.1.text⟩
    refine Covers.cons (t := t) ?_ first.2 ?_ ?_
    · intro empty
      exact first.1 (String.ofList_injective empty)
    · exact ⟨front, textOf ps, by rw [String.toList_ofList, whole], rfl⟩
    · rw [Token.stop, utf8ByteSize_ofList]
      exact later

/-- The tokens of a scan cover the text from the first character that does not begin before the
start. Every state that is reached from the root of a mode scans in this way, and the tokens of a
text, which are scanned line by line, cover it from its beginning. -/
theorem tokens_cover :
    (∀ s : State, s.Rooted → ∀ (text : String) (start : Nat),
      ∃ first, IsLeast {n | Boundary text n ∧ min start text.utf8ByteSize ≤ n} first ∧
        Covers text first ((s.scan text start).map (·.1))) ∧
    (∀ (m : Mode) (s : State), Reachable m s → s.Rooted) ∧
    ∀ (m : Mode) (text : String),
      Covers text 0 (tokenize m text) ∧ String.join ((tokenize m text).map (·.text)) = text := by
  refine ⟨?_, fun m s reached => reached.rooted, ?_⟩
  · intro s rooted text start
    obtain ⟨front, rest, ps, last, whole, least, faces, reads⟩ := ofText_reads rooted text start
    obtain ⟨final, drained, _⟩ := Scanner.drain_reads (faces s) reads
    refine ⟨byteSize front, least, ?_⟩
    rw [State.scan, drained]
    exact placed_covers front (by rw [reads.text, whole]) reads.sound
  · intro m text
    obtain ⟨ps, last, reads⟩ := readsLines_exists (mode_rooted m) (lines text.toList)
    have whole : textOf ps = text.toList := by rw [reads.text, lines_flatten]
    have scanned : tokenize m text = (placed 0 ps).map (·.1) := by
      rw [tokenize, reads.scanLines]
    rw [scanned]
    constructor
    · exact placed_covers [] whole reads.sound
    · rw [List.map_map]
      exact (placed_text 0 ps).trans (by rw [whole, String.ofList_toList])

/-- A scan that starts within a character. -/
theorem tokens_cover_within_character :
    Reachable .lilypond (.ofMode .lilypond) ∧ (State.ofMode .lilypond).Rooted ∧
    ∃ first, IsLeast {n | Boundary "é c4" n ∧ min 1 "é c4".utf8ByteSize ≤ n} first ∧
      Covers "é c4" first (((State.ofMode .lilypond).scan "é c4" 1).map (·.1)) :=
  ⟨.root, tokens_cover.2.1 .lilypond _ .root, tokens_cover.1 (.ofMode .lilypond) rfl "é c4" 1⟩

end ScoreText
