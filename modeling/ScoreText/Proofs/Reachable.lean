import ScoreText.Proofs.Pieces
import ScoreText.Proofs.Places

/-! The states that scanning and replaying lead to from the root of a mode. Wherever a scan starts, it
reads the text from there to the end. -/
namespace ScoreText

theorem ofText_reads {s : State} (rooted : s.Rooted) (text : String) (start : Nat) :
    ∃ front rest ps last, front ++ rest = text.toList ∧
      IsLeast {n | Boundary text n ∧ min start text.utf8ByteSize ≤ n} (byteSize front) ∧
      (∀ t, (Scanner.ofText t text start).Faces front.getLast? (byteSize front) rest) ∧
      Reads s front.getLast? rest ps last := by
  obtain ⟨front, rest, whole, found, least⟩ := ofText_seek text start
  obtain ⟨ps, last, reads⟩ := reads_exists rooted front.getLast? rest
  refine ⟨front, rest, ps, last, whole, least, ?_, reads⟩
  intro t
  rw [found]
  exact .idle

/-- A state that is reached from the root of a mode by taking tokens of texts and by replaying
tokens. A scan may start anywhere and may be given up after any number of tokens. -/
inductive Reachable (m : Mode) : State → Prop where
  | root : Reachable m (.ofMode m)
  | scanned {s : State} (text : String) (start taken : Nat) : Reachable m s →
      Reachable m ((Scanner.ofText s text start).pull taken).2.state
  | followed {s : State} (k : TokenKind) (text : List Char) : Reachable m s →
      Reachable m (s.follow k text)

theorem pull_rooted {s : State} (rooted : s.Rooted) (text : String) (start taken : Nat) :
    ((Scanner.ofText s text start).pull taken).2.state.Rooted := by
  obtain ⟨front, rest, ps, last, _, _, faces, reads⟩ := ofText_reads rooted text start
  obtain ⟨after, _, pulled, _, kept, _⟩ := Scanner.pull_reads (faces s) rooted reads taken
  rw [pulled]
  exact kept

theorem follow_rooted {s : State} (rooted : s.Rooted) (k : TokenKind) (text : List Char) :
    (s.follow k text).Rooted :=
  State.apply_rooted (State.settle_keeps_root rooted _) k text

theorem Reachable.rooted {m : Mode} {s : State} (reached : Reachable m s) : s.Rooted := by
  induction reached with
  | root => exact mode_rooted m
  | scanned text start taken _ ih => exact pull_rooted ih text start taken
  | followed k text _ ih => exact follow_rooted ih k text

end ScoreText
