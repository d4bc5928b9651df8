/-!
Numbers written with ASCII digits. Integers that come from a text are kept only if they fit a
signed 64-bit word.
-/
namespace ScoreText.Text

def ofDigits (cs : List Char) : Nat :=
  cs.foldl (fun n c => 10 * n + (c.toNat - '0'.toNat)) 0

def natural? (cs : List Char) : Option Nat :=
  if !cs.isEmpty && cs.all Char.isDigit then some (ofDigits cs) else none

def isWord64 (n : Int) : Bool :=
  decide (-9223372036854775808 ≤ n) && decide (n ≤ 9223372036854775807)

theorem isWord64_iff {n : Int} :
    isWord64 n = true ↔ -9223372036854775808 ≤ n ∧ n ≤ 9223372036854775807 := by
  simp only [isWord64, Bool.and_eq_true, decide_eq_true_eq]

def integer? (cs : List Char) : Option Int :=
  match cs with
  | '-' :: ds => (natural? ds).map fun n => -(n : Int)
  | '+' :: ds => (natural? ds).map fun n => (n : Int)
  | ds => (natural? ds).map fun n => (n : Int)

/-- A number with an optional sign that fits a signed 64-bit word. -/
def int64? (cs : List Char) : Option Int :=
  (integer? cs).filter isWord64

/-- A number without a sign that fits a signed 64-bit word. -/
def count? (cs : List Char) : Option Int :=
  ((natural? cs).map fun n => (n : Int)).filter isWord64

/-- A number without a sign that fits an unsigned 32-bit word. -/
def nat32? (cs : List Char) : Option Nat :=
  (natural? cs).filter (· < 4294967296)

end ScoreText.Text
