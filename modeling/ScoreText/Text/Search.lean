/-!
Looking for a text within another.
-/
namespace ScoreText.Text

def occurs (needle : List Char) : List Char → Bool
  | [] => needle.isEmpty
  | c :: cs => needle.isPrefixOf (c :: cs) || occurs needle cs

theorem occurs_iff {needle cs : List Char} : occurs needle cs = true ↔ needle <:+: cs := by
  induction cs with
  | nil => cases needle <;> simp [occurs]
  | cons c cs ih => simp [occurs, ih, List.infix_cons_iff, List.isPrefixOf_iff_prefix]

end ScoreText.Text
