import ScoreText.Proofs.Lexeme

/-! What a region finds at the front of a text. The character there rules out most candidates, and what
stands behind a match says where it ends. -/
namespace ScoreText

/-- A text that does not go on with a class of characters. -/
def Ends (p : Char → Bool) (cs : List Char) : Prop :=
  ∀ c ∈ cs.head?, p c = false

/-- What holds of each character in a list can be checked one by one. -/
theorem all_listed {P : Char → Prop} [DecidablePred P] {cs : List Char}
    (all : cs.all (fun c => decide (P c)) = true) : ∀ c ∈ cs, P c :=
  fun c member => of_decide_eq_true (List.all_eq_true.mp all c member)

@[simp] theorem ends_cons {p : Char → Bool} {c : Char} {cs : List Char} :
    Ends p (c :: cs) ↔ p c = false := by
  simp [Ends]

/-- A text of a class of characters that begins a longer text begins what stands in front of the end of the
class. -/
theorem Ends.begins {p : Char → Bool} {x y rest : List Char} (ends : Ends p rest)
    (all : ∀ c ∈ x, p c = true) (begins : x <+: y ++ rest) : x <+: y := by
  obtain ⟨behind, text⟩ := begins
  rcases List.append_eq_append_iff.mp text with ⟨more, inside, _⟩ | ⟨more, longer, tail⟩
  · exact ⟨more, inside.symm⟩
  · cases more with
    | nil => exact ⟨[], by simpa using longer⟩
    | cons c more =>
      rw [tail, List.cons_append, ends_cons, all c (by simp [longer])] at ends
      cases ends

namespace Pattern

variable {a b : Pattern} {p : Char → Bool} {cs rest last x y : List Char}

theorem first_seq (one : a.first? cs = some (x, rest)) (next : b.first? rest = some (y, last)) :
    (seq a b).first? cs = some (x ++ y, last) := by
  rw [first?_eq_head?] at one next ⊢
  obtain ⟨others, front⟩ := List.head?_eq_some_iff.mp one
  obtain ⟨more, back⟩ := List.head?_eq_some_iff.mp next
  simp only [cuts, thenCuts, front, back, List.flatMap_cons, List.map_cons, List.cons_append,
    List.head?_cons, Cut.after]

theorem first_one {c : Char} (holds : p c = true) : (one p).first? (c :: cs) = some ([c], cs) := by
  simp [first?, matchThen, holds]

theorem first_run (all : ∀ c ∈ x, p c = true) (ends : Ends p rest) :
    (run p).first? (x ++ rest) = some (x, rest) := by
  rw [first?_eq_head?, cuts]
  induction x with
  | nil =>
    cases rest with
    | nil => rfl
    | cons c rest => simp [runCuts, ends_cons.mp ends]
  | cons c x ih =>
    have here : p c = true := all c List.mem_cons_self
    have later := ih fun d member => all d (List.mem_cons_of_mem c member)
    simp [runCuts, here, later, Cut.after]

theorem first_oneOrMore (some_text : x ≠ []) (all : ∀ c ∈ x, p c = true) (ends : Ends p rest) :
    (oneOrMore p).first? (x ++ rest) = some (x, rest) := by
  cases x with
  | nil => contradiction
  | cons c x =>
    have here : p c = true := all c List.mem_cons_self
    exact first_seq (first_one here)
      (first_run (fun d member => all d (List.mem_cons_of_mem c member)) ends)

theorem first_right (none_left : a.first? cs = none) (right : b.first? cs = some (x, rest)) :
    (alt a b).first? cs = some (x, rest) := by
  rw [first?_eq_head?] at none_left right ⊢
  rw [cuts, List.head?_eq_none_iff.mp none_left, List.nil_append, right]

theorem first_left (left : a.first? cs = some (x, rest)) :
    (alt a b).first? cs = some (x, rest) := by
  rw [first?_eq_head?] at left ⊢
  obtain ⟨others, front⟩ := List.head?_eq_some_iff.mp left
  rw [cuts, front, List.cons_append, List.head?_cons]

end Pattern

section Find

variable {k : TokenKind} {r : Region} {c : Char} {cs : List Char}

theorem TokenKind.at_none_of (before : Option Char) (no : ∀ x y, x ++ y = cs → ¬ Pattern.Matches k.pattern x) :
    k.at? before cs = none := by
  simp only [at?, Pattern.first_none no]

/-- A kind whose pattern cannot begin with a character is not found there. -/
theorem TokenKind.at_none (before : Option Char) (cs : List Char) (no : k.pattern.begins c = false) :
    k.at? before (c :: cs) = none := by
  refine at_none_of before fun x y whole taken => ?_
  have long := Pattern.least_le_length taken
  have positive := TokenKind.pattern_least k
  cases x with
  | nil =>
    rw [List.length_nil] at long
    omega
  | cons d x =>
    rw [(List.cons.inj whole).1] at taken
    exact absurd (Pattern.begins_of_match taken) (by simp [no])

theorem TokenKind.at_of_first {before : Option Char} {x rest : List Char}
    (found : k.pattern.first? cs = some (x, rest))
    (kept : k.keep? ⟨before, x, rest⟩ = some x.length) :
    k.at? before cs = some ⟨k, x, rest⟩ := by
  have whole : x ++ rest = cs := (Pattern.first_match found).1
  subst whole
  simp [at?, refine?, found, kept]

namespace Region

/-- The candidates that can begin with a character, the first of them in front. -/
def starters (r : Region) (c : Char) : List TokenKind :=
  r.rule.candidates.filter (·.pattern.begins c)

theorem at_eq_starters (r : Region) (before : Option Char) (c : Char) (cs : List Char) :
    r.at? before (c :: cs) = (r.starters c).findSome? (·.at? before (c :: cs)) := by
  rw [at?, starters]
  induction r.rule.candidates with
  | nil => rfl
  | cons k ks ih =>
    cases begins : k.pattern.begins c with
    | true => simp only [List.findSome?_cons, ih, List.filter_cons, begins, if_true]
    | false =>
      simp only [List.findSome?_cons, ih, List.filter_cons, begins,
        TokenKind.at_none before cs begins, Bool.false_eq_true, if_false]

theorem at_none (before : Option Char) (cs : List Char) (no_one : r.starters c = []) :
    r.at? before (c :: cs) = none := by
  rw [at_eq_starters, no_one, List.findSome?_nil]

/-- The first candidate that can begin with the character there is found if it matches. -/
theorem at_first {before : Option Char} {found : Found} (first : (r.starters c).head? = some k)
    (hit : k.at? before (c :: cs) = some found) : r.at? before (c :: cs) = some found := by
  obtain ⟨others, starters⟩ := List.head?_eq_some_iff.mp first
  rw [at_eq_starters, starters, List.findSome?_cons, hit]

end Region

end Find

end ScoreText
