import ScoreText.Proofs.Lexeme
import ScoreText.Proofs.Places

/-! What a region finds in a text, said without the way it is found: the token begins at the first character
at which one of the candidates is accepted, and is the one of the first candidate that is accepted there. -/
namespace ScoreText

/-- A token of a kind between two byte offsets. -/
structure Hit where
  start : Nat
  stop : Nat
  kind : TokenKind
  deriving DecidableEq, Repr

/-- A kind is accepted from one byte offset to another: at the first one its pattern has a match, and what
is kept of the preferred one ends at the other. -/
def TokenKind.Accepted (k : TokenKind) (text : String) (start stop : Nat) : Prop :=
  ∃ front rest cut n, front ++ rest = text.toList ∧ byteSize front = start ∧
    (k.pattern.cuts rest).head? = some cut ∧ k.keep? ⟨front.getLast?, cut.1, cut.2⟩ = some n ∧
    stop = start + byteSize (rest.take n)

namespace Region

/-- A candidate is accepted at the byte offset. -/
def Accepts (r : Region) (text : String) (start : Nat) : Prop :=
  ∃ k ∈ r.rule.candidates, ∃ stop, k.Accepted text start stop

/-- The token is accepted, and no candidate in front of its kind is accepted where it starts. -/
def Chooses (r : Region) (text : String) (hit : Hit) : Prop :=
  hit.kind.Accepted text hit.start hit.stop ∧ ∃ earlier later,
    r.rule.candidates = earlier ++ hit.kind :: later ∧
    ∀ k ∈ earlier, ∀ stop, ¬ k.Accepted text hit.start stop

/-- The token that the region finds at a byte offset. -/
def hitAt? (r : Region) (text : String) (pos : Nat) : Option Hit :=
  let (before, offset, rest) := seek none 0 pos text.toList
  (r.matchAt? before rest).map fun found => ⟨offset, offset + byteSize found.lexeme, found.kind⟩

/-- The token that the region finds first from a byte offset on. -/
def hitFrom? (r : Region) (text : String) (pos : Nat) : Option Hit :=
  let (before, offset, rest) := seek none 0 pos text.toList
  (r.seek? before rest).map fun (skipped, found) =>
    ⟨offset + byteSize skipped, offset + byteSize skipped + byteSize found.lexeme, found.kind⟩

end Region

theorem empty_of_byteSize {cs : List Char} (none_left : byteSize cs = 0) : cs = [] := by
  cases cs with
  | nil => rfl
  | cons c cs => exact absurd (byteSize_pos (List.cons_ne_nil c cs)) (by omega)

/-- Of two front parts of a text the one that ends first begins the other. -/
theorem front_of_le {front rest other behind : List Char} (same : front ++ rest = other ++ behind)
    (size : byteSize front ≤ byteSize other) : ∃ more, other = front ++ more ∧ rest = more ++ behind := by
  rcases List.append_eq_append_iff.mp same with ⟨more, rfl, rfl⟩ | ⟨more, rfl, rfl⟩
  · exact ⟨more, rfl, rfl⟩
  · rw [byteSize_append] at size
    obtain rfl : more = [] := empty_of_byteSize (by omega)
    exact ⟨[], by simp, by simp⟩

/-- A byte offset divides a text in one way. -/
theorem split_unique {front rest other behind : List Char} (same : front ++ rest = other ++ behind)
    (size : byteSize front = byteSize other) : front = other ∧ rest = behind := by
  obtain ⟨more, rfl, rfl⟩ := front_of_le same (Nat.le_of_eq size)
  rw [byteSize_append] at size
  obtain rfl : more = [] := empty_of_byteSize (by omega)
  simp

theorem last_append (front x : List Char) : (front ++ x).getLast? = x.getLast?.or front.getLast? := by
  rw [List.getLast?_append]

section Places

variable {r : Region} {text : String} {front rest : List Char} {k : TokenKind} {stop : Nat}

theorem TokenKind.accepted_iff (whole : front ++ rest = text.toList) :
    k.Accepted text (byteSize front) stop ↔
      ∃ found, k.at? front.getLast? rest = some found ∧ stop = byteSize front + byteSize found.lexeme := by
  constructor
  · rintro ⟨other, behind, cut, n, divides, size, first, kept, rfl⟩
    obtain ⟨rfl, rfl⟩ := split_unique (divides.trans whole.symm) size
    rw [← Pattern.first?_eq_head?] at first
    exact ⟨⟨k, behind.take n, behind.drop n⟩, by simp [at?, refine?, first, kept], rfl⟩
  · rintro ⟨found, hit, rfl⟩
    obtain ⟨x, y, n, first, kept, _, _, rfl⟩ := TokenKind.at_cases hit
    rw [Pattern.first?_eq_head?] at first
    exact ⟨front, rest, (x, y), n, whole, rfl, first, kept, rfl⟩

theorem TokenKind.not_accepted_iff (whole : front ++ rest = text.toList) :
    (∀ stop, ¬ k.Accepted text (byteSize front) stop) ↔ k.at? front.getLast? rest = none := by
  simp only [TokenKind.accepted_iff whole]
  constructor
  · intro never
    cases hit : k.at? front.getLast? rest with
    | none => rfl
    | some found => exact absurd ⟨found, hit, rfl⟩ (never _)
  · rintro none_found stop ⟨found, hit, _⟩
    simp [none_found] at hit

theorem Region.accepts_iff (whole : front ++ rest = text.toList) :
    r.Accepts text (byteSize front) ↔ (r.at? front.getLast? rest).isSome := by
  rw [Region.at?, List.findSome?_isSome_iff]
  simp only [Region.Accepts, TokenKind.accepted_iff whole]
  constructor
  · rintro ⟨k, listed, stop, found, hit, _⟩
    exact ⟨k, listed, Option.isSome_of_eq_some hit⟩
  · rintro ⟨k, listed, stands⟩
    obtain ⟨found, hit⟩ := Option.isSome_iff_exists.mp stands
    exact ⟨k, listed, _, found, hit, rfl⟩

theorem Region.chooses_iff (whole : front ++ rest = text.toList) (hit : Hit)
    (start : hit.start = byteSize front) :
    r.Chooses text hit ↔ ∃ found, r.at? front.getLast? rest = some found ∧
      hit = ⟨byteSize front, byteSize front + byteSize found.lexeme, found.kind⟩ := by
  obtain ⟨_, stop, kind⟩ := hit
  subst start
  simp only [Region.Chooses, TokenKind.not_accepted_iff whole]
  simp only [Region.at?, TokenKind.accepted_iff whole, List.findSome?_eq_some_iff]
  constructor
  · rintro ⟨⟨found, hit, rfl⟩, earlier, later, candidates, none_earlier⟩
    refine ⟨found, ⟨earlier, kind, later, candidates, hit, none_earlier⟩, ?_⟩
    rw [TokenKind.at_kind hit]
  · rintro ⟨found, ⟨earlier, k, later, candidates, hit, none_earlier⟩, same⟩
    cases same
    rw [TokenKind.at_kind hit]
    exact ⟨⟨found, hit, rfl⟩, earlier, later, candidates, none_earlier⟩

end Places

section Search

variable {r : Region} {before : Option Char} {cs skipped : List Char} {found : Found}

/-- Where a search finds nothing no candidate stands anywhere. -/
theorem Region.search_none_at (none_found : r.search before cs = none) (x y : List Char)
    (whole : x ++ y = cs) : r.at? (x.getLast?.or before) y = none := by
  induction cs generalizing before x with
  | nil =>
    obtain ⟨rfl, rfl⟩ := List.append_eq_nil_iff.mp whole
    rw [Region.at_end]
  | cons c cs ih =>
    rw [Region.search] at none_found
    split at none_found
    · cases none_found
    · rename_i none_here
      cases x with
      | nil =>
        obtain rfl : y = c :: cs := whole
        exact none_here
      | cons d x =>
        obtain ⟨rfl, later⟩ := List.cons.inj whole
        rw [last_cons]
        exact ih (Option.map_eq_none_iff.mp none_found) x later

theorem Region.search_before (some_found : r.search before cs = some (skipped, found)) (x y : List Char)
    (whole : x ++ y = cs) (front : byteSize x < byteSize skipped) : r.at? (x.getLast?.or before) y = none := by
  induction cs generalizing before x skipped with
  | nil =>
    obtain ⟨rfl, rfl⟩ := List.append_eq_nil_iff.mp whole
    rw [Region.at_end]
  | cons c cs ih =>
    rw [Region.search] at some_found
    split at some_found
    · cases some_found
      exact absurd front (Nat.not_lt_zero _)
    · rename_i none_here
      obtain ⟨⟨behind, later⟩, hit, same⟩ := Option.map_eq_some_iff.mp some_found
      cases same
      cases x with
      | nil =>
        obtain rfl : y = c :: cs := whole
        exact none_here
      | cons d x =>
        obtain ⟨rfl, divides⟩ := List.cons.inj whole
        rw [last_cons]
        rw [byteSize, byteSize] at front
        exact ih hit x divides (by omega)

end Search

section Text

variable (r : Region) {text : String} {front rest : List Char}

theorem Region.hitAt_front (whole : front ++ rest = text.toList) :
    r.hitAt? text (byteSize front) = (r.at? front.getLast? rest).map fun found =>
      ⟨byteSize front, byteSize front + byteSize found.lexeme, found.kind⟩ := by
  have place := seek_front none 0 front rest
  rw [Nat.zero_add, whole, Option.or_none] at place
  simp only [Region.hitAt?, place, Region.matchAt_eq]

theorem Region.hitFrom_front (whole : front ++ rest = text.toList) :
    r.hitFrom? text (byteSize front) = (r.search front.getLast? rest).map fun (skipped, found) =>
      ⟨byteSize front + byteSize skipped, byteSize front + byteSize skipped + byteSize found.lexeme,
        found.kind⟩ := by
  have place := seek_front none 0 front rest
  rw [Nat.zero_add, whole, Option.or_none] at place
  simp only [Region.hitFrom?, place, Region.seek_eq]

/-- Where a candidate is accepted the text behind the start is divided. -/
theorem Region.accepts_behind {r : Region} (whole : front ++ rest = text.toList) {start : Nat}
    (behind : byteSize front ≤ start) (accepts : r.Accepts text start) :
    ∃ x y, x ++ y = rest ∧ start = byteSize front + byteSize x ∧
      (r.at? (x.getLast?.or front.getLast?) y).isSome := by
  obtain ⟨_, _, _, other, tail, _, _, divides, rfl, _⟩ := id accepts
  obtain ⟨x, rfl, rfl⟩ := front_of_le (whole.trans divides.symm) behind
  refine ⟨x, tail, rfl, byteSize_append front x, ?_⟩
  rw [← last_append, ← Region.accepts_iff divides]
  exact accepts

theorem Region.chooses_unique {r : Region} {hit other : Hit} (start : hit.start = other.start)
    (chosen : r.Chooses text hit) (too : r.Chooses text other) : hit = other := by
  obtain ⟨front, rest, _, _, whole, size, _⟩ := id chosen.1
  obtain ⟨found, first, rfl⟩ := (Region.chooses_iff whole hit size.symm).mp chosen
  obtain ⟨again, second, rfl⟩ := (Region.chooses_iff whole other (start.symm.trans size.symm)).mp too
  cases first.symm.trans second
  rfl

theorem Region.hitFrom_none (whole : front ++ rest = text.toList)
    (none_found : r.hitFrom? text (byteSize front) = none) (start : Nat) (behind : byteSize front ≤ start) :
    ¬ r.Accepts text start := by
  intro accepts
  rw [r.hitFrom_front whole, Option.map_eq_none_iff] at none_found
  obtain ⟨x, y, divides, rfl, stands⟩ := Region.accepts_behind whole behind accepts
  rw [Region.search_none_at none_found x y divides] at stands
  cases stands

theorem Region.hitFrom_some (whole : front ++ rest = text.toList) {hit : Hit}
    (some_found : r.hitFrom? text (byteSize front) = some hit) :
    IsLeast {start | byteSize front ≤ start ∧ r.Accepts text start} hit.start ∧ r.Chooses text hit := by
  rw [r.hitFrom_front whole, Option.map_eq_some_iff] at some_found
  obtain ⟨⟨skipped, found⟩, search, rfl⟩ := some_found
  have stands := Region.search_hit search
  have divides : (front ++ skipped) ++ (found.lexeme ++ found.rest) = text.toList := by
    rw [List.append_assoc, Region.search_split search, whole]
  rw [← last_append] at stands
  have accepts : r.Accepts text (byteSize front + byteSize skipped) := by
    rw [← byteSize_append, Region.accepts_iff divides, stands]
    rfl
  refine ⟨⟨⟨Nat.le_add_right _ _, accepts⟩, ?_⟩, ?_⟩
  · rintro start ⟨behind, other⟩
    obtain ⟨x, y, whole_rest, rfl, here⟩ := Region.accepts_behind whole behind other
    apply Nat.add_le_add_left
    apply Nat.le_of_not_lt
    intro earlier
    rw [Region.search_before search x y whole_rest earlier] at here
    cases here
  · rw [Region.chooses_iff divides _ (byteSize_append front skipped).symm]
    exact ⟨found, stands, by rw [byteSize_append]⟩

/-- Seeking finds the first place from a boundary of characters on at which a candidate is accepted, and
matching at a place finds what is accepted there: both choose the first candidate that is accepted, with
its own end. -/
theorem Region.finds_leftmost (r : Region) {pos : Nat} (boundary : Boundary text pos) :
    (∀ hit, r.hitFrom? text pos = some hit ↔
        IsLeast {start | pos ≤ start ∧ r.Accepts text start} hit.start ∧ r.Chooses text hit) ∧
      (r.hitFrom? text pos = none ↔ ∀ start, pos ≤ start → ¬ r.Accepts text start) ∧
      (∀ hit, r.hitAt? text pos = some hit ↔ hit.start = pos ∧ r.Chooses text hit) ∧
      (r.hitAt? text pos = none ↔ ¬ r.Accepts text pos) := by
  obtain ⟨front, ⟨rest, whole⟩, rfl⟩ := boundary
  refine ⟨fun hit => ⟨r.hitFrom_some whole, ?_⟩, ⟨r.hitFrom_none whole, ?_⟩, fun hit => ?_, ?_⟩
  · rintro ⟨least, chosen⟩
    cases found : r.hitFrom? text (byteSize front) with
    | none => exact absurd least.1.2 (r.hitFrom_none whole found hit.start least.1.1)
    | some other =>
      obtain ⟨first, too⟩ := r.hitFrom_some whole found
      have start := Nat.le_antisymm (first.2 least.1) (least.2 first.1)
      rw [Region.chooses_unique start too chosen]
  · intro never
    cases found : r.hitFrom? text (byteSize front) with
    | none => rfl
    | some other =>
      have first := (r.hitFrom_some whole found).1.1
      exact absurd first.2 (never _ first.1)
  · rw [r.hitAt_front whole, Option.map_eq_some_iff]
    constructor
    · rintro ⟨found, stands, rfl⟩
      exact ⟨rfl, (Region.chooses_iff whole _ rfl).mpr ⟨found, stands, rfl⟩⟩
    · rintro ⟨start, chosen⟩
      obtain ⟨found, stands, same⟩ := (Region.chooses_iff whole hit start).mp chosen
      exact ⟨found, stands, same.symm⟩
  · rw [r.hitAt_front whole, Option.map_eq_none_iff, Region.accepts_iff whole]
    cases r.at? front.getLast? rest <;> simp

/-- Behind a character of two bytes: the command for a score and the known commands are not accepted, so
that the third candidate is chosen. -/
theorem Region.finds_leftmost_user_command :
    Boundary "é\\scores" 2 ∧
      IsLeast {start | 2 ≤ start ∧ (Region.lily .markup).Accepts "é\\scores" start} 2 ∧
      (Region.lily .markup).Chooses "é\\scores" ⟨2, 9, .lily .markupUserCommand⟩ := by
  have boundary : Boundary "é\\scores" 2 := ⟨['é'], ⟨"\\scores".toList, rfl⟩, rfl⟩
  have found : (Region.lily .markup).hitFrom? "é\\scores" 2 = some ⟨2, 9, .lily .markupUserCommand⟩ := by
    decide +kernel
  exact ⟨boundary, ((Region.finds_leftmost _ boundary).1 _).mp found⟩

end Text

end ScoreText
