import Mathlib.Data.List.TakeWhile
import ScoreText.Proofs.LineKinds
import ScoreText.Proofs.Pieces
import ScoreText.Proofs.Places

/-! Regions at a line end. What a region makes of the front of a text it also makes of the line alone,
unless the piece goes on behind the line. Such a piece is filler or white space. Then the region makes
a piece of the same kind of the whole line, and another one of what comes on the lines behind. -/
namespace ScoreText

open Text (isBlank)

/-- The dialects that can be read line by line. -/
def Region.linewise : Region → Bool
  | lily _ | scheme _ | html _ => true
  | latex _ | texinfo _ | docBook _ => false

theorem Region.listed_linewise {region : Region} (linewise : region.linewise = true) :
    ∀ k ∈ region.rule.candidates, k.linewise = true := by
  have all : (region.rule.candidates.all (·.linewise)) = true := by
    cases region with
    | lily region => cases region <;> decide
    | scheme region => cases region <;> decide
    | html region => cases region <;> decide
    | latex | texinfo | docBook => cases linewise
  exact List.all_eq_true.mp all

/-- What is found in a line and what is found there in the whole text, with `r` behind the line: the
same, or white space that goes on behind the line. -/
inductive Continues (l r : List Char) : Option Found → Option Found → Prop where
  | inside (hit : Option Found) : Continues l r hit (hit.map (Found.extend r))
  | across : r.takeWhile isBlank ≠ [] →
      Continues l r (some ⟨.space, l, []⟩)
        (some ⟨.space, l ++ r.takeWhile isBlank, r.dropWhile isBlank⟩)

theorem Continues.isSome {l r : List Char} {line whole : Option Found}
    (h : Continues l r line whole) : whole.isSome = line.isSome := by
  cases h with
  | inside hit => exact Option.isSome_map
  | across _ => rfl

/-- The line ends between two texts: there is nothing behind it, or nothing left of it, or its last
character is the line end. -/
def LineEnd (l r : List Char) : Prop :=
  r = [] ∨ l = [] ∨ l.getLast? = some '\n'

theorem LineEnd.ended {l r : List Char} (h : LineEnd l r) (some_text : l ≠ []) :
    r = [] ∨ '\n' ∈ l := by
  rcases h with none | empty | last
  · exact .inl none
  · exact absurd empty some_text
  · exact .inr (List.mem_of_getLast? last)

theorem LineEnd.suffix {x l r : List Char} (h : LineEnd (x ++ l) r) : LineEnd l r := by
  by_cases empty : l = []
  · exact .inr (.inl empty)
  · rcases h with none | both | last
    · exact .inl none
    · exact absurd (List.append_eq_nil_iff.mp both).2 empty
    · rw [List.getLast?_append, List.getLast?_eq_some_getLast empty, Option.some_or] at last
      exact .inr (.inr (by rw [List.getLast?_eq_some_getLast empty, last]))

section Finding

variable {l r : List Char} {before other : Option Char}

theorem takeWhile_stops {p : Char → Bool} (stops : l.dropWhile p ≠ []) :
    (l ++ r).takeWhile p = l.takeWhile p ∧ (l ++ r).dropWhile p = l.dropWhile p ++ r := by
  have whole : l.takeWhile p ++ l.dropWhile p = l := List.takeWhile_append_dropWhile
  have size := congrArg List.length whole
  have positive := List.length_pos_iff.mpr stops
  rw [List.length_append] at size
  rw [List.takeWhile_append, List.dropWhile_append, if_neg (by omega), if_neg (by simpa using stops)]
  exact ⟨rfl, rfl⟩

theorem space_continues (l r : List Char) (before other : Option Char) (some_text : l ≠ []) :
    Continues l r (TokenKind.space.at? other l) (TokenKind.space.at? before (l ++ r)) := by
  cases l with
  | nil => exact absurd rfl some_text
  | cons c l =>
    rw [List.cons_append, TokenKind.space_at, TokenKind.space_at]
    by_cases blank : isBlank c = true
    · simp only [blank, if_true]
      by_cases all : l.dropWhile isBlank = []
      · have blanks := List.dropWhile_eq_nil_iff.mp all
        rw [List.takeWhile_append_of_pos blanks, List.dropWhile_append_of_pos blanks, all,
          List.takeWhile_eq_self_iff.mpr blanks]
        by_cases ends : r.takeWhile isBlank = []
        · have rest : r.takeWhile isBlank ++ r.dropWhile isBlank = r :=
            List.takeWhile_append_dropWhile
          rw [ends, List.nil_append] at rest
          rw [ends, rest, List.append_nil]
          exact .inside (some ⟨.space, c :: l, []⟩)
        · exact .across ends
      · rw [(takeWhile_stops all).1, (takeWhile_stops all).2]
        exact .inside (some ⟨.space, c :: l.takeWhile isBlank, l.dropWhile isBlank⟩)
    · simp only [blank, Bool.false_eq_true, if_false]
      exact .inside none

theorem kind_continues {k : TokenKind} (linewise : k.linewise = true) (some_text : l ≠ [])
    (line : LineEnd l r) (same : beside before = beside other) :
    Continues l r (k.at? other l) (k.at? before (l ++ r)) := by
  by_cases space : k = .space
  · subst space
    exact space_continues l r before other some_text
  · rw [TokenKind.at_extend linewise space (line.ended some_text) same]
    exact .inside _

namespace Region

variable {region : Region}

theorem at_continues (linewise : region.linewise = true) (some_text : l ≠ []) (line : LineEnd l r)
    (same : beside before = beside other) :
    Continues l r (region.at? other l) (region.at? before (l ++ r)) := by
  have candidates := listed_linewise linewise
  simp only [at?]
  generalize region.rule.candidates = ks at candidates
  induction ks with
  | nil => exact .inside none
  | cons k ks ih =>
    have first := kind_continues (candidates k List.mem_cons_self) some_text line same
    have later := ih fun k hk => candidates k (List.mem_cons_of_mem _ hk)
    rw [List.findSome?_cons, List.findSome?_cons]
    generalize k.at? other l = front, k.at? before (l ++ r) = whole at first
    cases front with
    | none =>
      cases first
      exact later
    | some found =>
      cases first with
      | inside => exact .inside (some found)
      | across goes_on => exact .across goes_on

/-- A line end in front of a place counts as much as nothing. -/
theorem at_beside (linewise : region.linewise = true) (same : beside before = beside other)
    (cs : List Char) : region.at? before cs = region.at? other cs := by
  by_cases empty : cs = []
  · rw [empty, at_end, at_end]
  · have found := at_continues (r := []) linewise empty (.inl rfl) same
    rw [List.append_nil] at found
    generalize region.at? other cs = line, region.at? before cs = whole at found
    cases found with
    | inside => cases line <;> simp [Found.extend]
    | across goes_on => exact absurd rfl goes_on

theorem search_beside (linewise : region.linewise = true) (same : beside before = beside other)
    (cs : List Char) : region.search before cs = region.search other cs := by
  cases cs <;> rw [search, search, at_beside linewise same]

/-- What is found in a line is found at the same place in the whole text. -/
theorem search_line (linewise : region.linewise = true) (line : LineEnd l r)
    (same : beside before = beside other) {skipped : List Char} {found : Found}
    (hit : region.search other l = some (skipped, found)) :
    ∃ further, region.search before (l ++ r) = some (skipped, further) := by
  induction l generalizing before other skipped with
  | nil =>
    rw [search, at_end] at hit
    cases hit
  | cons c l ih =>
    have here := (at_continues linewise (List.cons_ne_nil c l) line same).isSome
    rw [search] at hit
    rw [List.cons_append, search]
    rw [List.cons_append] at here
    cases front : region.at? other (c :: l) with
    | some first =>
      rw [front] at hit here
      cases hit
      obtain ⟨further, found⟩ := Option.isSome_iff_exists.mp here
      exact ⟨further, by rw [found]⟩
    | none =>
      rw [front] at hit here
      obtain ⟨⟨behind, later⟩, hs, pair⟩ := Option.map_eq_some_iff.mp hit
      cases pair
      obtain ⟨further, found⟩ := ih (line.suffix (x := [c])) rfl hs
      have gone : region.at? before (c :: (l ++ r)) = none := by simpa using here
      exact ⟨further, by rw [gone, found]; rfl⟩

/-- Where nothing is found in the line, the search goes on behind it. -/
theorem search_behind (linewise : region.linewise = true) (line : LineEnd l r)
    (same : beside before = beside other) (nothing : region.search other l = none) :
    region.search before (l ++ r) =
      (region.search (l.getLast?.or before) r).map fun (skipped, found) => (l ++ skipped, found) := by
  induction l generalizing before other with
  | nil => simp
  | cons c l ih =>
    have here := (at_continues linewise (List.cons_ne_nil c l) line same).isSome
    rw [search] at nothing
    rw [List.cons_append] at here ⊢
    cases front : region.at? other (c :: l) with
    | some first =>
      rw [front] at nothing
      cases nothing
    | none =>
      rw [front] at nothing here
      have later := ih (line.suffix (x := [c])) rfl (Option.map_eq_none_iff.mp nothing)
      have gone : region.at? before (c :: (l ++ r)) = none := by simpa using here
      rw [search, gone, last_cons]
      simp only [later, Option.map_map]
      rfl

/-- How a piece that crosses a line end goes on in the text behind the line: as filler, or as white
space in a region that lists it. -/
inductive GoesOn (region : Region) (r : List Char) : Piece → List Char → Prop where
  | filler {k : TokenKind} {x rest : List Char} : region.rule.unclaimed = .fill k →
      region.Makes none r ⟨k, x⟩ rest → GoesOn region r ⟨k, x⟩ rest
  | blank : .space ∈ region.rule.candidates → r.takeWhile isBlank ≠ [] →
      GoesOn region r ⟨.space, r.takeWhile isBlank⟩ (r.dropWhile isBlank)

theorem makes_line_found (linewise : region.linewise = true) (some_text : l ≠ [])
    (line : LineEnd l r) (same : beside before = beside other) {found : Found}
    (hit : region.at? before (l ++ r) = some found) :
    (∃ left, found.lexeme ++ left = l ∧ found.rest = left ++ r ∧
      region.Makes other l ⟨found.kind, found.lexeme⟩ left) ∨
    ∃ x, x ≠ [] ∧ found.lexeme = l ++ x ∧ region.Makes other l ⟨found.kind, l⟩ [] ∧
      region.GoesOn r ⟨found.kind, x⟩ found.rest := by
  have here := at_continues linewise some_text line same
  generalize front : region.at? other l = first at here
  rw [hit] at here
  generalize all : some found = whole at here
  cases here with
  | inside =>
    obtain ⟨first, rfl, rfl⟩ := Option.map_eq_some_iff.mp all.symm
    exact .inl ⟨first.rest, at_split front, rfl, .found front⟩
  | across goes_on =>
    cases all
    exact .inr ⟨_, goes_on, rfl, .found front, .blank (at_candidate hit).1 goes_on⟩

/-- A piece at the front of a text stays in the line or crosses its end. -/
theorem makes_line (linewise : region.linewise = true) (some_text : l ≠ []) (line : LineEnd l r)
    (same : beside before = beside other) {p : Piece} {rest : List Char}
    (made : region.Makes before (l ++ r) p rest) :
    (∃ left, p.text ++ left = l ∧ rest = left ++ r ∧ region.Makes other l p left) ∨
    ∃ x, x ≠ [] ∧ p.text = l ++ x ∧ region.Makes other l ⟨p.kind, l⟩ [] ∧
      region.GoesOn r ⟨p.kind, x⟩ rest := by
  -- in front of the lines behind, the end of a line counts as much as nothing
  have start : r ≠ [] → beside (l.getLast?.or before) = beside none := by
    intro more
    rcases line with none | empty | last
    · exact absurd none more
    · exact absurd empty some_text
    · rw [last]
      rfl
  cases made with
  | @found found hit => exact makes_line_found linewise some_text line same hit
  | @remainder k filler nothing =>
    have quiet : region.search other l = none := by
      cases hit : region.search other l with
      | none => rfl
      | some pair =>
        obtain ⟨further, found⟩ := search_line linewise line same hit
        cases nothing.symm.trans found
    by_cases more : r = []
    · subst more
      exact .inl ⟨[], by simp, rfl, by simpa using .remainder filler quiet⟩
    · have behind := search_behind linewise line same quiet
      rw [nothing, search_beside linewise (start more)] at behind
      have later := Option.map_eq_none_iff.mp behind.symm
      exact .inr ⟨r, more, rfl, .remainder filler quiet,
        .filler filler (.remainder filler later)⟩
  | @skipped k skipped found filler some_filler hit =>
    -- if the find is behind the line, all of the line is filler
    cases front : region.search other l with
    | some pair =>
      obtain ⟨first_skipped, first⟩ := pair
      obtain ⟨further, found⟩ := search_line linewise line same front
      cases hit.symm.trans found
      have split_line : skipped ++ (first.lexeme ++ first.rest) = l := search_split front
      have split_whole := search_split hit
      rw [← split_line, List.append_assoc] at split_whole
      exact .inl ⟨_, split_line, List.append_cancel_left split_whole,
        .skipped filler some_filler front⟩
    | none =>
      have behind := search_behind linewise line same front
      rw [hit] at behind
      obtain ⟨⟨x, later⟩, hs, pair⟩ := Option.map_eq_some_iff.mp behind.symm
      cases pair
      by_cases empty : x = []
      · subst empty
        have split_rest : found.lexeme ++ found.rest = r := search_split hs
        exact .inl ⟨[], by simp, by simpa using split_rest,
          by simpa using .remainder filler front⟩
      · have more : r ≠ [] := by
          intro none
          have whole := search_split hs
          rw [none] at whole
          exact empty (List.append_eq_nil_iff.mp whole).1
        rw [search_beside linewise (start more)] at hs
        exact .inr ⟨x, empty, rfl, .remainder filler front,
          .filler filler (.skipped filler empty hs)⟩

end Region
end Finding
end ScoreText
