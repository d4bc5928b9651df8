import ScoreText.Lexer.Match
/-!
Finding the next token of a region in two phases.

The patterns of all candidates are combined into one, which is sought first. It says where the first
match is and which candidate it belongs to. Where not enough of that match is kept, the candidates
behind it are tried one by one at the same place, and if none of them stands there, the combination
is sought again one character later. `Region.matchAt_eq` and `Region.seek_eq` say that this finds the
same tokens as trying all candidates at every place.
-/
namespace ScoreText

open Pattern

/-- The first place where one of several patterns matches. -/
structure Capture where
  /-- the text in front of the place -/
  skipped : List Char
  before : Option Char
  here : List Char
  /-- the number of the pattern -/
  group : Nat
  cut : Cut

namespace Capture

/-- Seeks the combination of some patterns. -/
def first? (ps : List Pattern) (before : Option Char) (cs : List Char) : Option Capture :=
  match group? ps cs with
  | some (group, cut) => some ⟨[], before, cs, group, cut⟩
  | none =>
    match cs with
    | [] => none
    | c :: cs => (first? ps (some c) cs).map fun hit => { hit with skipped := c :: hit.skipped }

theorem first_split {ps : List Pattern} {before : Option Char} {cs : List Char} {hit : Capture}
    (h : first? ps before cs = some hit) : hit.skipped ++ hit.here = cs := by
  induction cs generalizing before hit with
  | nil =>
    rw [first?] at h
    split at h
    · cases Option.some.inj h
      rfl
    · contradiction
  | cons c cs ih =>
    rw [first?] at h
    split at h
    · cases Option.some.inj h
      rfl
    · obtain ⟨later, found, rfl⟩ := Option.map_eq_some_iff.mp h
      simp [ih found]

theorem first_group {ps : List Pattern} {before : Option Char} {cs : List Char} {hit : Capture}
    (h : first? ps before cs = some hit) : group? ps hit.here = some (hit.group, hit.cut) := by
  induction cs generalizing before hit with
  | nil =>
    rw [first?] at h
    split at h
    · rename_i found
      cases Option.some.inj h
      exact found
    · contradiction
  | cons c cs ih =>
    rw [first?] at h
    split at h
    · rename_i found
      cases Option.some.inj h
      exact found
    · obtain ⟨later, found, rfl⟩ := Option.map_eq_some_iff.mp h
      have group := ih found
      exact group

end Capture

namespace Region

variable {r : Region} {before : Option Char} {cs : List Char} {hit : Capture}

def patterns (r : Region) : List Pattern :=
  r.rule.candidates.map TokenKind.pattern

/-- The token at a place where the combination of all patterns matches: the one of the candidate whose
pattern has the match, or of a later candidate. -/
def resolve? (r : Region) (before : Option Char) (cs : List Char) (group : Nat) (cut : Cut) :
    Option Found :=
  match r.rule.candidates.drop group with
  | [] => none
  | k :: later =>
    match k.refine? before cs cut with
    | some found => some found
    | none => later.findSome? (·.at? before cs)

/-- The token at the front of a text. -/
def matchAt? (r : Region) (before : Option Char) (cs : List Char) : Option Found :=
  match Capture.first? r.patterns before cs with
  | none => none
  | some hit => if hit.skipped.isEmpty then r.resolve? before cs hit.group hit.cut else none

/-- Seeks a token at most as often as there are characters in a list, and once more. -/
def seekWithin? (r : Region) (limit : List Char) (before : Option Char) (cs : List Char) :
    Option (List Char × Found) :=
  match Capture.first? r.patterns before cs with
  | none => none
  | some hit =>
    match r.resolve? hit.before hit.here hit.group hit.cut with
    | some found => some (hit.skipped, found)
    | none =>
      match hit.here, limit with
      | c :: rest, _ :: limit =>
        (r.seekWithin? limit (some c) rest).map fun (more, found) => (hit.skipped ++ c :: more, found)
      | _, _ => none

/-- The first token in a text, with the text that it leaves out in front. Each time the combination is
sought again there is a character less. -/
def seek? (r : Region) (before : Option Char) (cs : List Char) : Option (List Char × Found) :=
  r.seekWithin? cs before cs

theorem at_none_of_group (none_left : group? r.patterns cs = none) (before : Option Char) :
    r.at? before cs = none := by
  rw [at?, List.findSome?_eq_none_iff]
  intro k listed
  have own := group_none none_left k.pattern (List.mem_map_of_mem listed)
  simp only [TokenKind.at?, own]

/-- Where the combination matches, the candidates in front of the one that has the match are none. -/
theorem resolve_eq {group : Nat} {cut : Cut} (found : group? r.patterns cs = some (group, cut))
    (before : Option Char) : r.resolve? before cs group cut = r.at? before cs := by
  obtain ⟨earlier, p, later, split_, rfl, none_earlier, own⟩ := group_some found
  obtain ⟨front, tail, candidates, rfl, behind⟩ := List.map_eq_append_iff.mp split_
  obtain ⟨k, ks, rfl, rfl, rfl⟩ := List.map_eq_cons_iff.mp behind
  have no_front : front.findSome? (·.at? before cs) = none := by
    rw [List.findSome?_eq_none_iff]
    intro j member
    simp only [TokenKind.at?, none_earlier j.pattern (List.mem_map_of_mem member)]
  have stands : k.at? before cs = k.refine? before cs cut := by
    simp only [TokenKind.at?, own]
  rw [resolve?, at?, candidates, List.length_map, List.drop_left, List.findSome?_append, no_front,
    List.findSome?_cons, stands, Option.none_or]
  cases refined : k.refine? before cs cut <;> simp only [refined]

theorem search_none (none_left : Capture.first? r.patterns before cs = none) :
    r.search before cs = none := by
  induction cs generalizing before with
  | nil =>
    rw [Capture.first?] at none_left
    split at none_left
    · contradiction
    · rename_i no_group
      rw [search, at_none_of_group no_group]
  | cons c cs ih =>
    rw [Capture.first?] at none_left
    split at none_left
    · contradiction
    · rename_i no_group
      rw [search, at_none_of_group no_group, ih (Option.map_eq_none_iff.mp none_left)]
      rfl

/-- Nothing is found in front of the first place where a pattern matches. -/
theorem search_skips (h : Capture.first? r.patterns before cs = some hit) :
    r.search before cs =
      (r.search hit.before hit.here).map fun (more, found) => (hit.skipped ++ more, found) := by
  induction cs generalizing before hit with
  | nil =>
    rw [Capture.first?] at h
    split at h
    · cases Option.some.inj h
      simp
    · contradiction
  | cons c cs ih =>
    rw [Capture.first?] at h
    split at h
    · cases Option.some.inj h
      simp
    · rename_i no_group
      obtain ⟨later, found, rfl⟩ := Option.map_eq_some_iff.mp h
      rw [search, at_none_of_group no_group, ih found, Option.map_map]
      rfl

theorem matchAt_eq (r : Region) (before : Option Char) (cs : List Char) :
    r.matchAt? before cs = r.at? before cs := by
  cases found : group? r.patterns cs with
  | some hit =>
    have first : Capture.first? r.patterns before cs = some ⟨[], before, cs, hit.1, hit.2⟩ := by
      cases cs <;> rw [Capture.first?, found]
    simp only [matchAt?, first, List.isEmpty_nil, if_true, resolve_eq found]
  | none =>
    rw [at_none_of_group found, matchAt?]
    split
    · rfl
    · rename_i hit first
      have later : hit.skipped ≠ [] := by
        intro empty
        have whole := Capture.first_split first
        have group := Capture.first_group first
        rw [empty, List.nil_append] at whole
        rw [whole, found] at group
        contradiction
      simp [later]

theorem seekWithin_eq (r : Region) (limit : List Char) (before : Option Char) (cs : List Char)
    (long : cs.length ≤ limit.length) : r.seekWithin? limit before cs = r.search before cs := by
  rw [seekWithin?.eq_def]
  split
  · rename_i none_left
    rw [search_none none_left]
  · rename_i hit first
    have whole := congrArg List.length (Capture.first_split first)
    rw [search_skips first, resolve_eq (Capture.first_group first)]
    cases place : hit.here with
    | nil =>
      rw [search]
      cases r.at? hit.before [] <;> simp
    | cons c rest =>
      simp only [place, List.length_append, List.length_cons] at whole
      rw [search]
      cases r.at? hit.before (c :: rest) with
      | some found => simp
      | none =>
        cases limit with
        | nil =>
          rw [List.length_nil] at long
          omega
        | cons _ limit =>
          rw [List.length_cons] at long
          simp only [seekWithin_eq r limit (some c) rest (by omega), Option.map_map]
          rfl
  termination_by limit.length

theorem seek_eq (r : Region) (before : Option Char) (cs : List Char) :
    r.seek? before cs = r.search before cs :=
  r.seekWithin_eq cs before cs (Nat.le_refl _)

end Region

end ScoreText
