import ScoreText.Lexer.Match
import ScoreText.Proofs.Matches

/-! Every token has text. The pattern of a kind takes at least one character, and what a kind keeps
of a match is a part of it that is not empty, so nothing is found at the end of a text. -/
namespace ScoreText

namespace Site

/-- What is kept of a match, if anything is, is a front part that is not empty. -/
def Within (s : Site) (kept : Option Nat) : Prop :=
  ∀ n, kept = some n → 0 < n ∧ n ≤ s.lexeme.length

theorem whole_within {s : Site} (positive : 0 < s.lexeme.length) (condition : Bool) :
    s.Within (s.wholeIf condition) := by
  intro n h
  unfold wholeIf at h
  split at h
  · cases h
    exact ⟨positive, Nat.le_refl _⟩
  · cases h

theorem longest_within (s : Site) (skip : Nat) (table : List String) (goesOn : Char → Bool) :
    s.Within (s.longestWord? skip table goesOn) := by
  intro n h
  have member := List.mem_of_find?_eq_some h
  obtain ⟨i, hi, rfl⟩ := List.mem_map.mp member
  have below := List.mem_range.mp (List.mem_reverse.mp hi)
  omega

theorem command_within (s : Site) (table : List String) : s.Within (s.command? table) :=
  s.longest_within 1 table _

theorem commandWord_within (s : Site) (table : List String) : s.Within (s.commandWord? table) :=
  s.longest_within 1 table _

theorem bareWord_within (s : Site) (table : List String) (goesOn : Char → Bool) :
    s.Within (s.bareWord? table goesOn) := by
  intro n h
  unfold bareWord? at h
  split at h
  · exact s.longest_within 0 table goesOn n h
  · cases h

end Site

theorem Lily.pattern_least (k : Lily.Kind) : 1 ≤ k.pattern.least := by
  cases k <;> decide

theorem Scheme.pattern_least (k : Scheme.Kind) : 1 ≤ k.pattern.least := by
  cases k <;> decide

theorem Html.pattern_least (k : Html.Kind) : 1 ≤ k.pattern.least := by
  cases k <;> decide

theorem Latex.pattern_least (k : Latex.Kind) : 1 ≤ k.pattern.least := by
  cases k <;> decide

theorem Texinfo.pattern_least (k : Texinfo.Kind) : 1 ≤ k.pattern.least := by
  cases k <;> decide

theorem DocBook.pattern_least (k : DocBook.Kind) : 1 ≤ k.pattern.least := by
  cases k <;> decide

theorem TokenKind.pattern_least (k : TokenKind) : 1 ≤ k.pattern.least := by
  cases k with
  | unparsed | space | error => decide
  | lily k => exact Lily.pattern_least k
  | scheme k => exact Scheme.pattern_least k
  | html k => exact Html.pattern_least k
  | latex k => exact Latex.pattern_least k
  | texinfo k => exact Texinfo.pattern_least k
  | docBook k => exact DocBook.pattern_least k

/-- The marks of a crescendo take two characters, and so does every match of the kind. -/
theorem Lily.keep_within (k : Lily.Kind) (s : Site) (long : k.pattern.least ≤ s.lexeme.length) :
    s.Within (k.keep? s) := by
  have whole := s.whole_within (Nat.lt_of_lt_of_le (Lily.pattern_least k) long)
  have command := s.command_within
  have commandWord := s.commandWord_within
  have bareWord := s.bareWord_within
  cases k with
  | dynamic =>
    have two : 2 ≤ s.lexeme.length := long
    simp only [Kind.keep?]
    split
    · intro n h
      cases h
      exact ⟨Nat.two_pos, two⟩
    · exact command _
  | length | errorInChord =>
    simp only [Kind.keep?]
    split
    · exact whole _
    · split
      · exact whole _
      · exact whole _
  | _ => simp only [Kind.keep?, whole, command, commandWord, bareWord]

theorem Scheme.keep_within (k : Scheme.Kind) (s : Site) (positive : 0 < s.lexeme.length) :
    s.Within (k.keep? s) := by
  have whole := s.whole_within positive
  cases k <;> exact whole _

/-- The name of a tag is what is left of the match behind which no word goes on. -/
theorem Html.keep_within (k : Html.Kind) (s : Site) (positive : 0 < s.lexeme.length) :
    s.Within (k.keep? s) := by
  have whole := s.whole_within positive
  cases k with
  | tagStart =>
    intro n h
    simp only [Kind.keep?] at h
    split at h
    · cases h
    · rename_i some_name
      cases h
      have shorter := (s.lexeme.reverse.dropWhile_sublist fun c => !Text.isAsciiWord c).length_le
      rw [List.length_reverse] at shorter
      refine ⟨List.length_pos_iff.mpr ?_, shorter⟩
      intro empty
      exact some_name (List.isEmpty_iff.mpr empty)
  | _ => exact whole _

theorem Latex.keep_within (k : Latex.Kind) (s : Site) (positive : 0 < s.lexeme.length) :
    s.Within (k.keep? s) := by
  have whole := s.whole_within positive
  cases k <;> exact whole _

theorem Texinfo.keep_within (k : Texinfo.Kind) (s : Site) (positive : 0 < s.lexeme.length) :
    s.Within (k.keep? s) := by
  have whole := s.whole_within positive
  cases k <;> exact whole _

theorem DocBook.keep_within (k : DocBook.Kind) (s : Site) (positive : 0 < s.lexeme.length) :
    s.Within (k.keep? s) := by
  have whole := s.whole_within positive
  cases k <;> exact whole _

theorem TokenKind.keep_within (k : TokenKind) (s : Site) (long : k.pattern.least ≤ s.lexeme.length) :
    s.Within (k.keep? s) := by
  have positive : 0 < s.lexeme.length := Nat.lt_of_lt_of_le (TokenKind.pattern_least k) long
  cases k with
  | unparsed | space | error => exact s.whole_within positive true
  | lily k => exact Lily.keep_within k s long
  | scheme k => exact Scheme.keep_within k s positive
  | html k => exact Html.keep_within k s positive
  | latex k => exact Latex.keep_within k s positive
  | texinfo k => exact Texinfo.keep_within k s positive
  | docBook k => exact DocBook.keep_within k s positive

/-- A token of a kind comes from a match of its pattern and keeps a front part of it. -/
theorem TokenKind.at_cases {k : TokenKind} {before : Option Char} {cs : List Char} {found : Found}
    (h : k.at? before cs = some found) :
    ∃ x y n, k.pattern.first? cs = some (x, y) ∧ k.keep? ⟨before, x, y⟩ = some n ∧
      0 < n ∧ n ≤ x.length ∧ found = ⟨k, cs.take n, cs.drop n⟩ := by
  simp only [TokenKind.at?, TokenKind.refine?] at h
  split at h
  · cases h
  · rename_i cut first
    obtain ⟨x, y⟩ := cut
    split at h
    · cases h
    · rename_i n kept
      have long := Pattern.least_le_length (Pattern.first_match first).2
      have bounds := TokenKind.keep_within k ⟨before, x, y⟩ long n kept
      exact ⟨x, y, n, first, kept, bounds.1, bounds.2, (Option.some.inj h).symm⟩

theorem TokenKind.at_kind {k : TokenKind} {before : Option Char} {cs : List Char} {found : Found}
    (h : k.at? before cs = some found) : found.kind = k := by
  obtain ⟨_, _, _, _, _, _, _, rfl⟩ := TokenKind.at_cases h
  rfl

theorem TokenKind.at_nonempty {k : TokenKind} {before : Option Char} {cs : List Char} {found : Found}
    (h : k.at? before cs = some found) : found.lexeme ≠ [] := by
  obtain ⟨x, y, n, first, _, positive, bound, rfl⟩ := TokenKind.at_cases h
  have divides : x ++ y = cs := (Pattern.first_match first).1
  have kept : (cs.take n).length = n := by
    rw [← divides, List.length_take, List.length_append]
    omega
  intro empty
  rw [show cs.take n = [] from empty, List.length_nil] at kept
  omega

/-- Whether the pattern is the one that matches nowhere. -/
def Pattern.isNever : Pattern → Bool
  | never => true
  | _ => false

theorem TokenKind.at_never {k : TokenKind} (h : k.pattern.isNever = true) (before : Option Char)
    (cs : List Char) : k.at? before cs = none := by
  have never : k.pattern = .never := by
    revert h
    cases k.pattern <;> simp [Pattern.isNever]
  simp only [TokenKind.at?, never, Pattern.first?, Pattern.matchThen]

namespace Region

/-- A region lists only kinds that can be found. -/
theorem listed_findable (r : Region) :
    (r.rule.candidates.all fun k => !k.pattern.isNever) = true := by
  cases r with
  | lily r => cases r <;> decide
  | scheme r => cases r <;> decide
  | html r => cases r <;> decide
  | latex r => cases r <;> decide
  | texinfo r => cases r <;> decide
  | docBook r => cases r <;> decide

/-- Filler is not found but left over, and it is no error. -/
theorem filler_kind {r : Region} {k : TokenKind} (filler : r.rule.unclaimed = .fill k) :
    k.pattern.isNever = true ∧ k ≠ .error := by
  cases r with
  | lily r => cases r <;> cases filler <;> exact ⟨rfl, by decide⟩
  | scheme r => cases r <;> cases filler <;> exact ⟨rfl, by decide⟩
  | html r => cases r <;> cases filler <;> exact ⟨rfl, by decide⟩
  | latex r => cases r <;> cases filler <;> exact ⟨rfl, by decide⟩
  | texinfo r => cases r <;> cases filler <;> exact ⟨rfl, by decide⟩
  | docBook r => cases r <;> cases filler <;> exact ⟨rfl, by decide⟩

/-- No region lists a kind of filler. -/
theorem filler_unlisted {r other : Region} {k : TokenKind} (filler : r.rule.unclaimed = .fill k) :
    k ∉ other.rule.candidates := by
  intro listed
  have findable := List.all_eq_true.mp (listed_findable other) k listed
  rw [(filler_kind filler).1] at findable
  cases findable

theorem at_candidate {r : Region} {before : Option Char} {cs : List Char} {found : Found}
    (h : r.at? before cs = some found) :
    found.kind ∈ r.rule.candidates ∧ found.kind.at? before cs = some found := by
  obtain ⟨k, hk, hit⟩ := List.exists_of_findSome?_eq_some h
  rw [TokenKind.at_kind hit]
  exact ⟨hk, hit⟩

theorem at_nonempty {r : Region} {before : Option Char} {cs : List Char} {found : Found}
    (h : r.at? before cs = some found) : found.lexeme ≠ [] :=
  TokenKind.at_nonempty (at_candidate h).2

theorem at_end (r : Region) (before : Option Char) : r.at? before [] = none := by
  cases h : r.at? before [] with
  | none => rfl
  | some found => exact absurd (List.append_eq_nil_iff.mp (at_split h)).1 (at_nonempty h)

/-- A region that claims a kind finds something where a token of the kind stands. -/
theorem at_some_of_candidate {r : Region} {k : TokenKind} {before : Option Char} {cs : List Char}
    (claimed : k ∈ r.rule.candidates) (stands : (k.at? before cs).isSome = true) :
    (r.at? before cs).isSome = true := by
  rw [at?, List.findSome?_isSome_iff]
  exact ⟨k, claimed, stands⟩

/-- What a search finds stands behind what it leaves out. -/
theorem search_hit {r : Region} {before : Option Char} {cs skipped : List Char} {found : Found}
    (h : r.search before cs = some (skipped, found)) :
    r.at? (skipped.getLast?.or before) (found.lexeme ++ found.rest) = some found := by
  induction cs generalizing before skipped with
  | nil =>
    rw [search] at h
    split at h
    · rename_i hit
      cases h
      rw [at_split hit]
      exact hit
    · cases h
  | cons c cs ih =>
    rw [search] at h
    split at h
    · rename_i hit
      cases h
      rw [at_split hit]
      exact hit
    · obtain ⟨⟨behind, later⟩, hs, same⟩ := Option.map_eq_some_iff.mp h
      cases same
      rw [← ih hs]
      congr 1
      cases behind with
      | nil => rfl
      | cons d ds => simp [List.getLast?_cons]

end Region
end ScoreText
