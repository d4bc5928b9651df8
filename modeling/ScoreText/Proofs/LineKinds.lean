import ScoreText.Proofs.InLine
import ScoreText.Proofs.Lexeme

/-! Kinds whose tokens stay in the line. In LilyPond, Scheme and HTML these are all kinds but white space:
their patterns do not read over a line end, and what they look at around a match are the characters
beside it, where a line end counts as much as the end of the text. -/
namespace ScoreText

/-- Dialects that can be read line by line. -/
def TokenKind.linewise : TokenKind → Bool
  | unparsed | space | error | lily _ | scheme _ | html _ => true
  | latex _ | texinfo _ | docBook _ => false

/-- The character in front of a place, unless a line begins there. -/
def beside (before : Option Char) : Option Char :=
  before.filter (· != '\n')

namespace Site

/-- What a kind looks at: the match and the characters beside it. -/
def near (s : Site) : Site :=
  ⟨beside s.before, s.lexeme, s.after.head?.toList⟩

theorem holds_beside {p : Char → Bool} (h : p '\n' = false) (before : Option Char) :
    holds p (beside before) = holds p before := by
  cases before with
  | none => rfl
  | some c =>
    by_cases line_end : c = '\n'
    · subst line_end
      exact h.symm
    · simp [beside, line_end, Option.filter]

variable (s : Site)

theorem near_head : s.near.after.head? = s.after.head? := by
  cases h : s.after <;> simp [near, h]

theorem near_wholeIf (condition : Bool) : s.near.wholeIf condition = s.wholeIf condition :=
  rfl

theorem near_noLetterAfter : s.near.noLetterAfter = s.noLetterAfter := by
  rw [noLetterAfter, noLetterAfter, near_head]

theorem near_noDigitAfter : s.near.noDigitAfter = s.noDigitAfter := by
  rw [noDigitAfter, noDigitAfter, near_head]

theorem near_boundaryAfter : s.near.boundaryAfter = s.boundaryAfter := by
  rw [boundaryAfter, boundaryAfter, near_head]
  rfl

theorem near_startsWord : s.near.startsWord = s.startsWord := by
  simp only [startsWord, near]
  rw [holds_beside rfl]

theorem near_next (n : Nat) : s.near.next? n = s.next? n := by
  simp only [next?, List.head?_append, near_head]
  rfl

theorem near_longestWord (skip : Nat) (table : List String) (goesOn : Char → Bool) :
    s.near.longestWord? skip table goesOn = s.longestWord? skip table goesOn := by
  simp only [longestWord?, near_next]
  rfl

theorem near_command (table : List String) : s.near.command? table = s.command? table :=
  s.near_longestWord 1 table _

theorem near_commandWord (table : List String) :
    s.near.commandWord? table = s.commandWord? table :=
  s.near_longestWord 1 table _

theorem near_bareWord (table : List String) (goesOn : Char → Bool) :
    s.near.bareWord? table goesOn = s.bareWord? table goesOn := by
  rw [bareWord?, bareWord?, near_startsWord, near_longestWord]

end Site

open Site in
theorem Lily.keep_near (k : Lily.Kind) (s : Site) : k.keep? s.near = k.keep? s := by
  have lexeme : s.near.lexeme = s.lexeme := rfl
  cases k with
  | chordModifier =>
    simp only [Kind.keep?, near_wholeIf, near_head]
    rw [show s.near.before = beside s.before from rfl, holds_beside rfl]
  | _ =>
    simp only [Kind.keep?, near_wholeIf, near_noLetterAfter, near_noDigitAfter, near_boundaryAfter,
      near_startsWord, near_next, near_command, near_commandWord, near_bareWord, near_head, lexeme]

open Site in
theorem Scheme.keep_near (k : Scheme.Kind) (s : Site) : k.keep? s.near = k.keep? s := by
  have lexeme : s.near.lexeme = s.lexeme := rfl
  cases k <;> simp only [Kind.keep?, near_wholeIf, near_boundaryAfter, near_head, lexeme]

open Site in
theorem Html.keep_near (k : Html.Kind) (s : Site) : k.keep? s.near = k.keep? s := by
  have lexeme : s.near.lexeme = s.lexeme := rfl
  cases k <;> simp only [Kind.keep?, near_wholeIf, near_boundaryAfter, lexeme]

theorem Lily.pattern_inLine (k : Lily.Kind) : k.pattern.staysInLine = true := by
  cases k <;> decide

theorem Scheme.pattern_inLine (k : Scheme.Kind) : k.pattern.staysInLine = true := by
  cases k <;> decide

theorem Html.pattern_inLine (k : Html.Kind) : k.pattern.staysInLine = true := by
  cases k <;> decide

/-- The blanks and line ends. -/
def blanks : List Char :=
  [0x9, 0xA, 0xB, 0xC, 0xD, 0x20, 0x85, 0xA0, 0x1680, 0x2000, 0x2001, 0x2002, 0x2003, 0x2004,
   0x2005, 0x2006, 0x2007, 0x2008, 0x2009, 0x200A, 0x2028, 0x2029, 0x202F, 0x205F,
   0x3000].map Char.ofNat

theorem blank_listed {c : Char} (blank : Text.isBlank c = true) : c ∈ blanks := by
  obtain ⟨r, listed, low, high⟩ := Text.within_iff.mp blank
  have code : c.toNat ∈ blanks.map Char.toNat := by
    simp only [Text.blankRanges, List.mem_cons, List.not_mem_nil, or_false] at listed
    have codes : blanks.map Char.toNat = [0x9, 0xA, 0xB, 0xC, 0xD, 0x20, 0x85, 0xA0, 0x1680, 0x2000,
        0x2001, 0x2002, 0x2003, 0x2004, 0x2005, 0x2006, 0x2007, 0x2008, 0x2009, 0x200A, 0x2028,
        0x2029, 0x202F, 0x205F, 0x3000] := by decide
    rw [codes]
    simp only [List.mem_cons, List.not_mem_nil, or_false]
    rcases listed with rfl | rfl | rfl | rfl | rfl | rfl | rfl | rfl | rfl | rfl <;>
      simp only at low high <;> omega
  obtain ⟨d, member, same⟩ := List.mem_map.mp code
  rwa [← Char.toNat_inj.mp same]

theorem Lily.begins_no_blank (k : Lily.Kind) :
    (blanks.all fun c => !k.pattern.begins c) = true := by
  cases k <;> decide +kernel

theorem Scheme.begins_no_blank (k : Scheme.Kind) :
    (blanks.all fun c => !k.pattern.begins c) = true := by
  cases k <;> decide +kernel

theorem Html.begins_no_blank (k : Html.Kind) :
    (blanks.all fun c => !k.pattern.begins c) = true := by
  cases k <;> decide +kernel

namespace TokenKind

variable {k : TokenKind} {before other : Option Char} {cs r : List Char}

theorem keep_near (linewise : k.linewise = true) (s : Site) : k.keep? s.near = k.keep? s := by
  cases k with
  | unparsed | space | error => rfl
  | lily k => exact Lily.keep_near k s
  | scheme k => exact Scheme.keep_near k s
  | html k => exact Html.keep_near k s
  | latex k | texinfo k | docBook k => cases linewise

theorem pattern_inLine (linewise : k.linewise = true) (some_kind : k ≠ .space) :
    k.pattern.staysInLine = true := by
  cases k with
  | unparsed | error => rfl
  | space => exact absurd rfl some_kind
  | lily k => exact Lily.pattern_inLine k
  | scheme k => exact Scheme.pattern_inLine k
  | html k => exact Html.pattern_inLine k
  | latex k | texinfo k | docBook k => cases linewise

theorem begins_no_blank (linewise : k.linewise = true) (some_kind : k ≠ .space) {c : Char}
    (blank : Text.isBlank c = true) : k.pattern.begins c = false := by
  have all : (blanks.all fun c => !k.pattern.begins c) = true := by
    cases k with
    | unparsed | error => rfl
    | space => exact absurd rfl some_kind
    | lily k => exact Lily.begins_no_blank k
    | scheme k => exact Scheme.begins_no_blank k
    | html k => exact Html.begins_no_blank k
    | latex k | texinfo k | docBook k => cases linewise
  simpa using List.all_eq_true.mp all c (blank_listed blank)

theorem at_blank (linewise : k.linewise = true) (some_kind : k ≠ .space) {c : Char}
    (blank : Text.isBlank c = true) : k.at? before (c :: cs) = none := by
  cases h : k.at? before (c :: cs) with
  | none => rfl
  | some found =>
    obtain ⟨x, y, n, first, _, positive, bound, _⟩ := at_cases h
    obtain ⟨whole, taken⟩ := Pattern.first_match first
    cases x with
    | nil =>
      rw [List.length_nil] at bound
      omega
    | cons d x =>
      have same : d = c := (List.cons.inj whole).1
      have begins := Pattern.begins_of_match taken
      rw [same, begins_no_blank linewise some_kind blank] at begins
      cases begins

end TokenKind

/-- Puts text behind what is found. -/
def Found.extend (r : List Char) (found : Found) : Found :=
  { found with rest := found.rest ++ r }

namespace TokenKind

variable {k : TokenKind} {before other : Option Char} {cs r : List Char}

/-- A kind that stays in the line finds in the line what it finds in the whole text. -/
theorem at_extend (linewise : k.linewise = true) (some_kind : k ≠ .space)
    (ended : r = [] ∨ '\n' ∈ cs) (same : beside before = beside other) :
    k.at? before (cs ++ r) = (k.at? other cs).map (Found.extend r) := by
  have stays := pattern_inLine linewise some_kind
  simp only [at?, refine?, Pattern.first_extend stays ended]
  cases first : k.pattern.first? cs with
  | none => rfl
  | some cut =>
    obtain ⟨x, y⟩ := cut
    obtain ⟨whole, taken⟩ := Pattern.first_match first
    have later : r = [] ∨ '\n' ∈ y := by
      rw [Pattern.first?_eq_head?] at first
      exact Pattern.rest_ended stays ended (List.mem_of_head? first)
    -- all that the kind looks at behind its match is the next character, which is in the line
    have head : (y ++ r).head? = y.head? := by
      rcases later with rfl | member
      · rw [List.append_nil]
      · cases y with
        | nil => cases member
        | cons c y => rfl
    have kept : k.keep? ⟨before, x, y ++ r⟩ = k.keep? ⟨other, x, y⟩ := by
      rw [← keep_near linewise, ← keep_near linewise ⟨other, x, y⟩]
      simp only [Site.near, same, head]
    simp only [Option.map_some, Pattern.Cut.extend, kept]
    cases length : k.keep? ⟨other, x, y⟩ with
    | none => rfl
    | some n =>
      have bound := (keep_within k ⟨other, x, y⟩ (Pattern.least_le_length taken) n length).2
      have inside : n ≤ cs.length := by
        have whole : x ++ y = cs := whole
        have bound : n ≤ x.length := bound
        rw [← whole, List.length_append]
        omega
      simp only [Option.map_some, Found.extend, List.take_append_of_le_length inside,
        List.drop_append_of_le_length inside]

theorem blank_first (cs : List Char) : TokenKind.space.pattern.first? cs =
    match cs with
    | [] => none
    | c :: cs => if Text.isBlank c
        then some (c :: cs.takeWhile Text.isBlank, cs.dropWhile Text.isBlank) else none := by
  have run : ∀ cs, (Pattern.runCuts Text.isBlank cs).head? =
      some (cs.takeWhile Text.isBlank, cs.dropWhile Text.isBlank) := by
    intro cs
    induction cs with
    | nil => rfl
    | cons c cs ih =>
      rw [Pattern.runCuts]
      by_cases blank : Text.isBlank c = true
      · simp [blank, ih, Pattern.Cut.after]
      · simp [blank]
  rw [Pattern.first?_eq_head?]
  cases cs with
  | nil => rfl
  | cons c cs =>
    by_cases blank : Text.isBlank c = true
    · simp [pattern, Pattern.oneOrMore, Pattern.cuts, Pattern.thenCuts, blank, run,
        Pattern.Cut.after]
    · simp [pattern, Pattern.oneOrMore, Pattern.cuts, Pattern.thenCuts, blank]

theorem space_at (c : Char) (cs : List Char) (before : Option Char) :
    TokenKind.space.at? before (c :: cs) =
      if Text.isBlank c
      then some ⟨.space, c :: cs.takeWhile Text.isBlank, cs.dropWhile Text.isBlank⟩ else none := by
  simp only [at?, refine?, blank_first]
  by_cases blank : Text.isBlank c = true
  · have size : (c :: cs.takeWhile Text.isBlank) ++ cs.dropWhile Text.isBlank = c :: cs := by
      rw [List.cons_append, List.takeWhile_append_dropWhile]
    simp only [blank, if_true, keep?, Site.wholeIf]
    rw [← size, List.take_left', List.drop_left'] <;> rfl
  · simp only [blank, Bool.false_eq_true, if_false]

end TokenKind
end ScoreText
