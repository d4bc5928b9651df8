import ScoreText.Text.Blank
import ScoreText.Text.Digit
/-!
Patterns of the lexer.

`one` takes a character of a class and `run` as many of them as there are; `opt` and `many` match as
often as they can. A pattern denotes, for every text, the ways to cut a match off its front:
`Pattern.cuts` lists the matches with the rests behind them, in order of preference. The first
alternative comes before the second, and more repetitions come before fewer. What a pattern matches
is the first entry; it is found without building the list, and `Pattern.first?_eq_head?` says that it
is the same.
-/
namespace ScoreText

inductive Pattern where
  | never
  | one (p : Char → Bool)
  | run (p : Char → Bool)
  | seq (a b : Pattern)
  | alt (a b : Pattern)
  | opt (a : Pattern)
  | many (a : Pattern)

namespace Pattern

abbrev Cut := List Char × List Char

def Cut.after (front : List Char) (cut : Cut) : Cut :=
  (front ++ cut.1, cut.2)

/-- A run of a class, the longest first. -/
def runCuts (p : Char → Bool) : List Char → List Cut
  | [] => [([], [])]
  | c :: cs =>
    if p c then (runCuts p cs).map (Cut.after [c]) ++ [([], c :: cs)] else [([], c :: cs)]

def thenCuts (a b : List Char → List Cut) (cs : List Char) : List Cut :=
  (a cs).flatMap fun (front, rest) => (b rest).map (Cut.after front)

/-- As many repetitions as there are characters in a list, or fewer, more of them first. -/
def manyCuts (a : List Char → List Cut) : List Char → List Char → List Cut
  | [], cs => [([], cs)]
  | _ :: limit, cs => thenCuts a (manyCuts a limit) cs ++ [([], cs)]

/-- All matches at the front of a text, the preferred one first. -/
def cuts : Pattern → List Char → List Cut
  | never, _ => []
  | one _, [] => []
  | one p, c :: cs => if p c then [([c], cs)] else []
  | run p, cs => runCuts p cs
  | seq a b, cs => thenCuts a.cuts b.cuts cs
  | alt a b, cs => a.cuts cs ++ b.cuts cs
  | opt a, cs => a.cuts cs ++ [([], cs)]
  | many a, cs => manyCuts a.cuts cs cs

/-- What goes on behind a match. It is given the characters matched so far, the last one in front,
and the rest. -/
abbrev Continuation (α : Type) := List Char → List Char → Option α

def runThen {α : Type} (p : Char → Bool) (k : Continuation α) : Continuation α
  | matched, [] => k matched []
  | matched, c :: cs =>
    if p c then
      match runThen p k (c :: matched) cs with
      | some a => some a
      | none => k matched (c :: cs)
    else k matched (c :: cs)

def manyThen {α : Type} (a : Continuation α → Continuation α) (k : Continuation α) :
    List Char → Continuation α
  | [], matched, cs => k matched cs
  | _ :: limit, matched, cs =>
    match a (manyThen a k limit) matched cs with
    | some x => some x
    | none => k matched cs

/-- Matches a pattern so that what follows succeeds. -/
def matchThen {α : Type} : Pattern → Continuation α → Continuation α
  | never, _, _, _ => none
  | one _, _, _, [] => none
  | one p, k, matched, c :: cs => if p c then k (c :: matched) cs else none
  | run p, k, matched, cs => runThen p k matched cs
  | seq a b, k, matched, cs => a.matchThen (b.matchThen k) matched cs
  | alt a b, k, matched, cs =>
    match a.matchThen k matched cs with
    | some x => some x
    | none => b.matchThen k matched cs
  | opt a, k, matched, cs =>
    match a.matchThen k matched cs with
    | some x => some x
    | none => k matched cs
  | many a, k, matched, cs => manyThen a.matchThen k cs matched cs

/-- The preferred match at the front of a text and the rest behind it. -/
def first? (p : Pattern) (cs : List Char) : Option Cut :=
  p.matchThen (fun matched rest => some (matched.reverse, rest)) [] cs

/-- What a continuation makes of a match behind the characters matched before. -/
def resume {α : Type} (k : Continuation α) (matched : List Char) (cut : Cut) : Option α :=
  k (cut.1.reverse ++ matched) cut.2

theorem resume_after {α : Type} (k : Continuation α) (matched front : List Char) (cut : Cut) :
    resume k matched (cut.after front) = resume k (front.reverse ++ matched) cut := by
  simp [resume, Cut.after]

theorem findSome?_flatMap {α β γ : Type} (f : α → List β) (g : β → Option γ) (xs : List α) :
    (xs.flatMap f).findSome? g = xs.findSome? fun x => (f x).findSome? g := by
  induction xs with
  | nil => rfl
  | cons x xs ih =>
    rw [List.flatMap_cons, List.findSome?_append, ih, List.findSome?_cons]
    cases (f x).findSome? g <;> rfl

theorem runThen_eq {α : Type} (p : Char → Bool) (k : Continuation α) (matched cs : List Char) :
    runThen p k matched cs = (runCuts p cs).findSome? (resume k matched) := by
  induction cs generalizing matched with
  | nil => simp [runThen, runCuts, resume]
  | cons c cs ih =>
    by_cases h : p c
    · have step : resume k matched ∘ Cut.after [c] = resume k (c :: matched) := by
        funext cut
        exact resume_after k matched [c] cut
      rw [runThen, runCuts, if_pos h, if_pos h, ih, List.findSome?_append, List.findSome?_map, step]
      cases (runCuts p cs).findSome? (resume k (c :: matched)) <;> simp [resume]
    · simp [runThen, runCuts, h, resume]

theorem thenCuts_eq {α : Type} (a b : List Char → List Cut) (k : Continuation α)
    (matched cs : List Char) :
    (thenCuts a b cs).findSome? (resume k matched) =
      (a cs).findSome? (resume (fun m rest => (b rest).findSome? (resume k m)) matched) := by
  rw [thenCuts, findSome?_flatMap]
  congr 1
  funext cut
  rw [List.findSome?_map]
  congr 1
  funext behind
  exact resume_after k matched cut.1 behind

theorem manyThen_eq {α : Type} (a : Continuation α → Continuation α) (b : List Char → List Cut)
    (h : ∀ k matched cs, a k matched cs = (b cs).findSome? (resume k matched))
    (k : Continuation α) (limit matched cs : List Char) :
    manyThen a k limit matched cs = (manyCuts b limit cs).findSome? (resume k matched) := by
  induction limit generalizing matched cs with
  | nil => simp [manyThen, manyCuts, resume]
  | cons _ limit ih =>
    have again : manyThen a k limit = fun m rest =>
        (manyCuts b limit rest).findSome? (resume k m) := by
      funext m rest
      exact ih m rest
    rw [manyThen, manyCuts, List.findSome?_append, thenCuts_eq, h, again]
    cases (b cs).findSome? _ <;> simp [resume]

/-- A match so that what follows succeeds is the first one in the list for which it does. -/
theorem matchThen_eq {α : Type} (p : Pattern) (k : Continuation α) (matched cs : List Char) :
    p.matchThen k matched cs = (p.cuts cs).findSome? (resume k matched) := by
  induction p generalizing k matched cs with
  | never => rfl
  | one p =>
    cases cs with
    | nil => rfl
    | cons c cs => by_cases h : p c <;> simp [matchThen, cuts, h, resume]
  | run p => exact runThen_eq p k matched cs
  | seq a b iha ihb =>
    have behind : b.matchThen k = fun m rest => (b.cuts rest).findSome? (resume k m) := by
      funext m rest
      exact ihb k m rest
    rw [matchThen, cuts, thenCuts_eq, iha, behind]
  | alt a b iha ihb =>
    rw [matchThen, cuts, List.findSome?_append, iha, ihb]
    cases (a.cuts cs).findSome? (resume k matched) <;> rfl
  | opt a iha =>
    rw [matchThen, cuts, List.findSome?_append, iha]
    cases (a.cuts cs).findSome? (resume k matched) <;> simp [resume]
  | many a iha => exact manyThen_eq a.matchThen a.cuts iha k cs matched cs

/-- The preferred match is the first one of the list. -/
theorem first?_eq_head? (p : Pattern) (cs : List Char) : p.first? cs = (p.cuts cs).head? := by
  rw [first?, matchThen_eq]
  cases p.cuts cs with
  | nil => rfl
  | cons cut others => simp [resume]

def fits (p : Pattern) (cs : List Char) : Bool :=
  (p.first? cs).isSome

def char (c : Char) : Pattern :=
  one (· == c)

def among (s : String) : Pattern :=
  one fun c => s.toList.contains c

def chars : List Char → Pattern
  | [] => run fun _ => false
  | [c] => char c
  | c :: cs => seq (char c) (chars cs)

def text (s : String) : Pattern :=
  chars s.toList

def oneOrMore (p : Char → Bool) : Pattern :=
  seq (one p) (run p)

def sequence : List Pattern → Pattern
  | [] => run fun _ => false
  | [p] => p
  | p :: ps => seq p (sequence ps)

/-- The first of the patterns that lets the rest match. -/
def oneOf : List Pattern → Pattern
  | [] => never
  | [p] => p
  | p :: ps => alt p (oneOf ps)

/-- Matches one of the patterns so that what follows succeeds, as `oneOf` does. What follows is told
the number of the pattern, counted from the given one. -/
def groupThen {α : Type} (k : Nat → Continuation α) : Nat → List Pattern → Continuation α
  | _, [], _, _ => none
  | i, p :: ps, matched, cs =>
    match p.matchThen (k i) matched cs with
    | some x => some x
    | none => groupThen k (i + 1) ps matched cs

/-- The preferred match of one of the patterns at the front of a text, with the number of the
pattern. -/
def group? (ps : List Pattern) (cs : List Char) : Option (Nat × Cut) :=
  groupThen (fun i matched rest => some (i, matched.reverse, rest)) 0 ps [] cs

/-- But for the numbers the patterns are matched as one. -/
theorem groupThen_eq {α : Type} (k : Continuation α) (i : Nat) (ps : List Pattern)
    (matched cs : List Char) :
    groupThen (fun _ => k) i ps matched cs = (oneOf ps).matchThen k matched cs := by
  induction ps generalizing i with
  | nil => rfl
  | cons p ps ih =>
    cases ps with
    | nil =>
      rw [groupThen, groupThen, oneOf]
      cases p.matchThen k matched cs <;> rfl
    | cons q qs =>
      have step : oneOf (p :: q :: qs) = alt p (oneOf (q :: qs)) := rfl
      rw [groupThen, ih, step, matchThen]

theorem matchThen_report (p : Pattern) (i : Nat) (cs : List Char) :
    p.matchThen (fun matched rest => some (i, matched.reverse, rest)) [] cs =
      (p.first? cs).map (i, ·) := by
  rw [first?_eq_head?, matchThen_eq]
  cases p.cuts cs with
  | nil => rfl
  | cons cut others => simp [resume]

/-- The numbered match is the own match of the first pattern that has one. -/
theorem groupThen_report (i : Nat) (ps : List Pattern) (cs : List Char) :
    match groupThen (fun i matched rest => some (i, matched.reverse, rest)) i ps [] cs with
    | none => ∀ p ∈ ps, p.first? cs = none
    | some (g, cut) => ∃ earlier p later, ps = earlier ++ p :: later ∧ g = i + earlier.length ∧
        (∀ q ∈ earlier, q.first? cs = none) ∧ p.first? cs = some cut := by
  induction ps generalizing i with
  | nil => simp [groupThen]
  | cons p ps ih =>
    rw [groupThen, matchThen_report]
    cases own : p.first? cs with
    | some cut => exact ⟨[], p, ps, rfl, rfl, by simp, own⟩
    | none =>
      have later := ih (i + 1)
      simp only [Option.map_none]
      split at later
      · rename_i none_left
        simpa [none_left, own] using later
      · rename_i g cut found
        obtain ⟨earlier, q, rest, rfl, rfl, before, first⟩ := later
        refine ⟨p :: earlier, q, rest, rfl, ?_, ?_, first⟩
        · rw [List.length_cons]
          omega
        · simpa [own] using before

theorem group_none {ps : List Pattern} {cs : List Char} (h : group? ps cs = none) :
    ∀ p ∈ ps, p.first? cs = none := by
  have all := groupThen_report 0 ps cs
  rw [show groupThen _ 0 ps [] cs = none from h] at all
  exact all

theorem group_some {ps : List Pattern} {cs : List Char} {g : Nat} {cut : Cut}
    (h : group? ps cs = some (g, cut)) :
    ∃ earlier p later, ps = earlier ++ p :: later ∧ g = earlier.length ∧
      (∀ q ∈ earlier, q.first? cs = none) ∧ p.first? cs = some cut := by
  have first := groupThen_report 0 ps cs
  rw [show groupThen _ 0 ps [] cs = some (g, cut) from h] at first
  simpa using first

/-- One of the given texts, earlier ones first. -/
def texts (ss : List String) : Pattern :=
  oneOf (ss.map text)

def letter : Pattern :=
  one Char.isAlpha

def digits : Pattern :=
  oneOrMore Text.isDecimal

def line : Pattern :=
  run (· != '\n')

end Pattern

end ScoreText
