import Mathlib.Data.List.TakeWhile
import ScoreText.Music.Reading.Score
import ScoreText.Proofs.Extent

/-! The outline of a score: where its items start, as far as the tokens alone show it. Lists, blocks and texts
go on to the end of a region, and a setting goes on to the end of its value. -/
namespace ScoreText

open Reading

/-- How far what starts with a token goes on. -/
inductive Shape where
  | alone
  /-- a list with items in a region -/
  | list
  /-- a region with parts of its own kind -/
  | text
  /-- a word, and a list behind it -/
  | block
  /-- a name, an equals sign and a value -/
  | assignment
  /-- a word, and one item behind it -/
  | argument
  deriving DecidableEq

/-- The kind of item that a command with one argument is. -/
def argumentKind? : String → Option ItemKind
  | "\\absolute" => some .absolute
  | "\\grace" | "\\acciaccatura" | "\\appoggiatura" | "\\slashedGrace" => some .grace
  | "\\stringTuning" => some .stringTuning
  | "\\version" => some .version
  | _ => none

/-- Whether a token starts an item. -/
def startsItem : TokenKind → Bool
  | .lily k =>
    (plainKind? k).isSome || (blockKind? k).isSome || (inputKind? k).isSome ||
      match k with
      | .schemeStart | .stringQuotedStart | .note | .rest | .skip | .spacer | .q | .length | .chordStart
      | .openBracket | .sequentialStart | .openSimultaneous | .simultaneousStart
      | .simultaneousOrSequentialCommand | .chordSeparator | .tremoloColon | .name | .contextProperty
      | .paperVariable | .layoutVariable | .headerVariable | .direction | .slurStart | .slurEnd
      | .phrasingSlurStart | .phrasingSlurEnd | .beamStart | .ligatureStart | .beamEnd | .ligatureEnd | .set
      | .unset | .override | .revert | .tweak | .new | .context | .change | .clef | .tempo | .repeatCommand
      | .lyricMode | .markup | .markupLines | .markupList | .userCommand | .command | .pitchCommand
      | .keyword => true
      | _ => false
  | .scheme .stringQuotedStart => true
  | _ => false

/-- The shape of what starts with a token, if no more than the tokens is needed to tell where it ends. -/
def Token.shape? (t : Token) : Option Shape :=
  match t.kind with
  | .lily .openBracket | .lily .sequentialStart | .lily .openSimultaneous | .lily .simultaneousStart => some .list
  | .lily .stringQuotedStart | .lily .markup | .lily .markupLines | .lily .markupList => some .text
  | .lily .name | .lily .contextProperty => some .assignment
  | .lily .command | .lily .pitchCommand | .lily .keyword => (argumentKind? t.text).map fun _ => .argument
  | .lily .userCommand => if t.text = "\\partcombine" then none else some .alone
  | .lily .withBlock => none
  | .lily k =>
    if (plainKind? k).isSome || k.isSlur || k.isBeam then some .alone
    else (blockKind? k).map fun _ => .block
  | _ => none

/-- What a number of tokens behind skipped ones is with these. -/
def lengthBehind (skips : ScannedToken → Bool) (count : ScannedToken → List ScannedToken → Option Nat)
    (ts : List ScannedToken) : Option Nat :=
  match ts.dropWhile skips with
  | [] => none
  | v :: vs => (count v vs).map fun k => (ts.takeWhile skips).length + 1 + k

/-- What is known of the items behind a token. No tokens may remain to be counted down behind one that leaves
the region. -/
def upToEnd (limit : Option Nat) (u : ScannedToken) (k : Nat) (items : Option (List ScannedToken)) :
    Option (List ScannedToken) :=
  if Within limit u.depth then items else if k = 0 then some [] else none

/-- The tokens that items start with, up to the end of a region, if it is known of each item how many tokens
belong to it. Those of the last item are counted down. -/
def outlineBy (count : ScannedToken → List ScannedToken → Option Nat) (limit : Option Nat) :
    Nat → List ScannedToken → Option (List ScannedToken)
  | _, [] => some []
  | k + 1, u :: ts => upToEnd limit u k (outlineBy count limit k ts)
  | 0, u :: ts =>
    if startsItem u.token.kind then
      (count u ts).bind fun k => (upToEnd limit u k (outlineBy count limit k ts)).map (u :: ·)
    else upToEnd limit u 0 (outlineBy count limit 0 ts)

/-- The number of tokens behind one up to that which leaves its region. -/
def regionLength (u : ScannedToken) (ts : List ScannedToken) : Nat :=
  (ts.takeWhile fun t => decide (Within (some u.depth) t.depth)).length + 1

instance calmDecidable (limit : Option Nat) : (last : Nat) → (ts : List ScannedToken) →
    Decidable (Calm limit last ts)
  | _, [] => .isTrue trivial
  | last, t :: ts =>
    have := calmDecidable limit t.depth ts
    inferInstanceAs (Decidable (t.token.isTame ∧ (t.depth < last → t.token.opens = false) ∧
      (t.token.looksAhead → ∀ x ∈ ts.takeWhile (·.isBlank), t.depth ≤ x.depth) ∧
      (Within limit t.depth → Calm limit t.depth ts)))

/-- The number of tokens in a list that is read to its end: nothing in it reads on outside, or all that it
holds has an outline. -/
def listLength (count : ScannedToken → List ScannedToken → Option Nat) (u : ScannedToken)
    (ts : List ScannedToken) : Option Nat :=
  if Calm (some u.depth) u.depth ts ∨ (outlineBy count (some u.depth) 0 ts).isSome then some (regionLength u ts)
  else none

/-- The number of tokens that what is read from a token with at most some levels takes behind it. The value of
a setting must not lie past the last level. -/
def extent : Nat → ScannedToken → List ScannedToken → Option Nat
  | 0, _, _ => some 0
  | n + 1, u, ts =>
    match u.token.shape? with
    | some .alone => some 0
    | some .list => listLength (extent n) u ts
    | some .text => if Calm (some u.depth) u.depth ts then some (regionLength u ts) else none
    | some .block =>
      lengthBehind (fun x => x.token.kind.isSpace && decide (u.depth ≤ x.depth))
        (fun v vs => if opensBlock v.token then listLength (extent n) v vs else none) ts
    | some .assignment =>
      lengthBehind (·.isBlank) (fun e es =>
        if e.token.kind = .lily .equalSign ∧ 0 < n then lengthBehind (·.isBlank) (extent n) es else none) ts
    | some .argument =>
      if 0 < n then
        lengthBehind (fun x => x.isBlank && decide (u.depth ≤ x.depth))
          (fun v vs => if u.depth ≤ v.depth then extent n v vs else none) ts
      else none
    | none => none

/-- The tokens that the toplevel items of a score start with. -/
def outline (n : Nat) (ts : List ScannedToken) : Option (List ScannedToken) :=
  outlineBy (extent n) none 0 ts

section Behind

variable {skips : ScannedToken → Bool} {count other : ScannedToken → List ScannedToken → Option Nat}
  {ts : List ScannedToken} {limit : Option Nat} {j k m n : Nat} {u : ScannedToken}

theorem lengthBehind_eq_some (found : lengthBehind skips count ts = some k) : ∃ xs v vs j, ts = xs ++ v :: vs ∧
    (∀ x ∈ xs, skips x) ∧ skips v = false ∧ count v vs = some j ∧ k = xs.length + 1 + j := by
  unfold lengthBehind at found
  split at found
  · cases found
  · rename_i v vs dropped
    obtain ⟨j, counted, rfl⟩ := Option.map_eq_some_iff.mp found
    refine ⟨ts.takeWhile skips, v, vs, j, ?_, fun x member => List.mem_takeWhile_imp member, ?_, counted, rfl⟩
    · rw [← dropped, List.takeWhile_append_dropWhile]
    · have first := List.head?_dropWhile_not skips ts
      simpa [dropped] using first

theorem lengthBehind_eq (agree : ∀ v vs j k, count v vs = some j → other v vs = some k → j = k)
    (one : lengthBehind skips count ts = some j) (two : lengthBehind skips other ts = some k) : j = k := by
  unfold lengthBehind at one two
  split at one
  · cases one
  · rename_i v vs dropped
    rw [dropped] at two
    obtain ⟨i, counted, rfl⟩ := Option.map_eq_some_iff.mp one
    obtain ⟨l, again, rfl⟩ := Option.map_eq_some_iff.mp two
    rw [agree v vs i l counted again]

theorem listLength_eq_some (found : listLength count u ts = some k) : k = regionLength u ts := by
  simp only [listLength, Option.ite_none_right_eq_some, Option.some.injEq] at found
  exact found.2.symm

/-- How far an item goes does not depend on the number of levels. -/
theorem extent_eq (some_level : 0 < n) (other_level : 0 < m) (one : extent n u ts = some j)
    (two : extent m u ts = some k) : j = k := by
  induction n generalizing m u ts j k with
  | zero => cases some_level
  | succ n ih =>
    obtain ⟨m, rfl⟩ := Nat.exists_eq_succ_of_ne_zero (Nat.ne_of_gt other_level)
    cases shape : u.token.shape? with
    | none => simp [extent, shape] at one
    | some s =>
      -- each shape counts with one level less or with none at all
      cases s with
      | alone =>
        simp only [extent, shape] at one two
        exact Option.some.inj (one.symm.trans two)
      | list =>
        simp only [extent, shape] at one two
        rw [listLength_eq_some one, listLength_eq_some two]
      | text =>
        simp only [extent, shape, Option.ite_none_right_eq_some] at one two
        exact Option.some.inj (one.2.symm.trans two.2)
      | block =>
        simp only [extent, shape] at one two
        refine lengthBehind_eq (fun v vs j k one two => ?_) one two
        simp only [Option.ite_none_right_eq_some] at one two
        rw [listLength_eq_some one.2, listLength_eq_some two.2]
      | assignment =>
        simp only [extent, shape] at one two
        refine lengthBehind_eq (fun e es j k one two => ?_) one two
        simp only [Option.ite_none_right_eq_some] at one two
        exact lengthBehind_eq (fun v vs j k => ih one.1.2 two.1.2) one.2 two.2
      | argument =>
        simp only [extent, shape, Option.ite_none_right_eq_some] at one two
        refine lengthBehind_eq (fun v vs j k first second => ?_) one.2 two.2
        simp only [Option.ite_none_right_eq_some] at first second
        exact ih one.1 two.1 first.2 second.2

theorem outlineBy_eq (agree : ∀ v vs j k, count v vs = some j → other v vs = some k → j = k)
    {us vs : List ScannedToken} (one : outlineBy count limit k ts = some us)
    (two : outlineBy other limit k ts = some vs) : us = vs := by
  induction ts generalizing k us vs with
  | nil => exact Option.some.inj (one.symm.trans two)
  | cons t ts ih =>
    have onward : ∀ {j : Nat} {us vs : List ScannedToken}, upToEnd limit t j (outlineBy count limit j ts) = some us →
        upToEnd limit t j (outlineBy other limit j ts) = some vs → us = vs := by
      intro j us vs one two
      unfold upToEnd at one two
      split at one
      · rename_i within
        rw [if_pos within] at two
        exact ih one two
      · rename_i outside
        rw [if_neg outside] at two
        exact Option.some.inj (one.symm.trans two)
    cases k with
    | succ k => exact onward one two
    | zero =>
      cases starts : startsItem t.token.kind with
      | true =>
        simp only [outlineBy, starts, if_true] at one two
        obtain ⟨j, counted, one⟩ := Option.bind_eq_some_iff.mp one
        obtain ⟨i, again, two⟩ := Option.bind_eq_some_iff.mp two
        obtain rfl := agree t ts j i counted again
        obtain ⟨us, first, rfl⟩ := Option.map_eq_some_iff.mp one
        obtain ⟨vs, second, rfl⟩ := Option.map_eq_some_iff.mp two
        rw [onward first second]
      | false =>
        simp only [outlineBy, starts, Bool.false_eq_true, if_false] at one two
        exact onward one two

/-- The outline of a score does not depend on the number of levels. -/
theorem outline_eq {us vs : List ScannedToken} (some_level : 0 < n) (other_level : 0 < m)
    (one : outline n ts = some us) (two : outline m ts = some vs) : us = vs :=
  outlineBy_eq (fun _ _ _ _ => extent_eq some_level other_level) one two

end Behind

end ScoreText
