import Mathlib.Algebra.Order.Ring.Rat
import Mathlib.Data.List.Forall2
import ScoreText.Music.Tree

/-! Music expressions: how they are written, how long they last, and what a tree that mirrors one looks
like. A length that is not written is the one written last.

```text
  { c'4 \tuplet 3/2 { d8 r f, } <c e>2. }     1/4 + 2/3 (1/8 + 1/8 + 1/8) + 3/4
```
-/
namespace ScoreText

inductive Letter where
  | a | b | c | d | e | f | g
  deriving DecidableEq, Repr

def Letter.char : Letter → Char
  | a => 'a'
  | b => 'b'
  | c => 'c'
  | d => 'd'
  | e => 'e'
  | f => 'f'
  | g => 'g'

/-- A note without its length: the letter, and how many octaves its marks go up. -/
structure Tone where
  letter : Letter
  octave : Int
  deriving DecidableEq, Repr

def Tone.marks (t : Tone) : List Char :=
  match t.octave with
  | .ofNat n => List.replicate n '\''
  | .negSucc n => List.replicate (n + 1) ','

def Tone.chars (t : Tone) : List Char :=
  t.letter.char :: t.marks

/-- A written length: a power of two up to 64, and up to 50 dots. -/
structure Length where
  power : Fin 7
  dots : Fin 51
  deriving DecidableEq, Repr

namespace Length

def quarter : Length :=
  ⟨2, 0⟩

def digits (l : Length) : List Char :=
  Nat.toDigits 10 (2 ^ l.power.val)

def chars (l : Length) : List Char :=
  l.digits ++ List.replicate l.dots '.'

def duration (l : Length) : Duration :=
  ⟨1 / 2 ^ l.power.val, 2 - 1 / 2 ^ l.dots.val⟩

end Length

/-- The two numbers of a tuplet, positive and within a signed 64-bit word. -/
structure Proportion where
  played : Nat
  counted : Nat
  played_pos : 0 < played
  counted_pos : 0 < counted
  played_word : played ≤ 9223372036854775807
  counted_word : counted ≤ 9223372036854775807

namespace Proportion

def chars (p : Proportion) : List Char :=
  Nat.toDigits 10 p.played ++ '/' :: Nat.toDigits 10 p.counted

def scaling (p : Proportion) : Fraction :=
  Fraction.ofInts p.counted p.played

end Proportion

inductive Leaf where
  | note (tone : Tone)
  | rest
  | chord (first : Tone) (others : List Tone)

def Leaf.chars : Leaf → List Char
  | note tone => tone.chars
  | rest => ['r']
  | chord first others => '<' :: first.chars ++ others.flatMap (fun tone => ' ' :: tone.chars) ++ ['>']

/-- The levels that a leaf takes. The notes of a chord lie in the chord. -/
def Leaf.depth : Leaf → Nat
  | note _ | rest => 1
  | chord _ _ => 2

inductive Music where
  | leaf (leaf : Leaf) (written : Option Length)
  | list (simultaneous : Bool) (items : List Music)
  | tuplet (ratio : Proportion) (simultaneous : Bool) (items : List Music)

namespace Music

def opening (simultaneous : Bool) : List Char :=
  if simultaneous then ['<', '<'] else ['\x7b']

def closing (simultaneous : Bool) : List Char :=
  if simultaneous then ['>', '>'] else ['\x7d']

def listChars (simultaneous : Bool) (inner : List Char) : List Char :=
  opening simultaneous ++ ' ' :: (inner ++ closing simultaneous)

def tupletCommand : List Char :=
  "\\tuplet".toList

mutual

/-- How an expression is written. There is one space between any two parts. -/
def chars : Music → List Char
  | leaf l written => l.chars ++ (written.map Length.chars).getD []
  | list s items => listChars s (charsOfAll items)
  | tuplet p s items => tupletCommand ++ ' ' :: (p.chars ++ ' ' :: listChars s (charsOfAll items))

/-- Items with a space behind each. -/
def charsOfAll : List Music → List Char
  | [] => []
  | m :: ms => m.chars ++ ' ' :: charsOfAll ms

end

mutual

/-- How deep lists, tuplets, chords and leaves are nested. -/
def depth : Music → Nat
  | leaf l _ => l.depth
  | list _ items => depthOfAll items + 1
  | tuplet _ _ items => depthOfAll items + 2

def depthOfAll : List Music → Nat
  | [] => 0
  | m :: ms => max m.depth (depthOfAll ms)

end

section Levels

variable {s : Bool} {p : Proportion} {m : Music} {ms : List Music} {n : Nat}

theorem levels_list (deep : (list s ms).depth ≤ n) : ∃ k, n = k + 1 ∧ depthOfAll ms ≤ k := by
  rw [depth] at deep
  exact ⟨n - 1, by omega, by omega⟩

theorem levels_tuplet (deep : (tuplet p s ms).depth ≤ n) : ∃ k, n = k + 2 ∧ depthOfAll ms ≤ k := by
  rw [depth] at deep
  exact ⟨n - 2, by omega, by omega⟩

theorem levels_cons (deep : depthOfAll (m :: ms) ≤ n) : m.depth ≤ n ∧ depthOfAll ms ≤ n := by
  simpa [depthOfAll] using deep

end Levels

mutual

/-- The length that is written last when an expression is over. -/
def lastLength (last : Length) : Music → Length
  | leaf _ written => written.getD last
  | list _ items => lastLengthOfAll last items
  | tuplet _ _ items => lastLengthOfAll last items

def lastLengthOfAll (last : Length) : List Music → Length
  | [] => last
  | m :: ms => lastLengthOfAll (m.lastLength last) ms

end

/-- How long items last together. -/
def combine (simultaneous : Bool) (values : List Fraction) : Fraction :=
  if simultaneous then values.max?.getD 0 else values.sum

mutual

/-- How long an expression lasts. -/
def value (last : Length) : Music → Fraction
  | leaf _ written => (written.getD last).duration.length
  | list s items => combine s (valuesOfAll last items)
  | tuplet p s items => p.scaling * combine s (valuesOfAll last items)

def valuesOfAll (last : Length) : List Music → List Fraction
  | [] => []
  | m :: ms => m.value last :: valuesOfAll (m.lastLength last) ms

end

/-- The items of the list above. -/
def phrase : List Music :=
  [.leaf (.note ⟨.c, 1⟩) (some ⟨2, 0⟩),
    .tuplet
      ⟨3, 2, Nat.succ_pos 2, Nat.succ_pos 1, Nat.le_of_ble_eq_true rfl, Nat.le_of_ble_eq_true rfl⟩ false
      [.leaf (.note ⟨.d, 0⟩) (some ⟨3, 0⟩), .leaf .rest none, .leaf (.note ⟨.f, -1⟩) none],
    .leaf (.chord ⟨.c, 0⟩ [⟨.e, 0⟩]) (some ⟨1, 1⟩)]

end Music

section Mirror

/-- What the pitch of a letter is: its step and its alteration. -/
abbrev Naming := Letter → Nat × Fraction

def Naming.KnownIn (names : Naming) (language : String) : Prop :=
  ∀ l : Letter, readPitch? language (String.ofList [l.char]) = some (names l)

variable (t : Tree) (names : Naming)

/-- An item is a note with a letter and an octave. -/
def Tone.MirroredBy (tone : Tone) (id : ItemId) : Prop :=
  t.kind id = .note ∧ ∃ marks, (t.item id).details =
    .note ⟨(names tone.letter).1, (names tone.letter).2, tone.octave, "", none⟩ marks none none

/-- The children that stand for a written length: one, or none if no length is written. -/
def WrittenBy (written : Option Length) (ids : List ItemId) : Prop :=
  match written with
  | none => ids = []
  | some _ => ∃ id, ids = [id] ∧ t.kind id = .writtenDuration

def Leaf.MirroredBy (leaf : Leaf) (written : Option Length) (id : ItemId) : Prop :=
  match leaf with
  | .note tone => tone.MirroredBy t names id ∧ WrittenBy t written (t.children id)
  | .rest => t.kind id = .rest ∧ WrittenBy t written (t.children id)
  | .chord first others => t.kind id = .chord ∧ ∃ notes ids, t.children id = notes ++ ids ∧
      List.Forall₂ (fun id tone => tone.MirroredBy t names id ∧ t.children id = []) notes
        (first :: others) ∧ WrittenBy t written ids

mutual

/-- An item and all below it are what an expression says, one to one and in order. Behind the length
written last, leaves without a length of their own have that one. -/
def Music.MirroredBy (last : Length) : Music → ItemId → Prop
  | .leaf l written, id =>
    l.MirroredBy t names written id ∧ (t.item id).duration = some (written.getD last).duration
  | .list s items, id =>
    t.kind id = .musicList ∧ (t.item id).details = .list s ∧
      Music.AllMirroredBy last items (t.children id)
  | .tuplet p s items, id =>
    t.kind id = .scaler ∧ (t.item id).details = .scaler p.played p.counted p.scaling ∧
      ∃ number list, t.children id = [number, list] ∧ t.kind number = .number ∧
        t.kind list = .musicList ∧ (t.item list).details = .list s ∧
        Music.AllMirroredBy last items (t.children list)

def Music.AllMirroredBy (last : Length) : List Music → List ItemId → Prop
  | [], ids => ids = []
  | m :: ms, ids => ∃ id others, ids = id :: others ∧ m.MirroredBy last id ∧
      Music.AllMirroredBy (m.lastLength last) ms others

end

end Mirror

end ScoreText
