import ScoreText.Lexer.Scan
import ScoreText.Music.ItemKind
import ScoreText.Music.Pitch
import ScoreText.Time.Duration
/-!
The items that a score is made of.
-/
namespace ScoreText

/-- Items are known by their place in the tree that holds them. -/
abbrev ItemId := Nat

/-- A part of an item that is written as one token or is an item of its own. -/
inductive Attribute where
  | token (t : Token)
  | item (id : ItemId)
  deriving DecidableEq, Repr

/-- What an item holds beside its children. -/
inductive Details where
  | none
  | note (pitch : Pitch) (octave accidental check : Option Token)
  | list (simultaneous : Bool)
  | scaler (numerator denominator : Int) (scaling : Fraction)
  | repetition (specifier count : Option Attribute)
  /-- the context that music is put into, by its kind and by its own name -/
  | translator (context : Option Token) (contextId : Option Attribute)
  | clef (specifier : Option Attribute)
  | timeSignature (numerator : Int) (fraction : Fraction) (beatStructure : Option ItemId)
  | language (name : Option String)
  /-- one end of a span such as a slur -/
  | span (starts : Bool)
  /-- above is 1, below is -1 -/
  | direction (d : Int)
  deriving DecidableEq, Repr

namespace Attribute

def item? : Option Attribute → Option ItemId
  | some (.item id) => some id
  | _ => none

def token? : Option Attribute → Option Token
  | some (.token t) => some t
  | _ => none

end Attribute

namespace Details

/-- The items that are attributes and not children. -/
def items : Details → List ItemId
  | repetition specifier count => [specifier, count].filterMap Attribute.item?
  | translator _ contextId => (Attribute.item? contextId).toList
  | clef specifier => (Attribute.item? specifier).toList
  | timeSignature _ _ beatStructure => beatStructure.toList
  | _ => []

def tokens : Details → List Token
  | note _ octave accidental check => [octave, accidental, check].filterMap id
  | repetition specifier count => [specifier, count].filterMap Attribute.token?
  | translator context contextId => [context, Attribute.token? contextId].filterMap id
  | clef specifier => (Attribute.token? specifier).toList
  | _ => []

end Details

structure Item where
  kind : ItemKind
  /-- the byte offset where the item starts -/
  position : Nat
  /-- the token that starts the item, if any -/
  token : Option Token
  /-- other tokens of the item, such as closing brackets -/
  tokens : List Token
  parent : Option ItemId
  children : List ItemId
  duration : Option Duration
  details : Details
  deriving DecidableEq, Repr

namespace Item

def single (kind : ItemKind) (position : Nat) (token : Option Token) : Item :=
  ⟨kind, position, token, [], none, [], none, .none⟩

def durationOrZero (i : Item) : Duration :=
  i.duration.getD .zero

/-- Text of the token that starts the item, empty if there is none. -/
def text (i : Item) : String :=
  match i.token with
  | some t => t.text
  | none => ""

def ownEnd (i : Item) : Nat :=
  match i.tokens.getLast?, i.token with
  | some last, _ => last.stop
  | none, some t => t.stop
  | none, none => i.position

end Item

end ScoreText
