import ScoreText.Music.Tree
import ScoreText.Text.Decimal
/-!
Values that items stand for: the text of strings, numbers, and the few shapes of Scheme that matter
to a score.
-/
namespace ScoreText

inductive WrittenNumber where
  | int (n : Int)
  | decimal (d : Text.Decimal)
  | fraction (q : Fraction)
  deriving DecidableEq, Repr

/-- The value as a fraction. Decimal numbers have none. -/
def WrittenNumber.fraction? : WrittenNumber → Option Fraction
  | int n => some (n : Fraction)
  | fraction q => some q
  | decimal _ => none

/-- The value of a written number: a fraction if it has a slash, a decimal if it has a point. -/
def WrittenNumber.read? (text : String) : Option WrittenNumber :=
  let cs := text.toList
  if cs.contains '/' then (Fraction.read? text).map .fraction
  else if cs.contains '.' then (Text.Decimal.read? cs).map .decimal
  else (Text.int64? cs).map .int

/-- The value of a written number by a computation on words. -/
def WrittenNumber.read (text : String) : Except Overflow (Option WrittenNumber) :=
  if text.toList.contains '/' then (Fraction.read text).map (·.map .fraction)
  else .ok (WrittenNumber.read? text)

/-- What a token within a string stands for. An escape stands for what follows its backslash. -/
def Token.content (t : Token) : List Char :=
  match t.text.toList with
  | '\\' :: cs => if t.kind.categories.contains .character then cs else '\\' :: cs
  | cs => cs

namespace Tree

/-- The text of a string without its quotes. The last token is the closing quote. -/
def unquoted (t : Tree) (id : ItemId) : String :=
  String.ofList ((t.item id).tokens.dropLast.flatMap Token.content)

def number? (t : Tree) (id : ItemId) : Option WrittenNumber :=
  WrittenNumber.read? (t.item id).text

/-- The number that any item is written as, by a computation on words. -/
def number (t : Tree) (id : ItemId) : Except Overflow (Option WrittenNumber) :=
  WrittenNumber.read (t.item id).text

/-- The atoms of a Scheme expression. -/
def atoms (t : Tree) (id : ItemId) : List Item :=
  ((t.descendants id).filter (t.kind · == .schemeItem)).map t.item

def atomCount? (i : Item) : Option Int :=
  Text.count? i.text.toList

/-- The first number without a sign in a Scheme expression. -/
def schemeCount? (t : Tree) (id : ItemId) : Option Int :=
  (t.atoms id).findSome? atomCount?

/-- The first number without a sign, or fraction, in a Scheme expression. -/
def schemeRatio? (t : Tree) (id : ItemId) : Option Fraction :=
  (t.atoms id).findSome? fun i =>
    match atomCount? i with
    | some n => some (n : Fraction)
    | none =>
      if (i.token.map (·.kind)) == some (.scheme .fraction) then Fraction.read? i.text else none

/-- The first two numbers without a sign in a Scheme expression. -/
def schemePair? (t : Tree) (id : ItemId) : Option (Int × Int) :=
  match (t.atoms id).filterMap atomCount? with
  | a :: b :: _ => some (a, b)
  | _ => none

/-- The strings of a Scheme expression, joined. -/
def schemeText? (t : Tree) (id : ItemId) : Option String :=
  match (t.descendants id).filter (t.kind · == .string) with
  | [] => none
  | ids => some (String.join (ids.map t.unquoted))

/-- The text of the first child that is a string or a Scheme expression. -/
def firstText? (t : Tree) (id : ItemId) : Option String :=
  (t.children id).findSome? fun c =>
    match t.kind c with
    | .string => some (t.unquoted c)
    | .scheme => some ((t.schemeText? c).getD "")
    | _ => none

end Tree

end ScoreText
