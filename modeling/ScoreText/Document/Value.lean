import ScoreText.Document.Variable
import ScoreText.Text.Digit
/-!
What the items of a document say: names, counts, versions, lengths and plain text.
-/
namespace ScoreText.Document

/-- The text of an attribute: a token as written, a string without quotes, or the strings of a
Scheme expression. -/
def attributeText? (doc : Document) : Option Attribute → Option String
  | none => none
  | some (.token t) => some t.text
  | some (.item id) =>
    match doc.tree.kind id with
    | .string => some (doc.tree.unquoted id)
    | .scheme => doc.tree.schemeText? id
    | _ => none

/-- The version that an item asks for, as text. -/
def versionText (doc : Document) (id : ItemId) : String :=
  (doc.tree.firstText? id).getD ""

def digitRuns : List Char → List (List Char)
  | [] => []
  | c :: cs =>
    if !Text.isDecimal c then digitRuns cs
    else match cs with
      | [] => [[c]]
      | next :: _ =>
        match digitRuns cs with
        | run :: runs => if Text.isDecimal next then (c :: run) :: runs else [c] :: run :: runs
        | [] => [[c]]

/-- The numbers of a version. Those too large or in another script are left out. -/
def versionNumbers (doc : Document) (id : ItemId) : List Nat :=
  (digitRuns (doc.versionText id).toList).filterMap Text.nat32?

def trimQuotes (cs : List Char) : List Char :=
  let quote := (· == '"')
  ((cs.dropWhile quote).reverse.dropWhile quote).reverse

/-- How the music of an item is repeated, without quotes. -/
def repeatStyle? (doc : Document) (id : ItemId) : Option String :=
  match (doc.tree.item id).details with
  | .repetition specifier _ =>
    (doc.attributeText? specifier).map fun s => String.ofList (trimQuotes s.toList)
  | _ => none

/-- How often the music of an item is played. A count that is missing or zero is one. -/
def timesPlayed (doc : Document) (id : ItemId) : Int :=
  match (doc.tree.item id).details with
  | .repetition _ count =>
    let n := match count with
      | some (.item scheme) => (doc.tree.schemeCount? scheme).getD 1
      | some (.token t) => (Text.int64? t.text.toList).getD 1
      | none => 1
    if n = 0 then 1 else n
  | _ => 1

def contextKind? (doc : Document) (id : ItemId) : Option String :=
  match (doc.tree.item id).details with
  | .translator context _ => context.map (·.text)
  | _ => none

def contextLabel? (doc : Document) (id : ItemId) : Option String :=
  match (doc.tree.item id).details with
  | .translator _ contextId => doc.attributeText? contextId
  | _ => none

def clefName? (doc : Document) (id : ItemId) : Option String :=
  match (doc.tree.item id).details with
  | .clef specifier => doc.attributeText? specifier
  | _ => none

def switchesTo? (doc : Document) (id : ItemId) : Option String :=
  match (doc.tree.item id).details with
  | .language name => name
  | _ => none

/-- The children whose texts make up the text of an item, and what stands between them. A markup
command takes the parts of its only argument if that one is a list, and one of them puts nothing
between. -/
def plainParts (doc : Document) (id : ItemId) : List ItemId × String :=
  let children := doc.tree.children id
  match doc.tree.kind id with
  | .markupCommand =>
    let between := if doc.textAt id == "\\concat" then "" else " "
    match children with
    | [only] =>
      if doc.tree.kind only == .markupList then (doc.tree.children only, between)
      else (children, between)
    | _ => (children, between)
  | _ => (children, " ")

/-- The plain text of an item, at most `n` levels below it. -/
def plainBelow (doc : Document) : Nat → ItemId → String
  | 0, _ => ""
  | n + 1, id =>
    match doc.tree.kind id with
    | .markup | .markupList | .markupCommand =>
      let (parts, between) := doc.plainParts id
      between.intercalate (parts.map (doc.plainBelow n))
    | .markupWord => doc.textAt id
    | .string => doc.tree.unquoted id
    | .scheme => (doc.tree.schemeText? id).getD ""
    | _ => ""

/-- The plain text of markup, strings and Scheme strings. -/
def plainText (doc : Document) (id : ItemId) : String :=
  doc.plainBelow doc.tree.size id

/-- The length of a measure: the upper number times the value that the lower one stands for. -/
def measureLength? (doc : Document) (id : ItemId) : Option Fraction :=
  match (doc.tree.item id).details with
  | .timeSignature numerator fraction _ => fraction.mul? numerator
  | _ => none

def writtenLength (doc : Document) (id : ItemId) : Fraction :=
  (doc.tree.item id).durationOrZero.length

/-- The beats of a tempo: the whole numbers behind the equal sign. -/
def beats (doc : Document) (id : ItemId) : List Int :=
  match (doc.tree.item id).tokens with
  | [] => []
  | equalSign :: _ =>
    ((doc.tree.children id).filter fun c => (doc.tree.item c).position > equalSign.start).filterMap
      fun c =>
        match doc.tree.kind c with
        | .number =>
          match doc.tree.number? c with
          | some (.int n) => some n
          | _ => none
        | .scheme => doc.tree.schemeCount? c
        | _ => none

/-- The text of a tempo is its first child, if that one is text. -/
def tempoLabel? (doc : Document) (id : ItemId) : Option ItemId :=
  (doc.tree.children id).head?.filter fun c =>
    [ItemKind.string, .markup, .scheme].contains (doc.tree.kind c)

end ScoreText.Document
