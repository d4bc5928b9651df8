import ScoreText.Token.Trait
/-!
The token kinds of DocBook and what can be said of a kind alone.
-/
namespace ScoreText.DocBook

inductive Kind where
  | comment | commentStart | commentEnd
  | declaration | declarationStart | declarationEnd | processingInstruction
  | cdata | cdataStart | cdataEnd
  | string | stringDQStart | stringSQStart | stringDQEnd | stringSQEnd
  | tagStart | tagEnd | attrName | equalSign | entityRef
  | listingStart | listingTagEnd | listingEnd
  deriving DecidableEq, Repr

def Kind.label : Kind → String
  | .comment => "Comment"
  | .commentStart => "CommentStart"
  | .commentEnd => "CommentEnd"
  | .declaration => "Declaration"
  | .declarationStart => "DeclarationStart"
  | .declarationEnd => "DeclarationEnd"
  | .processingInstruction => "ProcessingInstruction"
  | .cdata => "CData"
  | .cdataStart => "CDataStart"
  | .cdataEnd => "CDataEnd"
  | .string => "String"
  | .stringDQStart => "StringDQStart"
  | .stringSQStart => "StringSQStart"
  | .stringDQEnd => "StringDQEnd"
  | .stringSQEnd => "StringSQEnd"
  | .tagStart => "TagStart"
  | .tagEnd => "TagEnd"
  | .attrName => "AttrName"
  | .equalSign => "EqualSign"
  | .entityRef => "EntityRef"
  | .listingStart => "ListingStart"
  | .listingTagEnd => "ListingTagEnd"
  | .listingEnd => "ListingEnd"

def Kind.all : List Kind :=
  [.comment, .commentStart, .commentEnd, .declaration, .declarationStart, .declarationEnd,
   .processingInstruction, .cdata, .cdataStart, .cdataEnd, .string, .stringDQStart,
   .stringSQStart, .stringDQEnd, .stringSQEnd, .tagStart, .tagEnd, .attrName, .equalSign,
   .entityRef, .listingStart, .listingTagEnd, .listingEnd]

namespace Kind

def capabilities : Kind → List Capability
  | .commentEnd | .declarationEnd | .stringDQEnd | .stringSQEnd | .tagEnd
  | .listingEnd => [.leaver]
  | _ => []

def categories : Kind → List Category
  | .comment | .commentStart | .commentEnd => [.comment]
  | .string => [.string]
  | .stringDQStart | .stringSQStart => [.string, .stringStart]
  | .stringDQEnd | .stringSQEnd => [.string, .stringEnd]
  | .entityRef => [.character]
  | _ => []

end Kind

end ScoreText.DocBook
