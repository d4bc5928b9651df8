/-!
The regions of DocBook input: places in which a fixed set of token kinds may occur.
-/
namespace ScoreText.DocBook

inductive Region where
  | document | comment | declaration | cdata
  | stringDQ | stringSQ | attr | listingAttr | lilyPond
  deriving DecidableEq, Repr

def Region.label : Region → String
  | .document => "ParseDocBook"
  | .comment => "ParseComment"
  | .declaration => "ParseDeclaration"
  | .cdata => "ParseCData"
  | .stringDQ => "ParseStringDQ"
  | .stringSQ => "ParseStringSQ"
  | .attr => "ParseAttr"
  | .listingAttr => "ParseListingAttr"
  | .lilyPond => "ParseLilyPond"

def Region.all : List Region :=
  [.document, .comment, .declaration, .cdata, .stringDQ, .stringSQ, .attr, .listingAttr,
   .lilyPond]

end ScoreText.DocBook
