import ScoreText.Time.Fraction
/-!
Pitches and their names in the languages that music can be written in.
-/
namespace ScoreText

structure Pitch where
  /-- the step, from 0 for c to 6 for b -/
  note : Nat
  /-- the alteration in whole tones -/
  alter : Fraction
  octave : Int
  /-- the sign that demands an accidental, if any -/
  accidental : String
  octaveCheck : Option Int
  deriving DecidableEq, Repr

def Pitch.plain (note : Nat) (alter : Fraction) : Pitch :=
  ⟨note, alter, 0, "", none⟩

/-- How many octaves up the marks go. -/
def octaveOfMarks (marks : List Char) : Int :=
  marks.foldl (fun n c => if c == '\'' then n + 1 else if c == ',' then n - 1 else n) 0

/-- How a language names pitches. -/
structure PitchNames where
  /-- the seven steps from c to b -/
  steps : List String
  /-- the alterations from the double flat to the double sharp in quarter tones, empty where there
  is no name -/
  alterations : List String
  /-- short spellings at the front of a name, each behind the regular spelling -/
  contractions : List (String × String)

namespace PitchNames

private def dutchAlterations : List String :=
  ["eses", "eseh", "es", "eh", "", "ih", "is", "isih", "isis"]

private def solfege : List String :=
  ["do", "re", "mi", "fa", "sol", "la", "si"]

def nederlands : PitchNames :=
  ⟨["c", "d", "e", "f", "g", "a", "b"], dutchAlterations, [("ees", "es"), ("aes", "as")]⟩

def english : PitchNames :=
  ⟨["c", "d", "e", "f", "g", "a", "b"],
    ["ff", "tqf", "f", "qf", "", "qs", "s", "tqs", "ss"], []⟩

def deutsch : PitchNames :=
  ⟨["c", "d", "e", "f", "g", "a", "h"], dutchAlterations,
    [("ases", "asas"), ("ees", "es"), ("aes", "as"), ("heses", "heses"), ("hes", "b")]⟩

def svenska : PitchNames :=
  ⟨["c", "d", "e", "f", "g", "a", "h"], ["essess", "", "ess", "", "", "", "iss", "", "ississ"],
    [("ees", "es"), ("aes", "as"), ("hessess", "hessess"), ("hess", "b")]⟩

def italiano : PitchNames :=
  ⟨solfege, ["bb", "bsb", "b", "sb", "", "sd", "d", "dsd", "dd"], []⟩

def espanol : PitchNames :=
  ⟨solfege, ["bb", "", "b", "", "", "", "s", "", "ss"], []⟩

def portugues : PitchNames :=
  ⟨solfege, ["bb", "btqt", "b", "bqt", "", "sqt", "s", "stqt", "ss"], []⟩

def vlaams : PitchNames :=
  ⟨solfege, ["bb", "", "b", "", "", "", "k", "", "kk"], []⟩

def languages : List (String × PitchNames) :=
  [("nederlands", nederlands), ("english", english), ("deutsch", deutsch), ("norsk", deutsch),
   ("suomi", deutsch), ("svenska", svenska), ("italiano", italiano), ("catalan", italiano),
   ("espanol", espanol), ("portugues", portugues), ("vlaams", vlaams)]

def ofLanguage? (language : String) : Option PitchNames :=
  languages.lookup language

def isLanguage (language : String) : Bool :=
  (ofLanguage? language).isSome

/-- What is left behind a word at the front of a text. -/
def behind? (word : List Char) (cs : List Char) : Option (List Char) :=
  if word.isPrefixOf cs then some (cs.drop word.length) else none

/-- Puts regular spellings for short ones at the front of a name, one after the other. -/
def expand (names : PitchNames) (cs : List Char) : List Char :=
  names.contractions.foldl (fun cs (regular, short) =>
    match behind? short.toList cs with
    | some rest => regular.toList ++ rest
    | none => cs) cs

/-- The step and the alteration of a regular name: a step, then nothing or an alteration. -/
def split? (names : PitchNames) (cs : List Char) : Option (Nat × Fraction) :=
  names.steps.zipIdx.findSome? fun (step, note) =>
    (behind? step.toList cs).bind fun alteration =>
      if alteration.isEmpty then some (note, 0)
      else
        (names.alterations.findIdx? fun a => !a.isEmpty && a.toList == alteration).map fun i =>
          (note, Fraction.ofInts ((i : Int) - 4) 4)

/-- Puts one text for each occurrence of another, from the front on. -/
def substitute (word : List Char) (put : List Char) (cs : List Char) : List Char :=
  go cs.length cs
where
  go : Nat → List Char → List Char
    | 0, cs => cs
    | _ + 1, [] => []
    | n + 1, c :: cs =>
      match behind? word (c :: cs) with
      | some rest => put ++ go n rest
      | none => c :: go n cs

/-- Reads the name of a note. The long English alterations are understood in every language whose
alterations they shorten to. -/
def read? (names : PitchNames) (text : String) : Option (Nat × Fraction) :=
  let cs := names.expand text.toList
  (names.split? cs).or <| names.split? <|
    substitute "sharp".toList "s".toList (substitute "flat".toList "f".toList cs)

end PitchNames

def readPitch? (language : String) (text : String) : Option (Nat × Fraction) :=
  (PitchNames.ofLanguage? language).bind (·.read? text)

end ScoreText
