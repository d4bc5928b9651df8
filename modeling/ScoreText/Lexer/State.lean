import ScoreText.Lexer.Grammar
/-!
The open regions while a text is scanned.

```text
  top     markup   1 argument    ends after one argument
          music    0 arguments   ends at its bracket
  bottom  global   0 arguments   the root, which never ends
```
-/
namespace ScoreText

/-- An open region and the number of arguments it waits for. -/
structure Frame where
  region : Region
  arguments : Nat
  deriving DecidableEq, Repr

def Frame.fresh (r : Region) : Frame :=
  ⟨r, r.rule.arguments⟩

/-- The stack of open regions. The bottom one is kept apart because it never ends. -/
structure State where
  /-- the regions above the bottom, the top one in front -/
  inner : List Frame
  bottom : Frame
  deriving DecidableEq, Repr

namespace State

def ofRegion (r : Region) : State :=
  ⟨[], .fresh r⟩

def ofMode (m : Mode) : State :=
  ofRegion m.root

/-- The open regions, the top one in front. -/
def stack (s : State) : List Frame :=
  s.inner ++ [s.bottom]

/-- The open regions, the bottom one in front. -/
def frames (s : State) : List Frame :=
  s.stack.reverse

def depth (s : State) : Nat :=
  s.inner.length + 1

/-- The region that reads the text. -/
def top (s : State) : Frame :=
  s.inner.headD s.bottom

/-- The mode of the innermost region that has one. -/
def mode? (s : State) : Option Mode :=
  s.stack.findSome? (·.region.rule.mode)

def setTop (s : State) (f : Frame) : State :=
  match s.inner with
  | [] => { s with bottom := f }
  | _ :: rest => { s with inner := f :: rest }

def enterAwaiting (s : State) (r : Region) (arguments : Nat) : State :=
  { s with inner := ⟨r, arguments⟩ :: s.inner }

def enter (s : State) (r : Region) : State :=
  s.enterAwaiting r r.rule.arguments

/-- Ends the top region unless it is the root. -/
def leave (s : State) : State :=
  { s with inner := s.inner.tail }

def replace (s : State) (r : Region) : State :=
  s.setTop (.fresh r)

/-- One argument is complete. A region that waits for its last one ends and is an argument of the
region around it in turn; one that waits for more waits for one less; one that waits for none is
not touched. The root takes no arguments. -/
def completeArgument (s : State) : State :=
  { s with inner := go s.inner }
where
  go : List Frame → List Frame
    | [] => []
    | f :: rest =>
      match f.arguments with
      | 0 => f :: rest
      | 1 => go rest
      | n + 2 => ⟨f.region, n + 1⟩ :: rest

/-- Ends the markup regions that wait for arguments, then the region below them, which is the
bracket, and counts the bracket as an argument. -/
def closeMarkup (s : State) : State :=
  ({ s with inner := s.inner.dropWhile (·.arguments > 0) }.leave).completeArgument

def perform (s : State) : Action → State
  | .stay => s
  | .argument => s.completeArgument
  | .spend => s.setTop { s.top with arguments := s.top.arguments - 1 }
  | .leave => s.leave
  | .enter r => s.enter r
  | .enterAwaiting r n => s.enterAwaiting r n
  | .replace r => s.replace r
  | .leaveThenArgument => s.leave.completeArgument
  | .closeMarkup => s.closeMarkup

def action (s : State) (k : TokenKind) (text : List Char) : Action :=
  (k.action? text).getD (s.top.region.react s.top.arguments k text)

def apply (s : State) (k : TokenKind) (text : List Char) : State :=
  s.perform (s.action k text)

/-- Ends or replaces the regions on top that yield and do not claim what comes next. A region that
has just taken the place of another is not replaced again: it ends, too. -/
def settleFrames (claims : Region → Bool) : List Frame → List Frame
  | [] => []
  | f :: rest =>
    match f.region.rule.unclaimed with
    | .fill _ => f :: rest
    | .leave => if claims f.region then f :: rest else settleFrames claims rest
    | .replace r =>
      if claims f.region then f :: rest
      else if !r.yields || claims r then .fresh r :: rest
      else settleFrames claims rest

/-- The root does not end, but it can be replaced. -/
def settleRoot (claims : Region → Bool) (f : Frame) : Frame :=
  match f.region.rule.unclaimed with
  | .replace r => if claims f.region then f else .fresh r
  | _ => f

/-- Leaves the regions on top that do not claim what comes next. -/
def settle (claims : Region → Bool) (s : State) : State :=
  match settleFrames claims s.inner with
  | [] => ⟨[], settleRoot claims s.bottom⟩
  | f :: rest => ⟨f :: rest, s.bottom⟩

/-- The state after a token that was scanned before in an equal state. -/
def follow (s : State) (k : TokenKind) (text : List Char) : State :=
  (s.settle (·.rule.candidates.contains k)).apply k text

end State

end ScoreText
