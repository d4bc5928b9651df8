import ScoreText.Proofs.Expression
import ScoreText.Proofs.Fronts
import ScoreText.Proofs.Linewise

/-! The tokens of a music expression. A length opens a region that spaces and dots do not close, so a
space behind a length lies within it; what comes next does not. -/
namespace ScoreText

section Pieces

variable (s : State)

/-- The state in a length. -/
abbrev State.inLength : State :=
  s.enter (.lily .duration)

/-- The state behind a length, if there is one. -/
def State.behind (written : Option Length) : State :=
  if written.isSome then s.inLength else s

@[simp] theorem State.behind_none : s.behind none = s := rfl

def spacePiece : Piece :=
  ⟨.space, [' ']⟩

def Tone.pieces (tone : Tone) : List (Piece × State) :=
  (⟨.lily .note, [tone.letter.char]⟩, s) ::
    if tone.marks = [] then [] else [(⟨.lily .octave, tone.marks⟩, s)]

def Length.pieces (l : Length) : List (Piece × State) :=
  (⟨.lily .length, l.digits⟩, s.inLength) ::
    List.replicate l.dots (⟨.lily .dot, ['.']⟩, s.inLength)

def Leaf.pieces : Leaf → List (Piece × State)
  | note tone => tone.pieces s
  | rest => [(⟨.lily .rest, ['r']⟩, s)]
  | chord first others =>
    (⟨.lily .chordStart, ['<']⟩, s.enter (.lily .chord)) :: (first.pieces (s.enter (.lily .chord)) ++
      (others.flatMap fun tone =>
        (spacePiece, s.enter (.lily .chord)) :: tone.pieces (s.enter (.lily .chord))) ++
      [(⟨.lily .chordEnd, ['>']⟩, s)])

namespace Music

def openingKind (simultaneous : Bool) : Lily.Kind :=
  if simultaneous then .simultaneousStart else .sequentialStart

def closingKind (simultaneous : Bool) : Lily.Kind :=
  if simultaneous then .simultaneousEnd else .sequentialEnd

/-- The state behind an expression. -/
def behind : Music → State
  | leaf _ written => s.behind written
  | list _ _ | tuplet _ _ _ => s

def listPieces (s : State) (simultaneous : Bool) (inner : List (Piece × State)) :
    List (Piece × State) :=
  (⟨.lily (openingKind simultaneous), opening simultaneous⟩, s.enter (.lily .music)) ::
    (spacePiece, s.enter (.lily .music)) ::
      (inner ++ [(⟨.lily (closingKind simultaneous), closing simultaneous⟩, s)])

mutual

def pieces (s : State) : Music → List (Piece × State)
  | leaf l written => l.pieces s ++ (written.map (Length.pieces s)).getD []
  | list b items => listPieces s b (piecesOfAll (s.enter (.lily .music)) items)
  | tuplet p b items =>
    (⟨.lily .command, tupletCommand⟩, s) :: (spacePiece, s) :: (⟨.lily .fraction, p.chars⟩, s) ::
      (spacePiece, s) :: listPieces s b (piecesOfAll (s.enter (.lily .music)) items)

def piecesOfAll (s : State) : List Music → List (Piece × State)
  | [] => []
  | m :: ms => m.pieces s ++ (spacePiece, m.behind s) :: piecesOfAll s ms

end

end Music

end Pieces

/-- The region on top waits for nothing. -/
structure State.In (s : State) (r : Lily.Region) : Prop where
  rooted : s.Rooted
  top : s.top = ⟨.lily r, 0⟩

namespace State.In

variable {s : State} {r : Lily.Region} {k : TokenKind} {x : List Char}

theorem enter (within : s.In r) {inner : Lily.Region}
    (fresh : (Region.lily inner).rule.arguments = 0) : (s.enter (.lily inner)).In inner where
  rooted := within.rooted
  top := by simp [State.enter, enterAwaiting, State.top, fresh]

theorem completeArgument (within : s.In r) : s.completeArgument = s := by
  obtain ⟨inner, bottom⟩ := s
  cases inner with
  | nil => rfl
  | cons f rest =>
    have none_awaited : f.arguments = 0 := congrArg Frame.arguments within.top
    simp [State.completeArgument, completeArgument.go, none_awaited]

/-- An argument, and a token that does nothing, leave the open regions alone. -/
theorem apply (within : s.In r)
    (quiet : k.action? x = some .argument ∨
      k.action? x = none ∧ Region.react (.lily r) 0 k x = .stay) : s.apply k x = s := by
  rcases quiet with argument | ⟨none_own, stays⟩
  · simp only [State.apply, action, argument, Option.getD_some, perform, within.completeArgument]
  · simp only [State.apply, action, none_own, within.top, Option.getD_none, stays, perform]

end State.In

/-- Reading goes on like this whatever stands in front. -/
def Follows (s : State) (cs : List Char) (ps : List (Piece × State)) (last : State) : Prop :=
  ∀ before, Reads s before cs ps last

section Follows

variable {s t settled last : State} {r : Lily.Region} {k : TokenKind} {x cs rest : List Char}
  {ps : List (Piece × State)}

theorem Follows.ended (s : State) : Follows s [] [] s :=
  fun _ => .done

theorem Follows.found (settles : ∀ before, s.settleAt before cs = settled)
    (hit : ∀ before, settled.top.region.at? before cs = some ⟨k, x, rest⟩)
    (after : settled.apply k x = t) (next : Follows t rest ps last) :
    Follows s cs ((⟨k, x⟩, t) :: ps) last := by
  intro before
  subst after
  have some_text : cs ≠ [] := by
    rintro rfl
    simp [Region.at_end] at hit
  exact .piece some_text (settles before) (.found (hit before)) (next _)

/-- A find in the region on top keeps it open. -/
theorem Follows.inside {r : Region} (top : s.top.region = r)
    (hit : ∀ before, r.at? before cs = some ⟨k, x, rest⟩) (after : s.apply k x = t)
    (next : Follows t rest ps last) : Follows s cs ((⟨k, x⟩, t) :: ps) last := by
  subst top
  exact .found (fun before => State.settleAt_of_stays (.inr (by simp [hit before]))) hit after next

/-- Regions that are left in front of a text change nothing about how it is scanned. -/
theorem Follows.left {c : Char} {cs : List Char}
    (settles : ∀ before, t.settleAt before (c :: cs) = s.settleAt before (c :: cs))
    (next : Follows s (c :: cs) ps last) : Follows t (c :: cs) ps last := by
  intro before
  cases next before with
  | piece some_text settled made reads => exact .piece some_text ((settles before).trans settled) made reads

theorem Follows.token (within : s.In r)
    (hit : ∀ before, (Region.lily r).at? before cs = some ⟨k, x, rest⟩)
    (after : s.apply k x = t) (next : Follows t rest ps last) :
    Follows s cs ((⟨k, x⟩, t) :: ps) last :=
  .inside (congrArg Frame.region within.top) hit after next

theorem Follows.still (within : s.In r)
    (hit : ∀ before, (Region.lily r).at? before cs = some ⟨k, x, rest⟩)
    (quiet : k.action? x = some .argument ∨
      k.action? x = none ∧ Region.react (.lily r) 0 k x = .stay)
    (next : Follows s rest ps last) : Follows s cs ((⟨k, x⟩, s) :: ps) last :=
  .token within hit (within.apply quiet) next

end Follows

section InLength

variable {s last : State} {r : Lily.Region} {k : TokenKind} {x cs rest : List Char}
  {ps : List (Piece × State)}

/-- A length is over in front of a character that neither it nor its scaling begins with. -/
theorem settle_behind_length (rooted : s.Rooted) (before : Option Char) {c : Char}
    (no_part : (Region.lily .duration).starters c = [])
    (no_scaling : (Region.lily .durationScaling).starters c = []) :
    s.inLength.settleAt before (c :: cs) = s.settleAt before (c :: cs) := by
  rw [State.settleAt_eq, State.settleAt_eq, State.settle_rooted (show s.inLength.Rooted from rooted),
    State.settle_rooted rooted]
  simp only [State.enter, State.enterAwaiting, State.settleFrames, Region.at_none before cs no_part,
    Region.at_none before cs no_scaling, Region.rule, Lily.Region.rule, Option.isSome_none]
  rfl

theorem Follows.inLength
    (hit : ∀ before, (Region.lily .duration).at? before cs = some ⟨k, x, rest⟩)
    (quiet : k.action? x = none ∧ Region.react (.lily .duration) 0 k x = .stay)
    (next : Follows s.inLength rest ps last) :
    Follows s.inLength cs ((⟨k, x⟩, s.inLength) :: ps) last := by
  refine .inside rfl hit ?_ next
  have stays := quiet.2
  simp only [State.apply, State.action, quiet.1, Option.getD_none]
  exact congrArg _ stays

/-- What stands in front of a text that no length goes on with may be a length. -/
theorem Follows.behind (rooted : s.Rooted) {c : Char} (written : Option Length)
    (no_part : (Region.lily .duration).starters c = [])
    (no_scaling : (Region.lily .durationScaling).starters c = [])
    (next : Follows s (c :: cs) ps last) : Follows (s.behind written) (c :: cs) ps last := by
  cases written with
  | none => exact next
  | some l =>
    exact .left (fun before => settle_behind_length rooted before no_part no_scaling) next

end InLength

end ScoreText
