import ScoreText.Proofs.MarkupTokens
import ScoreText.Proofs.SchemeScan

/-! A markup expression is scanned into its tokens. The part behind which a command has all its arguments ends
the region of the command, and with it those of all commands whose last argument it is: what counts the
arguments is `State.completeArgument`. -/
namespace ScoreText

open Lily

section Pieces

variable (s : State)

/-- The state in a list, which waits for no argument, or behind a command that waits for some. -/
abbrev State.inMarkup (n : Nat) : State :=
  s.enterAwaiting (.lily .markup) n

/-- The state behind the name of a command. -/
def State.behindName : Nat → State
  | 0 => s.completeArgument
  | n + 1 => s.inMarkup (n + 1)

/-- The state behind a number of arguments. -/
def State.behindArguments : Nat → State → State
  | 0, s => s
  | n + 1, s => behindArguments n s.completeArgument

mutual

/-- The pieces of an expression. Those of a string may be more than one. -/
def Markup.HasPieces (s : State) : Markup → List (Piece × State) → Prop
  | .word w, ps => ps = [(⟨.lily .markupWord, w.letters⟩, s.completeArgument)]
  | .quoted q, ps => ∃ inner, (∀ p ∈ inner, p.2 = s.inString .lily) ∧
      inner.flatMap (·.1.content) = q.value ∧
      ps = (⟨.lily .stringQuotedStart, ['"']⟩, s.inString .lily) ::
        (inner ++ [(⟨.lily .stringQuotedEnd, ['"']⟩, s.completeArgument)])
  | .number n, ps => ps = [(⟨.lily .schemeStart, ['#']⟩, s.inScheme),
      (⟨.scheme .number, n.digits⟩, s.completeArgument)]
  | .list items, ps => ∃ inner, items.HasPieces (s.inMarkup 0) inner ∧
      ps = (⟨.lily .openBracketMarkup, ['\x7b']⟩, s.inMarkup 0) ::
        (inner ++ [(spacePiece, s.inMarkup 0),
          (⟨.lily .closeBracketMarkup, ['\x7d']⟩, s.completeArgument)])
  | .command c arguments, ps => ∃ inner, arguments.HasPieces (s.behindName c.arity) inner ∧
      ps = (⟨.lily .markupCommand, '\\' :: c.name.toList⟩, s.behindName c.arity) :: inner

def Markups.HasPieces (s : State) {n : Nat} : Markups n → List (Piece × State) → Prop
  | .nil, ps => ps = []
  | .cons m ms, ps => ∃ first others, m.HasPieces s first ∧ ms.HasPieces s.completeArgument others ∧
      ps = (spacePiece, s) :: (first ++ others)

end

end Pieces

/-- Markup stands on top. -/
structure State.InMarkup (s : State) : Prop where
  rooted : s.Rooted
  region : s.top.region = .lily .markup

/-- Some arguments stand in markup. Behind the last one it may be over. -/
def State.Awaits (s : State) (n : Nat) : Prop :=
  n = 0 ∨ ∃ k rest, s.inner = ⟨.lily .markup, k⟩ :: rest ∧ (k = 0 ∨ k = n)

section Awaits

variable {s : State} {n : Nat}

theorem State.Awaits.inMarkup (awaits : s.Awaits (n + 1)) (rooted : s.Rooted) : s.InMarkup := by
  obtain none_left | ⟨k, rest, inner, _⟩ := awaits
  · omega
  · exact ⟨rooted, by simp [State.top, inner]⟩

theorem State.awaits_list (s : State) (n : Nat) : (s.inMarkup 0).Awaits n :=
  .inr ⟨0, s.inner, rfl, .inl rfl⟩

theorem State.awaits_command (s : State) (n : Nat) : (s.behindName n).Awaits n := by
  cases n with
  | zero => exact .inl rfl
  | succ n => exact .inr ⟨n + 1, s.inner, rfl, .inr rfl⟩

theorem State.Awaits.completeArgument (awaits : s.Awaits (n + 1)) : s.completeArgument.Awaits n := by
  obtain none_left | ⟨k, rest, inner, rfl | rfl⟩ := awaits
  · omega
  · exact .inr ⟨0, rest, by simp [State.completeArgument, completeArgument.go, inner], .inl rfl⟩
  · cases n with
    | zero => exact .inl rfl
    | succ n =>
      exact .inr ⟨n + 1, rest, by simp [State.completeArgument, completeArgument.go, inner], .inr rfl⟩

/-- All but the last argument leave as many regions open. -/
theorem State.Awaits.depth (awaits : s.Awaits (n + 2)) : s.completeArgument.depth = s.depth := by
  obtain none_left | ⟨k, rest, inner, rfl | rfl⟩ := awaits
  · omega
  · simp [State.depth, State.completeArgument, completeArgument.go, inner]
  · simp [State.depth, State.completeArgument, completeArgument.go, inner]

theorem State.behindArguments_list (s : State) (n : Nat) : (s.inMarkup 0).behindArguments n = s.inMarkup 0 := by
  induction n with
  | zero => rfl
  | succ n ih => exact ih

/-- Behind its last argument a command is an argument itself. -/
theorem State.behindArguments_command (s : State) (n : Nat) :
    (s.behindName n).behindArguments n = s.completeArgument := by
  have awaiting : ∀ n, (s.inMarkup (n + 1)).behindArguments (n + 1) = s.completeArgument := by
    intro n
    induction n with
    | zero => rfl
    | succ n ih => exact ih
  cases n with
  | zero => rfl
  | succ n => exact awaiting n

end Awaits

section Leaves

variable {s last : State} {k : TokenKind} {x cs rest : List Char} {ps : List (Piece × State)}

theorem Follows.markupSpace (within : s.InMarkup) {c : Char} {cs : List Char} (solid : Text.isBlank c = false)
    (next : Follows s (c :: cs) ps last) : Follows s (' ' :: c :: cs) ((spacePiece, s) :: ps) last := by
  apply Follows.inside within.region
  · exact single_space_at rfl (ends_cons.mpr solid)
  · simp only [State.apply, State.action, within.region]
    rfl
  · exact next

theorem Follows.markupWord (within : s.InMarkup) (w : Word) (parted : Parted rest)
    (next : Follows s.completeArgument rest ps last) :
    Follows s (w.letters ++ rest) ((⟨.lily .markupWord, w.letters⟩, s.completeArgument) :: ps) last :=
  .inside within.region (word_at w parted) rfl next

end Leaves

section Expression

variable {last : State}

theorem Markup.chars_solid (m : Markup) : ∃ c cs, m.chars = c :: cs ∧ Text.isBlank c = false := by
  cases m with
  | word w =>
    have solid : ∀ c ∈ asciiLetters, Text.isBlank c = false := all_listed (by decide)
    cases text : w.letters with
    | nil => exact absurd text w.nonempty
    | cons c cs => exact ⟨c, cs, by rw [chars, text], solid c (letter_listed (w.ascii c (by simp [text])))⟩
  | quoted q => exact ⟨'"', _, by rw [chars], by decide⟩
  | number n => exact ⟨'#', _, by rw [chars], by decide⟩
  | list items => exact ⟨'\x7b', _, by rw [chars], by decide⟩
  | command c arguments => exact ⟨'\\', _, by rw [chars], by decide⟩

theorem Markups.chars_parted {n : Nat} (ms : Markups n) {rest : List Char} (parted : Parted rest) :
    Parted (ms.chars ++ rest) := by
  cases ms with
  | nil => simpa [Markups.chars] using parted
  | cons m ms => simp [Markups.chars]

theorem MarkupCommand.commandName (c : MarkupCommand) : Lily.commandName ('\\' :: c.name.toList) = c.name := by
  show (if ('\\'.utf8Size == 1) = true then String.ofList c.name.toList else "") = c.name
  rw [if_pos (by decide), String.ofList_toList]

theorem MarkupCommand.apply (c : MarkupCommand) (s : State) :
    s.apply (.lily .markupCommand) ('\\' :: c.name.toList) = s.behindName c.arity := by
  have entered : ∀ n, s.perform (.enterAwaiting (.lily .markup) (n + 1)) = s.behindName (n + 1) := fun _ => rfl
  simp only [State.apply, State.action, TokenKind.action?, Kind.action?, c.commandName, MarkupCommand.arity]
  cases count : Words.markupArguments? c.name with
  | none => exact entered 0
  | some n =>
    cases n with
    | zero => rfl
    | succ n => exact entered n

mutual

theorem Follows.markup {s : State} (within : s.InMarkup) (m : Markup) {rest : List Char}
    {ps : List (Piece × State)} (parted : Parted rest) (next : Follows s.completeArgument rest ps last) :
    ∃ qs, m.HasPieces s qs ∧ Follows s (m.chars ++ rest) (qs ++ ps) last := by
  cases m with
  | word w => exact ⟨_, rfl, .markupWord within w parted next⟩
  | quoted q =>
    obtain ⟨inner, inside, content, follows⟩ := Follows.string .lily q.closed next
    have whole := Follows.inside (t := s.inString .lily) within.region quote_at rfl follows
    refine ⟨_, ⟨inner, inside, content, rfl⟩, ?_⟩
    simpa [Markup.chars, StringPlace.closing] using whole
  | number n =>
    obtain ⟨_, rfl, follows⟩ := (Datum.atom (.number n)).follows_sign within.region rfl parted.delimited next
    exact ⟨_, rfl, follows⟩
  | @list n items =>
    have inside : (s.inMarkup 0).InMarkup := ⟨within.rooted, rfl⟩
    -- from the bracket backwards: the space in front of it, the expressions, and the bracket that opens the
    -- list
    have close : Follows (s.inMarkup 0) ('\x7d' :: rest)
        ((⟨.lily .closeBracketMarkup, ['\x7d']⟩, s.completeArgument) :: ps) last :=
      .inside inside.region closing_bracket_at rfl next
    have space := Follows.markupSpace inside (by decide) close
    rw [← s.behindArguments_list n] at space
    obtain ⟨inner, pieces, follows⟩ :=
      Follows.markups inside.rooted (s.awaits_list n) items (parted_space _) space
    rw [s.behindArguments_list] at follows
    have whole := Follows.inside (t := s.inMarkup 0) within.region bracket_at rfl follows
    refine ⟨_, ⟨inner, pieces, rfl⟩, ?_⟩
    simpa [Markup.chars] using whole
  | command c arguments =>
    have rooted : (s.behindName c.arity).Rooted := by
      cases c.arity with
      | zero => exact within.rooted
      | succ n => exact within.rooted
    have behind : Follows ((s.behindName c.arity).behindArguments c.arity) rest ps last := by
      rw [s.behindArguments_command]
      exact next
    obtain ⟨inner, pieces, follows⟩ :=
      Follows.markups rooted (s.awaits_command c.arity) arguments parted behind
    refine ⟨_, ⟨inner, pieces, rfl⟩, ?_⟩
    have whole := Follows.inside within.region (c.at_front (arguments.chars_parted parted)) (c.apply s) follows
    simpa [Markup.chars] using whole

theorem Follows.markups {n : Nat} {s : State} (rooted : s.Rooted) (awaits : s.Awaits n) (ms : Markups n)
    {rest : List Char} {ps : List (Piece × State)} (parted : Parted rest)
    (next : Follows (s.behindArguments n) rest ps last) :
    ∃ qs, ms.HasPieces s qs ∧ Follows s (ms.chars ++ rest) (qs ++ ps) last := by
  cases ms with
  | nil => exact ⟨[], rfl, next⟩
  | cons m ms =>
    have within := awaits.inMarkup rooted
    obtain ⟨others, others_pieces, others_follow⟩ :=
      Follows.markups (s := s.completeArgument) rooted awaits.completeArgument ms parted next
    obtain ⟨first, first_pieces, first_follows⟩ :=
      Follows.markup within m (ms.chars_parted parted) others_follow
    obtain ⟨c, cs, text, solid⟩ := m.chars_solid
    refine ⟨_, ⟨first, others, first_pieces, others_pieces, rfl⟩, ?_⟩
    simp only [text, List.cons_append] at first_follows
    have whole := Follows.markupSpace within solid first_follows
    simpa [Markups.chars, text] using whole

end

end Expression

end ScoreText
