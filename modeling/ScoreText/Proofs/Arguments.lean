import ScoreText.Proofs.MarkupScan

/-! How markup counts arguments. A complete argument is told from its tokens alone, whatever is open
around it: commands have their own arguments behind them, and a bracket may close while some are still
missing. Its tokens leave the regions as if one argument had been completed at once. -/
namespace ScoreText

/-- The state behind pieces of text. -/
def State.applyAll (s : State) (ps : List Piece) : State :=
  ps.foldl (fun s p => s.apply p.kind p.text) s

section Grammar

namespace StringPlace

def opening : StringPlace → TokenKind
  | lily => .lily .stringQuotedStart
  | scheme => .scheme .stringQuotedStart

def lineComment : StringPlace → TokenKind
  | lily => .lily .lineComment
  | scheme => .scheme .lineComment

def commentStart : StringPlace → TokenKind
  | lily => .lily .blockCommentStart
  | scheme => .scheme .blockCommentStart

def comment : StringPlace → TokenKind
  | lily => .lily .comment
  | scheme => .scheme .comment

def commentEnd : StringPlace → TokenKind
  | lily => .lily .blockCommentEnd
  | scheme => .scheme .blockCommentEnd

end StringPlace

/-- Blanks and comments. -/
inductive Blanks : List Piece → Prop
  | nil : Blanks []
  | blank {x : List Char} {ps : List Piece} : Blanks ps → Blanks (⟨.space, x⟩ :: ps)
  | line (place : StringPlace) {x : List Char} {ps : List Piece} :
      Blanks ps → Blanks (⟨place.lineComment, x⟩ :: ps)
  | block (place : StringPlace) {x y : List Char} {inner ps : List Piece} :
      (∀ p ∈ inner, p.kind = place.comment) → Blanks ps →
      Blanks (⟨place.commentStart, x⟩ :: (inner ++ ⟨place.commentEnd, y⟩ :: ps))

/-- A string with its quotes. -/
inductive InQuotes (place : StringPlace) : List Piece → Prop
  | of {x y : List Char} {inner : List Piece} :
      (∀ p ∈ inner, p.kind = place.filler ∨ p.kind = place.escape) →
      InQuotes place (⟨place.opening, x⟩ :: (inner ++ [⟨place.closing, y⟩]))

mutual

/-- A complete Scheme form. -/
inductive SchemeForm : List Piece → Prop
  | atom {k : Scheme.Kind} {x : List Char} : .item ∈ k.capabilities → SchemeForm [⟨.scheme k, x⟩]
  | string {ps : List Piece} : InQuotes .scheme ps → SchemeForm ps
  | quote {x : List Char} {gap ps : List Piece} :
      Blanks gap → SchemeForm ps → SchemeForm (⟨.scheme .quote, x⟩ :: (gap ++ ps))
  | list {k : Scheme.Kind} {x y : List Char} {ps : List Piece} : k = .openParen ∨ k = .vectorStart →
      SchemeForms ps → SchemeForm (⟨.scheme k, x⟩ :: (ps ++ [⟨.scheme .closeParen, y⟩]))

/-- What a list holds: forms, and dots between them. -/
inductive SchemeForms : List Piece → Prop
  | nil {gap : List Piece} : Blanks gap → SchemeForms gap
  | dot {x : List Char} {gap rest : List Piece} :
      Blanks gap → SchemeForms rest → SchemeForms (gap ++ ⟨.scheme .dot, x⟩ :: rest)
  | form {gap ps rest : List Piece} :
      Blanks gap → SchemeForm ps → SchemeForms rest → SchemeForms (gap ++ (ps ++ rest))

end

/-- The number of arguments of a markup command. One that takes a list of markup has one. -/
def Lily.argumentCount (command : List Char) : Nat :=
  (Lily.Words.markupArguments? (Lily.commandName command)).getD 1

mutual

/-- A complete argument of markup. -/
inductive MarkupArgument : List Piece → Prop
  | word {x : List Char} : MarkupArgument [⟨.lily .markupWord, x⟩]
  | userCommand {x : List Char} : MarkupArgument [⟨.lily .markupUserCommand, x⟩]
  | string {ps : List Piece} : InQuotes .lily ps → MarkupArgument ps
  | scheme {x : List Char} {gap ps : List Piece} :
      Blanks gap → SchemeForm ps → MarkupArgument (⟨.lily .schemeStart, x⟩ :: (gap ++ ps))
  | command {x : List Char} {ps : List Piece} :
      MarkupArguments (Lily.argumentCount x) ps → MarkupArgument (⟨.lily .markupCommand, x⟩ :: ps)
  | bracket {x y : List Char} {n : Nat} {ps qs : List Piece} :
      MarkupArguments n ps → Unfinished qs →
      MarkupArgument (⟨.lily .openBracketMarkup, x⟩ :: (ps ++ (qs ++ [⟨.lily .closeBracketMarkup, y⟩])))

/-- A number of complete arguments, one behind the other. -/
inductive MarkupArguments : Nat → List Piece → Prop
  | nil : MarkupArguments 0 []
  | cons {n : Nat} {gap ps rest : List Piece} : Blanks gap → MarkupArgument ps →
      MarkupArguments n rest → MarkupArguments (n + 1) (gap ++ (ps ++ rest))

/-- What stands in front of a closing bracket: commands that lack their last arguments, each of them
an argument of the one in front. -/
inductive Unfinished : List Piece → Prop
  | nil {gap : List Piece} : Blanks gap → Unfinished gap
  | command {n : Nat} {x : List Char} {gap ps rest : List Piece} : Blanks gap →
      n < Lily.argumentCount x → MarkupArguments n ps → Unfinished rest →
      Unfinished (gap ++ ⟨.lily .markupCommand, x⟩ :: (ps ++ rest))

end

end Grammar

namespace State

variable {s : State} {ps qs : List Piece} {k : TokenKind} {x : List Char}

@[simp] theorem applyAll_nil (s : State) : s.applyAll [] = s :=
  rfl

@[simp] theorem applyAll_cons (s : State) (p : Piece) (ps : List Piece) :
    s.applyAll (p :: ps) = (s.apply p.kind p.text).applyAll ps :=
  rfl

@[simp] theorem applyAll_append (s : State) (ps qs : List Piece) :
    s.applyAll (ps ++ qs) = (s.applyAll ps).applyAll qs :=
  List.foldl_append

theorem apply_own {a : Action} (own : k.action? x = some a) : s.apply k x = s.perform a := by
  rw [apply, action, own, Option.getD_some]

theorem apply_stays (none : k.action? x = none)
    (ignored : s.top.region.react s.top.arguments k x = .stay) : s.apply k x = s := by
  rw [apply, action, none, Option.getD_none, ignored]
  rfl

theorem applyAll_ignored (ignored : ∀ p ∈ ps, s.apply p.kind p.text = s) : s.applyAll ps = s := by
  induction ps with
  | nil => rfl
  | cons p ps ih =>
    rw [applyAll_cons, ignored p List.mem_cons_self]
    exact ih fun q member => ignored q (List.mem_cons_of_mem p member)

/-- Markup or Scheme stands on top. -/
def InArguments (s : State) : Prop :=
  s.top.region = .lily .markup ∨ s.top.region = .scheme .expression

/-- Tokens without an action of their own mean nothing there. -/
theorem InArguments.stays (within : s.InArguments) (none : k.action? x = none) : s.apply k x = s := by
  refine apply_stays none ?_
  rcases within with top | top <;> rw [top] <;> rfl

theorem applyAll_blanks (within : s.InArguments) (blanks : Blanks ps) : s.applyAll ps = s := by
  induction blanks with
  | nil => rfl
  | blank _ ih =>
    rw [applyAll_cons, within.stays rfl]
    exact ih
  | line place _ ih =>
    rw [applyAll_cons, within.stays (by cases place <;> rfl)]
    exact ih
  | @block place x y inner ps comments _ ih =>
    have inside : ∀ r : Region, r = .lily .blockComment ∨ r = .scheme .blockComment →
        (s.enter r).applyAll inner = s.enter r := by
      rintro r comment
      refine applyAll_ignored fun p member => apply_stays ?_ ?_
      · rw [comments p member]
        cases place <;> rfl
      · rw [comments p member]
        rcases comment with rfl | rfl <;> cases place <;> rfl
    have within_comment : (s.apply place.commentStart x).applyAll inner = s.apply place.commentStart x := by
      cases place
      · exact inside _ (.inl rfl)
      · exact inside _ (.inr rfl)
    rw [applyAll_cons, applyAll_append, within_comment, applyAll_cons]
    have ended : (s.apply place.commentStart x).apply place.commentEnd y = s := by
      cases place <;> rfl
    rw [ended]
    exact ih

theorem applyAll_quotes {place : StringPlace} (quotes : InQuotes place ps) (s : State) :
    s.applyAll ps = s.completeArgument := by
  cases quotes with
  | @of x y inner content =>
    have opens : s.apply place.opening x = s.inString place := by
      cases place <;> rfl
    have inside : (s.inString place).applyAll inner = s.inString place := by
      refine applyAll_ignored fun p member => apply_stays ?_ ?_
      · rcases content p member with kind | kind <;> rw [kind] <;> cases place <;> rfl
      · rcases content p member with kind | kind <;> rw [kind] <;> cases place <;> rfl
    have closes : (s.inString place).apply place.closing y = s.completeArgument := by
      cases place <;> rfl
    rw [applyAll_cons, opens, applyAll_append, inside, applyAll_cons, closes, applyAll_nil]

end State

open State Lily

section Scheme

theorem scheme_atom {k : Scheme.Kind} {x : List Char} (atom : .item ∈ k.capabilities) (s : State) :
    s.apply (.scheme k) x = s.completeArgument := by
  have own : k.action? = some .argument := by
    revert atom
    cases k <;> decide
  exact apply_own (k := .scheme k) own

mutual

theorem SchemeForm.applied {s : State} {ps : List Piece} (form : SchemeForm ps) (top : s.top.region = .scheme .expression) :
    s.applyAll ps = s.completeArgument := by
  match form with
  | .atom atom => exact scheme_atom atom s
  | .string quotes => exact applyAll_quotes quotes s
  | .quote gap form =>
    rw [applyAll_cons, InArguments.stays (.inr top) rfl, applyAll_append, applyAll_blanks (.inr top) gap]
    exact SchemeForm.applied form top
  | .list (k := k) (x := x) opens forms =>
    have entered : s.apply (.scheme k) x = s.enter (.scheme .expression) := by
      rcases opens with rfl | rfl <;> rfl
    rw [applyAll_cons, entered, applyAll_append, SchemeForms.applied forms rfl rfl]
    rfl

/-- A list waits for no argument, so it stays open up to its bracket. -/
theorem SchemeForms.applied {s : State} {ps : List Piece} (forms : SchemeForms ps)
    (top : s.top.region = .scheme .expression)
    (full : s.completeArgument = s) : s.applyAll ps = s := by
  match forms with
  | .nil gap => exact applyAll_blanks (.inr top) gap
  | .dot gap forms =>
    rw [applyAll_append, applyAll_blanks (.inr top) gap, applyAll_cons, InArguments.stays (.inr top) rfl]
    exact SchemeForms.applied forms top full
  | .form gap form forms =>
    rw [applyAll_append, applyAll_blanks (.inr top) gap, applyAll_append, SchemeForm.applied form top, full]
    exact SchemeForms.applied forms top full

end

end Scheme

section Markup

variable {n c : Nat}

/-- The name of a command opens a region for its arguments unless it has none. -/
theorem markupCommand_applied (s : State) (x : List Char) :
    s.apply (.lily .markupCommand) x = s.behindName (Lily.argumentCount x) := by
  have own : TokenKind.action? (.lily .markupCommand) x =
      some (if Lily.argumentCount x = 0 then .argument
        else .enterAwaiting (.lily .markup) (Lily.argumentCount x)) := by
    show Lily.Kind.action? .markupCommand x = _
    unfold Lily.Kind.action? Lily.argumentCount
    cases Lily.Words.markupArguments? (Lily.commandName x) with
    | none => rfl
    | some n => cases n <;> rfl
  cases count : Lily.argumentCount x with
  | zero =>
    rw [count] at own
    exact apply_own own
  | succ n =>
    rw [count] at own
    exact apply_own own

/-- A command that lacks some of its arguments waits for the others. -/
theorem behindArguments_inMarkup (s : State) (missing : n < c) :
    (s.inMarkup c).behindArguments n = s.inMarkup (c - n) := by
  induction n generalizing c with
  | zero => rfl
  | succ n ih =>
    obtain ⟨k, rfl⟩ : ∃ k, c = k + 2 := ⟨c - 2, by omega⟩
    have one : (s.inMarkup (k + 2)).completeArgument = s.inMarkup (k + 1) := rfl
    rw [behindArguments, one, ih (by omega)]
    congr 1
    omega

/-- Markup stands on top in front of each of some arguments. -/
def State.Receives (s : State) (n : Nat) : Prop :=
  ∀ i < n, (s.behindArguments i).top.region = .lily .markup

theorem receives_command (s : State) (least : n ≤ c) : (s.inMarkup c).Receives n := by
  intro i below
  rw [behindArguments_inMarkup s (Nat.lt_of_lt_of_le below least)]
  rfl

theorem receives_list (s : State) (n : Nat) : (s.inMarkup 0).Receives n := by
  intro i _
  rw [behindArguments_list]
  rfl

theorem receives_name (s : State) (n : Nat) : (s.behindName n).Receives n := by
  cases n with
  | zero => exact fun i below => absurd below (Nat.not_lt_zero i)
  | succ n => exact receives_command s (Nat.le_refl _)

mutual

theorem MarkupArgument.applied {s : State} {ps : List Piece} (argument : MarkupArgument ps) :
    s.applyAll ps = s.completeArgument := by
  match argument with
  | .word => rfl
  | .userCommand => rfl
  | .string quotes => exact applyAll_quotes quotes s
  | .scheme (x := x) blanks form =>
    have opened : s.apply (.lily .schemeStart) x = s.inScheme := rfl
    rw [applyAll_cons, opened, applyAll_append, applyAll_blanks (.inr rfl) blanks, form.applied rfl]
    rfl
  | .command arguments =>
    rw [applyAll_cons, markupCommand_applied, MarkupArguments.applied arguments (receives_name s _),
      behindArguments_command]
  | .bracket (x := x) arguments unfinished =>
    have opened : s.apply (.lily .openBracketMarkup) x = s.inMarkup 0 := rfl
    obtain ⟨above, waiting, left⟩ := Unfinished.applied (s := s.inMarkup 0) unfinished rfl
    rw [applyAll_cons, opened, applyAll_append, MarkupArguments.applied arguments (receives_list s _),
      behindArguments_list, applyAll_append, left, applyAll_cons, applyAll_nil, apply_own rfl]
    have closed : ((above ++ (s.inMarkup 0).inner).dropWhile (·.arguments > 0)) = (s.inMarkup 0).inner := by
      rw [List.dropWhile_append_of_pos (by simpa using waiting)]
      rfl
    simp only [State.perform, State.closeMarkup, closed]
    rfl

theorem MarkupArguments.applied {s : State} {n : Nat} {ps : List Piece}
    (arguments : MarkupArguments n ps) (receives : s.Receives n) :
    s.applyAll ps = s.behindArguments n := by
  match arguments with
  | .nil => rfl
  | .cons gap argument arguments =>
    have top : s.top.region = .lily .markup := receives 0 (Nat.succ_pos _)
    rw [applyAll_append, applyAll_blanks (.inl top) gap, applyAll_append, MarkupArgument.applied argument]
    exact MarkupArguments.applied arguments fun i below => receives (i + 1) (Nat.succ_lt_succ below)

/-- Unfinished commands stay open, each waiting for some arguments. -/
theorem Unfinished.applied {s : State} {ps : List Piece} (unfinished : Unfinished ps)
    (top : s.top.region = .lily .markup) :
    ∃ above : List Frame, (∀ f ∈ above, 0 < f.arguments) ∧
      s.applyAll ps = { s with inner := above ++ s.inner } := by
  match unfinished with
  | .nil gap => exact ⟨[], nofun, applyAll_blanks (.inl top) gap⟩
  | .command (n := n) (x := x) blanks missing arguments unfinished =>
    obtain ⟨c, count⟩ : ∃ c, Lily.argumentCount x = c + 1 := ⟨Lily.argumentCount x - 1, by omega⟩
    rw [count] at missing
    have open_ : (s.inMarkup (c + 1)).behindArguments n = s.inMarkup (c + 1 - n) :=
      behindArguments_inMarkup s missing
    obtain ⟨above, waiting, left⟩ := Unfinished.applied (s := s.inMarkup (c + 1 - n)) unfinished rfl
    refine ⟨above ++ [⟨.lily .markup, c + 1 - n⟩], fun f member => ?_, ?_⟩
    · rcases List.mem_append.mp member with member | member
      · exact waiting f member
      · rw [List.mem_singleton.mp member]
        exact Nat.sub_pos_of_lt missing
    · rw [applyAll_append, applyAll_blanks (.inl top) blanks, applyAll_cons, markupCommand_applied, count,
        applyAll_append, State.behindName,
        MarkupArguments.applied arguments (receives_command s (Nat.le_of_lt missing)), open_, left, List.append_assoc]
      rfl

end

/-- A complete argument counts as one, whatever is open: in front of it, with as many arguments missing of
as many commands as it may be, and behind what starts markup, which has it as its only argument. -/
theorem argument_counts_once {ps : List Piece} (argument : MarkupArgument ps) (s : State) :
    s.applyAll ps = s.completeArgument ∧
      ∀ start ∈ markupStarts, ∀ (x : List Char) (gap : List Piece), Blanks gap →
        s.applyAll (⟨.lily start, x⟩ :: (gap ++ ps)) = s.completeArgument := by
  refine ⟨argument.applied, fun start member x gap blanks => ?_⟩
  have opened : s.apply (.lily start) x = s.inMarkup 1 := by
    rcases List.mem_cons.mp member with rfl | member
    · rfl
    · rcases List.mem_cons.mp member with rfl | member
      · rfl
      · rw [List.mem_singleton.mp member]
        rfl
  rw [applyAll_cons, opened, applyAll_append, applyAll_blanks (.inl rfl) blanks, argument.applied]
  rfl

section Pending

/-- Two commands that lack one argument each, the second as the last one of a third. -/
def State.pending : State :=
  ⟨[⟨.lily .markup, 1⟩, ⟨.lily .markup, 1⟩, ⟨.lily .markup, 2⟩, ⟨.lily .music, 0⟩], .fresh (.lily .global)⟩

/-- The pieces of an alist entry, and of a list at whose bracket `\\bold` and `\\raise` lack an argument. -/
def overridePieces : List Piece :=
  [⟨.lily .markupCommand, "\\override".toList⟩, spacePiece, ⟨.lily .schemeStart, ['#']⟩,
    ⟨.scheme .quote, "'".toList⟩, ⟨.scheme .openParen, ['(']⟩, ⟨.scheme .word, "size".toList⟩, spacePiece,
    ⟨.scheme .dot, ['.']⟩, spacePiece, ⟨.scheme .stringQuotedStart, ['"']⟩, ⟨.scheme .string, ['2']⟩,
    ⟨.scheme .stringQuotedEnd, ['"']⟩, ⟨.scheme .closeParen, [')']⟩, spacePiece,
    ⟨.lily .openBracketMarkup, ['\x7b']⟩, spacePiece, ⟨.lily .markupWord, ['a']⟩, spacePiece,
    ⟨.lily .markupCommand, "\\bold".toList⟩, spacePiece, ⟨.lily .markupCommand, "\\raise".toList⟩, spacePiece,
    ⟨.lily .schemeStart, ['#']⟩, ⟨.scheme .number, ['1']⟩, spacePiece, ⟨.lily .closeBracketMarkup, ['\x7d']⟩]

theorem blanks_space : Blanks [spacePiece] :=
  .blank .nil

theorem overridePieces_argument : MarkupArgument overridePieces := by
  have quoted : SchemeForm [⟨.scheme .stringQuotedStart, ['"']⟩, ⟨.scheme .string, ['2']⟩,
      ⟨.scheme .stringQuotedEnd, ['"']⟩] :=
    .string (@InQuotes.of .scheme ['"'] ['"'] [⟨.scheme .string, ['2']⟩] fun p member =>
      .inl (List.mem_singleton.mp member ▸ rfl))
  have behind_dot := SchemeForms.form blanks_space quoted (.nil .nil)
  have entry := SchemeForms.form .nil (.atom (k := .word) (x := "size".toList) (by decide))
    (.dot (x := ['.']) blanks_space behind_dot)
  have alist := MarkupArgument.scheme (x := ['#']) .nil
    (.quote (x := "'".toList) .nil (.list (x := ['(']) (y := [')']) (.inl rfl) entry))
  have number := MarkupArgument.scheme (x := ['#']) .nil
    (.atom (k := .number) (x := ['1']) (by decide))
  have raise : Unfinished _ := .command (n := 1) (x := "\\raise".toList) blanks_space (by decide)
    (.cons blanks_space number .nil) (.nil blanks_space)
  have bold : Unfinished _ := .command (n := 0) (x := "\\bold".toList) blanks_space (by decide) .nil raise
  have words := MarkupArguments.cons blanks_space (.word (x := ['a'])) .nil
  have list := MarkupArgument.bracket (x := ['\x7b']) (y := ['\x7d']) words bold
  exact .command (x := "\\override".toList) (.cons blanks_space alist (.cons blanks_space list .nil))

/-- In front of the pieces three commands wait for arguments, behind them one. -/
theorem argument_counts_once_pending :
    (scan .pending "\\override #'(size . \"2\") \x7b a \\bold \\raise #1 \x7d" 0).map
        (fun p => (⟨p.1.kind, p.1.text.toList⟩ : Piece)) = overridePieces ∧
      MarkupArgument overridePieces ∧
      (State.pending.applyAll overridePieces).inner = [⟨.lily .markup, 1⟩, ⟨.lily .music, 0⟩] ∧
      State.pending.applyAll (⟨.lily .markup, "\\markup".toList⟩ :: spacePiece :: overridePieces) =
        State.pending.completeArgument := by
  obtain ⟨counted, started⟩ := argument_counts_once overridePieces_argument .pending
  refine ⟨by decide +kernel, overridePieces_argument, ?_, started .markup (by decide) "\\markup".toList _ blanks_space⟩
  rw [counted]
  rfl

end Pending

end Markup

end ScoreText
