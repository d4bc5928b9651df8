import ScoreText.Proofs.Hosts
import ScoreText.Proofs.Linewise
import ScoreText.Proofs.Reachable

/-! Reading line by line and reading the whole text. A piece within a line is the same in both. A piece
that crosses a line end is cut there: its second part is what the regions make of the next line, so the
text behind the line is read from there on, with that part in front. -/
namespace ScoreText

/-- One line, or what is left of it, in front of the text behind it. -/
structure Line (l r : List Char) : Prop where
  line_end : LineEnd l r
  single : '\n' ∉ l.dropLast

namespace Line

variable {x l r : List Char}

theorem suffix (line : Line (x ++ l) r) : Line l r where
  line_end := line.line_end.suffix
  single := by
    by_cases empty : l = []
    · simp [empty]
    · have single := line.single
      rw [List.dropLast_append_of_ne_nil empty] at single
      exact fun member => single (List.mem_append_right _ member)

theorem front (line : Line (x ++ l) r) : Line x [] where
  line_end := .inl rfl
  single := by
    by_cases empty : l = []
    · simpa [empty] using line.single
    · have single := line.single
      rw [List.dropLast_append_of_ne_nil empty] at single
      exact fun member => single (List.mem_append_left _ ((List.dropLast_sublist x).mem member))

theorem behind {y : List Char} (line : Line l r) (more : r ≠ []) : Line l y where
  line_end := by
    rcases line.line_end with none | other
    · exact absurd none more
    · exact .inr other
  single := line.single

theorem last (line : Line l r) (some_text : l ≠ []) (more : r ≠ []) : l.getLast? = some '\n' := by
  rcases line.line_end with none | empty | last
  · exact absurd none more
  · exact absurd empty some_text
  · exact last

theorem cons_ne (c : Char) (some_text : l ≠ []) (line : Line (c :: l) r) : c ≠ '\n' := by
  intro same
  have single := line.single
  rw [← List.singleton_append, List.dropLast_append_of_ne_nil some_text] at single
  exact single (by simp [same])

theorem lines (line : Line l r) (some_text : l ≠ []) : lines (l ++ r) = l :: ScoreText.lines r := by
  induction l with
  | nil => exact absurd rfl some_text
  | cons c l ih =>
    rw [List.cons_append, ScoreText.lines]
    by_cases empty : l = []
    · subst empty
      rcases line.line_end with rfl | none | last
      · cases h : c == '\n' <;> rfl
      · exact absurd none some_text
      · cases Option.some.inj last
        rfl
    · have other : (c == '\n') = false := by simpa using line.cons_ne c empty
      rw [ih (line.suffix (x := [c])) empty, other]
      rfl

end Line

theorem line_exists {cs : List Char} (some_text : cs ≠ []) :
    ∃ l r, l ≠ [] ∧ l ++ r = cs ∧ Line l r := by
  induction cs with
  | nil => exact absurd rfl some_text
  | cons c cs ih =>
    by_cases line_end : c = '\n'
    · exact ⟨[c], cs, List.cons_ne_nil _ _, rfl, .inr (.inr (by rw [line_end]; rfl)), by simp⟩
    · by_cases empty : cs = []
      · exact ⟨[c], [], List.cons_ne_nil _ _, by rw [empty]; rfl, .inl rfl, by simp⟩
      · obtain ⟨l, r, some_line, whole, line⟩ := ih empty
        refine ⟨c :: l, r, List.cons_ne_nil _ _, by rw [List.cons_append, whole], ?_, ?_⟩
        · rcases line.line_end with none | nothing | last
          · exact .inl none
          · exact absurd nothing some_line
          · exact .inr (.inr (by rw [List.getLast?_cons, last]; rfl))
        · rw [← List.singleton_append, List.dropLast_append_of_ne_nil some_line]
          simp [line.single, Ne.symm line_end]

/-- A piece cut after each line end. -/
def Piece.cut (p : Piece) : List Piece :=
  (lines p.text).map (⟨p.kind, ·⟩)

def cutAll (ps : List (Piece × State)) : List Piece :=
  ps.flatMap (·.1.cut)

theorem cutAll_cons (q : Piece × State) (ps : List (Piece × State)) :
    cutAll (q :: ps) = q.1.cut ++ cutAll ps :=
  List.flatMap_cons

theorem cut_inside {p : Piece} {left r : List Char} (line : Line (p.text ++ left) r)
    (some_text : p.text ≠ []) : p.cut = [p] := by
  have alone := line.front.lines some_text
  rw [List.append_nil] at alone
  rw [Piece.cut, alone]
  rfl

theorem cut_across {p : Piece} {l x r : List Char} (line : Line l r) (some_text : l ≠ [])
    (more : r ≠ []) (text : p.text = l ++ x) :
    p.cut = ⟨p.kind, l⟩ :: Piece.cut ⟨p.kind, x⟩ := by
  rw [Piece.cut, text, (line.behind more).lines some_text]
  rfl

/-- What is left of a line is read on its own, and the lines behind it one by one, with the given
pieces and the given last state. -/
def ReadsApart (s : State) (before : Option Char) (l r : List Char) (ps : List Piece)
    (last : State) : Prop :=
  ∃ first t later, Reads s before l first t ∧ ReadsLines t (lines r) later last ∧
    (first ++ later).map (·.1) = ps

/-- The end of a line passes to the lines behind it. -/
theorem apart_of_line {s last : State} {before other : Option Char} {cs l r : List Char}
    {ps : List (Piece × State)} (reads : Reads s before cs ps last) (whole : l ++ r = cs)
    (line : Line l r) (same : beside before = beside other)
    (start : l = [] → r ≠ [] → beside before = beside none)
    (apart : ∀ other l r, l ++ r = cs → Line l r → l ≠ [] → beside before = beside other →
      ReadsApart s other l r (cutAll ps) last) : ReadsApart s other l r (cutAll ps) last := by
  by_cases empty : l = []
  · subst empty
    by_cases none : r = []
    · subst none
      subst whole
      cases reads with
      | done => exact ⟨[], s, [], .done, .done, rfl⟩
      | piece some_text => exact absurd rfl some_text
    · obtain ⟨next, behind, some_line, split, line⟩ := line_exists none
      obtain ⟨first, t, later, reads_next, reads_behind, pieces⟩ :=
        apart Option.none next behind (split.trans whole) line some_line (start rfl none)
      refine ⟨[], s, first ++ later, .done, ?_, pieces⟩
      rw [← split, line.lines some_line]
      exact .line reads_next reads_behind
  · exact apart other l r whole line empty same

section Step

variable {s settled last : State} {other : Option Char} {l r : List Char} {p : Piece}
  {ps : List Piece}

theorem apart_inside {left : List Char} (some_line : l ≠ []) (line : Line l r)
    (settles : s.settleAt other l = settled) (made : settled.top.region.Makes other l p left)
    (apart : ReadsApart (settled.apply p.kind p.text) p.text.getLast? left r ps last) :
    ReadsApart s other l r (p.cut ++ ps) last := by
  obtain ⟨first, t, later, reads_left, reads_later, pieces⟩ := apart
  have inside : Line (p.text ++ left) r := by rwa [made.split]
  refine ⟨_, t, later, .piece some_line settles made reads_left, reads_later, ?_⟩
  rw [List.cons_append, List.map_cons, pieces, cut_inside inside (made.nonempty some_line)]
  rfl

theorem apart_across {x : List Char} (some_line : l ≠ []) (line : Line l r) (more : r ≠ [])
    (text : p.text = l ++ x) (settles : s.settleAt other l = settled)
    (made : settled.top.region.Makes other l ⟨p.kind, l⟩ [])
    (apart : ReadsApart (settled.apply p.kind l) l.getLast? [] r
      (Piece.cut ⟨p.kind, x⟩ ++ ps) last) :
    ReadsApart s other l r (p.cut ++ ps) last := by
  obtain ⟨first, t, later, reads_left, reads_later, pieces⟩ := apart
  refine ⟨_, t, later, .piece some_line settles made reads_left, reads_later, ?_⟩
  rw [List.cons_append, List.map_cons, pieces, cut_across line some_line more text]
  rfl

end Step

/-- The induction is on the text. A piece within the line leaves a shorter one, and so does one that
crosses the line end, although its second part is still to be read. -/
theorem reads_apart {s last : State} (sound : s.Linewise) {before : Option Char} {cs : List Char}
    {ps : List (Piece × State)} (reads : Reads s before cs ps last) (other : Option Char)
    (l r : List Char) (whole : l ++ r = cs) (line : Line l r) (some_line : l ≠ [])
    (same : beside before = beside other) : ReadsApart s other l r (cutAll ps) last := by
  induction size : cs.length using Nat.strongRecOn generalizing s before cs ps other l r with
  | ind n ih =>
    cases reads with
    | done => exact absurd (List.append_eq_nil_iff.mp whole).1 some_line
    | @piece _ settled _ _ rest p ps _ some_text settles made later =>
      subst whole
      have still : settled.Linewise := settles ▸ sound.settle _
      have alike := (sound.settleAt_line some_line line.line_end same).trans settles
      have positive := List.length_pos_iff.mpr (made.nonempty some_text)
      have long := List.length_pos_iff.mpr some_line
      have total := congrArg List.length made.split
      simp only [List.length_append] at total size
      rw [cutAll_cons]
      rcases Region.makes_line still.top some_line line.line_end same made with
        ⟨left, text, behind, made_line⟩ | ⟨x, some_more, text, made_line, goes_on⟩
      · have shorter : rest.length < n := by omega
        have start : left = [] → r ≠ [] → beside p.text.getLast? = beside none := by
          intro empty more
          rw [empty, List.append_nil] at text
          rw [text, line.last some_line more]
          rfl
        have left_line : Line left r := Line.suffix (x := p.text) (by rwa [text])
        apply apart_inside some_line line alike made_line
        apply apart_of_line later behind.symm left_line rfl start
        intro other l r whole line some_line same
        exact ih _ shorter (still.apply made) later other l r whole line some_line same rfl
      · obtain ⟨settles_again, made_rest, applied⟩ := still.goes_on some_line made_line goes_on
        have rest_split : x ++ rest = r := made_rest.split
        have more : r ≠ [] := by
          rw [← rest_split]
          exact fun none => some_more (List.append_eq_nil_iff.mp none).1
        have last_same : (l ++ x).getLast? = x.getLast? := by
          rw [List.getLast?_append, Scanner.getLast_or some_more]
        rw [text, ← applied, last_same] at later
        -- the second part is read again as a piece of its own, from the start of the next line on
        have reads_rest := Reads.piece more settles_again made_rest later
        have shorter : r.length < n := by omega
        have start : beside none = beside l.getLast? := by
          rw [line.last some_line more]
          rfl
        have left_line : Line [] r := .mk (.inr (.inl rfl)) (by simp)
        apply apart_across some_line line more text alike made_line
        have apart := apart_of_line reads_rest (List.nil_append r) left_line start fun _ _ => rfl
        rw [cutAll_cons] at apart
        apply apart
        intro other l r whole line some_line same
        exact ih _ shorter (still.apply made_line) reads_rest other l r whole line some_line same rfl

/-- Pieces as tokens from a byte offset on. -/
def tokensFrom (offset : Nat) : List Piece → List Token
  | [] => []
  | p :: ps => ⟨p.kind, offset, String.ofList p.text⟩ :: tokensFrom (offset + byteSize p.text) ps

/-- A token cut after each newline that it holds. -/
def Token.cutLines (t : Token) : List Token :=
  tokensFrom t.start (Piece.cut ⟨t.kind, t.text.toList⟩)

theorem placed_tokens (offset : Nat) (ps : List (Piece × State)) :
    (placed offset ps).map (·.1) = tokensFrom offset (ps.map (·.1)) := by
  induction ps generalizing offset with
  | nil => rfl
  | cons p ps ih => rw [placed, List.map_cons, ih, List.map_cons, tokensFrom]

theorem tokensFrom_append (offset : Nat) (ps qs : List Piece) :
    tokensFrom offset (ps ++ qs) =
      tokensFrom offset ps ++ tokensFrom (offset + byteSize (ps.flatMap (·.text))) qs := by
  induction ps generalizing offset with
  | nil => rfl
  | cons p ps ih =>
    rw [List.cons_append, tokensFrom, tokensFrom, ih, List.flatMap_cons, byteSize_append,
      Nat.add_assoc, List.cons_append]

theorem cut_text (p : Piece) : p.cut.flatMap (·.text) = p.text := by
  rw [Piece.cut, List.flatMap_map]
  exact List.flatMap_id.trans (lines_flatten p.text)

theorem placed_cut (offset : Nat) (ps : List (Piece × State)) :
    (placed offset ps).flatMap (·.1.cutLines) = tokensFrom offset (cutAll ps) := by
  induction ps generalizing offset with
  | nil => rfl
  | cons p ps ih =>
    rw [placed, List.flatMap_cons, ih, cutAll_cons, tokensFrom_append, cut_text, Token.cutLines,
      String.toList_ofList]

/-- The modes whose texts can be read line by line. -/
def Mode.linewise : Mode → Bool
  | .lilypond | .scheme | .html => true
  | .latex | .texinfo | .docBook => false

theorem mode_linewise {m : Mode} (linewise : m.linewise = true) : (State.ofMode m).Linewise where
  rooted := mode_rooted m
  nested := by
    refine ⟨?_, .singleton _⟩
    intro r hr
    cases List.mem_singleton.mp hr
    cases m with
    | lilypond | scheme | html => rfl
    | latex | texinfo | docBook => cases linewise

/-- Reading a text line by line gives the tokens of the whole text, each cut after the newlines that it
holds, and both end in the same state. -/
theorem linewise_agrees {m : Mode} (linewise : m.linewise = true) (text : String) :
    let whole := (Scanner.ofText (.ofMode m) text 0).drain
    scanLines (.ofMode m) 0 (lines text.toList) =
        (whole.1.flatMap (·.1.cutLines), whole.2.state) ∧
      tokenize m text = whole.1.flatMap (·.1.cutLines) := by
  have sound := mode_linewise linewise
  obtain ⟨ps, last, reads⟩ := reads_exists sound.rooted none text.toList
  obtain ⟨final, drained, reached⟩ :=
    Scanner.drain_reads (ofText_start (.ofMode m) text) reads
  have start : Line [] text.toList := .mk (.inr (.inl rfl)) (by simp)
  obtain ⟨first, t, later, reads_none, reads_lines, pieces⟩ :=
    apart_of_line reads (List.nil_append _) start rfl (fun _ _ => rfl)
      fun other l r whole line some_line same =>
        reads_apart sound reads other l r whole line some_line same
  cases reads_none with
  | piece some_text => exact absurd rfl some_text
  | done =>
    have scanned := reads_lines.scanLines 0
    rw [List.nil_append] at pieces
    rw [placed_tokens, pieces, ← placed_cut] at scanned
    simp only [drained, reached, tokenize, scanned, and_self]

/-- White space that crosses line ends behind the pitch of a command. -/
theorem linewise_agrees_behind_pitch :
    Mode.linewise .lilypond = true ∧
    let whole := (Scanner.ofText (.ofMode .lilypond) "\\relative c' \n\n c" 0).drain
    scanLines (.ofMode .lilypond) 0 (lines "\\relative c' \n\n c".toList) =
        (whole.1.flatMap (·.1.cutLines), whole.2.state) ∧
      tokenize .lilypond "\\relative c' \n\n c" = whole.1.flatMap (·.1.cutLines) :=
  ⟨rfl, linewise_agrees rfl "\\relative c' \n\n c"⟩

end ScoreText
