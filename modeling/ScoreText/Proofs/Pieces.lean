import ScoreText.Lexer.Scan
import ScoreText.Proofs.Lexeme
import ScoreText.Proofs.Settling

/-! Scanning without looking ahead. A text is read piece by piece: the regions settle, the one on top
makes a piece of the front of the text, and the piece is applied. The scanner, which keeps what it
finds behind filler, hands out the same pieces with the same states. -/
namespace ScoreText

/-- A piece of text and what it is. -/
structure Piece where
  kind : TokenKind
  text : List Char
  deriving DecidableEq, Repr

/-- The pieces that a region can make of the front of a text, with the rest behind them: a find,
all that remains, or the filler in front of the next find. -/
inductive Region.Makes (r : Region) (before : Option Char) (cs : List Char) :
    Piece → List Char → Prop where
  | found {found : Found} : r.at? before cs = some found →
      Makes r before cs ⟨found.kind, found.lexeme⟩ found.rest
  | remainder {k : TokenKind} : r.rule.unclaimed = .fill k → r.search before cs = none →
      Makes r before cs ⟨k, cs⟩ []
  | skipped {k : TokenKind} {skipped : List Char} {found : Found} :
      r.rule.unclaimed = .fill k → skipped ≠ [] → r.search before cs = some (skipped, found) →
      Makes r before cs ⟨k, skipped⟩ (found.lexeme ++ found.rest)

namespace Region

variable {r : Region} {before : Option Char} {cs rest : List Char} {p : Piece}

theorem search_of_at {found : Found} (hit : r.at? before cs = some found) :
    r.search before cs = some ([], found) := by
  cases cs <;> rw [search, hit]

theorem at_of_search {found : Found} (h : r.search before cs = some ([], found)) :
    r.at? before cs = some found := by
  have hit := search_hit h
  have whole : found.lexeme ++ found.rest = cs := search_split h
  rw [whole] at hit
  exact hit

theorem Makes.split (h : r.Makes before cs p rest) : p.text ++ rest = cs := by
  cases h with
  | found hit => exact at_split hit
  | remainder _ _ => exact List.append_nil _
  | skipped _ _ hit => exact search_split hit

theorem Makes.nonempty (h : r.Makes before cs p rest) (some_text : cs ≠ []) : p.text ≠ [] := by
  cases h with
  | found hit => exact at_nonempty hit
  | remainder _ _ => exact some_text
  | skipped _ some_filler _ => exact some_filler

theorem Makes.not_error (h : r.Makes before cs p rest) : p.kind ≠ .error := by
  cases h with
  | @found found hit =>
    intro error
    have stands := (at_candidate hit).2
    rw [show found.kind = .error from error, TokenKind.at_never rfl] at stands
    cases stands
  | remainder filler _ => exact (filler_kind filler).2
  | skipped filler _ _ => exact (filler_kind filler).2

/-- A region that stays makes a piece of every text. -/
theorem makes_of_stays (stays : Stays (fun r => (r.at? before cs).isSome) r) :
    ∃ p rest, r.Makes before cs p rest := by
  rcases stays with solid | claimed
  · obtain ⟨k, filler⟩ := fills solid
    cases hit : r.search before cs with
    | none => exact ⟨_, _, .remainder filler hit⟩
    | some pair =>
      obtain ⟨skipped, found⟩ := pair
      cases skipped with
      | nil => exact ⟨_, _, .found (at_of_search hit)⟩
      | cons c skipped => exact ⟨_, _, .skipped filler (List.cons_ne_nil c skipped) hit⟩
  · obtain ⟨found, hit⟩ := Option.isSome_iff_exists.mp claimed
    exact ⟨_, _, .found hit⟩

end Region

/-- Reading a text piece by piece, each piece with the state after it, up to a last state. -/
inductive Reads : State → Option Char → List Char → List (Piece × State) → State → Prop where
  | done {s : State} {before : Option Char} : Reads s before [] [] s
  | piece {s settled : State} {before : Option Char} {cs rest : List Char} {p : Piece}
      {ps : List (Piece × State)} {last : State} :
      cs ≠ [] → s.settleAt before cs = settled → settled.top.region.Makes before cs p rest →
      Reads (settled.apply p.kind p.text) p.text.getLast? rest ps last →
      Reads s before cs ((p, settled.apply p.kind p.text) :: ps) last

/-- A find at the front leaves no choice. -/
theorem Region.Makes.of_at {r : Region} {before : Option Char} {cs rest : List Char} {p : Piece}
    {found : Found} (h : r.Makes before cs p rest) (hit : r.at? before cs = some found) :
    p = ⟨found.kind, found.lexeme⟩ ∧ rest = found.rest := by
  cases h with
  | found same =>
    cases same.symm.trans hit
    exact ⟨rfl, rfl⟩
  | remainder _ none => cases none.symm.trans (search_of_at hit)
  | skipped _ some_filler behind =>
    cases behind.symm.trans (search_of_at hit)
    exact absurd rfl some_filler

namespace State

theorem settleAt_of_stays {s : State} {before : Option Char} {cs : List Char}
    (stays : Stays (fun r => (r.at? before cs).isSome) s.top.region) : s.settleAt before cs = s := by
  rw [settleAt_eq]
  exact settle_of_stays stays

variable {s : State} (rooted : s.Rooted) (before : Option Char) (cs : List Char)
include rooted

theorem settleAt_rooted : (s.settleAt before cs).Rooted :=
  settle_keeps_root rooted _

theorem settleAt_stays :
    Stays (fun r => (r.at? before cs).isSome) (s.settleAt before cs).top.region := by
  rw [settleAt_eq]
  exact settle_stays rooted _

end State

theorem reads_exists {s : State} (rooted : s.Rooted) (before : Option Char) (cs : List Char) :
    ∃ ps last, Reads s before cs ps last := by
  induction size : cs.length using Nat.strongRecOn generalizing s before cs with
  | ind n ih =>
    by_cases empty : cs = []
    · subst empty
      exact ⟨[], s, .done⟩
    · have kept := State.settleAt_rooted rooted before cs
      obtain ⟨p, rest, made⟩ := Region.makes_of_stays (State.settleAt_stays rooted before cs)
      have text := made.split
      have positive := List.length_pos_iff.mpr (made.nonempty empty)
      have shorter : rest.length < n := by
        rw [← size, ← text, List.length_append]
        omega
      obtain ⟨ps, last, reads⟩ :=
        ih rest.length shorter (State.apply_rooted kept p.kind p.text) p.text.getLast? rest rfl
      exact ⟨_, last, .piece empty rfl made reads⟩

/-- What a scanner has not handed out yet is the text from an offset on. It may be between two
pieces, it may hold back the find behind filler, or it may be spent. -/
inductive Scanner.Faces : Scanner → Option Char → Nat → List Char → Prop where
  | idle {s : State} {before : Option Char} {offset : Nat} {cs : List Char} :
      Faces ⟨s, before, offset, cs, [], false⟩ before offset cs
  | ahead {s : State} {before : Option Char} {offset : Nat} {found : Found} :
      s.top.region.yields = false →
      s.top.region.at? before (found.lexeme ++ found.rest) = some found →
      Faces ⟨s, found.lexeme.getLast?, offset + byteSize found.lexeme, found.rest,
        [⟨found.kind, offset, String.ofList found.lexeme⟩], false⟩
        before offset (found.lexeme ++ found.rest)
  | spent {s : State} {before behind : Option Char} {offset after : Nat} :
      Faces ⟨s, behind, after, [], [], true⟩ before offset []

namespace Scanner

theorem settle_idle {s : State} {before : Option Char} {offset : Nat} {cs : List Char}
    (some_text : cs ≠ []) :
    (⟨s, before, offset, cs, [], false⟩ : Scanner).settle =
      ⟨s.settleAt before cs, before, offset, cs, [], false⟩ := by
  simp only [settle, List.isEmpty_iff, some_text, if_false]

theorem find_of_at {sc : Scanner} {found : Found}
    (hit : sc.state.top.region.at? sc.before sc.rest = some found) :
    sc.find? = some ([], found) := by
  rw [find_eq]
  split
  · rw [hit, Option.map_some]
  · exact Region.search_of_at hit

theorem find_of_filler {sc : Scanner} {k : TokenKind}
    (filler : sc.state.top.region.rule.unclaimed = .fill k) :
    sc.find? = sc.state.top.region.search sc.before sc.rest := by
  simp only [find_eq, Region.solid filler, Bool.false_eq_true, if_false]

theorem queueFound_at (sc : Scanner) {found : Found} (some_text : found.lexeme ≠ []) :
    sc.queueFound [] found = sc.queue found.kind found.lexeme found.rest := by
  have unfilled : sc.queueFiller [] (found.lexeme ++ found.rest) = sc := by
    unfold queueFiller
    split <;> rfl
  simp only [queueFound, unfilled, List.isEmpty_iff, some_text, if_false]

theorem queueFound_behind (sc : Scanner) {k : TokenKind} {skipped : List Char} {found : Found}
    (filler : sc.state.top.region.rule.unclaimed = .fill k) (some_filler : skipped ≠ [])
    (some_text : found.lexeme ≠ []) :
    sc.queueFound skipped found =
      (sc.queue k skipped (found.lexeme ++ found.rest)).queue found.kind found.lexeme found.rest := by
  simp only [queueFound, queueFiller, filler, List.isEmpty_iff, some_filler, some_text, if_false]

theorem getLast_or {cs : List Char} (some_text : cs ≠ []) (before : Option Char) :
    cs.getLast?.or before = cs.getLast? := by
  rw [List.getLast?_eq_some_getLast some_text, Option.some_or]

/-- The next token of a scanner between two pieces is the piece that the settled regions make. -/
theorem next_idle {s : State} {before : Option Char} {offset : Nat} {cs rest : List Char}
    {p : Piece} (some_text : cs ≠ [])
    (made : (s.settleAt before cs).top.region.Makes before cs p rest) :
    ∃ after : Scanner,
      (⟨s, before, offset, cs, [], false⟩ : Scanner).next =
        (some ⟨p.kind, offset, String.ofList p.text⟩, after) ∧
      after.state = (s.settleAt before cs).apply p.kind p.text ∧
      after.Faces p.text.getLast? (offset + byteSize p.text) rest := by
  simp only [next, List.isEmpty_nil, Bool.not_true, Bool.false_eq_true, if_false,
    settle_idle some_text]
  -- a find at the front comes at once; one further behind is queued behind its filler
  cases made with
  | @found found hit =>
    have some_lexeme := Region.at_nonempty hit
    rw [find_of_at hit]
    simp only [queueFound_at _ some_lexeme]
    refine ⟨_, rfl, ?_, ?_⟩
    · simp only [queue, String.toList_ofList]
    · simp only [queue, getLast_or some_lexeme, List.nil_append]
      exact .idle
  | @remainder k filler none =>
    rw [find_of_filler filler]
    simp only [none, finish, filler, List.isEmpty_iff, some_text, if_false]
    refine ⟨_, rfl, ?_, ?_⟩
    · simp only [queue, String.toList_ofList]
    · exact .spent
  | @skipped k skipped found filler some_filler hit =>
    have stands := Region.search_hit hit
    rw [getLast_or some_filler] at stands
    have some_lexeme := Region.at_nonempty stands
    rw [find_of_filler filler]
    simp only [hit, queueFound_behind ⟨s.settleAt before cs, before, offset, cs, [], false⟩ filler
      some_filler some_lexeme]
    refine ⟨_, rfl, ?_, ?_⟩
    · simp only [queue, String.toList_ofList]
    · simp only [queue, getLast_or some_filler, getLast_or some_lexeme, String.toList_ofList,
        List.nil_append, State.apply_filler filler]
      exact .ahead (Region.solid filler) stands

theorem next_faces {sc : Scanner} {before : Option Char} {offset : Nat} {cs rest : List Char}
    {p : Piece} (faces : sc.Faces before offset cs) (some_text : cs ≠ [])
    (made : (sc.state.settleAt before cs).top.region.Makes before cs p rest) :
    ∃ after : Scanner,
      sc.next = (some ⟨p.kind, offset, String.ofList p.text⟩, after) ∧
      after.state = (sc.state.settleAt before cs).apply p.kind p.text ∧
      after.Faces p.text.getLast? (offset + byteSize p.text) rest := by
  cases faces with
  | idle => exact next_idle some_text made
  | @ahead s before offset found solid stands =>
    have settled : s.settleAt before (found.lexeme ++ found.rest) = s :=
      State.settle_of_stays (.inl solid)
    rw [settled] at made ⊢
    obtain ⟨rfl, rfl⟩ := made.of_at stands
    refine ⟨⟨s.apply found.kind found.lexeme, found.lexeme.getLast?,
      offset + byteSize found.lexeme, found.rest, [], false⟩, ?_, rfl, .idle⟩
    simp only [next, emitPending, emit, List.isEmpty_cons, Bool.not_false, if_true,
      String.toList_ofList]
  | spent => exact absurd rfl some_text

theorem next_end {sc : Scanner} {before : Option Char} {offset : Nat}
    (faces : sc.Faces before offset []) :
    ∃ after : Scanner,
      sc.next = (none, after) ∧ after.state = sc.state ∧ after.Faces before offset [] := by
  generalize none_left : ([] : List Char) = cs at faces
  cases faces with
  | @idle s =>
    subst none_left
    have nothing : (⟨s, before, offset, [], [], false⟩ : Scanner).find? = none := by
      simp only [find_eq, Region.at_end, Region.search, Option.map_none, ite_self]
    simp only [next, settle, nothing, finish, List.isEmpty_nil, Bool.not_true, Bool.false_eq_true,
      if_false, if_true]
    split
    · exact ⟨_, rfl, rfl, .spent⟩
    · exact ⟨_, rfl, rfl, .spent⟩
  | ahead _ stands =>
    exact absurd (List.append_eq_nil_iff.mp none_left.symm).1 (Region.at_nonempty stands)
  | spent => exact ⟨_, rfl, rfl, .spent⟩

end Scanner

/-- Pieces as tokens at their byte offsets. -/
def placed (offset : Nat) : List (Piece × State) → List (Token × State)
  | [] => []
  | (p, s) :: ps =>
    (⟨p.kind, offset, String.ofList p.text⟩, s) :: placed (offset + byteSize p.text) ps

/-- The text of pieces. -/
def textOf (ps : List (Piece × State)) : List Char :=
  ps.flatMap (·.1.text)

theorem textOf_cons (q : Piece × State) (ps : List (Piece × State)) :
    textOf (q :: ps) = q.1.text ++ textOf ps :=
  List.flatMap_cons

theorem textOf_append (ps qs : List (Piece × State)) :
    textOf (ps ++ qs) = textOf ps ++ textOf qs :=
  List.flatMap_append

theorem placed_append (offset : Nat) (ps qs : List (Piece × State)) :
    placed offset (ps ++ qs) = placed offset ps ++ placed (offset + byteSize (textOf ps)) qs := by
  induction ps generalizing offset with
  | nil => rfl
  | cons p ps ih =>
    rw [List.cons_append, placed, placed, ih, textOf_cons, byteSize_append, Nat.add_assoc,
      List.cons_append]

theorem placed_take (offset n : Nat) (ps : List (Piece × State)) :
    (placed offset ps).take n = placed offset (ps.take n) := by
  induction ps generalizing offset n with
  | nil => simp [placed]
  | cons p ps ih =>
    cases n with
    | zero => rfl
    | succ n => rw [placed, List.take_succ_cons, List.take_succ_cons, ih, placed]

theorem placed_drop (offset n : Nat) (ps : List (Piece × State)) :
    (placed offset ps).drop n = placed (offset + byteSize (textOf (ps.take n))) (ps.drop n) := by
  induction ps generalizing offset n with
  | nil => simp [placed]
  | cons p ps ih =>
    cases n with
    | zero => rfl
    | succ n =>
      rw [placed, List.drop_succ_cons, List.drop_succ_cons, ih, List.take_succ_cons, textOf_cons,
        byteSize_append, Nat.add_assoc]

section Reads

variable {s last : State} {before : Option Char} {cs : List Char} {ps : List (Piece × State)}

theorem Reads.text (reads : Reads s before cs ps last) : textOf ps = cs := by
  induction reads with
  | done => rfl
  | piece _ _ made _ ih =>
    rw [textOf_cons, ih]
    exact made.split

theorem Reads.sound (reads : Reads s before cs ps last) :
    ∀ q ∈ ps, q.1.text ≠ [] ∧ q.1.kind ≠ .error := by
  induction reads with
  | done =>
    intro q hq
    cases hq
  | piece some_text _ made _ ih =>
    intro q hq
    rcases List.mem_cons.mp hq with rfl | hq
    · exact ⟨made.nonempty some_text, made.not_error⟩
    · exact ih q hq

theorem Reads.rooted (reads : Reads s before cs ps last) (rooted : s.Rooted) : last.Rooted := by
  induction reads with
  | done => exact rooted
  | piece _ settles _ _ ih =>
    subst settles
    exact ih (State.apply_rooted (State.settleAt_rooted rooted _ _) _ _)

variable {sc : Scanner} {offset : Nat}

theorem Scanner.drain_reads (faces : sc.Faces before offset cs)
    (reads : Reads sc.state before cs ps last) :
    ∃ final : Scanner, sc.drain = (placed offset ps, final) ∧ final.state = last := by
  generalize same : sc.state = s at reads
  induction reads generalizing sc offset with
  | done =>
    obtain ⟨after, step, kept, _⟩ := next_end faces
    exact ⟨after, drain_none step, kept.trans same⟩
  | @piece s settled before cs rest p ps last some_text settles made _ ih =>
    subst same settles
    obtain ⟨after, step, state, later⟩ := next_faces faces some_text made
    obtain ⟨final, rest, reached⟩ := ih later state
    refine ⟨final, ?_, reached⟩
    rw [drain_some step, rest, state, placed]

/-- After some tokens a scanner faces the text behind them, and reading goes on from its state. -/
theorem Scanner.pull_reads (faces : sc.Faces before offset cs) (rooted : sc.state.Rooted)
    (reads : Reads sc.state before cs ps last) (n : Nat) :
    ∃ (after : Scanner) (rest : List Char),
      sc.pull n = (placed offset (ps.take n), after) ∧
      textOf (ps.take n) ++ rest = cs ∧ after.state.Rooted ∧
      Reads after.state ((textOf (ps.take n)).getLast?.or before) rest (ps.drop n) last := by
  induction n generalizing sc offset before cs ps with
  | zero => exact ⟨sc, cs, rfl, rfl, rooted, by simpa [textOf] using reads⟩
  | succ n ih =>
    generalize same : sc.state = s at reads
    cases reads with
    | done =>
      obtain ⟨after, step, kept, _⟩ := next_end faces
      refine ⟨after, [], ?_, rfl, kept ▸ rooted, ?_⟩
      · simp only [pull, step, List.take_nil, placed]
      · rw [kept, same]
        exact .done
    | @piece _ settled _ _ behind p ps _ some_text settles made later =>
      subst same settles
      obtain ⟨after, step, state, ahead⟩ := next_faces faces some_text made
      have still := State.apply_rooted (State.settleAt_rooted rooted before cs) p.kind p.text
      obtain ⟨stopped, rest, pulled, text, kept, goes⟩ := ih ahead (state ▸ still) (state ▸ later)
      refine ⟨stopped, rest, ?_, ?_, kept, ?_⟩
      · simp only [pull, step, pulled, state, List.take_succ_cons, placed]
      · rw [List.take_succ_cons, textOf_cons, List.append_assoc, text]
        exact made.split
      · rw [List.take_succ_cons, List.drop_succ_cons, textOf_cons, List.getLast?_append,
          Option.or_assoc, getLast_or (made.nonempty some_text)]
        exact goes

end Reads
end ScoreText
