import ScoreText.Proofs.Root

/-! LilyPond within another format is scanned as in a file of its own. The regions that hold a LilyPond
file look for further kinds first. Where none of these occurs, and no token ends a region while only the
root is open, both scans make the same tokens, and the stacks differ at the bottom only. -/
namespace ScoreText

/-- The regions of other formats that hold a LilyPond file. -/
def embeddings : List Region :=
  [.html .lilyPond, .latex .lilyPondEnv, .texinfo .lilyPondEnv, .docBook .lilyPond]

/-- The kinds that a region looks for besides those of a LilyPond file. -/
def Region.added (r : Region) : List TokenKind :=
  r.rule.candidates.filter fun k => !Lily.globalKinds.contains k

/-- Whether a kind stands nowhere in a text. -/
def TokenKind.absent (k : TokenKind) (cs : List Char) : Bool :=
  (List.range (cs.length + 1)).all fun n => (k.at? (cs.take n).getLast? (cs.drop n)).isNone

theorem TokenKind.absent_split {k : TokenKind} {front back : List Char}
    (absent : k.absent (front ++ back) = true) : k.at? front.getLast? back = none := by
  have here := List.all_eq_true.mp absent front.length (List.mem_range.mpr (by rw [List.length_append]; omega))
  simpa using here

namespace State

/-- The open regions of a state within a region on top of another state. The region takes the place of
the bottom. -/
def inside (s outer : State) (r : Region) : State :=
  ⟨s.inner ++ .fresh r :: outer.inner, outer.bottom⟩

/-- Whether an action ends a region while only the bottom is open. -/
def leavesRoot (s : State) : Action → Bool
  | .leave | .leaveThenArgument => s.inner.isEmpty
  | .closeMarkup => (s.inner.dropWhile (·.arguments > 0)).isEmpty
  | _ => false

end State

namespace Scanner

/-- The state to which a scanner applies its next token. -/
def ready (sc : Scanner) : State :=
  if sc.pending.isEmpty then sc.settle.state else sc.state

/-- No token of a scan ends a region while only the bottom is open. -/
inductive SparesRoot : Scanner → Prop
  | ended {sc after : Scanner} : sc.next = (none, after) → SparesRoot sc
  | token {sc after : Scanner} {t : Token} : sc.next = (some t, after) →
      sc.ready.leavesRoot (sc.ready.action t.kind t.text.toList) = false → SparesRoot after →
      SparesRoot sc

/-- Between two pieces and in front of a find that was looked up ahead, a scanner is settled. -/
theorem ready_faces {sc : Scanner} {before : Option Char} {offset : Nat} {cs : List Char}
    (faces : sc.Faces before offset cs) (some_text : cs ≠ []) :
    sc.ready = sc.state.settleAt before cs := by
  cases faces with
  | idle => simp [ready, settle_idle some_text]
  | ahead solid => exact (State.settle_of_stays (.inl solid)).symm
  | spent => exact absurd rfl some_text

end Scanner

/-- A region that reads like the root of LilyPond but for the kinds that it looks for first. -/
structure Region.Embeds (r : Region) : Prop where
  candidates : r.rule.candidates = r.added ++ Lily.globalKinds
  fills : r.rule.unclaimed = (Region.lily .global).rule.unclaimed
  arguments : r.rule.arguments = 0
  react : ∀ n m k text, r.react n k text = (Region.lily .global).react m k text

theorem embeddings_embed {r : Region} (listed : r ∈ embeddings) : r.Embeds := by
  simp only [embeddings, List.mem_cons, List.not_mem_nil, or_false] at listed
  rcases listed with rfl | rfl | rfl | rfl
  · exact ⟨by decide, rfl, rfl, fun _ _ _ _ => rfl⟩
  · exact ⟨by decide, rfl, rfl, fun _ _ _ _ => rfl⟩
  · exact ⟨by decide, rfl, rfl, fun _ _ _ _ => rfl⟩
  · exact ⟨by decide, rfl, rfl, fun _ _ _ _ => rfl⟩

section Search

variable {r : Region} {before : Option Char} {cs rest : List Char} {p : Piece}

/-- None of the kinds that a region adds stands in a text that follows a character. -/
def Region.Clear (r : Region) (before : Option Char) (cs : List Char) : Prop :=
  ∀ k ∈ r.added, ∀ front back, front ++ back = cs → k.at? (front.getLast?.or before) back = none

theorem Region.Clear.behind (clear : r.Clear before (p.text ++ rest)) (some_text : p.text ≠ []) :
    r.Clear p.text.getLast? rest := by
  intro k listed front back whole
  have here := clear k listed (p.text ++ front) back (by rw [List.append_assoc, whole])
  rwa [List.getLast?_append, Option.or_assoc, Scanner.getLast_or some_text] at here

namespace Region.Embeds

theorem at_alike (embeds : r.Embeds) (clear : r.Clear before cs) :
    r.at? before cs = (Region.lily .global).at? before cs := by
  have nothing : r.added.findSome? (·.at? before cs) = none := by
    rw [List.findSome?_eq_none_iff]
    intro k listed
    simpa using clear k listed [] cs rfl
  rw [Region.at?, embeds.candidates, List.findSome?_append, nothing, Option.none_or]
  rfl

theorem search_alike (embeds : r.Embeds) (clear : r.Clear before cs) :
    r.search before cs = (Region.lily .global).search before cs := by
  induction cs generalizing before with
  | nil => rw [Region.search, Region.search, embeds.at_alike clear]
  | cons c cs ih =>
    have later : r.Clear (some c) cs := by
      intro k listed front back whole
      have here := clear k listed (c :: front) back (by rw [List.cons_append, whole])
      rw [List.getLast?_cons, Option.some_or] at here
      cases last : front.getLast? <;> simpa [last] using here
    rw [Region.search, Region.search, embeds.at_alike clear, ih later]

theorem makes (embeds : r.Embeds) (clear : r.Clear before cs)
    (made : (Region.lily .global).Makes before cs p rest) : r.Makes before cs p rest := by
  cases made with
  | found hit => exact .found (by rw [embeds.at_alike clear, hit])
  | remainder filler none =>
    exact .remainder (embeds.fills.trans filler) (by rw [embeds.search_alike clear, none])
  | skipped filler some_filler hit =>
    exact .skipped (embeds.fills.trans filler) some_filler (by rw [embeds.search_alike clear, hit])

end Region.Embeds

end Search

namespace State

variable {s outer : State} {r : Region}

theorem top_inside (some_inner : s.inner ≠ []) : (s.inside outer r).top = s.top := by
  obtain ⟨inner, bottom⟩ := s
  cases inner with
  | nil => exact absurd rfl some_inner
  | cons f inner => rfl

theorem top_inside_alone (alone : s.inner = []) : (s.inside outer r).top = .fresh r := by
  simp [inside, top, alone]

theorem settleFrames_inside (claims : Region → Bool) (solid : r.yields = false) (frames rest : List Frame) :
    settleFrames claims (frames ++ .fresh r :: rest) = settleFrames claims frames ++ .fresh r :: rest := by
  induction frames with
  | nil => exact settleFrames_of_stays rest (.inl solid)
  | cons f frames ih =>
    simp only [List.cons_append, settleFrames, ih]
    split
    · rfl
    · split <;> rfl
    · split
      · rfl
      · split <;> rfl

theorem settle_inside (outer : State) (rooted : s.Rooted) (solid : r.yields = false) (claims : Region → Bool) :
    (s.inside outer r).settle claims = (s.settle claims).inside outer r := by
  rw [settle_rooted rooted, settle, inside, settleFrames_inside claims solid]
  cases settleFrames claims s.inner <;> rfl

theorem completeArgument_inside (open_ : r.rule.arguments = 0) (frames rest : List Frame) :
    completeArgument.go (frames ++ .fresh r :: rest) = completeArgument.go frames ++ .fresh r :: rest := by
  induction frames with
  | nil => simp [completeArgument.go, Frame.fresh, open_]
  | cons f frames ih =>
    simp only [List.cons_append, completeArgument.go, ih]
    split <;> rfl

/-- An action within a region does what it does above the root, as long as it leaves the root alone. -/
theorem perform_inside {a : Action} (open_ : r.rule.arguments = 0)
    (kept : s.inner ≠ [] ∨ a.alters = false) (spared : s.leavesRoot a = false) :
    (s.inside outer r).perform a = (s.perform a).inside outer r := by
  obtain ⟨inner, bottom⟩ := s
  cases a with
  | stay => rfl
  | argument => simp only [perform, completeArgument, inside, completeArgument_inside open_]
  | enter | enterAwaiting => rfl
  | spend | replace =>
    cases inner with
    | nil => simp [Action.alters] at kept
    | cons f inner => rfl
  | leave =>
    cases inner with
    | nil => simp [leavesRoot] at spared
    | cons f inner => rfl
  | leaveThenArgument =>
    cases inner with
    | nil => simp [leavesRoot] at spared
    | cons f inner =>
      simp only [perform, leave, completeArgument, inside, List.cons_append, List.tail_cons,
        completeArgument_inside open_]
  | closeMarkup =>
    have kept : inner.dropWhile (·.arguments > 0) ≠ [] := by simpa [leavesRoot] using spared
    simp only [perform, closeMarkup, leave, completeArgument, inside, List.dropWhile_append]
    cases rest : inner.dropWhile (·.arguments > 0) with
    | nil => exact absurd rest kept
    | cons f rest => simp [completeArgument_inside open_]

theorem action_inside (embeds : r.Embeds) (root : s.bottom = .fresh (.lily .global)) (k : TokenKind)
    (text : List Char) : (s.inside outer r).action k text = s.action k text := by
  by_cases alone : s.inner = []
  · have top : s.top = .fresh (.lily .global) := by rw [top, alone, List.headD_nil, root]
    rw [action, action, top_inside_alone alone, top]
    congr 1
    exact embeds.react _ _ k text
  · rw [action, action, top_inside alone]

end State

section Scan

variable {r : Region}

/-- Reading within a region makes the same pieces. The induction is on the pieces of the scan that has
its own root. Its scanner tells that the root is spared. -/
theorem reads_inside (outer : State) (embeds : r.Embeds) {sc : Scanner} {before : Option Char} {offset : Nat}
    {cs : List Char} {ps : List (Piece × State)} {last : State} (faces : sc.Faces before offset cs)
    (spared : sc.SparesRoot) (root : sc.state.bottom = .fresh (.lily .global))
    (clear : r.Clear before cs) (reads : Reads sc.state before cs ps last) :
    last.bottom = .fresh (.lily .global) ∧
      Reads (sc.state.inside outer r) before cs (ps.map fun q => (q.1, q.2.inside outer r))
        (last.inside outer r) := by
  generalize same : sc.state = s at reads
  induction reads generalizing sc offset with
  | done => exact ⟨same ▸ root, same ▸ .done⟩
  | @piece s settled before cs rest p ps last some_text settles made _ ih =>
    subst same settles
    have solid : r.yields = false := Region.solid embeds.fills
    have rooted : sc.state.Rooted := by
      rw [State.Rooted, root]
      rfl
    have settled_root := State.settleAt_root (m := .lilypond) root before cs
    have kept := State.action_kept (m := .lilypond) settled_root made
    have next_root := State.apply_root (m := .lilypond) root made
    have split := made.split
    have settles := State.settle_inside outer rooted solid fun r => (r.at? before cs).isSome
    obtain ⟨after, step, state, ahead⟩ := Scanner.next_faces faces some_text made
    have ready := Scanner.ready_faces faces some_text
    cases spared with
    | ended none_next => cases step.symm.trans none_next
    | token some_next spares later =>
      cases step.symm.trans some_next
      rw [ready, String.toList_ofList] at spares
      rw [← State.settleAt_eq, ← State.settleAt_eq] at settles
      generalize sc.state.settleAt before cs = settled at *
      have applied : (settled.inside outer r).apply p.kind p.text =
          (settled.apply p.kind p.text).inside outer r := by
        rw [State.apply, State.action_inside embeds settled_root,
          State.perform_inside embeds.arguments kept spares]
        rfl
      -- only where the root itself is on top the region lends its own candidates
      have inner_made : (settled.inside outer r).top.region.Makes before cs p rest := by
        by_cases alone : settled.inner = []
        · have top : settled.top = .fresh (.lily .global) := by
            rw [State.top, alone, List.headD_nil, settled_root]
            rfl
          rw [State.top_inside_alone alone]
          rw [top] at made
          exact embeds.makes clear made
        · rw [State.top_inside alone]
          exact made
      rw [← split] at clear
      obtain ⟨last_root, goes⟩ := ih ahead later (state ▸ next_root)
        (clear.behind (made.nonempty some_text)) state
      refine ⟨last_root, ?_⟩
      rw [← applied] at goes
      rw [List.map_cons, ← applied]
      exact .piece some_text settles inner_made goes

end Scan

theorem placed_map (f : State → State) (offset : Nat) (ps : List (Piece × State)) :
    placed offset (ps.map fun q => (q.1, f q.2)) = (placed offset ps).map fun q => (q.1, f q.2) := by
  induction ps generalizing offset with
  | nil => rfl
  | cons p ps ih => simp only [List.map_cons, placed, ih]

/-- A text is scanned within a region that holds a LilyPond file as it is scanned as a file of its own,
if none of the kinds that the region adds stands anywhere in the text and no token ends a region while
only the root is open: the tokens are the same, and in the end the region lies where the root would be,
on top of the stack that it was entered from. -/
theorem embedded_scan (r : Region) (listed : r ∈ embeddings) (outer : State) (text : String) (start : Nat)
    (absent : ∀ k ∈ r.added, k.absent text.toList = true)
    (spared : (Scanner.ofText (.ofMode .lilypond) text start).SparesRoot) :
    let alone := (Scanner.ofText (.ofMode .lilypond) text start).drain
    let embedded := (Scanner.ofText (outer.enter r) text start).drain
    embedded.1.map (·.1) = alone.1.map (·.1) ∧
      ∃ rest, alone.2.state.frames = .fresh (.lily .global) :: rest ∧
        embedded.2.state.frames = outer.frames ++ .fresh r :: rest := by
  have embeds := embeddings_embed listed
  obtain ⟨front, rest, ps, last, whole, _, faces, reads⟩ :=
    ofText_reads (mode_rooted .lilypond) text start
  have clear : r.Clear front.getLast? rest := by
    intro k listed first back split
    have here : k.absent ((front ++ first) ++ back) = true := by
      rw [List.append_assoc, split, whole]
      exact absent k listed
    rw [← List.getLast?_append]
    exact TokenKind.absent_split here
  obtain ⟨last_root, goes⟩ := reads_inside outer embeds (faces (.ofMode .lilypond)) spared rfl clear reads
  obtain ⟨final, drained, reached⟩ := Scanner.drain_reads (faces (.ofMode .lilypond)) reads
  obtain ⟨inner_final, inner_drained, inner_reached⟩ :=
    Scanner.drain_reads (faces (outer.enter r)) goes
  simp only [drained, inner_drained, reached, inner_reached]
  constructor
  · rw [placed_map (·.inside outer r), List.map_map]
    rfl
  · refine ⟨last.inner.reverse, ?_, ?_⟩
    · simp [State.frames, State.stack, last_root]
    · simp [State.frames, State.stack, State.inside]

/-- A list of one note, in an element of an HTML document. -/
theorem embedded_scan_html :
    Region.html .lilyPond ∈ embeddings ∧
      (∀ k ∈ (Region.html .lilyPond).added, k.absent "\x7b c \x7d".toList = true) ∧
      (Scanner.ofText (.ofMode .lilypond) "\x7b c \x7d" 0).SparesRoot ∧
      let alone := (Scanner.ofText (.ofMode .lilypond) "\x7b c \x7d" 0).drain
      let embedded := (Scanner.ofText ((State.ofMode .html).enter (.html .lilyPond)) "\x7b c \x7d" 0).drain
      embedded.1.map (·.1) = alone.1.map (·.1) ∧
        ∃ rest, alone.2.state.frames = .fresh (.lily .global) :: rest ∧
          embedded.2.state.frames = (State.ofMode .html).frames ++ .fresh (.html .lilyPond) :: rest := by
  have listed : Region.html .lilyPond ∈ embeddings := by decide
  have absent : ∀ k ∈ (Region.html .lilyPond).added, k.absent "\x7b c \x7d".toList = true := by decide
  have spared : (Scanner.ofText (.ofMode .lilypond) "\x7b c \x7d" 0).SparesRoot := by
    apply Scanner.SparesRoot.token rfl rfl
    apply Scanner.SparesRoot.token rfl rfl
    apply Scanner.SparesRoot.token rfl rfl
    apply Scanner.SparesRoot.token rfl rfl
    apply Scanner.SparesRoot.token rfl rfl
    exact Scanner.SparesRoot.ended rfl
  exact ⟨listed, absent, spared,
    embedded_scan (.html .lilyPond) listed (.ofMode .html) "\x7b c \x7d" 0 absent spared⟩

end ScoreText
