import ScoreText.Proofs.Reachable

/-! The root of a mode outlives every scan. The regions on top of it come and go, but no token that
the root of a mode reads puts another region in its place or charges an argument to it. While the
bottom region does not yield, leaving the regions that yield comes to an end. -/
namespace ScoreText

/-- Whether an action changes the region on top in its place. -/
def Action.alters : Action → Bool
  | .replace _ | .spend => true
  | _ => false

theorem Lily.action_unaltered {k : Lily.Kind} {text : List Char} {a : Action}
    (h : k.action? text = some a) : a.alters = false := by
  cases k with
  | markupCommand =>
    simp only [Lily.Kind.action?] at h
    split at h <;> cases h <;> rfl
  | _ => cases h <;> rfl

namespace Mode

variable {m : Mode} {k : TokenKind}

/-- The kinds of LilyPond look at the text, but they alter nothing anywhere. -/
theorem root_action (listed : k ∈ m.root.rule.candidates) {text : List Char} {a : Action}
    (own : k.action? text = some a) : a.alters = false := by
  have all : ∀ k ∈ m.root.rule.candidates, ∀ a ∈ k.action? [], a.alters = false := by
    cases m <;> decide
  cases k with
  | lily k => exact Lily.action_unaltered own
  | _ => exact all _ listed a own

theorem root_react (m : Mode) (arguments : Nat) (k : TokenKind) (text : List Char) :
    (m.root.react arguments k text).alters = false := by
  cases m with
  | lilypond | scheme | html | texinfo => rfl
  | latex =>
    simp only [root, Region.react, Latex.Region.react]
    split <;> rfl
  | docBook =>
    simp only [root, Region.react, DocBook.Region.react]
    split <;> rfl

end Mode

namespace State

variable {s : State}

theorem setTop_bottom (f : Frame) (some_inner : s.inner ≠ []) : (s.setTop f).bottom = s.bottom := by
  unfold setTop
  split
  · rename_i none
    exact absurd none some_inner
  · rfl

theorem perform_bottom {a : Action} (kept : s.inner ≠ [] ∨ a.alters = false) :
    (s.perform a).bottom = s.bottom := by
  cases a with
  | replace r | spend =>
    rcases kept with some_inner | unaltered
    · exact setTop_bottom _ some_inner
    · cases unaltered
  | _ => rfl

theorem settleAt_root {m : Mode} (root : s.bottom = .fresh m.root) (before : Option Char)
    (cs : List Char) : (s.settleAt before cs).bottom = .fresh m.root := by
  have rooted : s.Rooted := by
    rw [Rooted, root]
    exact mode_rooted m
  rw [settleAt, settle_rooted rooted]
  exact root

/-- What the root of a mode makes of a text does not change it in its place. -/
theorem action_kept {m : Mode} (root : s.bottom = .fresh m.root) {before : Option Char}
    {cs rest : List Char} {p : Piece} (made : s.top.region.Makes before cs p rest) :
    s.inner ≠ [] ∨ (s.action p.kind p.text).alters = false := by
  by_cases alone : s.inner = []
  · have top : s.top = .fresh m.root := by rw [top, alone, List.headD_nil, root]
    cases made with
    | remainder filler _ | skipped filler _ _ =>
      have ignored := Region.ignores_filler filler s.top.arguments
      simp [action, (ignored _).1, (ignored _).2, Action.alters]
    | @found found hit =>
      rw [top] at hit
      rw [action, top]
      cases own : found.kind.action? found.lexeme with
      | some a => exact .inr (Mode.root_action (Region.at_candidate hit).1 own)
      | none => exact .inr (m.root_react _ _ _)
  · exact .inl alone

/-- A token that the settled regions make of a text leaves the root of a mode at the bottom. -/
theorem apply_root {m : Mode} (root : s.bottom = .fresh m.root) {before : Option Char}
    {cs rest : List Char} {p : Piece}
    (made : (s.settleAt before cs).top.region.Makes before cs p rest) :
    ((s.settleAt before cs).apply p.kind p.text).bottom = .fresh m.root := by
  have settled := settleAt_root root before cs
  rw [apply, perform_bottom (action_kept settled made), settled]

end State

/-- What every piece keeps is kept by a scan that is given up after any number of tokens. -/
theorem pull_keeps {P : State → Prop}
    (piece : ∀ s before cs rest p, P s → (s.settleAt before cs).top.region.Makes before cs p rest →
      P ((s.settleAt before cs).apply p.kind p.text))
    {sc : Scanner} {before : Option Char} {offset : Nat} {cs : List Char}
    {ps : List (Piece × State)} {last : State} (faces : sc.Faces before offset cs)
    (start : P sc.state) (reads : Reads sc.state before cs ps last) (taken : Nat) :
    P (sc.pull taken).2.state := by
  induction taken generalizing sc offset before cs ps with
  | zero => exact start
  | succ n ih =>
    generalize same : sc.state = s at reads
    cases reads with
    | done =>
      obtain ⟨after, step, kept, _⟩ := Scanner.next_end faces
      simp only [Scanner.pull, step, kept]
      exact start
    | @piece _ settled _ _ behind p ps _ some_text settles made later =>
      subst same settles
      obtain ⟨after, step, state, ahead⟩ := Scanner.next_faces faces some_text made
      have still := piece _ _ _ _ _ start made
      simp only [Scanner.pull, step]
      exact ih ahead (state ▸ still) (state ▸ later)

/-- A scan of a text from a byte offset that takes some tokens and is then dropped. -/
structure Scan where
  text : String
  start : Nat
  taken : Nat

/-- The state after scans that are made one after the other. -/
def State.afterScans (s : State) (scans : List Scan) : State :=
  scans.foldl (fun s scan => ((Scanner.ofText s scan.text scan.start).pull scan.taken).2.state) s

theorem State.scans_root {m : Mode} {s : State} (root : s.bottom = .fresh m.root)
    (scans : List Scan) : (s.afterScans scans).bottom = .fresh m.root := by
  induction scans generalizing s with
  | nil => exact root
  | cons scan scans ih =>
    have rooted : s.Rooted := by
      rw [Rooted, root]
      exact mode_rooted m
    obtain ⟨front, rest, ps, last, _, _, faces, reads⟩ := ofText_reads rooted scan.text scan.start
    exact ih <| pull_keeps (fun _ _ _ _ _ root made => apply_root root made) (faces s) root
      reads scan.taken

namespace Scanner

/-- One turn of leaving: a region on top that yields and claims nothing here ends or is replaced. At
the end of the text all regions stay. -/
def yield? (sc : Scanner) : Option Scanner :=
  if sc.rest.isEmpty || (sc.state.top.region.at? sc.before sc.rest).isSome then none
  else
    match sc.state.top.region.rule.unclaimed with
    | .fill _ => none
    | .leave => some { sc with state := sc.state.leave }
    | .replace r => some { sc with state := sc.state.replace r }

/-- Turns that are made until no other one can be made, with their number. -/
inductive Stops : Scanner → Nat → Scanner → Prop where
  | done {sc : Scanner} : sc.yield? = none → Stops sc 0 sc
  | turn {sc next last : Scanner} {n : Nat} : sc.yield? = some next → Stops next n last →
      Stops sc (n + 1) last

end Scanner

/-- A region that takes the place of another one is not replaced in turn. -/
theorem Region.replaced_once {r next other : Region} (h : r.rule.unclaimed = .replace next) :
    next.rule.unclaimed ≠ .replace other := by
  cases r with
  | lily r =>
    cases r <;> cases h
    exact nofun
  | scheme r => cases r <;> cases h
  | html r => cases r <;> cases h
  | latex r =>
    cases r <;> cases h
    exact nofun
  | texinfo r =>
    cases r <;> cases h
    exact nofun
  | docBook r => cases r <;> cases h

section Stops

variable {before : Option Char} {offset : Nat} {cs : List Char} {pending : List Token}
  {finished : Bool} {bottom : Frame}

/-- The induction is on the open regions. A region takes at most two turns: it is replaced once, and
what has taken its place ends. -/
theorem stops_frames (some_text : cs ≠ []) (solid : bottom.region.yields = false)
    (inner : List Frame) :
    ∃ n ≤ 2 * inner.length,
      Scanner.Stops ⟨⟨inner, bottom⟩, before, offset, cs, pending, finished⟩ n
        ⟨⟨State.settleFrames (fun r => (r.at? before cs).isSome) inner, bottom⟩, before, offset, cs,
          pending, finished⟩ := by
  have text : cs.isEmpty = false := List.isEmpty_eq_false_iff.mpr some_text
  induction inner with
  | nil =>
    obtain ⟨k, filler⟩ := Region.fills solid
    refine ⟨0, Nat.le_refl _, .done ?_⟩
    simp [Scanner.yield?, State.top, filler]
  | cons f inner ih =>
    obtain ⟨n, bound, stops⟩ := ih
    by_cases claimed : (f.region.at? before cs).isSome = true
    · rw [State.settleFrames_of_stays inner (.inr claimed)]
      exact ⟨0, Nat.zero_le _, .done (by simp [Scanner.yield?, State.top, claimed])⟩
    · simp only [State.settleFrames, claimed]
      split
      · rename_i filler
        exact ⟨0, Nat.zero_le _, .done (by simp [Scanner.yield?, State.top, filler])⟩
      · rename_i leaves
        refine ⟨n + 1, by simp only [List.length_cons]; omega, .turn ?_ stops⟩
        simp [Scanner.yield?, State.top, State.leave, text, claimed, leaves]
      · rename_i r replaces
        have turn : Scanner.yield? ⟨⟨f :: inner, bottom⟩, before, offset, cs, pending, finished⟩ =
            some ⟨⟨.fresh r :: inner, bottom⟩, before, offset, cs, pending, finished⟩ := by
          simp [Scanner.yield?, State.top, State.replace, State.setTop, text, claimed, replaces]
        -- the region that takes the place either stays or leaves; it is not replaced again
        by_cases stays : (!r.yields || (r.at? before cs).isSome) = true
        · simp only [stays]
          refine ⟨1, by simp only [List.length_cons]; omega, .turn turn (.done ?_)⟩
          rcases Bool.or_eq_true_iff.mp stays with solid | claimed
          · obtain ⟨k, filler⟩ := Region.fills (by simpa using solid)
            simp [Scanner.yield?, State.top, Frame.fresh, filler]
          · simp [Scanner.yield?, State.top, Frame.fresh, claimed]
        · simp only [stays]
          refine ⟨n + 2, by simp only [List.length_cons]; omega, .turn turn (.turn ?_ stops)⟩
          have leaves : r.rule.unclaimed = .leave := by
            cases rule : r.rule.unclaimed with
            | fill k => simp [Region.solid rule] at stays
            | replace other => exact absurd rule (Region.replaced_once replaces)
            | leave => rfl
          have unclaimed : (r.at? before cs).isSome = false := by simp_all
          simp [Scanner.yield?, State.top, State.leave, Frame.fresh, text, unclaimed, leaves]

theorem Scanner.settle_stops {sc : Scanner} (rooted : sc.state.Rooted) :
    ∃ n ≤ 2 * sc.state.inner.length, sc.Stops n sc.settle := by
  obtain ⟨⟨inner, bottom⟩, before, offset, cs, pending, finished⟩ := sc
  cases cs with
  | nil => exact ⟨0, Nat.zero_le _, .done rfl⟩
  | cons c cs =>
    rw [Scanner.settle]
    simp only [List.isEmpty_cons, Bool.false_eq_true, if_false, State.settleAt_eq,
      State.settle_rooted rooted]
    exact stops_frames (List.cons_ne_nil c cs) rooted inner

end Stops

/-- Scans that follow each other leave the root of their mode at the bottom as it was. A scan from
any state whose bottom region does not yield keeps it so, and at every stop of it the leaving of the
regions that yield ends after finitely many turns, with the settled regions. -/
theorem root_survives :
    (∀ (m : Mode) (scans : List Scan),
      ((State.ofMode m).afterScans scans).bottom = .fresh m.root) ∧
    ∀ s : State, s.Rooted → ∀ (text : String) (start taken : Nat),
      let sc := ((Scanner.ofText s text start).pull taken).2
      sc.state.Rooted ∧ ∃ n ≤ 2 * sc.state.inner.length, sc.Stops n sc.settle := by
  refine ⟨fun m scans => State.scans_root rfl scans, ?_⟩
  intro s rooted text start taken
  have kept := pull_rooted rooted text start taken
  exact ⟨kept, Scanner.settle_stops kept⟩

/-- Behind a duration a bracket closes more than is open. -/
theorem root_survives_stray_bracket :
    (State.ofMode .lilypond).Rooted ∧
      let sc := ((Scanner.ofText (.ofMode .lilypond) "\x7b c4 \x7d \x7d" 0).pull 5).2
      sc.state.Rooted ∧ ∃ n ≤ 2 * sc.state.inner.length, sc.Stops n sc.settle :=
  ⟨mode_rooted .lilypond,
    root_survives.2 (.ofMode .lilypond) (mode_rooted .lilypond) "\x7b c4 \x7d \x7d" 0 5⟩

end ScoreText
