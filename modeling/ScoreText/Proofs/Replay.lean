import ScoreText.Proofs.Reachable

/-! Replaying tokens. The scanner leaves a region where its patterns reject the text; replaying leaves
it where the kind of the token is not listed. Both end at the same region: one in front of it that
listed the kind would have found the token, or one that it prefers, and filler is listed nowhere. -/
namespace ScoreText

/-- The state after tokens that were scanned before. -/
def State.replay (s : State) (tokens : List Token) : State :=
  tokens.foldl (fun s t => s.follow t.kind t.text.toList) s

theorem follow_makes {s : State} {before : Option Char} {cs rest : List Char} {p : Piece}
    (rooted : s.Rooted) (made : (s.settleAt before cs).top.region.Makes before cs p rest) :
    s.follow p.kind p.text = (s.settleAt before cs).apply p.kind p.text := by
  have same : s.settle (·.rule.candidates.contains p.kind) = s.settleAt before cs := by
    rw [State.settleAt_eq] at made ⊢
    cases made with
    | @found found hit =>
      have stands := Region.at_candidate hit
      apply State.settle_agree rooted
      · intro r _ listed
        exact Region.at_some_of_candidate (List.contains_iff_mem.mp listed)
          (Option.isSome_of_eq_some stands.2)
      · exact .inr (List.contains_iff_mem.mpr stands.1)
    | remainder filler _ | skipped filler _ _ =>
      apply State.settle_agree rooted
      · intro r _ listed
        exact absurd (List.contains_iff_mem.mp listed) (Region.filler_unlisted filler)
      · exact .inl (Region.solid filler)
  rw [State.follow, same]

theorem replay_pull {sc : Scanner} {before : Option Char} {offset : Nat} {cs : List Char}
    {ps : List (Piece × State)} {last : State} (faces : sc.Faces before offset cs)
    (rooted : sc.state.Rooted) (reads : Reads sc.state before cs ps last) (k : Nat) :
    sc.state.replay ((sc.pull k).1.map (·.1)) = (sc.pull k).2.state := by
  induction k generalizing sc offset before cs ps with
  | zero => rfl
  | succ k ih =>
    generalize same : sc.state = s at reads
    cases reads with
    | done =>
      obtain ⟨after, step, kept, _⟩ := Scanner.next_end faces
      simp only [Scanner.pull, step, kept, same]
      rfl
    | @piece _ settled _ _ behind p ps _ some_text settles made later =>
      subst same settles
      obtain ⟨after, step, state, ahead⟩ := Scanner.next_faces faces some_text made
      have still := State.apply_rooted (State.settleAt_rooted rooted before cs) p.kind p.text
      have goes := ih ahead (state ▸ still) (state ▸ later)
      simp only [Scanner.pull, step, List.map_cons]
      rw [State.replay, List.foldl_cons, String.toList_ofList, follow_makes rooted made, ← state]
      exact goes

/-- Replaying the first tokens of a scan leads to the state of the scanner after it has handed them
out, and replaying all of them to its state once nothing more comes. -/
theorem replay_agrees {s : State} (rooted : s.Rooted) (text : String) (start : Nat) :
    (∀ k, ((Scanner.ofText s text start).pull k).1 = (s.scan text start).take k ∧
      s.replay (((s.scan text start).take k).map (·.1)) =
        ((Scanner.ofText s text start).pull k).2.state) ∧
    s.replay ((s.scan text start).map (·.1)) = (Scanner.ofText s text start).drain.2.state := by
  obtain ⟨front, rest, ps, last, _, _, at_start, reads⟩ := ofText_reads rooted text start
  have faces := at_start s
  obtain ⟨final, drained, reached⟩ := Scanner.drain_reads faces reads
  have part : ∀ k, ((Scanner.ofText s text start).pull k).1 = (s.scan text start).take k := by
    intro k
    obtain ⟨after, _, pulled, _⟩ := Scanner.pull_reads faces rooted reads k
    rw [State.scan, drained, pulled, placed_take]
  have states := replay_pull faces rooted reads
  refine ⟨fun k => ⟨part k, ?_⟩, ?_⟩
  · rw [← part k]
    exact states k
  · obtain ⟨after, behind, pulled, _, _, goes⟩ := Scanner.pull_reads faces rooted reads ps.length
    have all := states ps.length
    rw [pulled, List.take_length] at all
    rw [List.drop_length] at goes
    rw [State.scan, drained, reached]
    refine all.trans ?_
    cases goes
    rfl

/-- Behind a length the region of the length is open, and the next note leaves it. -/
theorem replay_agrees_behind_length :
    (State.ofMode .lilypond).Rooted ∧
    (State.ofMode .lilypond).replay (((State.ofMode .lilypond).scan "\x7b c4 d" 0).map (·.1)) =
      (Scanner.ofText (.ofMode .lilypond) "\x7b c4 d" 0).drain.2.state :=
  ⟨mode_rooted .lilypond, (replay_agrees (mode_rooted .lilypond) "\x7b c4 d" 0).2⟩

end ScoreText
