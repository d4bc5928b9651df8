import ScoreText.Lexer.State

/-! What settling does to the open regions, and what filler does. A state is rooted if its bottom
region does not yield; settling leaves the bottom of such a state alone and stops at a region that
stays. Filler changes no state, and no region that yields lists a kind of filler. -/
namespace ScoreText

/-- The bottom region does not yield. -/
def State.Rooted (s : State) : Prop :=
  s.bottom.region.yields = false

instance (s : State) : Decidable s.Rooted :=
  inferInstanceAs (Decidable (s.bottom.region.yields = false))

theorem Region.fills {r : Region} (solid : r.yields = false) :
    ∃ k, r.rule.unclaimed = .fill k := by
  simp only [Region.yields, Rule.yields] at solid
  split at solid
  · rename_i k filler
    exact ⟨k, filler⟩
  · cases solid

theorem Region.solid {r : Region} {k : TokenKind} (filler : r.rule.unclaimed = .fill k) :
    r.yields = false := by
  simp only [Region.yields, Rule.yields, filler]

theorem mode_rooted (m : Mode) : (State.ofMode m).Rooted := by
  cases m <;> rfl

/-- A region is not left: it does not yield, or it claims what comes next. -/
def Stays (claims : Region → Bool) (r : Region) : Prop :=
  r.yields = false ∨ claims r = true

namespace State

/-- The frame that settling a list of frames ends with stays. -/
theorem settled_stays {claims : Region → Bool} {frames rest : List Frame} {f : Frame}
    (h : settleFrames claims frames = f :: rest) : Stays claims f.region := by
  induction frames with
  | nil => cases h
  | cons g frames ih =>
    simp only [settleFrames] at h
    split at h
    · rename_i filler
      cases h
      exact .inl (Region.solid filler)
    · split at h
      · rename_i hit
        cases h
        exact .inr hit
      · exact ih h
    · split at h
      · rename_i hit
        cases h
        exact .inr hit
      · split at h
        · rename_i hit
          cases h
          simpa [Stays, Frame.fresh] using hit
        · exact ih h

theorem settleFrames_of_stays {claims : Region → Bool} {f : Frame} (rest : List Frame)
    (stays : Stays claims f.region) : settleFrames claims (f :: rest) = f :: rest := by
  simp only [settleFrames]
  rcases stays with solid | hit
  · obtain ⟨k, filler⟩ := Region.fills solid
    rw [filler]
  · split <;> simp [hit]

/-- Two ways to claim settle alike if the second claims no more than the first and claims the
region at which the first one stops. -/
theorem settleFrames_agree {claims others : Region → Bool} {frames : List Frame}
    (fewer : ∀ r, r.yields = true → others r = true → claims r = true)
    (stops : ∀ f rest, settleFrames claims frames = f :: rest → Stays others f.region) :
    settleFrames others frames = settleFrames claims frames := by
  induction frames with
  | nil => rfl
  | cons f frames ih =>
    by_cases stays : Stays claims f.region
    · have same := settleFrames_of_stays frames stays
      rw [same, settleFrames_of_stays frames (stops f frames same)]
    · have leaves : f.region.yields = true ∧ claims f.region = false := by
        simpa [Stays] using stays
      -- a region that leaves for the one way leaves for the other, which claims no more
      have refused : others f.region = false := by
        cases claimed : others f.region with
        | false => rfl
        | true => exact absurd (fewer _ leaves.1 claimed) (by simp [leaves.2])
      simp only [settleFrames, leaves.2, refused] at stops ⊢
      split
      · rename_i filler
        exact absurd (Region.solid filler) (by simp [leaves.1])
      · rename_i rule
        simp only [rule] at stops
        exact ih stops
      · rename_i r rule
        simp only [rule] at stops
        by_cases replaced : (!r.yields || claims r) = true
        · have open_ := stops (.fresh r) frames (by simp [replaced])
          have other : (!r.yields || others r) = true := by simpa [Stays, Frame.fresh] using open_
          simp [replaced, other]
        · have other : ¬ (!r.yields || others r) = true := by
            intro claimed
            apply replaced
            cases yields : r.yields with
            | false => rfl
            | true => simpa [yields] using fewer r yields (by simpa [yields] using claimed)
          simp only [replaced, other]
          exact ih fun f rest h => stops f rest (by simpa [replaced] using h)

theorem settle_rooted {s : State} (rooted : s.Rooted) (claims : Region → Bool) :
    s.settle claims = ⟨settleFrames claims s.inner, s.bottom⟩ := by
  obtain ⟨k, filler⟩ := Region.fills rooted
  unfold settle
  split
  · rename_i none
    simp only [settleRoot, filler, none]
  · rename_i f rest some
    rw [some]

theorem settle_keeps_root {s : State} (rooted : s.Rooted) (claims : Region → Bool) :
    (s.settle claims).Rooted := by
  rw [settle_rooted rooted]
  exact rooted

theorem settle_stays {s : State} (rooted : s.Rooted) (claims : Region → Bool) :
    Stays claims (s.settle claims).top.region := by
  rw [settle_rooted rooted]
  cases frames : settleFrames claims s.inner with
  | nil => exact .inl rooted
  | cons f rest => exact settled_stays frames

theorem settle_of_stays {s : State} {claims : Region → Bool} (stays : Stays claims s.top.region) :
    s.settle claims = s := by
  obtain ⟨inner, bottom⟩ := s
  cases inner with
  | nil =>
    have stays : Stays claims bottom.region := stays
    have same : settleRoot claims bottom = bottom := by
      unfold settleRoot
      split
      · rename_i replaces
        rcases stays with solid | claimed
        · simp [Region.yields, Rule.yields, replaces] at solid
        · rw [if_pos claimed]
      · rfl
    simp only [settle, settleFrames, same]
  | cons f rest =>
    have stays : Stays claims f.region := stays
    simp only [settle, settleFrames_of_stays rest stays]

theorem settle_agree {s : State} (rooted : s.Rooted) {claims others : Region → Bool}
    (fewer : ∀ r, r.yields = true → others r = true → claims r = true)
    (stops : Stays others (s.settle claims).top.region) :
    s.settle others = s.settle claims := by
  rw [settle_rooted rooted] at stops
  rw [settle_rooted rooted, settle_rooted rooted, settleFrames_agree fewer]
  intro f rest same
  rw [same] at stops
  exact stops

end State

/-- No kind of filler has an action of its own, and the region that it stands in ignores it. -/
theorem Region.ignores_filler {r : Region} {k : TokenKind} (filler : r.rule.unclaimed = .fill k)
    (arguments : Nat) (text : List Char) :
    k.action? text = none ∧ r.react arguments k text = .stay := by
  cases r with
  | lily r => cases r <;> cases filler <;> exact ⟨rfl, rfl⟩
  | scheme r => cases r <;> cases filler <;> exact ⟨rfl, rfl⟩
  | html r => cases r <;> cases filler <;> exact ⟨rfl, rfl⟩
  | latex r => cases r <;> cases filler <;> exact ⟨rfl, rfl⟩
  | texinfo r => cases r <;> cases filler <;> exact ⟨rfl, rfl⟩
  | docBook r => cases r <;> cases filler <;> exact ⟨rfl, rfl⟩

theorem State.apply_filler {s : State} {k : TokenKind}
    (filler : s.top.region.rule.unclaimed = .fill k) (text : List Char) : s.apply k text = s := by
  have ignored := Region.ignores_filler filler s.top.arguments text
  simp only [State.apply, State.action, ignored.1, ignored.2, Option.getD_none, State.perform]

theorem Lily.action_no_replace {k : Lily.Kind} {text : List Char} {r : ScoreText.Region} :
    k.action? text ≠ some (.replace r) := by
  intro h
  cases k with
  | markupCommand =>
    simp only [Lily.Kind.action?] at h
    split at h <;> cases h
  | _ => cases h

/-- A kind that replaces the region on top puts one in its place that does not yield. -/
theorem TokenKind.replace_solid {k : TokenKind} {text : List Char} {r : Region}
    (h : k.action? text = some (.replace r)) : r.yields = false := by
  cases k with
  | unparsed | space | error => cases h
  | lily k => exact absurd h Lily.action_no_replace
  | scheme k => cases k <;> cases h
  | html k => cases k <;> cases h <;> rfl
  | latex k => cases k <;> cases h <;> rfl
  | texinfo k => cases k <;> cases h <;> rfl
  | docBook k =>
    cases k <;> cases h
    rfl

/-- Only regions that yield are replaced at a token whose kind has no action of its own. -/
theorem Region.react_replace {r next : Region} {arguments : Nat} {k : TokenKind} {text : List Char}
    (h : r.react arguments k text = .replace next) : r.yields = true := by
  cases r with
  | lily r =>
    cases solid : Region.yields (.lily r) with
    | true => rfl
    | false =>
      exfalso
      revert h
      cases r <;> cases solid <;> simp only [Region.react, Lily.Region.react, Lily.Region.opened?] <;>
        (repeat' split) <;> intro h <;> cases h
  | scheme r | html r | texinfo r => cases h
  | latex r =>
    simp only [Region.react, Latex.Region.react] at h
    split at h <;> cases h
  | docBook r =>
    simp only [Region.react, DocBook.Region.react] at h
    split at h <;> cases h

namespace State

theorem setTop_rooted {s : State} {f : Frame} (rooted : s.Rooted)
    (solid : s.inner = [] → f.region.yields = false) : (s.setTop f).Rooted := by
  unfold setTop
  split
  · rename_i alone
    exact solid alone
  · exact rooted

/-- A token leaves the bottom of a rooted state alone, or puts a region there that does not
yield. -/
theorem apply_rooted {s : State} (rooted : s.Rooted) (k : TokenKind) (text : List Char) :
    (s.apply k text).Rooted := by
  cases action : s.action k text with
  | replace r =>
    simp only [apply, action, perform]
    apply setTop_rooted rooted
    intro alone
    simp only [State.action, top, alone, List.headD_nil] at action
    cases own : k.action? text with
    | some a =>
      rw [own] at action
      cases action
      exact TokenKind.replace_solid own
    | none =>
      rw [own] at action
      have yields := Region.react_replace action
      rw [rooted] at yields
      cases yields
  | spend =>
    simp only [apply, action, perform]
    apply setTop_rooted rooted
    intro alone
    simp only [top, alone, List.headD_nil]
    exact rooted
  | _ =>
    simp only [apply, action, perform]
    exact rooted

end State
end ScoreText
