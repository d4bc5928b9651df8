import ScoreText.Proofs.Laying

/-! Strings, Scheme expressions and markup are laid out in order. -/
namespace ScoreText

open Reader

namespace Reading

variable {whole : Prop} {n lo m : Nat} {fills : Option ItemId} {id : ItemId} {o r r' : Reader}
  {t : Token} {deeper : Deeper}

theorem modify_lays {f : Reader → Reader} (moved : Moved whole n fills lo o (f r)) :
    Lays whole n fills lo o r (modify f) fun _ r' => r' = f r :=
  ⟨moved, rfl⟩

theorem readString_gives (t : Token) : Gives whole n t (readString t) := by
  refine .addFor fun id o here => ?_
  refine .bind (bounded_lays here (P := fun ts r' => ∀ s ∈ ts, InReach t.start r' s) fun r0 _ here =>
    .loop here (fun _ => nofun) (fun ts r1 moved within => ?_) fun _ r within s member =>
      (within s member).mono (Nat.le_refl r.reach)) fun out r1 moved ⟨_, within⟩ => ?_
  · refine .bind (next_lays moved) fun found r2 moved2 taken => ?_
    have le : r1.reach ≤ r2.reach := Taken.reach_le taken
    have before : ∀ s ∈ ts, InReach t.start r2 s := fun s member => (within s member).mono le
    cases found with
    | none => exact .pure moved2 before
    | some s =>
      refine .pure moved2 fun u member => ?_
      rcases List.mem_append.mp member with member | member
      · exact before u member
      · rw [List.mem_singleton.mp member]
        exact taken.within
  · have within : ∀ s ∈ out.1, InReach t.start r1 s := fun s member =>
      (within s member).mono (Nat.le_refl r1.reach)
    exact .bind (setTokens_lays moved within) fun _ _ moved _ => .pure moved rfl

theorem readPart_lays (deep : Deep whole n deeper) (stable : r.Stable whole n) :
    Lays whole n none r.reach r r (readPart deeper) fun found r' =>
      Tree.Row whole r.reach r.tree r'.tree r'.reach found.toList := by
  refine .loop stable.start .nil fun _ r1 moved _ => ?_
  refine .bind (next_lays moved) fun found r2 moved2 taken => ?_
  cases found with
  | none => exact .pure moved2 .nil
  | some t =>
    refine .bind (deeper_lays deep .scheme taken) fun child r3 step offered => ?_
    have now := taken.moved.on taken.gap step
    cases child with
    | none => exact .pure now .nil
    | some child => exact .pure now (offered.row.since taken.low taken.moved.went.grown.larger)

theorem appendTaken_lays (took : Picked whole n (some id) lo o r t r') {r'' : Reader}
    (step : Moved whole n none t.start r' r'') {child : Option ItemId}
    (offered : Offered whole t r' child r'') :
    Lays whole n (some id) lo o r'' (appendIf id child) fun _ r3 => r3.left = r''.left :=
  (appendIf_lays took.moved took.gap step offered.row).mono fun _ _ _ same => by rw [same]; rfl

theorem readPartsInto_lays (deep : Deep whole n deeper) (moved : Moved whole n (some id) lo o r) :
    Lays whole n (some id) lo o r (readPartsInto deeper id) fun _ r' => r'.source.Finished := by
  refine .loop_ended moved (I := fun _ _ => True) trivial fun _ r1 moved _ => ?_
  refine .bind (next_lays moved) fun found r2 moved2 taken => ?_
  cases found with
  | none => exact .pure moved2 taken.1
  | some t =>
    refine .bind (deeper_lays deep .scheme taken) fun child r3 step offered => ?_
    refine .bind (appendTaken_lays taken step offered) fun _ r4 moved4 same => ?_
    refine .pure moved4 ⟨trivial, ?_⟩
    rw [same]
    exact Nat.lt_of_le_of_lt step.went.left_le taken.fewer

theorem readQuoting_lays (deep : Deep whole n deeper) (kind : ItemKind) (spare : Spare whole n t r) :
    Lays whole n none t.start r r (readQuoting deeper kind t) fun id r' =>
      Single whole t.start r.tree r'.tree r'.reach id ∧ r'.tree.kind id = kind := by
  refine addFor_lays spare fun id o here => ?_
  refine .bind (bounded_lays here.stable.start (P := fun found r' =>
    Tree.Row whole o.reach o.tree r'.tree r'.reach found.toList) fun r0 same here => ?_)
    fun out r1 step ⟨_, row⟩ => ?_
  · subst same
    exact readPart_lays deep here.stable
  · exact .bind (appendIf_lays here here.gap step row) fun _ _ moved _ => .pure moved rfl

theorem readQuoting_gives (deep : Deep whole n deeper) (kind : ItemKind) (t : Token) :
    Gives whole n t (readQuoting deeper kind t) :=
  fun _ spare => (readQuoting_lays deep kind spare).mono fun _ _ _ answer => answer.1

theorem readScheme_gives (deep : Deep whole n deeper) (t : Token) :
    Gives whole n t (readScheme deeper t) :=
  readQuoting_gives deep .scheme t

theorem readSchemePart_offers (deep : Deep whole n deeper) (t : Token) :
    Offers whole n t (readSchemePart deeper t) := by
  unfold readSchemePart
  split
  · exact (readQuoting_gives deep .schemeQuote t).wrapped
  iterate 2
    · refine .addFor fun id o here => ?_
      refine .bind (bounded_ended_lays here (P := Anything) fun r0 _ here =>
        (readPartsInto_lays deep here).mono fun _ _ _ finished => ⟨trivial, finished⟩)
        fun out r1 moved ⟨_, within⟩ => ?_
      exact .bind (addToken_lays moved within) fun _ _ moved _ => .pure moved rfl
  · exact (readString_gives t).wrapped
  · exact .addFor fun id o here =>
      .bind (readRegionInto_lays deep here) fun _ _ moved _ => .pure moved rfl
  · split
    · exact (addFor_gives .schemeItem t).wrapped
    · exact .none
  · exact .none

theorem readMarkupsInto_lays (deep : Deep whole n deeper) (moved : Moved whole n (some id) lo o r)
    (list : Bool) : Lays whole n (some id) lo o r (readMarkupsInto deeper id list) Anything := by
  refine .bind (bounded_lays moved (P := Anything) fun r0 _ here =>
    .loop here trivial fun _ r1 moved _ => ?_) fun _ _ moved _ => .pure moved trivial
  refine .bind (next_lays moved) fun found r2 moved2 taken => ?_
  cases found with
  | none => exact .pure moved2 trivial
  | some t =>
    refine .bind (deeper_lays deep .markup taken) fun child r3 step offered => ?_
    cases child with
    | some child =>
      exact .bind (append_lays taken.moved taken.gap step offered.row.found) fun _ _ moved _ =>
        .pure moved trivial
    | none =>
      have now := taken.moved.on taken.gap step
      dsimp only
      split
      · refine .bind (setTokens_lays now fun s member => ?_) fun _ _ moved _ => .pure moved trivial
        rw [List.mem_singleton.mp member]
        exact taken.within.mono step.went.reach_le
      · exact .bind (.pure now trivial (P := Anything)) fun _ _ moved _ => .pure moved trivial

theorem setToken_lays (took : Picked whole n (some id) lo o r t r') :
    Lays whole n (some id) lo o r' (setTokens id [t]) Anything :=
  setTokens_lays took.moved fun s member => by
    rw [List.mem_singleton.mp member]
    exact took.within

theorem readMarkupScore_gives (deep : Deep whole n deeper) (t : Token) :
    Gives whole n t (readMarkupScore deeper t) := by
  refine .addFor fun id o here => ?_
  refine .bind (bounded_lays here (P := Anything) fun r0 _ here =>
    .loop here trivial fun _ r1 moved _ => ?_) fun _ _ moved _ => .pure moved rfl
  refine .bind (next_lays moved) fun found r2 moved2 taken => ?_
  cases found with
  | none => exact .pure moved2 trivial
  | some t =>
    dsimp only
    split
    · refine .bind (setToken_lays taken) fun _ _ moved _ => ?_
      exact .bind (readRegionInto_lays deep moved) fun _ _ moved _ => .pure moved trivial
    · exact .pure moved2 trivial

theorem readMarkup_offers (deep : Deep whole n deeper) (t : Token) :
    Offers whole n t (readMarkup deeper t) := by
  unfold readMarkup
  split
  · exact (readScheme_gives deep t).wrapped
  · exact (readString_gives t).wrapped
  · exact (readMarkupScore_gives deep t).wrapped
  · refine .addFor fun id o here => ?_
    dsimp only
    split
    · exact .bind (readMarkupsInto_lays deep here false) fun _ _ moved _ => .pure moved rfl
    · exact .pure here rfl
  · exact (addFor_gives .markupUserCommand t).wrapped
  · exact .addFor fun id o here =>
      .bind (readMarkupsInto_lays deep here true) fun _ _ moved _ => .pure moved rfl
  · exact (addFor_gives .markupWord t).wrapped
  · exact .none

end Reading

end ScoreText
