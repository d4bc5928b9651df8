import ScoreText.Proofs.ExtentRules

/-! How far values, notes and lists are read. -/
namespace ScoreText

open Reading Stand

/-- Whether what starts with a token is read apart from its source. -/
def Token.isApart (t : Token) : Bool :=
  match t.kind with
  | .lily k => (plainKind? k).isSome || k == .stringQuotedStart || k == .schemeStart || k.isMarkupStart ||
      k.isSlur || k.isBeam || k == .direction
  | _ => false

/-- What a reader of nested items reads stays in the region of its source. -/
structure Contained (deeper : Deeper) : Prop where
  stays : ∀ form limit rest m u, Leads (Taken limit rest m u) (deeper form u.token) fun _ => In limit rest m
  freely : ∀ limit rest m u, u.token.isApart →
    Leads (Taken limit rest m u) (free (deeper .item u.token)) fun _ => In limit rest m

namespace Reading

variable {deeper : Deeper} {limit : Option Nat} {rest : List ScannedToken} {m : Nat} {u : ScannedToken}
  {source : Source} {id : ItemId}

section Items

variable (contained : Contained deeper)
include contained

theorem readAll_leads : Leads (In limit rest m) (readAll deeper) fun _ s => s.In limit rest m ∧ s.Ended rest := by
  refine .bind (.through (fun _ => nextItem_leads) (fun ids => ⟨ids, rfl⟩) fun ids v j _ => ?_) fun ids =>
    .pure fun _ here => here
  exact .bind (contained.stays .item limit rest j v) fun child => .pure fun _ here => here

theorem readOne_leads : Leads (In limit rest m) (readOne deeper) fun _ => In limit rest m := by
  refine .loop fun _ => .nextItem (.pure fun _ here => here.1) fun v j less => ?_
  refine .bind (contained.stays .item limit rest j v) fun child => ?_
  cases child with
  | none => exact .pure fun _ here => here.mono (Nat.le_of_lt less)
  | some c => exact .pure fun _ here => here.mono (Nat.le_of_lt less)

theorem readRegionInto_leads : Leads (Apart rest m u source) (readRegionInto deeper id) fun _ s =>
    s.Done rest m u source ∧ s.Ended rest := by
  refine .bind (.whole_region (readAll_leads contained)) fun out => ?_
  exact .still_bind appendAll_still fun _ => .still addToken_still

theorem readArgumentsInto_leads (count : Nat) :
    Leads (In limit rest m) (readArgumentsInto deeper id count) fun _ => In limit rest m := by
  induction count with
  | zero => exact .pure fun _ here => here
  | succ count ih =>
    refine .bind (readOne_leads contained) fun child => ?_
    cases child with
    | none => exact .pure fun _ here => here
    | some c => exact .still_bind append_still fun _ => ih

end Items

section Values

theorem opens_of_opensBlock {t : Token} (opens : opensBlock t) : t.opens := by
  unfold opensBlock at opens
  rcases Bool.or_eq_true_iff.mp opens with kind | kind
  · simp [Token.opens, Token.opensLily, eq_of_beq kind]
  · simp [Token.opens, Token.opensLily, eq_of_beq kind]

theorem readString_leads (t : Token) : Leads (Apart rest m u source) (readString t) fun _ s =>
    s.Done rest m u source ∧ s.Ended rest := by
  refine .still_bind addFor_still fun id => .bind (.whole_region ?_) fun out => ?_
  · exact .through (fun _ => next_leads) (fun ts => ⟨ts, rfl⟩) fun ts v j _ => .pure fun _ taken => taken.in
  · exact .still_bind setTokens_still fun _ => .pure fun _ done => done

variable (contained : Contained deeper)
include contained

theorem readPart_leads : Leads (In limit rest m) (readPart deeper) fun _ => In limit rest m := by
  refine .loop fun _ => .next (.pure fun _ here => here.1) fun v j less => ?_
  refine .bind (contained.stays .scheme limit rest j v) fun child => ?_
  cases child with
  | none => exact .pure fun _ here => here.mono (Nat.le_of_lt less)
  | some c => exact .pure fun _ here => here.mono (Nat.le_of_lt less)

theorem readPartsInto_leads : Leads (In limit rest m) (readPartsInto deeper id) fun _ => In limit rest m := by
  refine .loop fun _ => .next (.pure fun _ here => here.1) fun v j less => ?_
  refine .bind (contained.stays .scheme limit rest j v) fun child => ?_
  exact .still_bind appendIf_still fun _ => .pure fun _ here => here.mono (Nat.le_of_lt less)

theorem readQuoting_leads (kind : ItemKind) (t : Token) :
    Leads (Apart rest m u source) (readQuoting deeper kind t) fun _ => Done rest m u source := by
  refine .still_bind addFor_still fun id => .bind (.region (readPart_leads contained)) fun out => ?_
  exact .still_bind appendIf_still fun _ => .pure fun _ done => done

theorem readScheme_leads (t : Token) :
    Leads (Apart rest m u source) (readScheme deeper t) fun _ => Done rest m u source :=
  readQuoting_leads contained .scheme t

/-- A part of a Scheme expression is read in the region that it opens, or it is a single token. -/
theorem readSchemePart_leads :
    Leads (Taken limit rest m u) (readSchemePart deeper u.token) fun _ => In limit rest m := by
  unfold readSchemePart
  split
  · rename_i kind
    refine .enclosed (by simp [Token.opens, kind]) fun _ _ => ?_
    exact .bind (readQuoting_leads contained _ _) fun _ => .pure fun _ done => done
  iterate 2
    rename_i kind
    refine .enclosed (by simp [Token.opens, kind]) fun _ _ => .still_bind addFor_still fun id => ?_
    refine .bind (.region (readPartsInto_leads contained)) fun out => ?_
    exact .still_bind addToken_still fun _ => .pure fun _ done => done
  · rename_i kind
    refine .enclosed (by simp [Token.opens, kind]) fun _ _ => ?_
    exact .bind (readString_leads _) fun _ => .pure fun _ done => done.1
  · rename_i kind
    refine .enclosed (by simp [Token.opens, kind]) fun _ _ => .still_bind addFor_still fun id => ?_
    exact .bind (readRegionInto_leads contained) fun _ => .pure fun _ done => done.1
  · split
    · exact .idle (.bind addFor_still fun _ => .pure _)
    · exact .idle (.pure _)
  · exact .idle (.pure _)

theorem readMarkupsInto_leads (list : Bool) :
    Leads (Apart rest m u source) (readMarkupsInto deeper id list) fun _ s =>
      s.Done rest m u source ∧ s.Ended rest := by
  refine .bind (.whole_region (.through (fun _ => next_leads) (fun _ => ⟨(), rfl⟩) fun _ v j _ => ?_)) fun _ =>
    .pure fun _ done => done
  refine .bind (contained.stays .markup _ rest j v) fun child => ?_
  cases child with
  | some c => exact .still_bind append_still fun _ => .pure fun _ here => here
  | none =>
    dsimp only
    split
    · exact .still_bind setTokens_still fun _ => .pure fun _ here => here
    · exact .pure fun _ here => here

theorem readMarkupScore_leads (t : Token) :
    Leads (Apart rest m u source) (readMarkupScore deeper t) fun _ => Done rest m u source := by
  refine .still_bind addFor_still fun id => .bind (.region (.loop (I := fun _ => In _ rest m) fun _ => ?_)) fun _ =>
    .pure fun _ done => done
  refine .next (.pure fun _ here => here.1) fun v j less => ?_
  dsimp only
  split
  · rename_i opens
    refine .still_bind setTokens_still fun _ => .bind (Q := fun _ => In _ rest j) ?_ fun _ =>
      .pure fun _ here => here.mono (Nat.le_of_lt less)
    exact .enclosed (opens_of_opensBlock opens) fun _ _ => (readRegionInto_leads contained).mono fun _ _ => And.left
  · exact .pure fun _ taken => taken.in.mono (Nat.le_of_lt less)

theorem readMarkup_leads : Leads (Taken limit rest m u) (readMarkup deeper u.token) fun _ => In limit rest m := by
  unfold readMarkup
  split
  · rename_i kind
    refine .enclosed (by simp [Token.opens, Token.opensLily, kind]) fun _ _ => ?_
    exact .bind (readScheme_leads contained _) fun _ => .pure fun _ done => done
  · rename_i kind
    refine .enclosed (by simp [Token.opens, Token.opensLily, kind]) fun _ _ => ?_
    exact .bind (readString_leads _) fun _ => .pure fun _ done => done.1
  · rename_i kind
    refine .enclosed (by simp [Token.opens, Token.opensLily, kind]) fun _ _ => ?_
    exact .bind (readMarkupScore_leads contained _) fun _ => .pure fun _ done => done
  · rename_i kind
    dsimp only
    split
    · rename_i arguments
      refine .enclosed (by simpa [Token.opens, Token.opensLily, kind] using arguments) fun _ _ => ?_
      refine .still_bind addFor_still fun id => ?_
      exact .bind (readMarkupsInto_leads contained false) fun _ => .pure fun _ done => done.1
    · exact .idle (.bind addFor_still fun _ => .pure _)
  · exact .idle (.bind addFor_still fun _ => .pure _)
  · rename_i kind
    refine .enclosed (by simp [Token.opens, Token.opensLily, kind]) fun _ _ => .still_bind addFor_still fun id => ?_
    exact .bind (readMarkupsInto_leads contained true) fun _ => .pure fun _ done => done.1
  · exact .idle (.bind addFor_still fun _ => .pure _)
  · exact .idle (.pure _)

end Values

section Notes

theorem modify_still {duration : Duration} : Still (modify fun r : Reader => { r with duration }) :=
  fun _ => rfl

theorem readDurationTokens_leads (taken : List Token) :
    Leads (In limit rest m) (readDurationTokens taken) fun _ => In limit rest m := by
  refine .loop (I := fun _ => In limit rest m) fun ts => .next (.pure fun _ here => here.1) fun v j less => ?_
  dsimp only
  split
  · split
    · exact .pushBack less (.pure fun _ here => here)
    · exact .pure fun _ taken => taken.in.mono (Nat.le_of_lt less)
  · split
    · exact .pure fun _ taken => taken.in.mono (Nat.le_of_lt less)
    · exact .pushBack less (.pure fun _ here => here)

theorem readDuration_leads (length : Option Token) :
    Leads (In limit rest m) (readDuration id length) fun _ => In limit rest m := by
  refine .bind (readDurationTokens_leads _) fun ts => ?_
  have last : Leads (In limit rest m) (do
      let duration := (← get).duration
      update id fun i => { i with duration := some duration }) fun _ => In limit rest m :=
    .get fun r => .still update_still
  cases ts with
  | nil => exact last
  | cons first others =>
    refine .still_bind addFor_still fun written => .still_bind setTokens_still fun _ => ?_
    refine .still_bind append_still fun _ => ?_
    split
    · exact .still_bind modify_still fun _ => last
    · exact last

theorem readNoteParts_leads (p : NoteParts) :
    Leads (In limit rest m) (readNoteParts p) fun _ => In limit rest m := by
  refine .loop (I := fun _ => In limit rest m) fun p => .next (.pure fun _ here => here.1) fun v j less => ?_
  have stays : ∀ turn : Turn NoteParts, Leads (Taken limit rest j v) (pure turn) fun _ => In limit rest m :=
    fun _ => .pure fun _ taken => taken.in.mono (Nat.le_of_lt less)
  dsimp only
  split
  iterate 4 exact stays _
  split
  · exact stays _
  · exact .pushBack less (.pure fun _ here => here)

theorem addNote_still (t : Token) : Still (addNote t) := by
  refine .get fun r => ?_
  split
  · exact .pure _
  · exact .bind addFor_still fun _ => .pure _

theorem readOwnDuration_leads (inPitchCommand : Bool) :
    Leads (In limit rest m) (readOwnDuration inPitchCommand id) fun _ => In limit rest m := by
  refine .get fun r => ?_
  split
  · exact .bind (readDuration_leads none) fun _ => .pure fun _ here => here
  · exact .pure fun _ here => here

theorem readMusicItem_leads (k : Lily.Kind) (t : Token) :
    Leads (In limit rest m) (readMusicItem k t) fun _ => In limit rest m := by
  refine .get fun r => ?_
  dsimp only
  split
  · refine .still_bind (addNote_still t) fun found => ?_
    cases found with
    | none => exact .pure fun _ here => here
    | some note =>
      refine .bind (readNoteParts_leads _) fun p => .still_bind setDetails_still fun _ => ?_
      exact readOwnDuration_leads _
  iterate 3 exact .still_bind addFor_still fun _ => readOwnDuration_leads _

theorem readUnpitched_leads (t : Token) :
    Leads (In limit rest m) (readUnpitched t) fun _ => In limit rest m :=
  .still_bind add_still fun _ => .bind (readDuration_leads _) fun _ => .pure fun _ here => here

theorem addSpan_still (kind : ItemKind) (t : Token) (starts : Bool) : Still (addSpan kind t starts) :=
  .bind addFor_still fun _ => .bind setDetails_still fun _ => .pure _

theorem readChordSpecifier_leads (t : Token) :
    Leads (Apart rest m u source) (readChordSpecifier t) fun _ => Done rest m u source := by
  refine .still_bind add_still fun id => .still_bind addFor_still fun first => .still_bind append_still fun _ => ?_
  refine .bind (.region (.loop (I := fun _ => In _ rest m) fun _ => ?_)) fun _ => .pure fun _ done => done
  refine .next (.pure fun _ here => here.1) fun v j less => ?_
  have stays : Leads (Taken (some u.depth) rest j v) (pure (Turn.more ())) fun _ => In (some u.depth) rest m :=
    .pure fun _ taken => taken.in.mono (Nat.le_of_lt less)
  dsimp only
  split
  · exact .still_bind addFor_still fun _ => .still_bind append_still fun _ => stays
  · split
    · refine .still_bind (addNote_still _) fun note => ?_
      split
      · exact .still_bind setDetails_still fun _ => .still_bind append_still fun _ => stays
      · exact stays
    · exact stays

theorem readTremolo_leads (t : Token) (opens : u.token.opens) :
    Leads (Taken limit rest m u) (readTremolo t) fun _ => In limit rest m := by
  refine .still_bind addFor_still fun id => .bind (free_next_leads opens) (.got ?_ fun v j less => ?_)
  · exact .pure fun _ here => here.1
  · dsimp only
    split
    · refine .still_bind addFor_still fun written => .still_bind append_still fun _ => ?_
      exact .still_bind update_still fun _ => .pure fun _ taken => taken.in.mono (Nat.le_of_lt less)
    · exact .pushBack less (.pure fun _ here => here)

end Notes

section Lists

theorem chord_still (inChord : Bool) : Still (modify fun r : Reader => { r with inChord }) :=
  fun _ => rfl

theorem apart_of_followsDirection {t : Token} (follows : followsDirection t) (tame : t.isTame) : t.isApart := by
  unfold followsDirection at follows
  split at follows
  · rename_i k kind
    simp only [Token.isApart, kind]
    cases k
    case command =>
      have text : t.text = "\\tag" := by simpa [Lily.Kind.isMarkupStart, Lily.Kind.isArticulation,
        Lily.Kind.isSlur, Lily.Kind.isBeam] using follows
      simp [Token.isTame, kind, text] at tame
    case tweak => simp [Token.isTame, kind] at tame
    all_goals first | rfl | cases follows
  · cases follows

theorem readDirection_blind (t : Token) : Blind (readDirection deeper t) := by
  refine .bind (fun _ _ => rfl) fun id => .bind (fun _ _ => rfl) fun _ => .bind (.free _) fun found => ?_
  cases found with
  | none => exact .pure _
  | some v =>
    dsimp only
    split
    · refine .bind (.free _) fun child => .bind ?_ fun _ => .pure _
      cases child with
      | none => exact .pure _
      | some c => exact fun _ _ => rfl
    · exact .bind .pushBack fun _ => .pure _

theorem addList_still {t : Token} {simultaneous : Bool} {bracket : Option Token} :
    Still (addList t simultaneous bracket) :=
  .bind addFor_still fun _ => .bind setDetails_still fun _ => .bind addToken_still fun _ => .pure _

theorem opens_of_opensList {t : Token} (list : opensList t.kind) : t.opens := by
  unfold opensList at list
  split at list
  iterate 4
    rename_i kind
    simp [Token.opens, Token.opensLily, kind]
  cases list

/-- Where a list starts its bracket has just been taken. -/
theorem startList_leads : Leads (Taken limit rest m u) (startList u.token) fun found s =>
    s.In limit rest m ∧ ∀ id, found = some (id, true) → ∃ v, v.token.opens ∧ s.Taken limit rest m v := by
  unfold startList
  split
  · rename_i list
    refine .still_bind addList_still fun id => .pure fun _ taken => ⟨taken.in, fun _ _ => ?_⟩
    exact ⟨u, opens_of_opensList list, taken⟩
  · split
    · rename_i command
      have opens : u.token.opens := by simp [Token.opens, Token.opensLily, eq_of_beq command]
      have looks : u.token.looksAhead := by simp [Token.looksAhead, command]
      refine .bind (free_nextItem_leads opens looks) (.got ?_ fun v j less => ?_)
      · exact .pure fun _ here => ⟨here.1, nofun⟩
      · dsimp only
        split
        · rename_i list
          refine .still_bind addList_still fun id => .pure fun _ taken => ?_
          have taken := taken.mono (Nat.le_of_lt less)
          exact ⟨taken.in, fun _ _ => ⟨v, opens_of_opensList list, taken⟩⟩
        · refine .pushBack less (.still_bind addFor_still fun _ => .pure fun _ here => ⟨here, ?_⟩)
          simp
    · exact .pure fun _ taken => ⟨taken.in, nofun⟩

variable (contained : Contained deeper)
include contained

theorem readRegion_leads (opens : u.token.opens) :
    Leads (Taken limit rest m u) (readRegionInto deeper id) fun _ => In limit rest m :=
  .enclosed opens fun _ _ => (readRegionInto_leads contained).mono fun _ _ => And.left

theorem readList_leads : Leads (Taken limit rest m u) (readList deeper u.token) fun _ => In limit rest m := by
  refine .bind startList_leads fun found => ?_
  cases found with
  | none => exact .pure fun _ here => here.1
  | some list =>
    obtain ⟨id, follows⟩ := list
    cases follows with
    | false => exact .pure fun _ here => here.1
    | true =>
      intro r here
      obtain ⟨v, opens, taken⟩ := here.2 id rfl
      exact Leads.bind (readRegion_leads contained opens) (fun _ => .pure fun _ done => done) r taken

theorem readChord_leads (opens : u.token.opens) :
    Leads (Taken limit rest m u) (readChord deeper u.token) fun _ => In limit rest m := by
  refine .get fun r => ?_
  split
  · exact .pure fun _ taken => taken.in
  · refine .still_bind (chord_still true) fun _ => .still_bind addFor_still fun id => ?_
    refine .bind (readRegion_leads contained opens) fun _ => .still_bind (chord_still false) fun _ => ?_
    exact .bind (readDuration_leads none) fun _ => .pure fun _ here => here

theorem readDirection_leads (opens : u.token.opens) (looks : u.token.looksAhead) :
    Leads (Taken limit rest m u) (readDirection deeper u.token) fun _ => In limit rest m := by
  refine .still_bind addFor_still fun id => .still_bind setDetails_still fun _ => ?_
  refine .bind (free_nextItem_leads opens looks) (.got (.pure fun _ here => here.1) fun v j less => ?_)
  dsimp only
  split
  · rename_i follows
    refine .tame fun tame => ?_
    refine .bind (contained.freely limit rest j v (apart_of_followsDirection follows tame)) fun child => ?_
    exact .still_bind appendIf_still fun _ => .pure fun _ here => here.mono (Nat.le_of_lt less)
  · exact .pushBack less (.pure fun _ here => here)

end Lists

end Reading
end ScoreText
