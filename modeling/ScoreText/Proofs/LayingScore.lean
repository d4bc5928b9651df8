import ScoreText.Music.Reading.Score
import ScoreText.Proofs.LayingCommands

/-! Lyrics, and whatever else a token is read as, are laid out in order. So is a whole score. -/
namespace ScoreText

open Reader

variable {whole : Prop} {n lo m : Nat} {fills : Option ItemId} {id : ItemId} {o r r' : Reader}
  {t : Token} {deeper : Deeper}

namespace Reading

section Lyrics

/-- A word of lyrics that is not left out has some text. -/
theorem free_lyric_lays (deep : Deep whole n deeper) (spare : Spare whole n t r)
    (room : whole → r.left < n) (starts : startsLyricMarkup t) :
    Lays whole n none t.start r r (free (deeper .item t)) fun found r' =>
      Offered whole t r found r' ∧ (whole → found.isSome) := by
  have offers := free_deeper_lays deep .item spare room
  refine ⟨offers.moved, offers.answer, fun all => ?_⟩
  rw [free, run_within]
  exact deep.text all t _ starts (room all)

theorem free_duration_lays (moved : Moved whole n (some id) lo o r) :
    Lays whole n (some id) lo o r (free (readDuration id none)) Anything := by
  have inner := readDuration_none_lays (moved.switch .free rfl)
  exact (free_lays moved inner (Nat.le_refl _) fun _ => .inl).mono fun _ _ _ _ => trivial

/-- An item of lyrics. Where none starts, the token may still start something else. -/
def LyricRead (whole : Prop) (n : Nat) (t : Token) (r : Reader) (found : Option ItemId) (r' : Reader) :
    Prop :=
  match found with
  | none => Spare whole n t r' ∧ r'.tree = r.tree ∧ r'.left ≤ r.left
  | some id => Single whole t.start r.tree r'.tree r'.reach id

/-- A word of lyrics has its text as a token or as a child. -/
theorem readLyricText_lays (deep : Deep whole n deeper) (spare : Spare whole n t r)
    (room : whole → r.left < n) (starts : startsLyricMarkup t) :
    Lays whole n none t.start r r (do
      let id ← add .lyricText t.start none
      appendIf id (← free (deeper .item t))
      free (readDuration id none)
      return some id) (LyricRead whole n t r) := by
  refine .bind (add_lays spare .lyricText fun _ => nofun) fun id o _ ⟨born, spare⟩ => ?_
  have spare : Spare whole n t o := spare rfl
  have room : whole → o.left < n := fun all => Nat.lt_of_le_of_lt born.moved.went.left_le (room all)
  refine .bind (free_lyric_lays deep spare room starts) fun child r1 step ⟨offered, text⟩ => ?_
  refine .bind (appendIf_lays born.here spare.gap step offered.row) fun _ r2 moved2 same => ?_
  have full : whole → r2.tree.children id ≠ [] := by
    intro all
    obtain ⟨c, rfl⟩ := Option.isSome_iff_exists.mp (text all)
    have inside := (step.went.grown.opened (born.here.went.filling id rfl).opened).inside
    rw [same]
    show (r1.tree.append id c).children id ≠ []
    rw [Tree.children_append _ inside, if_pos rfl]
    exact List.append_ne_nil_of_right_ne_nil _ (List.cons_ne_nil _ _)
  refine .bind (.after moved2 (free_duration_lays moved2.again)) fun _ r3 moved3 ⟨later, _⟩ => ?_
  refine .pure (born.step moved3) (born.single moved3 (.inr ?_))
  by_cases all : whole
  · exact .inl (later.went.grown.fuller id (moved2.went.filling id rfl).opened.inside (full all))
  · exact .inr ⟨all, born.kind_eq moved3⟩

theorem readLyric_lays (deep : Deep whole n deeper) (levels : Nat) (spare : Spare whole n t r)
    (room : whole → r.left < n) :
    Lays whole n none t.start r r (readLyric deeper levels t) (LyricRead whole n t r) := by
  induction levels generalizing r t with
  | zero =>
    have again : Spare whole n t r.stall := ⟨spare.start.stall.stable, spare.laid, spare.some_text, spare.stop⟩
    exact .bind (modify_lays spare.start.stall) fun _ _ moved same => .pure moved (by
      subst same
      exact ⟨again, rfl, Nat.le_refl r.left⟩)
  | succ levels ih =>
    unfold readLyric
    split
    · rename_i starts
      exact readLyricText_lays deep spare room starts
    · split
      · have own : ∀ s ∈ some t, s = t := fun _ same => (Option.mem_some_iff.mp same).symm
        refine .bind (add_lays spare .lyricText own) fun id o _ ⟨born, _⟩ => ?_
        refine .bind (free_duration_lays born.here) fun _ r1 moved _ => ?_
        exact .pure (born.step moved) (born.single moved (born.occupied moved))
      · split
        · exact .bind (addFor_gives .lyricItem t r spare) fun _ _ moved single => .pure moved single
        · refine .bind (startList_lays spare) fun found r1 moved1 begun => ?_
          cases found with
          | none => exact .pure moved1 ⟨begun.1, begun.2, moved1.went.left_le⟩
          | some list =>
            obtain ⟨kind, o, born, moved⟩ := begun
            have done : ∀ {r2 : Reader}, Moved whole n (some list.1) t.start o r2 →
                Lays whole n none t.start r r2 (pure (some list.1)) (LyricRead whole n t r) :=
              fun moved => .pure (born.step moved) (born.single moved (born.occupied moved))
            dsimp only
            split
            · refine .bind (bounded_ended_lays moved (P := Anything) fun r0 _ here => ?_)
                fun out r2 moved2 ⟨_, within⟩ => ?_
              · refine .loop_ended here (I := fun _ _ => True) trivial fun _ r2 moved2 _ => ?_
                refine .bind (nextItem_lays moved2) fun found r3 moved3 taken => ?_
                cases found with
                | none => exact .pure moved3 ⟨trivial, taken.1⟩
                | some s =>
                  have taken : Picked whole n _ _ _ _ s r3 := taken
                  -- a list within a list takes one level less; a word that is left out may still be read as
                  -- another item
                  refine .bind (ih taken.spare taken.room) fun child r4 step read => ?_
                  cases child with
                  | some child =>
                    refine .bind (append_lays taken.moved taken.gap step read.toFound)
                      fun _ r5 moved5 same => .pure moved5 ⟨trivial, ?_⟩
                    subst same
                    exact Nat.lt_of_le_of_lt step.went.left_le taken.fewer
                  | none =>
                    obtain ⟨spare, tree, left⟩ := read
                    refine .bind (free_deeper_lays deep .item spare fun all =>
                      Nat.lt_of_le_of_lt left (taken.room all)) fun child r5 step' offered => ?_
                    have step := step.trans step' (Nat.le_refl _) fun _ => nofun
                    have offered : Offered whole s r3 child r5 := ⟨tree ▸ offered.row, offered.unheld⟩
                    refine .bind (appendTaken_lays taken step offered) fun _ r6 moved6 same =>
                      .pure moved6 ⟨trivial, ?_⟩
                    rw [same]
                    exact Nat.lt_of_le_of_lt step.went.left_le taken.fewer
              · exact .bind (addToken_lays moved2 within) fun _ _ moved _ => done moved
            · exact done moved

theorem readLyricOrItem_lays (deep : Deep whole n deeper) (spare : Spare whole n t r)
    (room : whole → r.left < n) :
    Lays whole n none t.start r r (readLyricOrItem deeper t) fun found r' =>
      Tree.Row whole t.start r.tree r'.tree r'.reach found.toList := by
  refine .get (.bind (readLyric_lays deep _ spare room) fun found r1 moved1 read => ?_)
  cases found with
  | some id => exact .pure moved1 (Single.toFound read).row
  | none =>
    obtain ⟨spare, tree, left⟩ := read
    have offers := free_deeper_lays deep .item spare fun all => Nat.lt_of_le_of_lt left (room all)
    exact ⟨moved1.trans offers.moved (Nat.le_refl _) fun _ => nofun, tree ▸ offers.answer.row⟩

theorem readLyricContext_lays (deep : Deep whole n deeper) (moved : Moved whole n fills lo o r) :
    Lays whole n fills lo o r (readLyricContext deeper) fun a r' => Part whole lo o.tree r' a := by
  refine .bind (nextItem_lays moved) fun found r1 moved1 taken => ?_
  cases found with
  | none => exact .pure moved1 .none
  | some s =>
    have taken : Picked whole n _ _ _ _ s r1 := taken
    dsimp only
    split
    · exact .pure moved1 taken.part
    · split
      · rename_i starts
        refine .bind (free_deeper_lays deep .item taken.spare taken.room) fun found r2 step offered => ?_
        have now := taken.moved.on taken.gap step
        cases found with
        | none => exact .pure now .none
        | some c =>
          have single : Single whole s.start r1.tree r2.tree r2.reach c :=
            ⟨offered.row.found, offered.unheld starts c rfl⟩
          exact .pure now (single.since taken.low taken.moved.went.grown.larger).part
      · exact .bind (pushBack_lays taken) fun _ _ moved _ => .pure moved .none

theorem bounded_item_lays {k : Option Token → Reading Unit} (moved : Moved whole n (some id) lo o r)
    (ended : k none = pure ()) (item : ∀ r0 r' s, Picked whole n (some id) lo r0 r0 s r' →
      Lays whole n (some id) lo r0 r' (k (some s)) Anything) :
    Lays whole n (some id) lo o r (bounded (nextItem >>= k) >>= fun _ => pure id) fun a _ => a = id := by
  refine .bind (bounded_lays moved (P := Anything) fun r0 _ here => ?_) fun _ _ moved _ => .pure moved rfl
  refine .bind (nextItem_lays here) fun found r' moved' taken => ?_
  cases found with
  | none =>
    rw [ended]
    exact .pure moved' trivial
  | some s => exact item r0 r' s taken

theorem readLyricMode_gives (deep : Deep whole n deeper) (t : Token) :
    Gives whole n t (readLyricMode deeper t) := by
  refine .addFor fun id o here => ?_
  have read : ∀ r0 r' s, Picked whole n (some id) t.start r0 r0 s r' →
      Lays whole n (some id) t.start r0 r' (readLyricOrItem deeper s >>= appendIf id) Anything := by
    intro r0 r' s taken
    refine .bind (readLyricOrItem_lays deep taken.spare taken.room) fun child r2 step row => ?_
    exact (appendIf_lays taken.moved taken.gap step row).mono fun _ _ _ _ => trivial
  dsimp only
  split
  · refine .bind (readLyricContext_lays deep here) fun contextId r1 moved1 part => ?_
    refine .bind (setDetails_lays moved1 (fun s member => ?_) fun c member => ?_) fun _ _ moved _ =>
      bounded_item_lays moved rfl read
    · obtain ⟨a, listed, mark⟩ := List.mem_filterMap.mp member
      simp only [List.mem_cons, List.not_mem_nil, or_false] at listed
      rcases listed with rfl | rfl
      · cases mark
      · exact part.mark mark
    · exact part.single (Option.mem_toList.mp member)
  · exact bounded_item_lays here rfl read

end Lyrics

section Item

theorem readInput_gives (deep : Deep whole n deeper) (kind : ItemKind) (t : Token) :
    Gives whole n t (readInput deeper kind t) :=
  .addFor fun _ _ here => free_readInto_lays deep here fun _ moved => .pure moved rfl

theorem readWholeMarkup_gives (deep : Deep whole n deeper) (t : Token) :
    Gives whole n t (readWholeMarkup deeper t) :=
  .addFor fun _ _ here =>
    .bind (readMarkupsInto_lays deep here false) fun _ _ moved _ => .pure moved rfl

/-- What is not a string and not a Scheme expression may come out of an assignment that was given up. -/
theorem offers_of_row {act : Reading (Option ItemId)}
    (other : isOne [.stringQuotedStart, .schemeStart] t = false)
    (rows : ∀ r, Spare whole n t r → Lays whole n none t.start r r act fun found r' =>
      Tree.Row whole t.start r.tree r'.tree r'.reach found.toList) : Offers whole n t act :=
  fun r spare => (rows r spare).mono fun _ _ _ row =>
    ⟨row, fun starts => absurd (other.symm.trans starts) Bool.false_ne_true⟩

theorem readLily_offers (deep : Deep whole n deeper) {k : Lily.Kind} (kind : t.kind = .lily k) :
    Offers whole n t (readLily deeper k t) := by
  unfold readLily
  split
  · exact (addFor_gives _ t).wrapped
  · exact (readBlock_gives deep _ t).wrapped
  · exact (readInput_gives deep _ t).wrapped
  · -- only strings and Scheme expressions have to leave their item unheld
    have rows : ∀ {act}, k ≠ .stringQuotedStart → k ≠ .schemeStart → (∀ r, Spare whole n t r →
        Lays whole n none t.start r r act fun found r' =>
          Tree.Row whole t.start r.tree r'.tree r'.reach found.toList) → Offers whole n t act := by
      intro act one other
      refine offers_of_row ?_
      rw [isOne, kind]
      simp [one, other]
    split
    · exact (readScheme_gives deep t).wrapped
    · exact (readString_gives t).wrapped
    iterate 5
      · exact readMusicItem_offers _ t
    · exact (readUnpitched_gives t).wrapped
    · exact readChord_offers deep t
    iterate 5
      · exact readList_offers deep t
    · exact (readChordSpecifier_gives t).wrapped
    · exact (readTremolo_gives t).wrapped
    iterate 2
      · exact rows nofun nofun fun _ spare => (readAssignment_lays deep spare).mono fun _ _ _ read => read.row
    iterate 3
      · exact rows nofun nofun fun _ => readVariable_lays deep
    · exact (readDirection_gives deep t).wrapped
    iterate 8
      · exact (addSpan_gives _ t _).wrapped
    · exact (readSet_gives deep t).wrapped
    · exact (readUnset_gives t).wrapped
    · exact (readOverride_gives deep t).wrapped
    · exact (readRevert_gives deep t).wrapped
    · exact (readTweak_gives deep t).wrapped
    iterate 3
      · exact (readTranslator_gives deep t).wrapped
    · exact (readClef_gives t).wrapped
    · exact (readTempo_gives deep t).wrapped
    · exact (readRepeat_gives deep t).wrapped
    · exact (readLyricMode_gives deep t).wrapped
    iterate 3
      · exact (readWholeMarkup_gives deep t).wrapped
    · split
      · exact (readParts_gives deep t).wrapped
      · exact (addFor_gives .userCommand t).wrapped
    iterate 3
      · exact (readCommand_gives deep _ t).wrapped
    · exact .none

theorem readItem_offers (deep : Deep whole n deeper) (t : Token) : Offers whole n t (readItem deeper t) := by
  unfold readItem
  split
  · rename_i kind
    exact readLily_offers deep kind
  · exact (readString_gives t).wrapped
  · exact .none

theorem wrapped_isSome (act : Reading ItemId) (r : Reader) :
    ((act >>= fun id => pure (some id) : Reading (Option ItemId)).run r).1.isSome :=
  rfl

theorem readItem_text (starts : startsLyricMarkup t) (r : Reader) :
    ((readItem deeper t).run r).1.isSome := by
  obtain ⟨k, kind⟩ : ∃ k, t.kind = .lily k := by
    unfold startsLyricMarkup at starts
    split at starts
    · exact ⟨_, ‹_›⟩
    · cases starts
  rw [startsLyricMarkup, kind, Bool.or_eq_true, beq_iff_eq] at starts
  rw [readItem, kind]
  rcases starts with rfl | markup
  · exact wrapped_isSome (readString t) r
  · cases k <;> first | exact wrapped_isSome (readWholeMarkup deeper t) r | cases markup

end Item

section Levels

theorem levels_lays {α : Type} {act : Reading α} {P : α → Reader → Prop}
    (lays : Lays whole n fills lo o r act P) (more : n ≤ m) : Lays whole m fills lo o r act P := by
  obtain ⟨⟨⟨sound, tokens, index, used, low, grown, filling⟩, source, last⟩, answer⟩ := lays
  have sound : (act.run r).2.Sound whole m :=
    ⟨sound.order, sound.pushed, fun all => Nat.le_trans (sound.room all) more, sound.laid,
      sound.timely, sound.successive⟩
  exact ⟨⟨⟨sound, tokens, index, used, low, grown, filling⟩, source, last⟩, answer⟩

theorem read_deep (whole : Prop) (n : Nat) : Deep whole n (read n) := by
  induction n with
  | zero =>
    exact ⟨fun form t r spare _ => Offers.none r spare, fun _ _ r _ few => absurd few (Nat.not_lt_zero _)⟩
  | succ n ih =>
    refine ⟨fun form t r spare room => ?_, fun all t r starts _ => readItem_text starts r⟩
    have sound := spare.stable.toSound
    have spare : Spare whole n t r := ⟨⟨⟨sound.order, sound.pushed, fun all =>
      Nat.le_of_lt_succ (room all), sound.laid, sound.timely, sound.successive⟩,
      spare.stable.source⟩,
      spare.laid, spare.some_text, spare.stop⟩
    refine levels_lays ?_ (Nat.le_succ n)
    cases form with
    | item => exact readItem_offers ih t r spare
    | markup => exact readMarkup_offers ih t r spare
    | scheme => exact readSchemePart_offers ih t r spare

end Levels

end Reading

end ScoreText
