import ScoreText.Proofs.ExtentCommands

/-! How far the items of a score are read. Whatever the limit of the levels, what is read of a calm region stays
in it. -/
namespace ScoreText

open Reading Stand

namespace Reading

variable {deeper : Deeper} {limit : Option Nat} {rest : List ScannedToken} {m : Nat} {u : ScannedToken}
  {source : Source}

section Items

variable (contained : Contained deeper)
include contained

theorem readWholeMarkup_leads (t : Token) : Leads (Apart rest m u source) (readWholeMarkup deeper t) fun _ s =>
    s.Done rest m u source ∧ s.Ended rest :=
  .still_bind addFor_still fun _ => .bind (readMarkupsInto_leads contained false) fun _ => .pure fun _ done => done

theorem readLily_leads {k : Lily.Kind} (kind : u.token.kind = .lily k) :
    Leads (Taken limit rest m u) (readLily deeper k u.token) fun _ => In limit rest m := by
  have wrapped : ∀ {act : Reading ItemId}, Leads (Taken limit rest m u) act (fun _ => In limit rest m) →
      Leads (Taken limit rest m u) (act >>= fun id => pure (some id)) fun _ => In limit rest m :=
    fun leads => .bind leads fun _ => .pure fun _ here => here
  have reads : ∀ {act : Reading ItemId}, Leads (In limit rest m) act (fun _ => In limit rest m) →
      Leads (Taken limit rest m u) act fun _ => In limit rest m :=
    fun leads => leads.before fun _ taken => taken.in
  refine .tame fun tame => ?_
  unfold readLily
  split
  · exact wrapped (.idle addFor_still)
  · exact wrapped (reads (readBlock_leads contained _ _))
  · rename_i found _ _
    unfold inputKind? at found
    split at found
    iterate 4 simp [Token.isTame, kind] at tame
    cases found
  · -- the cases are the kinds in the order of `readLily`; those that are not tame cannot stand here
    split
    · exact wrapped (readScheme_stays contained kind)
    · exact wrapped (readString_stays kind)
    iterate 5 exact .before (readMusicItem_leads _ _) fun _ taken => taken.in
    · exact wrapped (reads (readUnpitched_leads _))
    · exact readChord_leads contained (by simp [Token.opens, Token.opensLily, kind])
    iterate 5 exact readList_leads contained
    · refine wrapped (.enclosed ?_ fun _ _ => readChordSpecifier_leads _)
      simp [Token.opens, Token.opensLily, kind]
    · exact wrapped (readTremolo_leads _ (by simp [Token.opens, Token.opensLily, kind]))
    iterate 5 simp [Token.isTame, kind] at tame
    · refine wrapped (readDirection_leads contained ?_ ?_)
      · simp [Token.opens, Token.opensLily, kind]
      · simp [Token.looksAhead, kind]
    iterate 8 exact wrapped (.idle (addSpan_still _ _ _))
    · exact wrapped (reads (readSet_leads contained _))
    · refine wrapped (.enclosed ?_ fun _ _ => readUnset_leads _)
      simp [Token.opens, Token.opensLily, kind]
    · simp [Token.isTame, kind] at tame
    · refine wrapped (.enclosed ?_ fun _ _ => readRevert_leads contained _)
      simp [Token.opens, Token.opensLily, kind]
    · simp [Token.isTame, kind] at tame
    iterate 3 exact wrapped (readTranslator_leads contained (by simp [Token.opens, Token.opensLily, kind]))
    · exact wrapped (reads (readClef_leads _))
    · refine wrapped (.enclosed ?_ fun _ _ => readTempo_leads contained _)
      simp [Token.opens, Token.opensLily, kind]
    · exact wrapped (reads (readRepeat_leads contained _))
    · simp [Token.isTame, kind] at tame
    iterate 3
      refine wrapped (.enclosed ?_ fun _ _ => (readWholeMarkup_leads contained _).mono fun _ _ => And.left)
      simp [Token.opens, Token.opensLily, kind]
    · split
      · rename_i text
        simp [Token.isTame, kind, eq_of_beq text] at tame
      · exact wrapped (.idle addFor_still)
    iterate 3 exact wrapped (readCommand_leads contained kind (by simp))
    · exact .idle (.pure _)

theorem readItem_leads : Leads (Taken limit rest m u) (readItem deeper u.token) fun _ => In limit rest m := by
  unfold readItem
  split
  · rename_i k kind
    exact readLily_leads contained kind
  · rename_i kind
    refine .bind (.enclosed (by simp [Token.opens, kind]) fun _ _ =>
      (readString_leads _).mono fun _ _ => And.left) fun _ => .pure fun _ here => here
  · exact .idle (.pure _)

theorem readItem_freely (apart : u.token.isApart) :
    Leads (Taken limit rest m u) (free (readItem deeper u.token)) fun _ => In limit rest m := by
  unfold Token.isApart at apart
  split at apart
  · rename_i k kind
    have unfolded : readItem deeper u.token = readLily deeper k u.token := by
      unfold readItem
      rw [kind]
    rw [unfolded]
    have leaf : ∀ {act : Reading ItemId}, Still act →
        Leads (Taken limit rest m u) (free (act >>= fun id => pure (some id))) fun _ => In limit rest m :=
      fun still => .idle (.free (.bind still fun _ => .pure _))
    have region : ∀ {act : Reading ItemId}, u.token.opens →
        (∀ rest source, Leads (Apart rest m u source) act fun _ => Done rest m u source) →
        Leads (Taken limit rest m u) (free (act >>= fun id => pure (some id))) fun _ => In limit rest m :=
      fun opens reads => .enclosed opens fun _ _ =>
        .free_apart (.bind (reads _ _) fun _ => .pure fun _ done => done)
    simp only [Bool.or_eq_true, beq_iff_eq] at apart
    -- what is read apart is a leaf, opens a region of its own, or looks ahead by itself
    rcases apart with (((((plain | rfl) | rfl) | markup) | slur) | beam) | rfl
    · obtain ⟨item, found⟩ := Option.isSome_iff_exists.mp plain
      unfold readLily
      rw [found]
      exact leaf addFor_still
    · refine region ?_ fun _ _ => (readString_leads _).mono fun _ _ => And.left
      simp [Token.opens, Token.opensLily, kind]
    · refine region ?_ fun _ _ => readScheme_leads contained _
      simp [Token.opens, Token.opensLily, kind]
    · unfold Lily.Kind.isMarkupStart at markup
      split at markup
      iterate 3
        refine region ?_ fun _ _ => (readWholeMarkup_leads contained _).mono fun _ _ => And.left
        simp [Token.opens, Token.opensLily, kind]
      cases markup
    · unfold Lily.Kind.isSlur at slur
      split at slur
      iterate 4 exact leaf (addSpan_still _ _ _)
      · exact leaf addFor_still
      · cases slur
    · unfold Lily.Kind.isBeam at beam
      split at beam
      iterate 4 exact leaf (addSpan_still _ _ _)
      cases beam
    · have blind : Blind (readLily deeper .direction u.token) :=
        .bind (readDirection_blind u.token) fun _ => .pure _
      rw [blind.free_eq]
      exact readLily_leads contained kind
  · cases apart

end Items

/-- Whatever the limit of the levels, what is read of a calm region stays in it. -/
theorem read_contained (n : Nat) : Contained (read n) := by
  induction n with
  | zero => exact ⟨fun _ _ _ _ _ => .idle (.pure _), fun _ _ _ _ _ => .idle (.free (.pure _))⟩
  | succ n ih =>
    constructor
    · intro form limit rest m u
      cases form with
      | item => exact readItem_leads ih
      | markup => exact readMarkup_leads ih
      | scheme => exact readSchemePart_leads ih
    · exact fun limit rest m u apart => readItem_freely ih apart

end Reading
end ScoreText
