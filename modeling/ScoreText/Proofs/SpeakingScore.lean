import ScoreText.Document.Value
import ScoreText.Proofs.ScoreLayout
import ScoreText.Proofs.SpeakingCommands

/-! The language in effect in lyrics and in a whole score. Each note is as its name says in the language that
was named last in front of it. -/
namespace ScoreText

namespace Reading

open Reader ScoreText.Tree

variable {configured : String} {o : Tree} {n : Nat} {deeper : Deeper}
variable (deep : ∀ o form t, Speaks configured o (deeper form t) (Hands o.size))

section Lyrics

include deep

theorem readLyric_speaks (levels : Nat) (t : Token) :
    Speaks configured o (readLyric deeper levels t) fun found u => ∀ id ∈ found, u.Mute id := by
  have done : ∀ {u : Tree} {id : ItemId}, u.Mute id →
      Speaks configured u (pure (some id) : Reading (Option ItemId)) fun found u => ∀ id ∈ found, u.Mute id :=
    fun mute => .pure fun _ kept _ same => Option.mem_some_iff.mp same ▸ mute.later kept
  induction levels generalizing o t with
  | zero => exact .pass (fun _ => ⟨rfl, rfl⟩) fun _ => .pure fun _ _ _ => nofun
  | succ levels ih =>
    unfold readLyric
    split
    · exact .bind (add_speaks rfl) fun id u _ mute => .into (.free (deep u .item t)) mute.plain fun _ kept =>
        have mute := mute.later kept
        .skip (.free (readDuration_speaks mute.plain none)) fun _ => done mute
    split
    · exact .bind (addFor_speaks rfl) fun id u _ mute => .skip (.free (readDuration_speaks mute.plain none)) fun _ =>
        done mute
    split
    · exact .bind (addFor_speaks rfl) fun id u _ mute => done mute
    refine .bind (startList_speaks t) fun started u _ mute => ?_
    cases started with
    | none => exact .pure fun _ _ _ => nofun
    | some started =>
      have mute := mute started rfl
      dsimp only
      split
      · refine .skip (.bounded (.loop_any fun _ => .pass nextItem_silent fun found => ?_)) fun out =>
          .skip addToken_speaks fun _ => done mute
        cases found with
        | none => exact .pure fun _ _ => trivial
        | some t =>
          -- what is no word of lyrics may be any item, which is loose behind what it puts into itself
          refine .bind (ih t) fun child v kept leaf => ?_
          have plain := mute.plain.later kept
          cases child with
          | some child => exact .skip (append_speaks plain (leaf child rfl).loose) fun _ => .pure fun _ _ => trivial
          | none =>
            exact .into (.free (deep v .item t)) plain fun _ _ => .pure fun _ _ => trivial
      · exact done mute

theorem readLyricOrItem_speaks (t : Token) :
    Speaks configured o (readLyricOrItem deeper t) fun found u => ∀ id ∈ found, u.Loose id := by
  refine .get fun r => .bind (readLyric_speaks deep _ t) fun found u kept mute => ?_
  cases found with
  | some id =>
    exact .pure fun _ further _ same => Option.mem_some_iff.mp same ▸ ((mute id rfl).later further).loose
  | none => exact (Speaks.free (deep u .item t)).mono fun _ _ _ hands => hands.loose

theorem readLyricContext_speaks : Speaks configured o (readLyricContext deeper) Whatever :=
  .pass nextItem_silent fun found => by
    cases found with
    | none => exact .pure fun _ _ => trivial
    | some t =>
      dsimp only
      split
      · exact .pure fun _ _ => trivial
      · split
        · exact .skip (.free (deep o .item t)) fun _ => .pure fun _ _ => trivial
        · exact .pass pushBack_silent fun _ => .pure fun _ _ => trivial

theorem readLyricsInto_speaks {u : Tree} {id : ItemId} (mute : u.Mute id) : Speaks configured u (do
    let _ ← bounded do
      match ← nextItem with
      | none => pure ()
      | some t => appendIf id (← readLyricOrItem deeper t)
    return id) fun id u => u.Mute id := by
  refine .skip (.bounded (P := Whatever) (.pass nextItem_silent fun found => ?_)) fun _ => .pure_mute mute
  cases found with
  | none => exact .pure fun _ _ => trivial
  | some t =>
    exact .bind (readLyricOrItem_speaks deep t) fun _ _ kept loose => appendIf_speaks (mute.plain.later kept) loose

theorem readLyricMode_speaks (t : Token) : Speaks configured o (readLyricMode deeper t) fun id u => u.Mute id := by
  have kind : (if t.text == "\\lyricsto" then ItemKind.lyricsTo else .lyricMode).mute := by split <;> rfl
  refine .bind (addFor_speaks kind) fun id u _ mute => ?_
  dsimp only
  split
  · exact .skip (readLyricContext_speaks deep) fun _ => .skip (setDetails_speaks mute) fun _ =>
      readLyricsInto_speaks deep mute
  · exact readLyricsInto_speaks deep mute

end Lyrics

section Score

include deep

theorem readInput_speaks {kind : ItemKind} (mute : kind.mute) (t : Token) :
    Speaks configured o (readInput deeper kind t) fun id u => u.Mute id :=
  .bind (addFor_speaks mute) fun _ _ _ mute => .into (.free (readOne_speaks deep)) mute.plain fun _ kept =>
    .pure_mute (mute.later kept)

theorem readWholeMarkup_speaks (t : Token) : Speaks configured o (readWholeMarkup deeper t) fun id u => u.Mute id :=
  .bind (addFor_speaks rfl) fun _ _ _ mute => .skip (readMarkupsInto_speaks deep mute.plain false) fun _ =>
    .pure_mute mute

omit deep in
theorem plainKind?_mute {k : Lily.Kind} {kind : ItemKind} (plain : plainKind? k = some kind) : kind.mute := by
  cases k <;> cases plain <;> rfl

omit deep in
theorem blockKind?_mute {k : Lily.Kind} {kind : ItemKind} (block : blockKind? k = some kind) : kind.mute := by
  cases k <;> cases block <;> rfl

omit deep in
theorem inputKind?_mute {k : Lily.Kind} {kind : ItemKind} (input : inputKind? k = some kind) : kind.mute := by
  cases k <;> cases input <;> rfl

theorem readLily_speaks (k : Lily.Kind) (t : Token) : Speaks configured o (readLily deeper k t) (Hands o.size) := by
  unfold readLily
  split
  · exact (addFor_speaks (plainKind?_mute ‹_›)).filled
  · exact (readBlock_speaks deep (blockKind?_mute ‹_›) t).filled
  · exact (readInput_speaks deep (inputKind?_mute ‹_›) t).filled
  · split
    · exact (readQuoting_speaks deep rfl t).filled
    · exact (readString_speaks t).wrapped
    iterate 5 exact readMusicItem_speaks _ t
    · exact (readUnpitched_speaks t).filled
    · exact readChord_speaks deep t
    iterate 5 exact readList_speaks deep t
    · exact (readChordSpecifier_speaks t).filled
    · exact (readTremolo_speaks t).filled
    iterate 2 exact (readAssignment_speaks deep t).mono fun _ _ _ => hands_of_mute
    iterate 3 exact readVariable_speaks deep t
    · exact (readDirection_speaks deep t).filled
    iterate 8 exact (addSpan_speaks rfl t _).filled
    · exact (readSet_speaks deep t).filled
    · exact (readUnset_speaks t).filled
    · exact (readOverride_speaks deep t).filled
    · exact (readRevert_speaks deep t).filled
    · exact (readTweak_speaks deep t).filled
    iterate 3 exact (readTranslator_speaks deep t).filled
    · exact (readClef_speaks t).filled
    · exact (readTempo_speaks deep t).filled
    · exact (readRepeat_speaks deep t).filled
    · exact (readLyricMode_speaks deep t).filled
    iterate 3 exact (readWholeMarkup_speaks deep t).filled
    · split
      · exact (readParts_speaks deep t).filled
      · exact (addFor_speaks rfl).filled
    iterate 3 exact (readCommand_speaks deep _ t).wrapped
    · exact .pure fun _ _ => hands_none _

theorem readItem_speaks (t : Token) : Speaks configured o (readItem deeper t) (Hands o.size) := by
  unfold readItem
  split
  · exact readLily_speaks deep _ t
  · exact (readString_speaks t).wrapped
  · exact .pure fun _ _ => hands_none _

end Score

theorem read_speaks (configured : String) (n : Nat) :
    ∀ o form t, Speaks configured o (read n form t) (Hands o.size) := by
  induction n with
  | zero => exact fun _ _ _ => .pure fun _ _ => hands_none _
  | succ n ih =>
    intro o form t
    cases form with
    | item => exact readItem_speaks ih t
    | markup => exact readMarkup_speaks ih t
    | scheme => exact readSchemePart_speaks ih t

end Reading

namespace Tree

/-- Nothing has been read, so the configured language is in effect. -/
theorem start_voiced (configured : String) : start.Voiced configured configured := by
  have item : ∀ i, start.item i = .single .document 0 none := by
    intro i
    cases i <;> rfl
  have kind : ∀ i, start.kind i = .document := fun i => congrArg Item.kind (item i)
  have bare : ∀ p, start.children p = [] := fun p => congrArg Item.children (item p)
  have unknown : ∀ p, start.knownLanguage? p = none := fun p =>
    knownLanguage?_of_bare (congrArg Item.details (item p))
  refine ⟨fun p c member => ?_, fun p l known => ?_, fun p q m _ member => ?_, fun i note => ?_,
    .configured fun m l => ?_⟩
  · rw [bare] at member
    cases member
  · rw [unknown] at known
    cases known
  · rw [bare] at member
    cases member
  · rw [kind] at note
    cases note
  · rintro ⟨p, known, _⟩
    rw [unknown] at known
    cases known

theorem ofTokens_voiced (tokens : List ScannedToken) (configured : String) (depth : Nat) :
    ∃ language, (ofTokens tokens configured depth).Voiced configured language := by
  have root : start.Mute root := ⟨Nat.one_pos, rfl⟩
  have score : Reading.Speaks configured start (Reading.readScore depth) Reading.Whatever :=
    .bind (Reading.readAll_speaks (Reading.read_speaks configured depth)) fun _ _ kept loose =>
      Reading.appendAll_speaks (root.plain.later kept) loose
  exact ⟨_, (score (.start tokens.toArray configured) (.refl _) (start_voiced configured)).1.voiced⟩

/-- Strings that name languages and notes stand in the order in which they were read. -/
theorem Voiced.sounds_at {t : Tree} {configured language : String} {whole : Prop} {e : Nat}
    (voiced : t.Voiced configured language) (laid : t.Laid whole e) (successive : t.Successive) {i : ItemId}
    {l : String} (note : t.kind i = .note) (leading : (t.item i).token.isSome)
    (inEffect : InEffect t.Switched configured i l) :
    InEffect (fun position l => ∃ m, t.Switched m l ∧ (t.item m).position = position) configured
      (t.item i).position l := by
  have prompt : ∀ a, (a = i ∨ ∃ m, t.Switched a m) → (t.kind a).isPrompt ∧ (t.item a).token.isSome := by
    rintro a (rfl | ⟨l, p, known, names⟩)
    · exact ⟨by rw [note]; rfl, leading⟩
    · obtain ⟨m, _, token, only⟩ := voiced.named p l known
      rw [only a names]
      exact ⟨by rw [← only a names, names.string]; rfl, token⟩
  refine inEffect.renumber (f := fun a => (t.item a).position) fun a b first second lower => ?_
  obtain ⟨s, starts⟩ := Option.isSome_iff_exists.mp (prompt a first).2
  show (t.item a).position < (t.item b).position
  rw [((laid.placed a).leading s starts).1]
  exact successive a b lower (prompt b second).1 s starts

end Tree

namespace Document

variable {doc : Document} {p : ItemId} {l : String}

/-- An item switches to a language that is known. -/
structure SwitchesTo (doc : Document) (p : ItemId) (l : String) : Prop where
  language : doc.tree.kind p = .language
  name : doc.switchesTo? p = some l
  known : PitchNames.isLanguage l

/-- A known language is named where the string stands that names it. -/
def NamedAt (doc : Document) (position : Nat) (l : String) : Prop :=
  ∃ p m, doc.SwitchesTo p l ∧ doc.tree.Names p m ∧ (doc.tree.item m).position = position

theorem knownLanguage?_eq_some_iff : doc.tree.knownLanguage? p = some l ↔ doc.SwitchesTo p l := by
  constructor
  · intro known
    obtain ⟨language, details⟩ := Tree.knownLanguage?_eq_some known
    refine ⟨language, by simp [switchesTo?, details], ?_⟩
    simpa [Tree.knownLanguage?, language, details] using known
  · rintro ⟨language, name, known⟩
    have details : (doc.tree.item p).details = .language (some l) := by
      unfold switchesTo? at name
      split at name
      · rename_i details
        rw [details, name]
      · cases name
    simp [Tree.knownLanguage?, language, details, known]

end Document

/-- A note is as its name says in the language in effect where it stands: the known language that was named
last in front of it, or the configured one if there is none. A language is named by one string, which is a
part of the item that switches to it. The item itself may stand much further in front. -/
theorem notes_sound_in_language (options : Options) (text : String) (filename : Option String)
    (includedFrom : Option (DocumentId × ItemId)) :
    let doc := Document.ofText options text filename includedFrom
    (∀ p l, doc.SwitchesTo p l → ∃ m, doc.tree.Names p m ∧ ∀ c, doc.tree.Names p c → c = m) ∧
    ∀ i, doc.tree.kind i = .note → ∃ s pitch octave accidental check l, (doc.tree.item i).token = some s ∧
      (doc.tree.item i).details = .note pitch octave accidental check ∧
      InEffect doc.NamedAt options.language (doc.tree.item i).position l ∧
      readPitch? l s.text = some (pitch.note, pitch.alter) := by
  intro doc
  obtain ⟨language, voiced⟩ := Tree.ofTokens_voiced (scanMusic text) options.language options.maxNestingDepth
  obtain ⟨e, laid⟩ := Document.ofText_laid options text filename includedFrom
  have successive : doc.tree.Successive := Tree.ofTokens_successive (scanMusic_inOrder text) _ _
  have voiced : doc.tree.Voiced options.language language := voiced
  constructor
  · intro p l switches
    obtain ⟨m, names, _, only⟩ := voiced.named p l (Document.knownLanguage?_eq_some_iff.mpr switches)
    exact ⟨m, names, only⟩
  · intro i note
    obtain ⟨s, pitch, octave, accidental, check, l, token, details, inEffect, read⟩ := voiced.notes i note
    have inEffect := voiced.sounds_at laid successive note (by rw [token]; rfl) inEffect
    refine ⟨s, pitch, octave, accidental, check, l, token, details, inEffect.congr fun position l _ => ?_, read⟩
    constructor
    · rintro ⟨p, m, switches, names, there⟩
      exact ⟨m, ⟨p, Document.knownLanguage?_eq_some_iff.mpr switches, names⟩, there⟩
    · rintro ⟨m, ⟨p, known, names⟩, there⟩
      exact ⟨p, m, Document.knownLanguage?_eq_some_iff.mp known, names, there⟩

theorem notes_sound_in_german :
    let doc := Document.ofText Options.standard "\\language \"deutsch\" \x7b b \x7d" none none
    doc.SwitchesTo 1 "deutsch" ∧ (∃ m, doc.tree.Names 1 m ∧ ∀ c, doc.tree.Names 1 c → c = m) ∧
    doc.tree.kind 4 = .note ∧
    ∃ s pitch octave accidental check l, (doc.tree.item 4).token = some s ∧
      (doc.tree.item 4).details = .note pitch octave accidental check ∧
      InEffect doc.NamedAt "nederlands" (doc.tree.item 4).position l ∧
      readPitch? l s.text = some (pitch.note, pitch.alter) := by
  intro doc
  have made : (doc.tree.kind 1 = .language ∧ doc.switchesTo? 1 = some "deutsch") ∧ doc.tree.kind 4 = .note := by
    decide +kernel
  obtain ⟨⟨language, name⟩, note⟩ := made
  have switches : doc.SwitchesTo 1 "deutsch" := ⟨language, name, rfl⟩
  have sound := notes_sound_in_language Options.standard "\\language \"deutsch\" \x7b b \x7d" none none
  exact ⟨switches, sound.1 1 "deutsch" switches, note, sound.2 4 note⟩

/-- The place of the item itself does not tell which language is in effect. Here the one that starts last is
for German. It is read with what the one in front of it leaves out, so English is named after it. -/
theorem language_items_out_of_order :
    let doc := Document.ofText Options.standard
      "\\language a ##\x7b \\language \"deutsch\" #\x7d \"english\" \x7b b \x7d" none none
    ¬ ∀ i, doc.tree.kind i = .note → ∃ s pitch octave accidental check l, (doc.tree.item i).token = some s ∧
      (doc.tree.item i).details = .note pitch octave accidental check ∧
      InEffect (fun position l => ∃ p, doc.SwitchesTo p l ∧ (doc.tree.item p).position = position)
        "nederlands" (doc.tree.item i).position l ∧
      readPitch? l s.text = some (pitch.note, pitch.alter) := by
  intro doc claimed
  have made : (∀ p < doc.tree.size, ∀ l ∈ doc.tree.knownLanguage? p,
        (doc.tree.item p).position < 16 ∨ (doc.tree.item p).position = 16 ∧ l = "deutsch") ∧
      (doc.tree.knownLanguage? 5 = some "deutsch" ∧ (doc.tree.item 5).position = 16) ∧
      doc.tree.kind 9 = .note ∧ (doc.tree.item 9).token = some ⟨.lily .note, 51, "b"⟩ ∧
      (doc.tree.item 9).position = 51 ∧
      (doc.tree.item 9).details = .note (.plain 6 0) none none none := by decide +kernel
  obtain ⟨known, ⟨german, there⟩, kind, token, position, details⟩ := made
  obtain ⟨s, pitch, octave, accidental, check, l, starts, filled, inEffect, read⟩ := claimed 9 kind
  rw [position] at inEffect
  have last : InEffect (fun position l => ∃ p, doc.SwitchesTo p l ∧ (doc.tree.item p).position = position)
      "nederlands" 51 "deutsch" := by
    refine .switched ⟨5, Document.knownLanguage?_eq_some_iff.mp german, there⟩ (by decide) ?_
    rintro _ m ⟨p, switches, rfl⟩ _
    exact known p (Tree.lt_size_of_kind (by simp [switches.language])) m
      (Document.knownLanguage?_eq_some_iff.mpr switches)
  rw [inEffect.unique last] at read
  rw [token] at starts
  rw [details] at filled
  cases starts
  cases filled
  exact absurd read (by decide +kernel)

end ScoreText
