import ScoreText.Document.Family
import ScoreText.Proofs.Coverage
import ScoreText.Proofs.LayingScore

/-! The tree of a score is laid out in order: the tokens of a text stand one behind the other, and the
reader begins with an empty tree. -/
namespace ScoreText

variable {whole : Prop} {depth : Nat}

section Tokens

/-- The tokens that are scanned for music cover the text. -/
theorem scanMusic_covers (text : String) :
    ∃ first, Covers text first ((scanMusic text).map (·.token)) := by
  have rooted : (State.ofMode .lilypond).Rooted := mode_rooted .lilypond
  obtain ⟨front, rest, ps, last, all, _, faces, reads⟩ := ofText_reads rooted text 0
  obtain ⟨final, drained, _⟩ := Scanner.drain_reads (faces (.ofMode .lilypond)) reads
  refine ⟨byteSize front, ?_⟩
  rw [scanMusic, List.map_map, State.scan, drained]
  exact placed_covers front (by rw [reads.text, all]) reads.sound

theorem scanMusic_inOrder (text : String) : InOrder (scanMusic text).toArray := by
  obtain ⟨first, covers⟩ := scanMusic_covers text
  intro k s found
  rw [List.getElem?_toArray] at found
  refine ⟨?_, ?_⟩
  · cases k with
    | zero => exact Nat.zero_le _
    | succ k =>
      obtain ⟨there, last⟩ := List.getElem?_eq_some_iff.mp found
      have before : k < (scanMusic text).length := Nat.lt_of_succ_lt there
      have chain := List.isChain_iff_getElem.mp covers.goes_on k (by simpa using there)
      rw [stopBefore, List.getElem?_toArray, List.getElem?_eq_getElem before]
      simp only [List.getElem_map, last] at chain
      exact Nat.le_of_eq chain
  · have some_text := covers.some_text s.token (List.mem_map_of_mem (List.mem_of_getElem? found))
    have positive := byteSize_pos (String.toList_eq_nil_iff.not.mpr some_text)
    rw [byteSize_toList] at positive
    exact Nat.lt_add_of_pos_right positive

end Tokens

section Score

theorem start_moved {tokens : Array ScannedToken} (order : InOrder tokens) (language : String)
    (room : whole → tokens.size ≤ depth) :
    Reader.Moved whole depth (some Tree.root) 0 (.start tokens language) (.start tokens language) := by
  have laid : (Reader.start tokens language).tree.Laid whole (Reader.start tokens language).reach :=
    Tree.start_laid whole
  have stable : (Reader.start tokens language).Stable whole depth :=
    ⟨⟨order, nofun, room, laid, ⟨Duration.quarter_fits, Tree.start_timely⟩, Tree.start_successive⟩, fun _ => nofun⟩
  refine stable.here (Nat.zero_le _) ?_
  rintro _ ⟨⟩
  refine ⟨Nat.one_pos, ⟨Nat.one_pos, fun p holds => ?_⟩, Nat.le_refl _⟩
  exact absurd (laid.inside p _ holds).1 (Nat.lt_irrefl _)

theorem readScore_lays {tokens : Array ScannedToken} (order : InOrder tokens) (language : String)
    (room : whole → tokens.size ≤ depth) :
    Lays whole depth (some Tree.root) 0 (.start tokens language) (.start tokens language)
      (Reading.readScore depth) Anything := by
  have start := start_moved order language room
  refine .bind (Reading.readAll_lays (Reading.read_deep whole depth) start.stable)
    fun ids r1 step ⟨row, _⟩ => ?_
  exact (Reading.appendAll_lays start start.gap step row).mono fun _ _ _ _ => trivial

/-- Whatever is read from tokens that stand one behind the other is laid out in order. No item is left
out if there are no more tokens than levels. -/
theorem Tree.ofTokens_laid {tokens : List ScannedToken} (order : InOrder tokens.toArray)
    (language : String) (room : whole → tokens.length ≤ depth) :
    ∃ e, (Tree.ofTokens tokens language depth).Laid whole e :=
  ⟨_, (readScore_lays order language room).moved.laid⟩

theorem Tree.ofTokens_timely {tokens : List ScannedToken} (order : InOrder tokens.toArray)
    (language : String) (depth : Nat) : (Tree.ofTokens tokens language depth).Timely := by
  have read : Lays False depth _ _ _ _ _ _ := readScore_lays order language nofun
  exact read.moved.timely

theorem Tree.ofTokens_successive {tokens : List ScannedToken} (order : InOrder tokens.toArray)
    (language : String) (depth : Nat) : (Tree.ofTokens tokens language depth).Successive := by
  have read : Lays False depth _ _ _ _ _ _ := readScore_lays order language nofun
  exact read.moved.successive

theorem Tree.ofTokens_root {tokens : List ScannedToken} (order : InOrder tokens.toArray)
    (language : String) (depth : Nat) : (Tree.ofTokens tokens language depth).kind root = .document := by
  have read : Lays False depth _ _ _ _ _ _ := readScore_lays order language nofun
  exact (read.moved.went.grown.head root Nat.one_pos).1

theorem Document.ofText_laid (options : Options) (text : String) (filename : Option String)
    (includedFrom : Option (DocumentId × ItemId)) :
    ∃ e, (Document.ofText options text filename includedFrom).tree.Laid False e :=
  Tree.ofTokens_laid (scanMusic_inOrder text) options.language nofun

end Score

end ScoreText
