import ScoreText.Proofs.MusicScore
import ScoreText.Proofs.TempoReading

/-! A list that begins with a tempo is read as the list without it, ends_length from the tempo, if its first item begins
with a token that opens no region. Otherwise the region of the tempo is left and the next one entered in one step,
and as many regions are open behind the token as before. The tempo takes it for one of its own then. -/
namespace ScoreText

open Reader Reading ScoreText.Tree

variable {names : Naming} {last : Length} {m : Music} {ms : List Music} {s : State}

namespace Music

/-- A list whose first item is a tempo, and whose other items are what expressions say. -/
def BehindTempo (names : Naming) (items : List Music) (t : Tree) (top : ItemId) : Prop :=
  t.kind top = .musicList ∧ (t.item top).details = .list false ∧ ∃ tempo ids,
    t.children top = tempo :: ids ∧ t.kind tempo = .tempo ∧ AllMirroredBy t names .quarter items ids

theorem BehindTempo.endures (names : Naming) (items : List Music) : Endures (BehindTempo names items) := by
  intro lo t u id same inside behind
  have alike := same.alikeFrom
  obtain ⟨kind, details, tempo, ids, children, tempo_kind, mirrored⟩ := behind
  have child (c : ItemId) (member : c ∈ tempo :: ids) : From lo t c :=
    alike.from_child inside (children ▸ member)
  refine ⟨(alike.kind inside).trans kind, (alike.details inside).trans details, tempo, ids,
    (alike.children inside).trans children, (alike.kind (child tempo List.mem_cons_self)).trans tempo_kind, ?_⟩
  exact mirrored.kept alike fun c member => child c (List.mem_cons_of_mem _ member)

/-- How a list is written that begins with a tempo. -/
def charsBehindTempo (items : List Music) : List Char :=
  listChars false (tempoChars ++ charsOfAll items)

theorem scan_behindTempo (inPlace : m.StartsInPlace) :
    scanMusic (String.ofList (charsBehindTempo (m :: ms))) =
      scanned 0 (listPieces (.ofMode .lilypond) false
        (tempoPieces ((State.ofMode .lilypond).enter (.lily .music)) ++
          piecesOfAll ((State.ofMode .lilypond).enter (.lily .music)) (m :: ms))) := by
  have within : ((State.ofMode .lilypond).enter (.lily .music)).In .music := ⟨mode_rooted .lilypond, rfl⟩
  refine scanMusic_listChars false (fun c cs _ => ⟨'\\', _, rfl, by decide⟩) fun c cs ps ends_length next => ?_
  obtain ⟨d, ds, text, ends_length'⟩ := charsOfAll_endsLength (m :: ms) ends_length
  have items := Follows.items within (m :: ms) ends_length next
  have no_part (before : Option Char) : (Region.lily .tempo).at? before (d :: ds) = none := by
    rw [← text, charsOfAll, List.append_assoc]
    exact no_tempo_part inPlace before
  rw [text] at items
  rw [List.append_assoc, List.append_assoc, text]
  exact .tempo within ends_length' no_part items

theorem depth_pos (m : Music) : 1 ≤ m.depth := by
  cases m with
  | leaf l written => cases l <;> simp [depth, Leaf.depth]
  | list b items => simp [depth]
  | tuplet p b items => simp [depth]

theorem StartsInPlace.front (inPlace : m.StartsInPlace) (s : State) (offset : Nat) :
    ∃ t tail, scanned offset (m.pieces s) = t :: tail ∧ Starts t ∧ t.depth = s.depth := by
  cases m with
  | leaf l written =>
    cases l with
    | note tone => exact ⟨_, _, rfl, ⟨.note, by decide, rfl⟩, rfl⟩
    | rest => exact ⟨_, _, rfl, ⟨.rest, by decide, rfl⟩, rfl⟩
    | chord first others => exact inPlace.elim
  | list b items => exact inPlace.elim
  | tuplet p b items => exact ⟨_, _, rfl, ⟨.command, by decide, rfl⟩, rfl⟩

end Music

section Reading

variable {n offset : Nat} {r : Reader} {limit : Option Nat} {t : ScannedToken} {tail us : List ScannedToken}

theorem tempo_gathers {d : Nat} {closing : ScannedToken} {us₀ : List ScannedToken}
    (inPlace : m.StartsInPlace) (all : Music.AllReadBy names (n + 1) (m :: ms)) (knows : r.Knows names last)
    (plain : s.top.region ≠ .lily .pitchCommand) (deep : s.depth = d) (ready : r.Ready (some d) us₀)
    (spaced : Spaced (some d) us₀
      (scanned offset (tempoPieces s ++ Music.piecesOfAll s (m :: ms)) ++ closing :: us))
    (closes : Closes closing) (leaves : closing.depth < d) :
    ∃ tempo ids r', Gathers (read (n + 1)) r (tempo :: ids) r' ∧ r.Grown r' (tempo :: ids) ∧
      r'.At closing us ∧ r'.tree.kind tempo = .tempo ∧
      Music.AllMirroredBy r'.tree names .quarter (m :: ms) ids := by
  obtain ⟨t, inner, pieces, kind, level_t⟩ := scanned_tempo s offset
  rw [scanned_append, List.append_assoc, pieces, List.cons_append] at spaced
  generalize offset + byteSize (textOf (tempoPieces s)) = behind at spaced
  obtain ⟨u, tail, shape, starts, level⟩ := inPlace.front s behind
  obtain ⟨ts, rest⟩ : ∃ ts, scanned behind (Music.piecesOfAll s (m :: ms)) ++ closing :: us = u :: ts := by
    rw [Music.piecesOfAll, scanned_append, shape]
    exact ⟨_, rfl⟩
  rw [rest] at spaced
  obtain ⟨r1, taken, took, same⟩ := nextItem_ready ready spaced (by rw [Solid, kind]; exact ⟨rfl, rfl⟩)
  obtain ⟨r2, run, again, tempo, timed⟩ := readTempo_gives (n := n) level_t took starts
    (by rw [level, level_t]; exact Nat.lt_succ_self _)
  have read : (read (n + 1) .item t.token).run r1 = (some r1.tree.size, r2) := by
    rw [read_item kind]
    exact run_then run rfl
  have knows₂ : r2.Knows names .quarter :=
    ⟨(tempo.grown.language.trans same.language) ▸ knows.names,
      (tempo.grown.inChord.trans same.inChord).trans knows.apart, timed⟩
  have fewer : r2.left < r.left := by
    have enough := left_of_spaced ready spaced
    rw [again.left]
    simp at enough ⊢
    omega
  rw [← rest] at again
  obtain ⟨ids, r3, gathers, grown, there, _, mirrored⟩ :=
    all knows₂ plain (Nat.le_of_eq deep.symm) again (.inl rfl) closes leaves
  have whole := tempo.grown.trans grown
  refine ⟨r1.tree.size, ids, r3, .found taken read fewer gathers, ⟨same.tree ▸ whole.gains,
    whole.language.trans same.language, whole.inChord.trans same.inChord⟩, there, ?_, mirrored⟩
  have from_tempo : From r1.tree.size r2.tree r1.tree.size := tempo.grown.gains.from List.mem_cons_self
  exact ((tempo.grown.gains.alikeFrom grown.gains).kind from_tempo).trans tempo.kind

theorem ofTokens_behindTempo {language : String} {depth : Nat} {tree : Tree} (inPlace : m.StartsInPlace)
    (known : names.KnownIn language) (deep : (Music.list false (m :: ms)).depth ≤ depth)
    (made : tree = ofTokens (scanMusic (String.ofList (Music.charsBehindTempo (m :: ms)))) language depth) :
    ∃ top, tree.children root = [top] ∧ Music.BehindTempo names (m :: ms) tree top := by
  obtain ⟨k, rfl, inner⟩ := Music.levels_list deep
  obtain ⟨n, rfl⟩ : ∃ n, k = n + 1 := Nat.exists_eq_add_of_le' (m.depth_pos.trans (Music.levels_cons inner).1)
  have all : Music.AllReadBy names (n + 1) (m :: ms) := Music.allReadBy (m :: ms) (n + 1) inner
  obtain ⟨opening, space, closing, behind, pieces, kind, _⟩ := scanned_list (State.ofMode .lilypond) 0 false
    (tempoPieces ((State.ofMode .lilypond).enter (.lily .music)) ++
      Music.piecesOfAll ((State.ofMode .lilypond).enter (.lily .music)) (m :: ms))
  rw [Music.scan_behindTempo inPlace, pieces] at made
  have starts : Starts opening := ⟨_, by decide, kind⟩
  refine ofTokens_one (d := (State.ofMode .lilypond).depth) starts.solid (Music.BehindTempo.endures ..)
    (fun r same took => ?_) made
  rw [← List.append_nil (_ :: _)] at took
  have plain : ((State.ofMode .lilypond).enter (.lily .music)).top.region ≠ .lily .pitchCommand := by
    simp [State.enter, State.enterAwaiting, State.top]
  obtain ⟨closing, ids, r2, r', run, took', leaves, listed, tempo, others, rfl, tempo_kind, mirrored⟩ :=
    readList_front (n := n + 1) (Q := fun r₂ ids => ∃ tempo others, ids = tempo :: others ∧
        r₂.tree.kind tempo = .tempo ∧ Music.AllMirroredBy r₂.tree names .quarter (m :: ms) others)
      pieces took (start_knows known same) fun r₁ behind closing us₀ knows ready spaced closes leaves => by
        obtain ⟨tempo, ids, r₂, gathers, grown, there, holds⟩ :=
          tempo_gathers inPlace all knows plain rfl ready spaced closes leaves
        exact ⟨tempo :: ids, r₂, gathers, grown, there, tempo, ids, rfl, holds⟩
  refine ⟨r', run, ⟨closing, took', leaves⟩, listed.grown, listed.kind, listed.details, tempo, others,
    listed.children, ?_, ?_⟩
  · exact (listed.stays.kind (listed.inside tempo List.mem_cons_self)).trans tempo_kind
  · exact mirrored.kept listed.stays fun c member => listed.inside c (List.mem_cons_of_mem _ member)

end Reading

theorem walk_behindTempo {f : Family} {d : DocumentId} {unfoldRepeats : Bool} {references n : Nat} {top : ItemId}
    (deep : (Music.list false (m :: ms)).depth ≤ n)
    (behind : Music.BehindTempo names (m :: ms) (f.document d).tree top) :
    (Unrolled.walk unfoldRepeats n references d top 0 1).run f =
      ((Music.list false (m :: ms)).value .quarter, f) := by
  obtain ⟨k, rfl, inner⟩ := Music.levels_list deep
  obtain ⟨i, rfl⟩ : ∃ i, k = i + 1 := Nat.exists_eq_add_of_le' (m.depth_pos.trans (Music.levels_cons inner).1)
  obtain ⟨kind, details, tempo, ids, children, tempo_kind, mirrored⟩ := behind
  have takes : Takes f (Unrolled.walk unfoldRepeats (i + 1) references d) (tempo :: ids)
      (0 :: Music.valuesOfAll .quarter (m :: ms)) := by
    refine .cons (fun time scaling _ => ?_) (walk_all inner mirrored)
    rw [walk_timeless i (.inr tempo_kind), mul_zero, add_zero]
  rw [walk_expression (i + 1) (.inl kind), Unrolled.expression, ← Tree.kind, kind, details, ← Tree.children,
    children]
  show (Unrolled.inTurn _ (tempo :: ids) 0 1).run f = _
  rw [takes.inTurn zero_le_one, zero_add, one_mul, List.sum_cons, zero_add, Music.value, Music.combine]
  rfl

/-- The items behind a tempo are those of the list without it, in the order of the list, and both lists are as
long as the expressions say, unless that is too large to say. -/
theorem tempo_gives_back (options : Options) (files : Files) (filename : Option String) (names : Naming)
    (m : Music) (ms : List Music) (inPlace : m.StartsInPlace) (known : names.KnownIn options.language)
    (deep : (Music.list false (m :: ms)).depth ≤ options.maxNestingDepth) :
    let f := Family.ofText options files (String.ofList (Music.charsBehindTempo (m :: ms))) filename
    let plain := Family.ofText options files (String.ofList (Music.list false (m :: ms)).chars) filename
    (∃ top, (f.document 0).tree.children root = [top] ∧
      Music.BehindTempo names (m :: ms) (f.document 0).tree top ∧
      ∀ q, ((Family.lengthOf 0 top).run f).1 = some q → q = (Music.list false (m :: ms)).value .quarter) ∧
    ∃ top, (plain.document 0).tree.children root = [top] ∧
      (Music.list false (m :: ms)).MirroredBy (plain.document 0).tree names .quarter top ∧
      ∀ q, ((Family.lengthOf 0 top).run plain).1 = some q →
        q = (Music.list false (m :: ms)).value .quarter := by
  intro f plain
  have opened : f.Opened := ⟨_, _, _, _, .refl⟩
  have opened_plain : plain.Opened := ⟨_, _, _, _, .refl⟩
  obtain ⟨top, only, behind⟩ := ofTokens_behindTempo inPlace known deep (rfl : (f.document 0).tree = _)
  obtain ⟨bare, bare_only, mirrored⟩ := ofTokens_mirrors (t := (plain.document 0).tree) known deep rfl
  refine ⟨⟨top, only, behind, fun q length => ?_⟩, bare, bare_only, mirrored, fun q length => ?_⟩
  · exact length_of_walk opened behind.1 (walk_behindTempo deep behind) length
  · exact length_of_list opened_plain mirrored deep length

theorem phrase_behind_tempo :
    let f := Family.ofText .standard (.table []) (String.ofList (Music.charsBehindTempo Music.phrase)) none
    String.ofList (Music.charsBehindTempo Music.phrase) =
        "\x7b \\tempo 4 = 60 c'4 \\tuplet 3/2 \x7b d8 r f, \x7d <c e>2. \x7d" ∧
      (f.document 0).tree.children root = [1] ∧
      Music.BehindTempo .nederlands Music.phrase (f.document 0).tree 1 ∧
      ((Family.lengthOf 0 1).run f).1 = some (5 / 4) := by
  intro f
  obtain ⟨⟨top, only, behind, length⟩, _⟩ :=
    tempo_gives_back .standard (.table []) none .nederlands (.leaf (.note ⟨.c, 1⟩) (some ⟨2, 0⟩))
      Music.phrase.tail trivial Naming.nederlands_known (by decide)
  obtain ⟨first, short⟩ : (f.document 0).tree.children root = [1] ∧
      ((Family.lengthOf 0 1).run f).1.isSome := by decide +kernel
  obtain rfl : top = 1 := by simpa using only.symm.trans first
  have value : (Music.list false Music.phrase).value .quarter = 5 / 4 := by decide +kernel
  obtain ⟨q, measured⟩ := Option.isSome_iff_exists.mp short
  refine ⟨by decide +kernel, first, behind, ?_⟩
  rw [measured, length q measured, ← value]
  rfl

/-- A list within a list is lost behind a tempo. -/
theorem list_lost_behind_tempo :
    let f := Family.ofText .standard (.table []) "\x7b \\tempo 4 = 60 \x7b c \x7d \x7d" none
    let plain := Family.ofText .standard (.table []) "\x7b \x7b c \x7d \x7d" none
    (f.document 0).tree.children root = [1] ∧
      ((f.document 0).tree.children 1).map (f.document 0).tree.kind = [.tempo] ∧
      ((Family.lengthOf 0 1).run f).1 = some 0 ∧
      (plain.document 0).tree.children root = [1] ∧
      ((plain.document 0).tree.children 1).map (plain.document 0).tree.kind = [.musicList] ∧
      ((Family.lengthOf 0 1).run plain).1 = some (1 / 4) := by
  decide +kernel

end ScoreText
