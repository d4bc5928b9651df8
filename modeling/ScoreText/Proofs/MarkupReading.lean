import ScoreText.Proofs.MarkupScan
import ScoreText.Proofs.MarkupTree
import ScoreText.Proofs.SchemeReading

/-! Reading the tokens of markup. A command and a list are read up to the token that leaves their region. The
token that is the last argument of several commands leaves the regions of all of them, so each reader on the
way up finds its own region at its end. -/
namespace ScoreText

open Reader Reading ScoreText.Tree

variable {r r₀ r₁ r₂ r' : Reader} {limit : Option Nat} {d : Nat} {t u : ScannedToken}
  {ts us : List ScannedToken} {n : Nat}

/-- The reader goes on in the region of a limit, or a token has left it. -/
structure Reader.Stands (r : Reader) (d depth : Nat) (us : List ScannedToken) : Prop where
  inside : d ≤ depth → r.Ready (some d) us
  ended : depth < d → ∃ last, r.Took (some d) last us ∧ last.depth = depth

theorem Reader.Took.stands (took : r.Took (some d) t us) : r.Stands d t.depth us where
  inside within := took.ready (by simpa [Within] using within)
  ended _ := ⟨t, took, rfl⟩

theorem Reader.Ready.stands (ready : r.Ready (some d) us) {depth : Nat} (within : d ≤ depth) :
    r.Stands d depth us where
  inside _ := ready
  ended left := by omega

section Step

variable {deeper : Deeper} {id c : ItemId} {list : Bool}

/-- One step in reading markups into an item. -/
def markupStep (deeper : Deeper) (id : ItemId) (list : Bool) (_ : Unit) : Reading (Turn Unit) := do
  match ← Reading.next with
  | none => return .done ()
  | some t =>
    match ← deeper .markup t with
    | some child => append id child
    | none => if list && t.kind == .lily .closeBracketMarkup then setTokens id [t]
    return .more ()

theorem readMarkupsInto_eq : readMarkupsInto deeper id list =
    (do let _ ← bounded (loop (markupStep deeper id list) ())) := rfl

theorem markupStep_over {source : Source} (ended : Reading.next.run r = (none, { r with source })) :
    (loop (markupStep deeper id list) ()).run r = ((), { r with source }) := by
  apply loop_done
  rw [markupStep, run_bind, ended]
  rfl

theorem readMarkupsInto_run (r r' : Reader)
    (run : (loop (markupStep deeper id list) ()).run r.entering = ((), r')) :
    (readMarkupsInto deeper id list).run r = ((), { r' with source := r.source }) := by
  obtain ⟨last, whole⟩ := bounded_run run
  rw [readMarkupsInto_eq, run_bind, whole]
  rfl

theorem markupStep_child {t : Token} (run : Reading.next.run r = (some t, r₁))
    (found : (deeper .markup t).run r₁ = (some c, r₂)) :
    (markupStep deeper id list ()).run r = (.more (), { r₂ with tree := r₂.tree.append id c }) := by
  rw [markupStep]
  apply run_then run
  exact run_then found rfl

theorem markupStep_other {t : Token} (run : Reading.next.run r = (some t, r₁))
    (no_item : (deeper .markup t).run r₁ = (none, r₁))
    (other : (list && t.kind == .lily .closeBracketMarkup) = false) :
    (markupStep deeper id list ()).run r = (.more (), r₁) := by
  rw [markupStep]
  apply run_then run
  apply run_then no_item
  simp only [other]
  rfl

theorem markupStep_close {t : Token} (run : Reading.next.run r = (some t, r₁))
    (no_item : (deeper .markup t).run r₁ = (none, r₁)) (closes : t.kind = .lily .closeBracketMarkup) :
    (markupStep deeper id true ()).run r =
      (.more (), { r₁ with tree := r₁.tree.update id fun i => { i with tokens := [t] } }) := by
  rw [markupStep]
  apply run_then run
  apply run_then no_item
  simp only [closes]
  rfl

theorem no_markup {t : Token} (other : t.kind = .space ∨ t.kind = .lily .closeBracketMarkup) (n : Nat)
    (r : Reader) : (read n .markup t).run r = (none, r) := by
  cases n with
  | zero => rfl
  | succ n =>
    rw [Reading.read, readMarkup]
    rcases other with kind | kind
    · rw [kind]
      rfl
    · rw [kind]
      rfl

end Step

section Expression

/-- An expression is read as an item that mirrors it, from its first token on. -/
def Markup.ReadBy (n : Nat) (m : Markup) : Prop :=
  ∀ ⦃r : Reader⦄ ⦃limit : Option Nat⦄ ⦃s : State⦄ ⦃offset : Nat⦄ ⦃ps : List (Piece × State)⦄
    ⦃t : ScannedToken⦄ ⦃tail us : List ScannedToken⦄,
    m.HasPieces s ps → scanned offset ps = t :: tail → r.Took limit t (tail ++ us) →
    ∃ r', (read n .markup t.token).run r = (some r.tree.size, r') ∧
      r.Built r' limit us s.completeArgument.depth fun u id => m.MirroredBy u id

/-- Expressions in a row are read into an item, and mirror its last children. -/
def Markups.ReadBy (n : Nat) {k : Nat} (ms : Markups k) : Prop :=
  ∀ ⦃r₀ r : Reader⦄ ⦃d : Nat⦄ ⦃s : State⦄ ⦃offset : Nat⦄ ⦃ps : List (Piece × State)⦄
    ⦃us : List ScannedToken⦄ ⦃id : ItemId⦄ (list : Bool),
    ms.HasPieces s ps → s.Awaits k → (0 < k → d ≤ s.depth) → r.Stands d s.depth (scanned offset ps ++ us) →
    r₀.Grown r [id] →
    ∃ ids r', (loop (markupStep (read n) id list) ()).run r = (loop (markupStep (read n) id list) ()).run r' ∧
      r'.Stands d (s.behindArguments k).depth us ∧ r₀.Filled r r' id ids ∧ ms.MirroredBy r'.tree ids

theorem Markup.HasPieces.front {m : Markup} {s : State} {ps : List (Piece × State)} (pieces : m.HasPieces s ps)
    (offset : Nat) : ∃ t tail, scanned offset ps = t :: tail := by
  cases m with
  | word w =>
    obtain rfl := pieces
    exact ⟨_, _, rfl⟩
  | number w =>
    obtain rfl := pieces
    exact ⟨_, _, rfl⟩
  | quoted w =>
    obtain ⟨_, _, _, rfl⟩ := pieces
    exact ⟨_, _, rfl⟩
  | list w =>
    obtain ⟨_, _, rfl⟩ := pieces
    exact ⟨_, _, rfl⟩
  | command w =>
    obtain ⟨_, _, rfl⟩ := pieces
    exact ⟨_, _, rfl⟩

theorem Markups.ReadBy.nil (n : Nat) : Markups.ReadBy n .nil := by
  intro r₀ r d s offset ps us id list pieces _ _ stands grown
  obtain rfl : ps = [] := pieces
  exact ⟨[], r, rfl, stands, .nil grown, rfl⟩

theorem Markups.ReadBy.cons {k : Nat} {m : Markup} {ms : Markups k} (first : m.ReadBy n)
    (rest : ms.ReadBy n) : (Markups.cons m ms).ReadBy n := by
  intro r₀ r d s offset ps us id list pieces awaits deep stands grown
  obtain ⟨front, others, front_pieces, other_pieces, rfl⟩ := pieces
  have inside : d ≤ s.depth := deep (by omega)
  have within : Within (some d) s.depth := by simpa [Within] using inside
  have ready := stands.inside inside
  rw [scanned_cons, scanned_append, List.cons_append, List.append_assoc] at ready
  generalize offset + byteSize spacePiece.text = offset₁ at ready
  generalize offset₁ + byteSize (textOf front) = offset₂ at ready
  obtain ⟨t, tail, shape⟩ := front_pieces.front offset₁
  rw [shape, List.cons_append] at ready
  obtain ⟨r1, run₁, took₁, same₁⟩ := next_ready ready
  obtain ⟨r2, run₂, took₂, same₂⟩ := next_ready (took₁.ready within)
  obtain ⟨r3, found, built⟩ := first front_pieces shape took₂
  obtain ⟨last, took₃, deep₃⟩ := built.took
  have same : SameScore r r2 := same₁.trans same₂
  obtain ⟨filled, _, mirrored⟩ := built.put (grown.same same) m.endures
  let r4 : Reader := { r3 with tree := r3.tree.append id r2.tree.size }
  have took₄ : r4.Took (some d) last (scanned offset₂ others ++ us) := took₃.score ..
  have deep₄ : 0 < k → d ≤ s.completeArgument.depth := by
    intro more
    cases k with
    | zero => omega
    | succ k => exact awaits.depth ▸ inside
  obtain ⟨ids, r', later, stands', filled', mirrored'⟩ :=
    rest list other_pieces awaits.completeArgument deep₄ (deep₃ ▸ took₄.stands) filled.grown
  have fewer₁ : r1.left < r.left := took₁.fewer ready
  have fewer₄ : r4.left < r1.left := by
    rw [took₄.left, took₁.left]
    simp only [List.length_append, List.length_cons]
    omega
  refine ⟨r2.tree.size :: ids, r', ?_, stands', .same same (filled.trans filled'), ?_⟩
  · rw [loop_more (markupStep_other run₁ (no_markup (.inl rfl) n r1) (by cases list <;> rfl)) fewer₁,
      loop_more (markupStep_child run₂ found) fewer₄, later]
  · exact ⟨_, _, rfl, mirrored.kept filled'.still (filled.inside _ List.mem_cons_self), mirrored'⟩

theorem Markup.ReadBy.word (w : Word) : (Markup.word w).ReadBy (n + 1) := by
  intro r limit s offset ps t tail us pieces shape took
  obtain rfl := pieces
  obtain ⟨rfl, rfl⟩ := List.cons.inj shape
  let t : Token := ⟨.lily .markupWord, offset, String.ofList w.letters⟩
  refine ⟨{ r with tree := r.tree.push (.single .markupWord t.start (some t)) }, rfl, ⟨_, took.score .., rfl⟩,
    .add _ t r, ?_⟩
  rw [Markup.MirroredBy, kind, children, item_push, if_pos rfl]
  exact ⟨rfl, rfl, rfl⟩

theorem Markup.ReadBy.quoted (q : Quoted) : (Markup.quoted q).ReadBy (n + 1) := by
  intro r limit s offset ps t tail us pieces shape took
  obtain ⟨inner, inside, content, rfl⟩ := pieces
  obtain ⟨rfl, rfl⟩ := List.cons.inj shape
  obtain ⟨r', run, built⟩ := readString_built .lily inside content rfl took
  refine ⟨r', ?_, built⟩
  rw [Reading.read, readMarkup]
  exact run_then run rfl

theorem Markup.ReadBy.number (w : Numeral) : (Markup.number w).ReadBy (n + 2) := by
  intro r limit s offset ps t tail us pieces shape took
  obtain rfl := pieces
  obtain ⟨rfl, rfl⟩ := List.cons.inj shape
  have atom := Datum.ReadBy.atom (n := n) (.number w)
  obtain ⟨r', run, built⟩ := readQuoting_built (k := .scheme) (Datum.atom (.number w)).endures took
    fun r₁ took₁ => atom (s := s.inScheme) rfl rfl took₁
  refine ⟨r', ?_, built⟩
  rw [Reading.read, readMarkup]
  exact run_then run rfl

theorem read_markupList {t : Token} (kind : t.kind = .lily .openBracketMarkup)
    (run : (readMarkupsInto (read n) r.tree.size true).run
      { r with tree := r.tree.push (.single .markupList t.start (some t)) } = ((), r')) :
    (read (n + 1) .markup t).run r = (some r.tree.size, r') := by
  rw [Reading.read, readMarkup, kind]
  simp only [run_bind, addFor_run, run]
  rfl

theorem Markup.ReadBy.list {k : Nat} {items : Markups k} (all : items.ReadBy n) :
    (Markup.list items).ReadBy (n + 1) := by
  intro r limit s offset ps t tail us pieces shape took
  obtain ⟨inner, inner_pieces, rfl⟩ := pieces
  rw [scanned_cons, scanned_append] at shape
  generalize offset + byteSize ['\x7b'] = behind at shape
  generalize behind + byteSize (textOf inner) = stop at shape
  obtain ⟨rfl, rfl⟩ := List.cons.inj shape
  rw [List.append_assoc] at took
  let opening : Token := ⟨.lily .openBracketMarkup, offset, String.ofList ['\x7b']⟩
  let space : ScannedToken := ⟨⟨.space, stop, String.ofList [' ']⟩, (s.inMarkup 0).depth, .lily .markup⟩
  let closing : ScannedToken :=
    ⟨⟨.lily .closeBracketMarkup, stop + byteSize [' '], String.ofList ['\x7d']⟩, s.completeArgument.depth,
      s.completeArgument.top.region⟩
  let r1 : Reader := { r with tree := r.tree.push (.single .markupList opening.start (some opening)) }
  have entering : r1.entering.Ready (some (s.inMarkup 0).depth)
      (scanned behind inner ++ (space :: closing :: us)) := (took.score ..).entering
  have holder : r.Grown r1.entering [r.tree.size] := ⟨push_gains .., rfl, rfl⟩
  obtain ⟨ids, r2, run₂, stands, filled, mirrored⟩ :=
    all true inner_pieces (s.awaits_list k) (fun _ => Nat.le_refl _) (entering.stands (Nat.le_refl _)) holder
  rw [s.behindArguments_list] at stands
  have ready₂ := stands.inside (Nat.le_refl _)
  obtain ⟨r3, run₃, took₃, same₃⟩ := next_ready ready₂
  have ready₃ := took₃.ready (by simp [Within, space])
  obtain ⟨r4, run₄, took₄, same₄⟩ := next_ready ready₃
  let r5 : Reader :=
    { r4 with tree := r4.tree.update r.tree.size fun i => { i with tokens := [closing.token] } }
  have took₅ : r5.Took _ closing us := took₄.score ..
  obtain ⟨source, ended⟩ := next_over took₅ (Nat.lt_succ_of_le s.completeArgument_depth)
  have fewer₅ : r5.left < r3.left := took₅.fewer ready₃
  have loop_run : (loop (markupStep (read n) r.tree.size true) ()).run r1.entering =
      ((), { r5 with source }) := by
    rw [run₂, loop_more (markupStep_other run₃ (no_markup (.inl rfl) n r3) rfl) (took₃.fewer ready₂),
      loop_more (markupStep_close run₄ (no_markup (.inr rfl) n r4) rfl) fewer₅, markupStep_over ended]
  obtain ⟨gains, kind, children, still⟩ := filled.closed rfl fun _ => [closing.token]
  have inside := filled.inside
  rw [← same₄.tree.trans same₃.tree] at gains kind children still mirrored inside
  refine ⟨{ r5 with source := r.source }, ?_,
    ⟨closing, took.back ⟨took₅.ahead, took₅.pushed, took₅.current⟩ .., rfl⟩, ⟨gains, ?_, ?_⟩, kind, ?_⟩
  · exact read_markupList rfl (readMarkupsInto_run r1 { r5 with source } loop_run)
  · exact same₄.language.trans (same₃.language.trans filled.grown.language)
  · exact same₄.inChord.trans (same₃.inChord.trans filled.grown.inChord)
  · rw [children]
    exact mirrored.kept still inside

/-- The item of a command, with what is read into it if it takes anything. -/
theorem read_markupCommand {t : Token} (c : MarkupCommand) (kind : t.kind = .lily .markupCommand)
    (text : t.text = String.ofList ('\\' :: c.name.toList))
    (run : if c.arity = 0 then r' = { r with tree := r.tree.push (.single .markupCommand t.start (some t)) }
      else (readMarkupsInto (read n) r.tree.size false).run
        { r with tree := r.tree.push (.single .markupCommand t.start (some t)) } = ((), r')) :
    (read (n + 1) .markup t).run r = (some r.tree.size, r') := by
  have takes : (Lily.Words.markupArguments? (Lily.commandName t.text.toList) != some 0) = (c.arity != 0) := by
    rw [text, String.toList_ofList, c.commandName, MarkupCommand.arity]
    cases Lily.Words.markupArguments? c.name with
    | none => rfl
    | some k => cases k <;> rfl
  rw [Reading.read, readMarkup, kind]
  simp only [run_bind, addFor_run, takes]
  split at run
  · rename_i none_taken
    rw [run, none_taken]
    rfl
  · rename_i some_taken
    simp only [bne_iff_ne, ne_eq, some_taken, not_false_eq_true, if_true, run_bind, run]
    rfl

theorem Markups.HasPieces.of_none {k : Nat} {ms : Markups k} {s : State} {ps : List (Piece × State)}
    (pieces : ms.HasPieces s ps) (none_there : k = 0) (t : Tree) : ps = [] ∧ ms.MirroredBy t [] := by
  cases ms with
  | nil => exact ⟨pieces, rfl⟩
  | cons m ms => omega

theorem Markup.ReadBy.command (c : MarkupCommand) {arguments : Markups c.arity} (all : arguments.ReadBy n) :
    (Markup.command c arguments).ReadBy (n + 1) := by
  intro r limit s offset ps t tail us pieces shape took
  obtain ⟨inner, inner_pieces, rfl⟩ := pieces
  obtain ⟨rfl, rfl⟩ := List.cons.inj shape
  let name : Token := ⟨.lily .markupCommand, offset, String.ofList ('\\' :: c.name.toList)⟩
  let r1 : Reader := { r with tree := r.tree.push (.single .markupCommand name.start (some name)) }
  have first : r1.tree.item r.tree.size = .single .markupCommand name.start (some name) := by
    rw [item_push, if_pos rfl]
  by_cases none_taken : c.arity = 0
  · obtain ⟨rfl, mirrored⟩ := inner_pieces.of_none none_taken r1.tree
    refine ⟨r1, ?_, ⟨_, took.score .., ?_⟩, .add _ name r, ?_⟩
    · exact read_markupCommand c rfl rfl (by simp only [none_taken, if_true]; rfl)
    · rw [none_taken]
      rfl
    · rw [Markup.MirroredBy, kind, children, first]
      exact ⟨rfl, rfl, mirrored⟩
  · obtain ⟨k, count⟩ : ∃ k, c.arity = k + 1 := Nat.exists_eq_succ_of_ne_zero none_taken
    have entering := (took.score r1.tree r.inChord r.duration).entering
    have holder : r.Grown r1.entering [r.tree.size] := ⟨push_gains .., rfl, rfl⟩
    obtain ⟨ids, r2, run₂, stands, filled, mirrored⟩ :=
      all false inner_pieces (s.awaits_command _) (fun _ => Nat.le_refl _)
        (entering.stands (Nat.le_refl _)) holder
    rw [s.behindArguments_command] at stands
    have left : s.completeArgument.depth < (s.behindName c.arity).depth := by
      rw [count]
      exact Nat.lt_succ_of_le s.completeArgument_depth
    obtain ⟨last, took₂, behind⟩ := stands.ended left
    obtain ⟨source, ended⟩ := next_over took₂ (behind ▸ left)
    have loop_run : (loop (markupStep (read n) r.tree.size false) ()).run r1.entering =
        ((), { r2 with source }) := by
      rw [run₂, markupStep_over ended]
    refine ⟨{ r2 with source := r.source }, ?_,
      ⟨last, took.back ⟨took₂.ahead, took₂.pushed, took₂.current⟩ .., behind⟩,
      ⟨filled.grown.gains, filled.grown.language, filled.grown.inChord⟩, ?_⟩
    · apply read_markupCommand c rfl rfl
      simp only [none_taken, if_false]
      exact readMarkupsInto_run r1 { r2 with source } loop_run
    · rw [Markup.MirroredBy, kind, children, filled.item]
      refine ⟨congrArg Item.kind first, ?_, ?_⟩
      · exact congrArg Item.text first
      · rw [children, show r1.entering.tree = r1.tree from rfl, first]
        exact mirrored

mutual

/-- Every expression is read as an item that mirrors it, as long as enough levels are left. -/
theorem Markup.readBy (m : Markup) (n : Nat) (deep : m.depth ≤ n) : m.ReadBy n := by
  cases m with
  | word w =>
    obtain ⟨k, rfl⟩ : ∃ k, n = k + 1 := Nat.exists_eq_add_of_le' deep
    exact .word w
  | quoted q =>
    obtain ⟨k, rfl⟩ : ∃ k, n = k + 1 := Nat.exists_eq_add_of_le' deep
    exact .quoted q
  | number w =>
    obtain ⟨k, rfl⟩ : ∃ k, n = k + 2 := Nat.exists_eq_add_of_le' deep
    exact .number w
  | list items =>
    rw [Markup.depth] at deep
    obtain ⟨k, rfl⟩ : ∃ k, n = k + 1 := ⟨n - 1, by omega⟩
    exact .list (items.readBy k (by omega))
  | command c arguments =>
    rw [Markup.depth] at deep
    obtain ⟨k, rfl⟩ : ∃ k, n = k + 1 := ⟨n - 1, by omega⟩
    exact .command c (arguments.readBy k (by omega))

theorem Markups.readBy {k : Nat} (ms : Markups k) (n : Nat) (deep : ms.depth ≤ n) : ms.ReadBy n := by
  cases ms with
  | nil => exact .nil n
  | cons m ms =>
    rw [Markups.depth] at deep
    exact .cons (m.readBy n (by omega)) (ms.readBy n (by omega))

end

end Expression

end ScoreText
