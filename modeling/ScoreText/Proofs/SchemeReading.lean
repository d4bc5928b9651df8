import ScoreText.Proofs.Building
import ScoreText.Proofs.SchemeScan
import ScoreText.Proofs.SchemeTree

/-! Reading the tokens of a Scheme expression. A list is read up to the token that leaves its region. A quote
and a sign are over with the first part that is read behind them, whatever it leaves. -/
namespace ScoreText.Datum

open Reader Reading ScoreText.Tree

variable {r r₀ r₁ r₂ r' : Reader} {n : Nat} {deeper : Deeper} {id c : ItemId}

section Step

/-- One step in reading the items of a list. -/
def partStep (deeper : Deeper) (id : ItemId) (_ : Unit) : Reading (Turn Unit) := do
  match ← Reading.next with
  | none => return .done ()
  | some t =>
    appendIf id (← deeper .scheme t)
    return .more ()

theorem readPartsInto_eq : readPartsInto deeper id = loop (partStep deeper id) () := rfl

theorem partStep_over {source : Source} (ended : Reading.next.run r = (none, { r with source })) :
    (loop (partStep deeper id) ()).run r = ((), { r with source }) := by
  apply loop_done
  rw [partStep, run_bind, ended]
  rfl

theorem partStep_found {t : Token} (run : Reading.next.run r = (some t, r₁))
    (found : (deeper .scheme t).run r₁ = (some c, r₂)) :
    (partStep deeper id ()).run r = (.more (), { r₂ with tree := r₂.tree.append id c }) := by
  rw [partStep]
  apply run_then run
  exact run_then found rfl

theorem partStep_other {t : Token} (run : Reading.next.run r = (some t, r₁))
    (no_part : (deeper .scheme t).run r₁ = (none, r₁)) :
    (partStep deeper id ()).run r = (.more (), r₁) := by
  rw [partStep]
  apply run_then run
  exact run_then no_part rfl

theorem no_part {t : Token} (other : t.kind = .space ∨ t.kind = .scheme .closeParen) (n : Nat) (r : Reader) :
    (read n .scheme t).run r = (none, r) := by
  cases n with
  | zero => rfl
  | succ n =>
    rw [Reading.read, readSchemePart]
    rcases other with kind | kind
    · rw [kind]
      rfl
    · rw [kind]
      rfl

end Step

section Expression

/-- An expression is read as an item that mirrors it, from its first token on. -/
def ReadBy (n : Nat) (d : Datum) : Prop :=
  ∀ ⦃r : Reader⦄ ⦃limit : Option Nat⦄ ⦃s : State⦄ ⦃offset : Nat⦄ ⦃ps : List (Piece × State)⦄
    ⦃t : ScannedToken⦄ ⦃tail us : List ScannedToken⦄,
    d.HasPieces s ps → scanned offset ps = t :: tail → r.Took limit t (tail ++ us) →
    ∃ r', (read n .scheme t.token).run r = (some r.tree.size, r') ∧
      r.Built r' limit us s.completeArgument.depth fun u id => d.MirroredBy u id

/-- Expressions in a row within a list are read into an item, and mirror its last children. -/
def AllReadBy (n : Nat) (ds : List Datum) : Prop :=
  ∀ ⦃r₀ r : Reader⦄ ⦃limit : Nat⦄ ⦃s : State⦄ ⦃offset : Nat⦄ ⦃ps : List (Piece × State)⦄
    ⦃us : List ScannedToken⦄ ⦃id : ItemId⦄,
    AllHavePieces s ds ps → s.completeArgument = s → limit ≤ s.depth →
    r.Ready (some limit) (scanned offset ps ++ us) → r₀.Grown r [id] →
    ∃ ids r', (loop (partStep (read n) id) ()).run r = (loop (partStep (read n) id) ()).run r' ∧
      r'.Ready (some limit) us ∧ r₀.Filled r r' id ids ∧ AllMirroredBy r'.tree ds ids

theorem HasPieces.front {d : Datum} {s : State} {ps : List (Piece × State)} (pieces : d.HasPieces s ps)
    (offset : Nat) : ∃ t tail, scanned offset ps = t :: tail := by
  cases d with
  | atom a =>
    cases a with
    | number n =>
      obtain rfl := pieces
      exact ⟨_, _, rfl⟩
    | word w =>
      obtain rfl := pieces
      exact ⟨_, _, rfl⟩
    | text value =>
      obtain ⟨_, _, _, rfl⟩ := pieces
      exact ⟨_, _, rfl⟩
  | quote d =>
    obtain ⟨_, _, rfl⟩ := pieces
    exact ⟨_, _, rfl⟩
  | list items =>
    obtain ⟨_, _, rfl⟩ := pieces
    exact ⟨_, _, rfl⟩

theorem read_atom {t : Token} {k : Scheme.Kind} (kind : t.kind = .scheme k) (atom : k ∈ .number :: wordKinds) :
    (read (n + 1) .scheme t).run r =
      (some r.tree.size, { r with tree := r.tree.push (.single .schemeItem t.start (some t)) }) := by
  rw [Reading.read, readSchemePart, kind]
  simp only [wordKinds, List.mem_cons, List.not_mem_nil, or_false] at atom
  rcases atom with rfl | rfl | rfl | rfl | rfl | rfl <;> rfl

theorem ReadBy.atom (a : Atom) : (Datum.atom a).ReadBy (n + 1) := by
  intro r limit s offset ps t tail us pieces shape took
  cases a with
  | number w =>
    obtain rfl := pieces
    obtain ⟨rfl, rfl⟩ := List.cons.inj shape
    refine ⟨_, read_atom rfl (by simp), ⟨_, took.score .., rfl⟩, .add .., ?_⟩
    rw [MirroredBy, Atom.MirroredBy, kind, children, item_push, if_pos rfl]
    exact ⟨rfl, rfl, rfl⟩
  | word w =>
    obtain rfl := pieces
    obtain ⟨rfl, rfl⟩ := List.cons.inj shape
    refine ⟨_, read_atom rfl (List.mem_cons_of_mem _ w.kind_listed), ⟨_, took.score .., rfl⟩, .add .., ?_⟩
    rw [MirroredBy, Atom.MirroredBy, kind, children, item_push, if_pos rfl]
    exact ⟨rfl, rfl, rfl⟩
  | text value =>
    obtain ⟨inner, inside, content, rfl⟩ := pieces
    obtain ⟨rfl, rfl⟩ := List.cons.inj shape
    obtain ⟨r', run, built⟩ := readString_built .scheme inside content rfl took
    refine ⟨r', ?_, built⟩
    rw [Reading.read, readSchemePart]
    exact run_then run rfl

theorem ReadBy.quote {d : Datum} (quoted : d.ReadBy n) : (Datum.quote d).ReadBy (n + 1) := by
  intro r limit s offset ps t tail us pieces shape took
  obtain ⟨inner, inner_pieces, rfl⟩ := pieces
  rw [scanned_cons] at shape
  obtain ⟨rfl, rfl⟩ := List.cons.inj shape
  obtain ⟨u, others, front⟩ := inner_pieces.front (offset + byteSize ['\''])
  rw [front] at took
  obtain ⟨r', run, built⟩ := readQuoting_built (k := .schemeQuote) d.endures took fun r₁ took₁ =>
    quoted inner_pieces front took₁
  refine ⟨r', ?_, built⟩
  rw [Reading.read, readSchemePart]
  exact run_then run rfl

theorem AllReadBy.nil (n : Nat) : AllReadBy n [] := by
  intro r₀ r limit s offset ps us id pieces _ _ ready grown
  obtain rfl : ps = [] := pieces
  exact ⟨[], r, rfl, ready, .nil grown, rfl⟩

/-- A space in front of an expression is left out. -/
theorem skip_space {s : State} {space : List (Piece × State)} {limit offset : Nat} {us : List ScannedToken}
    (known : space = [] ∨ space = [(spacePiece, s)]) (inside : limit ≤ s.depth)
    (ready : r.Ready (some limit) (scanned offset space ++ us)) :
    ∃ r', (loop (partStep (read n) id) ()).run r = (loop (partStep (read n) id) ()).run r' ∧
      r'.Ready (some limit) us ∧ r.SameScore r' := by
  rcases known with rfl | rfl
  · exact ⟨r, rfl, ready, ⟨rfl, rfl, rfl, rfl⟩⟩
  · rw [scanned_cons, List.cons_append] at ready
    obtain ⟨r1, run, took, same⟩ := next_ready ready
    refine ⟨r1, ?_, took.ready (by simpa [Within] using inside), same⟩
    rw [loop_more (partStep_other run (no_part (.inl rfl) n r1)) (took.fewer ready)]

theorem AllReadBy.cons {d : Datum} {ds : List Datum} (first : d.ReadBy n) (rest : AllReadBy n ds) :
    AllReadBy n (d :: ds) := by
  intro r₀ r limit s offset ps us id pieces full inside ready grown
  obtain ⟨space, front, others, spaced, front_pieces, other_pieces, rfl⟩ := pieces
  rw [scanned_append, scanned_append, List.append_assoc, List.append_assoc] at ready
  generalize offset + byteSize (textOf space) = offset₁ at ready
  generalize offset₁ + byteSize (textOf front) = offset₂ at ready
  obtain ⟨r1, skipped, ready₁, same⟩ := skip_space spaced inside ready
  obtain ⟨t, tail, shape⟩ := front_pieces.front offset₁
  rw [shape, List.cons_append] at ready₁
  obtain ⟨r2, run₂, took₂, same₂⟩ := next_ready ready₁
  obtain ⟨r3, found, built⟩ := first front_pieces shape took₂
  obtain ⟨last, took₃, deep⟩ := built.took
  obtain ⟨filled, _, mirrored⟩ := built.put (grown.same (same.trans same₂)) d.endures
  let r4 : Reader := { r3 with tree := r3.tree.append id r2.tree.size }
  have took₄ : r4.Took (some limit) last (scanned offset₂ others ++ us) := took₃.score ..
  have within : Within (some limit) last.depth := by
    rw [deep, full]
    simpa [Within] using inside
  obtain ⟨ids, r', later, ready', filled', mirrored'⟩ :=
    rest other_pieces full inside (took₄.ready within) filled.grown
  have fewer : r4.left < r1.left := by
    rw [took₄.left, ready₁.left]
    simp only [List.length_append, List.length_cons]
    omega
  refine ⟨r2.tree.size :: ids, r', ?_, ready', .same (same.trans same₂) (filled.trans filled'), ?_⟩
  · rw [skipped, loop_more (partStep_found run₂ found) fewer, later]
  · exact ⟨_, _, rfl, mirrored.kept filled'.still (filled.inside _ List.mem_cons_self), mirrored'⟩

theorem ReadBy.list {items : List Datum} (all : AllReadBy n items) : (Datum.list items).ReadBy (n + 1) := by
  intro r limit s offset ps t tail us pieces shape took
  obtain ⟨inner, inner_pieces, rfl⟩ := pieces
  rw [scanned_cons, scanned_append] at shape
  generalize offset + byteSize ['('] = behind at shape
  generalize behind + byteSize (textOf inner) = stop at shape
  obtain ⟨rfl, rfl⟩ := List.cons.inj shape
  rw [List.append_assoc] at took
  let opening : Token := ⟨.scheme .openParen, offset, String.ofList ['(']⟩
  let closing : ScannedToken :=
    ⟨⟨.scheme .closeParen, stop, String.ofList [')']⟩, s.completeArgument.depth,
      s.completeArgument.top.region⟩
  let r1 : Reader := { r with tree := r.tree.push (.single .schemeList opening.start (some opening)) }
  have entering : r1.entering.Ready (some s.inList.depth) (scanned behind inner ++ (closing :: us)) :=
    (took.score ..).entering
  have holder : r.Grown r1.entering [r.tree.size] := ⟨push_gains .., rfl, rfl⟩
  obtain ⟨ids, r2, run₂, ready₂, filled, mirrored⟩ := all inner_pieces rfl (Nat.le_refl _) entering holder
  obtain ⟨r3, run₃, took₃, same₃⟩ := next_ready ready₂
  obtain ⟨source, ended⟩ := next_over took₃ (Nat.lt_succ_of_le s.completeArgument_depth)
  have loop_run : (readPartsInto (read n) r.tree.size).run r1.entering = ((), { r3 with source }) := by
    rw [readPartsInto_eq, run₂, loop_more (partStep_other run₃ (no_part (.inr rfl) n r3)) (took₃.fewer ready₂),
      partStep_over ended]
  obtain ⟨last, whole⟩ := bounded_run loop_run
  obtain ⟨gains, kind, children, still⟩ := filled.closed rfl fun i => i.tokens ++ last.toList
  have inside := filled.inside
  rw [← show r3.tree = r2.tree from same₃.tree] at gains kind children still mirrored inside
  refine ⟨{ r3 with
      source := r.source
      tree := r3.tree.update r.tree.size fun i => { i with tokens := i.tokens ++ last.toList } }, ?_,
    ⟨closing, took.back ⟨took₃.ahead, took₃.pushed, took₃.current⟩ .., rfl⟩,
    ⟨gains, same₃.language.trans filled.grown.language, same₃.inChord.trans filled.grown.inChord⟩, kind, ?_⟩
  · rw [Reading.read, readSchemePart]
    apply run_then (addFor_run ..)
    exact run_then whole rfl
  · rw [children]
    exact mirrored.kept still inside

mutual

/-- Every expression is read as an item that mirrors it, as long as enough levels are left. -/
theorem readBy (d : Datum) (n : Nat) (deep : d.depth ≤ n) : d.ReadBy n := by
  cases d with
  | atom a =>
    obtain ⟨k, rfl⟩ : ∃ k, n = k + 1 := Nat.exists_eq_add_of_le' deep
    exact .atom a
  | quote d =>
    rw [depth] at deep
    obtain ⟨k, rfl⟩ : ∃ k, n = k + 1 := ⟨n - 1, by omega⟩
    exact .quote (d.readBy k (by omega))
  | list items =>
    rw [depth] at deep
    obtain ⟨k, rfl⟩ : ∃ k, n = k + 1 := ⟨n - 1, by omega⟩
    exact .list (allReadBy items k (by omega))

theorem allReadBy (ds : List Datum) (n : Nat) (deep : depthOfAll ds ≤ n) : AllReadBy n ds := by
  cases ds with
  | nil => exact .nil n
  | cons d ds =>
    rw [depthOfAll] at deep
    exact .cons (d.readBy n (by omega)) (allReadBy ds n (by omega))

end

end Expression

end ScoreText.Datum
