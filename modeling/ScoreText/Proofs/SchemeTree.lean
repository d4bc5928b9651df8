import ScoreText.Music.Value
import ScoreText.Proofs.Forest
import ScoreText.Proofs.SchemeTokens
import ScoreText.Proofs.Still

/-! Mirrors of Scheme expressions in a tree: they last while the tree goes on changing, and what is looked up
below one are the strings and numbers of the expression. -/
namespace ScoreText.Datum

open ScoreText.Tree

section Kept

variable {lo : Nat} {t u : Tree}

theorem Atom.MirroredBy.kept {a : Atom} {id : ItemId} (same : StillFrom lo t u)
    (inside : lo ≤ id ∧ id < t.size) (mirrored : a.MirroredBy t id) : a.MirroredBy u id := by
  obtain ⟨held, still⟩ := same.still id inside.1 inside.2
  cases a with
  | number n =>
    simp only [Atom.MirroredBy, kind, children, still, Item.text] at mirrored ⊢
    exact mirrored
  | word w =>
    simp only [Atom.MirroredBy, kind, children, still, Item.text] at mirrored ⊢
    exact mirrored
  | text value =>
    simp only [Atom.MirroredBy, kind, children, unquoted, still] at mirrored ⊢
    exact mirrored

mutual

theorem MirroredBy.kept {d : Datum} {id : ItemId} (same : StillFrom lo t u)
    (inside : lo ≤ id ∧ id < t.size) (mirrored : d.MirroredBy t id) : d.MirroredBy u id := by
  obtain ⟨held, still⟩ := same.still id inside.1 inside.2
  cases d with
  | atom a => exact Atom.MirroredBy.kept same inside mirrored
  | quote d =>
    rw [MirroredBy] at mirrored
    obtain ⟨quote, c, only, quoted⟩ := mirrored
    rw [MirroredBy, kind, children, still]
    exact ⟨quote, c, only, quoted.kept same (same.child inside.1 (by simp [only]))⟩
  | list items =>
    rw [MirroredBy] at mirrored
    rw [MirroredBy, kind, children, still]
    exact ⟨mirrored.1, mirrored.2.kept same fun c member => same.child inside.1 member⟩

theorem AllMirroredBy.kept {ds : List Datum} {ids : List ItemId} (same : StillFrom lo t u)
    (inside : ∀ c ∈ ids, lo ≤ c ∧ c < t.size) (mirrored : AllMirroredBy t ds ids) :
    AllMirroredBy u ds ids := by
  cases ds with
  | nil => exact mirrored
  | cons d ds =>
    rw [AllMirroredBy] at mirrored ⊢
    obtain ⟨id, others, rfl, first, rest⟩ := mirrored
    exact ⟨id, others, rfl, first.kept same (inside id List.mem_cons_self),
      rest.kept same fun c member => inside c (List.mem_cons_of_mem _ member)⟩

end

theorem endures (d : Datum) : Endures fun u id => d.MirroredBy u id :=
  fun _ _ _ _ same inside mirrored => mirrored.kept same inside

end Kept

section Gathered

variable {t : Tree} {rank : ItemId → Nat} {α : Type} {f : ItemId → Option α} {g : Atom → Option α}

/-- What is looked up at items tells of atoms, and nothing of quotes and lists. -/
structure Tells (t : Tree) (f : ItemId → Option α) (g : Atom → Option α) : Prop where
  atom : ∀ (a : Atom) id, a.MirroredBy t id → f id = g a
  other : ∀ id, t.kind id = .schemeQuote ∨ t.kind id = .schemeList → f id = none

/-- As many levels as the rank of an item hold all that is below it, and one less all below its children. -/
theorem below_children {n : Nat} {id : ItemId} (ranked : t.Ranked rank) (deep : rank id ≤ n) :
    ∃ k, t.below n id = (t.children id).flatMap (fun c => c :: t.below k c) ∧
      ∀ c ∈ t.children id, rank c ≤ k := by
  cases n with
  | zero =>
    have childless : t.children id = [] := by
      refine List.eq_nil_iff_forall_not_mem.mpr fun c member => ?_
      have lower := ranked.held id c (.inl member)
      omega
    exact ⟨0, by rw [childless]; rfl, by simp [childless]⟩
  | succ k =>
    refine ⟨k, rfl, fun c member => ?_⟩
    have lower := ranked.held id c (.inl member)
    omega

mutual

/-- All that is looked up from the item of an expression on is what its atoms say, in order. -/
theorem MirroredBy.gathered {d : Datum} {id : ItemId} {n : Nat} (tells : Tells t f g)
    (ranked : t.Ranked rank) (deep : rank id ≤ n) (mirrored : d.MirroredBy t id) :
    (id :: t.below n id).filterMap f = d.atoms.filterMap g := by
  obtain ⟨k, below, lower⟩ := below_children ranked deep
  rw [below]
  cases d with
  | atom a =>
    have childless : t.children id = [] := by
      cases a with
      | number n => exact mirrored.2.2
      | word w => exact mirrored.2.2
      | text value => exact mirrored.2.2
    simp [childless, atoms, List.filterMap_cons, tells.atom a id mirrored]
  | quote d =>
    rw [MirroredBy] at mirrored
    obtain ⟨quote, c, only, quoted⟩ := mirrored
    have inner := quoted.gathered tells ranked (lower c (by simp [only]))
    rw [List.filterMap_cons_none (tells.other id (.inl quote)), only, atoms, ← inner]
    simp
  | list items =>
    rw [MirroredBy] at mirrored
    rw [List.filterMap_cons_none (tells.other id (.inr mirrored.1)), atoms]
    exact mirrored.2.gathered tells ranked lower

theorem AllMirroredBy.gathered {ds : List Datum} {ids : List ItemId} {n : Nat} (tells : Tells t f g)
    (ranked : t.Ranked rank) (deep : ∀ c ∈ ids, rank c ≤ n) (mirrored : AllMirroredBy t ds ids) :
    (ids.flatMap fun c => c :: t.below n c).filterMap f = (atomsOfAll ds).filterMap g := by
  cases ds with
  | nil =>
    obtain rfl : ids = [] := mirrored
    rfl
  | cons d ds =>
    rw [AllMirroredBy] at mirrored
    obtain ⟨id, others, rfl, first, rest⟩ := mirrored
    have front := first.gathered tells ranked (deep id List.mem_cons_self)
    have back := rest.gathered tells ranked fun c member => deep c (List.mem_cons_of_mem _ member)
    rw [List.flatMap_cons, List.filterMap_append, front, back, atomsOfAll, List.filterMap_append]

end

/-- The item of a sign for Scheme, with an expression in it. -/
abbrev Signed (d : Datum) (t : Tree) (top : ItemId) : Prop :=
  Holder .scheme (fun u id => d.MirroredBy u id) t top

theorem Signed.gathered {d : Datum} {top : ItemId} (signed : d.Signed t top) (tells : Tells t f g)
    (ranked : t.Ranked rank) : (t.descendants top).filterMap f = d.atoms.filterMap g := by
  obtain ⟨_, c, only, mirrored⟩ := signed
  obtain ⟨k, below, lower⟩ := below_children ranked (Nat.le_of_lt (ranked.lt_size top))
  have inner := mirrored.gathered tells ranked (lower c (by simp [only]))
  rw [descendants, below, only, ← inner]
  simp

theorem tells_strings (t : Tree) :
    Tells t (fun id => if t.kind id == .string then some (t.unquoted id).toList else none) Atom.string? where
  atom a id mirrored := by
    cases a with
    | number n => simp [mirrored.1, Atom.string?]
    | word w => simp [mirrored.1, Atom.string?]
    | text value => simp [mirrored.1, mirrored.2.1, Atom.string?]
  other id kind := by
    rcases kind with kind | kind <;> simp [kind]

theorem count_word (w : Word) : Text.count? w.letters = none := by
  have letters : ∀ c ∈ asciiLetters, c.isDigit = false := all_listed (by decide)
  obtain ⟨c, cs, text⟩ := List.exists_cons_of_ne_nil w.nonempty
  have letter := letters c (letter_listed (w.ascii c (by simp [text])))
  simp [Text.count?, Text.natural?, text, letter]

theorem count_number (n : Numeral) : Text.count? n.digits = (Atom.number n).integer? := by
  have digits : n.digits.all Char.isDigit = true := List.all_eq_true.mpr n.decimal
  have natural : Text.natural? n.digits = some (Text.ofDigits n.digits) := by
    simp [Text.natural?, digits, n.nonempty]
  by_cases fits : Text.ofDigits n.digits ≤ 9223372036854775807
  · have word : Text.isWord64 (Text.ofDigits n.digits) = true := Text.isWord64_iff.mpr (by omega)
    simp [Text.count?, natural, word, Atom.integer?, fits]
  · have no_word : ¬ Text.isWord64 (Text.ofDigits n.digits) = true := fun word => by
      have bounds := Text.isWord64_iff.mp word
      omega
    simp [Text.count?, natural, no_word, Atom.integer?, fits]

theorem tells_integers (t : Tree) :
    Tells t (fun id => if t.kind id == .schemeItem then atomCount? (t.item id) else none) Atom.integer? where
  atom a id mirrored := by
    cases a with
    | number n => simp [mirrored.1, atomCount?, mirrored.2.1, count_number]
    | word w => simp [mirrored.1, atomCount?, mirrored.2.1, count_word, Atom.integer?]
    | text value => simp [mirrored.1, Atom.integer?]
  other id kind := by
    rcases kind with kind | kind <;> simp [kind]

theorem Signed.schemeText {d : Datum} {top : ItemId} (signed : d.Signed t top) (ranked : t.Ranked rank) :
    t.schemeText? top = d.joined? := by
  have listed : ((t.descendants top).filter (t.kind · == .string)).map (fun id => (t.unquoted id).toList) =
      d.atoms.filterMap Atom.string? := by
    rw [← signed.gathered (tells_strings t) ranked, ← List.filterMap_eq_map, List.filterMap_filter]
    rfl
  rw [schemeText?, joined?, ← listed]
  cases (t.descendants top).filter (t.kind · == .string) with
  | nil => rfl
  | cons id ids =>
    apply congrArg some
    rw [← String.toList_inj, String.toList_join, String.toList_ofList, List.flatMap_def, List.map_map]
    rfl

theorem Signed.counts {d : Datum} {top : ItemId} (signed : d.Signed t top) (ranked : t.Ranked rank) :
    (t.atoms top).filterMap atomCount? = d.integers := by
  rw [integers, ← signed.gathered (tells_integers t) ranked, Tree.atoms, List.filterMap_map,
    List.filterMap_filter]
  rfl

theorem Signed.schemeCount {d : Datum} {top : ItemId} (signed : d.Signed t top) (ranked : t.Ranked rank) :
    t.schemeCount? top = d.integers.head? := by
  rw [schemeCount?, ← signed.counts ranked, List.head?_filterMap]

theorem Signed.schemePair {d : Datum} {top : ItemId} (signed : d.Signed t top) (ranked : t.Ranked rank) :
    t.schemePair? top = d.firstTwo? := by
  have counts := signed.counts ranked
  cases integers : d.integers with
  | nil => simp [schemePair?, firstTwo?, counts, integers]
  | cons a others => cases others <;> simp [schemePair?, firstTwo?, counts, integers]

end Gathered

end ScoreText.Datum
