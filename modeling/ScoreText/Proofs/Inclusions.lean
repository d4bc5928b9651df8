import ScoreText.Proofs.Asking

/-! Inclusions stay consistent, whatever is asked in whatever order. A path is read once and is the same
document for all items that lead there. An item keeps its answer, a document lies below the item it was
read from, and no path occurs twice on the way up from a document. -/
namespace ScoreText

theorem Path.same_iff (a b : String) : Path.same a b = true ↔ Path.parts a = Path.parts b := by
  simp [Path.same]

namespace Family

/-- The first of paths that has been read or can be. A path above ends the search. -/
def targetAmong? (f : Family) (above paths : List String) : Option String :=
  (paths.takeWhile fun path => !above.any (Path.same path)).find? fun path =>
    (f.atPath? path).isSome || (f.files.read? path).isSome

/-- The path at which the file of an inclusion is found. -/
def target? (f : Family) (d : DocumentId) (id : ItemId) : Option String :=
  match (f.document d).tree.firstText? id with
  | none => none
  | some name => if name.isEmpty then none else f.targetAmong? (f.chain d) (f.places d name)

/-- What becomes of a search: nothing is found, or the document of a path that is not above, which is
read if it was not before. -/
inductive Outcome (f : Family) (place : DocumentId × ItemId) (above : List String) :
    Option String → Option DocumentId × Family → Prop
  | nowhere : Outcome f place above none (none, f)
  | known {path : String} {d : DocumentId} : (∀ other ∈ above, ¬ Path.same path other) →
      f.atPath? path = some d → Outcome f place above (some path) (some d, f)
  | read {path text : String} : (∀ other ∈ above, ¬ Path.same path other) → f.atPath? path = none →
      f.files.read? path = some text →
      Outcome f place above (some path)
        (some f.documents.size, f.push (.ofText f.options text (some path) (some place)))

theorem lookUpAmong_outcome (f : Family) (place : DocumentId × ItemId) (above paths : List String) :
    f.Outcome place above (f.targetAmong? above paths) (f.lookUpAmong place above paths) := by
  unfold targetAmong?
  induction paths with
  | nil => exact .nowhere
  | cons path paths ih =>
    rw [lookUpAmong]
    by_cases up : above.any (Path.same path) = true
    · simpa [up] using Outcome.nowhere
    · have beside : ∀ other ∈ above, ¬ Path.same path other := by simpa using up
      rw [if_neg up, List.takeWhile_cons_of_pos (by simpa using up), List.find?_cons]
      cases known : f.atPath? path with
      | some d => exact .known beside known
      | none =>
        cases read : f.files.read? path with
        | some text => exact .read beside known read
        | none => exact ih

theorem resolve_outcome (f : Family) (d : DocumentId) (id : ItemId) :
    f.Outcome (d, id) (f.chain d) (f.target? d id) (f.resolve d id) := by
  unfold target? resolve
  cases (f.document d).tree.firstText? id with
  | none => exact .nowhere
  | some name =>
    dsimp only
    split
    · exact .nowhere
    · exact lookUpAmong_outcome ..

/-- An item that includes a document and was not asked for yet. -/
def Unasked (f : Family) (d : DocumentId) (id : ItemId) : Prop :=
  (f.document d).tree.kind id = .inclusion ∧ f.inclusions.lookup (d, id) = none

theorem Unasked.inside {f : Family} {d : DocumentId} {id : ItemId} (unasked : f.Unasked d id) :
    d < f.documents.size :=
  inside_of_inclusion unasked.1

theorem included_outcome {f : Family} {d : DocumentId} {id : ItemId} (unasked : f.Unasked d id) :
    ∃ found g, f.Outcome (d, id) (f.chain d) (f.target? d id) (found, g) ∧
      (included d id).run f = (found, g.remember (d, id) found) := by
  refine ⟨_, _, resolve_outcome f d id, ?_⟩
  rw [included_eq, unasked.1, unasked.2]
  rfl

theorem included_same {f : Family} {d : DocumentId} {id : ItemId} (asked : ¬ f.Unasked d id) :
    ((included d id).run f).2 = f := by
  rw [included_eq]
  split
  · rfl
  · rename_i kind
    cases answered : f.inclusions.lookup (d, id) with
    | some found => rfl
    | none => exact absurd ⟨by simpa using kind, answered⟩ asked

theorem included_known {f g : Family} {d : DocumentId} {id : ItemId} {found : Option DocumentId}
    (inclusion : (f.document d).tree.kind id = .inclusion) (answer : (included d id).run f = (found, g)) :
    g.inclusions.lookup (d, id) = some found := by
  rw [included_eq, if_neg (by simp [inclusion])] at answer
  cases known : f.inclusions.lookup (d, id) with
  | some other =>
    rw [known] at answer
    cases answer
    exact known
  | none =>
    rw [known] at answer
    cases answer
    rw [lookup_remember, if_pos rfl]

section Chain

variable {f g : Family} {d : DocumentId}

theorem climb_lt (sound : f.Sound) (n : Nat) (there : d < f.documents.size) :
    ∀ e ∈ f.climb n d, e < f.documents.size := by
  induction n generalizing d with
  | zero => simpa [climb] using there
  | succ n ih =>
    rw [climb]
    split
    · rename_i above item included
      have smaller := sound.above d above item included
      simpa using ⟨there, ih (Nat.lt_trans smaller there)⟩
    · simpa using there

/-- The way up from a document does not change, and looking further up finds no more. -/
theorem climb_grown (sound : f.Sound) (grown : f.Grows g) (there : d < f.documents.size) {n m : Nat}
    (enough : d < n) (more : d < m) : g.climb m d = f.climb n d := by
  induction n generalizing d m with
  | zero => exact absurd enough (Nat.not_lt_zero d)
  | succ n ih =>
    obtain ⟨m, rfl⟩ := Nat.exists_eq_succ_of_ne_zero (Nat.ne_zero_of_lt more)
    rw [climb, climb, grown.documents d there]
    split
    · rename_i above item included
      have smaller := sound.above d above item included
      rw [ih (Nat.lt_trans smaller there) (Nat.lt_of_lt_of_le smaller (Nat.le_of_lt_succ enough))
        (Nat.lt_of_lt_of_le smaller (Nat.le_of_lt_succ more))]
    · rfl

theorem chain_grown (sound : f.Sound) (grown : f.Grows g) (there : d < f.documents.size) :
    g.chain d = f.chain d := by
  unfold chain
  rw [climb_grown sound grown there there (Nat.lt_of_lt_of_le there grown.size)]
  apply List.filterMap_congr
  intro e mem
  rw [grown.documents e (climb_lt sound _ there e mem)]

end Chain

/-- The path that an included document was read at, and the item that it was read for, which leads to it
since. The path is none of those above. -/
structure ReadAt (f : Family) (d : DocumentId) (path : String) (place : DocumentId × ItemId) : Prop where
  filename : (f.document d).filename = some path
  includedFrom : (f.document d).includedFrom = some place
  leads : f.inclusions.lookup place = some (some d)
  text : (f.files.read? path).isSome
  apart : ∀ other ∈ f.chain place.1, ¬ Path.same path other

/-- How the documents of a family are linked. The first one is the root. -/
structure Linked (f : Family) : Prop where
  root : 0 < f.documents.size
  top : (f.document 0).includedFrom = none
  read : ∀ d, d ≠ 0 → d < f.documents.size → ∃ path place, f.ReadAt d path place
  once : ∀ d e p q, d ≠ 0 → e ≠ 0 → (f.document d).filename = some p →
    (f.document e).filename = some q → Path.same p q → d = e
  inner : ∀ place d, f.inclusions.lookup place = some (some d) → d ≠ 0
  asked : ∀ place found, f.inclusions.lookup place = some found →
    (f.document place.1).tree.kind place.2 = .inclusion

section Linked

variable {f g : Family} {d : DocumentId} {id : ItemId} {path : String} {place : DocumentId × ItemId}

theorem ReadAt.grown (read : f.ReadAt d path place) (sound : f.Sound) (grown : f.Grows g)
    (there : d < f.documents.size) : g.ReadAt d path place where
  filename := by rw [grown.documents d there, read.filename]
  includedFrom := by rw [grown.documents d there, read.includedFrom]
  leads := grown.inclusions place (some d) read.leads
  text := by rw [grown.files, read.text]
  apart other above := by
    have inside := Nat.lt_trans (sound.above d place.1 place.2 read.includedFrom) there
    rw [chain_grown sound grown inside] at above
    exact read.apart other above

theorem atPath_eq_some (known : f.atPath? path = some d) :
    d ≠ 0 ∧ ∃ filename, (f.document d).filename = some filename ∧ Path.same path filename := by
  have here := List.find?_some known
  simp only [Bool.and_eq_true, bne_iff_ne, Option.any_eq_true] at here
  exact here

theorem atPath_eq_none (unknown : f.atPath? path = none) {filename : String} (inner : d ≠ 0)
    (named : (f.document d).filename = some filename) : ¬ Path.same path filename := by
  by_cases there : d < f.documents.size
  · have other := List.find?_eq_none.mp unknown d (List.mem_range.mpr there)
    simpa [inner, named] using other
  · rw [document_of_size_le (Nat.le_of_not_lt there)] at named
    cases named

theorem ofText_linked (options : Options) (files : Files) (text : String) (filename : Option String) :
    (ofText options files text filename).Linked where
  root := Nat.one_pos
  top := rfl
  read d inner there := by
    have : d < 1 := there
    omega
  once d e p q inner _ named _ _ := by
    cases d with
    | zero => exact absurd rfl inner
    | succ d => cases named
  inner _ _ known := by cases known
  asked _ _ known := by cases known

theorem remember_linked (linked : f.Linked) (sound : f.Sound) (unasked : f.Unasked d id)
    {found : Option DocumentId} (inner : ∀ e ∈ found, e ≠ 0) : (f.remember (d, id) found).Linked where
  root := linked.root
  top := linked.top
  read e below there := by
    obtain ⟨path, place, read⟩ := linked.read e below there
    exact ⟨path, place, read.grown sound (remember_grows unasked.2 found) there⟩
  once := linked.once
  inner place e known := by
    rw [lookup_remember] at known
    split at known
    · exact inner e (Option.some.inj known)
    · exact linked.inner place e known
  asked place answer known := by
    rw [lookup_remember] at known
    split at known
    · rename_i here
      subst here
      exact unasked.1
    · exact linked.asked place answer known

theorem push_once (linked : f.Linked) (unknown : f.atPath? path = none) {new : Document}
    (new_path : new.filename = some path) {a b : DocumentId} {p q : String} (a_inner : a ≠ 0) (b_inner : b ≠ 0)
    (p_named : ((f.push new).document a).filename = some p)
    (q_named : ((f.push new).document b).filename = some q) (equal : Path.same p q) : a = b := by
  have alone (e : DocumentId) {p q : String} (below : e ≠ 0) (p_last : some path = some p)
      (q_named : (f.document e).filename = some q) : ¬ Path.same p q := by
    cases p_last
    exact atPath_eq_none unknown below q_named
  rw [push_document] at p_named q_named
  split at p_named <;> split at q_named
  · rename_i a_last b_last
    rw [a_last, b_last]
  · rw [new_path] at p_named
    exact absurd equal (alone b b_inner p_named q_named)
  · rw [new_path] at q_named
    refine absurd ?_ (alone a a_inner q_named p_named)
    rw [Path.same_iff] at equal ⊢
    exact equal.symm
  · exact linked.once a b p q a_inner b_inner p_named q_named equal

/-- A document that is read for an item at a path that none had before. -/
theorem read_linked (linked : f.Linked) (sound : f.Sound) (unasked : f.Unasked d id) {text : String}
    (beside : ∀ other ∈ f.chain d, ¬ Path.same path other) (unknown : f.atPath? path = none)
    (here : f.files.read? path = some text) :
    ((f.push (.ofText f.options text (some path) (some (d, id)))).remember (d, id)
      (some f.documents.size)).Linked := by
  generalize made : Document.ofText f.options text (some path) (some (d, id)) = new
  have new_path : new.filename = some path := by
    rw [← made]
    rfl
  have new_place : new.includedFrom = some (d, id) := by
    rw [← made]
    rfl
  have last : (f.push new).document f.documents.size = new := by rw [push_document, if_pos rfl]
  have all : f.Grows ((f.push new).remember (d, id) (some f.documents.size)) := by
    have unknown_place : (f.push new).inclusions.lookup (d, id) = none := unasked.2
    exact (push_grows f new).trans (remember_grows unknown_place _)
  constructor
  case root => exact Nat.lt_of_lt_of_le linked.root all.size
  case top => rw [all.documents 0 linked.root, linked.top]
  case read =>
    intro e below there
    -- only the document that was just read is new, and it was read for this very place
    by_cases old : e < f.documents.size
    · obtain ⟨path, place, read⟩ := linked.read e below old
      exact ⟨path, place, read.grown sound all old⟩
    · have new_one : e = f.documents.size := by
        apply Nat.le_antisymm _ (Nat.le_of_not_lt old)
        exact Nat.le_of_lt_succ (Nat.lt_of_lt_of_eq there (Array.size_push new))
      subst new_one
      refine ⟨path, (d, id), ?_⟩
      constructor
      case filename => exact last.symm ▸ new_path
      case includedFrom => exact last.symm ▸ new_place
      case leads => rw [lookup_remember, if_pos rfl]
      case text =>
        rw [all.files, here]
        rfl
      case apart =>
        rw [chain_grown sound all unasked.inside]
        exact beside
  case once =>
    intro a b p q a_inner b_inner p_named q_named equal
    exact push_once linked unknown new_path a_inner b_inner p_named q_named equal
  case inner =>
    intro place e known
    rw [lookup_remember] at known
    split at known
    · cases known
      exact Nat.ne_of_gt linked.root
    · exact linked.inner place e known
  case asked =>
    intro place found known
    rw [lookup_remember] at known
    split at known
    · rename_i here
      subst here
      rw [all.documents d unasked.inside]
      exact unasked.1
    · have inclusion := linked.asked place found known
      rw [all.documents place.1 (inside_of_inclusion inclusion)]
      exact inclusion

theorem included_linked (linked : f.Linked) (sound : f.Sound) (d : DocumentId) (id : ItemId) :
    ((included d id).run f).2.Linked := by
  by_cases unasked : f.Unasked d id
  · obtain ⟨found, g, outcome, same⟩ := included_outcome unasked
    rw [same]
    generalize f.target? d id = target at outcome
    cases outcome with
    | nowhere => exact remember_linked linked sound unasked (by simp)
    | known beside here =>
      apply remember_linked linked sound unasked
      rintro e ⟨⟩
      exact (atPath_eq_some here).1
    | read beside unknown here => exact read_linked linked sound unasked beside unknown here
  · rw [included_same unasked]
    exact linked

theorem Later.linked (sound : f.Sound) (linked : f.Linked) (later : f.Later g) : g.Linked := by
  induction later with
  | refl => exact linked
  | asked d id earlier ih => exact included_linked ih (earlier.kept sound).2 d id

/-- What is true of the documents of a text, whatever has been asked about them. -/
theorem ofText_askedAll (options : Options) (files : Files) (text : String) (filename : Option String)
    (queries : List Query) :
    let f := (ofText options files text filename).askedAll queries
    f.Sound ∧ f.Linked ∧ f.files = files := by
  have sound := ofText_sound options files text filename
  have later := askedAll_later sound queries
  obtain ⟨grown, after⟩ := later.kept sound
  exact ⟨after, later.linked sound (ofText_linked options files text filename), grown.files⟩

end Linked

/-- The documents above a document, itself first, up to one that was not included. -/
inductive Upward (f : Family) : DocumentId → List DocumentId → Prop
  | top {d : DocumentId} : (f.document d).includedFrom = none → Upward f d [d]
  | under {d above : DocumentId} {item : ItemId} {ds : List DocumentId} :
      (f.document d).includedFrom = some (above, item) → Upward f above ds → Upward f d (d :: ds)

section Upward

variable {f : Family} {d : DocumentId}

theorem climb_upward (sound : f.Sound) {n : Nat} (enough : d ≤ n) : f.Upward d (f.climb n d) := by
  induction n generalizing d with
  | zero =>
    apply Upward.top
    cases from_above : (f.document d).includedFrom with
    | none => rfl
    | some place => exact absurd (sound.above d _ _ from_above) (by simp [Nat.le_zero.mp enough])
  | succ n ih =>
    rw [climb]
    split
    · rename_i above item included
      apply Upward.under included
      exact ih (Nat.le_of_lt_succ (Nat.lt_of_lt_of_le (sound.above d above item included) enough))
    · rename_i top
      exact .top top

theorem chain_under {above : DocumentId} {item : ItemId} (sound : f.Sound)
    (there : d < f.documents.size) (included : (f.document d).includedFrom = some (above, item)) :
    f.chain d = (f.document d).filename.toList ++ f.chain above := by
  have smaller := sound.above d above item included
  obtain ⟨n, size⟩ := Nat.exists_eq_succ_of_ne_zero (Nat.ne_zero_of_lt there)
  have enough : above < n := Nat.lt_of_lt_of_le smaller (Nat.le_of_lt_succ (size ▸ there))
  have same := climb_grown sound (.refl f) (Nat.lt_trans smaller there) enough
    (Nat.lt_trans smaller there)
  unfold chain
  rw [same, size, climb, included]
  cases named : (f.document d).filename <;> simp [named]

theorem root_above (linked : f.Linked) (sound : f.Sound) {filename : String}
    (named : (f.document 0).filename = some filename) (there : d < f.documents.size) :
    filename ∈ f.chain d := by
  induction d using Nat.strongRecOn with
  | ind d ih =>
    by_cases root : d = 0
    · subst root
      unfold chain
      apply List.mem_filterMap.mpr
      refine ⟨0, ?_, named⟩
      cases f.documents.size <;> simp [climb, linked.top]
    · obtain ⟨path, place, read⟩ := linked.read d root there
      have smaller := sound.above d place.1 place.2 read.includedFrom
      rw [chain_under sound there read.includedFrom]
      exact List.mem_append_right _ (ih place.1 smaller (Nat.lt_trans smaller there))

theorem chain_apart (linked : f.Linked) (sound : f.Sound) (there : d < f.documents.size) :
    (f.chain d).Pairwise fun p q => ¬ Path.same p q := by
  induction d using Nat.strongRecOn with
  | ind d ih =>
    by_cases root : d = 0
    · subst root
      unfold chain
      cases f.documents.size with
      | zero => simp only [climb, List.filterMap_cons]; split <;> simp
      | succ n => simp only [climb, linked.top, List.filterMap_cons]; split <;> simp
    · obtain ⟨path, place, read⟩ := linked.read d root there
      have smaller := sound.above d place.1 place.2 read.includedFrom
      rw [chain_under sound there read.includedFrom, read.filename]
      exact List.Pairwise.cons read.apart (ih place.1 smaller (Nat.lt_trans smaller there))

theorem filename_once (linked : f.Linked) (sound : f.Sound) {e : DocumentId} {p q : String}
    (d_there : d < f.documents.size) (e_there : e < f.documents.size)
    (d_named : (f.document d).filename = some p) (e_named : (f.document e).filename = some q)
    (same : Path.same p q) : d = e := by
  have root_alone {b : DocumentId} {p q : String} (there : b < f.documents.size) (inner : b ≠ 0)
      (root_named : (f.document 0).filename = some p) (named : (f.document b).filename = some q) :
      ¬ Path.same q p := by
    obtain ⟨path, place, read⟩ := linked.read b inner there
    cases named.symm.trans read.filename
    apply read.apart
    have smaller := sound.above b place.1 place.2 read.includedFrom
    exact root_above linked sound root_named (Nat.lt_trans smaller there)
  by_cases d_root : d = 0
  · by_cases e_root : e = 0
    · rw [d_root, e_root]
    · subst d_root
      refine absurd ?_ (root_alone e_there e_root d_named e_named)
      rw [Path.same_iff] at same ⊢
      exact same.symm
  · by_cases e_root : e = 0
    · subst e_root
      exact absurd same (root_alone d_there d_root e_named d_named)
    · exact linked.once d e p q d_root e_root d_named e_named same

end Upward

/-- What holds of the documents of a family, and of the answers that items were given and will be. -/
structure Consistent (f : Family) : Prop where
  /-- an item asked for the first time leads to the document of the path at which a file is found -/
  found : ∀ d id, f.Unasked d id → ∀ path, f.target? d id = some path →
    ∃ inner filename, ((included d id).run f).1 = some inner ∧
      (((included d id).run f).2.document inner).filename = some filename ∧ Path.same path filename
  /-- it leads nowhere if no file is found -/
  nowhere : ∀ d id, f.Unasked d id → f.target? d id = none → ((included d id).run f).1 = none
  /-- two items that lead to the same path, whichever is asked for first, lead to one document -/
  shared : ∀ d id path, f.Unasked d id → f.target? d id = some path →
    ∀ (queries : List Query), let g := (f.asked ⟨d, .inclusion id⟩).askedAll queries
    ∀ e other otherPath, g.Unasked e other → g.target? e other = some otherPath →
      Path.same path otherPath → ((included e other).run g).1 = ((included d id).run f).1
  /-- no file is read for two documents -/
  once : ∀ d e p q, d < f.documents.size → e < f.documents.size →
    (f.document d).filename = some p → (f.document e).filename = some q → Path.same p q → d = e
  /-- an item keeps its answer, whatever is asked in between -/
  again : ∀ d id (queries : List Query), d < f.documents.size →
    ((included d id).run ((f.asked ⟨d, .inclusion id⟩).askedAll queries)).1 =
      ((included d id).run f).1
  /-- the item that a document was included from leads to it -/
  mirrored : ∀ d above id, (f.document d).includedFrom = some (above, id) →
    ((included above id).run f).1 = some d
  /-- the way up from a document ends and meets no path twice -/
  upward : ∀ d, d < f.documents.size → ∃ ds, f.Upward d ds ∧
    (ds.filterMap fun e => (f.document e).filename).Pairwise fun p q => ¬ Path.same p q

section Consistent

variable {f g : Family} {d : DocumentId} {id : ItemId}

/-- The document that is found for a path, as it is after it was found. -/
theorem Outcome.filename {place : DocumentId × ItemId} {above : List String} {path : String}
    {found : Option DocumentId} (outcome : f.Outcome place above (some path) (found, g)) :
    ∃ inner filename, found = some inner ∧ (g.document inner).filename = some filename ∧
      Path.same path filename := by
  cases outcome with
  | known _ here =>
    obtain ⟨_, filename, named, same⟩ := atPath_eq_some here
    exact ⟨_, filename, rfl, named, same⟩
  | read =>
    refine ⟨_, path, rfl, ?_, by simp [Path.same_iff]⟩
    rw [push_document, if_pos rfl]
    rfl

theorem included_filename (unasked : f.Unasked d id) {path : String}
    (target : f.target? d id = some path) :
    ∃ inner filename, ((included d id).run f).1 = some inner ∧
      (((included d id).run f).2.document inner).filename = some filename ∧
      Path.same path filename := by
  obtain ⟨found, g, outcome, same⟩ := included_outcome unasked
  rw [target] at outcome
  rw [same]
  exact outcome.filename

theorem included_nowhere (unasked : f.Unasked d id) (target : f.target? d id = none) :
    ((included d id).run f).1 = none := by
  obtain ⟨found, g, outcome, same⟩ := included_outcome unasked
  rw [target] at outcome
  rw [same]
  cases outcome
  rfl

theorem asked_inclusion (there : d < f.documents.size) :
    f.asked ⟨d, .inclusion id⟩ = ((included d id).run f).2 :=
  if_pos there

theorem inclusion_again (id : ItemId) (sound : f.Sound) (there : d < f.documents.size) (queries : List Query) :
    let g := (f.asked ⟨d, .inclusion id⟩).askedAll queries
    f.Grows g ∧ g.Sound ∧ ((included d id).run f).2.Grows g ∧
      (included d id).run g = (((included d id).run f).1, g) := by
  have lasting := included_lasting sound there id
  rw [asked_inclusion there]
  obtain ⟨first, after⟩ := lasting.kept sound
  obtain ⟨grown, last⟩ := (askedAll_later after queries).kept after
  exact ⟨first.trans grown, last, grown, lasting.again _ grown⟩

theorem inclusions_shared (linked : f.Linked) (sound : f.Sound) (unasked : f.Unasked d id)
    {path : String} (target : f.target? d id = some path) (queries : List Query) :
    let g := (f.asked ⟨d, .inclusion id⟩).askedAll queries
    ∀ e other otherPath, g.Unasked e other → g.target? e other = some otherPath →
      Path.same path otherPath →
        ((included e other).run g).1 = ((included d id).run f).1 := by
  intro g e other otherPath later_unasked later_target same
  obtain ⟨_, g_sound, g_grown, _⟩ := inclusion_again id sound unasked.inside queries
  obtain ⟨inner, filename, answer, named, path_same⟩ := included_filename unasked target
  obtain ⟨otherInner, otherName, other_answer, other_named, other_same⟩ :=
    included_filename later_unasked later_target
  have inside := (included_lasting sound unasked.inside id).answer inner answer
  have other_lasting := included_lasting g_sound later_unasked.inside other
  have other_inside := other_lasting.answer otherInner other_answer
  obtain ⟨grown, last_sound⟩ := other_lasting.kept g_sound
  have all := g_grown.trans grown
  have last_linked : ((included e other).run g).2.Linked := by
    apply Later.linked sound linked
    have first := asked_later sound ⟨d, .inclusion id⟩
    have then_all := askedAll_later (first.kept sound).2 queries
    exact (first.trans then_all).trans other_lasting.later
  rw [answer, other_answer]
  congr 1
  symm
  apply filename_once last_linked last_sound (Nat.lt_of_lt_of_le inside all.size) other_inside
    (by rw [all.documents inner inside, named]) other_named
  rw [Path.same_iff] at *
  rw [← path_same, same, other_same]

theorem mirrored_inclusion (linked : f.Linked) {above : DocumentId}
    (from_above : (f.document d).includedFrom = some (above, id)) :
    (included above id).run f = (some d, f) := by
  have there : d < f.documents.size := by
    by_contra outside
    rw [document_of_size_le (Nat.le_of_not_lt outside)] at from_above
    cases from_above
  have inner : d ≠ 0 := by
    rintro rfl
    cases from_above.symm.trans linked.top
  obtain ⟨path, place, read⟩ := linked.read d inner there
  cases from_above.symm.trans read.includedFrom
  rw [included_eq, linked.asked _ _ read.leads, read.leads]
  rfl

theorem Linked.consistent (linked : f.Linked) (sound : f.Sound) : f.Consistent where
  found _ _ unasked _ target := included_filename unasked target
  nowhere _ _ := included_nowhere
  shared _ _ _ unasked target := inclusions_shared linked sound unasked target
  once _ _ _ _ := filename_once linked sound
  again _ id queries there := by rw [(inclusion_again id sound there queries).2.2.2]
  mirrored _ _ _ from_above := by rw [mirrored_inclusion linked from_above]
  upward d there := by
    refine ⟨f.climb f.documents.size d, ?_, chain_apart linked sound there⟩
    exact climb_upward sound (Nat.le_of_lt there)

/-- Whatever is asked about the documents of a text, in whatever order, its inclusions stay
consistent. -/
theorem inclusions_consistent (options : Options) (files : Files) (text : String)
    (filename : Option String) (queries : List Query) :
    ((ofText options files text filename).askedAll queries).Consistent := by
  obtain ⟨sound, linked, _⟩ := ofText_askedAll options files text filename queries
  exact linked.consistent sound

end Consistent

end Family
end ScoreText
