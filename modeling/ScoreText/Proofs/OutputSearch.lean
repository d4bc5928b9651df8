import Mathlib.Logic.Relation
import ScoreText.Proofs.Expansion
import ScoreText.Proofs.Forest

/-! Whether a document makes a page is a question of what can be reached from it. The search for music and
markup is told by a relation that no limit occurs in. With texts at finitely many paths the search comes to
an end, also where documents include each other in a circle. It finds something just if a document with
music or markup in it can be reached along the answers that the inclusions have been given by then. -/
namespace ScoreText

open Relation

namespace ItemKind

/-- Books, their parts and scores, which are looked into. -/
def isVolume : ItemKind → Bool
  | .book | .bookPart | .score => true
  | _ => false

def isOutput (k : ItemKind) : Bool :=
  k.isMusic || k == .markup

end ItemKind

namespace Tree

/-- What counts for an item: its children, and those of books and scores among them. -/
inductive Counts (t : Tree) : ItemId → ItemId → Prop
  | child {id c : ItemId} : c ∈ t.children id → Counts t id c
  | within {id v c : ItemId} : v ∈ t.children id → (t.kind v).isVolume → Counts t v c → Counts t id c

/-- Some items, and what counts for the books and scores among them. -/
def Among (t : Tree) (items : List ItemId) (c : ItemId) : Prop :=
  ∃ i ∈ items, c = i ∨ (t.kind i).isVolume ∧ t.Counts i c

/-- Whether a document makes a page by itself. -/
def HasOutput (t : Tree) : Prop :=
  ∃ c, t.Counts root c ∧ (t.kind c).isOutput

section Among

variable {t : Tree} {id c i : ItemId} {items : List ItemId}

theorem counts_iff : t.Counts id c ↔ t.Among (t.children id) c := by
  constructor
  · intro counts
    cases counts with
    | child member => exact ⟨c, member, .inl rfl⟩
    | within member volume counts => exact ⟨_, member, .inr ⟨volume, counts⟩⟩
  · rintro ⟨i, member, rfl | ⟨volume, counts⟩⟩
    · exact .child member
    · exact .within member volume counts

theorem among_nil : ¬ t.Among [] c := by
  simp [Among]

theorem among_cons : t.Among (i :: items) c ↔ t.Among [i] c ∨ t.Among items c := by
  simp [Among]

/-- An item alone, unless it is looked into. -/
theorem among_single (closed : ¬ (t.kind i).isVolume) : t.Among [i] c ↔ c = i := by
  simp [Among, closed]

theorem among_volume (volume : (t.kind i).isVolume) : t.Among [i] c ↔ c = i ∨ t.Among (t.children i) c := by
  rw [← counts_iff]
  simp [Among, volume]

end Among

end Tree

namespace Family

/-- A document includes another one if an inclusion that counts in it has been answered so. -/
def Includes (f : Family) (d e : DocumentId) : Prop :=
  ∃ c, (f.document d).tree.Counts Tree.root c ∧ (f.document d).tree.kind c = .inclusion ∧
    f.inclusions.lookup (d, c) = some (some e)

/-- Where a search stands: what has been read, and the documents that were entered. -/
structure Trail where
  family : Family
  seen : List DocumentId

/-- A search among items of a document, one after the other, until something is found. An inclusion is
followed if its document was not entered before. -/
inductive Searched : DocumentId → List ItemId → Trail → Bool → Trail → Prop
  | nil {d : DocumentId} {s : Trail} : Searched d [] s false s
  | stop {d : DocumentId} {c : ItemId} {cs : List ItemId} {s t : Trail} :
      Searched d [c] s true t → Searched d (c :: cs) s true t
  | next {d : DocumentId} {c : ItemId} {cs : List ItemId} {s t u : Trail} {b : Bool} :
      Searched d [c] s false t → Searched d cs t b u → Searched d (c :: cs) s b u
  | output {d : DocumentId} {c : ItemId} {s : Trail} :
      ((s.family.document d).tree.kind c).isOutput → Searched d [c] s true s
  | plain {d : DocumentId} {c : ItemId} {s : Trail} : ¬ ((s.family.document d).tree.kind c).isOutput →
      ¬ ((s.family.document d).tree.kind c).isVolume → (s.family.document d).tree.kind c ≠ .inclusion →
      Searched d [c] s false s
  | volume {d : DocumentId} {c : ItemId} {s t : Trail} {b : Bool} :
      ((s.family.document d).tree.kind c).isVolume →
      Searched d ((s.family.document d).tree.children c) s b t → Searched d [c] s b t
  | left {d : DocumentId} {c : ItemId} {s : Trail} {found : Option DocumentId} {g : Family} :
      (s.family.document d).tree.kind c = .inclusion → (included d c).run s.family = (found, g) →
      (∀ e ∈ found, e ∈ s.seen) → Searched d [c] s false ⟨g, s.seen⟩
  | enters {d e : DocumentId} {c : ItemId} {s t : Trail} {g : Family} {b : Bool} :
      (s.family.document d).tree.kind c = .inclusion → (included d c).run s.family = (some e, g) →
      e ∉ s.seen → Searched e ((g.document e).tree.children Tree.root) ⟨g, e :: s.seen⟩ b t →
      Searched d [c] s b t

section Kinds

theorem inclusion_plain {k : ItemKind} (inclusion : k = .inclusion) : ¬ k.isOutput ∧ ¬ k.isVolume := by
  subst inclusion
  decide

theorem volume_plain {k : ItemKind} (volume : k.isVolume) : ¬ k.isOutput ∧ k ≠ .inclusion := by
  cases k
  case book | bookPart | score => decide
  all_goals cases volume

end Kinds

section Answers

variable {f g h : Family} {d : DocumentId} {c : ItemId} {found : Option DocumentId}

theorem Later.of_answer (answer : (included d c).run f = (found, h)) : f.Later h := by
  have asked : f.Later ((included d c).run f).2 := .asked d c .refl
  rwa [answer] at asked

/-- The answer that an inclusion was given is known from then on. -/
theorem inclusion_answered (sound : f.Sound) (there : d < f.documents.size)
    (inclusion : (f.document d).tree.kind c = .inclusion) (answer : (included d c).run f = (found, h))
    (grown : h.Grows g) :
    (g.document d).tree.kind c = .inclusion ∧ g.inclusions.lookup (d, c) = some found := by
  have asked := ((Later.of_answer answer).kept sound).1
  rw [(asked.trans grown).documents d there]
  exact ⟨inclusion, grown.inclusions _ _ (included_known inclusion answer)⟩

end Answers

/-- A search only reads further documents, and enters further ones. -/
theorem Searched.onward {d : DocumentId} {items : List ItemId} {s t : Trail} {b : Bool} (search : Searched d items s b t) :
    s.family.Later t.family ∧ s.seen ⊆ t.seen := by
  induction search with
  | nil | output | plain => exact ⟨.refl, List.Subset.refl _⟩
  | stop _ ih | volume _ _ ih => exact ih
  | next _ _ first others => exact ⟨first.1.trans others.1, List.Subset.trans first.2 others.2⟩
  | left _ answer => exact ⟨.of_answer answer, List.Subset.refl _⟩
  | enters _ answer _ _ ih =>
    exact ⟨(Later.of_answer answer).trans ih.1, List.Subset.trans (List.subset_cons_self ..) ih.2⟩

/-- A search through an included document is one through a document of a sound family. -/
theorem Searched.entered {d e : DocumentId} {c : ItemId} {items : List ItemId} {s t : Trail} {g h : Family} {b : Bool}
    {seen : List DocumentId} (search : Searched e items ⟨h, seen⟩ b t) (sound : s.family.Sound)
    (there : d < s.family.documents.size) (answer : (included d c).run s.family = (some e, h))
    (grown : t.family.Grows g) : h.Sound ∧ e < h.documents.size ∧ h.Grows g := by
  have after := ((Later.of_answer answer).kept sound).2
  have inside := (included_lasting sound there c).answer
  rw [answer] at inside
  exact ⟨after, inside e rfl, ((search.onward.1).kept after).1.trans grown⟩

section Nothing

/-- Nothing is found among some items: no output, and inclusions lead only to documents that were entered. -/
structure Quiet (g : Family) (seen : List DocumentId) (d : DocumentId) (items : List ItemId) : Prop where
  silent : ∀ c, (g.document d).tree.Among items c → ¬ ((g.document d).tree.kind c).isOutput
  entered : ∀ c, (g.document d).tree.Among items c → (g.document d).tree.kind c = .inclusion →
    ∀ e, g.inclusions.lookup (d, c) = some (some e) → e ∈ seen

variable {g : Family} {seen : List DocumentId} {d : DocumentId} {c : ItemId} {cs : List ItemId}

theorem Quiet.cons (first : g.Quiet seen d [c]) (others : g.Quiet seen d cs) : g.Quiet seen d (c :: cs) where
  silent i among := (Tree.among_cons.mp among).elim (first.silent i) (others.silent i)
  entered i among := (Tree.among_cons.mp among).elim (first.entered i) (others.entered i)

theorem Quiet.volume (volume : ((g.document d).tree.kind c).isVolume)
    (inside : g.Quiet seen d ((g.document d).tree.children c)) : g.Quiet seen d [c] := by
  obtain ⟨silent, other⟩ := volume_plain volume
  constructor
  · intro i among
    rcases (Tree.among_volume volume).mp among with rfl | among
    · exact silent
    · exact inside.silent i among
  · intro i among inclusion
    rcases (Tree.among_volume volume).mp among with rfl | among
    · exact absurd inclusion other
    · exact inside.entered i among inclusion

theorem Quiet.inclusion {found : Option DocumentId} (inclusion : (g.document d).tree.kind c = .inclusion)
    (known : g.inclusions.lookup (d, c) = some found) (entered : ∀ e ∈ found, e ∈ seen) : g.Quiet seen d [c] := by
  obtain ⟨silent, closed⟩ := inclusion_plain inclusion
  constructor
  · intro i among
    obtain rfl := (Tree.among_single closed).mp among
    exact silent
  · intro i among _ e answer
    obtain rfl := (Tree.among_single closed).mp among
    exact entered e (Option.some.inj (known.symm.trans answer))

/-- A search that finds nothing leaves no output behind: not among its items, and not in a document that
it entered. -/
theorem Searched.quiet {items : List ItemId} {s t : Trail} {b : Bool} (search : Searched d items s b t)
    (nothing : b = false) (sound : s.family.Sound) (there : d < s.family.documents.size)
    (grown : t.family.Grows g) (more : t.seen ⊆ seen) :
    g.Quiet seen d items ∧
      ∀ e ∈ t.seen, e ∉ s.seen → g.Quiet seen e ((g.document e).tree.children Tree.root) := by
  induction search with
  | nil => exact ⟨⟨fun _ among => absurd among Tree.among_nil, fun _ among => absurd among Tree.among_nil⟩,
      fun e inside outside => absurd inside outside⟩
  | stop | output => cases nothing
  | @next d c cs s t u b first others ih_first ih_others =>
    obtain ⟨later, _⟩ := first.onward
    obtain ⟨rest_later, rest_seen⟩ := others.onward
    obtain ⟨first_grown, after⟩ := later.kept sound
    have rest_grown := (rest_later.kept after).1
    obtain ⟨quiet, entered⟩ := ih_first rfl sound there (rest_grown.trans grown) (List.Subset.trans rest_seen more)
    obtain ⟨quiet_rest, entered_rest⟩ :=
      ih_others nothing after (Nat.lt_of_lt_of_le there first_grown.size) grown more
    refine ⟨quiet.cons quiet_rest, fun e inside outside => ?_⟩
    by_cases early : e ∈ t.seen
    · exact entered e early outside
    · exact entered_rest e inside early
  | @plain d c s silent closed other =>
    rw [← grown.documents d there] at silent closed other
    refine ⟨⟨fun i among => ?_, fun i among inclusion => ?_⟩, fun e inside outside => absurd inside outside⟩
    · obtain rfl := (Tree.among_single closed).mp among
      exact silent
    · obtain rfl := (Tree.among_single closed).mp among
      exact absurd inclusion other
  | @volume d c s t b volume search ih =>
    obtain ⟨inside, entered⟩ := ih nothing sound there grown more
    have same := (((search.onward.1).kept sound).1.trans grown).documents d there
    rw [← same] at volume inside
    exact ⟨inside.volume volume, entered⟩
  | @left d c s found h inclusion answer within =>
    obtain ⟨inclusion, known⟩ := inclusion_answered sound there inclusion answer grown
    exact ⟨.inclusion inclusion known fun e led => more (within e led),
      fun e inside outside => absurd inside outside⟩
  | @enters d e c s t h b inclusion answer outside search ih =>
    obtain ⟨after, inside, grown_on⟩ := search.entered sound there answer grown
    obtain ⟨inclusion, known⟩ := inclusion_answered sound there inclusion answer grown_on
    obtain ⟨quiet, entered⟩ := ih nothing after inside grown more
    rw [← grown_on.documents e inside] at quiet
    refine ⟨.inclusion inclusion known ?_, fun x inside outside => ?_⟩
    · rintro _ ⟨⟩
      exact more (search.onward.2 List.mem_cons_self)
    · by_cases first : x = e
      · exact first ▸ quiet
      · exact entered x inside (by simp [first, outside])

theorem silent_reached (quiet : ∀ e ∈ seen, g.Quiet seen e ((g.document e).tree.children Tree.root))
    {e : DocumentId} (start : d ∈ seen) (reached : ReflTransGen g.Includes d e) :
    e ∈ seen ∧ ¬ (g.document e).tree.HasOutput := by
  have inside : e ∈ seen := by
    induction reached with
    | refl => exact start
    | tail _ includes ih =>
      obtain ⟨c, counts, inclusion, answer⟩ := includes
      exact (quiet _ ih).entered c (Tree.counts_iff.mp counts) inclusion _ answer
  refine ⟨inside, ?_⟩
  rintro ⟨c, counts, output⟩
  exact (quiet e inside).silent c (Tree.counts_iff.mp counts) output

end Nothing

section Something

/-- Something is found among some items: output, or an inclusion from where output can be reached. -/
def Yields (g : Family) (d : DocumentId) (items : List ItemId) : Prop :=
  ∃ c, (g.document d).tree.Among items c ∧
    (((g.document d).tree.kind c).isOutput ∨
      (g.document d).tree.kind c = .inclusion ∧ ∃ e, g.inclusions.lookup (d, c) = some (some e) ∧
        ∃ last, ReflTransGen g.Includes e last ∧ (g.document last).tree.HasOutput)

variable {g : Family} {d : DocumentId}

/-- What is found among the items of a document can be reached from the document. -/
theorem Yields.reached (yields : g.Yields d ((g.document d).tree.children Tree.root)) :
    ∃ e, ReflTransGen g.Includes d e ∧ (g.document e).tree.HasOutput := by
  obtain ⟨c, among, output | ⟨inclusion, e, answer, last, reached, output⟩⟩ := yields
  · exact ⟨d, .refl, c, Tree.counts_iff.mpr among, output⟩
  · exact ⟨last, .head ⟨c, Tree.counts_iff.mpr among, inclusion, answer⟩ reached, output⟩

theorem Searched.yields {items : List ItemId} {s t : Trail} {b : Bool} (search : Searched d items s b t)
    (something : b = true) (sound : s.family.Sound) (there : d < s.family.documents.size)
    (grown : t.family.Grows g) : g.Yields d items := by
  induction search with
  | nil | plain | left => cases something
  | stop _ ih =>
    obtain ⟨i, among, found⟩ := ih something sound there grown
    exact ⟨i, Tree.among_cons.mpr (.inl among), found⟩
  | next first _ _ ih =>
    obtain ⟨first_grown, after⟩ := first.onward.1.kept sound
    obtain ⟨i, among, found⟩ := ih something after (Nat.lt_of_lt_of_le there first_grown.size) grown
    exact ⟨i, Tree.among_cons.mpr (.inr among), found⟩
  | @output d c s output =>
    rw [← grown.documents d there] at output
    exact ⟨c, ⟨c, List.mem_singleton_self c, .inl rfl⟩, .inl output⟩
  | @volume d c s t b volume search ih =>
    obtain ⟨i, among, found⟩ := ih something sound there grown
    have same := ((search.onward.1.kept sound).1.trans grown).documents d there
    rw [← same] at volume among
    exact ⟨i, (Tree.among_volume volume).mpr (.inr among), found⟩
  | @enters d e c s t h b inclusion answer outside search ih =>
    obtain ⟨after, inside, grown_on⟩ := search.entered sound there answer grown
    obtain ⟨inclusion, known⟩ := inclusion_answered sound there inclusion answer grown_on
    have yields := ih something after inside grown
    rw [← grown_on.documents e inside] at yields
    exact ⟨c, ⟨c, List.mem_singleton_self c, .inl rfl⟩, .inr ⟨inclusion, e, known, yields.reached⟩⟩

end Something

/-- A number that no document has stands for an empty one, in which nothing counts. -/
theorem start_empty : Tree.start.children Tree.root = [] ∧ ∀ c, ¬ Tree.start.Counts Tree.root c := by
  have bare : Tree.start.children Tree.root = [] := rfl
  refine ⟨bare, fun c counts => ?_⟩
  have among := Tree.counts_iff.mp counts
  rw [bare] at among
  exact Tree.among_nil among

/-- A search through a whole document finds something just if output can be reached from it. -/
theorem Searched.iff_reached {d : DocumentId} {f : Family} {t : Trail} {b : Bool} (sound : f.Sound)
    (search : Searched d ((f.document d).tree.children Tree.root) ⟨f, [d]⟩ b t) :
    b = true ↔ ∃ e, ReflTransGen t.family.Includes d e ∧ (t.family.document e).tree.HasOutput := by
  by_cases there : d < f.documents.size
  · obtain ⟨later, seen⟩ := search.onward
    have same := (later.kept sound).1.documents d there
    constructor
    · intro something
      have yields := search.yields something sound there (.refl _)
      rw [← same] at yields
      exact yields.reached
    · rintro ⟨e, reached, output⟩
      by_contra nothing
      obtain ⟨quiet, entered⟩ := search.quiet (by simpa using nothing) sound there (.refl _) (List.Subset.refl _)
      rw [← same] at quiet
      have all : ∀ x ∈ t.seen, t.family.Quiet t.seen x ((t.family.document x).tree.children Tree.root) := by
        intro x inside
        by_cases first : x = d
        · exact first ▸ quiet
        · exact entered x inside (by simpa using first)
      exact (silent_reached all (seen List.mem_cons_self) reached).2 output
  · have empty : (f.document d).tree = .start := by rw [document_of_size_le (Nat.le_of_not_lt there)]
    obtain ⟨bare, nothing⟩ := start_empty
    rw [empty, bare] at search
    cases search
    simp only [Bool.false_eq_true, false_iff]
    rintro ⟨e, reached, c, counts, _⟩
    rcases reached.cases_head with rfl | ⟨_, ⟨c, counts, _⟩, _⟩
    · exact nothing c (empty ▸ counts)
    · exact nothing c (empty ▸ counts)

section Run

/-- What a search comes to, and where it ends. -/
def ending (act : Searching Bool) (s : Trail) : Bool × Trail :=
  let ended := (act.run s.seen).run s.family
  (ended.1.1, ⟨ended.2, ended.1.2⟩)

/-- What is done with an included document. -/
def enterOnce (enter : DocumentId → Searching Bool) (inner : DocumentId) : Searching Bool := do
  if (← get).contains inner then return false else enter inner

/-- What is done with a child of an item. -/
def attempt (enter : DocumentId → Searching Bool) (d : DocumentId) (tree : Tree) (n : Nat) (c : ItemId) :
    Searching Bool :=
  match tree.kind c with
  | .markup => return true
  | .book | .bookPart | .score => outputBelow enter d tree n c
  | .inclusion => do
    match ← included d c with
    | none => return false
    | some inner => enterOnce enter inner
  | kind => return kind.isMusic

variable {enter : DocumentId → Searching Bool} {d : DocumentId} {tree : Tree} {n : Nat} {c id : ItemId} {s : Trail}

theorem ending_root :
    ending (outputBelow enter d tree (n + 1) Tree.root) s =
      ending ((tree.children Tree.root).anyM (attempt enter d tree n)) ⟨s.family, d :: s.seen⟩ :=
  rfl

theorem outputBelow_inner (inner : id ≠ Tree.root) :
    outputBelow enter d tree (n + 1) id = (tree.children id).anyM (attempt enter d tree n) := by
  rw [outputBelow, if_neg (by simpa using inner)]
  rfl

theorem ending_bind {α : Type} (x : Resolving α) (k : α → Searching Bool) :
    ending (liftM x >>= k) s = ending (k (x.run s.family).1) ⟨(x.run s.family).2, s.seen⟩ :=
  rfl

theorem ending_enterOnce (inner : DocumentId) :
    ending (enterOnce enter inner) s = ending (if s.seen.contains inner then pure false else enter inner) s :=
  rfl

theorem ending_anyM {test : ItemId → Searching Bool} {cs : List ItemId} :
    ending ((c :: cs).anyM test) s =
      if (ending (test c) s).1 then (true, (ending (test c) s).2)
      else ending (cs.anyM test) (ending (test c) s).2 := by
  have step : ending ((c :: cs).anyM test) s =
      ending (if (ending (test c) s).1 then pure true else cs.anyM test) (ending (test c) s).2 := by
    rw [List.anyM_cons]
    rfl
  rw [step]
  split <;> rfl

section Attempt

theorem attempt_output (output : (tree.kind c).isOutput) : attempt enter d tree n c = pure true := by
  unfold attempt
  split
  all_goals simp_all [ItemKind.isOutput, ItemKind.isMusic]

theorem attempt_plain (silent : ¬ (tree.kind c).isOutput) (closed : ¬ (tree.kind c).isVolume)
    (other : tree.kind c ≠ .inclusion) : attempt enter d tree n c = pure false := by
  unfold attempt
  split
  all_goals simp_all [ItemKind.isOutput, ItemKind.isVolume]

theorem attempt_volume (volume : (tree.kind c).isVolume) :
    attempt enter d tree n c = outputBelow enter d tree n c := by
  unfold attempt
  split
  all_goals simp_all [ItemKind.isVolume]

theorem attempt_inclusion (inclusion : tree.kind c = .inclusion) {found : Option DocumentId} {g : Family}
    (answer : (included d c).run s.family = (found, g)) :
    ending (attempt enter d tree n c) s = ending (found.elim (pure false) (enterOnce enter)) ⟨g, s.seen⟩ := by
  unfold attempt
  rw [inclusion]
  dsimp only
  rw [ending_bind, answer]
  cases found <;> rfl

theorem attempt_left {found : Option DocumentId} {g : Family} (inclusion : tree.kind c = .inclusion)
    (answer : (included d c).run s.family = (found, g)) (within : ∀ e ∈ found, e ∈ s.seen) :
    ending (attempt enter d tree n c) s = (false, ⟨g, s.seen⟩) := by
  rw [attempt_inclusion inclusion answer]
  cases found with
  | none => rfl
  | some inner =>
    rw [Option.elim_some, ending_enterOnce, if_pos (by simpa using within inner rfl)]
    rfl

theorem attempt_enters {e : DocumentId} {g : Family} (inclusion : tree.kind c = .inclusion)
    (answer : (included d c).run s.family = (some e, g)) (outside : e ∉ s.seen) :
    ending (attempt enter d tree n c) s = ending (enter e) ⟨g, s.seen⟩ := by
  rw [attempt_inclusion inclusion answer, Option.elim_some, ending_enterOnce, if_neg (by simpa using outside)]

end Attempt

section Limits

/-- A search that has not met the limits: there is room for all documents that were not entered. -/
structure Ready (most n : Nat) (s : Trail) : Prop where
  opened : s.family.Opened
  bounded : s.family.Bounded most
  room : closed most s.seen ≤ n

theorem closed_subset {most : Nat} {seen more : List DocumentId} (subset : seen ⊆ more) :
    closed most more ≤ closed most seen := by
  refine Finset.card_le_card (Finset.sdiff_subset_sdiff (Finset.Subset.refl _) fun e member => ?_)
  exact List.mem_toFinset.mpr (subset (List.mem_toFinset.mp member))

variable {most : Nat} {t : Trail}

theorem Ready.onward (ready : Ready most n s) (later : s.family.Later t.family) (subset : s.seen ⊆ t.seen) :
    Ready most n t where
  opened := ready.opened.later later
  bounded := ready.bounded.later later
  room := Nat.le_trans (closed_subset subset) ready.room

/-- Entering a document starts a search through it, as long as there is room. -/
def Enters (most n : Nat) (enter : DocumentId → Searching Bool) : Prop :=
  ∀ s e, Ready most n s → e < s.family.documents.size → e ∉ s.seen →
    Searched e ((s.family.document e).tree.children Tree.root) ⟨s.family, e :: s.seen⟩
      (ending (enter e) s).1 (ending (enter e) s).2

/-- A search through the children of an item of a document, wherever it starts. -/
def Explores (most k : Nat) (d : DocumentId) (tree : Tree) (items : List ItemId) (act : Searching Bool) : Prop :=
  ∀ s, Ready most k s → d < s.family.documents.size → (s.family.document d).tree = tree →
    Searched d items s (ending act s).1 (ending act s).2

variable {k : Nat}

theorem anyM_explores {test : ItemId → Searching Bool} {items : List ItemId}
    (tests : ∀ c ∈ items, Explores most k d tree [c] (test c)) : Explores most k d tree items (items.anyM test) := by
  induction items with
  | nil => exact fun _ _ _ _ => .nil
  | cons c cs ih =>
    intro s ready there same
    have first := tests c List.mem_cons_self s ready there same
    rw [ending_anyM]
    generalize ending (test c) s = ended at first
    obtain ⟨b, t⟩ := ended
    cases b with
    | true => exact .stop first
    | false =>
      obtain ⟨later, subset⟩ := first.onward
      have grown := (later.kept ready.opened.sound).1
      refine .next first (ih (fun c member => tests c (List.mem_cons_of_mem _ member)) t
        (ready.onward later subset) (Nat.lt_of_lt_of_le there grown.size) ?_)
      rw [grown.documents d there, same]

/-- An attempt at a child searches it, if what is looked into is. -/
theorem attempt_explores (entered : Enters most k enter)
    (below : (tree.kind c).isVolume → Explores most k d tree (tree.children c) (outputBelow enter d tree n c)) :
    Explores most k d tree [c] (attempt enter d tree n c) := by
  intro s ready there same
  by_cases output : (tree.kind c).isOutput
  · rw [attempt_output output]
    exact .output (same ▸ output)
  · by_cases volume : (tree.kind c).isVolume
    · rw [attempt_volume volume]
      exact .volume (same ▸ volume) (same ▸ below volume s ready there same)
    · by_cases inclusion : tree.kind c = .inclusion
      · have lasting := included_lasting ready.opened.sound there c
        have later := lasting.later
        have found_inside := lasting.answer
        generalize asked : (included d c).run s.family = answer at later found_inside
        obtain ⟨found, g⟩ := answer
        by_cases within : ∀ e ∈ found, e ∈ s.seen
        · rw [attempt_left inclusion asked within]
          exact .left (same ▸ inclusion) asked within
        · obtain ⟨e, rfl, outside⟩ : ∃ e, found = some e ∧ e ∉ s.seen := by simpa using within
          rw [attempt_enters inclusion asked outside]
          have after : Ready most k ⟨g, s.seen⟩ := ready.onward later (List.Subset.refl _)
          exact .enters (same ▸ inclusion) asked outside (entered ⟨g, s.seen⟩ e after (found_inside e rfl) outside)
      · rw [attempt_plain output volume inclusion]
        exact .plain (same ▸ output) (same ▸ volume) (same ▸ inclusion)

/-- All that counts for an item is searched. The rank of an item is larger than those of its children. -/
theorem below_explores {whole : Prop} {b : Nat} {rank : ItemId → Nat} (entered : Enters most k enter)
    (laid : tree.Laid whole b) (ranked : tree.Ranked rank) (n : Nat) {id : ItemId} (inner : id ≠ Tree.root)
    (enough : rank id < n) : Explores most k d tree (tree.children id) (outputBelow enter d tree n id) := by
  induction n generalizing id with
  | zero => exact absurd enough (Nat.not_lt_zero _)
  | succ n ih =>
    rw [outputBelow_inner inner]
    refine anyM_explores fun c member => attempt_explores entered fun _ => ?_
    have positive := (laid.inside id c (.inl member)).1
    exact ih (Nat.ne_of_gt positive)
      (Nat.lt_of_lt_of_le (ranked.held id c (.inl member)) (Nat.le_of_lt_succ enough))

/-- A search with enough room enters documents, each only once. -/
theorem outputWithin_enters (n : Nat) : Enters most n fun e => outputWithin n e Tree.root := by
  induction n with
  | zero =>
    intro s e ready there outside
    have fewer := closed_cons outside (Nat.lt_of_lt_of_le there (ready.bounded _ .refl))
    exact absurd (Nat.lt_of_lt_of_le fewer ready.room) (Nat.not_lt_zero _)
  | succ n ih =>
    intro s e ready there outside
    have fewer := closed_cons outside (Nat.lt_of_lt_of_le there (ready.bounded _ .refl))
    have room : Ready most n ⟨s.family, e :: s.seen⟩ :=
      ⟨ready.opened, ready.bounded, Nat.le_of_lt_succ (Nat.lt_of_lt_of_le fewer ready.room)⟩
    obtain ⟨text, filename, place, read⟩ := ready.opened.read e there
    obtain ⟨b, laid⟩ := Document.ofText_laid s.family.options text filename place
    rw [← read] at laid
    obtain ⟨rank, ranked⟩ := laid.exists_ranked
    have start : ending (outputWithin (n + 1) e Tree.root) s =
        ending (outputBelow (fun inner => outputWithin n inner Tree.root) e (s.family.document e).tree
          (s.family.document e).tree.size Tree.root) s := rfl
    obtain ⟨size, same⟩ := Nat.exists_eq_succ_of_ne_zero (Nat.ne_of_gt laid.inhabited)
    rw [start, same, ending_root]
    refine anyM_explores (fun c member => attempt_explores ih fun _ => ?_) _ room there rfl
    have positive := (laid.inside _ c (.inl member)).1
    have lower := ranked.held _ c (.inl member)
    have top := ranked.lt_size Tree.root
    exact below_explores ih laid ranked size (Nat.ne_of_gt positive) (by omega)

end Limits

end Run

theorem makesPage_run (f : Family) (d : DocumentId) (id : ItemId) :
    (makesPage d id).run f =
      ((ending (outputWithin (f.files.depthLimit + 1) d id) ⟨f, []⟩).1,
        (ending (outputWithin (f.files.depthLimit + 1) d id) ⟨f, []⟩).2.family) :=
  rfl

theorem makesPage_searched {f : Family} (opened : f.Opened) (bounded : f.Bounded f.files.depthLimit) (d : DocumentId) :
    ∃ seen, Searched d ((f.document d).tree.children Tree.root) ⟨f, [d]⟩ ((makesPage d Tree.root).run f).1
      ⟨((makesPage d Tree.root).run f).2, seen⟩ := by
  rw [makesPage_run]
  by_cases there : d < f.documents.size
  · have room : closed f.files.depthLimit [] ≤ f.files.depthLimit + 1 := by simp [closed]
    exact ⟨_, outputWithin_enters (f.files.depthLimit + 1) ⟨f, []⟩ d ⟨opened, bounded, room⟩ there (by simp)⟩
  · have empty := document_of_size_le (Nat.le_of_not_lt there)
    have start (n : Nat) : ending (outputWithin (n + 1) d Tree.root) ⟨f, []⟩ =
        ending (outputBelow (fun inner => outputWithin n inner Tree.root) d (f.document d).tree
          (f.document d).tree.size Tree.root) ⟨f, []⟩ := rfl
    rw [start, empty]
    exact ⟨[d], .nil⟩

/-- Whether a document makes a page is found by a search that comes to an end, whatever was asked before.
It makes one just if output can be reached from it along the answers that inclusions have been given
by the end of the search. -/
theorem makesPage_iff_reached (options : Options) (paths : List String) (text? : String → Option String)
    (text : String) (filename : Option String) (queries : List Query) (d : DocumentId) :
    let f := (ofText options (.within paths text?) text filename).askedAll queries
    let answer := (makesPage d Tree.root).run f
    (∃ seen, Searched d ((f.document d).tree.children Tree.root) ⟨f, [d]⟩ answer.1 ⟨answer.2, seen⟩) ∧
      (answer.1 = true ↔
        ∃ e, ReflTransGen answer.2.Includes d e ∧ (answer.2.document e).tree.HasOutput) := by
  obtain ⟨sound, linked, files⟩ := ofText_askedAll options (.within paths text?) text filename queries
  have later := askedAll_later (ofText_sound options (.within paths text?) text filename) queries
  obtain ⟨seen, search⟩ := makesPage_searched ⟨_, _, _, _, later⟩ (linked.bounded sound files) d
  have reached := search.iff_reached sound
  exact ⟨⟨seen, search⟩, reached⟩

end Family

end ScoreText
