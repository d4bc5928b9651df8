import ScoreText.Proofs.Ahead
import ScoreText.Proofs.Edits

/-! Levels of items. An item gets a grade when it is added: how many levels of items it may hold. Whatever
it holds later is of a lower level, but for a few items that are read at the level of their holder. Since
grades do not change, what is known about an item goes on to hold while the tree grows. -/
namespace ScoreText

/-- Whether an item is read at the level of the item that it is put into. -/
def Item.joins (child holder : Item) : Bool :=
  match holder.kind, child.kind with
  | .repetition, .alternative => true
  -- the grace notes that an item of their own was added for
  | .afterGrace, .grace => child.token.isNone
  | .repetition, .scheme | .assignment, .scheme | .revert, .scheme | .tweak, .scheme => true
  | _, _ => false

def ItemKind.isLyricMode : ItemKind → Bool
  | .lyricMode | .lyricsTo => true
  | _ => false

/-- Lists and words are what lyrics are nested by. -/
def ItemKind.isSung : ItemKind → Bool
  | .musicList | .lyricText => true
  | _ => false

/-- How an item holds others. -/
inductive Hold where
  /-- as a rule, all that it holds is of a lower level -/
  | plain
  /-- all that it holds is of a lower level, without exception -/
  | strict
  /-- as a list of lyrics -/
  | lyrics
  deriving DecidableEq

structure Grade where
  level : Nat
  hold : Hold

section Fits

variable {t u : Tree} {grade other : ItemId → Grade} {p c : ItemId}

/-- What holds lyrics: a mode of lyrics or a list in one. -/
def HostsLyrics (t : Tree) (grade : ItemId → Grade) (p : ItemId) : Prop :=
  (t.kind p).isLyricMode ∨ (grade p).hold = .lyrics

/-- An item may be held by another one. -/
structure Fits (t : Tree) (grade : ItemId → Grade) (p c : ItemId) : Prop where
  level : (grade c).level < (grade p).level ∨ (grade c).level ≤ (grade p).level ∧
    ((grade p).hold = .plain ∧ (t.item c).joins (t.item p) ∨ HostsLyrics t grade p ∧ (t.kind c).isSung)
  lyrics : (grade c).hold = .lyrics → t.kind c = .musicList ∧ HostsLyrics t grade p

/-- What an item is from the start. -/
structure SameStart (i j : Item) : Prop where
  kind : j.kind = i.kind
  token : j.token = i.token

theorem Item.joins_congr {i j k l : Item} (child : SameStart i j) (holder : SameStart k l) :
    j.joins l = i.joins k := by
  simp only [Item.joins, child.kind, child.token, holder.kind]

theorem Fits.congr (fits : Fits t grade p c) (holder : SameStart (t.item p) (u.item p))
    (child : SameStart (t.item c) (u.item c)) (above : other p = grade p) (below : other c = grade c) :
    Fits u other p c := by
  have hosts : HostsLyrics t grade p → HostsLyrics u other p := by
    simp [HostsLyrics, Tree.kind, holder.kind, above]
  have kind : u.kind c = t.kind c := child.kind
  constructor
  · rw [below, above, Item.joins_congr child holder, kind]
    exact fits.level.imp_right fun at_level => ⟨at_level.1, at_level.2.imp_right fun sung =>
      ⟨hosts sung.1, sung.2⟩⟩
  · rw [below, kind]
    intro lyrics
    exact ⟨(fits.lyrics lyrics).1, hosts (fits.lyrics lyrics).2⟩

end Fits

/-- A tree with grades for its items. -/
structure Graded where
  tree : Tree
  grade : ItemId → Grade
  inside : ∀ p, ∀ c ∈ tree.children p, c < tree.size
  fits : ∀ p, ∀ c ∈ tree.children p, Fits tree grade p c
  scheme : ∀ id < tree.size, tree.kind id = .scheme → 0 < (grade id).level

namespace Graded

variable {g h k : Graded} {p c id : ItemId} {kind : ItemKind} {grade : Grade} {m n : Nat}

/-- A tree later on. -/
structure Later (g h : Graded) : Prop where
  larger : g.tree.size ≤ h.tree.size
  start : ∀ id < g.tree.size, SameStart (g.tree.item id) (h.tree.item id)
  grade : ∀ id < g.tree.size, h.grade id = g.grade id

theorem Later.refl (g : Graded) : g.Later g :=
  ⟨Nat.le_refl _, fun _ _ => ⟨rfl, rfl⟩, fun _ _ => rfl⟩

theorem Later.trans (first : g.Later h) (later : h.Later k) : g.Later k where
  larger := Nat.le_trans first.larger later.larger
  start id old := by
    have again := later.start id (Nat.lt_of_lt_of_le old first.larger)
    exact ⟨again.kind.trans (first.start id old).kind, again.token.trans (first.start id old).token⟩
  grade id old := (later.grade id (Nat.lt_of_lt_of_le old first.larger)).trans (first.grade id old)

/-- An item of a kind and a grade. -/
structure Is (g : Graded) (kind : ItemKind) (grade : Grade) (id : ItemId) : Prop where
  inside : id < g.tree.size
  kind : g.tree.kind id = kind
  grade : g.grade id = grade

/-- An item that is no list of lyrics, with a bound for its level. -/
structure Low (g : Graded) (n : Nat) (id : ItemId) : Prop where
  inside : id < g.tree.size
  level : (g.grade id).level ≤ n
  plain : (g.grade id).hold ≠ .lyrics

/-- An item that items up to a level may be put into. -/
structure Above (g : Graded) (n : Nat) (id : ItemId) : Prop where
  inside : id < g.tree.size
  level : n < (g.grade id).level

theorem Is.later (is : g.Is kind grade id) (later : g.Later h) : h.Is kind grade id where
  inside := Nat.lt_of_lt_of_le is.inside later.larger
  kind := (later.start id is.inside).kind.trans is.kind
  grade := (later.grade id is.inside).trans is.grade

theorem Low.later (low : g.Low n id) (later : g.Later h) : h.Low n id where
  inside := Nat.lt_of_lt_of_le low.inside later.larger
  level := by rw [later.grade id low.inside]; exact low.level
  plain := by rw [later.grade id low.inside]; exact low.plain

theorem Above.later (above : g.Above n id) (later : g.Later h) : h.Above n id where
  inside := Nat.lt_of_lt_of_le above.inside later.larger
  level := by rw [later.grade id above.inside]; exact above.level

theorem Is.low (is : g.Is kind ⟨m, .plain⟩ id) (le : m ≤ n) : g.Low n id := by
  constructor
  · exact is.inside
  · simpa [is.grade] using le
  · simp [is.grade]

theorem Is.above {hold : Hold} (is : g.Is kind ⟨n + 1, hold⟩ id) : g.Above n id := by
  constructor
  · exact is.inside
  · simp [is.grade]

theorem Above.fits (above : g.Above n p) (low : g.Low n c) : Fits g.tree g.grade p c := by
  constructor
  · exact .inl (Nat.lt_of_le_of_lt low.level above.level)
  · simp [low.plain]

theorem Is.fits {holder : ItemKind} {level : Nat} (above : g.Is holder ⟨level, .plain⟩ p)
    (below : g.Is kind ⟨level, .plain⟩ c) (joins : (g.tree.item c).joins (g.tree.item p)) :
    Fits g.tree g.grade p c := by
  constructor
  · simp [above.grade, below.grade, joins]
  · simp [below.grade]

/-- The grades with one for the item that comes next. -/
def gradeNext (g : Graded) (grade : Grade) (id : ItemId) : Grade :=
  if id = g.tree.size then grade else g.grade id

theorem child_push (g : Graded) {kind : ItemKind} {position : Nat} {token : Option Token}
    (member : c ∈ (g.tree.push (.single kind position token)).children p) :
    c ∈ g.tree.children p ∧ p ≠ g.tree.size ∧ c < g.tree.size := by
  rw [Tree.children, Tree.item_push] at member
  split at member
  · simp [Item.single] at member
  · rename_i other
    exact ⟨member, other, g.inside p c member⟩

theorem fits_push (g : Graded) {kind : ItemKind} {position : Nat} {token : Option Token} {grade : Grade}
    (member : c ∈ (g.tree.push (.single kind position token)).children p) :
    Fits (g.tree.push (.single kind position token)) (g.gradeNext grade) p c := by
  obtain ⟨member, other, inside⟩ := g.child_push member
  have old : c ≠ g.tree.size := Nat.ne_of_lt inside
  refine (g.fits p c member).congr ?_ ?_ (if_neg other) (if_neg old)
  · simpa [Tree.item_push, other] using ⟨rfl, rfl⟩
  · simpa [Tree.item_push, old] using ⟨rfl, rfl⟩

theorem scheme_push (g : Graded) {kind : ItemKind} {position : Nat} {token : Option Token} {grade : Grade}
    (scheme : kind = .scheme → 0 < grade.level)
    (inside : id < (g.tree.push (.single kind position token)).size)
    (is : (g.tree.push (.single kind position token)).kind id = .scheme) :
    0 < (g.gradeNext grade id).level := by
  rw [Tree.size_push] at inside
  by_cases last : id = g.tree.size
  · simp only [Tree.kind, Tree.item_push, last, if_true] at is
    simpa [gradeNext, last] using scheme is
  · simp only [Tree.kind, Tree.item_push, last, if_false] at is
    have old : id < g.tree.size := Nat.lt_of_le_of_ne (Nat.le_of_lt_succ inside) last
    simpa [gradeNext, last] using g.scheme id old is

/-- A new item holds nothing yet. -/
def add (g : Graded) (kind : ItemKind) (position : Nat) (token : Option Token) (grade : Grade)
    (scheme : kind = .scheme → 0 < grade.level) : Graded where
  tree := g.tree.push (.single kind position token)
  grade := g.gradeNext grade
  inside _ _ member := Tree.size_push .. ▸ Nat.lt_succ_of_lt (g.child_push member).2.2
  fits _ _ member := g.fits_push member
  scheme _ inside is := g.scheme_push scheme inside is

theorem later_add (g : Graded) (kind : ItemKind) (position : Nat) (token : Option Token) (grade : Grade)
    (scheme : kind = .scheme → 0 < grade.level) : g.Later (g.add kind position token grade scheme) := by
  constructor
  · simp [add, Tree.size_push]
  · intro id old
    simpa [add, Tree.item_push, Nat.ne_of_lt old] using ⟨rfl, rfl⟩
  · intro id old
    simp [add, gradeNext, Nat.ne_of_lt old]

theorem start_update {f : Item → Item} (same : ∀ i, Tree.SamePlace i (f i)) (t : Tree) (id i : ItemId) :
    SameStart (t.item i) ((t.update id f).item i) :=
  ⟨(Tree.place_update same t id i).kind, (Tree.place_update same t id i).token⟩

theorem children_update {f : Item → Item} (same : ∀ i, Tree.SamePlace i (f i)) (t : Tree) (id i : ItemId) :
    (t.update id f).children i = t.children i :=
  (Tree.place_update same t id i).children

/-- The parts of an item that neither place it nor say what it is may be filled in. -/
def update (g : Graded) (id : ItemId) (f : Item → Item) (same : ∀ i, Tree.SamePlace i (f i)) : Graded where
  tree := g.tree.update id f
  grade := g.grade
  inside p c member := by
    rw [children_update same] at member
    rw [Tree.size_update]
    exact g.inside p c member
  fits p c member := by
    rw [children_update same] at member
    exact (g.fits p c member).congr (start_update same ..) (start_update same ..) rfl rfl
  scheme i inside is := by
    rw [Tree.size_update] at inside
    exact g.scheme i inside ((start_update same g.tree id i).kind.symm.trans is)

theorem later_update (g : Graded) (id : ItemId) (f : Item → Item) (same : ∀ i, Tree.SamePlace i (f i)) :
    g.Later (g.update id f same) := by
  constructor
  · simp [update, Tree.size_update]
  · intro i _
    exact start_update same ..
  · intro i _
    rfl

theorem start_append (t : Tree) (p c i : ItemId) : SameStart (t.item i) ((t.append p c).item i) := by
  have detached : SameStart (t.item i) ((t.detach c).item i) := by
    unfold Tree.detach
    split
    · rw [Tree.item_update]
      split <;> exact ⟨rfl, rfl⟩
    · exact ⟨rfl, rfl⟩
  have held : ∀ u : Tree, SameStart (u.item i) ((u.update c fun j => { j with parent := some p }).item i) := by
    intro u
    rw [Tree.item_update]
    split <;> exact ⟨rfl, rfl⟩
  have holding : ∀ u : Tree, SameStart (u.item i) ((u.update p fun j => { j with
      children := j.children ++ [c] }).item i) := by
    intro u
    rw [Tree.item_update]
    split <;> exact ⟨rfl, rfl⟩
  have whole := holding ((t.detach c).update c fun j => { j with parent := some p })
  exact ⟨whole.kind.trans ((held _).kind.trans detached.kind),
    whole.token.trans ((held _).token.trans detached.token)⟩

/-- An item that fits may be put into another one. -/
def append (g : Graded) (p c : ItemId) (there : p < g.tree.size) (added : c < g.tree.size)
    (new : Fits g.tree g.grade p c) : Graded where
  tree := g.tree.append p c
  grade := g.grade
  inside q d member := by
    rw [Tree.size_append]
    rcases Tree.mem_children_append there member with before | ⟨rfl, rfl⟩
    · exact g.inside q d before
    · exact added
  fits q d member := by
    have fits : Fits g.tree g.grade q d := by
      rcases Tree.mem_children_append there member with before | ⟨rfl, rfl⟩
      · exact g.fits q d before
      · exact new
    exact fits.congr (start_append ..) (start_append ..) rfl rfl
  scheme i inside is := by
    rw [Tree.size_append] at inside
    exact g.scheme i inside ((start_append g.tree p c i).kind.symm.trans is)

theorem later_append (there : p < g.tree.size) (added : c < g.tree.size) (new : Fits g.tree g.grade p c) :
    g.Later (g.append p c there added new) := by
  constructor
  · simp [append, Tree.size_append]
  · intro i _
    exact start_append ..
  · intro i _
    rfl

/-- Nothing of its own level was put into a strict item, so it may be from now on. -/
def relax (g : Graded) (id : ItemId) (strict : (g.grade id).hold = .strict) : Graded where
  tree := g.tree
  grade i := if i = id then ⟨(g.grade id).level, .plain⟩ else g.grade i
  inside := g.inside
  fits p c member := by
    have fits := g.fits p c member
    have level : ∀ i, (if i = id then (⟨(g.grade id).level, .plain⟩ : Grade) else g.grade i).level =
        (g.grade i).level := by
      intro i
      split
      · rename_i same
        rw [same]
      · rfl
    have lyrics : ∀ i, (if i = id then (⟨(g.grade id).level, .plain⟩ : Grade) else g.grade i).hold = .lyrics ↔
        (g.grade i).hold = .lyrics := by
      intro i
      split
      · rename_i same
        simp [same, strict]
      · rfl
    have plain : (g.grade p).hold = .plain →
        (if p = id then (⟨(g.grade id).level, .plain⟩ : Grade) else g.grade p).hold = .plain := by
      intro holds
      split
      · rfl
      · exact holds
    constructor
    · simp only [HostsLyrics, level, lyrics]
      exact fits.level.imp_right fun at_level => ⟨at_level.1, at_level.2.imp_left fun joined =>
        ⟨plain joined.1, joined.2⟩⟩
    · simpa only [HostsLyrics, lyrics] using fits.lyrics
  scheme i inside is := by
    split
    · rename_i same
      exact same ▸ g.scheme i inside is
    · exact g.scheme i inside is

theorem Later.relax (later : g.Later h) (new : g.tree.size ≤ id) (strict : (h.grade id).hold = .strict) :
    g.Later (h.relax id strict) where
  larger := later.larger
  start := later.start
  grade i old := (if_neg (Nat.ne_of_lt (Nat.lt_of_lt_of_le old new))).trans (later.grade i old)

theorem Low.relax {id' : ItemId} (low : g.Low n id) (strict : (g.grade id').hold = .strict) :
    (g.relax id' strict).Low n id := by
  constructor
  · exact low.inside
  · by_cases same : id = id'
    · simpa [Graded.relax, ← same] using low.level
    · simpa [Graded.relax, same] using low.level
  · by_cases same : id = id'
    · simp [Graded.relax, same]
    · simpa [Graded.relax, same] using low.plain

theorem Is.relax {level : Nat} (is : g.Is kind ⟨level, .strict⟩ id) (strict : (g.grade id).hold = .strict) :
    (g.relax id strict).Is kind ⟨level, .plain⟩ id := by
  refine ⟨is.inside, is.kind, ?_⟩
  simp [Graded.relax, is.grade]

end Graded

/-- A reading leads from a graded tree to a later one, and what it gives has a property. -/
def Builds {α : Type} (g : Graded) (act : Reading α) (P : α → Graded → Prop) : Prop :=
  ∀ r : Reader, r.tree = g.tree →
    ∃ h, g.Later h ∧ (act.run r).2.tree = h.tree ∧ P (act.run r).1 h

/-- Nothing is asked of what a reading gives. -/
def Any {α : Type} (_ : α) (_ : Graded) : Prop :=
  True

namespace Builds

open Reading

variable {α β : Type} {g : Graded} {x : Reading α} {P Q : α → Graded → Prop} {R : β → Graded → Prop}

theorem pure {a : α} (answer : P a g) : Builds g (Pure.pure a) P :=
  fun _ same => ⟨g, .refl g, same, answer⟩

theorem bind {k : α → Reading β} (first : Builds g x P)
    (next : ∀ a h, g.Later h → P a h → Builds h (k a) R) : Builds g (x >>= k) R := by
  intro r same
  obtain ⟨h, later, tree, answer⟩ := first r same
  obtain ⟨last, further, behind, result⟩ := next _ h later answer _ tree
  exact ⟨last, later.trans further, behind, result⟩

/-- New items may get other grades on the way. -/
theorem regrade {k : α → Reading β} (first : Builds g x P) (next : ∀ a h, g.Later h → P a h →
    ∃ h' : Graded, h'.tree = h.tree ∧ g.Later h' ∧ Builds h' (k a) R) : Builds g (x >>= k) R := by
  intro r same
  obtain ⟨h, later, tree, answer⟩ := first r same
  obtain ⟨h', still, later, builds⟩ := next _ h later answer
  obtain ⟨last, further, behind, result⟩ := builds _ (tree.trans still.symm)
  exact ⟨last, later.trans further, behind, result⟩

theorem mono (builds : Builds g x P) (weaker : ∀ a h, g.Later h → P a h → Q a h) : Builds g x Q := by
  intro r same
  obtain ⟨h, later, tree, answer⟩ := builds r same
  exact ⟨h, later, tree, weaker _ h later answer⟩

theorem any (builds : Builds g x P) : Builds g x Any :=
  builds.mono fun _ _ _ _ => trivial

/-- What leaves the tree alone. -/
theorem still (same : ∀ r, (x.run r).2.tree = r.tree) : Builds g x Any :=
  fun r here => ⟨g, .refl g, (same r).trans here, trivial⟩

theorem get {k : Reader → Reading β} (next : ∀ r, Builds g (k r) R) : Builds g (MonadState.get >>= k) R :=
  fun r same => next r r same

theorem tree {k : Tree → Reading β} (next : Builds g (k g.tree) R) : Builds g (Reading.tree >>= k) R := by
  intro r same
  have here := next r same
  rwa [← same] at here

theorem within {source : Source} (builds : Builds g x P) : Builds g (within source x) P :=
  fun r same => builds { r with source } same

theorem free (builds : Builds g x P) : Builds g (free x) P :=
  within builds

theorem bounded (builds : Builds g x P) : Builds g (bounded x) fun out h => P out.1 h := by
  refine get fun r => within (bind builds fun a h _ answer => get fun r => ?_)
  split
  · exact pure answer
  · exact pure answer

theorem loop {step : α → Reading (Turn α)} {I : α → Graded → Prop} {a : α} (start : I a g)
    (steps : ∀ a h, g.Later h → I a h → Builds h (step a) fun turn k => I turn.value k) :
    Builds g (loop step a) I := by
  intro r same
  refine loop_invariant (S := fun a r' => ∃ h, g.Later h ∧ r'.tree = h.tree ∧ I a h) ⟨g, .refl g, same, start⟩ ?_
    fun _ _ known => known
  rintro a r ⟨h, later, same, known⟩
  obtain ⟨k, further, tree, answer⟩ := steps a h later known r same
  exact ⟨k, later.trans further, tree, answer⟩

/-- A loop about which nothing is known but that its turns build. -/
theorem loop_any {step : α → Reading (Turn α)} {a : α}
    (steps : ∀ a h, g.Later h → Builds h (step a) Any) : Builds g (Reading.loop step a) Any :=
  loop trivial fun a h later _ => steps a h later

end Builds

namespace Reading

open Builds

variable {g : Graded} {kind : ItemKind} {p c id : ItemId} {n : Nat}

theorem Silent.builds {α : Type} {x : Reading α} (silent : Silent x) : Builds g x Any :=
  .still fun r => (silent r).1

theorem next_builds : Builds g next Any :=
  next_silent.builds

theorem pushBack_builds : Builds g pushBack Any :=
  pushBack_silent.builds

theorem nextItem_builds : Builds g nextItem Any :=
  nextItem_silent.builds

theorem add_builds (g : Graded) (kind : ItemKind) (position : Nat) (token : Option Token) (grade : Grade)
    (scheme : kind = .scheme → 0 < grade.level) :
    Builds g (add kind position token) fun id h =>
      h.Is kind grade id ∧ (h.tree.item id).token = token ∧ g.tree.size ≤ id := by
  intro r same
  refine ⟨g.add kind position token grade scheme, g.later_add .., ?_, ⟨?_, ?_, ?_⟩, ?_, ?_⟩
  · exact congrArg (Tree.push · _) same
  · show r.tree.size < _
    simp [Graded.add, Tree.size_push, same]
  · show Tree.kind _ r.tree.size = kind
    simp [Graded.add, Tree.kind, Tree.item_push, same, Item.single]
  · show Graded.grade _ r.tree.size = grade
    simp [Graded.add, Graded.gradeNext, same]
  · show (Tree.item _ r.tree.size).token = token
    simp [Graded.add, Tree.item_push, same, Item.single]
  · show g.tree.size ≤ r.tree.size
    simp [same]

theorem addFor_builds (g : Graded) (kind : ItemKind) (t : Token) (grade : Grade)
    (scheme : kind = .scheme → 0 < grade.level) : Builds g (addFor kind t) fun id h => h.Is kind grade id :=
  (add_builds g kind t.start (some t) grade scheme).mono fun _ _ _ answer => answer.1

theorem update_builds {f : Item → Item} (same : ∀ i, Tree.SamePlace i (f i)) : Builds g (update id f) Any :=
  fun _ here => ⟨g.update id f same, g.later_update id f same, congrArg (Tree.update · id f) here, trivial⟩

theorem setTokens_builds {tokens : List Token} : Builds g (setTokens id tokens) Any :=
  update_builds fun _ => ⟨rfl, rfl, rfl, rfl, rfl⟩

theorem addToken_builds {token : Option Token} : Builds g (addToken id token) Any :=
  update_builds fun _ => ⟨rfl, rfl, rfl, rfl, rfl⟩

theorem setDetails_builds {details : Details} : Builds g (setDetails id details) Any :=
  update_builds fun _ => ⟨rfl, rfl, rfl, rfl, rfl⟩

theorem append_builds (there : p < g.tree.size) (added : c < g.tree.size) (fits : Fits g.tree g.grade p c) :
    Builds g (append p c) Any :=
  fun _ same => ⟨g.append p c there added fits, g.later_append there added fits,
    congrArg (Tree.append · p c) same, trivial⟩

theorem append_joined {holder : ItemKind} {level : Nat} (above : g.Is holder ⟨level, .plain⟩ p)
    (below : g.Is kind ⟨level, .plain⟩ c) (joins : (g.tree.item c).joins (g.tree.item p)) :
    Builds g (append p c) Any :=
  append_builds above.inside below.inside (above.fits below joins)

theorem append_low (above : g.Above n p) (low : g.Low n c) : Builds g (append p c) Any :=
  append_builds above.inside low.inside (above.fits low)

theorem appendIf_low {child : Option ItemId} (above : g.Above n p) (low : ∀ c ∈ child, g.Low n c) :
    Builds g (appendIf p child) Any := by
  cases child with
  | none => exact .pure trivial
  | some c => exact append_low above (low c rfl)

/-- What is read, if anything, is put into an item. -/
theorem readInto_low {α : Type} {x : Reading (Option ItemId)} {k : Reading α} {P : α → Graded → Prop}
    (above : g.Above n p) (read : Builds g x fun found h => ∀ c ∈ found, h.Low n c)
    (later : ∀ h, g.Later h → Builds h k P) : Builds g (x >>= fun child => appendIf p child >>= fun _ => k) P :=
  .bind read fun _ _ first low => .bind (appendIf_low (above.later first) low) fun _ h further _ =>
    later h (first.trans further)

theorem appendAll_low {children : List ItemId} (above : g.Above n p) (low : ∀ c ∈ children, g.Low n c) :
    Builds g (appendAll p children) Any := by
  induction children generalizing g with
  | nil => exact .pure trivial
  | cons c children ih =>
    show Builds g (append p c >>= fun _ => appendAll p children) Any
    refine .bind (append_low above (low c (by simp))) fun _ h later _ => ?_
    exact ih (above.later later) fun d member => (low d (by simp [member])).later later

end Reading

end ScoreText
