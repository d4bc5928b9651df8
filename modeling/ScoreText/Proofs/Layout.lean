import ScoreText.Proofs.Edits

/-! How the items of a tree are laid out along the text. An item that holds others, as children or as
attributes, starts before them and is held by nothing while it is filled, so no item comes to lie
within itself. The children of an item follow one another: each ends before the next one starts. -/
namespace ScoreText

/-- The tokens of an item lie behind the place where it starts. -/
structure Item.Placed (i : Item) : Prop where
  leading : ∀ s ∈ i.token, i.position = s.start ∧ s.start < s.stop
  others : ∀ s ∈ i.tokens, i.position < s.stop

namespace Item

variable {i : Item} {e : Nat}

/-- All tokens of an item. -/
def marks (i : Item) : List Token :=
  i.token.toList ++ i.tokens ++ i.details.tokens

theorem ownEnd_le (starts : i.position ≤ e) (ends : ∀ s ∈ i.marks, s.stop ≤ e) : i.ownEnd ≤ e := by
  unfold ownEnd
  split
  · rename_i last found
    exact ends last (by simp [marks, List.mem_of_getLast? found])
  · rename_i s _ found
    exact ends s (by simp [marks, found])
  · exact starts

theorem Placed.le_ownEnd (placed : i.Placed) : i.position ≤ i.ownEnd := by
  unfold ownEnd
  split
  · rename_i last found
    exact Nat.le_of_lt (placed.others last (List.mem_of_getLast? found))
  · rename_i s _ found
    have := placed.leading s found
    omega
  · exact Nat.le_refl _

theorem Placed.lt_ownEnd (placed : i.Placed) (leads : i.token.isSome) : i.position < i.ownEnd := by
  unfold ownEnd
  split
  · rename_i last found
    exact placed.others last (List.mem_of_getLast? found)
  · rename_i s _ found
    have := placed.leading s found
    omega
  · rename_i found
    rw [found] at leads
    cases leads

end Item

namespace Tree

variable {t u : Tree} {whole : Prop} {b e : Nat} {id p c d : ItemId}

/-- An item has another one as a child or as an attribute. -/
def Holds (t : Tree) (p c : ItemId) : Prop :=
  c ∈ t.children p ∨ c ∈ (t.item p).details.items

/-- An item and all that it holds end at an offset or before it, and what it holds starts before it. -/
inductive Ends (t : Tree) (e : Nat) : ItemId → Prop
  | of {id : ItemId} : (t.item id).position ≤ e → (∀ s ∈ (t.item id).marks, s.stop ≤ e) →
      (∀ c, t.Holds id c → (t.item c).position < e) → (∀ c, t.Holds id c → Ends t e c) → Ends t e id

theorem Ends.starts (ends : t.Ends e id) : (t.item id).position ≤ e := by
  cases ends; assumption

theorem Ends.marks (ends : t.Ends e id) : ∀ s ∈ (t.item id).marks, s.stop ≤ e := by
  cases ends; assumption

theorem Ends.early (ends : t.Ends e id) (holds : t.Holds id c) : (t.item c).position < e := by
  cases ends with
  | of _ _ early _ => exact early c holds

theorem Ends.held (ends : t.Ends e id) (holds : t.Holds id c) : t.Ends e c := by
  cases ends with
  | of _ _ _ below => exact below c holds

theorem Ends.mono (ends : t.Ends b id) (le : b ≤ e) : t.Ends e id := by
  induction ends with
  | of starts marks early _ ih =>
    exact .of (Nat.le_trans starts le) (fun s member => Nat.le_trans (marks s member) le)
      (fun c holds => Nat.lt_of_lt_of_le (early c holds) le) ih

theorem Ends.not_holds_self (ends : t.Ends e id) : ¬ t.Holds id id := by
  intro holds
  induction ends with
  | of _ _ _ _ ih => exact ih _ holds holds

/-- What an item ends with does not depend on items that it does not hold. -/
theorem Ends.transfer (ends : t.Ends e id) (changed : ItemId → Prop) (other : ¬ changed id)
    (apart : ∀ p c, t.Holds p c → ¬ changed c)
    (position : ∀ i, ¬ changed i → (u.item i).position = (t.item i).position)
    (marks : ∀ i, ¬ changed i → (u.item i).marks = (t.item i).marks)
    (fewer : ∀ i c, ¬ changed i → u.Holds i c → t.Holds i c) : u.Ends e id := by
  induction ends with
  | of starts ends early _ ih =>
    refine .of (by rwa [position _ other]) (by rwa [marks _ other]) (fun c holds => ?_) fun c holds => ?_
    · have before := fewer _ c other holds
      rw [position c (apart _ c before)]
      exact early c before
    · have before := fewer _ c other holds
      exact ih c before (apart _ c before)

/-- An item ends before another one starts. -/
structure Before (t : Tree) (c d : ItemId) : Prop where
  starts : (t.item c).position < (t.item d).position
  ends : t.Ends (t.item d).position c

theorem Before.carry (before : t.Before c d) (first : (u.item c).position = (t.item c).position)
    (second : (u.item d).position = (t.item d).position) (ends : ∀ {e}, t.Ends e c → u.Ends e c) :
    u.Before c d where
  starts := by
    rw [first, second]
    exact before.starts
  ends := by
    rw [second]
    exact ends before.ends

/-- An item takes some text: it has a token or children. Where items are left out that are nested too
deep, a word of lyrics may lack its text. -/
def Occupied (whole : Prop) (t : Tree) (id : ItemId) : Prop :=
  (t.item id).token.isSome ∨ t.children id ≠ [] ∨ (¬ whole ∧ t.kind id = .lyricText)

/-- All that is read up to an offset is laid out in order. -/
structure Laid (t : Tree) (whole : Prop) (b : Nat) : Prop where
  inhabited : 0 < t.size
  placed : ∀ i, (t.item i).Placed
  ends : ∀ i, t.Ends b i
  link : ∀ p c, c ∈ t.children p ↔ t.parent c = some p
  attributes : ∀ p, ∀ c ∈ (t.item p).details.items, t.parent c = none
  inside : ∀ p c, t.Holds p c → 0 < c ∧ c < t.size
  early : ∀ p c, t.Holds p c → (t.item c).position < b
  occupied : ∀ p c, t.Holds p c → Occupied whole t c
  distinct : ∀ i j s, (t.item i).token = some s → (t.item j).token = some s → i = j
  sorted : ∀ p, (t.children p).Pairwise t.Before
  below : ∀ p, ∀ c ∈ t.children p, (t.item p).position ≤ (t.item c).position

/-- Children know their parent, so no item is a child of two others, and the root has no parent. -/
structure Linked (t : Tree) : Prop where
  root : t.parent root = none
  child : ∀ p c, c ∈ t.children p → t.parent c = some p

theorem Laid.linked (laid : t.Laid whole b) : t.Linked where
  root := by
    cases above : t.parent Tree.root with
    | none => rfl
    | some p =>
      have positive := (laid.inside p _ (.inl ((laid.link p _).mpr above))).1
      exact absurd positive (Nat.lt_irrefl _)
  child p c := (laid.link p c).mp

theorem Laid.unused (laid : t.Laid whole b) {s : Token} (behind : b ≤ s.start) (id : ItemId) :
    (t.item id).token ≠ some s := by
  intro leads
  have stop := (laid.ends id).marks s (by simp [Item.marks, leads])
  have some_text := ((laid.placed id).leading s leads).2
  omega

theorem Laid.mono (laid : t.Laid whole b) (le : b ≤ e) : t.Laid whole e where
  inhabited := laid.inhabited
  placed := laid.placed
  ends i := (laid.ends i).mono le
  link := laid.link
  attributes := laid.attributes
  inside := laid.inside
  early p c holds := Nat.lt_of_lt_of_le (laid.early p c holds) le
  occupied := laid.occupied
  distinct := laid.distinct
  sorted := laid.sorted
  below := laid.below

theorem children_of_size_le (outside : t.size ≤ id) : t.children id = [] := by
  rw [children, item_of_size_le outside]
  rfl

theorem Holds.lt_size (holds : t.Holds p c) : p < t.size := by
  refine Nat.lt_of_not_le fun outside => ?_
  rcases holds with holds | holds
  · rw [children_of_size_le outside] at holds
    cases holds
  · rw [item_of_size_le outside] at holds
    cases holds

theorem start_laid (whole : Prop) : start.Laid whole 0 := by
  have item : ∀ i, start.item i = .single .document 0 none := by
    intro i
    cases i <;> rfl
  have bare : ∀ p c, ¬ start.Holds p c := by
    intro p c holds
    rw [Holds, children, item] at holds
    rcases holds with holds | holds <;> cases holds
  refine ⟨Nat.one_pos, fun i => ?_, fun i => ?_, fun p c => ?_, fun p c member => ?_, ?_, ?_, ?_, ?_,
    fun p => ?_, fun p c member => ?_⟩
  · rw [item]
    exact ⟨by rintro _ ⟨⟩, by rintro _ ⟨⟩⟩
  · refine .of ?_ ?_ (fun c holds => absurd holds (bare i c)) fun c holds => absurd holds (bare i c)
    · rw [item]
      exact Nat.le_refl 0
    · rw [item]
      rintro _ ⟨⟩
  · rw [parent, item]
    exact ⟨fun member => absurd (.inl member) (bare p c), by rintro ⟨⟩⟩
  · exact absurd (.inr member) (bare p c)
  · exact fun p c holds => absurd holds (bare p c)
  · exact fun p c holds => absurd holds (bare p c)
  · exact fun p c holds => absurd holds (bare p c)
  · intro i j s one
    rw [item] at one
    cases one
  · rw [children, item]
    exact .nil
  · exact absurd (.inl member) (bare p c)

/-- An item that nothing holds, so it may be filled. -/
structure Open (t : Tree) (id : ItemId) : Prop where
  inside : id < t.size
  unheld : ∀ p, ¬ t.Holds p id

section Push

variable {kind : ItemKind} {position : Nat} {token : Option Token}

theorem item_push_lt {i : Item} (there : id < t.size) : (t.push i).item id = t.item id := by
  rw [item_push, if_neg (Nat.ne_of_lt there)]

theorem children_push (t : Tree) (kind : ItemKind) (position : Nat) (token : Option Token)
    (id : ItemId) : (t.push (.single kind position token)).children id = t.children id := by
  rw [children, item_push]
  split
  · rename_i last
    rw [children_of_size_le (Nat.le_of_eq last.symm)]
    rfl
  · rfl

theorem parent_push (t : Tree) (kind : ItemKind) (position : Nat) (token : Option Token)
    (id : ItemId) : (t.push (.single kind position token)).parent id = t.parent id := by
  rw [parent, item_push]
  split
  · rename_i last
    rw [parent, item_of_size_le (Nat.le_of_eq last.symm)]
    rfl
  · rfl

theorem details_push (t : Tree) (kind : ItemKind) (position : Nat) (token : Option Token)
    (id : ItemId) : ((t.push (.single kind position token)).item id).details = (t.item id).details := by
  rw [item_push]
  split
  · rename_i last
    rw [item_of_size_le (Nat.le_of_eq last.symm)]
    rfl
  · rfl

theorem holds_push : (t.push (.single kind position token)).Holds p c ↔ t.Holds p c := by
  rw [Holds, Holds, children_push, details_push]

theorem ends_push (laid : t.Laid whole b) (there : id < t.size) (ends : t.Ends e id) :
    (t.push (.single kind position token)).Ends e id := by
  refine ends.transfer (· = t.size) (Nat.ne_of_lt there) ?_ ?_ ?_ ?_
  · exact fun p c holds => Nat.ne_of_lt (laid.inside p c holds).2
  · intro i other
    rw [item_push, if_neg other]
  · intro i other
    rw [item_push, if_neg other]
  · exact fun i c _ holds => holds_push.mp holds

/-- A new item is laid out in order if its token starts no other one. -/
theorem Laid.push (laid : t.Laid whole b) (early : position ≤ b)
    (leading : ∀ s ∈ token, position = s.start ∧ s.start < s.stop ∧ s.stop ≤ b)
    (unused : ∀ s ∈ token, ∀ i, (t.item i).token ≠ some s) :
    (t.push (.single kind position token)).Laid whole b := by
  have kept : ∀ {p c}, t.Holds p c → (t.push (.single kind position token)).item c = t.item c :=
    fun holds => item_push_lt (laid.inside _ _ holds).2
  constructor
  case inhabited =>
    rw [size_push]
    exact Nat.succ_pos _
  case placed =>
    intro i
    rw [item_push]
    split
    · exact ⟨fun s member => ⟨(leading s member).1, (leading s member).2.1⟩, fun _ => nofun⟩
    · exact laid.placed i
  case ends =>
    intro i
    by_cases there : i < t.size
    · exact ends_push laid there (laid.ends i)
    · -- nothing is held by a new item, so it ends where its token does
      have bare : ∀ c, ¬ (t.push (.single kind position token)).Holds i c :=
        fun c holds => there (holds_push.mp holds).lt_size
      refine .of ?_ ?_ (fun c holds => absurd holds (bare c)) fun c holds => absurd holds (bare c)
      · rw [item_push]
        split
        · exact early
        · exact (laid.ends i).starts
      · rw [item_push]
        split
        · intro s member
          have member : s ∈ token := by simpa [Item.marks, Item.single, Details.tokens] using member
          exact (leading s member).2.2
        · exact (laid.ends i).marks
  case link =>
    intro p c
    rw [children_push, parent_push]
    exact laid.link p c
  case attributes =>
    intro p c member
    rw [details_push] at member
    rw [parent_push]
    exact laid.attributes p c member
  case inside =>
    intro p c holds
    rw [size_push]
    obtain ⟨pos, inside⟩ := laid.inside p c (holds_push.mp holds)
    exact ⟨pos, Nat.lt_succ_of_lt inside⟩
  case early =>
    intro p c holds
    have holds := holds_push.mp holds
    rw [kept holds]
    exact laid.early p c holds
  case occupied =>
    intro p c holds
    have holds := holds_push.mp holds
    have occupied := laid.occupied p c holds
    rw [Occupied, children_push, Tree.kind, kept holds]
    exact occupied
  case distinct =>
    intro i j s one other
    rw [item_push] at one other
    split at one
    · rename_i last
      split at other
      · rename_i last'
        rw [last, last']
      · exact absurd other (unused s one j)
    · split at other
      · exact absurd one (unused s other i)
      · exact laid.distinct i j s one other
  case sorted =>
    intro p
    rw [children_push]
    refine (laid.sorted p).imp_of_mem fun {c d} one other before => ?_
    have there := (laid.inside p c (.inl one)).2
    exact before.carry (congrArg _ (kept (.inl one))) (congrArg _ (kept (.inl other))) (ends_push laid there)
  case below =>
    intro p c member
    rw [children_push] at member
    have starts := laid.below p c member
    rw [kept (.inl member), item_push_lt (Holds.lt_size (.inl member))]
    exact starts

theorem Laid.push_bare (laid : t.Laid whole b) (kind : ItemKind) (early : position ≤ b) :
    (t.push (.single kind position none)).Laid whole b :=
  laid.push early (fun _ => nofun) fun _ => nofun

end Push

section Update

variable {f : Item → Item}

theorem holds_update (inside : id < t.size) (same : ∀ i, SamePlace i (f i)) (holds : (t.update id f).Holds p c) :
    t.Holds p c ∨ p = id ∧ c ∈ (f (t.item id)).details.items := by
  rcases holds with holds | holds
  · rw [children, (place_update same t id p).children] at holds
    exact .inl (.inl holds)
  · by_cases here : p = id
    · subst here
      rw [item_update_self inside f] at holds
      exact .inr ⟨rfl, holds⟩
    · rw [item_update_other here f] at holds
      exact .inl (.inr holds)

theorem Open.ne (opened : t.Open id) (holds : t.Holds p c) : c ≠ id := by
  rintro rfl
  exact opened.unheld p holds

theorem Open.ends_update (opened : t.Open id) (same : ∀ i, SamePlace i (f i)) (other : c ≠ id)
    (ends : t.Ends e c) : (t.update id f).Ends e c := by
  refine ends.transfer (· = id) other (fun p c => opened.ne) ?_ ?_ ?_
  · intro i other
    rw [item_update_other other f]
  · intro i other
    rw [item_update_other other f]
  · intro i c other holds
    rcases holds_update opened.inside same holds with before | ⟨here, _⟩
    · exact before
    · exact absurd here other

/-- An open item may be filled in by tokens that have been read and by items that nothing has as a
child. -/
theorem Laid.update (laid : t.Laid whole b) (opened : t.Open id) (same : ∀ i, SamePlace i (f i))
    (others : ∀ s ∈ (f (t.item id)).tokens, (t.item id).position < s.stop)
    (marks : ∀ s ∈ (f (t.item id)).tokens ++ (f (t.item id)).details.tokens, s.stop ≤ b)
    (parts : ∀ c ∈ (f (t.item id)).details.items, c ≠ id ∧ 0 < c ∧ c < t.size ∧ t.parent c = none ∧
      (t.item c).position < b ∧ Occupied whole t c) : (t.update id f).Laid whole b := by
  have here : (t.update id f).item id = f (t.item id) := item_update_self opened.inside f
  have place := place_update same t id
  have held : ∀ {p c}, (t.update id f).Holds p c → t.Holds p c ∨ c ∈ (f (t.item id)).details.items :=
    fun holds => (holds_update opened.inside same holds).imp_right And.right
  have early : ∀ p c, (t.update id f).Holds p c → ((t.update id f).item c).position < b := by
    intro p c holds
    rw [(place c).position]
    rcases held holds with before | part
    · exact laid.early p c before
    · exact (parts c part).2.2.2.2.1
  constructor
  case inhabited =>
    rw [size_update]
    exact laid.inhabited
  case placed =>
    intro i
    by_cases ne : i = id
    · subst ne
      refine ⟨fun s member => ?_, fun s member => ?_⟩
      · rw [(place i).token] at member
        rw [(place i).position]
        exact (laid.placed i).leading s member
      · rw [here] at member
        rw [(place i).position]
        exact others s member
    · rw [item_update_other ne f]
      exact laid.placed i
  case ends =>
    intro i
    by_cases ne : i = id
    · subst ne
      refine .of ?_ ?_ (early i) fun c holds => ?_
      · rw [(place i).position]
        exact (laid.ends i).starts
      · intro s member
        rw [Item.marks, (place i).token, List.append_assoc, List.mem_append, here] at member
        rcases member with member | member
        · exact (laid.ends i).marks s (List.mem_append_left _ (List.mem_append_left _ member))
        · exact marks s member
      · rcases held holds with before | part
        · exact opened.ends_update same (opened.ne before) (laid.ends c)
        · exact opened.ends_update same (parts c part).1 (laid.ends c)
    · exact opened.ends_update same ne (laid.ends i)
  case link =>
    intro p c
    rw [children, (place p).children, parent, (place c).parent]
    exact laid.link p c
  case attributes =>
    intro p c member
    rw [parent, (place c).parent]
    by_cases ne : p = id
    · subst ne
      rw [here] at member
      exact (parts c member).2.2.2.1
    · rw [item_update_other ne f] at member
      exact laid.attributes p c member
  case inside =>
    intro p c holds
    rw [size_update]
    -- the item itself now also ends behind the parts it was given
    rcases held holds with before | part
    · exact laid.inside p c before
    · obtain ⟨_, pos, inside, _⟩ := parts c part
      exact ⟨pos, inside⟩
  case early => exact early
  case occupied =>
    intro p c holds
    rw [Occupied, (place c).token, children, (place c).children, Tree.kind, (place c).kind]
    rcases held holds with before | part
    · exact laid.occupied p c before
    · exact (parts c part).2.2.2.2.2
  case distinct =>
    intro i j s
    rw [(place i).token, (place j).token]
    exact laid.distinct i j s
  case sorted =>
    intro p
    rw [children, (place p).children]
    refine (laid.sorted p).imp_of_mem fun {c d} one _ before => ?_
    exact before.carry (place c).position (place d).position (opened.ends_update same (opened.ne (.inl one)))
  case below =>
    intro p c member
    rw [children, (place p).children] at member
    rw [(place p).position, (place c).position]
    exact laid.below p c member

end Update

section Append

theorem item_moved (t : Tree) (p c i : ItemId) :
    (t.append p c).item i =
      { t.item i with parent := (t.append p c).parent i, children := (t.append p c).children i } := by
  have update : ∀ (u : Tree) (j : ItemId) (f : Item → Item) (i : ItemId),
      (∀ k, f k = { k with parent := (f k).parent, children := (f k).children }) →
      (u.update j f).item i = { u.item i with
        parent := ((u.update j f).item i).parent, children := ((u.update j f).item i).children } := by
    intro u j f i only
    rw [item_update]
    split
    · exact only _
    · rfl
  have detached : (t.detach c).item i = { t.item i with
      parent := ((t.detach c).item i).parent, children := ((t.detach c).item i).children } := by
    unfold detach
    split
    · exact update t _ _ i fun _ => rfl
    · rfl
  rw [parent, children, append, update _ p _ i fun _ => rfl, update _ c _ i fun _ => rfl, detached]

theorem Laid.mem_detach (laid : t.Laid whole b) (c i j : ItemId) :
    j ∈ (t.detach c).children i ↔ j ∈ t.children i ∧ j ≠ c := by
  rw [children_detach]
  split
  · rw [List.mem_filter]
    simp
  · rename_i elsewhere
    refine ⟨fun member => ⟨member, ?_⟩, And.left⟩
    rintro rfl
    exact elsewhere ((laid.link i j).mp member)

theorem detach_sublist (t : Tree) (c i : ItemId) : ((t.detach c).children i).Sublist (t.children i) := by
  rw [children_detach]
  split
  · exact List.filter_sublist
  · exact .refl _

theorem Laid.holds_append (laid : t.Laid whole b) (there : p < t.size)
    (child : ∀ q, c ∉ (t.item q).details.items) (i j : ItemId) :
    (t.append p c).Holds i j ↔ t.Holds i j ∧ j ≠ c ∨ i = p ∧ j = c := by
  have listed : j ∈ (t.append p c).children i ↔ j ∈ t.children i ∧ j ≠ c ∨ i = p ∧ j = c := by
    rw [children_append t there, List.mem_append, laid.mem_detach]
    split
    · simp [*]
    · simp [*]
  have other : j ∈ (t.item i).details.items → j ≠ c := by
    rintro member rfl
    exact child i member
  rw [Holds, listed, item_moved, Holds]
  constructor
  · rintro ((⟨member, ne⟩ | last) | member)
    · exact .inl ⟨.inl member, ne⟩
    · exact .inr last
    · exact .inl ⟨.inr member, other member⟩
  · rintro (⟨member | member, ne⟩ | last)
    · exact .inl (.inl ⟨member, ne⟩)
    · exact .inr member
    · exact .inl (.inr last)

/-- An item that can be made the last child of another one. What holds it already, if anything, is held
by nothing. -/
structure Ready (t : Tree) (whole : Prop) (b : Nat) (p c : ItemId) : Prop where
  positive : 0 < c
  inside : c < t.size
  other : c ≠ p
  early : (t.item c).position < b
  occupied : Occupied whole t c
  child : ∀ q, c ∉ (t.item q).details.items
  loose : ∀ q, t.Holds q c → q ≠ p ∧ ∀ i, ¬ t.Holds i q
  behind : ∀ d ∈ t.children p, t.Before d c
  below : (t.item p).position ≤ (t.item c).position

theorem Laid.ends_append (laid : t.Laid whole b) (opened : t.Open p)
    (child : ∀ q, c ∉ (t.item q).details.items) (ne : id ≠ p) (ends : t.Ends e id) :
    (t.append p c).Ends e id := by
  refine ends.transfer (· = p) ne (fun q c => opened.ne) ?_ ?_ ?_
  · intro i _
    rw [item_moved]
  · intro i _
    rw [item_moved]
    rfl
  · intro i j other holds
    rcases (laid.holds_append opened.inside child i j).mp holds with ⟨before, _⟩ | ⟨same, _⟩
    · exact before
    · exact absurd same other

theorem Laid.occupied_append (laid : t.Laid whole b) (opened : t.Open p) (ready : t.Ready whole b p c)
    (held : (∃ q, t.Holds q d) ∨ d = c) (occupied : Occupied whole t d) : Occupied whole (t.append p c) d := by
  rw [Occupied, Tree.kind, item_moved]
  refine occupied.imp_right (Or.imp_left fun some => ?_)
  rw [children_append t opened.inside, children_detach, if_neg]
  · simp [some]
  · -- Only what nothing holds loses a child.
    intro above
    have holder := (ready.loose d (.inl ((laid.link d c).mpr above))).2
    rcases held with ⟨q, held⟩ | rfl
    · exact holder q held
    · exact (laid.ends d).not_holds_self (.inl ((laid.link d d).mpr above))

theorem Laid.append (laid : t.Laid whole b) (opened : t.Open p) (ready : t.Ready whole b p c) :
    (t.append p c).Laid whole b := by
  have holds := laid.holds_append opened.inside ready.child
  have ends : ∀ {i e}, i ≠ p → t.Ends e i → (t.append p c).Ends e i :=
    laid.ends_append opened ready.child
  have position : ∀ i, ((t.append p c).item i).position = (t.item i).position := fun i => by
    rw [item_moved]
  have early : ∀ q i, (t.append p c).Holds q i → ((t.append p c).item i).position < b := by
    intro q i held
    rw [position]
    rcases (holds q i).mp held with ⟨before, _⟩ | ⟨_, rfl⟩
    · exact laid.early q i before
    · exact ready.early
  constructor
  case inhabited =>
    rw [size_append]
    exact laid.inhabited
  case placed =>
    intro i
    rw [item_moved]
    exact ⟨(laid.placed i).leading, (laid.placed i).others⟩
  case ends =>
    intro i
    by_cases ne : i = p
    · subst ne
      refine .of ?_ ?_ (early i) fun j held => ?_
      · rw [position]
        exact (laid.ends i).starts
      · rw [item_moved]
        exact (laid.ends i).marks
      · rcases (holds i j).mp held with ⟨before, _⟩ | ⟨_, rfl⟩
        · exact ends (opened.ne before) (laid.ends j)
        · exact ends ready.other (laid.ends j)
    · exact ends ne (laid.ends i)
  case link =>
    intro q i
    rw [children_append t opened.inside, List.mem_append, laid.mem_detach, parent_append, laid.link]
    -- the moved item is below its new parent and nowhere else
    by_cases same : i = c
    · subst same
      by_cases here : q = p
      · simp [here, ready.inside]
      · simp [here, ready.inside, Ne.symm here]
    · by_cases here : q = p
      · simp [here, same]
      · simp [here, same]
  case attributes =>
    intro q i member
    rw [item_moved] at member
    have other : i ≠ c := by
      rintro rfl
      exact ready.child q member
    rw [parent_append, if_neg fun h => other h.1]
    exact laid.attributes q i member
  case inside =>
    intro q i held
    rw [size_append]
    rcases (holds q i).mp held with ⟨before, _⟩ | ⟨_, rfl⟩
    · exact laid.inside q i before
    · exact ⟨ready.positive, ready.inside⟩
  case early => exact early
  case occupied =>
    intro q i held
    rcases (holds q i).mp held with ⟨before, _⟩ | ⟨_, rfl⟩
    · exact laid.occupied_append opened ready (.inl ⟨q, before⟩) (laid.occupied q i before)
    · exact laid.occupied_append opened ready (.inr rfl) ready.occupied
  case distinct =>
    intro i j s
    rw [item_moved, item_moved]
    exact laid.distinct i j s
  case sorted =>
    intro q
    have carry : ∀ {i j}, i ≠ p → t.Before i j → (t.append p c).Before i j :=
      fun ne before => before.carry (position _) (position _) (ends ne)
    -- the children that are left keep their order, and the moved one comes last
    have old : ((t.detach c).children q).Pairwise (t.append p c).Before :=
      ((laid.sorted q).sublist (detach_sublist t c q)).imp_of_mem fun member _ =>
        carry (opened.ne (.inl ((laid.mem_detach c q _).mp member).1))
    rw [children_append t opened.inside]
    split
    · rename_i here
      subst here
      refine List.pairwise_append.mpr ⟨old, List.pairwise_singleton _ _, fun i member j last => ?_⟩
      obtain ⟨member, _⟩ := (laid.mem_detach c q i).mp member
      rw [List.mem_singleton.mp last]
      exact carry (opened.ne (.inl member)) (ready.behind i member)
    · rwa [List.append_nil]
  case below =>
    intro q i member
    rw [position, position]
    rw [children_append t opened.inside, List.mem_append, laid.mem_detach] at member
    rcases member with ⟨member, _⟩ | member
    · exact laid.below q i member
    · split at member
      · rename_i here
        rw [List.mem_singleton.mp member, here]
        exact ready.below
      · cases member

end Append

end Tree

end ScoreText
