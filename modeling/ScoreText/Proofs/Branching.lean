import ScoreText.Proofs.Layout

/-! A tree that grows as items are read. What was there stays as it is, one item apart that is being
filled. What has been read but has no place yet is a row of items, which can be made the children of
an item that was there before them. -/
namespace ScoreText.Tree

variable {t u v : Tree} {whole : Prop} {a b e lo m : Nat} {fills : Option ItemId} {id p c d : ItemId}
  {ids : List ItemId}

/-- From a tree to a larger one. Of the items that were there, only the one that is being filled may
change, and none is put into another one. New items start at an offset or behind it. -/
structure Grown (fills : Option ItemId) (lo : Nat) (t u : Tree) : Prop where
  larger : t.size ≤ u.size
  kept : ∀ i < t.size, fills ≠ some i → u.item i = t.item i
  head : ∀ i < t.size, (u.item i).kind = (t.item i).kind ∧ (u.item i).position = (t.item i).position ∧
    (u.item i).token = (t.item i).token
  unheld : ∀ i, ∀ c < t.size, u.Holds i c → t.Holds i c
  fuller : ∀ i < t.size, t.children i ≠ [] → u.children i ≠ []
  later : ∀ i, t.size ≤ i → i < u.size → lo ≤ (u.item i).position

namespace Grown

theorem refl (fills : Option ItemId) (lo : Nat) (t : Tree) : Grown fills lo t t where
  larger := Nat.le_refl _
  kept _ _ _ := rfl
  head _ _ := ⟨rfl, rfl, rfl⟩
  unheld _ _ _ holds := holds
  fuller _ _ some := some
  later _ new there := absurd there (Nat.not_lt_of_le new)

theorem trans {other : Option ItemId} (first : Grown fills lo t u) (later : Grown other m u v)
    (low : lo ≤ m) (same : ∀ id ∈ other, fills = some id ∨ t.size ≤ id) : Grown fills lo t v where
  larger := Nat.le_trans first.larger later.larger
  kept i there ne := by
    have other : other ≠ some i := by
      intro h
      rcases same i h with h | h
      · exact ne h
      · exact absurd there (Nat.not_lt_of_le h)
    rw [later.kept i (Nat.lt_of_lt_of_le there first.larger) other]
    exact first.kept i there ne
  head i there := by
    obtain ⟨kind, position, token⟩ := later.head i (Nat.lt_of_lt_of_le there first.larger)
    rw [kind, position, token]
    exact first.head i there
  unheld i c there holds :=
    first.unheld i c there (later.unheld i c (Nat.lt_of_lt_of_le there first.larger) holds)
  fuller i there some :=
    later.fuller i (Nat.lt_of_lt_of_le there first.larger) (first.fuller i there some)
  later i new there := by
    by_cases old : i < u.size
    · rw [(later.head i old).2.1]
      exact first.later i new old
    · exact Nat.le_trans low (later.later i (Nat.le_of_not_lt old) there)

theorem position (grown : Grown fills lo t u) (there : id < t.size) :
    (u.item id).position = (t.item id).position :=
  (grown.head id there).2.1

theorem opened (grown : Grown fills lo t u) (opened : t.Open id) : u.Open id where
  inside := Nat.lt_of_lt_of_le opened.inside grown.larger
  unheld p holds := opened.unheld p (grown.unheld p id opened.inside holds)

/-- Where items end does not change unless they are being filled. -/
theorem ends (grown : Grown fills lo t u) (laid : t.Laid whole b) (opened : ∀ i ∈ fills, t.Open i)
    (there : id < t.size) (ne : fills ≠ some id) (ends : t.Ends e id) : u.Ends e id := by
  have kept : ∀ i, ¬ (fills = some i ∨ t.size ≤ i) → u.item i = t.item i := fun i other =>
    grown.kept i (Nat.lt_of_not_le fun h => other (.inr h)) fun h => other (.inl h)
  refine ends.transfer (fun i => fills = some i ∨ t.size ≤ i) ?_ ?_ ?_ ?_ ?_
  · exact fun h => h.elim ne (Nat.not_le_of_lt there)
  · rintro q i holds (filled | new)
    · exact (opened i filled).unheld q holds
    · exact absurd (laid.inside q i holds).2 (Nat.not_lt_of_le new)
  · intro i other
    rw [kept i other]
  · intro i other
    rw [kept i other]
  · intro i j other holds
    rwa [Holds, children, kept i other] at holds

/-- If nothing is filled, all items stay as they are. -/
theorem item_eq (grown : Grown none lo t u) (there : id < t.size) : u.item id = t.item id :=
  grown.kept id there (Option.some_ne_none id).symm

theorem ends_of_none (grown : Grown none lo t u) (laid : t.Laid whole b) (there : id < t.size)
    (ends : t.Ends e id) : u.Ends e id :=
  grown.ends laid (by rintro _ ⟨⟩) there (Option.some_ne_none id).symm ends

theorem push (grown : Grown fills lo t u) {kind : ItemKind} {position : Nat} {token : Option Token}
    (low : lo ≤ position) : Grown fills lo t (u.push (.single kind position token)) where
  larger := by
    rw [size_push]
    exact Nat.le_succ_of_le grown.larger
  kept i there ne := by
    rw [item_push_lt (Nat.lt_of_lt_of_le there grown.larger)]
    exact grown.kept i there ne
  head i there := by
    rw [item_push_lt (Nat.lt_of_lt_of_le there grown.larger)]
    exact grown.head i there
  unheld i c there holds := grown.unheld i c there (holds_push.mp holds)
  fuller i there some := by
    rw [children_push]
    exact grown.fuller i there some
  later i new there := by
    rw [item_push]
    split
    · exact low
    · rename_i other
      rw [size_push] at there
      exact grown.later i new (Nat.lt_of_le_of_ne (Nat.le_of_lt_succ there) other)

theorem update (grown : Grown fills lo t u) {f : Item → Item} (same : ∀ i, SamePlace i (f i))
    (mine : fills = some id ∨ t.size ≤ id)
    (parts : ∀ c ∈ (f (u.item id)).details.items, t.size ≤ c ∨ c ∈ (u.item id).details.items) :
    Grown fills lo t (u.update id f) where
  larger := by
    rw [size_update]
    exact grown.larger
  kept i there ne := by
    have other : i ≠ id := by
      rintro rfl
      exact mine.elim ne (Nat.not_le_of_lt there)
    rw [item_update_other other f]
    exact grown.kept i there ne
  head i there := by
    rw [item_update]
    split
    · rw [(same _).kind, (same _).position, (same _).token]
      exact grown.head i there
    · exact grown.head i there
  unheld i c there holds := by
    refine grown.unheld i c there ?_
    by_cases here : id = i ∧ i < u.size
    · obtain ⟨rfl, inside⟩ := here
      rw [Holds, children, item_update_self inside f, (same _).children] at holds
      rcases holds with holds | holds
      · exact .inl holds
      · rcases parts c holds with new | before
        · exact absurd there (Nat.not_lt_of_le new)
        · exact .inr before
    · rwa [Holds, children, item_update, if_neg here] at holds
  fuller i there some := by
    have lists : (u.update id f).children i = u.children i := by
      rw [children, item_update]
      split
      · exact (same _).children
      · rfl
    rw [lists]
    exact grown.fuller i there some
  later i new there := by
    rw [size_update] at there
    rw [item_update]
    split
    · rw [(same _).position]
      exact grown.later i new there
    · exact grown.later i new there

theorem append (grown : Grown fills lo t u) (laid : u.Laid whole b) (inside : p < u.size)
    (mine : fills = some p ∨ t.size ≤ p) (new : t.size ≤ c)
    (child : ∀ q, c ∉ (u.item q).details.items)
    (loose : ∀ q, u.Holds q c → t.size ≤ q ∨ fills = some q ∧ t.children q = []) :
    Grown fills lo t (u.append p c) where
  larger := by
    rw [size_append]
    exact grown.larger
  kept i there ne := by
    -- neither the holder nor the child is an old item that must stay as it is
    have other : ∀ {j}, (fills = some j ∨ t.size ≤ j) → i ≠ j := by
      rintro j mine rfl
      exact mine.elim ne (Nat.not_le_of_lt there)
    have lists : (u.append p c).children i = u.children i := by
      rw [children_append u inside, children_detach, if_neg (other mine), List.append_nil, if_neg]
      intro above
      exact other ((loose i (.inl ((laid.link i c).mpr above))).symm.imp_left And.left) rfl
    have parents : (u.append p c).parent i = u.parent i := by
      rw [parent_append, if_neg fun h => other (.inr new) h.1]
    rw [item_moved, lists, parents]
    exact grown.kept i there ne
  head i there := by
    rw [item_moved]
    exact grown.head i there
  unheld i j there holds := by
    rcases (laid.holds_append inside child i j).mp holds with ⟨before, _⟩ | ⟨_, rfl⟩
    · exact grown.unheld i j there before
    · exact absurd there (Nat.not_lt_of_le new)
  fuller i there some := by
    have known := grown.fuller i there some
    rw [children_append u inside, children_detach, if_neg]
    · simp [known]
    · intro above
      rcases loose i (.inl ((laid.link i c).mpr above)) with after | ⟨_, none⟩
      · exact Nat.not_lt_of_le after there
      · exact some none
  later i after there := by
    rw [size_append] at there
    rw [item_moved]
    exact grown.later i after there

end Grown

/-- An item that has been read and that no other item needs. Only an item that was given up may still
hold it. -/
structure Found (whole : Prop) (lo : Nat) (t u : Tree) (b : Nat) (c : ItemId) : Prop where
  new : t.size ≤ c
  inside : c < u.size
  starts : lo ≤ (u.item c).position
  early : (u.item c).position < b
  occupied : Occupied whole u c
  child : ∀ q, c ∉ (u.item q).details.items
  loose : ∀ q, u.Holds q c → t.size ≤ q ∧ ∀ i, ¬ u.Holds i q

/-- One item behind another one, neither within the other. -/
structure Follows (t : Tree) (c d : ItemId) : Prop where
  before : t.Before c d
  above : ¬ t.Holds c d
  under : ¬ t.Holds d c

/-- Items that have been read one after the other. -/
structure Row (whole : Prop) (lo : Nat) (t u : Tree) (b : Nat) (ids : List ItemId) : Prop where
  each : ∀ c ∈ ids, Found whole lo t u b c
  sorted : ids.Pairwise u.Follows

theorem Row.nil : Row whole lo t u b [] where
  each _ member := by cases member
  sorted := .nil

theorem Found.row (found : Found whole lo t u b c) : Row whole lo t u b [c] where
  each d member := by rwa [List.mem_singleton.mp member]
  sorted := List.pairwise_singleton _ _

theorem Row.found (row : Row whole lo t u b [c]) : Found whole lo t u b c :=
  row.each c (List.mem_singleton_self c)

theorem Found.since (found : Found whole m t u b c) (low : lo ≤ m) (larger : v.size ≤ t.size) :
    Found whole lo v u b c where
  new := Nat.le_trans larger found.new
  inside := found.inside
  starts := Nat.le_trans low found.starts
  early := found.early
  occupied := found.occupied
  child := found.child
  loose q holds := ⟨Nat.le_trans larger (found.loose q holds).1, (found.loose q holds).2⟩

theorem Row.since (row : Row whole m t u b ids) (low : lo ≤ m) (larger : v.size ≤ t.size) :
    Row whole lo v u b ids :=
  ⟨fun c member => (row.each c member).since low larger, row.sorted⟩

theorem Found.keep (found : Found whole lo t u b c) (grown : Grown none m u v) (le : b ≤ e) :
    Found whole lo t v e c where
  new := found.new
  inside := Nat.lt_of_lt_of_le found.inside grown.larger
  starts := by
    rw [grown.position found.inside]
    exact found.starts
  early := by
    rw [grown.position found.inside]
    exact Nat.lt_of_lt_of_le found.early le
  occupied := by
    rw [Occupied, Tree.kind, children, grown.item_eq found.inside]
    exact found.occupied
  child q member := by
    have holds := grown.unheld q c found.inside (.inr member)
    have there := holds.lt_size
    rw [grown.item_eq there] at member
    exact found.child q member
  loose q holds := by
    have before := grown.unheld q c found.inside holds
    obtain ⟨new, top⟩ := found.loose q before
    exact ⟨new, fun i above => top i (grown.unheld i q before.lt_size above)⟩

theorem Follows.keep (follows : t.Follows c d) (laid : t.Laid whole b) (grown : Grown none m t u)
    (one : c < t.size) (other : d < t.size) : u.Follows c d where
  before := by
    refine ⟨?_, ?_⟩
    · rw [grown.position one, grown.position other]
      exact follows.before.starts
    · rw [grown.position other]
      exact grown.ends_of_none laid one follows.before.ends
  above holds := follows.above (grown.unheld c d other holds)
  under holds := follows.under (grown.unheld d c one holds)

theorem Row.keep (row : Row whole lo t u a ids) (laid : u.Laid whole a) (grown : Grown none m u v)
    (le : a ≤ b) : Row whole lo t v b ids where
  each c member := (row.each c member).keep grown le
  sorted := row.sorted.imp_of_mem fun one other follows =>
    follows.keep laid grown (row.each _ one).inside (row.each _ other).inside

theorem Row.more (row : Row whole lo t u a ids) (laid : u.Laid whole a) (behind : a ≤ m)
    (low : lo ≤ m) (le : a ≤ b) (old : t.size ≤ u.size) (grown : Grown none e u v)
    (found : Found whole m u v b c) : Row whole lo t v b (ids ++ [c]) where
  each d member := by
    rcases List.mem_append.mp member with member | member
    · exact (row.each d member).keep grown le
    · rw [List.mem_singleton.mp member]
      exact found.since low old
  sorted := by
    refine List.pairwise_append.mpr
      ⟨(row.keep laid grown le).sorted, List.pairwise_singleton _ _, fun d member i last => ?_⟩
    rw [List.mem_singleton.mp last]
    have there := (row.each d member).inside
    refine ⟨⟨?_, ?_⟩, fun holds => ?_, fun holds => ?_⟩
    · rw [grown.position there]
      exact Nat.lt_of_lt_of_le (row.each d member).early (Nat.le_trans behind found.starts)
    · exact (grown.ends_of_none laid there (laid.ends d)).mono
        (Nat.le_trans behind found.starts)
    · exact absurd there (Nat.not_lt_of_le (found.loose d holds).1)
    · exact absurd (grown.unheld c d there holds).lt_size (Nat.not_lt_of_le found.new)

/-- What is found behind all that was there can be put into an item that was there. -/
theorem Found.ready (found : Found whole m t u b c) (base : t.Laid whole m) (grown : Grown none e t u)
    (opened : t.Open p) : u.Ready whole b p c where
  positive := Nat.lt_of_lt_of_le base.inhabited found.new
  inside := found.inside
  other := (Nat.ne_of_lt (Nat.lt_of_lt_of_le opened.inside found.new)).symm
  early := found.early
  occupied := found.occupied
  child := found.child
  loose q holds := by
    obtain ⟨new, top⟩ := found.loose q holds
    exact ⟨(Nat.ne_of_lt (Nat.lt_of_lt_of_le opened.inside new)).symm, top⟩
  behind d member := by
    rw [children, grown.item_eq opened.inside] at member
    have there := (base.inside p d (.inl member)).2
    refine ⟨?_, ?_⟩
    · rw [grown.position there]
      exact Nat.lt_of_lt_of_le (base.early p d (.inl member)) found.starts
    · exact (grown.ends_of_none base there (base.ends d)).mono found.starts
  below := by
    rw [grown.position opened.inside]
    exact Nat.le_trans ((base.ends p).starts) found.starts

/-- What is found can become the first child of an item that is as new. -/
theorem Found.ready_first (found : Found whole m t u b c) (inhabited : 0 < t.size)
    (empty : u.children p = []) (ne : c ≠ p) (unheld : ¬ u.Holds p c)
    (below : (u.item p).position ≤ (u.item c).position) : u.Ready whole b p c where
  positive := Nat.lt_of_lt_of_le inhabited found.new
  inside := found.inside
  other := ne
  early := found.early
  occupied := found.occupied
  child := found.child
  loose q holds := ⟨fun same => unheld (same ▸ holds), (found.loose q holds).2⟩
  behind d member := by
    rw [empty] at member
    cases member
  below := below

section AppendAll

def appendAll (t : Tree) (p : ItemId) (ids : List ItemId) : Tree :=
  ids.foldl (fun t c => t.append p c) t

theorem Open.append {i : ItemId} (opened : t.Open i) (laid : t.Laid whole b) (inside : p < t.size)
    (child : ∀ q, c ∉ (t.item q).details.items) (ne : i ≠ c) : (t.append p c).Open i where
  inside := by
    rw [size_append]
    exact opened.inside
  unheld q holds := by
    rcases (laid.holds_append inside child q i).mp holds with ⟨before, _⟩ | ⟨_, same⟩
    · exact opened.unheld q before
    · exact ne same

theorem open_append (laid : t.Laid whole b) (opened : t.Open p) (ready : t.Ready whole b p c) :
    (t.append p c).Open p :=
  opened.append laid opened.inside ready.child ready.other.symm

theorem Before.append (before : t.Before c d) (laid : t.Laid whole b) (opened : t.Open p)
    {last : ItemId} (ready : t.Ready whole b p last) (ne : c ≠ p) : (t.append p last).Before c d where
  starts := by
    rw [item_moved, item_moved]
    exact before.starts
  ends := by
    have ends := laid.ends_append opened ready.child ne before.ends
    rw [item_moved]
    exact ends

theorem Ready.append (other : t.Ready whole b p d) (laid : t.Laid whole b) (opened : t.Open p)
    (ready : t.Ready whole b p c) (follows : t.Follows c d) : (t.append p c).Ready whole b p d := by
  have holds := laid.holds_append opened.inside ready.child
  have item : ∀ i, ((t.append p c).item i).position = (t.item i).position := fun i => by
    rw [item_moved]
  have ne : d ≠ c := by
    rintro rfl
    exact absurd follows.before.starts (Nat.lt_irrefl _)
  have lists : (t.append p c).children d = t.children d := by
    rw [children_append t opened.inside, children_detach, if_neg other.other, List.append_nil, if_neg]
    exact fun above => follows.under (.inl ((laid.link d c).mpr above))
  refine ⟨other.positive, ?_, other.other, ?_, ?_, fun q => ?_, fun q held => ?_, fun i member => ?_, ?_⟩
  · rw [size_append]
    exact other.inside
  · rw [item]
    exact other.early
  · rw [Occupied, lists, Tree.kind, item_moved]
    exact other.occupied
  · rw [item_moved]
    exact other.child q
  · -- what holds the later item is still held by nothing
    rcases (holds q d).mp held with ⟨before, _⟩ | ⟨_, same⟩
    · obtain ⟨apart, top⟩ := other.loose q before
      refine ⟨apart, fun i above => ?_⟩
      rcases (holds i q).mp above with ⟨above, _⟩ | ⟨_, rfl⟩
      · exact top i above
      · exact follows.above before
    · exact absurd same ne
  · rcases (holds p i).mp (.inl member) with ⟨before, _⟩ | ⟨_, rfl⟩
    · have listed : i ∈ t.children p := by
        rw [children_append t opened.inside, List.mem_append, laid.mem_detach] at member
        rcases member with ⟨member, _⟩ | member
        · exact member
        · rw [if_pos rfl, List.mem_singleton] at member
          rw [member] at before ⊢
          exact absurd rfl (ready.loose p before).1
      refine (other.behind i listed).append laid opened ready ?_
      rintro rfl
      exact opened.unheld _ before
    · exact follows.before.append laid opened ready ready.other
  · rw [item, item]
    exact other.below

theorem Follows.append {i j : ItemId} (follows : t.Follows i j) (laid : t.Laid whole b)
    (opened : t.Open p) (ready : t.Ready whole b p c) (one : i ≠ p) (other : j ≠ p) :
    (t.append p c).Follows i j where
  before := follows.before.append laid opened ready one
  above holds := by
    rcases (laid.holds_append opened.inside ready.child i j).mp holds with ⟨before, _⟩ | ⟨same, _⟩
    · exact follows.above before
    · exact one same
  under holds := by
    rcases (laid.holds_append opened.inside ready.child j i).mp holds with ⟨before, _⟩ | ⟨same, _⟩
    · exact follows.under before
    · exact other same

/-- Items that are ready and follow one another become the last children of an item. -/
theorem appendAll_laid (laid : u.Laid whole b) (opened : u.Open p)
    (ready : ∀ c ∈ ids, u.Ready whole b p c) (sorted : ids.Pairwise u.Follows)
    (grown : Grown fills lo t u) (mine : fills = some p ∨ t.size ≤ p) (new : ∀ c ∈ ids, t.size ≤ c)
    (loose : ∀ c ∈ ids, ∀ q, u.Holds q c → t.size ≤ q) :
    (u.appendAll p ids).Laid whole b ∧ (u.appendAll p ids).Open p ∧
      Grown fills lo t (u.appendAll p ids) := by
  induction ids generalizing u with
  | nil => exact ⟨laid, opened, grown⟩
  | cons c ids ih =>
    obtain ⟨follow, sorted⟩ := List.pairwise_cons.mp sorted
    have first := ready c List.mem_cons_self
    have rest : ∀ d ∈ ids, u.Ready whole b p d := fun d member =>
      ready d (List.mem_cons_of_mem c member)
    refine ih (laid.append opened first) (open_append laid opened first) ?_ ?_ ?_ ?_ ?_
    · exact fun d member => (rest d member).append laid opened first (follow d member)
    · exact sorted.imp_of_mem fun one other follows =>
        follows.append laid opened first (rest _ one).other (rest _ other).other
    · exact grown.append laid opened.inside mine (new c List.mem_cons_self) first.child
        fun q holds => .inl (loose c List.mem_cons_self q holds)
    · exact fun d member => new d (List.mem_cons_of_mem c member)
    · intro d member q holds
      rcases (laid.holds_append opened.inside first.child q d).mp holds with ⟨before, _⟩ | ⟨_, rfl⟩
      · exact loose d (List.mem_cons_of_mem c member) q before
      · exact absurd (follow d member).before.starts (Nat.lt_irrefl _)

end AppendAll

end ScoreText.Tree
