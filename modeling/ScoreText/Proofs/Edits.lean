import ScoreText.Music.Tree

/-! What reading does to a tree. It adds items, makes an item that is there the last child of another
one, and fills in the parts of an item that do not place it. -/
namespace ScoreText.Tree

variable {t : Tree}

theorem size_push (t : Tree) (i : Item) : (t.push i).size = t.size + 1 :=
  Array.size_push ..

theorem size_update (t : Tree) (id : ItemId) (f : Item → Item) : (t.update id f).size = t.size :=
  Array.size_modify ..

theorem size_detach (t : Tree) (child : ItemId) : (t.detach child).size = t.size := by
  unfold detach
  split
  · exact size_update ..
  · rfl

theorem size_append (t : Tree) (parent child : ItemId) : (t.append parent child).size = t.size := by
  rw [append, size_update, size_update, size_detach]

theorem item_push (t : Tree) (i : Item) (id : ItemId) :
    (t.push i).item id = if id = t.size then i else t.item id := by
  simp only [item, push, size, Array.getElem?_push]
  by_cases last : id = t.items.size
  · simp [last]
  · simp [last]

theorem item_of_size_le {id : ItemId} (outside : t.size ≤ id) :
    t.item id = .single .document 0 none := by
  rw [item, Array.getElem?_eq_none outside, Option.getD_none]

theorem item_update (t : Tree) (id : ItemId) (f : Item → Item) (other : ItemId) :
    (t.update id f).item other = if id = other ∧ other < t.size then f (t.item other) else t.item other := by
  simp only [item, update, size, Array.getElem?_modify]
  by_cases same : id = other
  · by_cases there : other < t.items.size
    · simp [same, there]
    · simp [same, there]
  · simp [same]

theorem item_update_self {id : ItemId} (there : id < t.size) (f : Item → Item) :
    (t.update id f).item id = f (t.item id) := by
  rw [item_update, if_pos ⟨rfl, there⟩]

theorem item_update_other {id i : ItemId} (other : i ≠ id) (f : Item → Item) :
    (t.update id f).item i = t.item i := by
  rw [item_update, if_neg fun h => other h.1.symm]

/-- Parts of an item that do not place it in the tree. -/
structure SamePlace (i j : Item) : Prop where
  kind : j.kind = i.kind
  position : j.position = i.position
  token : j.token = i.token
  parent : j.parent = i.parent
  children : j.children = i.children

theorem place_update {f : Item → Item} (same : ∀ i, SamePlace i (f i)) (t : Tree) (id i : ItemId) :
    SamePlace (t.item i) ((t.update id f).item i) := by
  rw [item_update]
  split
  · exact same _
  · exact ⟨rfl, rfl, rfl, rfl, rfl⟩

section Append

theorem parent_detach (t : Tree) (child other : ItemId) :
    (t.detach child).parent other = t.parent other := by
  unfold detach
  split
  · rw [parent, item_update]
    split <;> rfl
  · rfl

theorem children_detach (t : Tree) (child other : ItemId) :
    (t.detach child).children other =
      if t.parent child = some other then (t.children other).filter (· != child)
      else t.children other := by
  unfold detach
  split
  · rename_i old known
    rw [known, children, item_update]
    by_cases same : old = other
    · by_cases there : other < t.size
      · simp [same, there, children]
      · simp [same, there, children, item_of_size_le (Nat.le_of_not_lt there), Item.single]
    · simp [same, children]
  · rename_i unknown
    rw [unknown, if_neg (by simp)]

theorem parent_append (t : Tree) (parent child other : ItemId) :
    (t.append parent child).parent other =
      if other = child ∧ child < t.size then some parent else t.parent other := by
  have inner : ((t.append parent child).item other).parent =
      (((t.detach child).update child fun i => { i with parent := some parent }).item other).parent := by
    rw [append, item_update]
    split <;> rfl
  have kept : ((t.detach child).item other).parent = t.parent other := parent_detach t child other
  rw [Tree.parent, inner, item_update, size_detach]
  by_cases same : child = other
  · subst same
    by_cases there : child < t.size
    · simp [there]
    · simp [there, kept]
  · have other_ne : other ≠ child := fun h => same h.symm
    simp [same, other_ne, kept]

theorem children_append (t : Tree) {parent : ItemId} (there : parent < t.size) (child other : ItemId) :
    (t.append parent child).children other =
      (t.detach child).children other ++ if other = parent then [child] else [] := by
  have inner : (((t.detach child).update child fun i => { i with parent := some parent }).item
      other).children = (t.detach child).children other := by
    rw [item_update]
    split <;> rfl
  rw [append, children, item_update, size_update, size_detach]
  by_cases same : parent = other
  · subst same
    simp [there, inner]
  · have other_ne : other ≠ parent := fun h => same h.symm
    simp [same, other_ne, inner]

theorem mem_children_append {p c q d : ItemId} (there : p < t.size) (member : d ∈ (t.append p c).children q) :
    d ∈ t.children q ∨ q = p ∧ d = c := by
  rw [children_append t there, List.mem_append, children_detach] at member
  rcases member with before | added
  · left
    split at before
    · exact (List.mem_filter.mp before).1
    · exact before
  · right
    split at added
    · rename_i here
      exact ⟨here, List.mem_singleton.mp added⟩
    · cases added

end Append

end ScoreText.Tree
