import ScoreText.Proofs.Edits

/-! What reading an item adds to a tree. Items that were there stay as they are. New items have later ones
as children, and those that nothing holds yet are known in order, so that they can be put into an item
without a change to anything else. -/
namespace ScoreText.Tree

variable {t u v : Tree} {p c : ItemId} {ids others : List ItemId}

/-- What an item is, whoever holds it. -/
structure Alike (i j : Item) : Prop where
  kind : j.kind = i.kind
  details : j.details = i.details
  duration : j.duration = i.duration
  children : j.children = i.children

theorem Alike.refl (i : Item) : Alike i i :=
  ⟨rfl, rfl, rfl, rfl⟩

theorem Alike.trans {i j k : Item} (first : Alike i j) (later : Alike j k) : Alike i k :=
  ⟨later.kind.trans first.kind, later.details.trans first.details,
    later.duration.trans first.duration, later.children.trans first.children⟩

theorem Alike.withDuration {i j : Item} (alike : Alike i j) (duration : Option Duration) :
    Alike { i with duration } { j with duration } :=
  ⟨alike.kind, alike.details, rfl, alike.children⟩

/-- From a tree to a larger one with some items that nothing holds. -/
structure Gains (t u : Tree) (ids : List ItemId) : Prop where
  larger : t.size ≤ u.size
  kept : ∀ i < t.size, u.item i = t.item i
  below : ∀ i, t.size ≤ i → ∀ c ∈ u.children i, i < c ∧ c < u.size
  loose : ∀ c ∈ ids, t.size ≤ c ∧ c < u.size ∧ u.parent c = none
  ordered : ids.Pairwise (· < ·)

theorem Gains.refl (t : Tree) : Gains t t [] where
  larger := Nat.le_refl _
  kept _ _ := rfl
  below i outside c member := by
    rw [children, item_of_size_le outside] at member
    cases member
  loose _ member := by cases member
  ordered := .nil

theorem Gains.trans (first : Gains t u ids) (later : Gains u v others) : Gains t v (ids ++ others) where
  larger := Nat.le_trans first.larger later.larger
  kept i there := (later.kept i (Nat.lt_of_lt_of_le there first.larger)).trans (first.kept i there)
  below i new c member := by
    by_cases old : i < u.size
    · rw [children, later.kept i old] at member
      have inside := first.below i new c member
      exact ⟨inside.1, Nat.lt_of_lt_of_le inside.2 later.larger⟩
    · exact later.below i (Nat.le_of_not_lt old) c member
  loose c member := by
    rcases List.mem_append.mp member with member | member
    · obtain ⟨new, there, free⟩ := first.loose c member
      rw [parent, later.kept c there]
      exact ⟨new, Nat.lt_of_lt_of_le there later.larger, free⟩
    · obtain ⟨new, rest⟩ := later.loose c member
      exact ⟨Nat.le_trans first.larger new, rest⟩
  ordered := by
    refine List.pairwise_append.mpr ⟨first.ordered, later.ordered, fun a in_ids b in_others => ?_⟩
    exact Nat.lt_of_lt_of_le (first.loose a in_ids).2.1 (later.loose b in_others).1

theorem push_gains (t : Tree) (kind : ItemKind) (position : Nat) (token : Option Token) :
    Gains t (t.push (.single kind position token)) [t.size] where
  larger := by simp [size_push]
  kept i there := by rw [item_push, if_neg (Nat.ne_of_lt there)]
  below i outside c member := by
    rw [children, item_push] at member
    split at member
    · cases member
    · rw [item_of_size_le outside] at member
      cases member
  loose c member := by
    rw [List.mem_singleton.mp member, parent, item_push, if_pos rfl, size_push]
    exact ⟨Nat.le_refl _, Nat.lt_succ_self _, rfl⟩
  ordered := List.pairwise_singleton ..

theorem Gains.update (gains : Gains t u ids) (new : t.size ≤ p) {f : Item → Item}
    (same : ∀ i, (f i).parent = i.parent ∧ (f i).children = i.children) : Gains t (u.update p f) ids where
  larger := by simpa [size_update] using gains.larger
  kept i there := by
    rw [item_update, if_neg fun same => Nat.ne_of_lt (Nat.lt_of_lt_of_le there new) same.1.symm]
    exact gains.kept i there
  below i outside c member := by
    have children : (u.update p f).children i = u.children i := by
      rw [children, item_update]
      split
      · exact (same _).2
      · rfl
    rw [children] at member
    simpa [size_update] using gains.below i outside c member
  loose c member := by
    have parent : (u.update p f).parent c = u.parent c := by
      rw [parent, item_update]
      split
      · exact (same _).1
      · rfl
    rw [parent, size_update]
    exact gains.loose c member
  ordered := gains.ordered

/-- An item that nothing holds is put into another one, and nothing else changes. -/
theorem item_append (free : t.parent c = none) (apart : p ≠ c) (there : p < t.size) (added : c < t.size)
    (i : ItemId) : (t.append p c).item i =
      if i = p then { t.item p with children := t.children p ++ [c] }
      else if i = c then { t.item c with parent := some p } else t.item i := by
  have still : t.detach c = t := by rw [detach, free]
  rw [append, still, item_update, item_update, size_update]
  by_cases holder : i = p
  · subst holder
    simp [there, children, Ne.symm apart]
  · by_cases held : i = c
    · subst held
      simp [added, holder, Ne.symm holder]
    · simp [Ne.symm holder, Ne.symm held, holder, held]

theorem Gains.append (gains : Gains t u (p :: c :: ids)) : Gains t (u.append p c) (p :: ids) := by
  obtain ⟨new, there, top⟩ := gains.loose p List.mem_cons_self
  obtain ⟨later, added, free⟩ := gains.loose c (by simp)
  have order : p < c := (List.pairwise_cons.mp gains.ordered).1 c List.mem_cons_self
  have items := item_append free (Nat.ne_of_lt order) there added
  refine ⟨?_, ?_, ?_, ?_, ?_⟩
  · simpa [size_append] using gains.larger
  · intro i old
    rw [items, if_neg (Nat.ne_of_lt (Nat.lt_of_lt_of_le old new)),
      if_neg (Nat.ne_of_lt (Nat.lt_of_lt_of_le old later))]
    exact gains.kept i old
  · intro i outside d member
    rw [children, items] at member
    rw [size_append]
    -- only the holder has a new child, and that one came later than the holder
    split at member
    · rename_i holder
      subst holder
      rcases List.mem_append.mp member with member | member
      · exact gains.below i outside d member
      · rw [List.mem_singleton.mp member]
        exact ⟨order, added⟩
    · split at member
      · rename_i held
        subst held
        exact gains.below i outside d member
      · exact gains.below i outside d member
  · intro d member
    have before : d ∈ p :: c :: ids := by
      rcases List.mem_cons.mp member with rfl | member
      · exact List.mem_cons_self
      · exact List.mem_cons_of_mem _ (List.mem_cons_of_mem _ member)
    have other : d ≠ c := by
      rcases List.mem_cons.mp member with rfl | member
      · exact Nat.ne_of_lt order
      · have behind := (List.pairwise_cons.mp (List.pairwise_cons.mp gains.ordered).2).1 d member
        exact Nat.ne_of_gt behind
    obtain ⟨outside, inside, free⟩ := gains.loose d before
    refine ⟨outside, by rwa [size_append], ?_⟩
    rw [parent, items]
    split
    · exact top
    · exact free
  · exact gains.ordered.sublist (.cons_cons _ (.cons _ (.refl _)))

theorem Gains.appendAll (gains : Gains t u (p :: ids)) :
    Gains t (ids.foldl (·.append p) u) [p] ∧ (ids.foldl (·.append p) u).size = u.size ∧
      Alike { u.item p with children := u.children p ++ ids } ((ids.foldl (·.append p) u).item p) ∧
      ∀ i, i ≠ p → Alike (u.item i) ((ids.foldl (·.append p) u).item i) := by
  induction ids generalizing u with
  | nil =>
    refine ⟨gains, rfl, ?_, fun i _ => .refl _⟩
    rw [List.append_nil]
    exact .refl _
  | cons c ids ih =>
    obtain ⟨_, there, _⟩ := gains.loose p List.mem_cons_self
    obtain ⟨_, added, free⟩ := gains.loose c (by simp)
    have order : p < c := (List.pairwise_cons.mp gains.ordered).1 c List.mem_cons_self
    have items := item_append free (Nat.ne_of_lt order) there added
    obtain ⟨later, size, holder, others⟩ := ih gains.append
    refine ⟨later, size.trans (size_append ..), ?_, fun i other => ?_⟩
    · refine .trans ?_ holder
      rw [children, items, if_pos rfl]
      exact ⟨rfl, rfl, rfl, by simp [children, items]⟩
    · refine .trans ?_ (others i other)
      rw [items, if_neg other]
      split
      · rename_i held
        rw [held]
        exact ⟨rfl, rfl, rfl, rfl⟩
      · exact .refl _

theorem Gains.putAll (gains : Gains t u [p]) (more : Gains u v ids) :
    Gains t (ids.foldl (·.append p) v) [p] ∧ (ids.foldl (·.append p) v).size = v.size ∧
      Alike { u.item p with children := u.children p ++ ids } ((ids.foldl (·.append p) v).item p) ∧
      ∀ i, i ≠ p → Alike (v.item i) ((ids.foldl (·.append p) v).item i) := by
  have there := (gains.loose p List.mem_cons_self).2.1
  have all := (gains.trans more).appendAll
  rwa [children, more.kept p there] at all

theorem Gains.put (gains : Gains t u [p]) (more : Gains u v [c]) :
    Gains t (v.append p c) [p] ∧ (v.append p c).size = v.size ∧
      Alike { u.item p with children := u.children p ++ [c] } ((v.append p c).item p) ∧
      ∀ i, i ≠ p → Alike (v.item i) ((v.append p c).item i) :=
  gains.putAll more

end ScoreText.Tree
