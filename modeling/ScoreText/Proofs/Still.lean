import ScoreText.Proofs.Gains

/-! A tree that goes on changing. From some item on, only who holds an item changes. -/
namespace ScoreText

open ScoreText.Tree

/-- Items from a place on have later ones as children. In another tree they may be held by other items. -/
structure Tree.StillFrom (lo : Nat) (t u : Tree) : Prop where
  larger : t.size ≤ u.size
  below : ∀ i, lo ≤ i → ∀ c ∈ t.children i, i < c ∧ c < t.size
  still : ∀ i, lo ≤ i → i < t.size → ∃ parent, u.item i = { t.item i with parent }

section Still

variable {lo : Nat} {t u v : Tree} {p c : ItemId} {ids : List ItemId}

theorem Tree.StillFrom.trans (first : StillFrom lo t u) (later : StillFrom lo u v) : StillFrom lo t v where
  larger := Nat.le_trans first.larger later.larger
  below := first.below
  still i inside there := by
    obtain ⟨held, same⟩ := first.still i inside there
    obtain ⟨holder, again⟩ := later.still i inside (Nat.lt_of_lt_of_le there first.larger)
    exact ⟨holder, by rw [again, same]⟩

theorem Tree.StillFrom.child (same : StillFrom lo t u) {id : ItemId} (inside : lo ≤ id)
    (member : c ∈ t.children id) : lo ≤ c ∧ c < t.size := by
  obtain ⟨later, there⟩ := same.below id inside c member
  exact ⟨Nat.le_of_lt (Nat.lt_of_le_of_lt inside later), there⟩

/-- What is read later changes nothing that is there. -/
theorem Tree.Gains.stillFrom {first : Tree} (gains : Gains first t [p]) (later : Gains t u ids) :
    StillFrom (p + 1) t u where
  larger := later.larger
  below i inside := gains.below i (by
    have new := (gains.loose p List.mem_cons_self).1
    omega)
  still i _ there := ⟨_, later.kept i there⟩

theorem Tree.Gains.put_still {first : Tree} (gains : Gains first t [p]) (more : Gains t u [c]) :
    (u.append p c).item p = { t.item p with children := t.children p ++ [c] } ∧
      StillFrom (p + 1) u (u.append p c) := by
  have there := (gains.loose p List.mem_cons_self).2.1
  obtain ⟨new, added, free⟩ := more.loose c List.mem_cons_self
  have apart : p ≠ c := Nat.ne_of_lt (Nat.lt_of_lt_of_le there new)
  have inside : p < u.size := Nat.lt_of_lt_of_le there more.larger
  have items := item_append free apart inside added
  constructor
  · rw [items, if_pos rfl, children, more.kept p there]
    rfl
  · constructor
    · exact Nat.le_of_eq (size_append ..).symm
    · intro i later
      have new := (gains.loose p List.mem_cons_self).1
      exact (gains.trans more).below i (by omega)
    · intro i later _
      rw [items, if_neg (Nat.ne_of_gt later)]
      split
      · rename_i held
        exact ⟨some p, by rw [held]⟩
      · exact ⟨_, rfl⟩

theorem Tree.Gains.update_still {first : Tree} (gains : Gains first t [p]) (f : Item → Item) :
    StillFrom (p + 1) t (t.update p f) where
  larger := Nat.le_of_eq (size_update ..).symm
  below i inside := gains.below i (by
    have new := (gains.loose p List.mem_cons_self).1
    omega)
  still i inside _ := ⟨_, item_update_other (Nat.ne_of_gt inside) f⟩

end Still

section Endures

variable {P : Tree → ItemId → Prop}

/-- What holds of an item still holds when the item is put into another one. -/
def Tree.Endures (P : Tree → ItemId → Prop) : Prop :=
  ∀ ⦃lo : Nat⦄ ⦃t u : Tree⦄ ⦃id : ItemId⦄, StillFrom lo t u → lo ≤ id ∧ id < t.size → P t id → P u id

/-- An item of some kind with one child, of which something holds. -/
def Tree.Holder (kind : ItemKind) (P : Tree → ItemId → Prop) (t : Tree) (id : ItemId) : Prop :=
  t.kind id = kind ∧ ∃ c, t.children id = [c] ∧ P t c

theorem Tree.Endures.holder {kind : ItemKind} (endures : Endures P) : Endures (Holder kind P) := by
  intro lo t u id same inside known
  obtain ⟨held, still⟩ := same.still id inside.1 inside.2
  obtain ⟨is_kind, c, only, holds⟩ := known
  refine ⟨?_, c, ?_, endures same (same.child inside.1 (by simp [only])) holds⟩
  · rw [Tree.kind, still]
    exact is_kind
  · rw [children, still]
    exact only

end Endures

end ScoreText
