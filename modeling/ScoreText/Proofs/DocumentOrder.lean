import ScoreText.Proofs.Forest

/-! The items of a score stand in the order of the text. The children of an item lie within it, one
behind the other, so the positions never go back when all items are visited, each in front of those
below it. -/
namespace ScoreText

namespace Tree

variable {t : Tree} {whole : Prop} {b e n m : Nat} {id c d : ItemId}

/-- The children of an item stand one behind the other, and within it. -/
structure Ordered (t : Tree) (id : ItemId) : Prop where
  ascending : (t.children id).Pairwise fun c d => (t.item c).position < (t.item d).position
  apart : (t.children id).IsChain fun c d => t.stop c ≤ (t.item d).position
  within : ∀ c ∈ t.children id, (t.item id).position ≤ (t.item c).position ∧ t.stop c ≤ t.stop id

section Stop

theorem foldl_max_le_iff {l : List Nat} {a : Nat} : l.foldl max a ≤ e ↔ a ≤ e ∧ ∀ x ∈ l, x ≤ e := by
  induction l generalizing a with
  | nil => simp
  | cons x l ih => simp [ih, and_assoc]

theorem stopWithin_succ_le_iff : t.stopWithin (n + 1) id ≤ e ↔ (t.item id).ownEnd ≤ e ∧
    (∀ c ∈ (t.children id).getLast?.toList ++ (t.item id).details.items, t.stopWithin n c ≤ e) ∧
      ∀ s ∈ (t.item id).details.tokens, s.stop ≤ e := by
  simp only [stopWithin, children, foldl_max_le_iff, List.mem_append, List.mem_map, Option.mem_toList,
    or_imp, forall_and, forall_exists_index, and_imp, forall_apply_eq_imp_iff₂]

theorem holds_of_mem (member : c ∈ (t.children id).getLast?.toList ++ (t.item id).details.items) :
    t.Holds id c := by
  rcases List.mem_append.mp member with last | part
  · exact .inl (List.mem_of_getLast? (Option.mem_toList.mp last))
  · exact .inr part

theorem Ends.stopWithin_le (ends : t.Ends e id) (n : Nat) : t.stopWithin n id ≤ e := by
  induction n generalizing id with
  | zero => exact Item.ownEnd_le ends.starts ends.marks
  | succ n ih =>
    refine stopWithin_succ_le_iff.mpr ⟨Item.ownEnd_le ends.starts ends.marks,
      fun c member => ih (ends.held (holds_of_mem member)), fun s member => ends.marks s ?_⟩
    exact List.mem_append_right _ member

theorem ownEnd_le_stopWithin (t : Tree) (n : Nat) (id : ItemId) :
    (t.item id).ownEnd ≤ t.stopWithin n id := by
  cases n with
  | zero => exact Nat.le_refl _
  | succ n => exact (stopWithin_succ_le_iff.mp (Nat.le_refl _)).1

theorem Laid.position_le_stopWithin (laid : t.Laid whole b) (n : Nat) (id : ItemId) :
    (t.item id).position ≤ t.stopWithin n id :=
  Nat.le_trans (laid.placed id).le_ownEnd (ownEnd_le_stopWithin t n id)

/-- More levels than the rank of an item make no difference to where it ends. -/
theorem Ranked.stopWithin_eq {rank : ItemId → Nat} (ranked : t.Ranked rank) (one : rank id < n)
    (other : rank id < m) : t.stopWithin n id = t.stopWithin m id := by
  induction n generalizing id m with
  | zero => exact absurd one (Nat.not_lt_zero _)
  | succ n ih =>
    obtain ⟨m, rfl⟩ : ∃ k, m = k + 1 := ⟨m - 1, by omega⟩
    have parts : ∀ c ∈ (t.children id).getLast?.toList ++ (t.item id).details.items,
        t.stopWithin n c = t.stopWithin m c := fun c member => by
      have lower := ranked.held id c (holds_of_mem member)
      exact ih (by omega) (by omega)
    have same := List.map_congr_left parts
    rw [children] at same
    rw [stopWithin, stopWithin, same]

theorem Laid.stop_child_le (laid : t.Laid whole b) (child : c ∈ t.children id) : t.stop c ≤ t.stop id := by
  obtain ⟨rank, ranked⟩ := laid.exists_ranked
  obtain ⟨k, size⟩ : ∃ k, t.size = k + 1 := ⟨t.size - 1, by have := laid.inhabited; omega⟩
  obtain ⟨front, last, split⟩ := (List.eq_nil_or_concat' (t.children id)).resolve_left
    (List.ne_nil_of_mem child)
  have ends : t.stopWithin k last ≤ t.stop id := by
    rw [stop, size]
    refine (stopWithin_succ_le_iff.mp (Nat.le_refl _)).2.1 last ?_
    simp [split]
  rw [split, List.mem_append, List.mem_singleton] at child
  rcases child with member | rfl
  · have sorted := laid.sorted id
    rw [split] at sorted
    have before := (List.pairwise_append.mp sorted).2.2 c member last (List.mem_singleton_self _)
    exact Nat.le_trans (before.ends.stopWithin_le _) (Nat.le_trans (laid.position_le_stopWithin k last) ends)
  · have lower := ranked.held id c (.inl (by simp [split]))
    have small := ranked.lt_size id
    rw [stop, ranked.stopWithin_eq (m := k) (by omega) (by omega)]
    exact ends

end Stop

theorem Laid.ordered (laid : t.Laid whole b) (id : ItemId) : t.Ordered id where
  ascending := (laid.sorted id).imp Before.starts
  apart := ((laid.sorted id).imp fun before => before.ends.stopWithin_le _).isChain
  within c child := ⟨laid.below id c child, laid.stop_child_le child⟩

section Preorder

theorem Laid.position_le_of_mem_below (laid : t.Laid whole b) (member : c ∈ t.below n id) :
    (t.item id).position ≤ (t.item c).position :=
  below_induction (P := fun id c => (t.item id).position ≤ (t.item c).position) (fun child => laid.below _ _ child)
    (fun child later => Nat.le_trans (laid.below _ _ child) later) member

theorem Ends.of_mem_below (ends : t.Ends e id) (member : c ∈ t.below n id) : t.Ends e c :=
  below_induction (P := fun id c => t.Ends e id → t.Ends e c) (fun child ends => ends.held (.inl child))
    (fun child lower ends => lower (ends.held (.inl child))) member ends

theorem Laid.below_sorted (laid : t.Laid whole b) (n : Nat) (id : ItemId) :
    (t.below n id).Pairwise fun c d => (t.item c).position ≤ (t.item d).position := by
  induction n generalizing id with
  | zero => exact .nil
  | succ n ih =>
    refine List.pairwise_flatMap.mpr ⟨fun c _ => List.pairwise_cons.mpr
      ⟨fun d => laid.position_le_of_mem_below, ih c⟩,
      (laid.sorted id).imp fun {c d} before x left y right => ?_⟩
    have ends : t.Ends (t.item d).position x := by
      rcases List.mem_cons.mp left with rfl | lower
      · exact before.ends
      · exact before.ends.of_mem_below lower
    refine Nat.le_trans ends.starts ?_
    rcases List.mem_cons.mp right with rfl | lower
    · exact Nat.le_refl _
    · exact laid.position_le_of_mem_below lower

end Preorder

end Tree

/-- Whatever is read from a text stands in the order of the text. -/
theorem document_order (options : Options) (text : String) (filename : Option String)
    (includedFrom : Option (DocumentId × ItemId)) :
    let t := (Document.ofText options text filename includedFrom).tree
    (∀ id, t.Ordered id) ∧
      ((t.descendants Tree.root).map fun id => (t.item id).position).Pairwise (· ≤ ·) := by
  obtain ⟨_, laid⟩ := Document.ofText_laid options text filename includedFrom
  exact ⟨laid.ordered, List.pairwise_map.mpr (laid.below_sorted _ Tree.root)⟩

end ScoreText
