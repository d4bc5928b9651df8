import Mathlib.Data.Set.Card
import Mathlib.Logic.Relation
import ScoreText.Proofs.ScoreLayout

/-! The items of a score are a forest. What an item holds ends within it, so no item lies below itself.
The number of items below an item therefore grows on the way up, and neither the way up nor the way down
has more steps than there are items. -/
namespace ScoreText

open Relation

namespace Tree

variable {t : Tree} {whole : Prop} {b n : Nat} {id p q c d : ItemId}

/-- An item is a child of another one. -/
def Under (t : Tree) (c p : ItemId) : Prop :=
  t.parent c = some p

/-- The items of a tree are a forest. -/
structure Forest (t : Tree) : Prop where
  parent_iff : ∀ id p, t.parent id = some p ↔ id ∈ t.children p
  once : ∀ p, ∀ id ∈ t.children p, (t.children p).count id = 1 ∧ ∀ q, id ∈ t.children q → q = p
  root : t.parent root = none
  ends : ∀ id, ∃ n ≤ t.size, (·.bind t.parent)^[n] (some id) = none
  attributes : ∀ p, ∀ c ∈ (t.item p).details.items, t.parent c = none
  leading : ∀ i j s, (t.item i).token = some s → (t.item j).token = some s → i = j
  descendants_once : ∀ id, (t.descendants id).Nodup
  mem_descendants : ∀ id c, c ∈ t.descendants id ↔ TransGen t.Under c id

section Rank

/-- Numbers below the number of items that grow on the way up. -/
structure Ranked (t : Tree) (rank : ItemId → Nat) : Prop where
  lt_size : ∀ id, rank id < t.size
  held : ∀ p c, t.Holds p c → rank c < rank p

theorem Laid.wellFounded (laid : t.Laid whole b) : WellFounded fun c p => t.Holds p c := by
  refine ⟨fun id => ?_⟩
  induction laid.ends id with
  | of _ _ _ _ ih => exact ⟨_, ih⟩

/-- Items are ranked by the number of items below them. -/
theorem Laid.exists_ranked (laid : t.Laid whole b) : ∃ rank, t.Ranked rank := by
  have order := laid.wellFounded.transGen
  let below (id : ItemId) : Set ItemId := {c | TransGen (fun c p => t.Holds p c) c id}
  have inside : ∀ id, below id ⊆ (Finset.range t.size : Set ItemId) := by
    intro id c lower
    obtain ⟨q, holds, _⟩ := TransGen.head'_iff.mp lower
    exact Finset.mem_coe.mpr (Finset.mem_range.mpr (laid.inside q c holds).2)
  have finite : ∀ id, (below id).Finite := fun id => (Finset.finite_toSet _).subset (inside id)
  refine ⟨fun id => (below id).ncard, fun id => ?_, fun p c holds => ?_⟩
  · by_cases there : id < t.size
    · have less : below id ⊂ (Finset.range t.size : Set ItemId) :=
        ⟨inside id, fun all => order.irrefl.irrefl id
          (all (Finset.mem_coe.mpr (Finset.mem_range.mpr there)))⟩
      have fewer := Set.ncard_lt_ncard less (Finset.finite_toSet _)
      rwa [Set.ncard_coe_finset, Finset.card_range] at fewer
    · have none : below id = ∅ := by
        refine Set.eq_empty_of_forall_notMem fun c lower => ?_
        obtain ⟨q, _, holds⟩ := TransGen.tail'_iff.mp lower
        exact there holds.lt_size
      rw [none, Set.ncard_empty]
      exact laid.inhabited
  · refine Set.ncard_lt_ncard ⟨fun i lower => lower.tail holds, fun all => ?_⟩ (finite p)
    exact order.irrefl.irrefl c (all (.single holds))

theorem Laid.under_iff (laid : t.Laid whole b) : t.Under c p ↔ c ∈ t.children p :=
  (laid.link p c).symm

theorem Laid.holds_of_under (laid : t.Laid whole b) (under : t.Under c p) : t.Holds p c :=
  .inl (laid.under_iff.mp under)

theorem Laid.under_irrefl (laid : t.Laid whole b) : ¬ TransGen t.Under id id := fun cycle =>
  laid.wellFounded.transGen.irrefl.irrefl id (TransGen.mono (fun _ _ => laid.holds_of_under) id id cycle)

end Rank

section Up

variable {rank : ItemId → Nat}

theorem Ranked.iterate_parent (ranked : t.Ranked rank) (laid : t.Laid whole b)
    (above : (·.bind t.parent)^[n] (some id) = some q) : n ≤ rank q := by
  induction n generalizing q with
  | zero => exact Nat.zero_le _
  | succ n ih =>
    rw [Function.iterate_succ_apply'] at above
    obtain ⟨p, before, under⟩ := Option.bind_eq_some_iff.mp above
    exact Nat.lt_of_le_of_lt (ih before) (ranked.held q p (laid.holds_of_under under))

theorem Laid.iterate_parent (laid : t.Laid whole b) (id : ItemId) :
    (·.bind t.parent)^[t.size] (some id) = none := by
  obtain ⟨rank, ranked⟩ := laid.exists_ranked
  refine Option.eq_none_iff_forall_ne_some.mpr fun q above => ?_
  exact absurd (ranked.iterate_parent laid above) (Nat.not_le_of_lt (ranked.lt_size q))

end Up

section Down

variable {rank : ItemId → Nat}

theorem mem_below_succ : c ∈ t.below (n + 1) id ↔ ∃ p ∈ t.children id, c = p ∨ c ∈ t.below n p := by
  simp [below]

/-- What holds of children, and of what lies below a child if it holds of the child, holds of all that
lies below an item. -/
theorem below_induction {P : ItemId → ItemId → Prop} (children : ∀ {id c}, c ∈ t.children id → P id c)
    (lower : ∀ {id p c}, p ∈ t.children id → P p c → P id c) (member : c ∈ t.below n id) : P id c := by
  induction n generalizing id with
  | zero => cases member
  | succ n ih =>
    obtain ⟨p, child, rfl | below⟩ := mem_below_succ.mp member
    · exact children child
    · exact lower child (ih below)

theorem Laid.under_of_mem_below (laid : t.Laid whole b) (member : c ∈ t.below n id) :
    TransGen t.Under c id :=
  below_induction (P := fun id c => TransGen t.Under c id) (fun child => .single (laid.under_iff.mpr child))
    (fun child under => under.tail (laid.under_iff.mpr child)) member

/-- As many levels as the rank of an item reach all that is below it. -/
theorem Ranked.mem_below (ranked : t.Ranked rank) (laid : t.Laid whole b) (under : TransGen t.Under c id)
    (le : rank id ≤ n) : c ∈ t.below n id := by
  induction under generalizing n with
  | single under =>
    have lower := ranked.held _ _ (laid.holds_of_under under)
    obtain ⟨k, rfl⟩ : ∃ k, n = k + 1 := ⟨n - 1, by omega⟩
    exact mem_below_succ.mpr ⟨c, laid.under_iff.mp under, .inl rfl⟩
  | @tail p id _ under ih =>
    have lower := ranked.held _ _ (laid.holds_of_under under)
    obtain ⟨k, rfl⟩ : ∃ k, n = k + 1 := ⟨n - 1, by omega⟩
    exact mem_below_succ.mpr ⟨p, laid.under_iff.mp under, .inr (ih (by omega))⟩

/-- Two children of an item have nothing below them in common. -/
theorem Laid.apart (laid : t.Laid whole b) (one : t.Under c p) (other : t.Under d p) (ne : c ≠ d)
    {i : ItemId} (lower : ReflTransGen t.Under i c) : ¬ ReflTransGen t.Under i d := by
  have unique : Relator.RightUnique t.Under := fun _ _ _ one other =>
    Option.some.inj (one.symm.trans other)
  -- the item that is above the other one would be above the parent of both
  have cycle : ∀ {c d}, t.Under c p → t.Under d p → c ≠ d → ¬ ReflTransGen t.Under c d := by
    intro c d one other ne between
    rcases ReflTransGen.cases_head between with same | ⟨q, up, rest⟩
    · exact ne same
    · cases unique one up
      exact laid.under_irrefl (.tail' rest other)
  intro lower'
  rcases ReflTransGen.total_of_right_unique unique lower lower' with between | between
  · exact cycle one other ne between
  · exact cycle other one ne.symm between

theorem Laid.below_nodup (laid : t.Laid whole b) (n : Nat) (id : ItemId) : (t.below n id).Nodup := by
  induction n generalizing id with
  | zero => exact .nil
  | succ n ih =>
    have lower : ∀ {i c}, i ∈ c :: t.below n c → ReflTransGen t.Under i c := by
      intro i c member
      rcases List.mem_cons.mp member with rfl | member
      · exact .refl
      · exact (laid.under_of_mem_below member).to_reflTransGen
    have different : (t.children id).Nodup := (laid.sorted id).imp fun before same => by
      rw [same] at before
      exact Nat.lt_irrefl _ before.starts
    refine List.nodup_flatMap.mpr ⟨fun c _ => List.nodup_cons.mpr ⟨fun member => ?_, ih c⟩, ?_⟩
    · exact laid.under_irrefl (laid.under_of_mem_below member)
    · refine different.imp_of_mem fun one other ne i left right => ?_
      exact laid.apart (laid.under_iff.mpr one) (laid.under_iff.mpr other) ne (lower left) (lower right)

end Down

theorem Laid.forest (laid : t.Laid whole b) : t.Forest where
  parent_iff id p := laid.under_iff
  once p id member := by
    have different : (t.children p).Nodup := (laid.sorted p).imp fun before same => by
      rw [same] at before
      exact Nat.lt_irrefl _ before.starts
    refine ⟨List.count_eq_one_of_mem different member, fun q other => ?_⟩
    exact Option.some.inj ((laid.under_iff.mpr other).symm.trans (laid.under_iff.mpr member))
  root := laid.linked.root
  ends id := ⟨t.size, Nat.le_refl _, laid.iterate_parent id⟩
  attributes := laid.attributes
  leading := laid.distinct
  descendants_once := laid.below_nodup t.size
  mem_descendants id c := by
    obtain ⟨rank, ranked⟩ := laid.exists_ranked
    exact ⟨laid.under_of_mem_below, fun under =>
      ranked.mem_below laid under (Nat.le_of_lt (ranked.lt_size id))⟩

end Tree

/-- Whatever is read from a text is a forest. -/
theorem document_forest (options : Options) (text : String) (filename : Option String)
    (includedFrom : Option (DocumentId × ItemId)) :
    (Document.ofText options text filename includedFrom).tree.Forest := by
  obtain ⟨_, laid⟩ := Document.ofText_laid options text filename includedFrom
  exact laid.forest

end ScoreText
