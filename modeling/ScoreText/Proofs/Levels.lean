import ScoreText.Document.Position
import ScoreText.Proofs.ScoreLayout
import ScoreText.Proofs.Unrolled

/-! The levels of music at a position. They go down from one container to the next one, its child, so
the scaling of an item at a level is the product along the way down to its parent. It does not depend
on the position. -/
namespace ScoreText

namespace Tree

variable {t : Tree} {n m : Nat} {id top p : ItemId}

/-- The number of items above an item. -/
inductive Height (t : Tree) : Nat → ItemId → Prop
  | top {id : ItemId} : t.parent id = none → Height t 0 id
  | under {n : Nat} {id p : ItemId} : t.parent id = some p → Height t n p → Height t (n + 1) id

theorem Height.unique (one : t.Height n id) (other : t.Height m id) : n = m := by
  induction one generalizing m with
  | top no_parent =>
    cases other with
    | top _ => rfl
    | under above _ => cases no_parent.symm.trans above
  | under above _ ih =>
    cases other with
    | top no_parent => cases no_parent.symm.trans above
    | under above' rest =>
      cases above.symm.trans above'
      rw [ih rest]

theorem Height.parent (height : t.Height n id) (above : t.parent id = some p) : ∃ m, t.Height m p := by
  cases height with
  | top no_parent => cases no_parent.symm.trans above
  | under above' rest =>
    cases above.symm.trans above'
    exact ⟨_, rest⟩

/-- What the time of the children of an item is multiplied by. -/
def ownScaling (t : Tree) (id : ItemId) : Fraction :=
  match t.kind id, (t.item id).details with
  | .scaler, .scaler _ _ own => own
  | .grace, _ => 0
  | _, _ => 1

/-- The scaling in effect in an item: the product down to it from an item above, or from itself. -/
inductive Scales (t : Tree) (top : ItemId) : ItemId → Fraction → Prop
  | top : Scales t top top (t.ownScaling top)
  | under {p id : ItemId} {q : Fraction} :
      t.parent id = some p → Scales t top p q → Scales t top id (q * t.ownScaling id)

theorem Scales.height {q : Fraction} (scales : t.Scales top id q) (height : t.Height n top) :
    ∃ m ≥ n, t.Height m id := by
  induction scales with
  | top => exact ⟨n, Nat.le_refl n, height⟩
  | under above _ ih =>
    obtain ⟨m, more, rest⟩ := ih
    exact ⟨m + 1, Nat.le_succ_of_le more, .under above rest⟩

/-- There is only one way down, as no item is above itself. -/
theorem Scales.unique {q r : Fraction} (height : t.Height n top) (one : t.Scales top id q)
    (other : t.Scales top id r) : q = r := by
  have not_above : ∀ {p s}, t.parent top = some p → ¬ t.Scales top p s := by
    intro p s above rest
    obtain ⟨m, more, higher⟩ := rest.height height
    have same := height.unique (.under above higher)
    omega
  induction one generalizing r with
  | top =>
    cases other with
    | top => rfl
    | under above rest => exact absurd rest (not_above above)
  | under above rest ih =>
    cases other with
    | top => exact absurd rest (not_above above)
    | under above' rest' =>
      cases above.symm.trans above'
      rw [ih rest']

/-- Levels that go down from an item to a child of it, and so on. The items at each level are children
of its container. Only the last one may have another scaling, if it has no items. -/
inductive Chain (t : Tree) : ItemId → List Level → Prop
  | last {l : Level} : (l.items = [] ∨ l.scaling = t.ownScaling l.container) →
      (∀ i ∈ l.items, t.parent i = some l.container) → Chain t l.container [l]
  | above {l : Level} {id : ItemId} {ls : List Level} : l.scaling = t.ownScaling l.container →
      (∀ i ∈ l.items, t.parent i = some l.container) → t.parent id = some l.container →
      Chain t id ls → Chain t l.container (l :: ls)

theorem level_container (t : Tree) (id : ItemId) (child : Option ItemId) :
    (t.level id child).container = id := by
  unfold level
  dsimp only
  split <;> rfl

theorem level_scaling (t : Tree) (id : ItemId) (child : Option ItemId) :
    (t.level id child).scaling = t.ownScaling id := by
  unfold level ownScaling
  dsimp only
  split <;> simp [*]

theorem level_items (linked : t.Linked) (id : ItemId) (child : Option ItemId) :
    ∀ i ∈ (t.level id child).items, t.parent i = some id := by
  have before : ∀ i ∈ (t.children id).takeWhile fun c => some c != child, t.parent i = some id :=
    fun i member => linked.child id i ((List.takeWhile_prefix _).subset member)
  unfold level
  dsimp only
  split
  · rintro i ⟨⟩
  · rintro i ⟨⟩
  · rintro i ⟨⟩
  · exact before
  · exact before
  · exact before

theorem ownScaling_of_not_music (other : (t.kind id).isMusic = false) : t.ownScaling id = 1 := by
  unfold ownScaling
  split
  · rename_i kind _
    rw [kind] at other
    cases other
  · rename_i kind
    rw [kind] at other
    cases other
  · rfl

theorem Chain.cons {l : Level} {levels : List Level} {node : ItemId} (container : l.container = p)
    (scaling : l.scaling = t.ownScaling p) (items : ∀ i ∈ l.items, t.parent i = some p)
    (above : t.parent node = some p) (start : levels = [] ∨ t.Chain node levels) :
    t.Chain p (l :: levels) := by
  subst container
  rcases start with rfl | chain
  · exact .last (.inr scaling) items
  · exact .above scaling items above chain

theorem levelsAbove_chain (linked : t.Linked) (position k : Nat) {node : ItemId} {inMusic : Bool}
    {levels : List Level} (height : t.Height n node) (start : levels = [] ∨ t.Chain node levels)
    (outside : inMusic = false → levels = []) :
    t.levelsAbove position (t.climb k node) node inMusic levels = [] ∨
      ∃ top m, t.Chain top (t.levelsAbove position (t.climb k node) node inMusic levels) ∧
        t.Height m top := by
  induction k generalizing n node inMusic levels with
  | zero => exact start.imp_right fun chain => ⟨node, n, chain, height⟩
  | succ k ih =>
    rw [climb]
    cases above : t.parent node with
    | none => exact start.imp_right fun chain => ⟨node, n, chain, height⟩
    | some p =>
      obtain ⟨m, higher⟩ := height.parent above
      have whole : ∀ child, ∀ i ∈ (t.level p child).items ++ [node], t.parent i = some p := by
        intro child i member
        rcases List.mem_append.mp member with member | member
        · exact level_items linked p child i member
        · rwa [List.mem_singleton.mp member]
      dsimp only
      rw [levelsAbove]
      dsimp only
      split
      · -- music: the level of the parent goes on top, or takes the place of all levels
        refine ih higher (.inr ?_) fun h => by cases h
        split
        · exact .cons (level_container ..) (level_scaling ..) (level_items linked p _) above (.inl rfl)
        · split
          · exact .cons (level_container ..) (level_scaling ..) (whole _) above (.inl rfl)
          · exact .cons (level_container ..) (level_scaling ..) (level_items linked p _) above start
      · rename_i other
        have one : (1 : Fraction) = t.ownScaling p :=
          (ownScaling_of_not_music (Bool.eq_false_iff.mpr other)).symm
        split
        · rename_i still
          have none := outside (by simpa using still)
          exact ih higher (.inl none) fun _ => none
        · split
          · exact .inl rfl
          · split
            · refine .inr ⟨p, m, .cons rfl one (fun i member => ?_) above (.inl rfl), higher⟩
              rwa [List.mem_singleton.mp member]
            · exact .inr ⟨p, m, .cons rfl one (fun _ member => by cases member) above start, higher⟩

theorem innermostBelow_height (linked : t.Linked) (position k : Nat) (height : t.Height n id) :
    ∃ m, t.Height m (t.innermostBelow position k id) := by
  induction k generalizing n id with
  | zero => exact ⟨n, height⟩
  | succ k ih =>
    rw [innermostBelow]
    cases found : t.childAt? id position with
    | none => exact ⟨n, height⟩
    | some c =>
      have child : c ∈ t.children id := (List.takeWhile_prefix _).subset (List.mem_of_getLast? found)
      have lower : t.Height (n + 1) c := .under (linked.child id c child) height
      dsimp only
      split
      · exact ⟨n + 1, lower⟩
      · exact ih lower

/-- The levels at a position go down from an item that has only finitely many above it. -/
theorem levels_chain (linked : t.Linked) (position : Nat) :
    t.levels position = [] ∨ ∃ top m, t.Chain top (t.levels position) ∧ t.Height m top := by
  obtain ⟨m, height⟩ := innermostBelow_height linked position _ (.top linked.root)
  have empty : ∀ node, t.Chain node [⟨node, [], 1⟩] := fun node =>
    .last (l := ⟨node, [], 1⟩) (.inl rfl) fun _ member => by cases member
  unfold levels
  dsimp only
  split
  · exact .inr ⟨_, m, empty _, height⟩
  · -- the notes of a chord stand for the chord
    have chord : ∀ node, t.Height m node →
        ∃ n, t.Height n (((t.parent node).filter (t.kind · == .chord)).getD node) := by
      intro node height
      cases found : (t.parent node).filter (t.kind · == .chord) with
      | none => exact ⟨m, height⟩
      | some p => exact height.parent (Option.filter_eq_some_iff.mp found).1
    obtain ⟨n, height⟩ := chord _ height
    refine levelsAbove_chain linked position _ height ?_ fun no => ?_
    · split
      · exact .inr (empty _)
      · exact .inl rfl
    · rw [no]
      rfl

end Tree

namespace Timing

open Unrolled

variable {t : Tree} {top : ItemId}

theorem multiply_of_fits {a b : Fraction} (fits : (a * b).fits = true) : multiply a b = pure (a * b) := by
  rw [multiply, Fraction.mul?, if_pos fits]

theorem multiply_one {a : Fraction} (fits : a.fits = true) : multiply a 1 = pure a := by
  rw [multiply_of_fits (by rwa [mul_one]), mul_one]

theorem entries_lasts {f : Family} (sound : f.Sound) (levels : List Level) (scaling : Fraction) :
    f.Lasts (entries scaling levels) := by
  induction levels generalizing f scaling with
  | nil => exact .pure f []
  | cons l levels ih =>
    refine .bind sound (.multiply f scaling l.scaling) fun scaling g _ after => ?_
    exact .bind after (ih after scaling) fun _ h _ _ => .pure h _

/-- Entries are those of the first level with the scaling there, then those further down. -/
theorem entries_cons_unmarked {f g : Family} (sound : f.Sound) {l : Level} {levels : List Level}
    {scaling : Fraction} {out : List (ItemId × Fraction)}
    (run : ((entries scaling (l :: levels)).run false).run f = ((out, false), g)) :
    ∃ rest h, f.Grows h ∧ h.Sound ∧
      ((entries (scaling * l.scaling) levels).run false).run h = ((rest, false), g) ∧
      out = l.items.map (fun id => (id, scaling * l.scaling)) ++ rest := by
  obtain ⟨product, h, ran, grown, after, later⟩ := Exact.run_bind_unmarked sound
    (.multiply f scaling l.scaling) (fun scaling g _ sound => .bind sound (entries_lasts sound levels scaling)
      fun _ i _ _ => .pure i _) run
  cases (Exact.multiply f scaling l.scaling).unmarked _ _ ran
  obtain ⟨rest, i, ran, _, _, last⟩ := Exact.run_bind_unmarked after (entries_lasts after levels _)
    (fun _ i _ _ => .pure i _) later
  cases last
  exact ⟨rest, _, grown, after, ran, rfl⟩

/-- If nothing is given up, each entry has the scaling in effect in its parent. -/
theorem entries_scales {f g : Family} (sound : f.Sound) {id : ItemId} {levels : List Level}
    (chain : t.Chain id levels) {scaling : Fraction}
    (scales : t.Scales top id (scaling * t.ownScaling id)) {out : List (ItemId × Fraction)}
    (run : ((entries scaling levels).run false).run f = ((out, false), g)) :
    ∀ entry ∈ out, ∃ p, t.parent entry.1 = some p ∧ t.Scales top p entry.2 := by
  induction chain generalizing f scaling out with
  | last own parents =>
    rename_i l
    obtain ⟨rest, h, _, _, ran, rfl⟩ := entries_cons_unmarked sound run
    cases ran
    intro entry member
    rw [List.append_nil] at member
    obtain ⟨i, inside, rfl⟩ := List.mem_map.mp member
    rcases own with none | own
    · rw [none] at inside
      cases inside
    · exact ⟨l.container, parents i inside, own ▸ scales⟩
  | above own parents child _ ih =>
    obtain ⟨rest, h, _, after, ran, rfl⟩ := entries_cons_unmarked sound run
    rw [own] at ran ⊢
    intro entry member
    rcases List.mem_append.mp member with member | member
    · obtain ⟨i, inside, rfl⟩ := List.mem_map.mp member
      exact ⟨_, parents i inside, scales⟩
    · exact ih after (.under child scales) ran entry member

/-- Lists whose common items have the same scalings have the same entries in common. -/
theorem take_common {as bs : List (ItemId × Fraction)}
    (agree : ∀ a ∈ as, ∀ b ∈ bs, a.1 = b.1 → a = b) :
    as.take (common as bs) = bs.take (common as bs) := by
  induction as generalizing bs with
  | nil => cases bs <;> rfl
  | cons a as ih =>
    cases bs with
    | nil => rfl
    | cons b bs =>
      rw [common]
      split
      · rename_i same
        have first := agree a (List.mem_cons_self ..) b (List.mem_cons_self ..) same
        rw [List.take_succ_cons, List.take_succ_cons, first, ih fun a in_as b in_bs =>
          agree a (List.mem_cons_of_mem _ in_as) b (List.mem_cons_of_mem _ in_bs)]
      · rfl

end Timing

end ScoreText
