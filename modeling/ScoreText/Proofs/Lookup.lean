import Mathlib.Data.List.TakeWhile
import ScoreText.Proofs.Descent

/-! Looking up a position. The search goes down one level at a time, to the last child that starts at the
position or before it. The items are laid out in order and what lies in a child starts in front of the
next one, so the search ends where a search through all items would. -/
namespace ScoreText

namespace Tree

variable {t : Tree} {whole : Prop} {b e m n position : Nat} {id c d : ItemId} {ids front back : List ItemId}

section Linear

/-- The first of some items that starts at a position, or else the last one that starts before it. -/
def lookup? (t : Tree) (position : Nat) (ids : List ItemId) : Option ItemId :=
  (ids.find? fun i => (t.item i).position = position).or
    (ids.filter fun i => (t.item i).position < position).getLast?

/-- What starts later makes no difference. -/
theorem lookup_append (later : ∀ i ∈ back, position < (t.item i).position) :
    t.lookup? position (ids ++ back) = t.lookup? position ids := by
  have elsewhere : back.find? (fun i => (t.item i).position = position) = none := by
    refine List.find?_eq_none.mpr fun i member => ?_
    simpa using Nat.ne_of_gt (later i member)
  have none : back.filter (fun i => (t.item i).position < position) = [] := by
    refine List.filter_eq_nil_iff.mpr fun i member => ?_
    simpa using Nat.le_of_lt (later i member)
  rw [lookup?, List.find?_append, elsewhere, Option.or_none, List.filter_append, none, List.append_nil, lookup?]

theorem lookup_later (later : ∀ i ∈ ids, position < (t.item i).position) : t.lookup? position ids = none :=
  (List.nil_append ids ▸ lookup_append later : t.lookup? position ids = t.lookup? position [])

theorem find_earlier (earlier : ∀ i ∈ front, (t.item i).position < position) :
    (front ++ ids).find? (fun i => (t.item i).position = position) =
      ids.find? fun i => (t.item i).position = position := by
  have elsewhere : front.find? (fun i => (t.item i).position = position) = none := by
    refine List.find?_eq_none.mpr fun i member => ?_
    simpa using Nat.ne_of_lt (earlier i member)
  rw [List.find?_append, elsewhere, Option.none_or]

/-- Behind what starts earlier the first item at the position is found. -/
theorem lookup_here (earlier : ∀ i ∈ front, (t.item i).position < position)
    (here : (t.item c).position = position) : t.lookup? position (front ++ c :: ids) = some c := by
  rw [lookup?, find_earlier earlier, List.find?_cons_of_pos (by simpa using here), Option.some_or]

/-- Of what starts earlier only the last item is found, if nothing behind it is. -/
theorem lookup_near (earlier : ∀ i ∈ front, (t.item i).position < position)
    (near : (t.item c).position < position) :
    t.lookup? position (front ++ c :: ids) = some ((t.lookup? position ids).getD c) := by
  have other : ¬ (t.item c).position = position := Nat.ne_of_lt near
  rw [lookup?, find_earlier earlier, List.find?_cons_of_neg (by simpa using other), List.filter_append,
    List.filter_cons_of_pos (by simpa using near), List.getLast?_append_of_ne_nil _ (List.cons_ne_nil _ _),
    List.getLast?_cons, lookup?]
  cases ids.find? fun i => (t.item i).position = position <;> rfl

end Linear

section Bisection

variable {α : Type} {p : α → Bool} {xs : List α}

/-- The number of items that have a property, found by halving. Those that have it must stand in front of
those that have not. -/
def partitionPoint (p : α → Bool) (xs : List α) : Nat :=
  if empty : xs.length = 0 then 0
  else
    let half := xs.length / 2
    if p xs[half] then half + 1 + partitionPoint p (xs.drop (half + 1))
    else partitionPoint p (xs.take half)
termination_by xs.length

/-- The child that a search by halving comes to. -/
def bisectedChild? (t : Tree) (id : ItemId) (position : Nat) : Option ItemId :=
  let after := partitionPoint (fun c => (t.item c).position ≤ position) (t.children id)
  if after = 0 then none else (t.children id)[after - 1]?

/-- Any item tells on which side of it the first one without the property is. -/
theorem takeWhile_at {i : Nat} (inside : i < xs.length) (parted : xs.Pairwise fun x y => p y → p x) :
    xs.takeWhile p =
      if p xs[i] then xs.take i ++ xs[i] :: (xs.drop (i + 1)).takeWhile p else (xs.take i).takeWhile p := by
  have split : xs.take i ++ xs[i] :: xs.drop (i + 1) = xs := by
    rw [List.getElem_cons_drop, List.take_append_drop]
  have same : xs.takeWhile p = (xs.take i ++ xs[i] :: xs.drop (i + 1)).takeWhile p := by rw [split]
  rw [same]
  split
  · rename_i has
    rw [← split] at parted
    have all : ∀ x ∈ xs.take i, p x := fun x member =>
      (List.pairwise_append.mp parted).2.2 x member _ List.mem_cons_self has
    rw [List.takeWhile_append_of_pos all, List.takeWhile_cons_of_pos has]
  · rename_i lacks
    rw [List.takeWhile_append, List.takeWhile_cons_of_neg lacks, List.append_nil]
    split
    · rename_i all
      exact ((List.takeWhile_prefix p).eq_of_length all).symm
    · rfl

theorem partitionPoint_eq (parted : xs.Pairwise fun x y => p y → p x) :
    partitionPoint p xs = (xs.takeWhile p).length := by
  fun_induction partitionPoint p xs with
  | case1 xs empty =>
    rw [List.length_eq_zero_iff.mp empty]
    rfl
  | case2 xs inhabited half has ih =>
    have inside : half < xs.length := Nat.div_lt_self (Nat.pos_of_ne_zero inhabited) Nat.one_lt_two
    have front : (xs.take half).length = half := List.length_take_of_le (Nat.le_of_lt inside)
    rw [ih (parted.sublist (List.drop_sublist _ _)), takeWhile_at inside parted, if_pos has, List.length_append,
      List.length_cons, front]
    omega
  | case3 xs inhabited half lacks ih =>
    have inside : half < xs.length := Nat.div_lt_self (Nat.pos_of_ne_zero inhabited) Nat.one_lt_two
    rw [ih (parted.sublist (List.take_sublist _ _)), takeWhile_at inside parted, if_neg lacks]

/-- The children start one after the other, so halving finds the last one that starts at a position or
before it. -/
theorem Laid.bisectedChild_eq (laid : t.Laid whole b) (id : ItemId) (position : Nat) :
    t.bisectedChild? id position = t.childAt? id position := by
  have parted : (t.children id).Pairwise fun c d =>
      decide ((t.item d).position ≤ position) → decide ((t.item c).position ≤ position) := by
    refine (laid.sorted id).imp fun before reached => ?_
    exact decide_eq_true (Nat.le_trans (Nat.le_of_lt before.starts) (of_decide_eq_true reached))
  have front := List.takeWhile_prefix (fun c => decide ((t.item c).position ≤ position)) (l := t.children id)
  rw [bisectedChild?, childAt?, partitionPoint_eq parted]
  generalize (t.children id).takeWhile (fun c => decide ((t.item c).position ≤ position)) = taken at front
  split
  · rename_i none
    rw [List.length_eq_zero_iff.mp none]
    rfl
  · obtain ⟨rest, split⟩ := front
    rw [List.getLast?_eq_getElem?, ← split, List.getElem?_append_left (by omega)]

end Bisection

section Search

/-- The children in front of the one that is found lie before it, and those behind it start later. -/
theorem Laid.childAt_split (laid : t.Laid whole b) (found : t.childAt? id position = some c) :
    (t.item c).position ≤ position ∧ ∃ front back, t.children id = front ++ c :: back ∧
      (∀ d ∈ front, t.Before d c) ∧ ∀ d ∈ back, position < (t.item d).position := by
  have reached := List.mem_takeWhile_imp (List.mem_of_getLast? found)
  obtain ⟨front, taken⟩ := List.getLast?_eq_some_iff.mp found
  have split := List.takeWhile_append_dropWhile
    (p := fun c => decide ((t.item c).position ≤ position)) (l := t.children id)
  have stopped := List.dropWhile_get_zero_not
    (fun c => decide ((t.item c).position ≤ position)) (t.children id)
  generalize (t.children id).dropWhile (fun c => decide ((t.item c).position ≤ position)) = back at split stopped
  rw [taken, List.append_assoc, List.singleton_append] at split
  have sorted := laid.sorted id
  rw [← split] at sorted
  obtain ⟨_, sorted, across⟩ := List.pairwise_append.mp sorted
  refine ⟨by simpa using reached, front, back, split.symm,
    fun d member => across d member c List.mem_cons_self, fun d member => ?_⟩
  cases back with
  | nil => cases member
  | cons first back =>
    have later : position < (t.item first).position := by simpa using stopped (Nat.succ_pos _)
    rcases List.mem_cons.mp member with rfl | member
    · exact later
    · have behind := (List.pairwise_cons.mp (List.pairwise_cons.mp sorted).2).1 d member
      exact Nat.lt_trans later behind.starts

theorem Laid.childAt_none (laid : t.Laid whole b) (none : t.childAt? id position = none) :
    ∀ d ∈ t.children id, position < (t.item d).position := by
  have sorted := laid.sorted id
  intro d member
  rw [childAt?, List.getLast?_eq_none_iff] at none
  cases children : t.children id with
  | nil =>
    rw [children] at member
    cases member
  | cons first others =>
    rw [children] at sorted member none
    have later : position < (t.item first).position := by
      by_contra reached
      rw [List.takeWhile_cons_of_pos (by simpa using reached)] at none
      cases none
    rcases List.mem_cons.mp member with rfl | member
    · exact later
    · exact Nat.lt_trans later ((List.pairwise_cons.mp sorted).1 d member).starts

theorem Ends.early_below (ends : t.Ends e id) (member : c ∈ t.below n id) : (t.item c).position < e :=
  below_induction (P := fun id c => t.Ends e id → (t.item c).position < e) (fun child ends => ends.early (.inl child))
    (fun child lower ends => lower (ends.held (.inl child))) member ends

/-- What lies in items that are before another one starts in front of it. -/
theorem early_flatMap (before : ∀ d ∈ front, t.Before d c) :
    ∀ i ∈ front.flatMap fun d => d :: t.below n d, (t.item i).position < (t.item c).position := by
  intro i member
  obtain ⟨d, listed, member⟩ := List.mem_flatMap.mp member
  rcases List.mem_cons.mp member with rfl | lower
  · exact (before i listed).starts
  · exact (before d listed).ends.early_below lower

theorem Laid.late_flatMap (laid : t.Laid whole b) (late : ∀ d ∈ back, position < (t.item d).position) :
    ∀ i ∈ back.flatMap fun d => d :: t.below n d, position < (t.item i).position := by
  intro i member
  obtain ⟨d, listed, member⟩ := List.mem_flatMap.mp member
  rcases List.mem_cons.mp member with rfl | lower
  · exact late i listed
  · exact Nat.lt_of_lt_of_le (late d listed) (laid.position_le_of_mem_below lower)

/-- Level by level the search ends where a search through all items would. -/
theorem Laid.innermostBelow_eq (laid : t.Laid whole b) (position n : Nat) (id : ItemId) :
    t.innermostBelow position n id = (t.lookup? position (t.below n id)).getD id := by
  induction n generalizing id with
  | zero => rfl
  | succ n ih =>
    rw [innermostBelow, Tree.below]
    cases found : t.childAt? id position with
    | none => rw [lookup_later (laid.late_flatMap (laid.childAt_none found)), Option.getD_none]
    | some c =>
      obtain ⟨reached, front, back, split, before, late⟩ := laid.childAt_split found
      have earlier : ∀ i ∈ front.flatMap fun d => d :: t.below n d, (t.item i).position < position :=
        fun i member => Nat.lt_of_lt_of_le (early_flatMap before i member) reached
      rw [split, List.flatMap_append, List.flatMap_cons, List.cons_append, ← List.cons_append, ← List.append_assoc,
        lookup_append (laid.late_flatMap late)]
      dsimp only
      split
      · rename_i here
        rw [lookup_here earlier here, Option.getD_some]
      · rename_i other
        rw [lookup_near earlier (Nat.lt_of_le_of_ne reached other), Option.getD_some]
        exact ih c

end Search

section Limit

theorem Laid.ancestors_of_child (laid : t.Laid whole b) (child : c ∈ t.children id) :
    t.ancestors c = id :: t.ancestors id :=
  laid.ancestors_of_parent ((laid.link id c).mp child)

theorem childAt?_child (found : t.childAt? id position = some c) : c ∈ t.children id :=
  (List.takeWhile_prefix _).subset (List.mem_of_getLast? found)

theorem Laid.innermostBelow_within (laid : t.Laid whole b) (position n : Nat) (id : ItemId) :
    (id :: t.ancestors id) <:+ t.innermostBelow position n id :: t.ancestors (t.innermostBelow position n id) ∧
      (t.ancestors (t.innermostBelow position n id)).length ≤ (t.ancestors id).length + n := by
  induction n generalizing id with
  | zero => exact ⟨List.suffix_refl _, Nat.le_refl _⟩
  | succ n ih =>
    rw [innermostBelow]
    cases found : t.childAt? id position with
    | none => exact ⟨List.suffix_refl _, Nat.le_add_right _ _⟩
    | some c =>
      have above := laid.ancestors_of_child (childAt?_child found)
      have within : (id :: t.ancestors id) <:+ c :: t.ancestors c := above ▸ List.suffix_cons _ _
      have deeper : (t.ancestors c).length = (t.ancestors id).length + 1 := by
        rw [above, List.length_cons]
      dsimp only
      split
      · exact ⟨within, by omega⟩
      · obtain ⟨lower, bounded⟩ := ih c
        exact ⟨within.trans lower, by omega⟩

/-- A search that may go further down either is over or has taken all levels that it could. -/
theorem Laid.innermostBelow_add (laid : t.Laid whole b) (position k m : Nat) (id : ItemId) :
    t.innermostBelow position (k + m) id = t.innermostBelow position k id ∨
      (t.ancestors (t.innermostBelow position k id)).length = (t.ancestors id).length + k ∧
        t.innermostBelow position (k + m) id = t.innermostBelow position m (t.innermostBelow position k id) := by
  induction k generalizing id with
  | zero => exact .inr ⟨rfl, by rw [Nat.zero_add]; rfl⟩
  | succ k ih =>
    rw [Nat.add_right_comm, innermostBelow, innermostBelow]
    cases found : t.childAt? id position with
    | none => exact .inl rfl
    | some c =>
      have deeper : (t.ancestors c).length = (t.ancestors id).length + 1 := by
        rw [laid.ancestors_of_child (childAt?_child found), List.length_cons]
      dsimp only
      split
      · exact .inl rfl
      · rcases ih c with alike | ⟨deep, goes_on⟩
        · exact .inl alike
        · exact .inr ⟨by omega, goes_on⟩

theorem Laid.ancestors_root (laid : t.Laid whole b) : t.ancestors root = [] :=
  laid.ancestors_of_top laid.linked.root

/-- A limited search ends at the item that is found without a limit, or above it at the last level. -/
theorem Laid.innermost_limited (laid : t.Laid whole b) (position k : Nat) :
    let found := t.innermost position none
    let limited := t.innermost position (some k)
    if (t.ancestors found).length ≤ k then limited = found
    else limited ∈ t.ancestors found ∧ (t.ancestors limited).length = k := by
  intro found limited
  have top : (t.ancestors root).length = 0 := by rw [laid.ancestors_root]; rfl
  have bounded : (t.ancestors found).length ≤ t.size := by
    have bounded := (laid.innermostBelow_within position t.size root).2
    rwa [top, Nat.zero_add] at bounded
  by_cases all : t.size ≤ k
  · have same : limited = found := congrArg (t.innermostBelow position · root) (Nat.min_eq_right all)
    rw [if_pos (Nat.le_trans bounded all)]
    exact same
  · have least : min k t.size = k := Nat.min_eq_left (by omega)
    have here : limited = t.innermostBelow position k root := congrArg (t.innermostBelow position · root) least
    obtain ⟨m, size⟩ : ∃ m, t.size = k + m := ⟨t.size - k, by omega⟩
    have there : found = t.innermostBelow position (k + m) root := congrArg (t.innermostBelow position · root) size
    have shallow := (laid.innermostBelow_within position k root).2
    rw [← here, top, Nat.zero_add] at shallow
    -- either the limited search was over, or it has used up its levels and goes on from there
    rcases laid.innermostBelow_add position k m root with alike | ⟨deep, goes_on⟩
    · rw [← there, ← here] at alike
      rw [alike, if_pos shallow]
    · rw [← here, top, Nat.zero_add] at deep
      rw [← there, ← here] at goes_on
      have within := (laid.innermostBelow_within position m limited).1
      rw [← goes_on] at within
      rcases List.suffix_cons_iff.mp within with same | above
      · obtain ⟨same, _⟩ := List.cons.inj same
        rw [← same, if_pos shallow]
      · rw [if_neg]
        · exact ⟨above.subset List.mem_cons_self, deep⟩
        · have longer := above.length_le
          rw [List.length_cons, deep] at longer
          omega

end Limit

end Tree

/-- Whatever is read from a text, halving the children of an item finds the same child as going through them,
and looking up a position finds the first item that starts there, or else the last one that starts before it.
With a limit it finds that item, or what it lies in at the last level. -/
theorem position_lookup (options : Options) (text : String) (filename : Option String)
    (includedFrom : Option (DocumentId × ItemId)) (position : Nat) :
    let t := (Document.ofText options text filename includedFrom).tree
    let ids := t.descendants Tree.root
    let found := t.innermost position none
    (∀ id, t.bisectedChild? id position = t.childAt? id position) ∧
      found = ((ids.find? fun i => (t.item i).position = position).or
        (ids.filter fun i => (t.item i).position < position).getLast?).getD Tree.root ∧
      ∀ k, let limited := t.innermost position (some k)
        if (t.ancestors found).length ≤ k then limited = found
        else limited ∈ t.ancestors found ∧ (t.ancestors limited).length = k := by
  obtain ⟨_, laid⟩ := Document.ofText_laid options text filename includedFrom
  exact ⟨fun id => laid.bisectedChild_eq id position, laid.innermostBelow_eq position _ Tree.root,
    laid.innermost_limited position⟩

end ScoreText
