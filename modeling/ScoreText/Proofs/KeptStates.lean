import Mathlib.Data.Finset.Dedup
import Mathlib.Data.Finset.Card
import ScoreText.Lexer.Store

/-! Keeping states one after the other. A store holds each state once, in the order in which the states first came,
and gives the place of a state among them as its number. -/
namespace ScoreText

section Repeats

variable {α : Type} [BEq α] [LawfulBEq α] {xs front : List α}

theorem eraseDups_of_nodup (once : xs.Nodup) : xs.eraseDups = xs := by
  induction xs with
  | nil => rfl
  | cons x xs ih =>
    obtain ⟨absent, once⟩ := List.nodup_cons.mp once
    have others : xs.filter (fun y => !y == x) = xs := by
      apply List.filter_eq_self.mpr
      intro y member
      simpa using fun same : y = x => absent (same ▸ member)
    rw [List.eraseDups_cons, others, ih once]

/-- Repeats may be left out of what stands in front first. -/
theorem eraseDups_front (erased : xs.eraseDups = front) (once : front.Nodup) (ys : List α) :
    (xs ++ ys).eraseDups = (front ++ ys).eraseDups := by
  have known : ys.removeAll xs = ys.removeAll front := by
    apply List.filter_congr
    intro y _
    have same : y ∈ front ↔ y ∈ xs := erased ▸ List.mem_eraseDups
    simp [same]
  rw [List.eraseDups_append, List.eraseDups_append, erased, eraseDups_of_nodup once, known]

theorem eraseDups_concat (once : xs.Nodup) (x : α) :
    (xs ++ [x]).eraseDups = if x ∈ xs then xs else xs ++ [x] := by
  by_cases there : x ∈ xs
  · have known : [x].removeAll xs = [] := by simp [List.removeAll, there]
    rw [List.eraseDups_append, eraseDups_of_nodup once, known, if_pos there]
    simp
  · have new : [x].removeAll xs = [x] := by simp [List.removeAll, there]
    rw [List.eraseDups_append, eraseDups_of_nodup once, new, if_neg there]
    rfl

end Repeats

namespace StateStore

/-- The states of a store, each at its number. -/
def kept (store : StateStore) : List State :=
  store.states.toList.map FrozenState.thaw

def keepAll (store : StateStore) : List State → List Nat × StateStore
  | [] => ([], store)
  | s :: ss =>
    let (number, next) := store.keep s
    let (numbers, last) := next.keepAll ss
    (number :: numbers, last)

variable (store : StateStore) (s : State) (ss : List State)

theorem count_eq : store.count = store.kept.length := by
  simp [count, kept]

theorem state_eq (i : Nat) : store.state? i = store.kept[i]? := by
  simp [state?, kept]

theorem lookup_iff (i : Nat) : store.numbers.lookup s.freeze = some i ↔ store.kept[i]? = some s := by
  rw [store.inverse, ← state_eq, state?, Option.map_eq_some_iff]
  constructor
  · exact fun there => ⟨_, there, s.thaw_freeze⟩
  · rintro ⟨f, there, rfl⟩
    rw [there, f.freeze_thaw]

theorem kept_nodup : store.kept.Nodup := by
  rw [List.nodup_iff_getElem?_ne_getElem?]
  intro i j before inside same
  -- A state at two places would have two numbers, but the map leads back to only one.
  obtain ⟨s, there⟩ : ∃ s, store.kept[j]? = some s := ⟨_, List.getElem?_eq_getElem inside⟩
  have first := (store.lookup_iff s i).mpr (same.trans there)
  have second := (store.lookup_iff s j).mpr there
  have : i = j := Option.some.inj (first.symm.trans second)
  omega

section Step

theorem kept_add (new : store.numbers.lookup s.freeze = none) :
    (store.add s.freeze new).kept = store.kept ++ [s] := by
  simp [kept, add]

theorem mem_kept_iff : s ∈ store.kept ↔ ∃ i, store.numbers.lookup s.freeze = some i := by
  simp only [List.mem_iff_getElem?, lookup_iff]

theorem keep_kept : (store.keep s).2.kept = (store.kept ++ [s]).eraseDups := by
  rw [eraseDups_concat store.kept_nodup]
  unfold keep
  split
  · rename_i i known
    rw [if_pos ((store.mem_kept_iff s).mpr ⟨i, known⟩)]
  · rename_i known
    have new : s ∉ store.kept := by simp [mem_kept_iff, known]
    rw [if_neg new, kept_add]

theorem keep_number : (store.keep s).1 = (store.keep s).2.kept.idxOf s := by
  have there := store.state_keep s
  rw [state_eq] at there
  obtain ⟨inside, found⟩ := List.getElem?_eq_some_iff.mp there
  calc (store.keep s).1
    _ = (store.keep s).2.kept.idxOf (store.keep s).2.kept[(store.keep s).1] :=
      ((kept_nodup _).idxOf_getElem _ inside).symm
    _ = _ := by rw [found]

/-- Either the number was given before, or it is the next one. -/
theorem keep_order :
    (List.range store.count ++ [(store.keep s).1]).eraseDups = List.range (store.keep s).2.count := by
  rw [eraseDups_concat List.nodup_range, keep_number, keep_kept, count_eq, count_eq, keep_kept,
    eraseDups_concat store.kept_nodup]
  by_cases there : s ∈ store.kept
  · simp [there, List.idxOf_lt_length_of_mem there]
  · simp [there, List.idxOf_append_of_notMem there, List.range_succ]

end Step

section Run

theorem keepAll_cons : store.keepAll (s :: ss) =
    ((store.keep s).1 :: ((store.keep s).2.keepAll ss).1, ((store.keep s).2.keepAll ss).2) :=
  rfl

theorem keepAll_kept : (store.keepAll ss).2.kept = (store.kept ++ ss).eraseDups := by
  induction ss generalizing store with
  | nil => rw [List.append_nil, eraseDups_of_nodup store.kept_nodup, keepAll]
  | cons s ss ih =>
    have step := eraseDups_front (store.keep_kept s).symm (kept_nodup _) ss
    rw [keepAll_cons, ih, ← step, List.append_assoc, List.singleton_append]

theorem keepAll_extends : store.kept <+: (store.keepAll ss).2.kept := by
  rw [keepAll_kept, List.eraseDups_append, eraseDups_of_nodup store.kept_nodup]
  exact List.prefix_append ..

theorem keepAll_numbers : (store.keepAll ss).1 = ss.map ((store.keepAll ss).2.kept.idxOf ·) := by
  induction ss generalizing store with
  | nil => rfl
  | cons s ss ih =>
    have there : s ∈ (store.keep s).2.kept := by
      rw [keep_kept, List.mem_eraseDups]
      simp
    -- The calls behind this one leave the state at its place.
    have place := (keepAll_extends (store.keep s).2 ss).idxOf_eq_of_mem there
    rw [keepAll_cons, List.map_cons, keep_number, place, ih]

theorem keepAll_order : (List.range store.count ++ (store.keepAll ss).1).eraseDups =
    List.range (store.keepAll ss).2.count := by
  induction ss generalizing store with
  | nil => rw [keepAll, List.append_nil, eraseDups_of_nodup List.nodup_range]
  | cons s ss ih =>
    have step := eraseDups_front (store.keep_order s) List.nodup_range
    rw [keepAll_cons, List.append_cons, step, ih]

theorem keepAll_again (calls later : List State) :
    (empty.keepAll calls).1.map ((empty.keepAll calls).2.keepAll later).2.state? = calls.map some := by
  rw [keepAll_numbers, List.map_map]
  apply List.map_congr_left
  intro s there
  have inside : s ∈ (empty.keepAll calls).2.kept := by
    rw [keepAll_kept, List.mem_eraseDups]
    exact List.mem_append_right _ there
  have stays := keepAll_extends (empty.keepAll calls).2 later
  rw [Function.comp_apply, state_eq, stays.idxOf_eq_of_mem inside]
  exact List.getElem?_idxOf (stays.subset inside)

end Run

/-- The numbers of a new store stand for the states that are kept in it. Two calls get the same number if and only
if their states are equal (behind the last call there is neither). The numbers are those below the count, in the
order of their first use, and the count is the number of different states. Whatever is kept later, each number
gives its state back, and a number that was not given has none. -/
theorem numbers_stand_for_states (calls : List State) :
    let numbers := (empty.keepAll calls).1
    let store := (empty.keepAll calls).2
    (∀ i j : Nat, numbers[i]? = numbers[j]? ↔ calls[i]? = calls[j]?) ∧
    numbers.eraseDups = List.range store.count ∧ store.count = calls.toFinset.card ∧
    (∀ later, numbers.map (store.keepAll later).2.state? = calls.map some) ∧
    ∀ i, store.state? i = none ↔ i ∉ numbers := by
  intro numbers store
  have kept : store.kept = calls.eraseDups := empty.keepAll_kept calls
  have placed : numbers = calls.map (store.kept.idxOf ·) := empty.keepAll_numbers calls
  have order : numbers.eraseDups = List.range store.count := empty.keepAll_order calls
  have again : numbers.map store.state? = calls.map some := keepAll_again calls []
  refine ⟨?_, order, ?_, keepAll_again calls, ?_⟩
  · intro i j
    constructor
    · intro same
      -- Numbers that are equal give the same state back.
      apply Option.map_injective (Option.some_injective State)
      rw [← List.getElem?_map, ← List.getElem?_map, ← again, List.getElem?_map, List.getElem?_map, same]
    · intro same
      rw [placed, List.getElem?_map, List.getElem?_map, same]
  · have same : store.kept.toFinset = calls.toFinset := by
      ext s
      simp [kept, List.mem_eraseDups]
    rw [count_eq, ← List.toFinset_card_of_nodup store.kept_nodup, same]
  · intro i
    have given : i ∈ numbers ↔ i < store.count := by
      rw [← List.mem_eraseDups, order, List.mem_range]
    rw [given, state_eq, List.getElem?_eq_none_iff, count_eq]
    omega

/-- A state that comes back gets its number again. -/
example :
    let root := State.ofMode .lilypond
    (empty.keepAll [root, root.enter (.lily .music), root, root]).1 = [0, 1, 0, 0] := by
  decide

end StateStore

end ScoreText
