import ScoreText.Lexer.State
/-!
Snapshots of states, and states kept under small numbers, such as one for each line of an editor.
Equal states share one number.
-/
namespace ScoreText

/-- A snapshot of the open regions, the bottom one in front. -/
structure FrozenState where
  frames : List Frame
  some_frame : frames ≠ []
  deriving DecidableEq, Repr

def State.freeze (s : State) : FrozenState :=
  ⟨s.frames, by simp [frames, stack]⟩

def FrozenState.thaw (f : FrozenState) : State :=
  ⟨f.frames.tail.reverse, f.frames.head f.some_frame⟩

@[simp] theorem State.thaw_freeze (s : State) : s.freeze.thaw = s := by
  obtain ⟨inner, bottom⟩ := s
  simp [freeze, FrozenState.thaw, frames, stack]

@[simp] theorem FrozenState.freeze_thaw (f : FrozenState) : f.thaw.freeze = f := by
  obtain ⟨frames, some_frame⟩ := f
  simp [State.freeze, thaw, State.frames, State.stack]

/-- The snapshots kept so far, each at its number, and a map that leads from each snapshot back to
its number. -/
structure StateStore where
  numbers : List (FrozenState × Nat)
  states : Array FrozenState
  inverse : ∀ f i, numbers.lookup f = some i ↔ states[i]? = some f

namespace StateStore

def empty : StateStore :=
  ⟨[], #[], by simp⟩

def count (store : StateStore) : Nat :=
  store.states.size

/-- The map and the snapshots stay inverse to each other when a new snapshot gets the next number. -/
theorem inverse_push {store : StateStore} {f : FrozenState} (new : store.numbers.lookup f = none)
    (g : FrozenState) (i : Nat) :
    ((f, store.count) :: store.numbers).lookup g = some i ↔ (store.states.push f)[i]? = some g := by
  have known := store.inverse g i
  rw [List.lookup_cons, Array.getElem?_push, count]
  by_cases same : g = f
  · subst same
    rw [new] at known
    by_cases next : i = store.states.size
    · simp [next]
    · have absent : store.states[i]? ≠ some g := fun there => nomatch known.mpr there
      simp [next, absent, Ne.symm next]
  · have other : (g == f) = false := beq_eq_false_iff_ne.mpr same
    by_cases next : i = store.states.size
    · subst next
      simp [other, known, Ne.symm same]
    · simp [other, known, next]

def add (store : StateStore) (f : FrozenState) (new : store.numbers.lookup f = none) : StateStore where
  numbers := (f, store.count) :: store.numbers
  states := store.states.push f
  inverse := inverse_push new

/-- Keeps a state and gives its number. -/
def keep (store : StateStore) (s : State) : Nat × StateStore :=
  match known : store.numbers.lookup s.freeze with
  | some i => (i, store)
  | none => (store.count, store.add s.freeze known)

def state? (store : StateStore) (i : Nat) : Option State :=
  store.states[i]?.map FrozenState.thaw

/-- What is kept comes back under its number. -/
theorem state_keep (store : StateStore) (s : State) :
    (store.keep s).2.state? (store.keep s).1 = some s := by
  unfold keep
  split
  · rename_i i known
    rw [state?, (store.inverse _ _).mp known]
    simp
  · simp [state?, add, count]

end StateStore

end ScoreText
