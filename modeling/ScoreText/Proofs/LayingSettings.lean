import ScoreText.Proofs.Ahead
import ScoreText.Proofs.LayingNotes

/-! Assignments, blocks and changes of properties are laid out in order. -/
namespace ScoreText

open Reader

namespace Reading

variable {whole : Prop} {n lo m : Nat} {fills : Option ItemId} {id : ItemId} {o r r' : Reader}
  {t : Token} {deeper : Deeper}

section Assignment

/-- An assignment before its value is read has at most one child, a Scheme expression. -/
def SchemeOnly (t : Tree) (id : ItemId) : Prop :=
  t.children id = [] ∨ ∃ c, t.children id = [c] ∧ t.kind c = .scheme

theorem SchemeOnly.find? {u : Tree} (only : SchemeOnly u id) (positive : 0 < u.size) :
    (u.find? id .scheme = none → u.children id = []) ∧
      ∀ c, u.find? id .scheme = some c → c ∈ u.children id := by
  obtain ⟨k, size⟩ : ∃ k, u.size = k + 1 := ⟨u.size - 1, by omega⟩
  rcases only with none | ⟨child, one, kind⟩
  · refine ⟨fun _ => none, fun c found => ?_⟩
    rw [Tree.find?, Tree.descendants, size, Tree.below, none] at found
    cases found
  · have first : u.find? id .scheme = some child := by
      rw [Tree.find?, Tree.descendants, size, Tree.below, one, List.flatMap_cons, List.cons_append,
        List.find?_cons_of_pos (by simp [kind])]
    refine ⟨fun found => ?_, fun c found => ?_⟩
    · rw [first] at found
      cases found
    · rw [first] at found
      cases found
      rw [one]
      exact List.mem_singleton_self _

/-- The token that was given back starts a Scheme expression. -/
def SchemeNext (r : Reader) : Prop :=
  r.pushed = true ∧ ∃ s, r.current? = some s ∧ s.token.kind = .lily .schemeStart

/-- What is read as an assignment: the assignment, or the Scheme expression in one that was given up. -/
structure Assigned (whole : Prop) (t : Token) (r : Reader) (found : Option ItemId) (r' : Reader) : Prop where
  row : Tree.Row whole t.start r.tree r'.tree r'.reach found.toList
  either : ∀ id ∈ found, Single whole t.start r.tree r'.tree r'.reach id ∨ SchemeNext r'

theorem SchemeOnly.append {u : Tree} {scheme : ItemId} (none : u.children id = [])
    (inside : id < u.size) (kind : u.kind scheme = .scheme) :
    SchemeOnly (u.append id scheme) id := by
  refine .inr ⟨scheme, ?_, ?_⟩
  · have before : (u.detach scheme).children id = [] :=
      List.sublist_nil.mp (none ▸ Tree.detach_sublist u scheme id)
    rw [Tree.children_append u inside, if_pos rfl, before]
    rfl
  · rw [Tree.kind, Tree.item_moved]
    exact kind

/-- A child of a given-up assignment can be given away. -/
theorem found_child {kind : ItemKind} {token : Option Token} {c : ItemId}
    (born : Born whole n lo o kind token id r) (moved : Moved whole n (some id) lo r r')
    (child : c ∈ r'.tree.children id) : Tree.Found whole lo o.tree r'.tree r'.reach c := by
  have laid := moved.laid
  have step := born.step moved
  have holds : r'.tree.Holds id c := .inl child
  have above : r'.tree.parent c = some id := (laid.link id c).mp child
  obtain ⟨old, opened, _⟩ := moved.went.filling id rfl
  refine ⟨Nat.le_of_not_lt fun before => ?_, (laid.inside id c holds).2, ?_, laid.early id c holds,
    laid.occupied id c holds, fun q member => ?_, fun q held => ?_⟩
  · have there := (step.went.grown.unheld id c before holds).lt_size
    exact absurd there (Nat.not_lt_of_le (Nat.le_of_eq born.new.symm))
  · have position : (r'.tree.item id).position = lo := by
      rw [moved.went.grown.position old, born.item]
      rfl
    exact position ▸ laid.below id c child
  · cases above.symm.trans (laid.attributes q c member)
  · have same : q = id := by
      rcases held with member | member
      · exact Option.some.inj (((laid.link q c).mp member).symm.trans above)
      · cases above.symm.trans (laid.attributes q c member)
    subst same
    exact ⟨Nat.le_of_eq born.new.symm, opened.unheld⟩

theorem readAssignment_lays (deep : Deep whole n deeper) (spare : Spare whole n t r) :
    Lays whole n none t.start r r (readAssignment deeper t) (Assigned whole t r) := by
  refine .bind (add_lays spare .assignment fun _ same => (Option.mem_some_iff.mp same).symm)
    fun id o _ added => ?_
  obtain ⟨born, _⟩ := added
  refine born.finish (.loop_ended born.here (P := fun found r' => ∀ c ∈ found,
    c = id ∨ c ∈ r'.tree.children id ∧ SchemeNext r') (I := fun _ r' => SchemeOnly r'.tree id) ?_
    fun _ r1 moved1 only => ?_) ?_
  · refine .inl ?_
    rw [Tree.children, born.item]
    rfl
  · refine .bind (free_nextItem_lays moved1) fun found r2 moved2 taken => ?_
    cases found with
    | none => exact .pure moved2 (by rintro _ ⟨⟩)
    | some s =>
      have taken : Picked whole n (some id) t.start o r1 s r2 := taken
      have only : SchemeOnly r2.tree id := taken.tree ▸ only
      dsimp only
      split
      · refine .bind (setToken_lays taken) fun _ r3 moved3 _ => ?_
        refine free_readInto_lays deep moved3 fun _ moved5 => .pure moved5 ?_
        rintro _ ⟨⟩
        exact .inl rfl
      · split
        · rename_i isScheme
          refine .tree ?_
          -- a second Scheme expression ends the assignment: it is given back, and the first one is what is
          -- left of it
          obtain ⟨empty, child⟩ := only.find? moved2.laid.inhabited
          split
          · rename_i scheme known
            refine .bind (pushBack_lays taken) fun _ r3 moved3 same => .pure moved3 ?_
            rintro _ ⟨⟩
            subst same
            refine .inr ⟨child scheme known, rfl, ?_⟩
            obtain ⟨current, here, token⟩ := Option.map_eq_some_iff.mp taken.current
            exact ⟨current, here, by rw [token]; exact eq_of_beq isScheme⟩
          · rename_i known
            refine .bind (readQuoting_lays deep .scheme taken.spare) fun scheme r3 step quoted => ?_
            obtain ⟨single, kind⟩ := quoted
            refine .bind (append_lays taken.moved taken.gap step single.toFound) fun _ r4 moved4 same => ?_
            have inside := (moved2.went.filling id rfl).opened.inside
            have none : r3.tree.children id = [] := by
              rw [Tree.children, step.went.grown.item_eq inside]
              exact empty known
            refine .pure moved4 ?_
            subst same
            exact ⟨SchemeOnly.append none (Nat.lt_of_lt_of_le inside step.went.grown.larger)
              kind, Nat.lt_of_le_of_lt step.went.left_le taken.fewer⟩
        · exact .bind (pushBack_lays taken) fun _ _ moved _ => .pure moved (by rintro _ ⟨⟩)
  · intro found r' moved answer
    have here : Single whole t.start r.tree r'.tree r'.reach id := born.single moved (born.occupied moved)
    cases found with
    | none => exact ⟨.nil, by rintro _ ⟨⟩⟩
    | some c =>
      rcases answer c rfl with rfl | ⟨child, next⟩
      · refine ⟨here.row, ?_⟩
        rintro _ ⟨⟩
        exact .inl here
      · refine ⟨(found_child born moved child).row, ?_⟩
        rintro _ ⟨⟩
        exact .inr next

/-- A token that was given back and is neither blank nor a comment comes again. -/
theorem run_nextItem_pushed {s : ScannedToken} (free : r.source = .free) (pushed : r.pushed = true)
    (current : r.current? = some s) (blank : s.token.kind.isSpace = false)
    (comment : s.token.kind.isComment = false) : (nextItem.run r).1 = some s.token := by
  have run : next.run r = (some s.token, { r with pushed := false }) := by
    show r.next = _
    rw [Reader.next, free]
    simp [pull, pushed, current, free]
  have all : nextItem.run r = (some s.token, { r with pushed := false }) := by
    apply loop_done
    simp only [run_bind, run, blank, comment, Bool.or_false, Bool.false_eq_true, if_false]
    rfl
  rw [all]

theorem readVariable_lays (deep : Deep whole n deeper) (spare : Spare whole n t r) :
    Lays whole n none t.start r r (readVariable deeper t) fun found r' =>
      Tree.Row whole t.start r.tree r'.tree r'.reach found.toList := by
  refine .bind (readAssignment_lays deep spare) fun found r1 moved1 assigned => ?_
  obtain ⟨row, either⟩ := assigned
  cases found with
  | none => exact .pure moved1 .nil
  | some id =>
    rcases either id rfl with single | next
    · have here : Moved whole n (some id) (r1.tree.item id).position r1 r1 := by
        refine moved1.stable.here (Nat.le_of_lt single.early) ?_
        rintro _ ⟨⟩
        exact ⟨single.inside, ⟨single.inside, single.unheld⟩, Nat.le_refl _⟩
      have done : ∀ {r2 : Reader}, Moved whole n (some id) (r1.tree.item id).position r1 r2 →
          Lays whole n none t.start r r2 (pure (some id)) fun found r' =>
            Tree.Row whole t.start r.tree r'.tree r'.reach found.toList := by
        refine fun moved => .pure (moved1.trans moved single.starts ?_) (single.fill moved).row
        rintro _ ⟨⟩
        exact .inr single.new
      refine .bind (free_nextItem_lays here) fun unit r2 moved2 taken => ?_
      cases unit with
      | none => exact done moved2
      | some unit =>
        have taken : Picked whole n _ _ _ _ unit r2 := taken
        dsimp only
        split
        · refine .bind (addFor_gives .command unit r2 taken.spare) fun child r3 step single => ?_
          exact .bind (append_lays taken.moved taken.gap step single.toFound) fun _ _ moved _ => done moved
        · exact .bind (pushBack_lays taken) fun _ _ moved _ => done moved
    · have keep : ∀ {r2 : Reader}, r2.tree = r1.tree → r1.reach ≤ r2.reach →
          Tree.Row whole t.start r.tree r2.tree r2.reach [id] := by
        intro r2 same le
        have grown : Tree.Grown none 0 r1.tree r2.tree := same ▸ Tree.Grown.refl none 0 r2.tree
        exact (row.found.keep grown le).row
      -- behind an assignment that was given up there is no unit
      have scheme : ∃ s, ((free nextItem).run r1).1 = some s ∧ s.kind = .lily .schemeStart := by
        obtain ⟨pushed, s, current, kind⟩ := next
        refine ⟨s.token, ?_, kind⟩
        rw [free, run_within]
        exact run_nextItem_pushed rfl pushed current (by rw [kind]; rfl) (by rw [kind]; rfl)
      have next := free_nextItem_lays moved1
      refine .bind (P := fun found r' => Given whole n none t.start r r1
          (fun r' => r'.tree = r1.tree ∧ r1.reach ≤ r'.reach) found r' ∧
          ∃ s, found = some s ∧ s.kind = .lily .schemeStart) ⟨next.moved, next.answer, scheme⟩
        fun unit r2 moved2 again => ?_
      obtain ⟨taken, unit, rfl, kind⟩ := again
      have taken : Picked whole n none t.start r r1 unit r2 := taken
      have other : (unit.kind == .lily .unit) = false := by
        rw [kind]
        rfl
      simp only [other, Bool.false_eq_true, if_false]
      refine .bind (pushBack_lays taken) fun _ r3 moved3 same => .pure moved3 ?_
      subst same
      exact keep taken.tree taken.kept

end Assignment

section Block

theorem readBlockInto_lays (deep : Deep whole n deeper) (moved : Moved whole n (some id) lo o r) :
    Lays whole n (some id) lo o r (readBlockInto deeper id) Anything := by
  refine .loop moved trivial fun _ r1 moved _ => ?_
  refine .bind (next_lays moved) fun found r2 moved2 taken => ?_
  cases found with
  | none => exact .pure moved2 trivial
  | some t =>
    have taken : Picked whole n _ _ _ _ t r2 := taken
    dsimp only
    split
    · refine .bind (setToken_lays taken) fun _ _ moved _ => ?_
      exact .bind (readRegionInto_lays deep moved) fun _ _ moved _ => .pure moved trivial
    · split
      · exact .pure moved2 trivial
      · exact .bind (pushBack_lays taken) fun _ _ moved _ => .pure moved trivial

theorem readBlock_gives (deep : Deep whole n deeper) (kind : ItemKind) (t : Token) :
    Gives whole n t (readBlock deeper kind t) := by
  refine .addFor fun id o here => ?_
  refine .bind (readBlockInto_lays deep here) fun block r1 moved1 _ => ?_
  dsimp only
  split
  · exact readInto_lays deep moved1 fun _ moved => .pure moved rfl
  · exact .pure moved1 rfl

theorem readSet_gives (deep : Deep whole n deeper) (t : Token) : Gives whole n t (readSet deeper t) := by
  refine .addFor fun id o here => .bind (.loop_ended here (P := Anything)
    (I := fun tokens r' => ∀ s ∈ tokens, InReach t.start r' s) (fun _ => nofun)
    fun tokens r1 moved within => ?_) fun _ _ moved _ => .pure moved rfl
  refine .bind (nextItem_lays moved) fun found r2 moved2 taken => ?_
  cases found with
  | none => exact .pure moved2 trivial
  | some s =>
    have taken : Picked whole n _ _ _ _ s r2 := taken
    have within : ∀ u ∈ tokens ++ [s], InReach t.start r2 u := by
      intro u member
      rcases List.mem_append.mp member with member | member
      · exact (within u member).mono taken.reach_le
      · rw [List.mem_singleton.mp member]
        exact taken.within
    dsimp only
    split
    · refine .bind (setTokens_lays moved2 within) fun _ r3 moved3 _ => ?_
      exact readInto_lays deep moved3 fun _ moved => .pure moved trivial
    · exact .pure moved2 ⟨within, taken.fewer⟩

end Block

section Path

theorem readWhile_lays (ks : List Lily.Kind) {act : Token → Reading Unit}
    (moved : Moved whole n (some id) lo o r)
    (acts : ∀ t r r', Picked whole n (some id) lo o r t r' →
      Lays whole n (some id) lo o r' (act t) Anything) :
    Lays whole n (some id) lo o r (readWhile ks act) fun found r' => ∀ t ∈ found,
      ∃ r1, Picked whole n (some id) lo o r1 t r' := by
  refine .loop moved (fun _ => nofun) (fun _ r1 moved _ => ?_)
    fun _ _ known t member => (known t member).imp fun _ => Picked.stall
  refine .bind (nextItem_lays moved) fun found r2 moved2 taken => ?_
  cases found with
  | none => exact .pure moved2 fun _ => nofun
  | some t =>
    have taken : Picked whole n _ _ _ _ t r2 := taken
    dsimp only
    split
    · exact .bind (acts t r1 r2 taken) fun _ _ moved _ => .pure moved fun _ => nofun
    · refine .pure moved2 ?_
      rintro _ ⟨⟩
      exact ⟨r1, taken⟩

theorem readUnset_gives (t : Token) : Gives whole n t (readUnset t) := by
  refine .addFor fun id o here => .bind (bounded_lays here (P := Anything) fun r0 _ here => ?_)
    fun _ _ moved _ => .pure moved rfl
  refine .bind (readWhile_lays _ here fun t r r' taken => addToken_lays taken.moved ?_)
    fun stop r1 moved1 taken => ?_
  · rintro _ ⟨⟩
    exact taken.within
  · split
    · rename_i found
      obtain ⟨s, rfl⟩ := Option.isSome_iff_exists.mp found
      obtain ⟨_, taken⟩ := taken s rfl
      exact (pushBack_lays taken).mono fun _ _ _ _ => trivial
    · exact .pure moved1 trivial

theorem addPathStep_lays (took : Picked whole n (some id) lo o r t r') :
    Lays whole n (some id) lo o r' (addPathStep id t) Anything :=
  appendLeaf_lays took .pathItem

theorem readOverride_gives (deep : Deep whole n deeper) (t : Token) :
    Gives whole n t (readOverride deeper t) := by
  refine .addFor fun id o here => .bind (bounded_lays here (P := Anything) fun r0 _ here =>
    .loop here trivial fun _ r1 moved _ => ?_) fun _ _ moved _ => .pure moved rfl
  refine .bind (nextItem_lays moved) fun found r2 moved2 taken => ?_
  cases found with
  | none => exact .pure moved2 trivial
  | some s =>
    have taken : Picked whole n _ _ _ _ s r2 := taken
    dsimp only
    split
    · refine .bind (free_deeper_lays deep .item taken.spare taken.room) fun child r3 step offered => ?_
      exact .bind (appendTaken_lays taken step offered) fun _ _ moved _ => .pure moved trivial
    · split
      · refine .bind (setToken_lays taken) fun _ r3 moved3 _ => ?_
        exact free_readInto_lays deep moved3 fun _ moved => .pure moved trivial
      · exact .bind (addPathStep_lays taken) fun _ _ moved _ => .pure moved trivial

theorem readPath_lays (deep : Deep whole n deeper) (ks : List Lily.Kind) (goesOn : Tree → Bool)
    (moved : Moved whole n (some id) lo o r) :
    Lays whole n (some id) lo o r (do
      match ← readWhile ks (addPathStep id) with
      | none => pure ()
      | some t =>
        if t.kind == .lily .schemeStart && goesOn (← tree) then
          append id (← readScheme deeper t)
        else pushBack) Anything := by
  refine .bind (readWhile_lays ks moved fun _ _ _ => addPathStep_lays) fun stop r1 moved1 taken => ?_
  cases stop with
  | none => exact .pure moved1 trivial
  | some t =>
    obtain ⟨_, taken⟩ := taken t rfl
    refine .tree ?_
    split
    · refine .bind (readScheme_gives deep t r1 taken.spare) fun scheme r2 step single => ?_
      exact (append_lays taken.moved taken.gap step single.toFound).mono fun _ _ _ _ => trivial
    · exact (pushBack_lays taken).mono fun _ _ _ _ => trivial

theorem readRevert_gives (deep : Deep whole n deeper) (t : Token) :
    Gives whole n t (readRevert deeper t) :=
  .addFor fun id _ here => .bind (bounded_lays here fun _ _ here =>
    readPath_lays deep _ (fun t => !namesProperty t id) here) fun _ _ moved _ => .pure moved rfl

theorem readTweak_gives (deep : Deep whole n deeper) (t : Token) :
    Gives whole n t (readTweak deeper t) := by
  refine .addFor fun id o here => .bind (bounded_lays here fun _ _ here =>
    readPath_lays deep _ (fun t => (t.children id).isEmpty) here) fun _ r1 moved1 _ => ?_
  exact free_readInto_lays deep moved1 fun _ moved => .pure moved rfl

end Path

end Reading

end ScoreText
