import ScoreText.Music.Reading.Score
import ScoreText.Proofs.Ahead
import ScoreText.Proofs.MusicTree

/-! Reading the items of a region. What is read of them lies behind the item that the region belongs to, so
it stays as it is when it is put into that item. -/
namespace ScoreText

open Reader ScoreText.Tree

/-- From one reader to a later one the tree has grown, with some items that nothing holds yet. -/
structure Reader.Grown (r r' : Reader) (ids : List ItemId) : Prop where
  gains : Gains r.tree r'.tree ids
  language : r'.language = r.language
  inChord : r'.inChord = r.inChord

namespace Reader.Grown

variable {r r' r'' : Reader} {ids others : List ItemId}

theorem add (kind : ItemKind) (t : Token) (r : Reader) :
    r.Grown { r with tree := r.tree.push (.single kind t.start (some t)) } [r.tree.size] :=
  ⟨push_gains .., rfl, rfl⟩

theorem same (grown : Grown r r' ids) (same : SameScore r' r'') : Grown r r'' ids where
  gains := same.tree ▸ grown.gains
  language := same.language.trans grown.language
  inChord := same.inChord.trans grown.inChord

theorem trans (first : Grown r r' ids) (later : Grown r' r'' others) : Grown r r'' (ids ++ others) where
  gains := first.gains.trans later.gains
  language := later.language.trans first.language
  inChord := later.inChord.trans first.inChord

end Reader.Grown

/-- The reader in front of the region that is open now. -/
abbrev Reader.entering (r : Reader) : Reader :=
  { r with source := .bounded ⟨r.depth, false, false, none⟩ }

namespace Reading

variable {deeper : Deeper} {r r₁ r₂ r' : Reader} {t : ScannedToken} {us ts : List ScannedToken}
  {ids : List ItemId}

/-- Reading goes through the items that are left in a source, one after the other. -/
inductive Gathers (deeper : Deeper) : Reader → List ItemId → Reader → Prop
  | ended {r r' : Reader} (none_left : nextItem.run r = (none, r')) : Gathers deeper r [] r'
  | item {r r₁ r₂ r' : Reader} {t : Token} {found : Option ItemId} {ids : List ItemId}
      (taken : nextItem.run r = (some t, r₁)) (read : (deeper .item t).run r₁ = (found, r₂))
      (fewer : r₂.left < r.left) (rest : Gathers deeper r₂ ids r') :
      Gathers deeper r (found.toList ++ ids) r'

theorem Gathers.found {t : Token} {id : ItemId} (taken : nextItem.run r = (some t, r₁))
    (read : (deeper .item t).run r₁ = (some id, r₂)) (fewer : r₂.left < r.left)
    (rest : Gathers deeper r₂ ids r') : Gathers deeper r (id :: ids) r' :=
  .item taken read fewer rest

def gatherOne (deeper : Deeper) (ids : List ItemId) : Reading (Turn (List ItemId)) := do
  match ← nextItem with
  | none => return .done ids
  | some t => return .more ((← deeper .item t).toList ++ ids)

theorem readAll_eq : readAll deeper = (do return (← loop (gatherOne deeper) []).reverse) := rfl

theorem Gathers.loop (gathers : Gathers deeper r ids r') (acc : List ItemId) :
    (loop (gatherOne deeper) acc).run r = (ids.reverse ++ acc, r') := by
  induction gathers generalizing acc with
  | ended none_left =>
    apply loop_done
    rw [gatherOne, run_bind, none_left]
    rfl
  | @item r r₁ r₂ r' t found ids taken read fewer rest ih =>
    rw [loop_more (b := found.toList ++ acc) ?_ fewer, ih]
    · cases found <;> simp
    · rw [gatherOne]
      apply run_then taken
      exact run_then read rfl

theorem Gathers.readAll (gathers : Gathers deeper r ids r') : (readAll deeper).run r = (ids, r') := by
  rw [readAll_eq]
  apply run_then (gathers.loop [])
  rw [List.append_nil, List.reverse_reverse]
  rfl

theorem appendAll_run (p : ItemId) (ids : List ItemId) (r : Reader) :
    (appendAll p ids).run r = ((), { r with tree := ids.foldl (·.append p) r.tree }) := by
  induction ids generalizing r with
  | nil => rfl
  | cons c ids ih => exact ih { r with tree := r.tree.append p c }

theorem within_run {α : Type} {source : Source} {act : Reading α} {a : α}
    (run : act.run { r with source } = (a, r')) :
    (within source act).run r = (a, { r' with source := r.source }) := by
  have restored := congrArg (fun x : α × Reader => (x.1, ({ x.2 with source := r.source } : Reader))) run
  exact restored

theorem bounded_run {α : Type} {act : Reading α} {a : α} (run : act.run r.entering = (a, r')) :
    ∃ last, (bounded act).run r = ((a, last), { r' with source := r.source }) := by
  have source : ((get : Reading Reader).run r').1.source = r'.source := rfl
  cases here : r'.source with
  | free =>
    refine ⟨none, ?_⟩
    rw [bounded, run_bind]
    apply within_run
    apply run_then run
    rw [run_bind, source, here]
    rfl
  | bounded b =>
    refine ⟨b.last, ?_⟩
    rw [bounded, run_bind]
    apply within_run
    apply run_then run
    rw [run_bind, source, here]
    rfl

section Through

variable {α : Type} {act : α → Token → Reading α} {a b : α}

/-- Reading goes through the tokens of a source up to its end. -/
def through (act : α → Token → Reading α) (a : α) : Reading (Turn α) := do
  match ← next with
  | none => return .done a
  | some t => return .more (← act a t)

theorem through_found {t : Token} (taken : next.run r = (some t, r₁)) (run : (act a t).run r₁ = (b, r')) :
    (through act a).run r = (.more b, r') := by
  rw [through]
  apply run_then taken
  exact run_then run rfl

theorem through_over (ended : next.run r = (none, r')) : (through act a).run r = (.done a, r') := by
  rw [through, run_bind, ended]
  rfl

/-- A loop that does no more with a token than to change the tree takes all tokens of a region, and the first
one behind it. -/
theorem loop_region {step : α → Reading (Turn α)} {fold : α → Token → α} {Q : Tree → Tree → Prop}
    (kept : ∀ {t u v : Tree}, Q t u → Q u v → Q t v)
    (found : ∀ {a : α} {t : Token} {r r₁ : Reader}, next.run r = (some t, r₁) →
      ∃ v, (step a).run r = (.more (fold a t), { r₁ with tree := v }) ∧ Q r₁.tree v)
    (stops : ∀ {a : α} {r r₁ : Reader}, next.run r = (none, r₁) → (step a).run r = (.done a, r₁))
    {d : Nat} {u : ScannedToken} (inside : List ScannedToken) (ready : r.Ready (some d) (inside ++ u :: us))
    (within : ∀ v ∈ inside, d ≤ v.depth) (leaves : u.depth < d) (a : α) :
    ∃ r', (loop step a).run r = (((inside ++ [u]).map (·.token)).foldl fold a, r') ∧ r'.At u us ∧
      Q r.tree r'.tree ∧ SameScore { r with tree := r'.tree } r' := by
  induction inside generalizing r a with
  | nil =>
    obtain ⟨r1, taken, took, same⟩ := next_ready ready
    obtain ⟨v, run, changed⟩ := found (a := a) taken
    have took₁ : Took { r1 with tree := v } (some d) u us := took.score ..
    obtain ⟨source, ended⟩ := next_over took₁ leaves
    refine ⟨{ r1 with source, tree := v }, ?_, ⟨took.ahead, took.pushed, took.current⟩, same.tree ▸ changed,
      rfl, same.language, same.inChord, same.duration⟩
    rw [loop_more run (took₁.fewer ready), loop_done (stops ended)]
    rfl
  | cons w inside ih =>
    obtain ⟨r1, taken, took, same⟩ := next_ready ready
    obtain ⟨v, run, changed⟩ := found (a := a) taken
    have took₁ : Took { r1 with tree := v } (some d) w (inside ++ u :: us) := took.score ..
    have here : Within (some d) w.depth := by simpa [Within] using within w List.mem_cons_self
    obtain ⟨r2, later, there, more, still⟩ :=
      ih (took₁.ready here) (fun v member => within v (List.mem_cons_of_mem _ member)) (fold a w.token)
    refine ⟨r2, ?_, there, kept (same.tree ▸ changed) more, rfl, still.language.trans same.language,
      still.inChord.trans same.inChord, still.duration.trans same.duration⟩
    rw [loop_more run (took₁.fewer ready), later]
    rfl

end Through

theorem readRegionInto_run (id : ItemId) (gathers : Gathers deeper r.entering ids r') :
    ∃ last, (readRegionInto deeper id).run r = ((),
      { r' with
        source := r.source
        tree := (ids.foldl (·.append id) r'.tree).update id fun i =>
          { i with tokens := i.tokens ++ last } }) := by
  obtain ⟨last, run⟩ := bounded_run gathers.readAll
  refine ⟨last.toList, ?_⟩
  rw [readRegionInto]
  apply run_then run
  exact run_then (appendAll_run id ids _) rfl

/-- The item of a region holds what is read of the region, and all that it holds stays as it was read. -/
theorem readRegionInto_gives {r₀ : Reader} {id : ItemId} (holder : r₀.Grown r [id])
    (gathers : Gathers deeper r.entering ids r') (grown : r.Grown r' ids) :
    ∃ u, (readRegionInto deeper id).run r = ((), { r' with source := r.source, tree := u }) ∧
      Gains r₀.tree u [id] ∧ u.size = r'.tree.size ∧
      Alike { r.tree.item id with children := r.tree.children id ++ ids } (u.item id) ∧
      AlikeFrom (id + 1) r'.tree u := by
  obtain ⟨last, run⟩ := readRegionInto_run id gathers
  obtain ⟨gains, size, whole, _⟩ := holder.gains.putAll grown.gains
  have stays := holder.gains.putFrom grown.gains
  obtain ⟨new, there, _⟩ := holder.gains.loose id List.mem_cons_self
  have inside : id < (ids.foldl (·.append id) r'.tree).size :=
    size ▸ Nat.lt_of_lt_of_le there grown.gains.larger
  refine ⟨_, run, gains.update new fun i => ⟨rfl, rfl⟩, (size_update ..).trans size, ?_,
    ⟨stays.below, fun i later known => ?_⟩⟩
  · rw [item_update_self inside]
    exact ⟨whole.kind, whole.details, whole.duration, whole.children⟩
  · rw [item_update_other (Nat.ne_of_gt later)]
    exact stays.alike i later known

theorem readOne_run {t : Token} {id : ItemId} (taken : nextItem.run r = (some t, r₁))
    (found : (deeper .item t).run r₁ = (some id, r')) : (readOne deeper).run r = (some id, r') := by
  apply loop_done
  apply run_then taken
  exact run_then found rfl

theorem gathers_over {d : Nat} (ready : r.Ready (some d) us) (spaced : Spaced (some d) us (t :: ts))
    (solid : Solid t) (leaves : t.depth < d) (no_item : ∀ r, (deeper .item t.token).run r = (none, r)) :
    ∃ r', Gathers deeper r [] r' ∧ SameScore r r' ∧ r'.At t ts := by
  obtain ⟨r1, run, took, same⟩ := nextItem_ready ready spaced solid
  obtain ⟨source, ended⟩ := next_over took leaves
  have fewer : r1.left < r.left := took.left ▸ left_of_spaced ready spaced
  refine ⟨{ r1 with source }, .item run (no_item r1) fewer (.ended (nextItem_none ended)),
    ⟨same.tree, same.language, same.inChord, same.duration⟩, took.ahead, took.pushed, took.current⟩

end Reading
end ScoreText
