import ScoreText.Proofs.MusicReading
import ScoreText.Proofs.Strings

/-! Reading what a token begins as an item, with what lies below it, and putting such items into another one.
Strings are read so, and the signs and quotes that hold one part of a Scheme expression. -/
namespace ScoreText

open Reader Reading ScoreText.Tree

variable {r r₀ r₁ r' : Reader} {limit : Option Nat} {d depth : Nat} {t u : ScannedToken}
  {ts us : List ScannedToken} {id : ItemId} {ids others : List ItemId} {P : Tree → ItemId → Prop}

section Built

/-- A new item, of which something holds, was read up to a token behind which a number of regions are open. -/
structure Reader.Built (r r' : Reader) (limit : Option Nat) (us : List ScannedToken) (depth : Nat)
    (P : Tree → ItemId → Prop) : Prop where
  took : ∃ last, r'.Took limit last us ∧ last.depth = depth
  grown : r.Grown r' [r.tree.size]
  holds : P r'.tree r.tree.size

/-- Items were read and put into an item that nothing holds. -/
structure Reader.Filled (r₀ r r' : Reader) (id : ItemId) (ids : List ItemId) : Prop where
  grown : r₀.Grown r' [id]
  still : StillFrom (id + 1) r.tree r'.tree
  item : r'.tree.item id = { r.tree.item id with children := r.tree.children id ++ ids }
  inside : ∀ c ∈ ids, id + 1 ≤ c ∧ c < r'.tree.size

namespace Reader.Filled

theorem nil (grown : r₀.Grown r [id]) : r₀.Filled r r id [] where
  grown := grown
  still := grown.gains.stillFrom (.refl _)
  item := by simp [children]
  inside := by simp

theorem trans (first : r₀.Filled r r₁ id ids) (later : r₀.Filled r₁ r' id others) :
    r₀.Filled r r' id (ids ++ others) where
  grown := later.grown
  still := first.still.trans later.still
  item := by
    rw [later.item, children, first.item]
    simp
  inside c member := by
    rcases List.mem_append.mp member with member | member
    · obtain ⟨behind, there⟩ := first.inside c member
      exact ⟨behind, Nat.lt_of_lt_of_le there later.still.larger⟩
    · exact later.inside c member

theorem same {r₂ : Reader} (same : r.SameScore r₂) (filled : r₀.Filled r₂ r' id ids) : r₀.Filled r r' id ids where
  grown := filled.grown
  still := same.tree ▸ filled.still
  item := by rw [filled.item, children, same.tree, children]
  inside := filled.inside

/-- An item that was begun and filled gets the tokens that close it. What was put into it is all it holds, and
stays as it is. -/
theorem closed {k : ItemKind} {t : Token} (filled : r.Filled r₁ r' r.tree.size ids)
    (begun : r₁.tree = r.tree.push (.single k t.start (some t))) (tokens : Item → List Token) :
    let u := r'.tree.update r.tree.size fun i => { i with tokens := tokens i }
    Gains r.tree u [r.tree.size] ∧ u.kind r.tree.size = k ∧ u.children r.tree.size = ids ∧
      StillFrom (r.tree.size + 1) r'.tree u := by
  have own := filled.grown.gains
  have there := (own.loose _ List.mem_cons_self).2.1
  have first : r₁.tree.item r.tree.size = .single k t.start (some t) := by
    rw [begun, item_push, if_pos rfl]
  refine ⟨own.update (Nat.le_refl _) fun i => ⟨rfl, rfl⟩, ?_, ?_, own.update_still _⟩
  · rw [Tree.kind, item_update_self there, filled.item, first]
    rfl
  · rw [Tree.children, item_update_self there, filled.item, Tree.children, first]
    rfl

end Reader.Filled

theorem Reader.Built.put (held : r₀.Grown r [id]) (built : r.Built r₁ limit us depth P) (endures : Endures P) :
    r₀.Filled r { r₁ with tree := r₁.tree.append id r.tree.size } id [r.tree.size] ∧
      r.tree.size < r₁.tree.size ∧ P (r₁.tree.append id r.tree.size) r.tree.size := by
  obtain ⟨gains, size, _⟩ := held.gains.put built.grown.gains
  obtain ⟨item, still⟩ := held.gains.put_still built.grown.gains
  have there := (held.gains.loose id List.mem_cons_self).2.1
  have inside : id + 1 ≤ r.tree.size ∧ r.tree.size < r₁.tree.size :=
    ⟨there, (built.grown.gains.loose _ List.mem_cons_self).2.1⟩
  refine ⟨⟨⟨gains, built.grown.language.trans held.language, built.grown.inChord.trans held.inChord⟩, ?_, item,
    ?_⟩, inside.2, endures still inside built.holds⟩
  · exact (held.gains.stillFrom built.grown.gains).trans still
  · intro c member
    obtain rfl := List.mem_singleton.mp member
    exact ⟨inside.1, size ▸ inside.2⟩

end Built

section Strings

theorem State.completeArgument_depth (s : State) : s.completeArgument.depth ≤ s.depth := by
  have shorter : ∀ fs : List Frame, (completeArgument.go fs).length ≤ fs.length := by
    intro fs
    induction fs with
    | nil => exact Nat.le_refl _
    | cons f fs ih =>
      simp only [completeArgument.go]
      split
      · exact Nat.le_refl _
      · exact Nat.le_succ_of_le ih
      · simp
  exact Nat.succ_le_succ (shorter s.inner)

theorem contents_scanned (offset : Nat) (ps : List (Piece × State)) :
    ((scanned offset ps).map (·.token)).flatMap Token.content = ps.flatMap (·.1.content) := by
  induction ps generalizing offset with
  | nil => rfl
  | cons p ps ih =>
    rw [scanned_cons, List.map_cons, List.flatMap_cons, List.flatMap_cons, ih]
    rfl

theorem scanned_depth {s : State} {ps : List (Piece × State)} (same : ∀ p ∈ ps, p.2 = s) (offset : Nat) :
    ∀ t ∈ scanned offset ps, t.depth = s.depth := by
  induction ps generalizing offset with
  | nil => simp [scanned, placed]
  | cons p ps ih =>
    intro t member
    rw [scanned_cons] at member
    rcases List.mem_cons.mp member with rfl | member
    · rw [← same p List.mem_cons_self]
    · exact ih (fun p member => same p (List.mem_cons_of_mem _ member)) _ t member

def collect : List Token → Reading (Turn (List Token)) :=
  through fun ts t => return ts ++ [t]

theorem collect_run (acc : List Token) (ts : List ScannedToken) (ready : r.Ready (some d) (ts ++ t :: us))
    (inside : ∀ u ∈ ts, d ≤ u.depth) (leaves : t.depth < d) :
    ∃ r', (loop collect acc).run r = (acc ++ (ts ++ [t]).map (·.token), r') ∧ r'.At t us ∧
      r.SameScore r' := by
  have found {acc : List Token} {t : Token} {r r₁ : Reader} (taken : next.run r = (some t, r₁)) :
      ∃ v, (collect acc).run r = (.more (acc ++ [t]), { r₁ with tree := v }) ∧ v = r₁.tree :=
    ⟨r₁.tree, through_found taken rfl, rfl⟩
  have joined (acc ts : List Token) : ts.foldl (fun acc t => acc ++ [t]) acc = acc ++ ts := by
    induction ts generalizing acc with
    | nil => rw [List.foldl_nil, List.append_nil]
    | cons t ts ih => rw [List.foldl_cons, ih, List.append_assoc, List.singleton_append]
  obtain ⟨r', run, there, tree, same⟩ := loop_region (Q := fun t u => u = t) (fun first later => later.trans first)
    found through_over ts ready inside leaves acc
  exact ⟨r', by rw [run, joined], there, tree, same.language, same.inChord, same.duration⟩

/-- A string holds all tokens behind its opening quote, up to the one that leaves its region. -/
theorem readString_built (place : StringPlace) {s : State} {offset : Nat} {inner : List (Piece × State)}
    {value : List Char} (inside : ∀ p ∈ inner, p.2 = s.inString place)
    (content : inner.flatMap (·.1.content) = value) (deep : t.depth = (s.inString place).depth)
    (took : r.Took limit t
      (scanned offset (inner ++ [(⟨place.closing, ['"']⟩, s.completeArgument)]) ++ us)) :
    ∃ r', (readString t.token).run r = (r.tree.size, r') ∧
      r.Built r' limit us s.completeArgument.depth fun u id =>
        u.kind id = .string ∧ u.unquoted id = String.ofList value ∧ u.children id = [] := by
  rw [scanned_append, List.append_assoc] at took
  generalize offset + byteSize (textOf inner) = stop at took
  let close : ScannedToken :=
    ⟨⟨place.closing, stop, String.ofList ['"']⟩, s.completeArgument.depth, s.completeArgument.top.region⟩
  let r1 : Reader := { r with tree := r.tree.push (.single .string t.token.start (some t.token)) }
  have holder : r.Grown r1 [r.tree.size] := .add ..
  have entering : r1.entering.Ready (some t.depth) (scanned offset inner ++ close :: us) :=
    (took.score ..).entering
  have leaves : close.depth < t.depth := deep ▸ Nat.lt_succ_of_le s.completeArgument_depth
  obtain ⟨r2, run, there, same⟩ := collect_run [] _ entering
    (fun v member => Nat.le_of_eq (deep.trans (scanned_depth inside offset v member).symm)) leaves
  obtain ⟨last, whole⟩ := bounded_run run
  let tokens := ((scanned offset inner) ++ [close]).map (·.token)
  let filled := r1.tree.update r.tree.size fun i => { i with tokens }
  have tree : r2.tree = r1.tree := same.tree
  have known := (holder.gains.loose _ List.mem_cons_self).2.1
  have item : filled.item r.tree.size =
      { Item.single .string t.token.start (some t.token) with tokens } := by
    rw [item_update_self known, item_push, if_pos rfl]
  refine ⟨{ r2 with source := r.source, tree := filled }, ?_, ⟨close, took.back there filled r2.inChord, rfl⟩,
    ⟨holder.gains.update (Nat.le_refl _) fun i => ⟨rfl, rfl⟩, same.language, same.inChord⟩, ?_⟩
  · rw [readString]
    apply run_then (addFor_run ..)
    apply run_then whole
    rw [show filled = r2.tree.update r.tree.size _ from congrArg (Tree.update · _ _) tree.symm]
    rfl
  · rw [kind, unquoted, children, item]
    refine ⟨rfl, ?_, rfl⟩
    simp [tokens, contents_scanned, content]

end Strings

section Quoting

variable {deeper : Deeper}

/-- A sign or a quote holds the part of a Scheme expression that is read behind it. -/
theorem readQuoting_built {k : ItemKind} (endures : Endures P) (took : r.Took limit t (u :: ts))
    (part : ∀ r₁ : Reader, r₁.Took (some t.depth) u ts →
      ∃ r₂, (deeper .scheme u.token).run r₁ = (some r₁.tree.size, r₂) ∧
        r₁.Built r₂ (some t.depth) us depth P) :
    ∃ r', (readQuoting deeper k t.token).run r = (r.tree.size, r') ∧
      r.Built r' limit us depth (Holder k P) := by
  let r1 : Reader := { r with tree := r.tree.push (.single k t.token.start (some t.token)) }
  have holder : r.Grown r1.entering [r.tree.size] := ⟨push_gains .., rfl, rfl⟩
  have entering : r1.entering.Ready (some t.depth) (u :: ts) := (took.score ..).entering
  obtain ⟨r2, run, took₂, same⟩ := next_ready entering
  obtain ⟨r3, found, built⟩ := part r2 took₂
  have whole : (readPart deeper).run r1.entering = (some r2.tree.size, r3) := by
    apply loop_done
    apply run_then run
    exact run_then found rfl
  obtain ⟨last, bound⟩ := bounded_run whole
  have held : r.Grown r2 [r.tree.size] := holder.same same
  obtain ⟨filled, _, holds⟩ := built.put held endures
  obtain ⟨final, took₃, deep⟩ := built.took
  have first : r2.tree.item r.tree.size = .single k t.token.start (some t.token) := by
    rw [same.tree, item_push, if_pos rfl]
  refine ⟨{ r3 with source := r.source, tree := r3.tree.append r.tree.size r2.tree.size }, ?_,
    ⟨final, took.back ⟨took₃.ahead, took₃.pushed, took₃.current⟩ _ r3.inChord, deep⟩,
    ⟨filled.grown.gains, filled.grown.language, filled.grown.inChord⟩, ?_, r2.tree.size, ?_, holds⟩
  · rw [readQuoting]
    apply run_then (addFor_run ..)
    exact run_then bound rfl
  · rw [Tree.kind, filled.item, first]
    rfl
  · rw [children, filled.item, children, first]
    rfl

end Quoting

section Top

/-- If the first token of a text begins all that is read of it, that is the only item at the top. -/
theorem ofTokens_one {language : String} {levels : Nat} {tree : Tree} (solid : Solid t) (endures : Endures P)
    (built : ∀ r : Reader, (Reader.start (t :: ts).toArray language).SameScore r → r.Took none t ts →
      ∃ r', (read levels .item t.token).run r = (some r.tree.size, r') ∧ r.Built r' none [] d P)
    (made : tree = ofTokens (t :: ts) language levels) : ∃ top, tree.children root = [top] ∧ P tree top := by
  let r := Reader.start (t :: ts).toArray language
  have ready : r.Ready none (t :: ts) :=
    ⟨by simp [r, Reader.start, Reader.ahead], by simp [r, Reader.start], trivial, .inr (by simp [Within])⟩
  obtain ⟨r1, taken, took, same⟩ := nextItem_ready ready (.inl rfl) solid
  obtain ⟨r2, found, whole⟩ := built r1 same took
  obtain ⟨last, took₂, _⟩ := whole.took
  have ended : nextItem.run r2 = (none, r2) := nextItem_none (next_spent took₂)
  have fewer : r2.left < r.left := by simp [took₂.left, ready.left]
  have gathers : Gathers (Reading.read levels) r [r1.tree.size] r2 := .found taken found fewer (.ended ended)
  have final : tree = r2.tree.append root r1.tree.size := by
    rw [made, ofTokens, readScore, run_bind, gathers.readAll]
    rfl
  -- The root is put into a tree without items, so that it is one more item that holds what is read.
  have own : Gains ⟨#[]⟩ r1.tree [root] := same.tree ▸ push_gains ⟨#[]⟩ .document 0 none
  obtain ⟨item, still⟩ := own.put_still whole.grown.gains
  have inside := whole.grown.gains.loose _ List.mem_cons_self
  have behind : root + 1 ≤ r1.tree.size := (own.loose root List.mem_cons_self).2.1
  rw [final]
  refine ⟨r1.tree.size, ?_, endures still ⟨behind, inside.2.1⟩ whole.holds⟩
  rw [children, item, children, same.tree]
  rfl

end Top

end ScoreText
