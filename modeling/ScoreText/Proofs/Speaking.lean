import ScoreText.Music.Reading.Value
import ScoreText.Proofs.Ahead
import ScoreText.Proofs.LanguageNames

/-! Reading keeps to the language in effect. Each function that reads leaves the names of languages where
they are, and when it is done the reader has the language of the last one. Only few functions have to do
with languages at all. -/
namespace ScoreText

open ScoreText.Tree

/-- From a reader to a later one that still has the language in effect. -/
structure Reader.Heard (configured : String) (r r' : Reader) : Prop where
  kept : r.tree.Kept r'.tree
  voiced : r'.tree.Voiced configured r'.language

namespace Reading

open Reader

variable {α β : Type} {configured : String} {o : Tree} {x : Reading α}

/-- Nothing is asked of what a reading gives. -/
def Whatever (_ : α) (_ : Tree) : Prop :=
  True

/-- From a tree on, or from one that it has become, a reading keeps to the language in effect. What it
gives has a property then. -/
def Speaks (configured : String) (o : Tree) (x : Reading α) (P : α → Tree → Prop) : Prop :=
  ∀ r, o.Kept r.tree → r.tree.Voiced configured r.language →
    Heard configured r (x.run r).2 ∧ P (x.run r).1 (x.run r).2.tree

namespace Speaks

variable {P Q : α → Tree → Prop} {R : β → Tree → Prop}

theorem silent (silent : Silent x) : Speaks configured o x Whatever := by
  intro r _ voiced
  obtain ⟨tree, language⟩ := silent r
  refine ⟨⟨?_, ?_⟩, trivial⟩
  · rw [tree]
    exact .refl _
  · rwa [tree, language]

theorem pure {a : α} (answer : ∀ u, o.Kept u → P a u) : Speaks configured o (pure a) P :=
  fun r kept voiced => ⟨⟨.refl _, voiced⟩, answer r.tree kept⟩

theorem mono (speaks : Speaks configured o x P) (weaker : ∀ a u, o.Kept u → P a u → Q a u) :
    Speaks configured o x Q := by
  intro r kept voiced
  obtain ⟨heard, answer⟩ := speaks r kept voiced
  exact ⟨heard, weaker _ _ (kept.trans heard.kept) answer⟩

/-- What is known of the tree behind the first reading is known of it from then on. -/
theorem bind {k : α → Reading β} (first : Speaks configured o x P)
    (then_ : ∀ a u, o.Kept u → P a u → Speaks configured u (k a) R) : Speaks configured o (x >>= k) R := by
  intro r kept voiced
  obtain ⟨heard, answer⟩ := first r kept voiced
  obtain ⟨after, result⟩ := then_ _ _ (kept.trans heard.kept) answer _ (.refl _) heard.voiced
  rw [run_bind]
  exact ⟨⟨heard.kept.trans after.kept, after.voiced⟩, result⟩

theorem skip {k : α → Reading β} (first : Speaks configured o x P)
    (then_ : ∀ a, Speaks configured o (k a) R) : Speaks configured o (x >>= k) R := by
  intro r kept voiced
  obtain ⟨heard, _⟩ := first r kept voiced
  obtain ⟨after, result⟩ := then_ _ _ (kept.trans heard.kept) heard.voiced
  rw [run_bind]
  exact ⟨⟨heard.kept.trans after.kept, after.voiced⟩, result⟩

theorem pass {k : α → Reading β} (first : Silent x) (then_ : ∀ a, Speaks configured o (k a) R) :
    Speaks configured o (x >>= k) R :=
  skip (silent first) then_

theorem answer {k : α → Reading β} (first : Speaks configured o x P) (f : α → β)
    (same : ∀ a, k a = Pure.pure (f a)) (answer : ∀ a u, o.Kept u → P a u → R (f a) u) :
    Speaks configured o (x >>= k) R := by
  intro r kept voiced
  obtain ⟨heard, known⟩ := first r kept voiced
  rw [run_bind, same]
  exact ⟨heard, answer _ _ (kept.trans heard.kept) known⟩

theorem get {k : Reader → Reading β} (then_ : ∀ r, Speaks configured o (k r) R) :
    Speaks configured o (MonadState.get >>= k) R :=
  fun r => then_ r r

theorem tree {k : Tree → Reading β} (then_ : ∀ t, Speaks configured o (k t) R) :
    Speaks configured o (Reading.tree >>= k) R :=
  fun r => then_ r.tree r

theorem tree_at {k : Tree → Reading β} (then_ : ∀ u language, o.Kept u → u.Voiced configured language →
    Speaks configured u (k u) R) : Speaks configured o (Reading.tree >>= k) R :=
  fun r kept voiced => then_ r.tree r.language kept voiced r (.refl _) voiced

theorem within {source : Source} (speaks : Speaks configured o x P) :
    Speaks configured o (within source x) P := by
  intro r kept voiced
  obtain ⟨⟨further, after⟩, answer⟩ := speaks { r with source } kept voiced
  exact ⟨⟨further, after⟩, answer⟩

theorem free (speaks : Speaks configured o x P) : Speaks configured o (free x) P :=
  within speaks

theorem bounded (speaks : Speaks configured o x P) :
    Speaks configured o (bounded x) fun out u => P out.1 u := by
  intro r kept voiced
  obtain ⟨⟨further, after⟩, answer⟩ :=
    speaks { r with source := .bounded ⟨r.depth, false, false, none⟩ } kept voiced
  unfold Reading.bounded Reading.within
  simp only [run_bind]
  split <;> exact ⟨⟨further, after⟩, answer⟩

theorem loop {step : α → Reading (Turn α)} {I : α → Tree → Prop} {a : α} (start : ∀ u, o.Kept u → I a u)
    (steps : ∀ a u, o.Kept u → I a u → Speaks configured u (step a) fun turn v => I turn.value v) :
    Speaks configured o (Reading.loop step a) I := by
  intro r kept voiced
  refine loop_invariant (S := fun a r' => Heard configured r r' ∧ I a r'.tree)
    ⟨⟨.refl _, voiced⟩, start r.tree kept⟩ ?_ fun _ _ known => ⟨⟨known.1.kept, known.1.voiced⟩, known.2⟩
  rintro a r' ⟨heard, known⟩
  obtain ⟨later, answer⟩ := steps a r'.tree (kept.trans heard.kept) known r' (.refl _) heard.voiced
  exact ⟨⟨heard.kept.trans later.kept, later.voiced⟩, answer⟩

theorem loop_any {step : α → Reading (Turn α)} {a : α} (steps : ∀ a, Speaks configured o (step a) Whatever) :
    Speaks configured o (Reading.loop step a) Whatever :=
  loop (fun _ _ => trivial) fun a _ kept _ r further => steps a r (kept.trans further)

end Speaks

section Edits

variable {p c id : ItemId}

theorem updateTree_speaks {f : Tree → Tree} (keeps : ∀ u language, o.Kept u → u.Voiced configured language →
    u.Kept (f u) ∧ (f u).Voiced configured language) : Speaks configured o (updateTree f) Whatever := by
  intro r kept voiced
  obtain ⟨further, after⟩ := keeps r.tree r.language kept voiced
  exact ⟨⟨further, after⟩, trivial⟩

theorem append_speaks (plain : o.Plain p) (loose : o.Loose c) :
    Speaks configured o (append p c) Whatever :=
  updateTree_speaks fun _ _ kept voiced => voiced.append (plain.later kept) (loose.later kept)

theorem appendIf_speaks {child : Option ItemId} (plain : o.Plain p) (loose : ∀ c ∈ child, o.Loose c) :
    Speaks configured o (appendIf p child) Whatever := by
  cases child with
  | none => exact .pure fun _ _ => trivial
  | some c => exact append_speaks plain (loose c rfl)

theorem appendAll_speaks {children : List ItemId} (plain : o.Plain p) (loose : ∀ c ∈ children, o.Loose c) :
    Speaks configured o (appendAll p children) Whatever := by
  induction children with
  | nil => exact .pure fun _ _ => trivial
  | cons c children ih =>
    show Speaks configured o (append p c >>= fun _ => appendAll p children) Whatever
    exact .skip (append_speaks plain (loose c List.mem_cons_self)) fun _ =>
      ih fun d member => loose d (List.mem_cons_of_mem c member)

theorem update_speaks {f : Item → Item} (same : ∀ i, SamePlace i (f i))
    (details : ∀ i, (f i).details = i.details) : Speaks configured o (update id f) Whatever :=
  updateTree_speaks fun _ _ _ voiced => voiced.update _ same fun _ => details _

theorem setTokens_speaks {tokens : List Token} : Speaks configured o (setTokens id tokens) Whatever :=
  update_speaks (fun _ => ⟨rfl, rfl, rfl, rfl, rfl⟩) fun _ => rfl

theorem addToken_speaks {token : Option Token} : Speaks configured o (addToken id token) Whatever :=
  update_speaks (fun _ => ⟨rfl, rfl, rfl, rfl, rfl⟩) fun _ => rfl

theorem setDuration_speaks {duration : Option Duration} :
    Speaks configured o (update id fun i => { i with duration := duration }) Whatever :=
  update_speaks (fun _ => ⟨rfl, rfl, rfl, rfl, rfl⟩) fun _ => rfl

theorem setDetails_speaks {details : Details} (mute : o.Mute id) :
    Speaks configured o (setDetails id details) Whatever := by
  refine updateTree_speaks fun u _ kept voiced => voiced.update id (fun _ => ⟨rfl, rfl, rfl, rfl, rfl⟩) fun is => ?_
  have mute := (mute.later kept).mute
  rcases is with note | language
  · rw [note] at mute
    cases mute
  · rw [language] at mute
    cases mute

theorem add_speaks {kind : ItemKind} {position : Nat} {token : Option Token} (mute : kind.mute) :
    Speaks configured o (add kind position token) fun id u => u.Mute id := by
  intro r _ voiced
  have more := extends_push r.tree kind position token
  have is : (r.tree.push (.single kind position token)).kind r.tree.size = kind := by
    rw [Tree.kind, item_push, if_pos rfl]
    rfl
  refine ⟨⟨more.kept voiced, more.sounding voiced fun note => ?_⟩, ?_, ?_⟩
  · rw [← is, note] at mute
    cases mute
  · show r.tree.size < (r.tree.push (.single kind position token)).size
    rw [more.size]
    exact Nat.lt_succ_self _
  · show ((r.tree.push (.single kind position token)).kind r.tree.size).mute
    rwa [is]

theorem addFor_speaks {kind : ItemKind} {t : Token} (mute : kind.mute) :
    Speaks configured o (addFor kind t) fun id u => u.Mute id :=
  add_speaks mute

theorem appendLeaf_speaks {kind : ItemKind} {t : Token} (mute : kind.mute) (plain : o.Plain p) :
    Speaks configured o (addFor kind t >>= append p) Whatever :=
  .bind (addFor_speaks mute) fun _ _ kept leaf => append_speaks (plain.later kept) leaf.loose

end Edits

section Items

variable {n : Nat} {id : ItemId} {deeper : Deeper}

/-- An item that was read, if any. -/
def Hands (n : Nat) (found : Option ItemId) (u : Tree) : Prop :=
  ∀ id ∈ found, u.Handed n id

theorem hands_none (u : Tree) : Hands n none u :=
  fun _ => nofun

theorem Speaks.wrapped {x : Reading ItemId} (speaks : Speaks configured o x fun id u => u.Handed n id) :
    Speaks configured o (do return some (← x)) (Hands n) :=
  speaks.answer some (fun _ => rfl) fun _ _ _ handed _ same => Option.mem_some_iff.mp same ▸ handed

theorem Speaks.filled {x : Reading ItemId} (speaks : Speaks configured o x fun id u => u.Mute id) :
    Speaks configured o (do return some (← x)) (Hands n) :=
  (speaks.mono fun _ _ _ mute => mute.handed).wrapped

/-- What is returned when all is done is an item that was filled. -/
theorem Speaks.pure_mute {id : ItemId} (mute : o.Mute id) : Speaks configured o (Pure.pure id) fun id u => u.Mute id :=
  .pure fun _ kept => mute.later kept

theorem Speaks.pure_some {id : ItemId} (mute : o.Mute id) : Speaks configured o (Pure.pure (some id)) (Hands n) :=
  .pure fun _ kept _ same => Option.mem_some_iff.mp same ▸ (mute.later kept).handed

theorem hands_of_mute {found : Option ItemId} {u : Tree} (mute : ∀ id ∈ found, u.Mute id) : Hands n found u :=
  fun id member => (mute id member).handed

theorem Hands.loose {found : Option ItemId} {u : Tree} (hands : Hands n found u) : ∀ id ∈ found, u.Loose id :=
  fun id member => (hands id member).loose

/-- What is read, if anything, is put into an item. -/
theorem Speaks.into {x : Reading (Option ItemId)} {k : Reading α} {R : α → Tree → Prop}
    (read : Speaks configured o x (Hands o.size)) (plain : o.Plain id)
    (later : ∀ u, o.Kept u → Speaks configured u k R) :
    Speaks configured o (x >>= fun child => appendIf id child >>= fun _ => k) R :=
  read.bind fun _ u kept hands => .skip (appendIf_speaks (plain.later kept) hands.loose) fun _ => later u kept

/-- The tokens of a string. -/
def stringTokens : Reading (List Token × Option Token) :=
  bounded <| loop (fun ts => do
    match ← next with
    | none => return .done ts
    | some t => return .more (ts ++ [t])) []

theorem stringTokens_silent : Silent stringTokens :=
  .bounded <| .loop (fun _ => .bind next_silent fun found => by cases found <;> exact .pure _) _

theorem readString_run (t : Token) (r : Reader) : ∃ tokens, ((readString t).run r).1 = r.tree.size ∧
    ((readString t).run r).2.tree = (r.tree.push (.single .string t.start (some t))).update r.tree.size
      (fun i => { i with tokens }) ∧ ((readString t).run r).2.language = r.language := by
  let added : Reader := { r with tree := r.tree.push (.single .string t.start (some t)) }
  obtain ⟨tree, language⟩ := stringTokens_silent added
  let tokens := (stringTokens.run added).1.1
  exact ⟨tokens, rfl, congrArg (fun u => u.update r.tree.size fun i => { i with tokens }) tree, language⟩

theorem readString_speaks (t : Token) : Speaks configured o (readString t) fun id u => u.Handed o.size id := by
  intro r kept voiced
  obtain ⟨tokens, id, tree, language⟩ := readString_run t r
  have more := extends_push r.tree .string t.start (some t)
  have string : (r.tree.push (.single .string t.start (some t))).item r.tree.size = .single .string t.start (some t) := by
    rw [item_push, if_pos rfl]
  have same : ∀ i : Item, SamePlace i { i with tokens } := fun _ => ⟨rfl, rfl, rfl, rfl, rfl⟩
  have added : (r.tree.push (.single .string t.start (some t))).Voiced configured r.language :=
    more.sounding voiced fun note => by
      rw [Tree.kind, string] at note
      cases note
  obtain ⟨further, after⟩ := added.update r.tree.size same fun _ => rfl
  rw [id, tree]
  refine ⟨⟨?_, ?_⟩, (more.loose voiced).later further, fun _ =>
    ⟨kept.larger, ⟨?_, ?_, fun q member => ?_⟩⟩⟩
  · rw [tree]
    exact (more.kept voiced).trans further
  · rwa [tree, language]
  · intro i inside after
    rw [size_update, more.size] at inside
    exact absurd after (Nat.not_lt_of_le (Nat.le_of_lt_succ inside))
  · rw [(place_update same _ _ _).token, string]
    rfl
  · rw [children, (place_update same _ _ q).children] at member
    exact absurd (more.child voiced member).2.2 (Nat.lt_irrefl _)

variable (deep : ∀ o form t, Speaks configured o (deeper form t) (Hands o.size))
include deep

theorem readAll_speaks :
    Speaks configured o (readAll deeper) fun ids u => ∀ id ∈ ids, u.Loose id := by
  refine .bind (P := fun ids u => ∀ id ∈ ids, u.Loose id) (.loop (fun _ _ _ => nofun) fun ids u _ loose => ?_)
    fun ids u _ loose => .pure fun v kept id member => (loose id (List.mem_reverse.mp member)).later kept
  refine .pass nextItem_silent fun found => ?_
  cases found with
  | none => exact .pure fun v kept id member => (loose id member).later kept
  | some t =>
    refine .bind (deep u .item t) fun child v kept hands => .pure fun w further id member => ?_
    rcases List.mem_append.mp member with new | old
    · exact (hands.loose id (Option.mem_toList.mp new)).later further
    · exact (loose id old).later (kept.trans further)

theorem readOne_speaks : Speaks configured o (readOne deeper) (Hands o.size) := by
  refine .loop (fun _ _ => hands_none _) fun _ u kept _ => .pass nextItem_silent fun found => ?_
  cases found with
  | none => exact .pure fun _ _ => hands_none _
  | some t =>
    refine (deep u .item t).answer (fun found => found.elim (.more none) fun id => .done (some id))
      (fun found => by cases found <;> rfl) fun found v _ hands => ?_
    cases found with
    | none => exact hands_none _
    | some id => exact fun child member => (hands child member).mono kept.larger

theorem readRegionInto_speaks (plain : o.Plain id) : Speaks configured o (readRegionInto deeper id) Whatever :=
  .bind (.bounded (readAll_speaks deep)) fun _ _ kept loose =>
    .skip (appendAll_speaks (plain.later kept) loose) fun _ => addToken_speaks

theorem readArgumentsInto_speaks (plain : o.Plain id) (count : Nat) :
    Speaks configured o (readArgumentsInto deeper id count) Whatever := by
  induction count generalizing o with
  | zero => exact .pure fun _ _ => trivial
  | succ count ih =>
    refine .bind (readOne_speaks deep) fun found u kept hands => ?_
    cases found with
    | none => exact .pure fun _ _ => trivial
    | some child => exact .skip (append_speaks (plain.later kept) (hands.loose child rfl)) fun _ => ih (plain.later kept)

theorem readPart_speaks : Speaks configured o (readPart deeper) fun found u => ∀ id ∈ found, u.Loose id := by
  refine .loop (fun _ _ _ => nofun) fun _ u kept _ => .pass next_silent fun found => ?_
  cases found with
  | none => exact .pure fun _ _ _ => nofun
  | some t =>
    refine .bind (deep u .scheme t) fun child v kept hands => ?_
    cases child with
    | none => exact .pure fun _ _ _ => nofun
    | some id => exact .pure fun _ further c member => (hands.loose c member).later further

theorem readPartsInto_speaks (plain : o.Plain id) : Speaks configured o (readPartsInto deeper id) Whatever :=
  .loop_any fun _ => .pass next_silent fun found => by
    cases found with
    | none => exact .pure fun _ _ => trivial
    | some t =>
      exact .bind (deep o .scheme t) fun _ _ kept hands =>
        .skip (appendIf_speaks (plain.later kept) hands.loose) fun _ => .pure fun _ _ => trivial

theorem readQuoting_speaks {kind : ItemKind} (mute : kind.mute) (t : Token) :
    Speaks configured o (readQuoting deeper kind t) fun id u => u.Mute id :=
  .bind (addFor_speaks mute) fun _ _ _ mute => .bind (.bounded (readPart_speaks deep)) fun _ _ kept loose =>
    .skip (appendIf_speaks (mute.plain.later kept) loose) fun _ => .pure_mute (mute.later kept)

theorem readSchemePart_speaks (t : Token) : Speaks configured o (readSchemePart deeper t) (Hands o.size) := by
  unfold readSchemePart
  split
  · exact (readQuoting_speaks deep rfl t).filled
  iterate 2
    · exact .bind (addFor_speaks rfl) fun id u _ mute =>
        .skip (.bounded (readPartsInto_speaks deep mute.plain)) fun _ => .skip addToken_speaks fun _ => .pure_some mute
  · exact (readString_speaks t).wrapped
  · exact .bind (addFor_speaks rfl) fun id u _ mute =>
      .skip (readRegionInto_speaks deep mute.plain) fun _ => .pure_some mute
  · split
    · exact (addFor_speaks rfl).filled
    · exact .pure fun _ _ => hands_none _
  · exact .pure fun _ _ => hands_none _

theorem readMarkupsInto_speaks (plain : o.Plain id) (list : Bool) :
    Speaks configured o (readMarkupsInto deeper id list) Whatever := by
  refine .skip (.bounded (.loop_any fun _ => .pass next_silent fun found => ?_)) fun _ => .pure fun _ _ => trivial
  cases found with
  | none => exact .pure fun _ _ => trivial
  | some t =>
    refine .bind (deep o .markup t) fun child u kept hands => ?_
    cases child with
    | some child =>
      exact .skip (append_speaks (plain.later kept) (hands.loose child rfl)) fun _ => .pure fun _ _ => trivial
    | none =>
      dsimp only
      split
      · exact .skip setTokens_speaks fun _ => .pure fun _ _ => trivial
      · exact .pure fun _ _ => trivial

theorem readMarkupScore_speaks (t : Token) :
    Speaks configured o (readMarkupScore deeper t) fun id u => u.Mute id := by
  refine .bind (addFor_speaks rfl) fun id u _ mute =>
    .skip (.bounded (.loop_any fun _ => .pass next_silent fun found => ?_)) fun _ => .pure_mute mute
  cases found with
  | none => exact .pure fun _ _ => trivial
  | some t =>
    dsimp only
    split
    · exact .skip setTokens_speaks fun _ => .skip (readRegionInto_speaks deep mute.plain) fun _ =>
        .pure fun _ _ => trivial
    · exact .pure fun _ _ => trivial

theorem readMarkup_speaks (t : Token) : Speaks configured o (readMarkup deeper t) (Hands o.size) := by
  unfold readMarkup
  split
  · exact (readQuoting_speaks deep rfl t).filled
  · exact (readString_speaks t).wrapped
  · exact (readMarkupScore_speaks deep t).filled
  · refine .bind (addFor_speaks rfl) fun id u _ mute => ?_
    dsimp only
    split
    · exact .skip (readMarkupsInto_speaks deep mute.plain false) fun _ => .pure_some mute
    · exact .pure_some mute
  · exact (addFor_speaks rfl).filled
  · exact .bind (addFor_speaks rfl) fun id u _ mute =>
      .skip (readMarkupsInto_speaks deep mute.plain true) fun _ => .pure_some mute
  · exact (addFor_speaks rfl).filled
  · exact .pure fun _ _ => hands_none _

end Items

end Reading

end ScoreText
