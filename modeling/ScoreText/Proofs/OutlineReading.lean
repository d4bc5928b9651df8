import ScoreText.Proofs.OutlineItems

/-! The items of an outline are read one behind the other. However many levels there are, each takes the tokens
that belong to it and no more, so the reader comes past the same places. -/
namespace ScoreText

open Stand

namespace Reading

variable {limit : Option Nat} {us vs ts xs : List ScannedToken} {u v : ScannedToken} {id : ItemId} {j k n : Nat}

theorem drop_regionLength : (u :: ts).drop (regionLength u ts) = leaving (some u.depth) ts := by
  rw [regionLength, List.drop_succ_cons, leaving]
  induction ts with
  | nil => rfl
  | cons t ts ih =>
    by_cases inside : Within (some u.depth) t.depth
    · simpa [inside] using ih
    · simp [inside]

theorem drop_behind : (u :: (xs ++ v :: vs)).drop (xs.length + 1 + j) = (v :: vs).drop j := by
  have length : xs.length + 1 + j = (xs.length + j) + 1 := by omega
  rw [length, List.drop_succ_cons, List.drop_append]
  simp

/-- With at most some levels, what starts with a token is read as an item, and no further than it goes on. -/
def Spans (n : Nat) : Prop :=
  ∀ limit u ts k, extent n u ts = some k → (0 < k → Within limit u.depth) → ∀ r : Reader,
    r.stand.Past limit (u :: ts) →
      (0 < n → ((read n .item u.token).run r).1 = some r.tree.size) ∧
        ((read n .item u.token).run r).2.stand.Past limit ((u :: ts).drop k)

section Lists

/-- Tokens that start no item are left out. -/
theorem read_idle (n : Nat) {t : Token} (idle : startsItem t.kind = false) : read n .item t = pure none := by
  cases n with
  | zero => rfl
  | succ n =>
    show readItem (read n) t = pure none
    unfold readItem
    split
    · rename_i k kind
      rw [kind] at idle
      simp only [startsItem, Bool.or_eq_false_iff, Option.isSome_eq_false_iff, Option.isNone_iff_eq_none] at idle
      obtain ⟨⟨⟨plain, block⟩, input⟩, others⟩ := idle
      unfold readLily
      rw [plain, block, input]
      dsimp only
      split
      all_goals first | rfl | cases others
    · rename_i kind
      rw [kind] at idle
      cases idle
    · rfl

theorem solid_of_startsItem (starts : startsItem u.token.kind) : u.isBlank = false := by
  unfold ScannedToken.isBlank
  unfold startsItem at starts
  split at starts
  · rename_i k kind
    rw [kind]
    cases k <;> first | rfl | cases starts
  · rename_i kind
    rw [kind]
    rfl
  · cases starts

theorem next_left {r r' : Reader} (here : r.stand.Behind limit (u :: v :: vs)) (past : r'.stand.Past limit (v :: vs)) :
    r'.left < r.left := by
  rw [r'.left_eq (by simp [past.ended.pushed]), r.left_eq (by simp [here.pushed]), past.ended.ahead,
    here.ahead]
  simp

theorem item_left {r r' : Reader} (here : r.stand.Behind limit (u :: v :: vs))
    (past : r'.stand.Past limit ((v :: vs).drop k)) : r'.left < r.left := by
  rw [r'.left_eq (by simp [past.ended.pushed]), r.left_eq (by simp [here.pushed]), past.ended.ahead,
    here.ahead]
  simp only [List.tail_drop, List.length_drop, List.tail_cons, List.length_cons]
  omega

theorem read_names {g : Graded} (some_level : 0 < n) (counted : extent n u ts = some k) :
    Builds g (read n .item u.token) fun _ h => h.Names u.token g.tree.size := by
  obtain ⟨n, rfl⟩ := Nat.exists_eq_succ_of_ne_zero (Nat.ne_of_gt some_level)
  cases shape : u.token.shape? with
  | none => simp [extent, shape] at counted
  | some s => exact readItem_names (read_deepens n) (Token.hasShape shape)

/-- A blank makes no difference to what is read behind it. -/
theorem Gathers.skip {deeper : Deeper} {r r₁ r' : Reader} {t : Token} {ids : List ItemId} (run : next.run r = (some t, r₁))
    (blank : (t.kind.isSpace || t.kind.isComment) = true) (fewer : r₁.left < r.left)
    (rest : Gathers deeper r₁ ids r') : Gathers deeper r ids r' := by
  have same : nextItem.run r = nextItem.run r₁ := by
    refine loop_more ?_ fewer
    simp only [run_bind, run, blank, if_true]
    rfl
  cases rest with
  | ended none_left => exact .ended (same.trans none_left)
  | item taken read less rest => exact .item (same.trans taken) read (Nat.lt_trans less fewer) rest

/-- Items are read up to the end of a region, each with its own token. -/
def GathersUpTo (n : Nat) (limit : Option Nat) (ts : List ScannedToken) (items : List ScannedToken) (r : Reader) :
    Prop :=
  ∃ ids r', Gathers (read n) r ids r' ∧ r'.stand.Ended (leaving limit ts) ∧
    (0 < n → ∀ g : Graded, r.tree = g.tree → ∃ h, g.Later h ∧ r'.tree = h.tree ∧
      List.Forall₂ (fun id u => h.Names u.token id) ids items)

section Steps

variable {items : List ScannedToken} {r : Reader}

theorem GathersUpTo.nothing (here : r.stand.Behind limit us)
    (spent : us.tail = [] ∨ ∃ u ∈ us.head?, ¬ Within limit u.depth)
    (ends : ∀ {r' : Reader}, r'.stand.Near limit us → r'.stand.Ended (leaving limit ts)) :
    GathersUpTo n limit ts [] r := by
  obtain ⟨none_left, near⟩ := next_behind_end spent r here
  have gathers : Gathers (read n) r [] (next.run r).2 := .ended (nextItem_none (Prod.ext none_left rfl))
  refine ⟨[], (next.run r).2, gathers, ends near, fun _ g same => ?_⟩
  obtain ⟨h, later, tree, _⟩ := next_builds r same
  exact ⟨h, later, tree, .nil⟩

/-- An item is read with the tokens that belong to it, and then those behind it. -/
theorem GathersUpTo.item (spans : Spans n) (inside : Within limit u.depth) (starts : startsItem v.token.kind)
    (here : r.stand.Behind limit (u :: v :: ts)) (counted : extent n v ts = some j)
    (within : 0 < j → Within limit v.depth)
    (rest : ∀ {r' : Reader}, r'.stand.Behind limit ((v :: ts).drop j) → GathersUpTo n limit (v :: ts) items r') :
    GathersUpTo n limit (v :: ts) (v :: items) r := by
  have taken := nextItem_behind inside (List.forall_mem_nil _) (List.forall_mem_nil _) (solid_of_startsItem starts)
    r here
  cases run : nextItem.run r with
  | mk found r₁ =>
    rw [run] at taken
    obtain ⟨rfl, past⟩ := taken
    obtain ⟨given, behind⟩ := spans limit v ts j counted within r₁ past
    have fewer := item_left here behind
    obtain ⟨ids, r', gathers, ended, named⟩ := rest behind.behind
    refine ⟨_, r', .item run rfl fewer gathers, ended, fun some_level g same => ?_⟩
    obtain ⟨h₁, later, tree, _⟩ := nextItem_builds r same
    rw [run] at tree
    obtain ⟨h₂, further, tree₂, names⟩ := read_names some_level counted r₁ tree
    obtain ⟨h₃, last, tree₃, all⟩ := named some_level h₂ tree₂
    have first : (read n .item v.token r₁).1 = some h₁.tree.size := tree ▸ given some_level
    rw [first]
    exact ⟨h₃, later.trans (further.trans last), tree₃, .cons (names.later last) all⟩

theorem GathersUpTo.idle (inside : Within limit u.depth) (idle : startsItem v.token.kind = false)
    (here : r.stand.Behind limit (u :: v :: ts))
    (rest : ∀ {r' : Reader}, r'.stand.Behind limit (v :: ts) → GathersUpTo n limit (v :: ts) items r') :
    GathersUpTo n limit (v :: ts) items r := by
  have taken := next_behind inside r here
  cases run : next.run r with
  | mk found r₁ =>
    rw [run] at taken
    obtain ⟨rfl, past⟩ := taken
    have fewer := next_left here past
    obtain ⟨ids, r', gathers, ended, named⟩ := rest past.behind
    have gathers : Gathers (read n) r ids r' := by
      cases blank : v.isBlank with
      | true => exact .skip run blank fewer gathers
      | false =>
        have took : nextItem.run r = (some v.token, r₁) := by
          have blank : (v.token.kind.isSpace || v.token.kind.isComment) = false := blank
          apply loop_done
          simp only [run_bind, run, blank, Bool.false_eq_true, if_false]
          rfl
        have none_read : (read n .item v.token).run r₁ = (none, r₁) := by
          rw [read_idle n idle]
          rfl
        exact .item took none_read fewer gathers
    refine ⟨ids, r', gathers, ended, fun some_level g same => ?_⟩
    obtain ⟨h₁, later, tree, _⟩ := next_builds r same
    rw [run] at tree
    obtain ⟨h₂, further, tree₂, all⟩ := named some_level h₁ tree
    exact ⟨h₂, later.trans further, tree₂, all⟩

end Steps

/-- The items of an outline are read up to the end of the region, each with its own token. -/
theorem outlineBy_gathers (spans : Spans n) {items : List ScannedToken}
    (outlined : outlineBy (extent n) limit k ts = some items) (inside : Within limit u.depth) {r : Reader}
    (here : r.stand.Behind limit ((u :: ts).drop k)) : GathersUpTo n limit ts items r := by
  induction ts generalizing k u r items with
  | nil =>
    have nothing : ((u :: []).drop k).tail = [] := by cases k <;> simp
    cases Option.some.inj outlined
    exact .nothing here (.inl nothing) fun near => ⟨near.pushed, near.ahead.trans nothing, by simp [leaving]⟩
  | cons v ts ih =>
    -- what comes behind the item or the token that `v` is
    have onward : ∀ {j : Nat} {items : List ScannedToken},
        upToEnd limit v j (outlineBy (extent n) limit j ts) = some items →
        ∀ {r : Reader}, r.stand.Behind limit ((v :: ts).drop j) → GathersUpTo n limit (v :: ts) items r := by
      intro j items more r here
      unfold upToEnd at more
      split at more
      · rename_i within
        rw [GathersUpTo, leaving_cons_of_within within]
        exact ih more within here
      · rename_i outside
        simp only [Option.ite_none_right_eq_some, Option.some.injEq] at more
        obtain ⟨rfl, rfl⟩ := more
        refine .nothing here (.inr ⟨v, rfl, outside⟩) fun near => ?_
        rw [leaving_cons_of_not outside]
        exact near.ended outside
    cases k with
    | succ k => exact onward outlined here
    | zero =>
      cases starts : startsItem v.token.kind with
      | true =>
        simp only [outlineBy, starts, if_true] at outlined
        obtain ⟨j, counted, outlined⟩ := Option.bind_eq_some_iff.mp outlined
        obtain ⟨more, goes_on, rfl⟩ := Option.map_eq_some_iff.mp outlined
        have within : 0 < j → Within limit v.depth := by
          intro some_tokens
          by_contra outside
          simp [upToEnd, outside, Nat.ne_of_gt some_tokens] at goes_on
        exact .item spans inside starts here counted within (onward goes_on)
      | false =>
        simp only [outlineBy, starts, Bool.false_eq_true, if_false] at outlined
        exact .idle inside starts here (onward (j := 0) outlined)

theorem readRegionInto_past (spans : Spans n) (tame : u.token.isTame) (plain : u.token.looksAhead = false)
    (counted : listLength (extent n) u ts = some k) :
    Leads (Past limit (u :: ts)) (readRegionInto (read n) id) fun _ => Past limit ((u :: ts).drop k) := by
  simp only [listLength, Option.ite_none_right_eq_some, Option.some.injEq] at counted
  obtain ⟨closed, rfl⟩ := counted
  rw [drop_regionLength]
  rcases closed with calm | outlined
  · exact .calm_past calm tame plain fun _ _ _ => readRegionInto_leads (read_contained n)
  · obtain ⟨items, outlined⟩ := Option.isSome_iff_exists.mp outlined
    refine .bind (.bounded_past fun r here => ?_) fun _ => .still_bind appendAll_still fun _ => .still addToken_still
    obtain ⟨ids, r', gathers, ended, _⟩ := outlineBy_gathers spans outlined (within_self u) here
    rw [gathers.readAll]
    exact ended

end Lists

section Items

variable {item : ItemKind}

theorem alone_adds (shape : u.token.HasShape .alone) :
    Adds (Past limit us) (readItem (read n) u.token) some (Past limit us) := by
  obtain ⟨kind, fill, reads, fills⟩ := readItem_alone shape (read n)
  rw [reads]
  refine .addFor fun id r past => ⟨(fills id).2.1 r, ?_⟩
  rw [(fills id).1 r]
  exact past

theorem list_adds (spans : Spans n) (opens : opensList u.token.kind)
    (counted : listLength (extent n) u ts = some k) :
    Adds (Past limit (u :: ts)) (readItem (read n) u.token) some (Past limit ((u :: ts).drop k)) := by
  obtain ⟨tame, plain⟩ : u.token.isTame ∧ u.token.looksAhead = false := by
    unfold opensList at opens
    split at opens
    iterate 4
      rename_i kind
      simp [Token.isTame, Token.looksAhead, kind]
    cases opens
  rw [readItem_list opens]
  refine .addFor fun id => .still_bind setDetails_still fun _ => .still_bind addToken_still fun _ => ?_
  exact .bind (readRegionInto_past spans tame plain counted) fun _ => .pure fun _ past => ⟨rfl, past⟩

theorem text_adds (shape : u.token.HasShape .text) (calm : Calm (some u.depth) u.depth ts) :
    Adds (Past limit (u :: ts)) (readItem (read n) u.token) some (Past limit ((u :: ts).drop (regionLength u ts))) := by
  rw [drop_regionLength]
  cases shape with
  | string kind =>
    rw [readItem_lily kind]
    refine Adds.wrapped fun r past => ⟨rfl, ?_⟩
    refine Leads.calm_past calm ?_ ?_ (fun _ _ _ => readString_leads _) r past
    · simp [Token.isTame, kind]
    · simp [Token.looksAhead, kind]
  | markup kind markup =>
    rw [readItem_markup kind markup]
    refine Adds.wrapped fun r past => ⟨rfl, ?_⟩
    refine Leads.calm_past calm ?_ ?_ (fun _ _ _ => readWholeMarkup_leads (read_contained n) _) r past
    · unfold Lily.Kind.isMarkupStart at markup
      split at markup <;> simp_all [Token.isTame]
    · unfold Lily.Kind.isMarkupStart at markup
      split at markup <;> simp_all [Token.looksAhead]

theorem block_adds (spans : Spans n) {k : Lily.Kind} (kind : u.token.kind = .lily k) (block : blockKind? k = some item)
    (other : k ≠ .withBlock) (inside : Within limit u.depth)
    (blank : ∀ x ∈ xs, x.token.kind.isSpace ∧ u.depth ≤ x.depth) (opens : opensBlock v.token)
    (counted : listLength (extent n) v vs = some j) :
    Adds (Past limit (u :: (xs ++ v :: vs))) (readItem (read n) u.token) some (Past limit ((v :: vs).drop j)) := by
  obtain ⟨tame, plain⟩ : v.token.isTame ∧ v.token.looksAhead = false := by
    rcases Bool.or_eq_true_iff.mp opens with kind | kind
    · simp [Token.isTame, Token.looksAhead, eq_of_beq kind]
    · simp [Token.isTame, Token.looksAhead, eq_of_beq kind]
  have no_block : ∀ x ∈ xs, opensBlock x.token = false := by
    intro x member
    have blank := (blank x member).1
    by_contra opens
    rcases Bool.or_eq_true_iff.mp (Bool.not_eq_false _ ▸ opens) with kind | kind
    · rw [eq_of_beq kind] at blank
      cases blank
    · rw [eq_of_beq kind] at blank
      cases blank
  rw [readItem_block kind block other]
  refine .addFor fun id => .bind (Q := fun _ => Past limit ((v :: vs).drop j)) ?_ fun _ =>
    .pure fun _ past => ⟨rfl, past⟩
  refine .before (.loop_skipping inside (fun x member => inside.trans (blank x member).2) (fun x member r r' run => ?_)
    fun w within => ?_) fun _ past => past.behind
  · simp only [run_bind, run, no_block x member, (blank x member).1, Bool.false_eq_true, if_false, if_true]
    rfl
  · refine .bind (next_behind within) fun found => .known fun same => ?_
    subst same
    simp only [opens, if_true]
    exact .still_bind setTokens_still fun _ => .bind (readRegionInto_past spans tame plain counted) fun _ =>
      .pure fun _ past => past

theorem readOne_past (spans : Spans n) (some_level : 0 < n) (inside : Within limit u.depth)
    (within : ∀ x ∈ xs, Within limit x.depth) (blank : ∀ x ∈ xs, x.isBlank) (solid : v.isBlank = false)
    (counted : extent n v vs = some j) (goes_on : 0 < j → Within limit v.depth) :
    Leads (Past limit (u :: (xs ++ v :: vs))) (readOne (read n)) fun found s =>
      found.isSome ∧ s.Past limit ((v :: vs).drop j) := by
  refine .before (.loop_once (.bind (nextItem_behind inside within blank solid) fun found => ?_)) fun _ past => past.behind
  rintro r ⟨rfl, past⟩
  obtain ⟨given, behind⟩ := spans limit v vs j counted goes_on r past
  dsimp only
  rw [run_bind, given some_level]
  exact ⟨rfl, behind⟩

theorem assignment_adds (spans : Spans n) (some_level : 0 < n) {ys : List ScannedToken} {e : ScannedToken}
    (sign : e.token.kind = .lily .equalSign) (before : ∀ x ∈ xs, x.isBlank) (behind : ∀ x ∈ ys, x.isBlank)
    (solid : v.isBlank = false) (value : extent n v vs = some j) :
    Adds (Past limit (u :: (xs ++ e :: (ys ++ v :: vs)))) (readAssignment (read n) u.token) some
      (Past limit ((v :: vs).drop j)) := by
  have free : ∀ d, Within none d := fun _ _ => nofun
  have sign_solid : e.isBlank = false := by
    unfold ScannedToken.isBlank
    rw [sign]
    rfl
  refine .addFor fun id => .loop_once (.bind (.free_past (.before (nextItem_behind (free _) (fun x _ => free _) before
    sign_solid) fun _ past => past.behind)) fun found => .known fun same => ?_)
  subst same
  simp only [sign, beq_self_eq_true, if_true]
  refine .still_bind setTokens_still fun _ => .bind (.free_past (readOne_past spans some_level (free _)
    (fun x _ => free _) behind solid value fun _ => free _)) fun found => ?_
  exact .still_bind appendIf_still fun _ => .pure fun _ given => ⟨rfl, given.2⟩

theorem argument_adds (spans : Spans n) (some_level : 0 < n) (inside : Within limit u.depth)
    (blank : ∀ x ∈ xs, x.isBlank ∧ u.depth ≤ x.depth) (solid : v.isBlank = false) (deeper : u.depth ≤ v.depth)
    (counted : extent n v vs = some j) :
    Adds (Past limit (u :: (xs ++ v :: vs))) (readArguments (read n) item u.token 1) (·)
      (Past limit ((v :: vs).drop j)) := by
  refine .addFor fun id => .bind (Q := fun _ => Past limit ((v :: vs).drop j)) (.bind (readOne_past spans some_level
    inside (fun x member => inside.trans (blank x member).2) (fun x member => (blank x member).1) solid counted
    fun _ => inside.trans deeper) fun found => .known fun given => ?_) fun _ => .pure fun _ past => ⟨rfl, past⟩
  obtain ⟨c, rfl⟩ := Option.isSome_iff_exists.mp given
  exact .still_bind append_still fun _ => .pure fun _ past => past

end Items

/-- However many levels there are, what starts with a token goes on as far as its extent. -/
theorem read_spans (n : Nat) : Spans n := by
  induction n with
  | zero =>
    intro limit u ts k counted within r past
    cases Option.some.inj counted
    exact ⟨fun some_level => absurd some_level (Nat.lt_irrefl 0), past⟩
  | succ n ih =>
    intro limit u ts k counted within r past
    -- the first level is there, so both parts of the claim come from what one reading adds
    suffices adds : Adds (Past limit (u :: ts)) (readItem (read n) u.token) some (Past limit ((u :: ts).drop k)) from
      ⟨fun _ => (adds r past).1, (adds r past).2⟩
    cases known : u.token.shape? with
    | none => simp [extent, known] at counted
    | some s =>
      have shape := Token.hasShape known
      cases s with
      | alone =>
        simp only [extent, known, Option.some.injEq] at counted
        subst counted
        exact alone_adds shape
      | list =>
        simp only [extent, known] at counted
        cases shape with
        | list opens => exact list_adds ih opens counted
      | text =>
        simp only [extent, known, Option.ite_none_right_eq_some, Option.some.injEq] at counted
        obtain ⟨calm, rfl⟩ := counted
        exact text_adds shape calm
      | block =>
        simp only [extent, known] at counted
        obtain ⟨xs, v, vs, j, rfl, skipped, _, bracket, rfl⟩ := lengthBehind_eq_some counted
        simp only [Option.ite_none_right_eq_some] at bracket
        rw [drop_behind]
        cases shape with
        | block kind block other =>
          refine block_adds ih kind block other (within (by omega)) (fun x member => ?_) bracket.1 bracket.2
          simpa using skipped x member
      | assignment =>
        simp only [extent, known] at counted
        obtain ⟨xs, e, es, i, rfl, before, _, setting, rfl⟩ := lengthBehind_eq_some counted
        simp only [Option.ite_none_right_eq_some] at setting
        obtain ⟨⟨sign, some_level⟩, found⟩ := setting
        obtain ⟨ys, v, vs, j, rfl, behind, solid, value, rfl⟩ := lengthBehind_eq_some found
        rw [drop_behind, drop_behind]
        cases shape with
        | assignment kind name =>
          rw [readItem_assignment kind name]
          exact assignment_adds ih some_level sign before behind solid value
      | argument =>
        simp only [extent, known, Option.ite_none_right_eq_some] at counted
        obtain ⟨some_level, found⟩ := counted
        obtain ⟨xs, v, vs, j, rfl, skipped, solid, argument, rfl⟩ := lengthBehind_eq_some found
        simp only [Option.ite_none_right_eq_some] at argument
        obtain ⟨deeper, value⟩ := argument
        rw [drop_behind]
        cases shape with
        | argument kind command text =>
          rw [readItem_argument kind command text]
          refine (argument_adds ih some_level (within (by omega)) (fun x member => ?_) ?_ deeper value).wrapped
          · simpa using skipped x member
          · simpa [deeper] using solid

end Reading

end ScoreText
