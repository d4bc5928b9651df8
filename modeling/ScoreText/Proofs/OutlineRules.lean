import ScoreText.Proofs.ExtentRules

/-! Rules for where exactly a reading ends: behind which of the tokens it leaves the reader. -/
namespace ScoreText

open Reading Stand

namespace Stand

variable {limit : Option Nat} {us vs : List ScannedToken} {u : ScannedToken} {s : Stand}

/-- Behind the first of some tokens. In a free source it need not be known. -/
structure Near (limit : Option Nat) (us : List ScannedToken) (s : Stand) : Prop where
  pushed : s.pushed = false
  ahead : s.ahead = us.tail
  current : ∀ d ∈ limit, ∀ u ∈ us.head?, s.current = some u

/-- Behind the first of some tokens, in a source that goes on. -/
structure Behind (limit : Option Nat) (us : List ScannedToken) (s : Stand) : Prop extends s.Near limit us where
  goesOn : s.source.GoesOn limit
  started : ∀ b, s.source = .bounded b → b.started = true ∨ Within limit s.depth

/-- Behind the first of some tokens, in a source that has given some token. -/
structure Past (limit : Option Nat) (us : List ScannedToken) (s : Stand) : Prop where
  ended : s.Ended us
  goesOn : s.source.GoesOn limit
  started : ∀ b, s.source = .bounded b → b.started = true

theorem Ended.near (ended : s.Ended us) : s.Near limit us :=
  ⟨ended.pushed, ended.ahead, fun _ _ => ended.current⟩

theorem Past.behind (past : s.Past limit us) : s.Behind limit us :=
  ⟨past.ended.near, past.goesOn, fun b same => .inl (past.started b same)⟩

theorem Near.ended (near : s.Near limit (u :: us)) (outside : ¬ Within limit u.depth) : s.Ended (u :: us) := by
  cases limit with
  | none => exact absurd (fun _ => nofun) outside
  | some d => exact ⟨near.pushed, near.ahead, near.current d rfl⟩

/-- The place among the tokens does not matter for the source. -/
theorem Past.move {s' : Stand} (past : s.Past limit us) (ended : s'.Ended vs) (source : s'.source = s.source) :
    s'.Past limit vs :=
  ⟨ended, source ▸ past.goesOn, fun b same => past.started b (source.symm.trans same)⟩

theorem Ended.switch (ended : s.Ended us) (source : Source) : Ended us { s with source } :=
  ⟨ended.pushed, ended.ahead, ended.current⟩

theorem Ended.depth_eq (ended : s.Ended (u :: us)) : s.depth = u.depth :=
  depth_of_current (ended.current u rfl)

end Stand

section Rules

variable {α : Type} {limit : Option Nat} {us vs ts : List ScannedToken} {u v : ScannedToken}

namespace Reading

theorem next_behind (inside : Within limit u.depth) :
    Leads (Behind limit (u :: v :: vs)) next fun found s => found = some v.token ∧ s.Past limit (v :: vs) := by
  intro r here
  have pushed : r.pushed = false := here.pushed
  have within : Within limit r.depth := fun d member => by
    have depth : r.depth = u.depth := depth_of_current (here.current d member u rfl)
    exact depth ▸ inside d member
  obtain ⟨r', run, took, _⟩ := next_ready (r := r)
    ⟨here.ahead, fun given_back => by simp [pushed] at given_back, here.goesOn, .inr within⟩
  rw [run]
  refine ⟨rfl, ⟨took.pushed, took.ahead, ?_⟩, took.goesOn, took.started⟩
  rintro _ ⟨⟩
  exact took.current

/-- Where the tokens or the region end the source does. -/
theorem next_behind_end (spent : us.tail = [] ∨ ∃ u ∈ us.head?, ¬ Within limit u.depth) :
    Leads (Behind limit us) next fun found s => found = none ∧ s.Near limit us := by
  intro r here
  have spent : r.ahead = [] ∨ ¬ Within limit r.depth := by
    rcases spent with nothing | ⟨u, first, outside⟩
    · exact .inl (here.ahead.trans nothing)
    · refine .inr fun within => outside fun d member => ?_
      have depth : r.depth = u.depth := depth_of_current (here.current d member u first)
      exact depth ▸ within d member
  rcases Reader.next_at_end here.goesOn here.started here.pushed spent with run | ⟨b, run⟩
  · rw [show next.run r = _ from run]
    exact ⟨rfl, here.toNear⟩
  · rw [show next.run r = _ from run]
    exact ⟨rfl, here.pushed, here.ahead, here.current⟩

end Reading

namespace Leads

/-- What does not depend on the reader is known beforehand. -/
theorem known {p : Prop} {x : Reading α} {P : Stand → Prop} {Q : α → Stand → Prop} (leads : p → Leads P x Q) :
    Leads (fun s => p ∧ P s) x Q :=
  fun r here => leads here.1 r here.2

theorem loop_once {step : α → Reading (Turn α)} {a : α} {P : Stand → Prop} {Q : α → Stand → Prop}
    (first : Leads P (step a) fun turn s => turn.Meets (Q · s) fun _ => False) : Leads P (Reading.loop step a) Q := by
  intro r here
  have done := first r here
  cases turn : (step a).run r with
  | mk outcome after =>
    rw [turn] at done
    cases outcome with
    | more b => exact done.elim
    | done b =>
      rw [loop_done turn]
      exact done

/-- A loop that leaves tokens out up to one with which it is done. -/
theorem loop_skipping {step : α → Reading (Turn α)} {a : α} {xs : List ScannedToken} {Q : α → Stand → Prop}
    (inside : Within limit u.depth) (within : ∀ x ∈ xs, Within limit x.depth)
    (skips : ∀ x ∈ xs, ∀ r r', Reading.next.run r = (some x.token, r') → (step a).run r = (.more a, r'))
    (stops : ∀ w, Within limit w.depth → Leads (Behind limit (w :: v :: vs)) (step a) fun turn s =>
      turn.Meets (Q · s) fun _ => False) :
    Leads (Behind limit (u :: (xs ++ v :: vs))) (Reading.loop step a) Q := by
  induction xs generalizing u with
  | nil => exact .loop_once (stops u inside)
  | cons x xs ih =>
    intro r here
    have taken := next_behind inside r here
    cases run : Reading.next.run r with
    | mk found after =>
      rw [run] at taken
      obtain ⟨rfl, past⟩ := taken
      have fewer : after.left < r.left := by
        rw [after.left_eq (by simp [past.ended.pushed]), r.left_eq (by simp [here.pushed]),
          past.ended.ahead, here.ahead]
        simp
      rw [loop_more (skips x List.mem_cons_self r after run) fewer]
      exact ih (within x List.mem_cons_self) (fun y member => within y (List.mem_cons_of_mem x member))
        (fun y member => skips y (List.mem_cons_of_mem x member)) after past.behind

end Leads

namespace Reading

theorem nextItem_behind {xs : List ScannedToken} (inside : Within limit u.depth)
    (within : ∀ x ∈ xs, Within limit x.depth) (blank : ∀ x ∈ xs, x.isBlank) (solid : v.isBlank = false) :
    Leads (Behind limit (u :: (xs ++ v :: vs))) nextItem fun found s =>
      found = some v.token ∧ s.Past limit (v :: vs) := by
  refine .loop_skipping inside within (fun x member r r' run => ?_) fun w inside => ?_
  · have blank : (x.token.kind.isSpace || x.token.kind.isComment) = true := blank x member
    simp only [run_bind, run, blank, if_true]
    rfl
  · refine .bind (next_behind inside) fun found => .known fun same => ?_
    subst same
    have solid : (v.token.kind.isSpace || v.token.kind.isComment) = false := solid
    simp only [solid, Bool.false_eq_true, if_false]
    exact .pure fun _ past => ⟨rfl, past⟩

end Reading

theorem Leads.bounded_past {x : Reading α}
    (inner : Leads (Behind (some u.depth) (u :: ts)) x fun _ s => s.Ended vs) :
    Leads (Past limit (u :: ts)) (Reading.bounded x) fun _ => Past limit vs := by
  refine .bounded (Q := fun _ => Past limit vs) fun source r ⟨entered, past⟩ => ?_
  have depth : r.depth = u.depth := past.ended.depth_eq
  have entered : r.source = .bounded ⟨r.depth, false, false, none⟩ := entered
  refine past.move ((inner r ⟨(past.ended.switch r.source).near, ?_, fun b _ => .inr ?_⟩).switch source) rfl
  · show r.source.GoesOn _
    rw [entered]
    exact ⟨rfl, depth⟩
  · show Within _ r.depth
    rw [depth]
    exact within_self u

theorem Leads.free_past {x : Reading α} {Q : α → Prop}
    (inner : Leads (Past none us) x fun a s => Q a ∧ s.Past none vs) :
    Leads (Past limit us) (Reading.free x) fun a s => Q a ∧ s.Past limit vs := by
  refine .free (Q := fun a s => Q a ∧ s.Past limit vs) fun source r ⟨free, past⟩ => ?_
  have free : r.source = .free := free
  have inner := inner r ⟨past.ended.switch r.source, ?_, fun b same => ?_⟩
  · exact ⟨inner.1, past.move (inner.2.ended.switch source) rfl⟩
  · show r.source.GoesOn none
    rw [free]
    trivial
  · cases free.symm.trans same

theorem Leads.calm_past {x : Reading α} (calm : Calm (some u.depth) u.depth ts) (tame : u.token.isTame)
    (plain : u.token.looksAhead = false) (reads : ∀ rest m source, Leads (Apart rest m u source) x fun _ s =>
      s.Done rest m u source ∧ s.Ended rest) :
    Leads (Past limit (u :: ts)) x fun _ => Past limit (leaving (some u.depth) ts) := by
  intro r past
  have pushed : r.stand.pushed = false := past.ended.pushed
  have current : r.stand.current = some u := past.ended.current u rfl
  have ahead : r.stand.ahead = ts := past.ended.ahead
  have facing : r.stand.facing = u :: ts := by rw [facing_of_current pushed current, ahead]
  have place : r.stand.UpTo (some u.depth) (leaving (some u.depth) ts) ts.length := by
    refine ⟨by simp [current], ⟨u.depth, within_self u, ?_⟩, ?_, Nat.le_of_eq (congrArg List.length ahead)⟩
    · rw [facing]
      exact ⟨tame, fun lower => absurd lower (Nat.lt_irrefl _), by simp [plain], fun _ => calm⟩
    · rw [facing]
      exact leaving_cons_of_within (within_self u)
  obtain ⟨done, ended⟩ := reads _ _ _ r ⟨pushed, current, place, rfl⟩
  exact past.move ended done.source

end Rules

end ScoreText
