import ScoreText.Pattern

/-! What the matches of a pattern look like. `Matches` says which texts a pattern stands for, with no
order of preference; every cut at the front of a text is one of them. How short a match can be and
how it can begin is then read off the pattern alone. -/
namespace ScoreText.Pattern

/-- The texts that a pattern stands for. -/
inductive Matches : Pattern → List Char → Prop where
  | one {p : Char → Bool} {c : Char} : p c = true → Matches (one p) [c]
  | run {p : Char → Bool} {x : List Char} : (∀ c ∈ x, p c = true) → Matches (run p) x
  | seq {a b : Pattern} {x y : List Char} : Matches a x → Matches b y → Matches (seq a b) (x ++ y)
  | left {a b : Pattern} {x : List Char} : Matches a x → Matches (alt a b) x
  | right {a b : Pattern} {x : List Char} : Matches b x → Matches (alt a b) x
  | skip {a : Pattern} : Matches (opt a) []
  | once {a : Pattern} {x : List Char} : Matches a x → Matches (opt a) x
  | stop {a : Pattern} : Matches (many a) []
  | again {a : Pattern} {x y : List Char} :
      Matches a x → Matches (many a) y → Matches (many a) (x ++ y)

theorem mem_run_cuts {p : Char → Bool} {cs : List Char} {cut : Cut} (h : cut ∈ runCuts p cs) :
    cut.1 ++ cut.2 = cs ∧ ∀ c ∈ cut.1, p c = true := by
  induction cs generalizing cut with
  | nil =>
    cases List.mem_singleton.mp h
    simp
  | cons c cs ih =>
    simp only [runCuts] at h
    split at h
    · rename_i hc
      rcases List.mem_append.mp h with h | h
      · obtain ⟨tail, ht, rfl⟩ := List.mem_map.mp h
        have t := ih ht
        simp [Cut.after, t.1, hc]
        exact t.2
      · cases List.mem_singleton.mp h
        simp
    · cases List.mem_singleton.mp h
      simp

theorem mem_then_cuts {a b : List Char → List Cut} {cs : List Char} {cut : Cut}
    (h : cut ∈ thenCuts a b cs) :
    ∃ first ∈ a cs, ∃ second ∈ b first.2, cut = second.after first.1 := by
  obtain ⟨first, hf, hs⟩ := List.mem_flatMap.mp h
  obtain ⟨second, hm, rfl⟩ := List.mem_map.mp hs
  exact ⟨first, hf, second, hm, rfl⟩

theorem mem_many_cuts {p : Pattern}
    (sound : ∀ {cs : List Char} {cut : Cut}, cut ∈ p.cuts cs → cut.1 ++ cut.2 = cs ∧ Matches p cut.1)
    {limit cs : List Char} {cut : Cut} (h : cut ∈ manyCuts p.cuts limit cs) :
    cut.1 ++ cut.2 = cs ∧ Matches (many p) cut.1 := by
  induction limit generalizing cs cut with
  | nil =>
    cases List.mem_singleton.mp h
    exact ⟨rfl, .stop⟩
  | cons _ limit ih =>
    rcases List.mem_append.mp h with h | h
    · obtain ⟨first, hf, second, hs, rfl⟩ := mem_then_cuts h
      have f := sound hf
      have s := ih hs
      refine ⟨?_, .again f.2 s.2⟩
      simp only [Cut.after, List.append_assoc, s.1, f.1]
    · cases List.mem_singleton.mp h
      exact ⟨rfl, .stop⟩

/-- A cut divides the text, and what it takes is a match. -/
theorem mem_cuts {p : Pattern} {cs : List Char} {cut : Cut} (h : cut ∈ p.cuts cs) :
    cut.1 ++ cut.2 = cs ∧ Matches p cut.1 := by
  induction p generalizing cs cut with
  | never => cases h
  | one p =>
    cases cs with
    | nil => cases h
    | cons c cs =>
      simp only [cuts] at h
      split at h
      · rename_i hc
        cases List.mem_singleton.mp h
        exact ⟨rfl, .one hc⟩
      · cases h
  | run p =>
    have r := mem_run_cuts h
    exact ⟨r.1, .run r.2⟩
  | seq a b iha ihb =>
    -- the second pattern cuts what the first one has left
    obtain ⟨first, hf, second, hs, rfl⟩ := mem_then_cuts h
    have f := iha hf
    have s := ihb hs
    refine ⟨?_, .seq f.2 s.2⟩
    simp only [Cut.after, List.append_assoc, s.1, f.1]
  | alt a b iha ihb =>
    rcases List.mem_append.mp h with h | h
    · exact ⟨(iha h).1, .left (iha h).2⟩
    · exact ⟨(ihb h).1, .right (ihb h).2⟩
  | opt a iha =>
    rcases List.mem_append.mp h with h | h
    · exact ⟨(iha h).1, .once (iha h).2⟩
    · cases List.mem_singleton.mp h
      exact ⟨rfl, .skip⟩
  | many a iha => exact mem_many_cuts iha h

theorem first_match {p : Pattern} {cs : List Char} {cut : Cut} (h : p.first? cs = some cut) :
    cut.1 ++ cut.2 = cs ∧ Matches p cut.1 := by
  rw [first?_eq_head?] at h
  exact mem_cuts (List.mem_of_head? h)

/-- Nothing is found where no front matches. -/
theorem first_none {p : Pattern} {cs : List Char} (no : ∀ x y, x ++ y = cs → ¬ Matches p x) : p.first? cs = none := by
  refine Option.eq_none_iff_forall_ne_some.mpr fun cut found => ?_
  obtain ⟨whole, taken⟩ := first_match found
  exact no cut.1 cut.2 whole taken

/-- The fewest characters of a match. What matches nowhere may as well need one. -/
def least : Pattern → Nat
  | never => 1
  | one _ => 1
  | run _ => 0
  | seq a b => a.least + b.least
  | alt a b => min a.least b.least
  | opt _ => 0
  | many _ => 0

theorem least_le_length {p : Pattern} {x : List Char} (h : Matches p x) : p.least ≤ x.length := by
  induction h with
  | one _ => exact Nat.le_refl 1
  | run _ => exact Nat.zero_le _
  | seq _ _ iha ihb =>
    rw [List.length_append]
    exact Nat.add_le_add iha ihb
  | left _ ih => exact Nat.le_trans (Nat.min_le_left _ _) ih
  | right _ ih => exact Nat.le_trans (Nat.min_le_right _ _) ih
  | skip => exact Nat.zero_le _
  | once _ _ => exact Nat.zero_le _
  | stop => exact Nat.zero_le _
  | again _ _ _ _ => exact Nat.zero_le _

/-- Whether a match can begin with a character. -/
def begins (c : Char) : Pattern → Bool
  | never => false
  | one p => p c
  | run p => p c
  | seq a b => a.begins c || (a.least == 0 && b.begins c)
  | alt a b => a.begins c || b.begins c
  | opt a => a.begins c
  | many a => a.begins c

theorem begins_of_match {p : Pattern} {c : Char} {x : List Char} (h : Matches p (c :: x)) :
    p.begins c = true := by
  generalize text : c :: x = t at h
  induction h generalizing x with
  | one hp =>
    cases text
    exact hp
  | run hp => exact hp c (text ▸ List.mem_cons_self)
  | @seq a b y z ha _ iha ihb =>
    cases y with
    | nil =>
      have empty : a.least = 0 := Nat.le_zero.mp (least_le_length ha)
      simp only [begins, empty, ihb text, beq_self_eq_true, Bool.and_self, Bool.or_true]
    | cons d y =>
      have same : c = d := (List.cons.inj text).1
      simp only [begins, iha (by rw [same]), Bool.true_or]
  | left _ ih => simp only [begins, ih text, Bool.true_or]
  | right _ ih => simp only [begins, ih text, Bool.or_true]
  | skip => cases text
  | once _ ih => exact ih text
  | stop => cases text
  | @again a y z _ _ iha ihb =>
    cases y with
    | nil => exact ihb text
    | cons d y =>
      have same : c = d := (List.cons.inj text).1
      exact iha (by rw [same])

end ScoreText.Pattern
