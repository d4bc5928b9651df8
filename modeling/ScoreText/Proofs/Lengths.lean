import ScoreText.Music.Reading.Reader
import ScoreText.Proofs.Branching

/-! Durations that fit. A duration that does not fit is given up when it is read, so the one before it stays
in effect. Whatever items have their durations from, the length of each can be told in words. -/
namespace ScoreText

namespace Fraction

theorem mul_fits {a b c : Fraction} (product : a.mul? b = some c) : c.fits := by
  obtain ⟨fits, same⟩ := Option.ite_none_right_eq_some.mp product
  cases same
  exact fits

/-- One part of as many as a word can tell. -/
theorem unit_fits {n : Int} (positive : 0 < n) (word : Text.isWord64 n) : (ofInts 1 n).fits := by
  have num : (ofInts 1 n).num = 1 := by
    rw [ofInts, Rat.num_divInt, Int.sign_eq_one_of_pos positive, Int.gcd_one]
    rfl
  have den : ((ofInts 1 n).den : Int) = n := by
    rw [ofInts, Rat.den_divInt, if_neg (Int.ne_of_gt positive), Int.gcd_one, Nat.div_one]
    exact Int.natAbs_of_nonneg (Int.le_of_lt positive)
  rw [fits, num, den, word]
  rfl

end Fraction

namespace Duration

/-- A duration whose length can be told, too. -/
structure Fits (d : Duration) : Prop where
  base : d.base.fits
  scaling : d.scaling.fits
  length : d.length.fits

theorem Fits.length_eq {d : Duration} (fits : d.Fits) : d.length? = some d.length :=
  if_pos fits.length

theorem zero_fits : zero.Fits := by
  constructor <;> decide +kernel

theorem quarter_fits : quarter.Fits := by
  constructor <;> decide +kernel

theorem undotted_fits {text : List Char} {base : Fraction} (found : undotted? text = some base) : base.fits := by
  unfold undotted? at found
  split at found
  · cases found
    decide +kernel
  · split at found
    · cases found
      decide +kernel
    · split at found
      · cases found
        decide +kernel
      · obtain ⟨n, read, unit⟩ := Option.bind_eq_some_iff.mp found
        obtain ⟨positive, same⟩ := Option.ite_none_right_eq_some.mp unit
        cases same
        exact Fraction.unit_fits positive (Option.filter_eq_some_iff.mp read).2

/-- Parts of a duration that fit so far. -/
structure Parts.Fits (p : Parts) : Prop where
  base : ∀ base ∈ p.base, base.fits
  scaling : p.scaling.fits

theorem addPart_fits {p q : Parts} {part : List Char} (fits : p.Fits) (added : addPart p part = some q) : q.Fits := by
  unfold addPart at added
  split at added
  · cases added
    exact ⟨fits.base, fits.scaling⟩
  · obtain ⟨factor, _, rest⟩ := Option.bind_eq_some_iff.mp added
    obtain ⟨scaling, product, same⟩ := Option.bind_eq_some_iff.mp rest
    cases same
    exact ⟨fits.base, Fraction.mul_fits product⟩
  · split at added
    · cases added
      exact fits
    · obtain ⟨base, found, same⟩ := Option.map_eq_some_iff.mp added
      cases same
      exact ⟨by rintro _ ⟨⟩; exact undotted_fits found, fits.scaling⟩

theorem addParts_fits {p q : Parts} {parts : List (List Char)} (fits : p.Fits)
    (added : parts.foldlM addPart p = some q) : q.Fits := by
  induction parts generalizing p with
  | nil =>
    cases added
    exact fits
  | cons part parts ih =>
    obtain ⟨next, one, others⟩ := Option.bind_eq_some_iff.mp added
    exact ih (addPart_fits fits one) others

/-- Whatever is read as a duration fits, however many dots and factors there are. -/
theorem ofParts_fits {parts : List (List Char)} {d : Duration} (found : ofParts? parts = some d) : d.Fits := by
  have start : Parts.Fits ⟨none, 0, 1⟩ := ⟨fun _ => nofun, by decide +kernel⟩
  obtain ⟨p, added, found⟩ := Option.bind_eq_some_iff.mp found
  have fits := addParts_fits start added
  obtain ⟨base, known, found⟩ := Option.bind_eq_some_iff.mp found
  -- the duration is only kept if its length fits
  have kept : ∀ scaling : Fraction, scaling.fits →
      ((⟨base, scaling⟩ : Duration).length?.map fun _ => (⟨base, scaling⟩ : Duration)) = some d → d.Fits := by
    intro scaling scaled found
    obtain ⟨length, told, same⟩ := Option.map_eq_some_iff.mp found
    cases same
    exact ⟨fits.base base known, scaled, (Option.ite_none_right_eq_some.mp told).1⟩
  dsimp only at found
  split at found
  · exact kept p.scaling fits.scaling found
  · obtain ⟨dots, _, found⟩ := Option.bind_eq_some_iff.mp found
    obtain ⟨scaling, product, found⟩ := Option.bind_eq_some_iff.mp found
    exact kept scaling (Fraction.mul_fits product) found

/-- As many dots fit on a whole note, but not on a quarter note, whose length they tell in finer parts. -/
example : (ofParts? ("1".toList :: List.replicate 61 ['.'])).isSome ∧
    ofParts? ("4".toList :: List.replicate 61 ['.']) = none := by
  decide +kernel

theorem read_fits {text : String} {d : Duration} (found : read? text = some d) : d.Fits :=
  ofParts_fits found

end Duration

/-- A duration that an item has fits. -/
def Item.Timely (i : Item) : Prop :=
  ∀ d ∈ i.duration, d.Fits

namespace Tree

variable {t : Tree}

def Timely (t : Tree) : Prop :=
  ∀ id, (t.item id).Timely

theorem single_timely (kind : ItemKind) (position : Nat) (token : Option Token) :
    (Item.single kind position token).Timely :=
  fun _ => nofun

theorem start_timely : start.Timely := by
  intro id
  cases id with
  | zero => exact single_timely _ _ _
  | succ id => exact single_timely _ _ _

theorem Timely.push (timely : t.Timely) (kind : ItemKind) (position : Nat) (token : Option Token) :
    (t.push (.single kind position token)).Timely := by
  intro id
  rw [item_push]
  split
  · exact single_timely _ _ _
  · exact timely id

theorem Timely.update (timely : t.Timely) {id : ItemId} {f : Item → Item} (filled : (f (t.item id)).Timely) :
    (t.update id f).Timely := by
  intro other
  rw [item_update]
  split
  · rename_i here
    rw [← here.1]
    exact filled
  · exact timely other

theorem Timely.append (timely : t.Timely) (parent child : ItemId) : (t.append parent child).Timely := by
  intro id d own
  rw [item_moved] at own
  exact timely id d own

theorem Timely.appendAll (timely : t.Timely) (parent : ItemId) (ids : List ItemId) :
    (t.appendAll parent ids).Timely := by
  induction ids generalizing t with
  | nil => exact timely
  | cons c ids ih => exact ih (timely.append parent c)

end Tree

/-- The duration in effect fits, and so do those of all items that have been read. -/
def Reader.Timely (r : Reader) : Prop :=
  r.duration.Fits ∧ r.tree.Timely

end ScoreText
