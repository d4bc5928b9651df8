import ScoreText.Document.Value
import ScoreText.Proofs.ScoreLayout

/-! The lengths of a score. Every duration that an item has was kept because its length fits, so the length
can be computed without a check. -/
namespace ScoreText

/-- Numerator and denominator of a product as they are computed: first the common factors are taken out,
crosswise. -/
def Fraction.crosswise (a b : Fraction) : Int × Int :=
  let x := a.num.natAbs.gcd b.den
  let y := a.den.gcd b.num.natAbs
  (a.num / x * (b.num / y), (a.den / y * (b.den / x) : Nat))

/-- No common factor is left, so what is computed is no larger than the product. -/
theorem Fraction.crosswise_eq (a b : Fraction) : crosswise a b = ((a * b).num, ((a * b).den : Int)) := by
  have product : a * b = Rat.mul a b := rfl
  rw [product, Rat.mul]
  simp only [crosswise, Int.divExact_eq_ediv, Nat.divExact_eq_div, Nat.gcd_comm b.num.natAbs]

theorem Document.ofText_timely (options : Options) (text : String) (filename : Option String)
    (includedFrom : Option (DocumentId × ItemId)) :
    (Document.ofText options text filename includedFrom).tree.Timely :=
  Tree.ofTokens_timely (scanMusic_inOrder text) options.language options.maxNestingDepth

theorem Item.Timely.orZero {i : Item} (timely : i.Timely) : i.durationOrZero.Fits := by
  unfold durationOrZero
  cases own : i.duration with
  | none => exact Duration.zero_fits
  | some d => exact timely d own

/-- Whatever is read from a text, an item has no duration or one that fits. The checked length of an item is
there, and the unchecked one never leaves the words. -/
theorem stored_durations_fit (options : Options) (text : String) (filename : Option String)
    (includedFrom : Option (DocumentId × ItemId)) (id : ItemId) :
    let doc := Document.ofText options text filename includedFrom
    let item := doc.tree.item id
    let length := doc.writtenLength id
    let computed := item.durationOrZero.base.crosswise item.durationOrZero.scaling
    (item.duration = none ∨ ∃ d, item.duration = some d ∧ d.Fits) ∧
      item.durationOrZero.length? = some length ∧ computed = (length.num, (length.den : Int)) ∧
      Text.isWord64 computed.1 ∧ Text.isWord64 computed.2 ∧ 0 < computed.2 ∧ computed.1.gcd computed.2 = 1 := by
  intro doc item length computed
  have timely : item.Timely := Document.ofText_timely options text filename includedFrom id
  have fits := timely.orZero
  have same : computed = (length.num, (length.den : Int)) := Fraction.crosswise_eq _ _
  obtain ⟨num, den⟩ := Bool.and_eq_true_iff.mp fits.length
  refine ⟨?_, fits.length_eq, same, ?_⟩
  · cases own : item.duration with
    | none => exact .inl rfl
    | some d => exact .inr ⟨d, rfl, timely d own⟩
  · rw [same]
    exact ⟨num, den, Int.natCast_pos.mpr length.den_pos, length.reduced⟩

end ScoreText
