import ScoreText.Proofs.Building
import ScoreText.Proofs.MusicItems
import ScoreText.Proofs.MusicTime

/-! The tree of a written expression has one item at its top, which mirrors the expression. -/
namespace ScoreText

open Reader Reading ScoreText.Tree

variable {names : Naming} {language : String} {depth : Nat}

theorem Length.quarter_duration : Length.quarter.duration = Duration.quarter := by
  simp only [Length.duration, Length.quarter, Duration.quarter, Duration.mk.injEq]
  decide +kernel

theorem Reader.start_knows {tokens : Array ScannedToken} {r : Reader} (known : names.KnownIn language)
    (same : (Reader.start tokens language).SameScore r) : r.Knows names .quarter :=
  ⟨same.language ▸ known, same.inChord, same.duration.trans Length.quarter_duration.symm⟩

theorem ofTokens_mirrors {b : Bool} {items : List Music} {t : Tree} (known : names.KnownIn language)
    (deep : (Music.list b items).depth ≤ depth)
    (tree : t = ofTokens (scanMusic (String.ofList (Music.list b items).chars)) language depth) :
    ∃ top, t.children root = [top] ∧ (Music.list b items).MirroredBy t names .quarter top := by
  obtain ⟨k, rfl, inner⟩ := Music.levels_list deep
  obtain ⟨first, tail, shape, starts⟩ := (Music.list b items).front (.ofMode .lilypond) 0
  rw [scanMusic_list, shape] at tree
  have endures : Endures fun t id => (Music.list b items).MirroredBy t names .quarter id :=
    fun _ _ _ _ same inside mirrored => mirrored.kept same.alikeFrom inside
  refine ofTokens_one (d := (State.ofMode .lilypond).depth) starts.solid endures (fun r same took => ?_) tree
  rw [← List.append_nil tail] at took
  rw [Music.pieces] at shape
  obtain ⟨closing, r', run, took', leaves, gave⟩ :=
    (Music.allReadBy items k inner).front (Reader.start_knows known same) shape took
  exact ⟨r', run, ⟨closing, took', leaves⟩, gave.grown, gave.mirrored⟩

def Naming.nederlands : Naming
  | .c => (0, 0)
  | .d => (1, 0)
  | .e => (2, 0)
  | .f => (3, 0)
  | .g => (4, 0)
  | .a => (5, 0)
  | .b => (6, 0)

theorem Naming.nederlands_known : Naming.nederlands.KnownIn "nederlands" := by
  intro l
  cases l <;> decide +kernel

end ScoreText
