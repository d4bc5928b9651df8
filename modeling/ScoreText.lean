import ScoreText.Document.Output
import ScoreText.Document.Position
import ScoreText.Lexer.Store
import ScoreText.Proofs.Matches
import ScoreText.Proofs.Lexeme
import ScoreText.Proofs.Pieces
import ScoreText.Proofs.Linewise
import ScoreText.Proofs.Coverage
import ScoreText.Proofs.Replay
import ScoreText.Proofs.Resumption
import ScoreText.Proofs.InLine
import ScoreText.Proofs.Leftmost
import ScoreText.Proofs.LineKinds
import ScoreText.Proofs.LineRegions
import ScoreText.Proofs.Hosts
import ScoreText.Proofs.LineAgreement
import ScoreText.Proofs.Root
import ScoreText.Proofs.TimeApart
import ScoreText.Proofs.AffineTime
import ScoreText.Proofs.MusicScore
import ScoreText.Proofs.MarkupScore
import ScoreText.Proofs.MarkupNames
import ScoreText.Proofs.Arguments
import ScoreText.Proofs.Lookup
import ScoreText.Proofs.DocumentOrder
import ScoreText.Proofs.ScoreLengths
import ScoreText.Proofs.Arrival
import ScoreText.Proofs.TimeInside
import ScoreText.Proofs.Nesting
import ScoreText.Proofs.ExtentScore
import ScoreText.Proofs.Limits
import ScoreText.Proofs.Expansion
import ScoreText.Proofs.Embedding
import ScoreText.Proofs.SchemeScore
import ScoreText.Proofs.TempoScore
import ScoreText.Proofs.HeadwayScore
import ScoreText.Proofs.SpeakingScore
import ScoreText.Proofs.LowestTerms
import ScoreText.Proofs.WrittenDurations
import ScoreText.Proofs.OutputSearch
import ScoreText.Proofs.PathAgreement
import ScoreText.Proofs.StringScore
import ScoreText.Proofs.KeptStates
