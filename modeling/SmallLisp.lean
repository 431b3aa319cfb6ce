import SmallLisp.Expr.Equality
import SmallLisp.Expr.Sink
import SmallLisp.Main
import SmallLisp.Proofs.Acceptance
import SmallLisp.Proofs.Lexemes
import SmallLisp.Proofs.Vocabulary
import SmallLisp.Proofs.Soundness
import SmallLisp.Proofs.Recognition
import SmallLisp.Proofs.Rounding
import SmallLisp.Proofs.NumberText
import SmallLisp.Proofs.Scanning
import SmallLisp.Proofs.Canonical
import SmallLisp.Proofs.ReadBack
import SmallLisp.Proofs.Values
import SmallLisp.Proofs.RoundTrip
import SmallLisp.Proofs.Places
import SmallLisp.Proofs.Indifference
import SmallLisp.Proofs.EarliestError
import SmallLisp.Proofs.LetterCase
import SmallLisp.Proofs.Tiling
import SmallLisp.Proofs.WrittenTokens
import SmallLisp.Proofs.Erasure
import SmallLisp.Proofs.Nesting
import SmallLisp.Proofs.Dialects
import SmallLisp.Proofs.UnknownCharacter
import SmallLisp.Proofs.Portions
import SmallLisp.Proofs.LineBreaks
import SmallLisp.Proofs.Coordinates
import SmallLisp.Proofs.Concatenation
import SmallLisp.Proofs.Alike
import SmallLisp.Proofs.Encoding
import SmallLisp.Proofs.StrictDecoding
import SmallLisp.Proofs.EntryPoints
import SmallLisp.Proofs.Isolation
import SmallLisp.Proofs.Levels
import SmallLisp.Proofs.Unlimited
import SmallLisp.Proofs.LexicalErrors
import SmallLisp.Proofs.Resumption
import SmallLisp.Proofs.TruthfulErrors
import SmallLisp.Proofs.NearestDouble
import SmallLisp.Proofs.NumberValues
import SmallLisp.Proofs.Rescanning
import SmallLisp.Proofs.ReservedWords
import SmallLisp.Proofs.LineCounters
import SmallLisp.Proofs.Writing
import SmallLisp.Proofs.Interruption
import SmallLisp.Proofs.Lines
import SmallLisp.Proofs.Indentation
import SmallLisp.Proofs.Lookahead
import SmallLisp.Proofs.NodeCount
import SmallLisp.Proofs.Progress
