import MonkeyLang.Main
import MonkeyLang.Program.Progress
import MonkeyLang.Proofs.Phrase.Completeness
import MonkeyLang.Proofs.Spelling
import MonkeyLang.Proofs.Spelling.Parsing
import MonkeyLang.Proofs.Lexing
import MonkeyLang.Proofs.Lexing.Seam
import MonkeyLang.Proofs.Lexing.Tiling
import MonkeyLang.Proofs.Rendering
import MonkeyLang.Proofs.RoundTrip
import MonkeyLang.Proofs.Lookahead
import MonkeyLang.Proofs.Recovery
import MonkeyLang.Proofs.Resumption
import MonkeyLang.Proofs.Tracking
import MonkeyLang.Proofs.Phrase.Lists
import MonkeyLang.Proofs.FirstError
import MonkeyLang.Proofs.Overlong
import MonkeyLang.Proofs.Concatenation
import MonkeyLang.Proofs.Chunks
import MonkeyLang.Proofs.Data
import MonkeyLang.Proofs.Data.Evaluation
import MonkeyLang.Proofs.EvalRules
import MonkeyLang.Proofs.LastWrite
import MonkeyLang.Proofs.Words
import MonkeyLang.Proofs.WordArithmetic
import MonkeyLang.Proofs.Node
import MonkeyLang.Proofs.Unwinding
import MonkeyLang.Proofs.Confinement
import MonkeyLang.Proofs.Congruence
import MonkeyLang.Proofs.Depth
import MonkeyLang.Proofs.Marks
import MonkeyLang.Proofs.Reach
import MonkeyLang.Proofs.Unmentioned
import MonkeyLang.Proofs.Relabelling
import MonkeyLang.Proofs.Relabelling.Evaluation
import MonkeyLang.Proofs.Meaning
import MonkeyLang.Proofs.FunctionBody
import MonkeyLang.Proofs.Marks.Origin
import MonkeyLang.Proofs.ErrorPlaces
import MonkeyLang.Proofs.RecursiveMap.Source
import MonkeyLang.Proofs.SettingAside
import MonkeyLang.Proofs.RecursiveMap
import MonkeyLang.Proofs.Lexing.Joining
import MonkeyLang.Proofs.Division
import MonkeyLang.Proofs.Lines
import MonkeyLang.Proofs.Report
import MonkeyLang.Proofs.Literals.Evaluation
import MonkeyLang.Proofs.Digests
import MonkeyLang.Proofs.ScopeHistory
import MonkeyLang.Proofs.EveryNode
import MonkeyLang.Proofs.Termination
import MonkeyLang.Proofs.Equality
