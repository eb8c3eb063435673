import Lisplet.Main
import Lisplet.Shell.Files
import Lisplet.Proofs.Makeup
import Lisplet.Proofs.Courses
import Lisplet.Proofs.Clauses
import Lisplet.Proofs.Frames
import Lisplet.Proofs.Traces
import Lisplet.Proofs.Lexing
import Lisplet.Proofs.Lines
import Lisplet.Proofs.Continuation
import Lisplet.Proofs.Rounding
import Lisplet.Proofs.Numerals
import Lisplet.Proofs.Spelling
import Lisplet.Proofs.Lexemes
import Lisplet.Proofs.Nesting
import Lisplet.Proofs.RoundTrip
import Lisplet.Proofs.Places
import Lisplet.Proofs.Gathering
import Lisplet.Proofs.Limits
import Lisplet.Proofs.Likeness
import Lisplet.Proofs.LikeCalls
import Lisplet.Proofs.LikeSessions
import Lisplet.Proofs.Tables
import Lisplet.Proofs.Accords
import Lisplet.Proofs.Numbering
import Lisplet.Proofs.Unmentioned
import Lisplet.Proofs.Gate
import Lisplet.Proofs.CallEffects
import Lisplet.Proofs.Grammar
import Lisplet.Proofs.Locality
import Lisplet.Proofs.DistinctKeys
import Lisplet.Proofs.Layout
import Lisplet.Proofs.Walks
import Lisplet.Proofs.Sketches
import Lisplet.Proofs.Cycles
import Lisplet.Proofs.JsonReading
import Lisplet.Proofs.JsonRoundTrip
import Lisplet.Proofs.Endings
import Lisplet.Proofs.Arguments
import Lisplet.Proofs.Settling
import Lisplet.Proofs.Definitions
import Lisplet.Proofs.Standard
import Lisplet.Proofs.Sequences
import Lisplet.Proofs.Slices
import Lisplet.Proofs.Callbacks
import Lisplet.Proofs.Variadic
import Lisplet.Proofs.Dispatch
import Lisplet.Proofs.BoundNames
import Lisplet.Proofs.Retrieval
import Lisplet.Proofs.Selection
import Lisplet.Proofs.Readback
import Lisplet.Proofs.Occurrences
import Lisplet.Proofs.TextMethods
import Lisplet.Proofs.NumericTexts
import Lisplet.Proofs.Equalities
