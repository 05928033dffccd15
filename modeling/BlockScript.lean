import BlockScript.Text.Blank
import BlockScript.Text.Quoted
import BlockScript.Text.Field
import BlockScript.Text.Record
import BlockScript.Text.Lines
import BlockScript.Text.Numeral
import BlockScript.Single.Shortest
import BlockScript.Single.Reading
import BlockScript.Token.Stream
import BlockScript.Source
import BlockScript.Program.Tree
import BlockScript.Program.Parsing
import BlockScript.Program.Encoding
import BlockScript.Program.Decoding
import BlockScript.Program.Outline
import BlockScript.Run.Evaluation
import BlockScript.Main
import BlockScript.Proofs.Run.SearchOrder
import BlockScript.Proofs.Parsing.Completeness
import BlockScript.Proofs.Wire.Transport
import BlockScript.Proofs.Wire.Stages
import BlockScript.Proofs.Run.Layout
import BlockScript.Proofs.Wire.Limits
import BlockScript.Proofs.Run.Calls
import BlockScript.Proofs.Run.Blame
import BlockScript.Proofs.Run.HigherLimit
import BlockScript.Proofs.Run.Wrapping
import BlockScript.Proofs.Wire.Spelling
import BlockScript.Proofs.Wire.Reencoding
import BlockScript.Proofs.Wire.Streams
import BlockScript.Proofs.Parsing.Yield
import BlockScript.Proofs.Parsing.Integers
import BlockScript.Proofs.Parsing.Strings
import BlockScript.Proofs.Run.Globals
import BlockScript.Proofs.Wire.Prefixes
import BlockScript.Proofs.Run.Guard
import BlockScript.Proofs.Wire.LineFaults
import BlockScript.Proofs.Parsing.Progress
import BlockScript.Proofs.Run.Effects
import BlockScript.Proofs.Run.Values
import BlockScript.Proofs.Run.Arithmetic
import BlockScript.Proofs.Parsing.WellFormed
import BlockScript.Proofs.Parsing.Branches
import BlockScript.Proofs.Parsing.Separators
import BlockScript.Proofs.Lexing.Files
import BlockScript.Proofs.Tree.Drawing
