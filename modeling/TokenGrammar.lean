import TokenGrammar.Main
import TokenGrammar.Match.Script
import TokenGrammar.Proofs.Match.Moves
import TokenGrammar.Proofs.Match.Simulation
import TokenGrammar.Proofs.Lexer.Tiling
import TokenGrammar.Proofs.Lexer.Slices
import TokenGrammar.Proofs.Lexer.Scanning
import TokenGrammar.Proofs.Match.Consumption
import TokenGrammar.Proofs.Match.Onward
import TokenGrammar.Proofs.Match.Coherence
import TokenGrammar.Proofs.Match.Termination
import TokenGrammar.Proofs.Match.Survivors
import TokenGrammar.Proofs.Grammar.Notation
import TokenGrammar.Proofs.Grammar.Reading
import TokenGrammar.Proofs.Grammar.Items
import TokenGrammar.Proofs.Grammar.Completeness
import TokenGrammar.Proofs.Grammar.Soundness
import TokenGrammar.Proofs.Grammar.Quoting
import TokenGrammar.Proofs.Grammar.SourceLexer
import TokenGrammar.Proofs.Grammar.Pieces
import TokenGrammar.Proofs.Grammar.Relexing
import TokenGrammar.Proofs.Grammar.Printed
import TokenGrammar.Proofs.Grammar.Literals
import TokenGrammar.Proofs.Grammar.RoundTrip
import TokenGrammar.Proofs.Match.Trail
import TokenGrammar.Proofs.Grammar.Visits
import TokenGrammar.Proofs.Match.Effects
import TokenGrammar.Proofs.Match.Nesting
import TokenGrammar.Proofs.Match.StaticChecks
import TokenGrammar.Proofs.Match.SideBySide
import TokenGrammar.Proofs.Match.Adjacency
import TokenGrammar.Proofs.Match.Ahead
import TokenGrammar.Proofs.Match.Furthest
import TokenGrammar.Proofs.Match.Return
import TokenGrammar.Proofs.Match.Pointing
import TokenGrammar.Proofs.Match.Ledger
import TokenGrammar.Proofs.Match.Undoing
import TokenGrammar.Proofs.Match.Strides
import TokenGrammar.Proofs.Match.Spacing
import TokenGrammar.Proofs.Match.Reachable
import TokenGrammar.Proofs.Match.Limits
import TokenGrammar.Proofs.Lexer.Lines
import TokenGrammar.Proofs.Lexer.Seams
import TokenGrammar.Proofs.Lexer.LineEnds
import TokenGrammar.Proofs.Match.LineEnds
import TokenGrammar.Proofs.Grammar.SourceLines
import TokenGrammar.Proofs.Grammar.Shifting
import TokenGrammar.Proofs.Grammar.Joining
import TokenGrammar.Proofs.Grammar.LineCounts
import TokenGrammar.Proofs.Match.Digits
import TokenGrammar.Proofs.Match.Integers
import TokenGrammar.Proofs.Match.Lexemes
import TokenGrammar.Proofs.Match.Numbers
import TokenGrammar.Proofs.Match.Strings
import TokenGrammar.Proofs.Match.Scanners
import TokenGrammar.Proofs.Match.Excerpts
import TokenGrammar.Proofs.Match.Attempts
import TokenGrammar.Proofs.Match.Beginnings
import TokenGrammar.Proofs.Match.Between
import TokenGrammar.Proofs.Match.Unmarked
import TokenGrammar.Proofs.Match.OnceEach
import TokenGrammar.Proofs.Grammar.LongestWords
import TokenGrammar.Proofs.Grammar.WholeWords
import TokenGrammar.Proofs.Lexer.Locality
import TokenGrammar.Proofs.Lexer.Comments
import TokenGrammar.Proofs.Grammar.Respacing
import TokenGrammar.Proofs.Grammar.Escaping
import TokenGrammar.Proofs.Grammar.NodeSpans
import TokenGrammar.Proofs.Grammar.Offenders
import TokenGrammar.Proofs.Grammar.Registries
import TokenGrammar.Proofs.Grammar.Rereading
import TokenGrammar.Proofs.Grammar.Inserts
import TokenGrammar.Proofs.Grammar.Traversal
import TokenGrammar.Proofs.Lexer.WordOrder
import TokenGrammar.Proofs.Match.Memories
import TokenGrammar.Proofs.Cli.Inputs
import TokenGrammar.Proofs.Match.Requests
