import LedSketch.Proofs.Dialect.Survival
import LedSketch.Proofs.Dialect.Reader
import LedSketch.Proofs.Grammar.Painting
import LedSketch.Main
import LedSketch.Session.Rehearsal
import LedSketch.Syntax.Outline
import LedSketch.Proofs.Grammar.Enclosed
import LedSketch.Proofs.Grammar.Words
import LedSketch.Proofs.Grammar.Braces
import LedSketch.Proofs.Grammar.Walk
import LedSketch.Proofs.Grammar.Tiling
import LedSketch.Proofs.Grammar.Agreement
import LedSketch.Proofs.Syntax.Refusal
import LedSketch.Proofs.Grammar.Declarations
import LedSketch.Proofs.Scan.Below
import LedSketch.Proofs.Dialect.Heeding
import LedSketch.Proofs.Dialect.Suspension
import LedSketch.Proofs.Dialect.Attention
import LedSketch.Proofs.Session.Generations
import LedSketch.Proofs.Session.Script
import LedSketch.Proofs.Session.Stale
import LedSketch.Proofs.Running.Heedful
import LedSketch.Proofs.Session.Orphans
import LedSketch.Proofs.Session.Addressing
import LedSketch.Proofs.Session.Departures
import LedSketch.Proofs.Session.Superseded
import LedSketch.Proofs.Grammar.Reads
import LedSketch.Proofs.Syntax.HostText
import LedSketch.Proofs.Grammar.Enough
import LedSketch.Proofs.Syntax.Meanings
import LedSketch.Proofs.Syntax.StatementMeanings
import LedSketch.Proofs.Grammar.Lexemes
import LedSketch.Proofs.Syntax.Climbing
import LedSketch.Proofs.Syntax.Operands
import LedSketch.Proofs.Syntax.WrittenExpressions
import LedSketch.Proofs.Syntax.Statements
import LedSketch.Proofs.Syntax.WrittenStatements
import LedSketch.Proofs.Syntax.RoundTrip
import LedSketch.Proofs.Syntax.Conforming
import LedSketch.Proofs.Program.Refusals
import LedSketch.Proofs.Program.Outcomes
import LedSketch.Proofs.Dialect.Sketches
import LedSketch.Proofs.Dialect.Tokens
import LedSketch.Proofs.Scan.Pushdown
import LedSketch.Proofs.Board.Pins
import LedSketch.Proofs.Session.Recency
import LedSketch.Proofs.Dialect.Writing
import LedSketch.Proofs.Dialect.Translation
import LedSketch.Proofs.Dialect.Heralds
import LedSketch.Proofs.Grammar.Announced
import LedSketch.Proofs.Program.EntryPoints
import LedSketch.Proofs.Scan.Prefixes
import LedSketch.Proofs.Scan.Markers
import LedSketch.Proofs.Syntax.Precedence
import LedSketch.Proofs.Syntax.Chains
import LedSketch.Proofs.Syntax.Quoting
import LedSketch.Proofs.Store.Words
import LedSketch.Proofs.Library.Elements
import LedSketch.Proofs.Running.Modifying
import LedSketch.Proofs.Program.Constants
import LedSketch.Proofs.Board.Inputs
import LedSketch.Proofs.Number.Doubles
import LedSketch.Proofs.Running.Waiting
import LedSketch.Proofs.Program.Rearranged
import LedSketch.Proofs.Program.Excerpts
import LedSketch.Proofs.Running.WrittenIntegers
