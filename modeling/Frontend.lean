import Frontend.Attempt
import Frontend.Command.Arguments
import Frontend.Command.Run
import Frontend.Diagnostic.Basic
import Frontend.Diagnostic.Report
import Frontend.FileSystem
import Frontend.Grammar.Branching
import Frontend.Grammar.Cursor
import Frontend.Grammar.Expr
import Frontend.Grammar.Fault
import Frontend.Grammar.File
import Frontend.Grammar.Full
import Frontend.Grammar.Parser
import Frontend.Grammar.Pattern
import Frontend.Grammar.Promotion
import Frontend.Grammar.Rules
import Frontend.Grammar.Stmt
import Frontend.Grammar.Toplevel
import Frontend.Grammar.TypeExpr
import Frontend.Import.Library
import Frontend.Import.Program
import Frontend.Import.Resolve
import Frontend.Import.Session
import Frontend.Literal
import Frontend.Log
import Frontend.Main
import Frontend.Number.Binary64
import Frontend.Number.Shortest
import Frontend.Path
import Frontend.Position
import Frontend.Proofs.Advances
import Frontend.Proofs.AdvancingBlocks
import Frontend.Proofs.AdvancingExprs
import Frontend.Proofs.AdvancingFiles
import Frontend.Proofs.AdvancingTypes
import Frontend.Proofs.Agreement
import Frontend.Proofs.Alike
import Frontend.Proofs.AlikeBlocks
import Frontend.Proofs.AlikeExprs
import Frontend.Proofs.AlikeFiles
import Frontend.Proofs.AlikeTypes
import Frontend.Proofs.ArrayElements
import Frontend.Proofs.Attempts
import Frontend.Proofs.Bare
import Frontend.Proofs.Buffers
import Frontend.Proofs.Candidates
import Frontend.Proofs.Chains
import Frontend.Proofs.Choices
import Frontend.Proofs.Consumers
import Frontend.Proofs.Contexts
import Frontend.Proofs.Covers
import Frontend.Proofs.Decoding
import Frontend.Proofs.Destructurings
import Frontend.Proofs.Echoes
import Frontend.Proofs.Endings
import Frontend.Proofs.Expansions
import Frontend.Proofs.FaultReports
import Frontend.Proofs.ForHeads
import Frontend.Proofs.Formed
import Frontend.Proofs.Groupings
import Frontend.Proofs.Growth
import Frontend.Proofs.ImportGraph
import Frontend.Proofs.Joins
import Frontend.Proofs.Lexicon
import Frontend.Proofs.LineEnds
import Frontend.Proofs.ListedLines
import Frontend.Proofs.Listings
import Frontend.Proofs.LongestWords
import Frontend.Proofs.Lookahead
import Frontend.Proofs.LooseBlocks
import Frontend.Proofs.LooseCalls
import Frontend.Proofs.LooseDecls
import Frontend.Proofs.LooseExprs
import Frontend.Proofs.LooseFiles
import Frontend.Proofs.LooseLists
import Frontend.Proofs.LoosePatterns
import Frontend.Proofs.LooseRuns
import Frontend.Proofs.LooseStmts
import Frontend.Proofs.LooseStreams
import Frontend.Proofs.LooseTypes
import Frontend.Proofs.NamedExprs
import Frontend.Proofs.NamedFiles
import Frontend.Proofs.NamedTypes
import Frontend.Proofs.Namings
import Frontend.Proofs.NestingExprs
import Frontend.Proofs.NestingTypes
import Frontend.Proofs.Nests
import Frontend.Proofs.Numerals
import Frontend.Proofs.Outcomes
import Frontend.Proofs.ParsedExprs
import Frontend.Proofs.ParsedFiles
import Frontend.Proofs.ParsedTypes
import Frontend.Proofs.Parsings
import Frontend.Proofs.Passes
import Frontend.Proofs.Phrases
import Frontend.Proofs.PlacedBlocks
import Frontend.Proofs.PlacedExprs
import Frontend.Proofs.PlacedFiles
import Frontend.Proofs.PlacedTypes
import Frontend.Proofs.Places
import Frontend.Proofs.Positions
import Frontend.Proofs.Precedence
import Frontend.Proofs.PrintedImports
import Frontend.Proofs.PrintedOnce
import Frontend.Proofs.PromotedWalks
import Frontend.Proofs.QuotedStrings
import Frontend.Proofs.ReadBlocks
import Frontend.Proofs.ReadBranches
import Frontend.Proofs.ReadCalls
import Frontend.Proofs.ReadExprs
import Frontend.Proofs.ReadFiles
import Frontend.Proofs.ReadPatterns
import Frontend.Proofs.ReadStmts
import Frontend.Proofs.ReadTypes
import Frontend.Proofs.ReadWords
import Frontend.Proofs.Reads
import Frontend.Proofs.Reorderings
import Frontend.Proofs.ReportedLines
import Frontend.Proofs.Resolved
import Frontend.Proofs.Retries
import Frontend.Proofs.Rows
import Frontend.Proofs.Searches
import Frontend.Proofs.SharedSessions
import Frontend.Proofs.ShownNames
import Frontend.Proofs.SourceNames
import Frontend.Proofs.SpacedWords
import Frontend.Proofs.SpelledLiterals
import Frontend.Proofs.Spelling
import Frontend.Proofs.Spots
import Frontend.Proofs.Stored
import Frontend.Proofs.Streams
import Frontend.Proofs.StringUnits
import Frontend.Proofs.TailBlocks
import Frontend.Proofs.Targets
import Frontend.Proofs.Tiling
import Frontend.Proofs.TypePhrases
import Frontend.Proofs.Walks
import Frontend.Proofs.Yields
import Frontend.Source
import Frontend.Text.Ordinal
import Frontend.Text.Quoted
import Frontend.Text.Utf8
import Frontend.Token.Basic
import Frontend.Token.Lexeme
import Frontend.Token.Scan
import Frontend.Tree.Basic
import Frontend.Tree.Dump
import Frontend.Tree.Label
import Frontend.Tree.Node
import Frontend.Tree.Walk
import Frontend.Unicode.Alphabetic
import Frontend.Unicode.Numeric
import Frontend.Unicode.Printable
import Frontend.Unicode.Range
import Frontend.Unicode.Whitespace
