import InkSyntax.Command.Arguments
import InkSyntax.Command.Help
import InkSyntax.Command.Report
import InkSyntax.Comment
import InkSyntax.Decimal.Binary32
import InkSyntax.Decimal.Notation
import InkSyntax.Decimal.Shortest
import InkSyntax.Diagnostic
import InkSyntax.Excerpt
import InkSyntax.Failure
import InkSyntax.Fault
import InkSyntax.Files.Disk
import InkSyntax.Files.Library
import InkSyntax.Files.Path
import InkSyntax.Grammar.Argument
import InkSyntax.Grammar.Brace
import InkSyntax.Grammar.Choice
import InkSyntax.Grammar.Conditional
import InkSyntax.Grammar.Craft
import InkSyntax.Grammar.Declaration
import InkSyntax.Grammar.Divert
import InkSyntax.Grammar.Expression
import InkSyntax.Grammar.Flow
import InkSyntax.Grammar.Inclusion
import InkSyntax.Grammar.Lexeme
import InkSyntax.Grammar.Logic
import InkSyntax.Grammar.Prose
import InkSyntax.Grammar.Script
import InkSyntax.Grammar.Sequence
import InkSyntax.Grammar.Statement
import InkSyntax.Grammar.Workshop
import InkSyntax.Json.Reader
import InkSyntax.Json.Value
import InkSyntax.Json.Writer
import InkSyntax.Machine.Cursor
import InkSyntax.Machine.Recipe
import InkSyntax.Machine.Repetition
import InkSyntax.Machine.Rule
import InkSyntax.Machine.RuleStack
import InkSyntax.Machine.Run
import InkSyntax.Machine.Scanner
import InkSyntax.Main
import InkSyntax.Options
import InkSyntax.Options.Reading
import InkSyntax.Proofs.CarriageReturns
import InkSyntax.Proofs.CommentFree
import InkSyntax.Proofs.Comments
import InkSyntax.Proofs.Files.Paths
import InkSyntax.Proofs.Grammar.Additions
import InkSyntax.Proofs.Grammar.AdvancingRules
import InkSyntax.Proofs.Grammar.ArrangedStatements
import InkSyntax.Proofs.Grammar.Arranging
import InkSyntax.Proofs.Grammar.Asking
import InkSyntax.Proofs.Grammar.Building
import InkSyntax.Proofs.Grammar.CastBuilding
import InkSyntax.Proofs.Grammar.CastExpressions
import InkSyntax.Proofs.Grammar.CastStatements
import InkSyntax.Proofs.Grammar.CastTrees
import InkSyntax.Proofs.Grammar.Casting
import InkSyntax.Proofs.Grammar.ChainTargets
import InkSyntax.Proofs.Grammar.ChoiceMark
import InkSyntax.Proofs.Grammar.Composition
import InkSyntax.Proofs.Grammar.ConsumingRules
import InkSyntax.Proofs.Grammar.ExpressionTrees
import InkSyntax.Proofs.Grammar.HeaderText
import InkSyntax.Proofs.Grammar.Joining
import InkSyntax.Proofs.Grammar.Lookahead
import InkSyntax.Proofs.Grammar.Operations
import InkSyntax.Proofs.Grammar.Ownership
import InkSyntax.Proofs.Grammar.PlainRules
import InkSyntax.Proofs.Grammar.StatementLookahead
import InkSyntax.Proofs.Grammar.StatementTrees
import InkSyntax.Proofs.Grammar.TagCarrying
import InkSyntax.Proofs.Grammar.TagExpressions
import InkSyntax.Proofs.Grammar.TagProse
import InkSyntax.Proofs.Grammar.TagStatements
import InkSyntax.Proofs.Grammar.Trees
import InkSyntax.Proofs.Grammar.WholeScripts
import InkSyntax.Proofs.Grammar.Yields
import InkSyntax.Proofs.Machine.Allocation
import InkSyntax.Proofs.Machine.Alternation
import InkSyntax.Proofs.Machine.CheckpointStacks
import InkSyntax.Proofs.Machine.Completion
import InkSyntax.Proofs.Machine.Consumption
import InkSyntax.Proofs.Machine.Cursors
import InkSyntax.Proofs.Machine.Guarantee
import InkSyntax.Proofs.Machine.HostInvariants
import InkSyntax.Proofs.Machine.Numerals
import InkSyntax.Proofs.Machine.Outcome
import InkSyntax.Proofs.Machine.Performing
import InkSyntax.Proofs.Machine.Progress
import InkSyntax.Proofs.Machine.RawScans
import InkSyntax.Proofs.Machine.Resemblance
import InkSyntax.Proofs.Machine.Rollback
import InkSyntax.Proofs.Machine.ScannedTexts
import InkSyntax.Proofs.Machine.ScopeReports
import InkSyntax.Proofs.Machine.Separation
import InkSyntax.Proofs.Machine.Steps
import InkSyntax.Proofs.Machine.Stretches
import InkSyntax.Proofs.Machine.TextEnds
import InkSyntax.Proofs.Reading.Alternations
import InkSyntax.Proofs.Reading.BarredContent
import InkSyntax.Proofs.Reading.Barriers
import InkSyntax.Proofs.Reading.Branches
import InkSyntax.Proofs.Reading.ChoiceMark
import InkSyntax.Proofs.Reading.CleanRuns
import InkSyntax.Proofs.Reading.Complaints
import InkSyntax.Proofs.Reading.Deliveries
import InkSyntax.Proofs.Reading.DescribedTerms
import InkSyntax.Proofs.Reading.DescriptionsReadBack
import InkSyntax.Proofs.Reading.DivertChains
import InkSyntax.Proofs.Reading.EscapedText
import InkSyntax.Proofs.Reading.FailedRules
import InkSyntax.Proofs.Reading.Faults
import InkSyntax.Proofs.Reading.FlowHeaders
import InkSyntax.Proofs.Reading.Headers
import InkSyntax.Proofs.Reading.IncludedReadings
import InkSyntax.Proofs.Reading.InfixChains
import InkSyntax.Proofs.Reading.Law
import InkSyntax.Proofs.Reading.LineEnds
import InkSyntax.Proofs.Reading.Lines
import InkSyntax.Proofs.Reading.ListDeclarations
import InkSyntax.Proofs.Reading.OpenFiles
import InkSyntax.Proofs.Reading.Operands
import InkSyntax.Proofs.Reading.Operators
import InkSyntax.Proofs.Reading.OutlineLines
import InkSyntax.Proofs.Reading.Pages
import InkSyntax.Proofs.Reading.Parentheses
import InkSyntax.Proofs.Reading.PlainDepth
import InkSyntax.Proofs.Reading.Quiet
import InkSyntax.Proofs.Reading.Reporting
import InkSyntax.Proofs.Reading.Resemblance
import InkSyntax.Proofs.Reading.ScopeDepth
import InkSyntax.Proofs.Reading.Sheets
import InkSyntax.Proofs.Reading.Signs
import InkSyntax.Proofs.Reading.SilencedErrors
import InkSyntax.Proofs.Reading.SilentLookahead
import InkSyntax.Proofs.Reading.SingleStatements
import InkSyntax.Proofs.Reading.Site
import InkSyntax.Proofs.Reading.StackRoom
import InkSyntax.Proofs.Reading.StatementHeads
import InkSyntax.Proofs.Reading.StoryShapes
import InkSyntax.Proofs.Reading.StoryTrees
import InkSyntax.Proofs.Reading.Supplies
import InkSyntax.Proofs.Reading.TagBalance
import InkSyntax.Proofs.Reading.TagEnds
import InkSyntax.Proofs.Reading.Termination
import InkSyntax.Proofs.Reading.WholeWords
import InkSyntax.Proofs.Reading.Words
import InkSyntax.Proofs.Story.Arms
import InkSyntax.Proofs.Story.CastWeaving
import InkSyntax.Proofs.Story.Casting
import InkSyntax.Proofs.Story.Forest
import InkSyntax.Proofs.Story.Freezing
import InkSyntax.Proofs.Story.FrozenGathers
import InkSyntax.Proofs.Story.Grouping
import InkSyntax.Proofs.Story.Growth
import InkSyntax.Proofs.Story.Kinds
import InkSyntax.Proofs.Story.Labels
import InkSyntax.Proofs.Story.Nesting
import InkSyntax.Proofs.Story.Numbering
import InkSyntax.Proofs.Story.Outlines
import InkSyntax.Proofs.Story.PlainContent
import InkSyntax.Proofs.Story.Preorder
import InkSyntax.Proofs.Story.Rejoining
import InkSyntax.Proofs.Story.Renumbering
import InkSyntax.Proofs.Story.Roles
import InkSyntax.Proofs.Story.Schema
import InkSyntax.Proofs.Story.SeenSpans
import InkSyntax.Proofs.Story.Spans
import InkSyntax.Proofs.Story.TagTurns
import InkSyntax.Proofs.Story.Terms
import InkSyntax.Proofs.Story.Weaving
import InkSyntax.Proofs.Text.CharBlocks
import InkSyntax.Proofs.Text.LineRanges
import InkSyntax.Proofs.Text.Unbroken
import InkSyntax.Reading
import InkSyntax.Story.Basic
import InkSyntax.Story.Describe
import InkSyntax.Story.Draft
import InkSyntax.Story.Freeze
import InkSyntax.Story.Location
import InkSyntax.Story.Node
import InkSyntax.Story.Outline
import InkSyntax.Story.Structured
import InkSyntax.Story.Weave
import InkSyntax.Text.Alphabet
import InkSyntax.Text.Blank
import InkSyntax.Text.CharSet
import InkSyntax.Text.Digit
import InkSyntax.Text.Line
import InkSyntax.Text.Printable
import InkSyntax.Text.Quoted
import InkSyntax.Yaml.Character
import InkSyntax.Yaml.Lexer
import InkSyntax.Yaml.Scalar
import InkSyntax.Yaml.Tag
import InkSyntax.Yaml.Token
import InkSyntax.Yaml.Value
