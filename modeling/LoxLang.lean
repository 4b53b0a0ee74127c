import LoxLang.Main
import LoxLang.Session.Step
import LoxLang.Token.Listing
import LoxLang.Tree.Label
import LoxLang.Proofs.Grammar
import LoxLang.Proofs.Parser.ExpressionReading
import LoxLang.Proofs.Parser.StatementReading
import LoxLang.Proofs.Parser.Depth
import LoxLang.Proofs.Parser.Exactness
import LoxLang.Proofs.Parser.Attempts
import LoxLang.Proofs.Parser.Progress
import LoxLang.Proofs.Parser.Loops
import LoxLang.Proofs.Parser.Retracing
import LoxLang.Proofs.Parser.LayerRetracing
import LoxLang.Proofs.Parser.DepthRetracing
import LoxLang.Proofs.Parser.Unlimited
import LoxLang.Proofs.Parser.Termination
import LoxLang.Proofs.Parser.Recovery
import LoxLang.Proofs.Parser.Completion
import LoxLang.Proofs.Parser.LayerCompletion
import LoxLang.Proofs.Parser.StatementCompletion
import LoxLang.Proofs.Parser.EarliestError
import LoxLang.Proofs.Scope.Survey
import LoxLang.Proofs.Scope.Retracing
import LoxLang.Proofs.Scope.Layout
import LoxLang.Proofs.Scope.Growth
import LoxLang.Proofs.Scope.Soundness
import LoxLang.Proofs.Scope.ExpressionLayout
import LoxLang.Proofs.Scope.StatementLayout
import LoxLang.Proofs.Run.History
import LoxLang.Proofs.Run.Retracing
import LoxLang.Proofs.Run.World
import LoxLang.Proofs.Run.Safety
import LoxLang.Proofs.Run.Access
import LoxLang.Proofs.Run.Calls
import LoxLang.Proofs.Run.Classes
import LoxLang.Proofs.Run.Soundness
import LoxLang.Proofs.Session.Acceptance
import LoxLang.Proofs.Session.Chronicle
import LoxLang.Proofs.Session.Soundness
import LoxLang.Proofs.Session.Safety
import LoxLang.Proofs.Session.Agreement
import LoxLang.Proofs.Parser.Naturality
import LoxLang.Proofs.Parser.StatementYielding
import LoxLang.Proofs.Renaming.Relation
import LoxLang.Proofs.Renaming.Values
import LoxLang.Proofs.Renaming.Machines
import LoxLang.Proofs.Renaming.Runs
import LoxLang.Proofs.Renaming.Scopes
import LoxLang.Proofs.Renaming.Namings
import LoxLang.Proofs.Scope.Distinct
import LoxLang.Proofs.Renaming.Trees
import LoxLang.Proofs.Lexemes
import LoxLang.Proofs.Renaming.Respelling
import LoxLang.Proofs.Renaming.Sessions
import LoxLang.Proofs.Session.Laid
import LoxLang.Proofs.Renaming.Invariance
import LoxLang.Proofs.Scope.Violations
import LoxLang.Proofs.Scope.Room
import LoxLang.Proofs.Scope.Reporting
import LoxLang.Proofs.Session.Succession
import LoxLang.Proofs.Lexicon.Rules
import LoxLang.Proofs.Lexicon.Placing
import LoxLang.Proofs.Lexicon.Accounting
import LoxLang.Proofs.Lexicon.Spacing
import LoxLang.Proofs.Session.Omission
import LoxLang.Proofs.Session.Return
import LoxLang.Proofs.Session.Verbosity
import LoxLang.Proofs.Scope.Parts
import LoxLang.Proofs.Parser.Naming
import LoxLang.Proofs.Scope.Placement
import LoxLang.Proofs.Scope.Distances
import LoxLang.Proofs.Scope.Descent
import LoxLang.Proofs.Run.Effects
import LoxLang.Proofs.Run.Protocol
import LoxLang.Proofs.Run.Discipline
import LoxLang.Proofs.Run.Observance
import LoxLang.Proofs.Run.Kinship
import LoxLang.Proofs.Run.Lineage
import LoxLang.Proofs.Session.Observance
import LoxLang.Proofs.Session.Inheritance
import LoxLang.Proofs.ForLoop.Direct
import LoxLang.Proofs.ForLoop.Kept
import LoxLang.Proofs.ForLoop.Values
import LoxLang.Proofs.ForLoop.Machines
import LoxLang.Proofs.ForLoop.Runs
import LoxLang.Proofs.ForLoop.Rounds
import LoxLang.Proofs.ForLoop.Unique
import LoxLang.Proofs.ForLoop.Reading
import LoxLang.Proofs.ForLoop.Meaning
import LoxLang.Proofs.Run.Arity
import LoxLang.Proofs.Scope.Outward
import LoxLang.Proofs.Run.Containment
import LoxLang.Proofs.Run.Operands
import LoxLang.Proofs.Session.Containment
import LoxLang.Proofs.Links
import LoxLang.Proofs.Run.Provenance
import LoxLang.Proofs.Run.Derivation
import LoxLang.Proofs.Session.Reaching
import LoxLang.Proofs.Session.Chains
import LoxLang.Proofs.Run.Construction
import LoxLang.Proofs.Session.Initializers
import LoxLang.Proofs.NearestBinding
import LoxLang.Proofs.Lexicon.Taking
import LoxLang.Proofs.Lexicon.LongestMatch
import LoxLang.Proofs.Lexicon.Spellings
import LoxLang.Proofs.Decimal.Rounding
import LoxLang.Proofs.Decimal.ReadingBack
import LoxLang.Proofs.Decimal.Numerals
import LoxLang.Proofs.Decimal.Doubles
import LoxLang.Proofs.Decimal.Printing
import LoxLang.Proofs.Session.PrintedNumbers
import LoxLang.Proofs.TreeLiterals
import LoxLang.Proofs.Notation.NestedLists
import LoxLang.Proofs.Notation.Nesting
import LoxLang.Proofs.Notation.Reading
import LoxLang.Proofs.Notation.Words
import LoxLang.Proofs.Notation.Expressions
import LoxLang.Proofs.Notation.Statements
import LoxLang.Proofs.Notation.Faithfulness
import LoxLang.Proofs.Scope.Restoration
import LoxLang.Proofs.Text.Rows
import LoxLang.Proofs.CommandLine.Breaks
import LoxLang.Proofs.Report.Illustrations
