import Scaffold.Main
import Scaffold.Proofs.Template.Matching
import Scaffold.Proofs.Template.Nesting
import Scaffold.Proofs.Template.Visibility
import Scaffold.Proofs.Template.Lines
import Scaffold.Proofs.Template.BlankLines
import Scaffold.Proofs.Template.Substitution
import Scaffold.Proofs.Template.Chunk
import Scaffold.Proofs.Condition.Derivation
import Scaffold.Proofs.Condition.Reading
import Scaffold.Proofs.Condition.Grammar
import Scaffold.Proofs.Condition.Spelling
import Scaffold.Proofs.File.Components
import Scaffold.Proofs.Generation.Containment
import Scaffold.Proofs.Condition.Display
import Scaffold.Proofs.Condition.Parenthesized
import Scaffold.Proofs.Generation.Skipping
import Scaffold.Proofs.File.Route
import Scaffold.Proofs.Generation.Growth
import Scaffold.Proofs.File.Names
import Scaffold.Proofs.Generation.Opening
import Scaffold.Proofs.Generation.Walking
import Scaffold.Proofs.Program.Preparation
import Scaffold.Proofs.Program.Overwriting
import Scaffold.Proofs.Generation.Listing
import Scaffold.Proofs.Generation.Visiting
import Scaffold.Proofs.Generation.Apart
import Scaffold.Proofs.Template.Lookups
import Scaffold.Proofs.Template.Composition
import Scaffold.Proofs.Template.Hidden
import Scaffold.Proofs.Answers.Given
import Scaffold.Proofs.Json.Order
import Scaffold.Proofs.Table
import Scaffold.Proofs.Answers.Session
import Scaffold.Proofs.Answers.Precedence
import Scaffold.Proofs.Generation.Warnings
import Scaffold.Proofs.Answers.Rounds
import Scaffold.Proofs.Answers.RoundTrip
import Scaffold.Proofs.File.Straight
import Scaffold.Proofs.Generation.Ending
import Scaffold.Proofs.Generation.Vacant
import Scaffold.Proofs.Generation.Ordering
import Scaffold.Proofs.Generation.Deciding
import Scaffold.Proofs.Generation.History
import Scaffold.Proofs.Generation.Accounting
import Scaffold.Proofs.Answers.Printing
import Scaffold.Proofs.Program.Failing
import Scaffold.Proofs.Questionnaire.FlagNames
import Scaffold.Proofs.Template.References
import Scaffold.Proofs.Condition.Faults
import Scaffold.Proofs.Template.DirectiveLines
import Scaffold.Proofs.Template.BlankRuns
import Scaffold.Proofs.Template.PlainText
import Scaffold.Proofs.Template.Conditions
import Scaffold.Proofs.Generation.Checks
import Scaffold.Proofs.Template.Segments
import Scaffold.Proofs.Template.Replacement
import Scaffold.Proofs.Ignore.Rules
import Scaffold.Proofs.Ignore.Standard
import Scaffold.Proofs.Generation.Ignoring
import Scaffold.Proofs.Answers.Replies
import Scaffold.Proofs.Answers.NameShape
import Scaffold.Proofs.Program.ProjectNames
import Scaffold.Proofs.Boundaries
import Scaffold.Proofs.Condition.Tokens
import Scaffold.Proofs.Template.Buffer
import Scaffold.Proofs.Template.LineNumbers
