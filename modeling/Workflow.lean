import Workflow.Action.Composite
import Workflow.Action.Identity
import Workflow.Action.Raw
import Workflow.Action.State
import Workflow.Action.Variable
import Workflow.Binary64.Basic
import Workflow.Binary64.Decimal
import Workflow.Command
import Workflow.Condition.Basic
import Workflow.Condition.Error
import Workflow.Condition.Expression
import Workflow.Condition.Postfix
import Workflow.Condition.Schema
import Workflow.Condition.Token
import Workflow.Flow.Build
import Workflow.Flow.Definition
import Workflow.Flow.Definition.OfJson
import Workflow.Flow.Definition.OfYaml
import Workflow.Flow.Document
import Workflow.Flow.Error
import Workflow.Flow.File
import Workflow.Graph.Basic
import Workflow.Graph.Copy
import Workflow.Graph.Fields
import Workflow.Graph.FreeName
import Workflow.Graph.Insert
import Workflow.Graph.Registry
import Workflow.Graph.Summary
import Workflow.Json.Basic
import Workflow.Json.Number
import Workflow.Json.Reader
import Workflow.Json.Text
import Workflow.Main
import Workflow.Text.Alphabetic
import Workflow.Text.Debug
import Workflow.Text.Digits
import Workflow.Text.Numeric
import Workflow.Text.Ranges
import Workflow.Text.Unprinted
import Workflow.Yaml.Cursor
import Workflow.Yaml.Document
import Workflow.Yaml.Layout
import Workflow.Yaml.Node
import Workflow.Yaml.Property
import Workflow.Yaml.Scalar
import Workflow.Yaml.Tag
import Workflow.Yaml.Token
import Workflow.Yaml.Value
import Workflow.Proofs.FreeName
import Workflow.Proofs.Graph.Insertion
import Workflow.Proofs.Graph.Splice
import Workflow.Proofs.Graph.Copy
import Workflow.Proofs.Graph.Reachable
import Workflow.Proofs.Graph.Fields
import Workflow.Proofs.Graph.Nested
import Workflow.Proofs.Graph.Anonymous
import Workflow.Proofs.Graph.Merge
import Workflow.Proofs.Graph.Continuation
import Workflow.Proofs.Condition.Grammar
import Workflow.Proofs.Condition.Token
import Workflow.Proofs.Condition.Postfix
import Workflow.Proofs.Condition.Infix
import Workflow.Proofs.Condition.Schema
import Workflow.Proofs.Condition.Spacing
import Workflow.Proofs.Condition.Lexeme
import Workflow.Proofs.Condition.Printing
import Workflow.Proofs.Flow.Building
import Workflow.Proofs.Flow.Reading
import Workflow.Proofs.Flow.Buildable
import Workflow.Proofs.Flow.Declarations
import Workflow.Proofs.Graph.Forest
import Workflow.Proofs.Graph.Outline
import Workflow.Proofs.Graph.Identity
import Workflow.Proofs.Graph.Replay
import Workflow.Proofs.Graph.Site
import Workflow.Proofs.Flow.Postorder
import Workflow.Proofs.Flow.Refusal
import Workflow.Proofs.Flow.Extension
import Workflow.Proofs.Flow.Identity
import Workflow.Proofs.Condition.Offence
import Workflow.Proofs.Condition.Spelling
import Workflow.Proofs.Flow.Reference
import Workflow.Proofs.Condition.Balance
import Workflow.Proofs.Condition.Group
import Workflow.Proofs.Condition.Negation
import Workflow.Proofs.Condition.Assembly
import Workflow.Proofs.Condition.Word
import Workflow.Proofs.Condition.Surroundings
import Workflow.Proofs.Condition.Constant
import Workflow.Proofs.Condition.Integer
import Workflow.Proofs.Graph.Growth
import Workflow.Proofs.Graph.Appending
import Workflow.Proofs.Graph.Export
import Workflow.Proofs.Dependency
import Workflow.Proofs.Graph.Reuse
import Workflow.Proofs.Renaming
import Workflow.Proofs.Json.Update
