import FormRouting.Binary64
import FormRouting.Callable
import FormRouting.CommandLine.Arguments
import FormRouting.CommandLine.Run
import FormRouting.Comparator
import FormRouting.Compilation
import FormRouting.Condition
import FormRouting.Decimal.Round
import FormRouting.Decimal.Shortest
import FormRouting.Decimal.Text
import FormRouting.Decode.Condition
import FormRouting.Decode.Error
import FormRouting.Decode.Record
import FormRouting.Decode.Rule
import FormRouting.Decode.Selector
import FormRouting.Decode.Text
import FormRouting.Decode.Values
import FormRouting.Definition
import FormRouting.Diagnostic
import FormRouting.FieldSet
import FormRouting.FieldValues
import FormRouting.Graph
import FormRouting.Graph.Dot
import FormRouting.Graph.Json
import FormRouting.Json.Label
import FormRouting.Json.Number
import FormRouting.Json.Printer
import FormRouting.Json.Text
import FormRouting.Json.Value
import FormRouting.Load
import FormRouting.Main
import FormRouting.Notice
import FormRouting.Proofs.Accepted.Condition
import FormRouting.Proofs.Accepted.StepMap
import FormRouting.Proofs.Binding.Callables
import FormRouting.Proofs.Binding.Complete
import FormRouting.Proofs.Binding.Drawing
import FormRouting.Proofs.Binding.LateLookup
import FormRouting.Proofs.Binding.Untouched
import FormRouting.Proofs.ByName
import FormRouting.Proofs.ContentKeys
import FormRouting.Proofs.Dependence
import FormRouting.Proofs.DottedLookup
import FormRouting.Proofs.Drawing
import FormRouting.Proofs.Expansion
import FormRouting.Proofs.FirstMatch
import FormRouting.Proofs.FirstMention
import FormRouting.Proofs.Labelable
import FormRouting.Proofs.Lossless
import FormRouting.Proofs.NodeOrder
import FormRouting.Proofs.NormalTargets
import FormRouting.Proofs.OpenConditions
import FormRouting.Proofs.PlainNames
import FormRouting.Proofs.StepLocality
import FormRouting.Proofs.UnrelatedWrite
import FormRouting.Proofs.WellDrawn
import FormRouting.Proofs.Written.Condition
import FormRouting.Proofs.Written.Selector
import FormRouting.Proofs.Written.StepMap
import FormRouting.Proofs.Written.Value
import FormRouting.Registry
import FormRouting.Resolution
import FormRouting.Rule
import FormRouting.Selector
import FormRouting.Table
import FormRouting.Text.Digit
import FormRouting.Text.Shown
import FormRouting.Text.Unprintable
import FormRouting.Trace
import FormRouting.Tree
import FormRouting.Yaml.Anchor
import FormRouting.Yaml.Cursor
import FormRouting.Yaml.Document
import FormRouting.Yaml.Expansion
import FormRouting.Yaml.Lexer
import FormRouting.Yaml.Marks
import FormRouting.Yaml.Node
import FormRouting.Yaml.Scalar
import FormRouting.Yaml.Text.Block
import FormRouting.Yaml.Text.Gap
import FormRouting.Yaml.Text.Plain
import FormRouting.Yaml.Text.Quoted
import FormRouting.Yaml.Token
import FormRouting.Proofs.Binding.Order
import FormRouting.Proofs.Binding.Stop
import FormRouting.Proofs.Binding.Retry
import FormRouting.Proofs.Binding.Stack
import FormRouting.Proofs.Comparison.SameValue
import FormRouting.Proofs.Comparison.Bytes
import FormRouting.Proofs.Comparison.Ordering
import FormRouting.Proofs.Comparison.LooseEquality
import FormRouting.Proofs.Comparison.Rounding
import FormRouting.Proofs.Comparison.WholeNumbers
import FormRouting.Proofs.Comparison.PassedBy
import FormRouting.Proofs.Repeated.Insertion
import FormRouting.Proofs.Repeated.Value
import FormRouting.Proofs.Repeated.Condition
import FormRouting.Proofs.Repeated.StepMap
import FormRouting.Proofs.ArrayLabels
import FormRouting.Proofs.GraphCalls
import FormRouting.Proofs.WrittenLabels
