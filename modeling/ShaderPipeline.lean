import ShaderPipeline.CommandLine
import ShaderPipeline.FileTree
import ShaderPipeline.Main
import ShaderPipeline.Proofs.Macro.Rescan
import ShaderPipeline.Proofs.Macro.Machine
import ShaderPipeline.Proofs.Macro.Append
import ShaderPipeline.Proofs.Macro.Origin
import ShaderPipeline.Proofs.Preprocess.TextRun
import ShaderPipeline.Proofs.Preprocess.Verbatim
import ShaderPipeline.Proofs.Text.Clean
import ShaderPipeline.Proofs.Preprocess.Written
import ShaderPipeline.Proofs.Preprocess.Effect
import ShaderPipeline.Proofs.LineNumber
import ShaderPipeline.Proofs.Preprocess.Progress
import ShaderPipeline.Proofs.Text.Strip
import ShaderPipeline.Proofs.Stage.Scan
import ShaderPipeline.Proofs.Stage.Numbering
import ShaderPipeline.Proofs.Preamble.Removal
import ShaderPipeline.Proofs.Preamble.Items
import ShaderPipeline.Proofs.Stage.Agreement
import ShaderPipeline.Proofs.Condition.Grammar
import ShaderPipeline.Proofs.Condition.Value
import ShaderPipeline.Proofs.Preprocess.Blocks
import ShaderPipeline.Proofs.Preprocess.Act
import ShaderPipeline.Proofs.Version
import ShaderPipeline.Proofs.Preprocess.InForce
import ShaderPipeline.Proofs.Token.Lexemes
import ShaderPipeline.Proofs.Macro.Printing
import ShaderPipeline.Proofs.Preprocess.After
import ShaderPipeline.Proofs.Preamble.Definitions
import ShaderPipeline.Proofs.Preamble.Anchor
import ShaderPipeline.Proofs.Compile.Preparation
import ShaderPipeline.Proofs.Compile.PlainText
import ShaderPipeline.Proofs.Compile.Agreement
import ShaderPipeline.Proofs.Diagnostic.Counting
import ShaderPipeline.Proofs.Compile.Exchange
import ShaderPipeline.Proofs.Compile.Course
import ShaderPipeline.Proofs.Compile.Protocol
import ShaderPipeline.Proofs.Compile.Totals
import ShaderPipeline.Proofs.Compile.StageChoice
import ShaderPipeline.Proofs.Diagnostic.Decoding
import ShaderPipeline.Proofs.Preprocess.Causes
import ShaderPipeline.Proofs.Preprocess.Faults
import ShaderPipeline.Proofs.Preprocess.Report
import ShaderPipeline.Proofs.Preamble.Layout
import ShaderPipeline.Proofs.Compile.Independence
import ShaderPipeline.Proofs.Preprocess.Inactive
import ShaderPipeline.Proofs.Preprocess.Predefined
import ShaderPipeline.Proofs.Preprocess.Nesting
import ShaderPipeline.Proofs.Stage.Inference
import ShaderPipeline.Proofs.Macro.Objects
import ShaderPipeline.Proofs.Macro.Calls
import ShaderPipeline.Proofs.Macro.Reachable
import ShaderPipeline.Proofs.Macro.SelfReference
import ShaderPipeline.Proofs.Condition.Guarded
import ShaderPipeline.Proofs.Text.Comments
import ShaderPipeline.Proofs.Preprocess.Quoted
import ShaderPipeline.Proofs.Token.Canonical
import ShaderPipeline.Proofs.Macro.Redefinition
import ShaderPipeline.Proofs.Diagnostic.Policies
import ShaderPipeline.Proofs.Stage.Spacing
import ShaderPipeline.Proofs.Condition.Literal
import ShaderPipeline.Proofs.FileSearch
import ShaderPipeline.Proofs.CommandLine.Faults
import ShaderPipeline.Proofs.Preprocess.Definedness
import ShaderPipeline.Proofs.Text.BlockComment
import ShaderPipeline.Proofs.Compile.Writing
import ShaderPipeline.Proofs.Toolchain.Links
import ShaderPipeline.Proofs.CommandLine.Attempts
import ShaderPipeline.Proofs.Text.Openers
import ShaderPipeline.Proofs.Text.LineStart
import ShaderPipeline.Proofs.Version.Grammar
import ShaderPipeline.Proofs.Macro.Disabled
import ShaderPipeline.Proofs.Text.Partition
import ShaderPipeline.Proofs.LineNumber.Saturation
import ShaderPipeline.Proofs.Preprocess.Parameters
