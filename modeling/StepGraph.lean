import StepGraph.Chain.Script
import StepGraph.Files
import StepGraph.Main
import StepGraph.Proofs.Chain.Atomicity
import StepGraph.Proofs.Chain.Naming
import StepGraph.Proofs.Chain.RoundTrip
import StepGraph.Proofs.Chain.Scoping
import StepGraph.Run.Engine
import StepGraph.Settings
import StepGraph.Proofs.Param.Walk
import StepGraph.Proofs.Chain.IterationScope
import StepGraph.Proofs.Param.Finite
import StepGraph.Proofs.Chain.Finite
import StepGraph.Proofs.Chain.Settings
import StepGraph.Proofs.Chain.Handles
import StepGraph.Proofs.Document.NormalForm
import StepGraph.Proofs.Chain.Order
import StepGraph.Proofs.Chain.Numbering
import StepGraph.Proofs.Reference.Attribution
import StepGraph.Proofs.Chain.Output
import StepGraph.Proofs.Chain.EmbeddedCode
import StepGraph.Proofs.Settings.Reading
import StepGraph.Proofs.Settings.Session
import StepGraph.Proofs.Chain.IterationCount
import StepGraph.Proofs.Param.Literals
import StepGraph.Proofs.Run.Rewriting
import StepGraph.Proofs.Reference.Segment
import StepGraph.Proofs.Reference.Extension
import StepGraph.Proofs.Reference.NullSafe
import StepGraph.Proofs.Chain.CodeText
import StepGraph.Proofs.Settings.Quoting
import StepGraph.Proofs.Graph.Lines
import StepGraph.Proofs.Document.Building
import StepGraph.Proofs.Settings.Token
import StepGraph.Proofs.Chain.NextName
import StepGraph.Proofs.Chain.LiveText
