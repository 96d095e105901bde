import FlowNotation.Descriptor
import FlowNotation.Graph
import FlowNotation.Main
import FlowNotation.Proofs.Reachability
import FlowNotation.Proofs.Readings
import FlowNotation.Proofs.SessionCalls
import FlowNotation.Proofs.WellBuilt
import FlowNotation.Proofs.NextStates
import FlowNotation.Proofs.Problems
import FlowNotation.Proofs.SessionReach
import FlowNotation.Proofs.ValidSessions
import FlowNotation.Proofs.Endings
import FlowNotation.Proofs.Retrace
import FlowNotation.Proofs.Fields
import FlowNotation.Proofs.Documents
import FlowNotation.Proofs.Grammar
import FlowNotation.Proofs.Rendering
import FlowNotation.Proofs.AnswerReach
import FlowNotation.Proofs.DepthFirst
import FlowNotation.Proofs.ProblemLists
import FlowNotation.Proofs.AnswerLog
import FlowNotation.Proofs.Mending
import FlowNotation.Proofs.Ordering
import FlowNotation.Proofs.Pools
import FlowNotation.Proofs.SourceFiles
import FlowNotation.Proofs.Loads
import FlowNotation.Proofs.CatalogCalls
import FlowNotation.Proofs.Lexing
import FlowNotation.Proofs.Escapes
import FlowNotation.Proofs.FlowSteps
import FlowNotation.Proofs.FlowTokens
import FlowNotation.Proofs.Assembling
import FlowNotation.Proofs.FlowTrees
import FlowNotation.Proofs.Words
import FlowNotation.Proofs.OutlineSteps
import FlowNotation.Proofs.OutlineTokens
import FlowNotation.Proofs.OutlineTrees
import FlowNotation.Proofs.WrittenNotations
import FlowNotation.Proofs.Checks
import FlowNotation.Proofs.Shadowing
import FlowNotation.Proofs.Steering
import FlowNotation.Proofs.ReachableParts
import FlowNotation.Proofs.RecursiveSearch
import FlowNotation.Proofs.Walkthroughs
import FlowNotation.Proofs.ValidationPass
import FlowNotation.Proofs.ShadowReports
import FlowNotation.Proofs.Presentation
import FlowNotation.Proofs.Placeholders
import FlowNotation.Proofs.StateIds
import FlowNotation.Proofs.DocumentBlocks
import FlowNotation.Proofs.SourceNames
import FlowNotation.Proofs.LoadOrder
import FlowNotation.Proofs.QuestionRows
import FlowNotation.Proofs.QuestionLoads
import FlowNotation.Proofs.Closures
