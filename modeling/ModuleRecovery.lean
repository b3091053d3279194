import ModuleRecovery.Text.Blank
import ModuleRecovery.Text.Cut
import ModuleRecovery.Collections.OrderedMap
import ModuleRecovery.Collections.Pairs
import ModuleRecovery.Graph.Directed
import ModuleRecovery.Graph.Weighted
import ModuleRecovery.Owner.Resolver
import ModuleRecovery.Analysis
import ModuleRecovery.Decimal.Reader
import ModuleRecovery.Dot.Report
import ModuleRecovery.Json.Reader
import ModuleRecovery.Json.Writer
import ModuleRecovery.Model.Document
import ModuleRecovery.Report.Reader
import ModuleRecovery.Settings.File
import ModuleRecovery.Main
import ModuleRecovery.Proofs.Analysis
import ModuleRecovery.Proofs.Clustering.SingleLinkage
import ModuleRecovery.Proofs.Coupling.Table
import ModuleRecovery.Proofs.Partition.Cut
import ModuleRecovery.Proofs.Text.Trim
import ModuleRecovery.Proofs.Clustering.Shape
import ModuleRecovery.Proofs.Owner.MethodLabel
import ModuleRecovery.Proofs.Number.Nonnegative
import ModuleRecovery.Proofs.Partition.Average
import ModuleRecovery.Proofs.Partition.FrontierCut
import ModuleRecovery.Proofs.Coupling.Graph
import ModuleRecovery.Proofs.CallGraph.Denotation
import ModuleRecovery.Proofs.Coupling.MethodEdges
import ModuleRecovery.Proofs.Partition.Threshold
import ModuleRecovery.Proofs.Clustering.CompleteLinkage
import ModuleRecovery.Proofs.Coupling.Accounting
import ModuleRecovery.Proofs.Clustering.GreedyTrees
import ModuleRecovery.Proofs.Rearrangement
import ModuleRecovery.Proofs.Decimal.Layout
import ModuleRecovery.Proofs.Json.Number
import ModuleRecovery.Proofs.Json.Reader
import ModuleRecovery.Proofs.Report.Reader
import ModuleRecovery.Proofs.Report.Dendrogram
import ModuleRecovery.Proofs.Report.RoundTrip
import ModuleRecovery.Proofs.CallGraph.ProjectPart
import ModuleRecovery.Proofs.Outcome
import ModuleRecovery.Proofs.CommandLine.Run
import ModuleRecovery.Proofs.Clustering.Ranking
import ModuleRecovery.Proofs.Owner.SimpleNames
import ModuleRecovery.Proofs.Owner.Candidate
import ModuleRecovery.Proofs.Dot.CallGraph
import ModuleRecovery.Proofs.Dot.Dendrogram
import ModuleRecovery.Proofs.Graph.DirectedHistory
import ModuleRecovery.Proofs.Graph.WeightedHistory
import ModuleRecovery.Proofs.Graph.Listing
import ModuleRecovery.Proofs.Model.Nameless
import ModuleRecovery.Proofs.Model.Registration
import ModuleRecovery.Proofs.Json.Notation
import ModuleRecovery.Proofs.Model.Layout
import ModuleRecovery.Proofs.Collections.Insertions
import ModuleRecovery.Proofs.Clustering.SimilarityRows
import ModuleRecovery.Proofs.Clustering.Heights
