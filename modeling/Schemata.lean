import Schemata.Main
import Schemata.Schema.Equality
import Schemata.Schema.Spec
import Schemata.Proofs.Fields
import Schemata.Proofs.Json.Same
import Schemata.Proofs.Fault
import Schemata.Proofs.Merge.Rules
import Schemata.Proofs.Schema.Nodes
import Schemata.Proofs.Json.Order
import Schemata.Proofs.Json.Equivalence
import Schemata.Proofs.Merge.Defined
import Schemata.Proofs.Schema.Enrich
import Schemata.Proofs.Schema.Conforms
import Schemata.Proofs.Merge.Coverage
import Schemata.Proofs.Merge.Places
import Schemata.Proofs.Merge.Permuted
import Schemata.Proofs.Occurrence.Counts
import Schemata.Proofs.Merge.RequiredFields
import Schemata.Proofs.Schema.Load
import Schemata.Proofs.Merge.Regular
import Schemata.Proofs.Schema.RoundTrip
import Schemata.Proofs.Expression.Regular
import Schemata.Proofs.Produced
import Schemata.Proofs.Expression.Balanced
import Schemata.Proofs.Expression.Names
import Schemata.Proofs.Expression.Grammar
import Schemata.Proofs.Expression.Forms
import Schemata.Proofs.Expression.ReadPrint
import Schemata.Proofs.Schema.LoadFaults
import Schemata.Proofs.Expression.Memory
import Schemata.Proofs.Schema.Checked
import Schemata.Proofs.Schema.Origin
import Schemata.Proofs.Merge.Faults
import Schemata.Proofs.Occurrence.Candidates
import Schemata.Proofs.Merge.ClosedSets
import Schemata.Proofs.Expression.Total
import Schemata.Proofs.Expression.Depth
import Schemata.Proofs.Json.Place
import Schemata.Proofs.Schema.RefusedPlace
import Schemata.Proofs.Expression.Answered
import Schemata.Proofs.RequiredOnce
import Schemata.Proofs.Schema.Same
import Schemata.Proofs.Merge.EqualSamples
import Schemata.Proofs.CommandLine.Silent
import Schemata.Proofs.CommandLine.AllOrNothing
import Schemata.Proofs.Expression.Cuts
import Schemata.Proofs.Expression.Wrapped
import Schemata.Proofs.Merge.Ranges
import Schemata.Proofs.Merge.StringValues
import Schemata.Proofs.Merge.OneByOne
import Schemata.Proofs.Schema.Enriched
import Schemata.Proofs.Occurrence.Additive
import Schemata.Proofs.Occurrence.Positions
import Schemata.Proofs.Schema.Untagged
import Schemata.Proofs.Schema.BesideNull
import Schemata.Proofs.Schema.ReadPlaces
import Schemata.Proofs.Schema.Normalised
import Schemata.Proofs.Expression.Within
import Schemata.Proofs.Expression.Nullable
import Schemata.Proofs.Expression.Overrides
import Schemata.Proofs.Expression.Arguments
import Schemata.Proofs.Expression.Applied
import Schemata.Proofs.Expression.Height
import Schemata.Proofs.Schema.AnyPath
import Schemata.Proofs.CommandLine.Printed
import Schemata.Proofs.CommandLine.Gathered
import Schemata.Proofs.Expression.Passes
import Schemata.Proofs.Deduplicated
import Schemata.Proofs.ReportBlocks
