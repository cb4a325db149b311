import SourceTally.Main
import SourceTally.Scan.Segment
import SourceTally.Proofs.Basic
import SourceTally.Proofs.Counts
import SourceTally.Proofs.Tally
import SourceTally.Proofs.Text.Lines
import SourceTally.Proofs.Text.Bytes
import SourceTally.Proofs.Text.Utf8
import SourceTally.Proofs.Path.Text
import SourceTally.Proofs.Scan.Rules
import SourceTally.Proofs.Profile.Opening
import SourceTally.Proofs.Scan.Run
import SourceTally.Proofs.Scan.Leave
import SourceTally.Proofs.Scan.Open
import SourceTally.Proofs.Scan.Between
import SourceTally.Proofs.Scan.Tiling
import SourceTally.Proofs.Scan.Inert
import SourceTally.Proofs.Scan.Join
import SourceTally.Proofs.File.Push
import SourceTally.Proofs.File.Header
import SourceTally.Proofs.File.HeaderEntry
import SourceTally.Proofs.File.OpenWarning
import SourceTally.Proofs.File.Report
import SourceTally.Proofs.File.Plain
import SourceTally.Proofs.File.Indent
import SourceTally.Proofs.File.Append
import SourceTally.Proofs.File.Reorder
import SourceTally.Proofs.Registry.History
import SourceTally.Proofs.Discovery
import SourceTally.Proofs.Count.Outcome
import SourceTally.Proofs.Count.Result
import SourceTally.Proofs.Listing
import SourceTally.Proofs.FileTree.Named
import SourceTally.Proofs.Count.Paths
import SourceTally.Proofs.Tally.Merge
import SourceTally.Proofs.Tally.Steps
import SourceTally.Proofs.FileTree.Linkless
import SourceTally.Proofs.Count.Once
import SourceTally.Proofs.Registry.Declared
import SourceTally.Proofs.Scan.Cross
import SourceTally.Proofs.Scan.Nested
import SourceTally.Proofs.Scan.Escaped
import SourceTally.Proofs.Scan.FirstClose
import SourceTally.Proofs.Registry.Resolve
import SourceTally.Proofs.Path.Order
import SourceTally.Proofs.FileTree.Joined
import SourceTally.Proofs.Discovery.Exact
import SourceTally.Proofs.Discovery.FirstFound
import SourceTally.Proofs.File.LineEnds
import SourceTally.Proofs.Line.Visible
import SourceTally.Proofs.Text.Lowercase
import SourceTally.Proofs.Registry.Extension
import SourceTally.Proofs.Line.Edges
import SourceTally.Proofs.Text.Lowered
import SourceTally.Proofs.Profile.RoundTrip
import SourceTally.Proofs.Table.Columns
import SourceTally.Proofs.Table.Width
