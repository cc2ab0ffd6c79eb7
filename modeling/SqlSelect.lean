import SqlSelect.Config.Search
import SqlSelect.Program.Run
import SqlSelect.Schema.Samples
import SqlSelect.Proofs.Layout
import SqlSelect.Proofs.Drawing
import SqlSelect.Proofs.Texts
import SqlSelect.Proofs.Modes
import SqlSelect.Proofs.Glyphs
import SqlSelect.Proofs.References
import SqlSelect.Proofs.Readability
import SqlSelect.Proofs.Lines
import SqlSelect.Proofs.Literals
import SqlSelect.Proofs.Alike
import SqlSelect.Proofs.FirstSources
import SqlSelect.Proofs.Rows
import SqlSelect.Proofs.Quoting
import SqlSelect.Proofs.Leaves
import SqlSelect.Proofs.Clauses
import SqlSelect.Proofs.Outputs
import SqlSelect.Proofs.Lookups
import SqlSelect.Proofs.Calls
import SqlSelect.Proofs.Builders
import SqlSelect.Proofs.Placeholders
import SqlSelect.Proofs.Effects
import SqlSelect.Proofs.Generators
import SqlSelect.Proofs.Snapshots
import SqlSelect.Proofs.Decoding
import SqlSelect.Proofs.Registry
import SqlSelect.Proofs.NearestFile
import SqlSelect.Proofs.ReadDocuments
import SqlSelect.Proofs.Escaping
import SqlSelect.Proofs.Placement
import SqlSelect.Proofs.WriterText
