import HalfBinary.Host.Disk
import HalfBinary.Main
import HalfBinary.Session
import HalfBinary.Proofs.Grammar
import HalfBinary.Proofs.Parsing
import HalfBinary.Proofs.Decimals
import HalfBinary.Proofs.Meaning
import HalfBinary.Proofs.Spelling
import HalfBinary.Proofs.Pieces
import HalfBinary.Proofs.Segments
import HalfBinary.Proofs.FaultSites
import HalfBinary.Proofs.Utf8
import HalfBinary.Proofs.Bytewise
import HalfBinary.Proofs.Spacing
import HalfBinary.Proofs.Edits
import HalfBinary.Proofs.Rendering
import HalfBinary.Proofs.Printing
import HalfBinary.Proofs.Validation
import HalfBinary.Proofs.NormalForm
import HalfBinary.Proofs.Shapes
import HalfBinary.Proofs.CutOffs
import HalfBinary.Proofs.Failures
import HalfBinary.Proofs.Shortest
import HalfBinary.Proofs.Numbers
import HalfBinary.Proofs.Conformance
import HalfBinary.Proofs.Preorders
import HalfBinary.Proofs.Equality
import HalfBinary.Proofs.Chronology
import HalfBinary.Proofs.Absence
import HalfBinary.Proofs.Admission
import HalfBinary.Proofs.Positions
import HalfBinary.Proofs.PathTexts
import HalfBinary.Proofs.Resolution
import HalfBinary.Proofs.Composition
import HalfBinary.Proofs.Viability
import HalfBinary.Proofs.Acceptance
import HalfBinary.Proofs.Addressing
import HalfBinary.Proofs.AuditTrail
import HalfBinary.Proofs.Likeness
import HalfBinary.Proofs.Redaction
import HalfBinary.Proofs.Extension
import HalfBinary.Proofs.Blocks
import HalfBinary.Proofs.FactFiles
import HalfBinary.Proofs.Disks
import HalfBinary.Proofs.Matching
import HalfBinary.Proofs.Rereading
import HalfBinary.Proofs.LogPaths
import HalfBinary.Proofs.Indexed
import HalfBinary.Proofs.JsonTexts
import HalfBinary.Proofs.LogLines
