import SchemaTypes.Main
import SchemaTypes.Proofs.Module.Cycles
import SchemaTypes.Proofs.NameTable.Consistent
import SchemaTypes.Proofs.NameTable.Runs
import SchemaTypes.Proofs.Document.Addresses
import SchemaTypes.Proofs.Survey.Traversal
import SchemaTypes.Proofs.Module.Addresses
import SchemaTypes.Proofs.Module.Declarations
import SchemaTypes.Proofs.Module.Circles
import SchemaTypes.Proofs.Module.Reported
import SchemaTypes.Proofs.Survey.GivenUp
import SchemaTypes.Proofs.Survey.Visited
import SchemaTypes.Proofs.Document.Positions
import SchemaTypes.Proofs.Survey.Positions
import SchemaTypes.Proofs.Document.Closed
import SchemaTypes.Proofs.Survey.Agreement
import SchemaTypes.Proofs.Module.Agreement
import SchemaTypes.Proofs.Module.Names
import SchemaTypes.Proofs.Files.Mirror
import SchemaTypes.Proofs.Conversion.Isolated
import SchemaTypes.Proofs.Module.Texts
import SchemaTypes.Proofs.Module.Bodies
import SchemaTypes.Proofs.Declaration.Comment
import SchemaTypes.Proofs.Files.Listing
import SchemaTypes.Proofs.Module.Forms
import SchemaTypes.Proofs.Module.Blank
import SchemaTypes.Proofs.Files.Documents
import SchemaTypes.Proofs.Pointer.Spelling
import SchemaTypes.Proofs.Identifier.Normal
import SchemaTypes.Proofs.Filter.Select
import SchemaTypes.Proofs.Schema.Faults
import SchemaTypes.Proofs.Conversion.Kept
