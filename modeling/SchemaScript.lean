import SchemaScript.Exchange.Reply
import SchemaScript.Files.Tree
import SchemaScript.Main
import SchemaScript.Proofs.Document.Indexes
import SchemaScript.Proofs.Document.Names
import SchemaScript.Proofs.Script.Lossless
import SchemaScript.Proofs.Script.Header
import SchemaScript.Proofs.Document.Expansion
import SchemaScript.Proofs.Script.Framing
import SchemaScript.Proofs.Document.Check
import SchemaScript.Proofs.Document.FirstFault
import SchemaScript.Proofs.Document.Inlining
import SchemaScript.Proofs.Document.Independence
import SchemaScript.Proofs.Schema.RoundTrip
import SchemaScript.Proofs.Exchange.Delivery
import SchemaScript.Proofs.Identifier.Patterns
import SchemaScript.Proofs.Document.Removal
import SchemaScript.Proofs.Project.Kept
import SchemaScript.Proofs.Project.Nesting
import SchemaScript.Proofs.Column.Conserved
import SchemaScript.Proofs.Column.Normal
import SchemaScript.Proofs.Document.Arrows
import SchemaScript.Proofs.Column.Insertion
import SchemaScript.Proofs.Column.Contents
import SchemaScript.Proofs.Document.Listing
import SchemaScript.Proofs.Column.Rejoined
import SchemaScript.Proofs.Document.Quoting
import SchemaScript.Proofs.CommandLine.Touched
import SchemaScript.Proofs.CommandLine.Covered
