import SqlRecord.Command.Run
import SqlRecord.Database.Basic
import SqlRecord.Proofs.Command.Assignments
import SqlRecord.Proofs.Command.Contents
import SqlRecord.Proofs.Command.Finite
import SqlRecord.Proofs.Command.Lexical
import SqlRecord.Proofs.Command.Ordering
import SqlRecord.Proofs.Command.Placeholders
import SqlRecord.Proofs.Command.Sentence
import SqlRecord.Proofs.Command.Values
import SqlRecord.Proofs.Database.Sync
import SqlRecord.Proofs.Definition.Layout
import SqlRecord.Proofs.Definition.Parts
import SqlRecord.Proofs.Expr.Bound
import SqlRecord.Proofs.Expr.Modes
import SqlRecord.Proofs.Field.Canonical
import SqlRecord.Proofs.Field.Chronology
import SqlRecord.Proofs.Field.Constants
import SqlRecord.Proofs.Field.Instants
import SqlRecord.Proofs.Field.Lossless
import SqlRecord.Proofs.Field.Modes
import SqlRecord.Proofs.Field.Reals
import SqlRecord.Proofs.Identifier
import SqlRecord.Proofs.Literal.Numeric
import SqlRecord.Proofs.Literal.Scanning
import SqlRecord.Proofs.Payload.Exact
import SqlRecord.Proofs.Payload.Truncation
import SqlRecord.Proofs.Record.Assign
import SqlRecord.Proofs.Record.Cells
import SqlRecord.Proofs.Record.Rows
import SqlRecord.Proofs.Record.Sequence
import SqlRecord.Proofs.Registry.Interleaving
import SqlRecord.Proofs.Schema.Definition
import SqlRecord.Proofs.Schema.Keys
import SqlRecord.Proofs.Schema.Resolve
import SqlRecord.Registry
import SqlRecord.Schema.Definition
import SqlRecord.Settings
import SqlRecord.Store.Engine
