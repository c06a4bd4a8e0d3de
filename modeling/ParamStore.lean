import ParamStore.Codec.Basic
import ParamStore.Codec.Literal
import ParamStore.Codec.Matrix
import ParamStore.Codec.Scalar
import ParamStore.Codec.Vector
import ParamStore.Command.Basic
import ParamStore.Command.Listing
import ParamStore.Command.Program
import ParamStore.Command.Reading
import ParamStore.Command.Run
import ParamStore.Directory
import ParamStore.Error
import ParamStore.Format.Basic
import ParamStore.Format.Datum
import ParamStore.Format.File
import ParamStore.Format.Ini
import ParamStore.Format.JsonFile
import ParamStore.Format.Toml
import ParamStore.Format.Yaml
import ParamStore.Format.Yaml.Block
import ParamStore.Format.Yaml.Cursor
import ParamStore.Format.Yaml.Layout
import ParamStore.Format.Yaml.Node
import ParamStore.Format.Yaml.Plain
import ParamStore.Format.Yaml.Quoted
import ParamStore.Format.Yaml.Scalar
import ParamStore.Format.Yaml.Token
import ParamStore.Json.Basic
import ParamStore.Json.Parser
import ParamStore.Json.Record
import ParamStore.KeyMap
import ParamStore.Ledger.Basic
import ParamStore.Ledger.Json
import ParamStore.Logging.Directive
import ParamStore.Logging.Settings
import ParamStore.Logging.Setup
import ParamStore.Main
import ParamStore.Matrix
import ParamStore.Number.Binary
import ParamStore.Number.FloatText
import ParamStore.Number.Integer
import ParamStore.Number.Shortest
import ParamStore.Path
import ParamStore.Proofs.Codec.Block
import ParamStore.Proofs.Codec.Brackets
import ParamStore.Proofs.Codec.Causes
import ParamStore.Proofs.Codec.Entries
import ParamStore.Proofs.Codec.Grid
import ParamStore.Proofs.Codec.Integer
import ParamStore.Proofs.Codec.Interleaving
import ParamStore.Proofs.Codec.Parts
import ParamStore.Proofs.Codec.Reencoding
import ParamStore.Proofs.Codec.Rows
import ParamStore.Proofs.Codec.Shape
import ParamStore.Proofs.Codec.Size
import ParamStore.Proofs.Codec.Spelling
import ParamStore.Proofs.Codec.Vector
import ParamStore.Proofs.Format.Datum
import ParamStore.Proofs.Json.Leaf
import ParamStore.Proofs.Json.Value
import ParamStore.Proofs.KeyMap.View
import ParamStore.Proofs.Ledger.Conflict
import ParamStore.Proofs.Ledger.Disagreement
import ParamStore.Proofs.Ledger.History
import ParamStore.Proofs.Ledger.Json
import ParamStore.Proofs.Ledger.Members
import ParamStore.Proofs.Ledger.Origin
import ParamStore.Proofs.Logging.InForce
import ParamStore.Proofs.Matrix.Entries
import ParamStore.Proofs.Matrix.Slices
import ParamStore.Proofs.Number.Decimal
import ParamStore.Proofs.Path.Names
import ParamStore.Proofs.Store.Answers
import ParamStore.Proofs.Store.Arguments
import ParamStore.Proofs.Store.Audit
import ParamStore.Proofs.Store.Consult
import ParamStore.Proofs.Store.Emptiness
import ParamStore.Proofs.Store.Lookup
import ParamStore.Proofs.Store.Precedence
import ParamStore.Proofs.Store.Reachable
import ParamStore.Proofs.Store.Readings
import ParamStore.Proofs.Store.Repetition
import ParamStore.Proofs.Store.Session
import ParamStore.Proofs.Store.Tokens
import ParamStore.Proofs.Store.WriteBack
import ParamStore.Proofs.Text.Runs
import ParamStore.Proofs.Text.Trimming
import ParamStore.Proofs.Tree.Algebra
import ParamStore.Proofs.Tree.Chain
import ParamStore.Proofs.Tree.Change
import ParamStore.Proofs.Tree.CommonPath
import ParamStore.Proofs.Tree.Extraction
import ParamStore.Proofs.Tree.Filling
import ParamStore.Proofs.Tree.Gather
import ParamStore.Proofs.Tree.Inverse
import ParamStore.Proofs.Tree.Legible
import ParamStore.Proofs.Tree.Listing
import ParamStore.Proofs.Tree.Merge
import ParamStore.Proofs.Tree.NormalForm
import ParamStore.Proofs.Tree.Outline
import ParamStore.Proofs.Tree.Overlay
import ParamStore.Proofs.Tree.Pairs
import ParamStore.Proofs.Tree.Placement
import ParamStore.Proofs.Tree.Pruned
import ParamStore.Proofs.Tree.Reachable
import ParamStore.Proofs.Tree.Storing
import ParamStore.Proofs.Tree.WellFormed
import ParamStore.Request
import ParamStore.Store.Basic
import ParamStore.Store.Exit
import ParamStore.Store.Ingest
import ParamStore.Store.Lookup
import ParamStore.Store.Options
import ParamStore.Store.Shared
import ParamStore.Text.Blank
import ParamStore.Text.Glyphless
import ParamStore.Text.Quoted
import ParamStore.Tree.Basic
import ParamStore.Tree.Merge
import ParamStore.Tree.Report
import ParamStore.Validator
import ParamStore.Proofs.Format.Table
