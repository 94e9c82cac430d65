import SqlAtlas.Alias
import SqlAtlas.Backend
import SqlAtlas.Cache
import SqlAtlas.Cache.Key
import SqlAtlas.Command
import SqlAtlas.Command.Run
import SqlAtlas.Definition
import SqlAtlas.Dialect
import SqlAtlas.Dict
import SqlAtlas.Digest
import SqlAtlas.Duration
import SqlAtlas.FileTree
import SqlAtlas.Filter
import SqlAtlas.Glob
import SqlAtlas.Grammar.Ast
import SqlAtlas.Grammar.Change
import SqlAtlas.Grammar.DataType
import SqlAtlas.Grammar.Declaration
import SqlAtlas.Grammar.Expression
import SqlAtlas.Grammar.Parser
import SqlAtlas.Grammar.Query
import SqlAtlas.Grammar.Rules
import SqlAtlas.Grammar.Select
import SqlAtlas.Grammar.Source
import SqlAtlas.Grammar.Statement
import SqlAtlas.Grammar.Vocabulary
import SqlAtlas.Index
import SqlAtlas.Index.Query
import SqlAtlas.Keyword
import SqlAtlas.LocalTable
import SqlAtlas.Main
import SqlAtlas.Name
import SqlAtlas.NameSet
import SqlAtlas.Node
import SqlAtlas.Node.Lowering
import SqlAtlas.Node.Visit
import SqlAtlas.Owner
import SqlAtlas.Pattern
import SqlAtlas.Pool
import SqlAtlas.Pool.Call
import SqlAtlas.Pool.Run
import SqlAtlas.Proofs.Alias
import SqlAtlas.Proofs.Arrangement
import SqlAtlas.Proofs.Cache
import SqlAtlas.Proofs.Cache.History
import SqlAtlas.Proofs.Checked.Access
import SqlAtlas.Proofs.Checked.Block
import SqlAtlas.Proofs.Checked.Clause
import SqlAtlas.Proofs.Checked.Definition
import SqlAtlas.Proofs.Checked.File
import SqlAtlas.Proofs.Checked.Line
import SqlAtlas.Proofs.Checked.LocalTable
import SqlAtlas.Proofs.Checked.Name
import SqlAtlas.Proofs.Checked.Routine
import SqlAtlas.Proofs.Checked.Scan
import SqlAtlas.Proofs.Checked.Statement
import SqlAtlas.Proofs.Checked.Usage
import SqlAtlas.Proofs.Definition.Boundary
import SqlAtlas.Proofs.Definition.Comment
import SqlAtlas.Proofs.Definition.Folding
import SqlAtlas.Proofs.Definition.Place
import SqlAtlas.Proofs.Definition.Reading
import SqlAtlas.Proofs.Dict
import SqlAtlas.Proofs.Filter
import SqlAtlas.Proofs.Index.Answers
import SqlAtlas.Proofs.Index.Columns
import SqlAtlas.Proofs.Index.Consistency
import SqlAtlas.Proofs.Index.Correction
import SqlAtlas.Proofs.Index.Definers
import SqlAtlas.Proofs.Index.Generation
import SqlAtlas.Proofs.Index.Keys
import SqlAtlas.Proofs.Index.Locality
import SqlAtlas.Proofs.Index.Operation
import SqlAtlas.Proofs.Index.Order
import SqlAtlas.Proofs.Index.Origin
import SqlAtlas.Proofs.Index.OwnName
import SqlAtlas.Proofs.Index.References
import SqlAtlas.Proofs.Index.Reindexing
import SqlAtlas.Proofs.Index.Standing
import SqlAtlas.Proofs.Name
import SqlAtlas.Proofs.Name.Folding
import SqlAtlas.Proofs.Name.Letters
import SqlAtlas.Proofs.Name.NormalForm
import SqlAtlas.Proofs.Name.Spelling
import SqlAtlas.Proofs.Name.Token
import SqlAtlas.Proofs.NameSet
import SqlAtlas.Proofs.Node.Visibility
import SqlAtlas.Proofs.Node.Visit
import SqlAtlas.Proofs.Owner
import SqlAtlas.Proofs.Owner.Reordering
import SqlAtlas.Proofs.Pattern
import SqlAtlas.Proofs.Pattern.Folding
import SqlAtlas.Proofs.Pool.Answers
import SqlAtlas.Proofs.Pool.Conservation
import SqlAtlas.Proofs.Pool.Dispatch
import SqlAtlas.Proofs.Pool.Execution
import SqlAtlas.Proofs.Pool.History
import SqlAtlas.Proofs.Pool.Jobs
import SqlAtlas.Proofs.Pool.Slot
import SqlAtlas.Proofs.Pool.Staff
import SqlAtlas.Proofs.Pool.Stranding
import SqlAtlas.Proofs.Pool.Supervision
import SqlAtlas.Proofs.Reference.Candidate
import SqlAtlas.Proofs.Reference.Column
import SqlAtlas.Proofs.Reference.Distinct
import SqlAtlas.Proofs.Reference.Emission
import SqlAtlas.Proofs.Reference.Extraction
import SqlAtlas.Proofs.Reference.Naming
import SqlAtlas.Proofs.Reference.Nesting
import SqlAtlas.Proofs.Reference.Place
import SqlAtlas.Proofs.Reference.Prefix
import SqlAtlas.Proofs.Reference.Soundness
import SqlAtlas.Proofs.Registry
import SqlAtlas.Proofs.Scan
import SqlAtlas.Proofs.Scope.Alone
import SqlAtlas.Proofs.Scope.Clause
import SqlAtlas.Proofs.Scope.Introduction
import SqlAtlas.Proofs.Scope.Names
import SqlAtlas.Proofs.Scope.Nesting
import SqlAtlas.Proofs.Scope.Partition
import SqlAtlas.Proofs.Scope.Site
import SqlAtlas.Proofs.Scope.Sources
import SqlAtlas.Proofs.Scope.Splitting
import SqlAtlas.Proofs.Scope.Statement
import SqlAtlas.Proofs.Scope.Subquery
import SqlAtlas.Proofs.Scope.Variable
import SqlAtlas.Proofs.Supervisor.Backoff
import SqlAtlas.Proofs.Text.Balance
import SqlAtlas.Proofs.Text.Block
import SqlAtlas.Proofs.Text.Byte
import SqlAtlas.Proofs.Text.Code
import SqlAtlas.Proofs.Text.Decode
import SqlAtlas.Proofs.Text.Folding
import SqlAtlas.Proofs.Text.Line
import SqlAtlas.Proofs.Text.Lower
import SqlAtlas.Proofs.Text.Mask
import SqlAtlas.Proofs.Text.Occurs
import SqlAtlas.Proofs.Text.Offset
import SqlAtlas.Proofs.Text.Piece
import SqlAtlas.Proofs.Text.Position
import SqlAtlas.Proofs.Text.Region
import SqlAtlas.Proofs.Text.Reread
import SqlAtlas.Proofs.Text.Row
import SqlAtlas.Proofs.Text.Utf8
import SqlAtlas.Proofs.Token
import SqlAtlas.Proofs.Workspace.Account
import SqlAtlas.Proofs.Workspace.Assembly
import SqlAtlas.Proofs.Workspace.Batch
import SqlAtlas.Proofs.Workspace.BatchOrder
import SqlAtlas.Proofs.Workspace.Execution
import SqlAtlas.Proofs.Workspace.Foresight
import SqlAtlas.Proofs.Workspace.Ledger
import SqlAtlas.Proofs.Workspace.Narrowing
import SqlAtlas.Proofs.Workspace.Numbering
import SqlAtlas.Proofs.Workspace.Record
import SqlAtlas.Proofs.Workspace.Settled
import SqlAtlas.Proofs.Workspace.Turn
import SqlAtlas.Reference
import SqlAtlas.Reference.Extraction
import SqlAtlas.Reference.Usage
import SqlAtlas.Registry
import SqlAtlas.Scan
import SqlAtlas.Scope.Clause
import SqlAtlas.Scope.File
import SqlAtlas.Scope.Routine
import SqlAtlas.Scope.Statement
import SqlAtlas.Settings
import SqlAtlas.Supervisor
import SqlAtlas.Supervisor.Backoff
import SqlAtlas.Symbol
import SqlAtlas.Text.Alphabetic
import SqlAtlas.Text.Blank
import SqlAtlas.Text.Block
import SqlAtlas.Text.Byte
import SqlAtlas.Text.Cased
import SqlAtlas.Text.Decode
import SqlAtlas.Text.Digit
import SqlAtlas.Text.Letter
import SqlAtlas.Text.Line
import SqlAtlas.Text.Lower
import SqlAtlas.Text.Mask
import SqlAtlas.Text.Occurs
import SqlAtlas.Text.Ranges
import SqlAtlas.Text.Region
import SqlAtlas.Text.Slice
import SqlAtlas.Text.Word
import SqlAtlas.Token
import SqlAtlas.Uri
import SqlAtlas.Workspace
import SqlAtlas.Workspace.Run
