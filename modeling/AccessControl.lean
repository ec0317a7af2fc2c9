import AccessControl.Audit.Line
import AccessControl.Audit.Log
import AccessControl.Checker.Basic
import AccessControl.Checker.Fit
import AccessControl.Collection.Keyed
import AccessControl.Collection.Lru
import AccessControl.Config
import AccessControl.Document.Node
import AccessControl.Document.Scalar
import AccessControl.Engine
import AccessControl.Error
import AccessControl.Guard.Basic
import AccessControl.Guard.Cache
import AccessControl.Guard.Stats
import AccessControl.Guard.Verdict
import AccessControl.Inquiry
import AccessControl.Network.Address
import AccessControl.Network.Block
import AccessControl.Number.Binary64
import AccessControl.Number.Decimal
import AccessControl.Policy.Basic
import AccessControl.Policy.Document
import AccessControl.Policy.Samples
import AccessControl.Proofs.Accounting
import AccessControl.Proofs.Answers
import AccessControl.Proofs.Audit.Lines
import AccessControl.Proofs.Audit.Reader
import AccessControl.Proofs.Calls
import AccessControl.Proofs.ChangeStream
import AccessControl.Proofs.Codec.Doubles
import AccessControl.Proofs.Codec.Inquiries
import AccessControl.Proofs.Codec.KeyOrder
import AccessControl.Proofs.Codec.Operands
import AccessControl.Proofs.Codec.Policies
import AccessControl.Proofs.Codec.Readings
import AccessControl.Proofs.Codec.Rules
import AccessControl.Proofs.Codec.Values
import AccessControl.Proofs.Comparison
import AccessControl.Proofs.Decision
import AccessControl.Proofs.Equality
import AccessControl.Proofs.Faults.Decisions
import AccessControl.Proofs.Faults.Policies
import AccessControl.Proofs.Faults.Rules
import AccessControl.Proofs.Faults.Translation
import AccessControl.Proofs.Faults.Values
import AccessControl.Proofs.Freshness
import AccessControl.Proofs.Hashing
import AccessControl.Proofs.Interleaving
import AccessControl.Proofs.Judge
import AccessControl.Proofs.Keyed
import AccessControl.Proofs.Listening
import AccessControl.Proofs.Loading
import AccessControl.Proofs.Memoization
import AccessControl.Proofs.Memory
import AccessControl.Proofs.Network.Blocks
import AccessControl.Proofs.Network.Literals
import AccessControl.Proofs.Network.Octets
import AccessControl.Proofs.Network.Written
import AccessControl.Proofs.Number.Border
import AccessControl.Proofs.Number.Digits
import AccessControl.Proofs.Number.Exact
import AccessControl.Proofs.Number.Integers
import AccessControl.Proofs.Number.Numerals
import AccessControl.Proofs.Number.Rounding
import AccessControl.Proofs.Number.Spelling
import AccessControl.Proofs.OneTable
import AccessControl.Proofs.Paging
import AccessControl.Proofs.PartialTier
import AccessControl.Proofs.Pieces
import AccessControl.Proofs.Recency
import AccessControl.Proofs.Recency.Acts
import AccessControl.Proofs.Recency.Distance
import AccessControl.Proofs.Recency.Index
import AccessControl.Proofs.Recency.Values
import AccessControl.Proofs.Regex.Language
import AccessControl.Proofs.Regex.Nesting
import AccessControl.Proofs.Regex.Reading
import AccessControl.Proofs.Regex.Search
import AccessControl.Proofs.Relevance
import AccessControl.Proofs.Room
import AccessControl.Proofs.Sentry
import AccessControl.Proofs.Settings
import AccessControl.Proofs.Template
import AccessControl.Proofs.Template.Captures
import AccessControl.Proofs.Template.Holes
import AccessControl.Proofs.Template.Literals
import AccessControl.Proofs.Template.Reading
import AccessControl.Proofs.Template.Tags
import AccessControl.Proofs.Tiers
import AccessControl.Proofs.Transparency
import AccessControl.Proofs.Walk
import AccessControl.Regex.ByteSet
import AccessControl.Regex.Match
import AccessControl.Regex.Parser
import AccessControl.Regex.Size
import AccessControl.Regex.Syntax
import AccessControl.Regex.Token
import AccessControl.Rule.Basic
import AccessControl.Rule.Document
import AccessControl.Run
import AccessControl.Scenario.Script
import AccessControl.Scenario.Setup
import AccessControl.Scenario.World
import AccessControl.Store.Basic
import AccessControl.Store.Change
import AccessControl.Store.Feed
import AccessControl.Store.Observed
import AccessControl.Store.Table
import AccessControl.Store.TwoTier
import AccessControl.Template.Compile
import AccessControl.Template.Memo
import AccessControl.Template.Scan
import AccessControl.Text.Ascii
import AccessControl.Text.Bytes
import AccessControl.Text.Json
import AccessControl.Text.Timestamp
import AccessControl.Value.Basic
import AccessControl.Value.Document
import AccessControl.Value.Hash
import AccessControl.Value.Order
