import TableGateway.Access.GrantDocument
import TableGateway.Http.Answer
import TableGateway.Settings
import TableGateway.Proofs.Filter.Lexemes
import TableGateway.Proofs.Formula
import TableGateway.Proofs.Filter.Grammar
import TableGateway.Proofs.Filter.Conditions
import TableGateway.Proofs.Filter.Shape
import TableGateway.Proofs.Filter.Chain
import TableGateway.Proofs.Filter.Reader
import TableGateway.Proofs.Filter.Acceptance
import TableGateway.Proofs.Sql.Token
import TableGateway.Proofs.Sql.Legible
import TableGateway.Proofs.Sql.Parameters
import TableGateway.Proofs.Sql.Clause
import TableGateway.Proofs.Sql.Meaning
import TableGateway.Proofs.Sql.Site
import TableGateway.Proofs.Sql.Silence
import TableGateway.Proofs.Sql.Insertion
import TableGateway.Proofs.Sql.Request
import TableGateway.Proofs.Sql.Binding
import TableGateway.Proofs.Sql.Correspondence
import TableGateway.Proofs.Sql.Secrecy
import TableGateway.Proofs.Sql.Effect
import TableGateway.Proofs.Patch.Path
import TableGateway.Proofs.Patch.Split
import TableGateway.Proofs.Patch.Order
import TableGateway.Proofs.Patch.Merge
import TableGateway.Proofs.Patch.Effect
import TableGateway.Proofs.Service.Session
import TableGateway.Proofs.Service.Exchange
import TableGateway.Proofs.Service.Change
import TableGateway.Proofs.Service.Authorization
import TableGateway.Proofs.Service.Arrangement
import TableGateway.Proofs.Service.Atomicity
import TableGateway.Proofs.Service.Permission
import TableGateway.Proofs.Service.Denial
import TableGateway.Proofs.Service.Scope
import TableGateway.Proofs.Catalog.Lookup
import TableGateway.Proofs.Query.Include
import TableGateway.Proofs.Json.Text
import TableGateway.Proofs.Number.Digits
import TableGateway.Proofs.Number.Rounding
import TableGateway.Proofs.Number.Shortest
import TableGateway.Proofs.Number.Scaled
import TableGateway.Proofs.Json.Number
import TableGateway.Proofs.Json.Reread
import TableGateway.Proofs.Json.Document
import TableGateway.Proofs.Catalog.Document
import TableGateway.Proofs.Json.Value
import TableGateway.Proofs.Patch.Reread
import TableGateway.Proofs.Patch.Plain
import TableGateway.Proofs.Service.Record
import TableGateway.Proofs.Sql.Mention
import TableGateway.Proofs.Query.Scope
import TableGateway.Proofs.Sql.Quotation
import TableGateway.Proofs.Service.Failure
import TableGateway.Proofs.Sql.Agreement
import TableGateway.Proofs.Query.Paging
import TableGateway.Proofs.Text.Blank
import TableGateway.Proofs.Calendar.Date
import TableGateway.Proofs.Calendar.Literal
import TableGateway.Proofs.Number.Single
import TableGateway.Proofs.Uuid
import TableGateway.Proofs.Service.Cell
import TableGateway.Proofs.Catalog.Loaded
import TableGateway.Proofs.Service.Reach
import TableGateway.Proofs.Sql.Pattern
import TableGateway.Proofs.Sql.Once
import TableGateway.Proofs.Service.Replacement
import TableGateway.Proofs.Service.Echo
import TableGateway.Proofs.Sql.Accepted
import TableGateway.Proofs.Sql.Writable
import TableGateway.Proofs.Filter.Typing
import TableGateway.Proofs.Number.Numeral
import TableGateway.Proofs.Calendar.Format
import TableGateway.Proofs.Literal
import TableGateway.Proofs.Filter.Conversion
import TableGateway.Proofs.Service.Literal
import TableGateway.Proofs.Access.Grant
import TableGateway.Proofs.Query.Limit
import TableGateway.Proofs.Number.Nearest
import TableGateway.Proofs.Number.Decimal
import TableGateway.Proofs.Decimal
import TableGateway.Proofs.Calendar.Unambiguous
import TableGateway.Proofs.Calendar.Clock
import TableGateway.Proofs.Timestamp
import TableGateway.Proofs.Patch.Partition
import TableGateway.Proofs.Patch.Net
import TableGateway.Proofs.Filter.Size
import TableGateway.Proofs.Sql.Output
import TableGateway.Proofs.Query.Columns
import TableGateway.Proofs.Filter.Parentheses
import TableGateway.Proofs.Sql.Ordering
import TableGateway.Proofs.Sql.Entries
import TableGateway.Proofs.Sql.FreshName
import TableGateway.Proofs.Filter.Phrase
import TableGateway.Proofs.Patch.Segments
