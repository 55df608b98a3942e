import MediaCatalog.Main
import MediaCatalog.Postgres.Script
import MediaCatalog.Search.Script
import MediaCatalog.Proofs.Sql.Truth
import MediaCatalog.Proofs.Sql.Token
import MediaCatalog.Proofs.Sql.Formula
import MediaCatalog.Proofs.Sql.Formula.Reader
import MediaCatalog.Proofs.Sql.Condition
import MediaCatalog.Proofs.Sql.Style
import MediaCatalog.Proofs.Sql.Alike
import MediaCatalog.Proofs.Sql.Outline
import MediaCatalog.Proofs.Sql.Placeholder
import MediaCatalog.Proofs.Sql.Recast
import MediaCatalog.Proofs.Except
import MediaCatalog.Proofs.Filter.Operator
import MediaCatalog.Proofs.Filter.Meaning
import MediaCatalog.Proofs.Json
import MediaCatalog.Proofs.Sql.Like
import MediaCatalog.Proofs.Schema
import MediaCatalog.Proofs.Search.Predicate
import MediaCatalog.Proofs.Search.Statement
import MediaCatalog.Proofs.Search.Dialects
import MediaCatalog.Proofs.Search.Form
import MediaCatalog.Proofs.Search.Parameters
import MediaCatalog.Proofs.Search.Steps
import MediaCatalog.Proofs.Filter.Lists
import MediaCatalog.Proofs.Filter.Operand
import MediaCatalog.Proofs.Store.Order
import MediaCatalog.Proofs.Store.Reference
import MediaCatalog.Proofs.Store.Answer
import MediaCatalog.Proofs.Search.Session
import MediaCatalog.Proofs.Search.Page
import MediaCatalog.Proofs.Search.Pages
import MediaCatalog.Proofs.Search.Assembly
import MediaCatalog.Proofs.Date
import MediaCatalog.Proofs.Dictionary
import MediaCatalog.Proofs.Entry.Value
import MediaCatalog.Proofs.Entry.Record
import MediaCatalog.Proofs.Sql.Dialect
import MediaCatalog.Proofs.Store.Excess
import MediaCatalog.Proofs.Store.Content
import MediaCatalog.Proofs.Store.Fetch
import MediaCatalog.Proofs.Store.Write
import MediaCatalog.Proofs.Catalog.Keeper
import MediaCatalog.Proofs.Catalog.Memory
import MediaCatalog.Proofs.Catalog.Trial
import MediaCatalog.Proofs.Catalog.Isolation
import MediaCatalog.Proofs.Service.Requests
import MediaCatalog.Proofs.Service.Runs
import MediaCatalog.Proofs.Service.Listing
import MediaCatalog.Proofs.Service.Invariant
import MediaCatalog.Proofs.Service.Atomicity
import MediaCatalog.Proofs.Language
import MediaCatalog.Proofs.Entry.Text
import MediaCatalog.Proofs.Postgres
import MediaCatalog.Proofs.Service.RoundTrip
import MediaCatalog.Proofs.Service.Lookup
import MediaCatalog.Proofs.Search.Complement
import MediaCatalog.Proofs.Service.Complement
import MediaCatalog.Proofs.Filter.Own
import MediaCatalog.Proofs.Service.Finding
import MediaCatalog.Proofs.Catalog.Dialogue
import MediaCatalog.Proofs.Catalog.Interleaving
import MediaCatalog.Proofs.Catalog.History
import MediaCatalog.Proofs.Catalog.Safety
import MediaCatalog.Proofs.Catalog.Progress
import MediaCatalog.Proofs.Catalog.Concurrency
import MediaCatalog.Proofs.Text.LowerCase
import MediaCatalog.Proofs.Query.Spelling
import MediaCatalog.Proofs.Query.Parameters
import MediaCatalog.Proofs.Service.Language
import MediaCatalog.Proofs.Query.Paging
import MediaCatalog.Proofs.Http.MediaType
import MediaCatalog.Proofs.Service.Body
import MediaCatalog.Proofs.Json.Canonical
import MediaCatalog.Proofs.Json.Reader
import MediaCatalog.Proofs.Entry.Reading
import MediaCatalog.Proofs.Filter.Stretch
import MediaCatalog.Proofs.Filter.Shape
import MediaCatalog.Proofs.Search.Render
import MediaCatalog.Proofs.Search.Rejection
import MediaCatalog.Proofs.Date.Order
import MediaCatalog.Proofs.Search.Own
import MediaCatalog.Proofs.Search.Dates
import MediaCatalog.Proofs.Service.Dates
import MediaCatalog.Proofs.Entry.Acceptance
import MediaCatalog.Proofs.Query.SortKey
import MediaCatalog.Proofs.Search.Sorting
import MediaCatalog.Proofs.Text.Number
import MediaCatalog.Proofs.Service.Paging
import MediaCatalog.Proofs.Sql.Insert
import MediaCatalog.Proofs.Catalog.Transaction
import MediaCatalog.Proofs.Service.Selection
import MediaCatalog.Proofs.Config.Reference
import MediaCatalog.Proofs.Config.Expansion
import MediaCatalog.Proofs.Schema.Columns
import MediaCatalog.Proofs.Schema.Names
import MediaCatalog.Proofs.Text.Affix
import MediaCatalog.Proofs.Connection
