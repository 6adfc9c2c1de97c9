import FacetQuery.Params.QueryString
import FacetQuery.Schema.Description
import FacetQuery.Schema.File
import FacetQuery.Sql.Pieces
import FacetQuery.Backend.Recorder
import FacetQuery.Backend.Sql
import FacetQuery.Session
import FacetQuery.CommandLine
import FacetQuery.Main
import FacetQuery.Proofs.Query.Asked
import FacetQuery.Proofs.Query.Columns
import FacetQuery.Proofs.Query.Orders
import FacetQuery.Proofs.Query.Roots
import FacetQuery.Proofs.Query.Strings
import FacetQuery.Proofs.Session.Answers
import FacetQuery.Proofs.Session.Failed
import FacetQuery.Proofs.Session.Recorded
import FacetQuery.Proofs.Sql.Quoting
import FacetQuery.Proofs.Sql.Styles
import FacetQuery.Proofs.Sql.Unambiguous
import FacetQuery.Proofs.Text.Percent
import FacetQuery.Proofs.Decimal.Integer
import FacetQuery.Proofs.Decimal.Literal
import FacetQuery.Proofs.Decimal.Nearest
import FacetQuery.Proofs.Params.Coercion
import FacetQuery.Proofs.Params.Key
import FacetQuery.Proofs.Params.Scalar
import FacetQuery.Proofs.Text.Split
import FacetQuery.Proofs.Params.Tree
import FacetQuery.Proofs.Params.QueryString
import FacetQuery.Proofs.Query.Dialects
import FacetQuery.Proofs.Sql.Calls
import FacetQuery.Proofs.Schema.Agreement
import FacetQuery.Proofs.Schema.ReadBack
import FacetQuery.Proofs.Schema.Edits
import FacetQuery.Proofs.CommandLine
import FacetQuery.Proofs.Facet.Ordering
import FacetQuery.Proofs.Facet.Verdict
import FacetQuery.Proofs.Session.Ends
import FacetQuery.Proofs.Facet.DefaultSort
import FacetQuery.Proofs.Facet.Pages
import FacetQuery.Proofs.Facet.Rows
import FacetQuery.Proofs.Params.Growth
import FacetQuery.Proofs.Query.Plain
import FacetQuery.Proofs.Query.Single
import FacetQuery.Proofs.Facet.Spellings
import FacetQuery.Proofs.Query.Tidy
