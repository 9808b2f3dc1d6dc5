import Storefront.About
import Storefront.Calendar.Moment
import Storefront.Calendar.Reading
import Storefront.Calendar.Writing
import Storefront.Command.Arguments
import Storefront.Command.Check
import Storefront.Command.Outcome
import Storefront.Command.Request
import Storefront.Command.Run
import Storefront.Condition.Basic
import Storefront.Condition.Evaluate
import Storefront.Config.Config
import Storefront.Context.Path
import Storefront.Context.Scope
import Storefront.Currency.Format
import Storefront.Data.Loose
import Storefront.Data.Value
import Storefront.Display.Value
import Storefront.Failure
import Storefront.Files.Access
import Storefront.Files.Memory
import Storefront.Filter.Attribute
import Storefront.Filter.Filters
import Storefront.Filter.Price
import Storefront.Filter.Range
import Storefront.Json.Decode
import Storefront.Json.Document
import Storefront.Json.Literal
import Storefront.Json.Reader
import Storefront.Json.Writer
import Storefront.Locale.Catalog
import Storefront.Locale.Tag
import Storefront.Main
import Storefront.Menu.Language
import Storefront.Menu.Tree
import Storefront.Numeric.Decimal
import Storefront.Numeric.Double
import Storefront.Numeric.Print
import Storefront.Numeric.Shortest
import Storefront.Numeric.Word
import Storefront.Page.Base
import Storefront.Page.Build
import Storefront.Page.Builder
import Storefront.Page.Bundle
import Storefront.Page.Cart
import Storefront.Page.Kind
import Storefront.Page.Pagination
import Storefront.Page.Product
import Storefront.Render.Escape
import Storefront.Render.Render
import Storefront.Stock.Availability
import Storefront.Stock.Block
import Storefront.Stock.Label
import Storefront.Stock.Seam
import Storefront.Store.Settings
import Storefront.Template.Grouping
import Storefront.Template.Lexer
import Storefront.Template.Token
import Storefront.Template.Tree
import Storefront.Text.Blank
import Storefront.Text.Bytes
import Storefront.Text.Case
import Storefront.Text.Search
import Storefront.Toml.Literal
import Storefront.Toml.Reader
import Storefront.Toml.Table
import Storefront.Toml.Token
import Storefront.Toml.Value
import Storefront.Proofs.Agreement
import Storefront.Proofs.Badges
import Storefront.Proofs.Blocks
import Storefront.Proofs.Braces
import Storefront.Proofs.Conservation
import Storefront.Proofs.Counting
import Storefront.Proofs.Drafting
import Storefront.Proofs.Escaping
import Storefront.Proofs.Exhibits
import Storefront.Proofs.Families
import Storefront.Proofs.Joining
import Storefront.Proofs.Layers
import Storefront.Proofs.Lexing
import Storefront.Proofs.Lookup
import Storefront.Proofs.Menus
import Storefront.Proofs.Naming
import Storefront.Proofs.Nesting
import Storefront.Proofs.Payloads
import Storefront.Proofs.Pricing
import Storefront.Proofs.Printing
import Storefront.Proofs.Quantities
import Storefront.Proofs.Regrouping
import Storefront.Proofs.Reporting
import Storefront.Proofs.Rereading
import Storefront.Proofs.Shadowing
import Storefront.Proofs.Spreading
import Storefront.Proofs.Stages
import Storefront.Proofs.Trees
import Storefront.Proofs.Wrapping
import Storefront.Proofs.Gaps
import Storefront.Proofs.Partings
import Storefront.Proofs.Seams
import Storefront.Proofs.Runs
import Storefront.Proofs.Openings
import Storefront.Proofs.Hiding
import Storefront.Proofs.Ways
import Storefront.Proofs.Numerals
import Storefront.Proofs.Ranges
import Storefront.Proofs.Sorting
import Storefront.Proofs.Offers
import Storefront.Proofs.Words
import Storefront.Proofs.Paging
import Storefront.Proofs.Tallying
import Storefront.Proofs.Footprints
import Storefront.Proofs.Spelling
import Storefront.Proofs.Quoting
import Storefront.Proofs.Sameness
import Storefront.Proofs.Comparing
import Storefront.Proofs.TextPrices
import Storefront.Proofs.Synonyms
import Storefront.Proofs.Verbatim
import Storefront.Proofs.Pruning
import Storefront.Proofs.Paths
import Storefront.Proofs.Merging
import Storefront.Proofs.Flattening
import Storefront.Proofs.Tagging
import Storefront.Proofs.Stocking
import Storefront.Proofs.Days
import Storefront.Proofs.Dates
import Storefront.Proofs.Dating
import Storefront.Proofs.Amounts
import Storefront.Proofs.Candidates
import Storefront.Proofs.Integers
import Storefront.Proofs.Showing
import Storefront.Proofs.Languages
import Storefront.Proofs.Scoping
import Storefront.Proofs.Identifying
import Storefront.Proofs.Verdicts
import Storefront.Proofs.Cutting
import Storefront.Proofs.Extents
import Storefront.Proofs.Phrases
import Storefront.Proofs.Unescaping
