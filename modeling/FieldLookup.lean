import FieldLookup.Text.Blank
import FieldLookup.Text.Letter
import FieldLookup.Text.Numeral
import FieldLookup.Text.Pieces
import FieldLookup.Ordered
import FieldLookup.Binary64.Basic
import FieldLookup.Binary64.Reader
import FieldLookup.Binary64.Shortest
import FieldLookup.Calendar.Date
import FieldLookup.Calendar.Reader
import FieldLookup.Value.Basic
import FieldLookup.Value.Conversion
import FieldLookup.Value.Order
import FieldLookup.Value.Text
import FieldLookup.Schema.Basic
import FieldLookup.Schema.Draft
import FieldLookup.Store.Basic
import FieldLookup.Pattern.CharClass
import FieldLookup.Pattern.Error
import FieldLookup.Pattern.Like
import FieldLookup.Pattern.Matcher
import FieldLookup.Pattern.PlaceSet
import FieldLookup.Pattern.Reader
import FieldLookup.Pattern.Syntax
import FieldLookup.Query.Basic
import FieldLookup.Query.Error
import FieldLookup.Query.Fetch
import FieldLookup.Query.PatternTable
import FieldLookup.Query.Page
import FieldLookup.Query.Path
import FieldLookup.Query.Predicate
import FieldLookup.Query.StableSort
import FieldLookup.Query.Truth
import FieldLookup.Lookup.Compiler
import FieldLookup.Lookup.Error
import FieldLookup.Lookup.Operator
import FieldLookup.Lookup.OperatorTable
import FieldLookup.Lookup.Request
import FieldLookup.Lookup.Resolution
import FieldLookup.Lookup.Settings
import FieldLookup.Lookup.SettingsReader
import FieldLookup.Toml.Basic
import FieldLookup.Toml.Reader
import FieldLookup.Scenario.Assertion
import FieldLookup.Scenario.Blog
import FieldLookup.Scenario.Run
import FieldLookup.Proofs.Checked
import FieldLookup.Proofs.Derivation
import FieldLookup.Proofs.Declared
import FieldLookup.Proofs.Building
import FieldLookup.Proofs.JoinList
import FieldLookup.Proofs.Composition
import FieldLookup.Proofs.WellFormed
import FieldLookup.Proofs.Filled
import FieldLookup.Proofs.Assignment
import FieldLookup.Proofs.Meaning
import FieldLookup.Proofs.Selection
import FieldLookup.Proofs.CallerFault
import FieldLookup.Proofs.Narrowing
import FieldLookup.Proofs.SortOrder
import FieldLookup.Proofs.StableOrder
import FieldLookup.Proofs.OrderedFetch
import FieldLookup.Proofs.Splitting
import FieldLookup.Proofs.OperatorTokens
import FieldLookup.Proofs.OperatorSettings
import FieldLookup.Proofs.Parameters
import FieldLookup.Proofs.Consistency
import FieldLookup.Proofs.IndexedRows
import FieldLookup.Proofs.Joining
import FieldLookup.Proofs.Addressing
import FieldLookup.Proofs.Rearrangement
import FieldLookup.Proofs.Insertions
import FieldLookup.Proofs.Batching
import FieldLookup.Proofs.TermByTerm
import FieldLookup.Proofs.Decimals
import FieldLookup.Proofs.RequestTexts
import FieldLookup.Proofs.Rounding
import FieldLookup.Proofs.Certainty
import FieldLookup.Proofs.CallEffect
import FieldLookup.Proofs.Growth
import FieldLookup.Proofs.Searching
import FieldLookup.Proofs.LikePatterns
import FieldLookup.Proofs.Wildcards
import FieldLookup.Proofs.Needles
import FieldLookup.Proofs.Comparability
import FieldLookup.Proofs.SortPreorder
import FieldLookup.Proofs.Backrefs
import FieldLookup.Proofs.SingleLookup
import FieldLookup.Proofs.Membership
import FieldLookup.Proofs.IntegerTexts
import FieldLookup.Proofs.Comparing
import FieldLookup.Proofs.Complements
import FieldLookup.Proofs.Bounds
import FieldLookup.Proofs.Paging
import FieldLookup.Proofs.RelationPaths
import FieldLookup.Proofs.Culprits
import FieldLookup.Proofs.Drafting
import FieldLookup.Proofs.FailingSteps
import FieldLookup.Proofs.ValueTexts
import FieldLookup.Proofs.Conversions
import FieldLookup.Proofs.PatternLeaves
import FieldLookup.Proofs.Reshaping
