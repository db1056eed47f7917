import SearchQuery.Config
import SearchQuery.Json.Document
import SearchQuery.Json.Fault
import SearchQuery.Json.Form
import SearchQuery.Json.Token
import SearchQuery.Json.Value
import SearchQuery.Number.Binary64
import SearchQuery.Number.Decimal
import SearchQuery.Number.FloatText
import SearchQuery.Number.Integer
import SearchQuery.Number.Shortest
import SearchQuery.Predicate.Encoding
import SearchQuery.Predicate.Expr
import SearchQuery.Predicate.Schema
import SearchQuery.Predicate.Translation
import SearchQuery.Proofs.AcceptedDocuments
import SearchQuery.Proofs.Balance
import SearchQuery.Proofs.BareOperators
import SearchQuery.Proofs.BoundVariables
import SearchQuery.Proofs.Building
import SearchQuery.Proofs.CallTranslations
import SearchQuery.Proofs.ClauseReading
import SearchQuery.Proofs.ClauseTree
import SearchQuery.Proofs.CleanQuery
import SearchQuery.Proofs.Connectives
import SearchQuery.Proofs.Covering
import SearchQuery.Proofs.Depth
import SearchQuery.Proofs.DistinctKeys
import SearchQuery.Proofs.Emission
import SearchQuery.Proofs.EntryReading
import SearchQuery.Proofs.EscapePasses
import SearchQuery.Proofs.EscapedBlanks
import SearchQuery.Proofs.Escaping
import SearchQuery.Proofs.ExprEncoding
import SearchQuery.Proofs.FirstFault
import SearchQuery.Proofs.FormReading
import SearchQuery.Proofs.Grouping
import SearchQuery.Proofs.Identifiers
import SearchQuery.Proofs.JoinedPredicates
import SearchQuery.Proofs.LeafTrimming
import SearchQuery.Proofs.LongerTexts
import SearchQuery.Proofs.LongerTokens
import SearchQuery.Proofs.Matching
import SearchQuery.Proofs.Nesting
import SearchQuery.Proofs.NormalForm
import SearchQuery.Proofs.NumberForms
import SearchQuery.Proofs.NumberReading
import SearchQuery.Proofs.NumberText
import SearchQuery.Proofs.NumericTexts
import SearchQuery.Proofs.OpenBrackets
import SearchQuery.Proofs.Operands
import SearchQuery.Proofs.Outcome
import SearchQuery.Proofs.OutputGrammar
import SearchQuery.Proofs.PredicateClauses
import SearchQuery.Proofs.PredicateDocuments
import SearchQuery.Proofs.PredicateGrammar
import SearchQuery.Proofs.PredicateReading
import SearchQuery.Proofs.PredicateTexts
import SearchQuery.Proofs.QueryDocuments
import SearchQuery.Proofs.QueryEncoding
import SearchQuery.Proofs.ReversedComparisons
import SearchQuery.Proofs.Skeleton
import SearchQuery.Proofs.Spellings
import SearchQuery.Proofs.TokenReading
import SearchQuery.Proofs.Trimming
import SearchQuery.Proofs.Unescaping
import SearchQuery.Proofs.UnreadMembers
import SearchQuery.Proofs.UsageCounts
import SearchQuery.Proofs.ValueReading
import SearchQuery.Proofs.Words
import SearchQuery.Proofs.WrappedDocuments
import SearchQuery.Query.Basic
import SearchQuery.Query.Document
import SearchQuery.Query.Emission
import SearchQuery.Query.Encoding
import SearchQuery.Text.Blank
import SearchQuery.Text.Escape
import SearchQuery.Usage
import SearchQuery.Usage.Call
