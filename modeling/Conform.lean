import Conform.Members
import Conform.Text.Split
import Conform.Json.Printer
import Conform.Json.Reader
import Conform.Text.Word
import Conform.Text.Escaped
import Conform.Regex.Parser
import Conform.Format
import Conform.Schema.Clause
import Conform.Schema.Literal
import Conform.Noted
import Conform.Chain
import Conform.Schema.Equality
import Conform.Place
import Conform.Record
import Conform.Error
import Conform.Dsl.Clause
import Conform.Dsl.Choices
import Conform.Dsl.Outline
import Conform.Registry
import Conform.Cache
import Conform.Dsl.Tree
import Conform.Compiler
import Conform.Message.Catalog
import Conform.Config.Reader
import Conform.Validation
import Conform.Schema
import Conform.Builder
import Conform.Proofs.Transparency
import Conform.Proofs.Immediate
import Conform.Proofs.Findings
import Conform.Proofs.Slots
import Conform.Proofs.Walk
import Conform.Proofs.Customs
import Conform.Proofs.EarlyEnd
import Conform.Proofs.Starting
import Conform.Proofs.FindingSources
import Conform.Proofs.ExchangedCustoms
import Conform.Proofs.Settling
import Conform.Proofs.Waiting
import Conform.Proofs.Numerals
import Conform.Proofs.Clauses
import Conform.Proofs.Choices
import Conform.Proofs.Phrase
import Conform.Proofs.Brackets
import Conform.Proofs.Forms
import Conform.Proofs.Reading
import Conform.Proofs.WellFormed
import Conform.Proofs.Exporting
import Conform.Proofs.Selecting
import Conform.Proofs.Legality
import Conform.Proofs.Declared
import Conform.Proofs.Refusing
import Conform.Proofs.Agreement
import Conform.Proofs.Relaxing
import Conform.Proofs.Ordering
import Conform.Proofs.ErrorPlaces
import Conform.Proofs.Places
import Conform.Proofs.Distinct
import Conform.Proofs.Inquiries
import Conform.Proofs.Obligations
import Conform.Proofs.Branches
import Conform.Proofs.Unions
import Conform.Proofs.Overriding
import Conform.Proofs.Padding
import Conform.Proofs.Joining
import Conform.Proofs.Legible
import Conform.Proofs.Nulls
import Conform.Proofs.Locality
import Conform.Proofs.Counting
import Conform.Proofs.Comparing
import Conform.Proofs.Spelling
import Conform.Proofs.Magnitudes
import Conform.Proofs.Finiteness
import Conform.Proofs.StatedNumbers
import Conform.Proofs.KeyedCalls
import Conform.Proofs.Constancy
import Conform.Proofs.Shortest
import Conform.Proofs.Decoding
import Conform.Proofs.NumericCases
import Conform.Proofs.Recency
import Conform.Proofs.Standalone
import Conform.Proofs.Triggering
import Conform.Proofs.Questions
import Conform.Proofs.Visits
import Conform.Proofs.Unworded
import Conform.Proofs.Wording
import Conform.Proofs.Emitting
import Conform.Proofs.Filling
import Conform.Proofs.Leafwise
import Conform.Proofs.Readers
