import RecordQuery.CommandLine.Command
import RecordQuery.Error
import RecordQuery.Filter.Evaluation
import RecordQuery.Filter.Printer
import RecordQuery.Filter.Reader
import RecordQuery.Json.Printer
import RecordQuery.Json.Reader
import RecordQuery.Main
import RecordQuery.Options.Query
import RecordQuery.Page
import RecordQuery.Proofs.Filter.Guard
import RecordQuery.Proofs.Filter.Truth
import RecordQuery.Settings
import RecordQuery.Proofs.Filter.Canonical
import RecordQuery.Proofs.Filter.Lexing
import RecordQuery.Proofs.Filter.Viable
import RecordQuery.Proofs.Options.WellFormed
import RecordQuery.Proofs.Number.Integer
import RecordQuery.Proofs.Options.QueryString
import RecordQuery.Proofs.Options.Operation
import RecordQuery.Proofs.Options.History
import RecordQuery.Proofs.Page.Places
import RecordQuery.Proofs.Options.Object
import RecordQuery.Proofs.Options.Count
import RecordQuery.Proofs.Text.Decoding
import RecordQuery.Proofs.Text.Pieces
import RecordQuery.Proofs.Options.ExactCount
import RecordQuery.Proofs.SortOrder.Antisymmetry
import RecordQuery.Proofs.SortOrder.ReadBack
import RecordQuery.Proofs.Options.PlainQuery
import RecordQuery.Proofs.Options.CustomName
import RecordQuery.Proofs.Filter.Limit
import RecordQuery.Proofs.Filter.Part
import RecordQuery.Proofs.Text.Utf8
import RecordQuery.Proofs.CommandLine.Stream
import RecordQuery.Proofs.Number.Significant
import RecordQuery.Proofs.Value.DateText
import RecordQuery.Proofs.Date.Spelling
import RecordQuery.Proofs.CommandLine.AllowMissing
import RecordQuery.Proofs.Options.Extension
import RecordQuery.Proofs.Page.Tiling
import RecordQuery.Proofs.Path.Names
import RecordQuery.Proofs.Filter.Join
import RecordQuery.Proofs.Filter.Dependence
