import SqlComposer.Clause.Change
import SqlComposer.Clause.Lock
import SqlComposer.Clause.Selection
import SqlComposer.Clause.Shape
import SqlComposer.Clause.Source
import SqlComposer.Clause.Transfer
import SqlComposer.Clauses
import SqlComposer.Clauses.Code
import SqlComposer.Code
import SqlComposer.ColumnRef
import SqlComposer.Condition
import SqlComposer.Condition.Code
import SqlComposer.Condition.Formula
import SqlComposer.Condition.Shorthand
import SqlComposer.Description.Clause
import SqlComposer.Description.Condition
import SqlComposer.Description.Payload
import SqlComposer.Description.Reading
import SqlComposer.Description.Result
import SqlComposer.Description.Table
import SqlComposer.Description.Term
import SqlComposer.Error
import SqlComposer.Execution
import SqlComposer.Fragment
import SqlComposer.Ident
import SqlComposer.Json.Edit
import SqlComposer.Json.Number
import SqlComposer.Json.Reader
import SqlComposer.Json.Value
import SqlComposer.Literal
import SqlComposer.Literal.Diagnostic
import SqlComposer.Log
import SqlComposer.Number.Decimal
import SqlComposer.Number.Double
import SqlComposer.Number.FloatText
import SqlComposer.Number.Shortest
import SqlComposer.Order
import SqlComposer.Payload
import SqlComposer.Proofs.Call.BuiltQueries
import SqlComposer.Proofs.Call.CallChains
import SqlComposer.Proofs.Call.CallFrames
import SqlComposer.Proofs.Call.CarriedClauses
import SqlComposer.Proofs.Call.CheckedArguments
import SqlComposer.Proofs.Call.CheckedQueries
import SqlComposer.Proofs.Call.GuardedChanges
import SqlComposer.Proofs.Call.MethodResults
import SqlComposer.Proofs.Call.RetainedFallbacks
import SqlComposer.Proofs.Call.SwappedCalls
import SqlComposer.Proofs.Code.CodeWithin
import SqlComposer.Proofs.Code.ColumnRefParsing
import SqlComposer.Proofs.Code.EmbeddedQueries
import SqlComposer.Proofs.Code.FragmentExpansion
import SqlComposer.Proofs.Code.IdentDenotation
import SqlComposer.Proofs.Code.PlaceholderNumbers
import SqlComposer.Proofs.Code.PrintedText
import SqlComposer.Proofs.Code.QuotedNames
import SqlComposer.Proofs.Code.QuotedTokens
import SqlComposer.Proofs.Code.RenumberedPlaceholders
import SqlComposer.Proofs.Code.StatementCommands
import SqlComposer.Proofs.Condition.AggregateShorthand
import SqlComposer.Proofs.Condition.AtomTexts
import SqlComposer.Proofs.Condition.FilterNarrowing
import SqlComposer.Proofs.Condition.LikePatterns
import SqlComposer.Proofs.Condition.PrecedenceReading
import SqlComposer.Proofs.Condition.ShorthandLeaves
import SqlComposer.Proofs.Condition.SymbolArrangement
import SqlComposer.Proofs.Condition.WrittenMeaning
import SqlComposer.Proofs.Execution.CalledHooks
import SqlComposer.Proofs.Execution.CommitLedgers
import SqlComposer.Proofs.Execution.CommittedHooks
import SqlComposer.Proofs.Execution.CompletedRuns
import SqlComposer.Proofs.Execution.FailedScopes
import SqlComposer.Proofs.Execution.HandedOutput
import SqlComposer.Proofs.Execution.HookOrder
import SqlComposer.Proofs.Execution.QueriesRun
import SqlComposer.Proofs.Execution.RereadValues
import SqlComposer.Proofs.Execution.RunProperties
import SqlComposer.Proofs.Execution.SentStatements
import SqlComposer.Proofs.Execution.ShortenedLogText
import SqlComposer.Proofs.Execution.SpanningQueries
import SqlComposer.Proofs.Execution.StatementLog
import SqlComposer.Proofs.Execution.TransactionBrackets
import SqlComposer.Proofs.Fallback.RequiredRows
import SqlComposer.Proofs.Fallback.RowsInPlace
import SqlComposer.Proofs.Fallback.UnmatchedQueries
import SqlComposer.Proofs.Insertion.CopiedQueries
import SqlComposer.Proofs.Insertion.EmbeddedInsertions
import SqlComposer.Proofs.Insertion.InsertedMatrix
import SqlComposer.Proofs.Insertion.JsonColumns
import SqlComposer.Proofs.Insertion.LayeredPayloads
import SqlComposer.Proofs.Insertion.PayloadKeys
import SqlComposer.Proofs.Insertion.PendingCells
import SqlComposer.Proofs.Insertion.RelatedRequests
import SqlComposer.Proofs.Insertion.RelatedRowNumbers
import SqlComposer.Proofs.Insertion.RowPlans
import SqlComposer.Proofs.Insertion.UpdateAssignments
import SqlComposer.Proofs.Insertion.WritableInsertions
import SqlComposer.Proofs.Json.PathConstants
import SqlComposer.Proofs.Json.TokenScanning
import SqlComposer.Proofs.Json.ValueReading
import SqlComposer.Proofs.Layout.ClauseLayout
import SqlComposer.Proofs.Layout.ConditionLayout
import SqlComposer.Proofs.Layout.ListsAndBrackets
import SqlComposer.Proofs.Layout.StatementLayout
import SqlComposer.Proofs.Mentions.ClauseSpelling
import SqlComposer.Proofs.Mentions.ConditionSpelling
import SqlComposer.Proofs.Mentions.SpelledCode
import SqlComposer.Proofs.Mentions.StatementMentions
import SqlComposer.Proofs.Mentions.StatementSpelling
import SqlComposer.Proofs.Mentions.TermSpelling
import SqlComposer.Proofs.Nested.AdmittedRows
import SqlComposer.Proofs.Nested.AnsweredInsertions
import SqlComposer.Proofs.Nested.AttachedRows
import SqlComposer.Proofs.Nested.ConstructionErrors
import SqlComposer.Proofs.Nested.FaultyRows
import SqlComposer.Proofs.Nested.WellFormedPayloads
import SqlComposer.Proofs.Nested.WriteTrees
import SqlComposer.Proofs.Schema.CatalogBuild
import SqlComposer.Proofs.Schema.DeclaredColumns
import SqlComposer.Proofs.Script.AnsweredSteps
import SqlComposer.Proofs.Script.ExceptResults
import SqlComposer.Proofs.Script.PlayedScripts
import SqlComposer.Proofs.Statement.CheckedStatements
import SqlComposer.Proofs.Statement.DeletionSources
import SqlComposer.Proofs.Statement.EmptyLists
import SqlComposer.Proofs.Statement.FoldedChecks
import SqlComposer.Proofs.Statement.FoldedClauses
import SqlComposer.Proofs.Statement.HiddenColumns
import SqlComposer.Proofs.Statement.JoinedRows
import SqlComposer.Proofs.Statement.ReturnedList
import SqlComposer.Proofs.Statement.ReturnedRows
import SqlComposer.Proofs.Statement.ReturningForms
import SqlComposer.Proofs.Statement.RowLimits
import SqlComposer.Proofs.Statement.SetOperations
import SqlComposer.Proofs.Statement.UnwrittenClauses
import SqlComposer.Proofs.Statement.WrittenChanges
import SqlComposer.Proofs.Values.ByteStringText
import SqlComposer.Proofs.Values.CalendarDays
import SqlComposer.Proofs.Values.DigitStrings
import SqlComposer.Proofs.Values.NumeralTexts
import SqlComposer.Proofs.Values.UuidText
import SqlComposer.Proofs.Wire.IntegerBytes
import SqlComposer.Proofs.Wire.LiteralFates
import SqlComposer.Proofs.Wire.LiteralRoundTrip
import SqlComposer.Proofs.Wire.NumericGroups
import SqlComposer.Query
import SqlComposer.Query.Changing
import SqlComposer.Query.Combining
import SqlComposer.Query.Filtering
import SqlComposer.Query.Inserting
import SqlComposer.Query.Related
import SqlComposer.Query.Rows
import SqlComposer.Query.Selecting
import SqlComposer.Rehearsal
import SqlComposer.Result
import SqlComposer.RowPlan
import SqlComposer.Schema.Catalog
import SqlComposer.Schema.ColumnType
import SqlComposer.Schema.Table
import SqlComposer.Script
import SqlComposer.Statement
import SqlComposer.Text.Characters
import SqlComposer.Text.Unprinted
import SqlComposer.Time.Calendar
import SqlComposer.Time.Text
import SqlComposer.Uuid
import SqlComposer.Window
import SqlComposer.Wire.Bytes
import SqlComposer.Wire.Decoding
import SqlComposer.Wire.Encoding
import SqlComposer.Wire.Type
