import EventStore.Accounts.Account
import EventStore.Accounts.Outage
import EventStore.Config
import EventStore.Sql.Delete
import EventStore.Sql.Update
import EventStore.Storage.Database
import EventStore.Storage.Memory
import EventStore.Proofs.Dispatch
import EventStore.Proofs.LiveReplay
import EventStore.Proofs.MemoryLog
import EventStore.Proofs.MemoryRuns
import EventStore.Proofs.Statements
import EventStore.Proofs.Truth
import EventStore.Proofs.IdealDatabase
import EventStore.Proofs.Runs
import EventStore.Proofs.AppendAgreement
import EventStore.Proofs.Saving
import EventStore.Proofs.Loading
import EventStore.Proofs.Writers
import EventStore.Proofs.Streams
import EventStore.Proofs.Holdings
import EventStore.Proofs.WriterSafety
import EventStore.Proofs.TextTokens
import EventStore.Proofs.TextValues
import EventStore.Proofs.Codecs
import EventStore.Proofs.AccountPayloads
import EventStore.Proofs.Reencoding
import EventStore.Proofs.Reloading
import EventStore.Proofs.RoundTrip
import EventStore.Proofs.ReplayedHistories
import EventStore.Proofs.Retries
import EventStore.Proofs.Phrases
import EventStore.Proofs.Placeholders
import EventStore.Proofs.BoundValues
import EventStore.Proofs.FilterText
import EventStore.Proofs.StaleSaves
import EventStore.Proofs.Grouping
import EventStore.Proofs.Relations
import EventStore.Proofs.ProjectedLoads
import EventStore.Proofs.ReadAgreement
import EventStore.Proofs.RowOrder
import EventStore.Proofs.SingleInsertions
import EventStore.Proofs.UnsteadyDatabase
import EventStore.Proofs.AppendAttempts
import EventStore.Proofs.AppendAtomicity
import EventStore.Proofs.EnvelopeRules
import EventStore.Proofs.DialectSpelling
import EventStore.Proofs.ParameterLimits
import EventStore.Proofs.InstantText
import EventStore.Proofs.Records
import EventStore.Proofs.EventTexts
import EventStore.Proofs.AcceptedBatches
import EventStore.Proofs.BulkLoads
import EventStore.Proofs.WrittenTables
import EventStore.Proofs.TableNames
import EventStore.Proofs.PastVersions
import EventStore.Proofs.RepeatedEvents
import EventStore.Proofs.PassedOverRows
import EventStore.Proofs.ReadOrder
import EventStore.Proofs.IdentityTexts
import EventStore.Proofs.CutBatches
import EventStore.Proofs.NormalRows
import EventStore.Proofs.WellFormed
import EventStore.Proofs.Negation
import EventStore.Proofs.MissingSpellings
import EventStore.Proofs.Routing
import EventStore.Proofs.Tasks
import EventStore.Proofs.QuotedNames
import EventStore.Proofs.CanonicalIdentities
