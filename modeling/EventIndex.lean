import EventIndex.Query.Run
import EventIndex.Condition.Parser
import EventIndex.Condition.Printer
import EventIndex.Settings
import EventIndex.Main
import EventIndex.Proofs.Index.MemoryBound
import EventIndex.Proofs.Index.Readings
import EventIndex.Proofs.Cursor.Conjunction
import EventIndex.Proofs.Cursor.Disjunction
import EventIndex.Proofs.Cursor.Distinct
import EventIndex.Proofs.Cursor.Filter
import EventIndex.Proofs.Cursor.Growth
import EventIndex.Proofs.Cursor.Tower
import EventIndex.Proofs.Index.Accounts
import EventIndex.Proofs.Index.Serving
import EventIndex.Proofs.Query.Answers
import EventIndex.Proofs.Index.Totals
import EventIndex.Proofs.Index.Rest
import EventIndex.Proofs.Index.Ingestion
import EventIndex.Proofs.Index.Ingested
import EventIndex.Proofs.Query.Semantics
import EventIndex.Proofs.Query.SplitLeaves
import EventIndex.Proofs.Store.Reloading
import EventIndex.Proofs.Cursor.Walks
import EventIndex.Proofs.Store.Sharing
import EventIndex.Proofs.Index.Isolation
import EventIndex.Proofs.Index.Dated
import EventIndex.Proofs.Index.Certificates
import EventIndex.Proofs.Query.Histogram
import EventIndex.Proofs.Query.Counts
import EventIndex.Proofs.Query.EventCounts
import EventIndex.Proofs.Condition.Printing
import EventIndex.Proofs.Cursor.Listed
import EventIndex.Proofs.Cursor.Intersection
import EventIndex.Proofs.Cursor.Union
import EventIndex.Index.Crew
import EventIndex.Proofs.Index.CrewSteps
import EventIndex.Proofs.Index.CrewOrder
import EventIndex.Proofs.Index.Barriers
import EventIndex.Proofs.Index.CrewProgress
import EventIndex.Proofs.Index.CrewSerial
import EventIndex.Proofs.Index.CrewProtocol
import EventIndex.Proofs.Cursor.Progress
import EventIndex.Proofs.Cursor.Retracing
import EventIndex.Proofs.Cursor.Thinned
import EventIndex.Proofs.Store.Lookups
import EventIndex.Proofs.Store.Lockstep
import EventIndex.Proofs.Store.RoundTrip
import EventIndex.Proofs.Index.Room
import EventIndex.Proofs.Page.Transparency
import EventIndex.Proofs.Index.LeastRecent
import EventIndex.Proofs.Query.TimeLookups
import EventIndex.Proofs.Index.Whereabouts
import EventIndex.Proofs.Store.Endless
import EventIndex.Proofs.Index.BehaviorCounters
import EventIndex.Proofs.Binary.Crc32
import EventIndex.Proofs.Store.Corruption
import EventIndex.Proofs.Condition.Leftover
import EventIndex.Proofs.Cursor.Seeking
import EventIndex.Proofs.SplitKey
