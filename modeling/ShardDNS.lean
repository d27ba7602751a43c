import ShardDNS.Library.LabelTree
import ShardDNS.Library.EpochCache
import ShardDNS.Library.ReadCommitted
import ShardDNS.Library.Program
import ShardDNS.Library.Since
import ShardDNS.Library.Layout
import ShardDNS.Library.Keyset
import ShardDNS.Library.Slices
import ShardDNS.Library.Ownership
import ShardDNS.Go.Unicode
import ShardDNS.Go.Strings
import ShardDNS.Go.Lowering
import ShardDNS.Go.Letters
import ShardDNS.Go.Encoding
import ShardDNS.Go.Spellings
import ShardDNS.Go.Map
import ShardDNS.DNS.Message
import ShardDNS.DNS.NameCodec
import ShardDNS.DNS.MessageCodec
import ShardDNS.DNS.RoundTrip
import ShardDNS.DNS.Grammar
import ShardDNS.DNS.Datagrams
import ShardDNS.DNS.RData
import ShardDNS.DNS.Names
import ShardDNS.Store.Names
import ShardDNS.Store.Database
import ShardDNS.Store.Writes
import ShardDNS.Store.Contents
import ShardDNS.Store.Pages
import ShardDNS.Store.Tables
import ShardDNS.Store.Transactions
import ShardDNS.Store.Integrity
import ShardDNS.Store.Keyed
import ShardDNS.Store.Interleavings
import ShardDNS.Store.Journal
import ShardDNS.Store.Deadlocks
import ShardDNS.Store.Migration
import ShardDNS.Store.Cache
import ShardDNS.Store.EpochGuard
import ShardDNS.Store.Capacity
import ShardDNS.Store.Cached
import ShardDNS.Store.Loads
import ShardDNS.Store.Coherence
import ShardDNS.Store.Visibility
import ShardDNS.Store.Expiry
import ShardDNS.DNS.Handler
import ShardDNS.DNS.Folding
import ShardDNS.DNS.Calls
import ShardDNS.DNS.Enclosing
import ShardDNS.DNS.Resolution
import ShardDNS.DNS.Envelope
import ShardDNS.DNS.Failures
import ShardDNS.DNS.QuestionEcho
import ShardDNS.DNS.Server
import ShardDNS.DNS.Replies
import ShardDNS.DNS.Provenance
import ShardDNS.DNS.Effort
import ShardDNS.DNS.Inside
import ShardDNS.DNS.Cluster
import ShardDNS.DNS.Serials
import ShardDNS.DNS.Buffers
import ShardDNS.DNS.Streams
import ShardDNS.DNS.Service
import ShardDNS.DNS.Recycling
import ShardDNS.DNS.Accounting
import ShardDNS.DNS.Lifecycle
import ShardDNS.DNS.Lookup
import ShardDNS.DNS.Chains
import ShardDNS.DNS.Groups
import ShardDNS.DNS.Rotation
import ShardDNS.DNS.Spelling
import ShardDNS.DNS.Repetition
import ShardDNS.DNS.Connected
import ShardDNS.DNS.Glue
import ShardDNS.DNS.RDataSizes
import ShardDNS.DNS.RDataLayout
import ShardDNS.DNS.Presentation
import ShardDNS.DNS.Quoting
import ShardDNS.DNS.Canonical
import ShardDNS.DNS.Delegation
import ShardDNS.DNS.Redirection
import ShardDNS.DNS.Negative
import ShardDNS.API.Service
import ShardDNS.API.Updates
import ShardDNS.API.Runs
import ShardDNS.API.Listing
import ShardDNS.API.Answerable
import ShardDNS.API.SOARecords
import ShardDNS.API.Substitution
import ShardDNS.API.Served
import ShardDNS.API.Reads
import ShardDNS.Daemon
