import MailKeep.Program.Basic
import MailKeep.Program.Machine
import MailKeep.Program.Safe
import MailKeep.Program.Trace
import MailKeep.Program.Loop
import MailKeep.Keyed.Table
import MailKeep.Ranked.Page
import MailKeep.Core.Types
import MailKeep.Core.Query
import MailKeep.Files.FileSystem
import MailKeep.Storage.Blob
import MailKeep.Storage.ConcurrentPut
import MailKeep.Database.Schema
import MailKeep.Database.Error
import MailKeep.Database.Listing
import MailKeep.Database.SyncState
import MailKeep.Database.Recording
import MailKeep.Database.Jobs
import MailKeep.Search.Schema
import MailKeep.Search.Service
import MailKeep.Search.IndexRuns
import MailKeep.Search.Resolution
import MailKeep.Search.AccountScope
import MailKeep.Search.Isolation
import MailKeep.Imap.Types
import MailKeep.Pipeline.Backend
import MailKeep.Imap.SyncFolder
import MailKeep.Imap.PassRules
import MailKeep.Imap.View
import MailKeep.Imap.Coverage
import MailKeep.Imap.Rollover
import MailKeep.Imap.Cursor
import MailKeep.Unicode.LetterCase
import MailKeep.Users.Model
import MailKeep.Users.Repository
import MailKeep.Users.Requests
import MailKeep.Users.Login
import MailKeep.Users.Site
import MailKeep.Users.Privilege
import MailKeep.Users.Password
import MailKeep.Program.Place
import MailKeep.Program.Embed
import MailKeep.Jobs.Worker
import MailKeep.Jobs.Lease
import MailKeep.Jobs.Exclusivity
import MailKeep.Jobs.Orphans
import MailKeep.Jobs.Attempts
import MailKeep.Jobs.Wakeup
import MailKeep.Database.Accounts
import MailKeep.Accounts.Sync
import MailKeep.Accounts.Reconcile
import MailKeep.Parser.Handler
import MailKeep.Accounts.Installation
import MailKeep.Accounts.Deletion
import MailKeep.Accounts.Cascade
import MailKeep.Pipeline.Workers
import MailKeep.Pipeline.Delivery
import MailKeep.Pipeline.Placement
import MailKeep.Program.Only
import MailKeep.Keyed.Versioned
import MailKeep.Database.AccountRows
import MailKeep.Users.Lookups
import MailKeep.Users.Sessions
import MailKeep.Users.Revocation
import MailKeep.Users.Bootstrap
import MailKeep.Accounts.Registry
import MailKeep.Accounts.Disabled
import MailKeep.Accounts.Versions
import MailKeep.Imap.SharedStatus
import MailKeep.Imap.MaskedError
import MailKeep.Program.Play
import MailKeep.Accounts.Creation
import MailKeep.Pipeline.Deduplication
import MailKeep.Files.Durability
import MailKeep.Storage.DiskStore
import MailKeep.Storage.CrashAtomicity
import MailKeep.Storage.Durability
import MailKeep.Keyed.LastWrite
import MailKeep.Imap.ServedMail
import MailKeep.Pipeline.Backlog
import MailKeep.Pipeline.Serving
import MailKeep.Search.HintScope
import MailKeep.Search.Slices
import MailKeep.Frontend.SearchResults
import MailKeep.Frontend.LoadMore
import MailKeep.Search.FolderPaths
import MailKeep.Search.DateBounds
import MailKeep.Parser.RemoteImages
import MailKeep.Search.Drains
import MailKeep.Scan.Find
import MailKeep.Search.HtmlText
import MailKeep.Calendar.Civil
import MailKeep.Core.QueryText
import MailKeep.Pipeline.Resumption
import MailKeep.Pipeline.CrashedRollover
import MailKeep.Core.HexDigest
import MailKeep.Scan.Stretches
import MailKeep.Core.Tokens
import MailKeep.Keyed.Expiring
import MailKeep.Frontend.OidcState
import MailKeep.Accounts.Tick
import MailKeep.Accounts.FolderSelection
import MailKeep.Accounts.SelectedFolders
import MailKeep.Accounts.SelectionFailure
import MailKeep.Scan.Split
import MailKeep.Forest.Descent
import MailKeep.Frontend.FolderTree
import MailKeep.Frontend.SubtreeSelection
import MailKeep.Channel.Broadcast
import MailKeep.Frontend.EventStream
import MailKeep.Accounts.Announcements
import MailKeep.Accounts.ListPages
import MailKeep.Ranked.Arrivals
import MailKeep.Database.MessageReads
import MailKeep.Frontend.MessageList
import MailKeep.Imap.Adapter
import MailKeep.Imap.Supervision
import MailKeep.Imap.Shutdown
import MailKeep.Keyed.Select
import MailKeep.Database.UserReads
import MailKeep.Accounts.Confinement
import MailKeep.Program.Mutex
import MailKeep.Frontend.Oidc
import MailKeep.Frontend.OidcCell
import MailKeep.Frontend.OidcLogin
import MailKeep.Frontend.OidcFlows
import MailKeep.Program.Embedded
import MailKeep.Frontend.MessageView
import MailKeep.Frontend.ArchivedMail
import MailKeep.Frontend.ViewedMail
import MailKeep.Program.Simulation
import MailKeep.Core.Crypto
import MailKeep.Keyed.Mapped
import MailKeep.Accounts.Sealing
import MailKeep.Accounts.KeyChange
import MailKeep.Frontend.Completion
import MailKeep.Frontend.SearchBox
import MailKeep.Frontend.SearchHint
import MailKeep.Frontend.AccountAdd
