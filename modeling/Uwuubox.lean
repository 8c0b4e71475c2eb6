import Uwuubox.Prog.Pool
import Uwuubox.Storage.ReadBack
import Uwuubox.Storage.Multipart
import Uwuubox.Storage.Spool
import Uwuubox.Storage.Write
import Uwuubox.Storage.PutFile
import Uwuubox.Storage.RoundTrip
import Uwuubox.Storage.WriteFaults
import Uwuubox.Storage.ReadFaults
import Uwuubox.Storage.Tamper
import Uwuubox.Dedupe.Database
import Uwuubox.Dedupe.Requests
import Uwuubox.Dedupe.Ledger
import Uwuubox.Dedupe.Discipline
import Uwuubox.Dedupe.Consistency
import Uwuubox.Dedupe.Durability
import Uwuubox.Prog.Fallible
import Uwuubox.Server.Limits
import Uwuubox.Storage.PlainObjects
import Uwuubox.Server.Words
import Uwuubox.Table.Keyed
import Uwuubox.Server.World
import Uwuubox.Server.Handler
import Uwuubox.Server.Files
import Uwuubox.Server.Pastes
import Uwuubox.Server.Uploads
import Uwuubox.Server.Bundles
import Uwuubox.Server.Accounts
import Uwuubox.Server.Requests
import Uwuubox.Server.Footprint
import Uwuubox.Server.Frames
import Uwuubox.Server.TokenScopes
import Uwuubox.Prog.Schedule
import Uwuubox.Server.Admins
import Uwuubox.Server.Bootstrap
import Uwuubox.Server.ScopeMap
import Uwuubox.Server.Publishing
import Uwuubox.Server.BurnOnce
import Uwuubox.Server.BurnKept
import Uwuubox.Server.Links
import Uwuubox.Storage.Completion
import Uwuubox.Server.CoreOnce
import Uwuubox.Prog.Sequence
import Uwuubox.Server.Passwords
import Uwuubox.Prog.Faults
import Uwuubox.Dedupe.Retry
import Uwuubox.Gc.Inspect
import Uwuubox.Gc.Reclaim
import Uwuubox.Prog.Tracked
import Uwuubox.Dedupe.Work
import Uwuubox.Gc.Cleared
import Uwuubox.Dedupe.Leftovers
import Uwuubox.Gc.Repair
import Uwuubox.Server.PartialEdits
import Uwuubox.Server.RawReads
import Uwuubox.Server.SpoolFiles
import Uwuubox.Prog.Transaction
import Uwuubox.Server.Invites
import Uwuubox.Server.Quota
import Uwuubox.Server.Resets
import Uwuubox.Server.Avatars
import Uwuubox.Table.Overlay
import Uwuubox.Server.CollectionItems
import Uwuubox.Server.CollectionOrder
import Uwuubox.Bytes.Utf8
import Uwuubox.Server.FileNames
import Uwuubox.Server.Ranges
import Uwuubox.Server.Sniffing
import Uwuubox.Server.SpoolCap
import Uwuubox.Storage.DeferredWrites
import Uwuubox.Storage.Nonces
import Uwuubox.Table.Ranked
import Uwuubox.Server.Explore
import Uwuubox.Server.Revocations
import Uwuubox.Server.Passkeys
import Uwuubox.Dedupe.Backfill
import Uwuubox.Prog.Related
import Uwuubox.Server.Liveness
import Uwuubox.Server.Provisioning
import Uwuubox.Server.RateLimit
import Uwuubox.Server.AppendItem
import Uwuubox.Server.ArchiveNames
import Uwuubox.Server.Usernames
import Uwuubox.Server.Lifetimes
import Uwuubox.Server.BodyLimit
import Uwuubox.Server.Settings
import Uwuubox.Gc.DryRun
import Uwuubox.Server.Extensions
import Uwuubox.Dedupe.Balance
import Uwuubox.Server.Accounting
import Uwuubox.Gc.Alongside
import Uwuubox.Gc.Guarded
import Uwuubox.Table.Grouped
import Uwuubox.Dedupe.Expansion
import Uwuubox.Gc.Undisturbed
import Uwuubox.Gc.Interleaved
import Uwuubox.Prog.Evidence
import Uwuubox.Server.Login
import Uwuubox.Server.Facts
import Uwuubox.Dedupe.Removal
import Uwuubox.Server.Grounds
import Uwuubox.Server.Entitled
import Uwuubox.Server.Strangers
import Uwuubox.Table.Paged
import Uwuubox.Server.Comments
import Uwuubox.Server.CommentRights
import Uwuubox.Server.CommentRuns
import Uwuubox.Prog.Evaluate
import Uwuubox.Server.CommentPages
import Uwuubox.Server.Shown
import Uwuubox.Server.Roles
import Uwuubox.Server.RoleRights
import Uwuubox.Server.RoleRuns
import Uwuubox.Prog.Turns
import Uwuubox.Gc.Inventory
import Uwuubox.Gc.Listing
import Uwuubox.Gc.Backends
import Uwuubox.Table.Oldest
import Uwuubox.Server.Sweeps
import Uwuubox.Server.ConfigForm
