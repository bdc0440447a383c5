import MonakaFs.Sync.Provenance.Overwrite
import MonakaFs.Sync.Mutex.Exclusion
import MonakaFs.Sync.Sharing.Accounting
import MonakaFs.Sync.Upload.Recreate
import MonakaFs.Sync.Opening
import MonakaFs.Sync.Closing
import MonakaFs.Sync.Background
import MonakaFs.Sync.FailedOpen
import MonakaFs.Sync.Deletes
import MonakaFs.Sync.Polling.Overwrites
import MonakaFs.Sync.Polling.Removals
import MonakaFs.Sync.Pushing.Close
import MonakaFs.Sync.Realtime.Honest
import MonakaFs.Sync.Unlinked
import MonakaFs.Sync.Lone.Convergence
import MonakaFs.Sync.Spelling
import MonakaFs.FsCore.Tree
import MonakaFs.FsCore.Isolation
import MonakaFs.FsCore.Reclaim
import MonakaFs.FsCore.Seeking
import MonakaFs.FsCore.Sparse
import MonakaFs.FsCore.Resolving
import MonakaFs.FsCore.Offsets
import MonakaFs.Sync.Intents
import MonakaFs.Sync.Outbound.Flush
import MonakaFs.Sync.Pending
import MonakaFs.FsCore.Locking.Exclusive
import MonakaFs.FsCore.Locking.Appends
import MonakaFs.Rpc.Sessions
import MonakaFs.Sync.Records
import MonakaFs.Rpc.Wire
import MonakaFs.Sync.Upload.Handover
import MonakaFs.Cli.Embedded
import MonakaFs.Wasi.Relative
import MonakaFs.Wasi.Appended
import MonakaFs.Sync.Listed
import MonakaFs.Sync.Outbound.Draining
import MonakaFs.Sync.Shutdown
import MonakaFs.Sync.Ticking.Polls
import MonakaFs.FsCore.Shrinking
import MonakaFs.FsCore.Numbers
import MonakaFs.Cli.SectionHeader
import MonakaFs.Cli.Globals
import MonakaFs.Rpc.Framing
import MonakaFs.Wasi.DeferredClose
import MonakaFs.Wasi.Reporting
import MonakaFs.Wasi.ReadAhead
import MonakaFs.Wasi.Sharing
import MonakaFs.Sync.S3.Fallback
import MonakaFs.Sync.S3.Pages
import MonakaFs.Sync.LocalFiles
import MonakaFs.FsCore.Folders
import MonakaFs.Sync.Inbound
