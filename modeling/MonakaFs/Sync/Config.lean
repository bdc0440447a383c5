import MonakaFs.Data.Text
import MonakaFs.FsCore.Types
import MonakaFs.Sync.State

/-! The configuration as it is read from the environment. -/

set_option autoImplicit false

namespace MonakaFs.Sync

open FsCore

def SyncMode.parse (value : Option String) : SyncMode :=
  if value = some "realtime" ∨ value = some "real-time" ∨ value = some "immediate" then .realTime else .batch

def InboundMode.parse (value : Option String) : InboundMode :=
  if value = some "none" ∨ value = some "disabled" then .none
  else if value = some "readthrough" ∨ value = some "read-through" then .readThrough
  else .polling

def MetadataMode.parse (value : Option String) : MetadataMode := if value = some "s3" then .s3 else .local

/-- A duration in seconds, in milliseconds. -/
def parseSecs (value : Option String) (defaultSecs : Nat) : Nat :=
  1000 * ((value.bind fun text => Text.parseU64 (Text.trim text.toList)).getD defaultSecs)

def parseMillis (value : Option String) (defaultMs : Nat) : Nat :=
  (value.bind fun text => Text.parseU64 (Text.trim text.toList)).getD defaultMs

def parseUsize [target : Target] (value : Option String) (default : Nat) : Nat :=
  (value.bind fun text => Text.parseUnsigned target.usizeBits (Text.trim text.toList)).getD default

/-- `enabled` or `disabled` in any case; anything else yields the default. -/
def parseEnabled (value : Option String) (default : Bool) : Bool :=
  match value.map fun text => (Text.trim text.toList).map Char.toLower with
  | some text =>
      if text = "enabled".toList then true
      else if text = "disabled".toList then false
      else default
  | none => default

/-- The configuration that a lookup of environment variables yields. -/
def SyncConfig.fromLookup [Target] (lookup : String → Option String) : SyncConfig where
  mode := .parse (lookup "VFS_SYNC_MODE")
  inboundMode := .parse (lookup "VFS_INBOUND_MODE")
  metadataMode := .parse (lookup "VFS_METADATA_MODE")
  pollInterval := parseSecs (lookup "VFS_POLL_INTERVAL_SECS") 30
  flushInterval := parseSecs (lookup "VFS_FLUSH_INTERVAL_SECS") 5
  outboundBatchSize := parseUsize (lookup "VFS_OUTBOUND_BATCH_SIZE") 10
  fileLock := parseEnabled (lookup "VFS_S3_FILE_LOCK") true
  lockTimeout := parseMillis (lookup "VFS_S3_FILE_LOCK_TIMEOUT_MS") 10000
  lockLease := parseSecs (lookup "VFS_S3_FILE_LOCK_LEASE_SECS") 30

end MonakaFs.Sync
