import MonakaFs.Sync.ObjectStore

/-! Lease records, as they are written under `locks/`, and the local lease table.

A record is plain text with one `key=value` line for each field. The reader takes
the last line that names a field, so a field that spans several lines is read
back as something else than what was written.
-/

set_option autoImplicit false

namespace MonakaFs.Sync

def utf8 (text : String) : Bytes := text.toUTF8.data.toList

def fromUtf8 (body : Bytes) : Option String := String.fromUTF8? ⟨body.toArray⟩

@[simp] theorem fromUtf8_utf8 (text : String) : fromUtf8 (utf8 text) = some text := by
  unfold fromUtf8 utf8 String.fromUTF8?
  rw [Array.toArray_toList]
  exact dif_pos text.isValidUTF8

theorem utf8_injective : Function.Injective utf8 := by
  intro first second same
  have decoded := congrArg fromUtf8 same
  rwa [fromUtf8_utf8, fromUtf8_utf8, Option.some.injEq] at decoded

/-- The random identity of one running instance: lower-case hexadecimal digits. -/
structure InstanceId where
  text : String
  hex : ∀ c ∈ text.toList, c.isDigit ∨ ('a' ≤ c ∧ c ≤ 'f')
  deriving DecidableEq

structure LockRecord where
  instanceId : String
  epoch : Nat
  /-- Unix milliseconds from which the lease may be taken over. -/
  expiresMs : Nat
  path : String
  deriving DecidableEq, Repr

namespace LockRecord

def encode (record : LockRecord) : Bytes :=
  utf8 s!"instance={record.instanceId}\nepoch={record.epoch}\nexpires={record.expiresMs}\npath={record.path}\n"

/-- The fields read so far. -/
structure Fields where
  instanceId : Option String := none
  epoch : Option Nat := none
  expires : Option Nat := none
  path : Option String := none

def Fields.read (fields : Fields) (line : List Char) : Fields :=
  match Text.splitOnce '=' line with
  | none => fields
  | some (k, v) =>
      let key := Text.trim k
      let value := Text.trim v
      if key = "instance".toList then { fields with instanceId := some (String.ofList value) }
      else if key = "epoch".toList then { fields with epoch := Text.parseU64 value }
      else if key = "expires".toList then { fields with expires := Text.parseU64 value }
      else if key = "path".toList then { fields with path := some (String.ofList value) }
      else fields

def Fields.record (fields : Fields) : Option LockRecord := do
  let instanceId ← fields.instanceId
  let epoch ← fields.epoch
  let expires ← fields.expires
  return ⟨instanceId, epoch, expires, fields.path.getD ""⟩

/-- `none` for unreadable bodies; callers treat them as expired. -/
def parse (body : Bytes) : Option LockRecord :=
  (fromUtf8 body).bind fun text => ((Text.lines text.toList).foldl Fields.read {}).record

def isExpired (record : LockRecord) (now : Nat) : Bool := decide (record.expiresMs ≤ now)

end LockRecord

/-- Local bookkeeping for a lease this instance holds. -/
structure WriteLease where
  /-- ETag of the data object when the lease was taken or after the last PUT;
  `none` when the object did not exist. -/
  baseEtag : Option String
  lockEtag : String
  epoch : Nat
  expiresAt : Nat
  refcount : Nat
  dirty : Bool
  pendingDelete : Bool
  lost : Bool
  releasing : Bool
  deriving DecidableEq, Repr

abbrev LeaseTable := Map WriteLease

/-- The base of the lease on a path, if it is leased and has one. -/
def LeaseTable.base (table : LeaseTable) (path : String) : Option String :=
  (table.lookup path).bind (·.baseEtag)

/-- A change of entries that leaves their bases alone. -/
theorem LeaseTable.base_alter (table : LeaseTable) (path path' : String) {change : WriteLease → WriteLease}
    (same : ∀ lease, (change lease).baseEtag = lease.baseEtag) :
    LeaseTable.base (table.alter path change) path' = table.base path' := by
  unfold LeaseTable.base
  rw [Map.lookup_alter]
  split
  · next equal =>
    subst equal
    cases table.lookup path' <;> simp [same]
  · rfl

theorem LeaseTable.base_alter_ne (table : LeaseTable) {path path' : String} (different : path' ≠ path)
    (change : WriteLease → WriteLease) : LeaseTable.base (table.alter path change) path' = table.base path' := by
  rw [LeaseTable.base, Map.lookup_alter, if_neg different]
  rfl

/-- A change that pins the same base in every entry. -/
theorem LeaseTable.base_alter_pin (table : LeaseTable) {path : String} {change : WriteLease → WriteLease}
    {base : Option String} (pins : ∀ lease, (change lease).baseEtag = base) {etag : String}
    (found : LeaseTable.base (table.alter path change) path = some etag) : base = some etag := by
  rw [LeaseTable.base, Map.lookup_alter, if_pos rfl] at found
  cases present : table.lookup path with
  | none => simp [present] at found
  | some lease => simpa [present, pins] using found

/-- Leases past half of their lifetime. -/
def LeaseTable.pathsNeedingRenewal (table : LeaseTable) (now lease : Nat) : List String :=
  (table.entries.filter fun entry =>
    !entry.2.releasing && !entry.2.lost && decide (entry.2.expiresAt - now ≤ lease / 2)).map (·.1)

namespace InstanceId

theorem plain (id : InstanceId) {c : Char} (member : c ∈ id.text.toList) : 48 ≤ c.toNat ∧ c.toNat ≤ 102 := by
  rcases id.hex c member with digit | ⟨low, high⟩
  · simp only [Char.isDigit, Bool.and_eq_true, decide_eq_true_eq] at digit
    have low : 48 ≤ c.toNat := digit.1
    have high : c.toNat ≤ 57 := digit.2
    omega
  · have low : 97 ≤ c.toNat := low
    have high : c.toNat ≤ 102 := high
    omega

theorem newline (id : InstanceId) : '\n' ∉ id.text.toList := fun member =>
  absurd (id.plain member).1 (by decide)

theorem carriage (id : InstanceId) : '\r' ∉ id.text.toList := fun member =>
  absurd (id.plain member).1 (by decide)

theorem trimmed (id : InstanceId) : Text.trim id.text.toList = id.text.toList := by
  refine Text.trim_eq_self _ fun c member => ?_
  have range := id.plain member
  rw [Bool.eq_false_iff]
  intro space
  simp only [Text.isWhiteSpace, Bool.or_eq_true, Bool.and_eq_true, decide_eq_true_eq, beq_iff_eq] at space
  omega

end InstanceId

namespace LockRecord

theorem toList_encoded (record : LockRecord) :
    s!"instance={record.instanceId}\nepoch={record.epoch}\nexpires={record.expiresMs}\npath={record.path}\n".toList =
      ("instance".toList ++ '=' :: record.instanceId.toList) ++ '\n' ::
      (("epoch".toList ++ '=' :: Nat.toDigits 10 record.epoch) ++ '\n' ::
      (("expires".toList ++ '=' :: Nat.toDigits 10 record.expiresMs) ++ '\n' ::
      (("path".toList ++ '=' :: record.path.toList) ++ ['\n']))) := by
  simp [toString, String.toList_append, Nat.toList_repr]

theorem Fields.read_instance (fields : Fields) (value : List Char) :
    fields.read ("instance".toList ++ '=' :: value) =
      { fields with instanceId := some (String.ofList (Text.trim value)) } := by
  rw [Fields.read, Text.splitOnce_append _ _ _ (by decide)]
  exact if_pos (by decide)

theorem Fields.read_epoch (fields : Fields) (value : List Char) :
    fields.read ("epoch".toList ++ '=' :: value) = { fields with epoch := Text.parseU64 (Text.trim value) } := by
  rw [Fields.read, Text.splitOnce_append _ _ _ (by decide)]
  exact (if_neg (by decide)).trans (if_pos (by decide))

theorem Fields.read_expires (fields : Fields) (value : List Char) :
    fields.read ("expires".toList ++ '=' :: value) =
      { fields with expires := Text.parseU64 (Text.trim value) } := by
  rw [Fields.read, Text.splitOnce_append _ _ _ (by decide)]
  exact (if_neg (by decide)).trans ((if_neg (by decide)).trans (if_pos (by decide)))

theorem Fields.read_path (fields : Fields) (value : List Char) :
    fields.read ("path".toList ++ '=' :: value) =
      { fields with path := some (String.ofList (Text.trim value)) } := by
  rw [Fields.read, Text.splitOnce_append _ _ _ (by decide)]
  exact (if_neg (by decide)).trans ((if_neg (by decide)).trans ((if_neg (by decide)).trans (if_pos (by decide))))

theorem trim_toDigits (n : Nat) : Text.trim (Nat.toDigits 10 n) = Nat.toDigits 10 n :=
  Text.trim_eq_self _ fun _ member =>
    Text.isWhiteSpace_digit (Nat.isDigit_of_mem_toDigits (by decide) (by decide) member)

theorem digits_plain {n : Nat} {c : Char} (other : c.isDigit = false) : c ∉ Nat.toDigits 10 n := fun member => by
  rw [Nat.isDigit_of_mem_toDigits (by decide) (by decide) member] at other
  cases other

/-- A record whose path has no line feed reads back as it was written, up to
white space around the path. -/
theorem parse_encode (id : InstanceId) (epoch expires : Nat) (path : String) (oneLine : '\n' ∉ path.toList)
    (epochBound : epoch < 2 ^ 64) (expiresBound : expires < 2 ^ 64) :
    parse (encode ⟨id.text, epoch, expires, path⟩) =
      some ⟨id.text, epoch, expires, String.ofList (Text.trim (Text.closeLine path.toList.reverse))⟩ := by
  have holder : '\n' ∉ "instance".toList ++ '=' :: id.text.toList := by simpa using id.newline
  have holder' : '\r' ∉ "instance".toList ++ '=' :: id.text.toList := by simpa using id.carriage
  have epochs : '\n' ∉ "epoch".toList ++ '=' :: Nat.toDigits 10 epoch := by simpa using digits_plain rfl
  have epochs' : '\r' ∉ "epoch".toList ++ '=' :: Nat.toDigits 10 epoch := by simpa using digits_plain rfl
  have ends : '\n' ∉ "expires".toList ++ '=' :: Nat.toDigits 10 expires := by simpa using digits_plain rfl
  have ends' : '\r' ∉ "expires".toList ++ '=' :: Nat.toDigits 10 expires := by simpa using digits_plain rfl
  have paths : '\n' ∉ "path".toList ++ '=' :: path.toList := by simpa using oneLine
  have last : Text.closeLine ("path".toList ++ '=' :: path.toList).reverse =
      "path".toList ++ '=' :: Text.closeLine path.toList.reverse := by
    simpa using Text.closeLine_append "path=".toList path.toList (by decide)
  have lines : Text.lines (String.toList
      s!"instance={id.text}\nepoch={epoch}\nexpires={expires}\npath={path}\n") =
      ["instance".toList ++ '=' :: id.text.toList, "epoch".toList ++ '=' :: Nat.toDigits 10 epoch,
        "expires".toList ++ '=' :: Nat.toDigits 10 expires,
        "path".toList ++ '=' :: Text.closeLine path.toList.reverse] := by
    rw [toList_encoded ⟨id.text, epoch, expires, path⟩, Text.lines_line _ _ holder, Text.lines_line _ _ epochs,
      Text.lines_line _ _ ends, Text.lines_last _ paths, Text.closeLine_reverse _ holder',
      Text.closeLine_reverse _ epochs', Text.closeLine_reverse _ ends', last]
  simp only [parse, encode, fromUtf8_utf8, Option.bind_some, lines, List.foldl_cons, List.foldl_nil,
    Fields.read_instance, Fields.read_epoch, Fields.read_expires, Fields.read_path, id.trimmed,
    String.ofList_toList, trim_toDigits, Text.parseU64_toDigits _ epochBound,
    Text.parseU64_toDigits _ expiresBound]
  rfl

/-- Different records have different bodies, whatever their paths contain. -/
theorem encode_inj {id id' : InstanceId} {epoch epoch' expires expires' : Nat} {path path' : String}
    (same : encode ⟨id.text, epoch, expires, path⟩ = encode ⟨id'.text, epoch', expires', path'⟩) :
    id = id' ∧ epoch = epoch' ∧ expires = expires' ∧ path = path' := by
  have texts := congrArg String.toList (utf8_injective same)
  rw [toList_encoded ⟨id.text, epoch, expires, path⟩, toList_encoded ⟨id'.text, epoch', expires', path'⟩] at texts
  have ⟨holder, texts⟩ := Text.line_inj (by simpa using id.newline) (by simpa using id'.newline) texts
  have ⟨epochs, texts⟩ := Text.line_inj (by simpa using digits_plain rfl) (by simpa using digits_plain rfl) texts
  have ⟨ends, texts⟩ := Text.line_inj (by simpa using digits_plain rfl) (by simpa using digits_plain rfl) texts
  simp only [List.append_cancel_left_eq, List.cons.injEq, true_and] at holder epochs ends
  have paths : path.toList = path'.toList := by simpa using texts
  refine ⟨?_, Text.toDigits_inj epochs, Text.toDigits_inj ends, String.toList_injective paths⟩
  cases id
  cases id'
  simpa using String.toList_injective holder

end LockRecord
end MonakaFs.Sync
