import MonakaFs.Async.Join
import MonakaFs.Sync.ObjectStore

/-! The production object store: a client of the S3 API.

Each operation of the object store is a program of API calls. A large body goes up in
parts that are under way together, a listing comes in pages, and a conditional delete that the
backend does not implement becomes a comparison and a plain delete.
-/

set_option autoImplicit false

namespace MonakaFs.Sync.S3

open Async

/-- The conditional headers of a call. -/
structure Conditions where
  ifMatch : Option String := none
  ifNoneMatch : Option String := none
  deriving DecidableEq

structure CompletedPart where
  partNumber : Nat
  eTag : String
  deriving DecidableEq

/-- One call of the API, for the bucket of the client. -/
inductive S3Call where
  | putObject (key : String) (body : Bytes) (conditions : Conditions)
  | createMultipartUpload (key : String)
  | uploadPart (key uploadId : String) (partNumber : Nat) (body : Bytes)
  | completeMultipartUpload (key uploadId : String) (parts : List CompletedPart) (conditions : Conditions)
  | abortMultipartUpload (key uploadId : String)
  | listObjectsV2 (pre : String) (maxKeys : Option Int) (continuationToken : Option String)
  | headObject (key : String)
  | getObject (key : String)
  | deleteObject (key : String) (ifMatch : Option String)
  deriving DecidableEq

structure ListedObject where
  key : Option String
  eTag : Option String
  lastModified : Option Nat
  size : Option Nat
  deriving DecidableEq

structure ListPage where
  contents : Option (List ListedObject)
  isTruncated : Option Bool
  nextContinuationToken : Option String
  deriving DecidableEq

structure HeadOutput where
  eTag : Option String
  lastModified : Option Nat
  contentLength : Option Nat
  deriving DecidableEq

/-- The body is a stream that may break off. -/
structure GetOutput where
  eTag : Option String
  lastModified : Option Nat
  body : Except String Bytes

abbrev S3Call.Output : S3Call → Type
  | .putObject .. => Option String
  | .createMultipartUpload _ => Option String
  | .uploadPart .. => Option String
  | .completeMultipartUpload .. => Option String
  | .abortMultipartUpload .. => Unit
  | .listObjectsV2 .. => ListPage
  | .headObject _ => HeadOutput
  | .getObject _ => GetOutput
  | .deleteObject .. => Unit

structure SdkError where
  /-- Of the raw response, when one came. -/
  status : Option Nat
  code : Option String
  /-- The text of an error that the service itself reports. -/
  service : Option String
  causes : String
  deriving DecidableEq

abbrev S3Call.Answer (call : S3Call) := Except SdkError call.Output

inductive Kind where
  | read
  | write
  | delete

def quoteEtag (etag : String) : String := "\"" ++ Text.trimMatches '"' etag ++ "\""

def unquote (etag : Option String) : String := Text.trimMatches '"' (etag.getD "")

def classify (key : String) (e : SdkError) (kind : Kind) : S3Error :=
  let code := e.code.getD ""
  let message := match e.service with
    | some text => s!"{text} ({code})"
    | none => e.causes
  if e.status = some 412 ∨ e.status = some 409 ∨ code = "PreconditionFailed" ∨ code = "ConditionalRequestConflict" then
    .preconditionFailed key (e.status.getD 0) code
  else if e.status = some 404 ∨ code = "NotFound" ∨ code = "NoSuchKey" then .notFound key
  else if e.status = some 501 ∨ code = "NotImplemented" then .notImplemented key message
  else
    match kind with
    | .read => .read key message
    | .write => .write key message
    | .delete => .delete key message

/-- The header that a precondition becomes. -/
def conditions : Precondition → Conditions
  | .none => {}
  | .ifMatch etag => { ifMatch := some (quoteEtag etag) }
  | .ifNoneMatchAny => { ifNoneMatch := some "*" }

/-- A delete carries `If-Match` only. -/
def deleteHeader : Precondition → Option String
  | .ifMatch etag => some (quoteEtag etag)
  | _ => none

inductive ClientOp where
  | send (call : S3Call)
  /-- `conditional_delete_supported.load`. -/
  | loadSupported
  /-- `conditional_delete_supported.store(false)`. -/
  | storeUnsupported
  /-- The order in which the calls of joined futures arrive. -/
  | arrange (futures : Nat)

abbrev ClientOp.Reply : ClientOp → Type
  | .send call => call.Answer
  | .loadSupported => Bool
  | .storeUnsupported => Unit
  | .arrange _ => List Nat

abbrev clientSignature : Signature := ⟨ClientOp, ClientOp.Reply⟩

abbrev S3Task (A : Type) := Prog clientSignature A

section
variable {B : Type}

def send (call : S3Call) : S3Task call.Answer := .call (I := clientSignature) (.send call) .done

def loadSupported : S3Task Bool := .call (I := clientSignature) .loadSupported .done

def storeUnsupported : S3Task Unit := .call (I := clientSignature) .storeUnsupported .done

def arrange (futures : Nat) : S3Task (List Nat) := .call (I := clientSignature) (.arrange futures) .done

/-- A task that performs one operation first. -/
abbrev next (op : ClientOp) (k : op.Reply → S3Task B) : S3Task B := .call (I := clientSignature) op k

@[simp] theorem send_bind (call : S3Call) (k : call.Answer → S3Task B) : (send call >>= k) = next (.send call) k := rfl

@[simp] theorem loadSupported_bind (k : Bool → S3Task B) : (loadSupported >>= k) = next .loadSupported k := rfl

@[simp] theorem storeUnsupported_bind (k : Unit → S3Task B) : (storeUnsupported >>= k) = next .storeUnsupported k := rfl

end

/-- 10 MiB. -/
def multipartThreshold : Nat := 10 * 1024 * 1024

/-- 10 MiB. -/
def partSize : Nat := 10 * 1024 * 1024

/-- `slice::chunks`. -/
def chunks (size : Nat) (data : Bytes) : List Bytes :=
  if 0 < size ∧ data ≠ [] then data.take size :: chunks size (data.drop size) else []
termination_by data.length
decreasing_by
  rename_i nonempty
  have := List.length_pos_iff.mpr nonempty.2
  simp only [List.length_drop]
  omega

/-- `parts.push(result?)` for one result after the other. -/
def collect {A : Type} : List (Except S3Error A) → Except S3Error (List A)
  | [] => .ok []
  | .ok value :: rest => (collect rest).map (value :: ·)
  | .error e :: _ => .error e

structure S3Storage where
  pre : String

namespace S3Storage

variable (storage : S3Storage)

def key (rel : String) : String := storage.pre ++ Text.trimStartMatches '/' rel

def rel (full : String) : String :=
  if storage.pre.toList.isPrefixOf full.toList then String.ofList (full.toList.drop storage.pre.length) else full

def simpleUpload (key : String) (data : Bytes) (cond : Precondition) : S3Task (Except S3Error String) := do
  match ← send (.putObject key data (conditions cond)) with
  | .error e => return .error (classify key e .write)
  | .ok eTag => return .ok (unquote eTag)

/-- The future of one part. -/
def uploadPart (key uploadId : String) (i : Nat) (chunk : Bytes) : S3Task (Except S3Error CompletedPart) := do
  match ← send (.uploadPart key uploadId (i + 1) chunk) with
  | .error e => return .error (classify key e .write)
  | .ok eTag => return .ok ⟨i + 1, eTag.getD ""⟩

def multipartUploadInner (key : String) (data : Bytes) (uploadId : String) (cond : Precondition) :
    S3Task (Except S3Error String) := do
  let results ← Prog.joinAll arrange ((chunks partSize data).mapIdx fun i chunk => uploadPart key uploadId i chunk)
  match collect results with
  | .error e => return .error e
  | .ok parts =>
      let sorted := parts.mergeSort fun first second => decide (first.partNumber ≤ second.partNumber)
      match ← send (.completeMultipartUpload key uploadId sorted (conditions cond)) with
      | .error e => return .error (classify key e .write)
      | .ok eTag => return .ok (unquote eTag)

def multipartUpload (key : String) (data : Bytes) (cond : Precondition) : S3Task (Except S3Error String) := do
  match ← send (.createMultipartUpload key) with
  | .error e => return .error (classify key e .write)
  | .ok none => return .error (.write key "No upload_id returned")
  | .ok (some uploadId) =>
      match ← multipartUploadInner key data uploadId cond with
      | .ok etag => return .ok etag
      | .error e => do
          -- A failed abort is logged only.
          let _ ← send (.abortMultipartUpload key uploadId)
          return .error e

def put (key : String) (body : Bytes) (cond : Precondition) : S3Task (Except S3Error String) :=
  if multipartThreshold ≤ body.length then multipartUpload (storage.key key) body cond
  else simpleUpload (storage.key key) body cond

/-- A read of a missing object is no error. -/
def orMissing {A : Type} (full : String) (e : SdkError) : Except S3Error (Option A) :=
  match classify full e .read with
  | .notFound _ => .ok none
  | other => .error other

def head (key : String) : S3Task (Except S3Error (Option ObjectMeta)) := do
  match ← send (.headObject (storage.key key)) with
  | .ok output =>
      return .ok (some ⟨key, unquote output.eTag, output.lastModified.getD 0, output.contentLength.getD 0⟩)
  | .error e => return orMissing (storage.key key) e

/-- The body of a found object, collected. -/
def received (key : String) (output : GetOutput) : Except S3Error (Option (Bytes × ObjectMeta)) :=
  match output.body with
  | .error text => .error (.read (storage.key key) text)
  | .ok bytes => .ok (some (bytes, ⟨key, unquote output.eTag, output.lastModified.getD 0, bytes.length⟩))

def get (key : String) : S3Task (Except S3Error (Option (Bytes × ObjectMeta))) := do
  match ← send (.getObject (storage.key key)) with
  | .ok output => return storage.received key output
  | .error e => return orMissing (storage.key key) e

/-- `If-Match` by hand: compare, then delete whatever is there by then. -/
def deleteWithHeadCheck (key expected : String) : S3Task (Except S3Error Unit) := do
  match ← storage.head (storage.rel key) with
  | .error e => return .error e
  | .ok none => return .ok ()
  | .ok (some info) =>
      if info.etag = expected then do
        match ← send (.deleteObject key none) with
        | .error e => return .error (classify key e .delete)
        | .ok _ => return .ok ()
      else return .error (.preconditionFailed key 412 "PreconditionFailed")

/-- The call that carries the condition, and what its answer leads to. -/
def deleteConditionally (key : String) (cond : Precondition) : S3Task (Except S3Error Unit) := do
  match ← send (.deleteObject key (deleteHeader cond)) with
  | .ok _ => return .ok ()
  | .error e =>
      match classify key e .delete, cond with
      | .notFound _, _ => return .ok ()
      | .notImplemented .., .ifMatch expected => do
          storeUnsupported
          storage.deleteWithHeadCheck key expected
      | other, _ => return .error other

def delete (key : String) (cond : Precondition) : S3Task (Except S3Error Unit) :=
  match cond with
  | .ifMatch expected => do
      if ← loadSupported then storage.deleteConditionally (storage.key key) cond
      else storage.deleteWithHeadCheck (storage.key key) expected
  | _ => storage.deleteConditionally (storage.key key) cond

/-- The objects of one page. An entry without a key or an ETag is passed over. -/
def pageObjects (page : ListPage) : List ObjectMeta :=
  (page.contents.getD []).filterMap fun listed =>
    match listed.key, listed.eTag with
    | some key, some etag =>
        some ⟨storage.rel key, Text.trimMatches '"' etag, listed.lastModified.getD 0, listed.size.getD 0⟩
    | _, _ => none

/-- `n as i32`. -/
def asI32 (n : Nat) : Int := (BitVec.ofNat 32 n).toInt

def listFrom (full : String) (maxKeys : Option Nat) (token : Option String) (objects : List ObjectMeta) :
    Nat → S3Task (Except S3Error (List ObjectMeta))
  | 0 => .halt
  | fuel + 1 => do
      match ← send (.listObjectsV2 full (maxKeys.map asI32) token) with
      | .error e => return .error (classify full e .read)
      | .ok page =>
          let objects := objects ++ storage.pageObjects page
          match maxKeys with
          | some n => return .ok (objects.take n)
          | none =>
              if page.isTruncated.getD false then listFrom full maxKeys page.nextContinuationToken objects fuel
              else return .ok objects

/-- Pages until one is the last, as many as the fuel allows. -/
def list (fuel : Nat) (pre : String) (maxKeys : Option Nat) : S3Task (Except S3Error (List ObjectMeta)) :=
  storage.listFrom (storage.key pre) maxKeys none [] fuel

/-- The operation of the object store that a request stands for. -/
def perform (fuel : Nat) : (request : Request) → S3Task request.Answer
  | .list pre maxKeys => storage.list fuel pre maxKeys
  | .head key => storage.head key
  | .get key => storage.get key
  | .put key body cond => storage.put key body cond
  | .delete key cond => storage.delete key cond

end S3Storage
theorem chunks_flatten {size : Nat} (positive : 0 < size) (data : Bytes) : (chunks size data).flatten = data := by
  induction data using chunks.induct size with
  | case1 data nonempty ih => rw [chunks, if_pos nonempty, List.flatten_cons, ih, List.take_append_drop]
  | case2 data done =>
    rw [chunks, if_neg done]
    simp only [positive, true_and, ne_eq, not_not] at done
    exact done.symm

theorem collect_ok {A : Type} {results : List (Except S3Error A)} {values : List A} (all : collect results = .ok values) :
    results = values.map .ok := by
  induction results generalizing values with
  | nil => cases all; rfl
  | cons result rest ih =>
    cases result with
    | error e => cases all
    | ok value =>
      cases later : collect rest with
      | error e => simp [collect, later, Except.map] at all
      | ok others =>
        simp only [collect, later, Except.map, Except.ok.injEq] at all
        rw [← all, ih later, List.map_cons]

theorem collect_error {A : Type} {results : List (Except S3Error A)} {e : S3Error} (failed : collect results = .error e) :
    .error e ∈ results := by
  induction results with
  | nil => cases failed
  | cons result rest ih =>
    cases result with
    | error e' => cases failed; simp
    | ok value =>
      cases later : collect rest with
      | error e' =>
        simp only [collect, later, Except.map, Except.error.injEq] at failed
        exact List.mem_cons_of_mem _ (ih (failed ▸ later))
      | ok others => simp [collect, later, Except.map] at failed

/-! ### Keys and tags -/

section
variable {storage : S3Storage}

/-- A key as the sync layer spells it. -/
def Relative (key : String) : Prop := Text.trimStartMatches '/' key = key

theorem relative_of_front {key : String} (front : key.toList.head? ≠ some '/') : Relative key := by
  unfold Relative Text.trimStartMatches
  cases chars : key.toList with
  | nil => exact String.toList_injective (by simp [chars])
  | cons c rest =>
    have other : (c == '/') = false := beq_false_of_ne fun same => front (by rw [chars, same]; rfl)
    rw [List.dropWhile_cons, other]
    exact String.toList_injective (by simp [chars])

theorem key_relative {key : String} (relative : Relative key) : storage.key key = storage.pre ++ key := by
  rw [S3Storage.key, show Text.trimStartMatches '/' key = key from relative]

theorem key_inj {key other : String} (first : Relative key) (second : Relative other)
    (same : storage.key key = storage.key other) : key = other := by
  rw [key_relative first, key_relative second] at same
  have lists := congrArg String.toList same
  rw [String.toList_append, String.toList_append] at lists
  exact String.toList_injective (List.append_cancel_left lists)

theorem rel_append (tail : String) : storage.rel (storage.pre ++ tail) = tail := by
  have length : storage.pre.length = storage.pre.toList.length := rfl
  simp only [S3Storage.rel, String.toList_append, List.isPrefixOf_iff_prefix, List.prefix_append, if_true, length,
    List.drop_left, String.ofList_toList]

theorem rel_key {key : String} (relative : Relative key) : storage.rel (storage.key key) = key := by
  rw [key_relative relative, rel_append]

/-- An ETag as the client hands it out. -/
def Unquoted : Precondition → Prop
  | .ifMatch etag => Text.trimMatches '"' etag = etag
  | _ => True

/-- A tag in quotes, as a header has it. -/
def header (tag : String) : String := "\"" ++ tag ++ "\""

theorem quoteEtag_plain {etag : String} (plain : Text.trimMatches '"' etag = etag) : quoteEtag etag = header etag := by
  rw [quoteEtag, plain, header]

theorem header_inj {first second : String} (same : header first = header second) : first = second := by
  have lists := congrArg String.toList same
  simp only [header, String.toList_append] at lists
  exact String.toList_injective (List.append_cancel_left (List.append_cancel_right lists))

theorem unquote_header {etag : String} (plain : Text.trimMatches '"' etag = etag) : unquote (some (header etag)) = etag := by
  have trimmed : (etag.toList.dropWhile (· == '"')).rdropWhile (· == '"') = etag.toList := by
    simpa [Text.trimMatches, Text.trimEndMatches, Text.trimStartMatches] using congrArg String.toList plain
  -- Nothing is trimmed at either end of the tag itself.
  have front : etag.toList.dropWhile (· == '"') = etag.toList := by
    refine (List.dropWhile_suffix _).eq_of_length_le ?_
    calc etag.toList.length = ((etag.toList.dropWhile (· == '"')).rdropWhile (· == '"')).length := by rw [trimmed]
      _ ≤ (etag.toList.dropWhile (· == '"')).length := (List.rdropWhile_prefix _ _).length_le
  rw [front] at trimmed
  have chars : (header etag).toList = '"' :: (etag.toList ++ ['"']) := by simp [header, String.toList_append]
  apply String.toList_injective
  cases shape : etag.toList with
  | nil => simp [unquote, Text.trimMatches, Text.trimEndMatches, Text.trimStartMatches, chars, shape]
  | cons c rest =>
    rw [shape] at front trimmed
    have other : (c == '"') = false := by
      have first := List.dropWhile_eq_self_iff.mp front (by simp)
      exact Bool.not_eq_true _ ▸ first
    have kept : (c :: rest ++ ['"']).rdropWhile (· == '"') = c :: rest := by
      rw [List.rdropWhile_concat_pos _ _ _ (by rfl)]
      exact trimmed
    simpa [unquote, Text.trimMatches, Text.trimEndMatches, Text.trimStartMatches, chars, shape, List.dropWhile_cons, other]
      using kept

/-- Whether an error means that something is not implemented does not depend on what the caller was about to do. -/
theorem classify_unimplemented (e : SdkError) (key other : String) (kind kind' : Kind) :
    (classify key e kind).isNotImplemented = (classify other e kind').isNotImplemented := by
  simp only [classify]
  split
  · rfl
  split
  · rfl
  split
  · rfl
  · cases kind <;> cases kind' <;> rfl

/-- Two conditional requests got into each other's way. -/
def SdkError.Conflict (e : SdkError) : Prop := e.status = some 409 ∨ e.code = some "ConditionalRequestConflict"

theorem classify_conflict {e : SdkError} (conflict : e.Conflict) (key : String) (kind : Kind) :
    ∃ status code, classify key e kind = .preconditionFailed key status code ∧
      (status = 409 ∨ code = "ConditionalRequestConflict") := by
  rcases conflict with status | code
  · exact ⟨409, e.code.getD "", by simp [classify, status], .inl rfl⟩
  · exact ⟨e.status.getD 0, "ConditionalRequestConflict", by simp [classify, code], .inr rfl⟩

end
end MonakaFs.Sync.S3
