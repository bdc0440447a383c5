import MonakaFs.Async.History
import MonakaFs.Sync.S3.Client

/-! What the client relies on of the service.

A backend is a parameter: a state, the answers that a call can get in it, and what the
state holds under a key. The laws are the documented ones: a write takes effect as a whole and only under its
conditions, a completed upload is its parts in the listed order, an answer that names a
condition tells the truth, and a lost answer tells nothing.
-/

set_option autoImplicit false

namespace MonakaFs.Sync.S3

open Async

structure S3Object where
  data : Bytes
  /-- As the header has it, in quotes. -/
  eTag : String
  lastModified : Nat
  deriving DecidableEq

/-- A multipart upload under way. -/
structure S3Upload where
  key : String
  parts : Nat → Option Bytes

/-- The headers hold of the object that is there. -/
structure Conditions.Hold (conditions : Conditions) (current : Option S3Object) : Prop where
  met : ∀ tag, conditions.ifMatch = some tag → ∃ object, current = some object ∧ object.eTag = tag
  absent : conditions.ifNoneMatch = some "*" → current = none

namespace SdkError

/-- It says nothing about the object: no answer, a server that is out of order, a call that is not allowed. -/
def Plain (e : SdkError) : Prop := ∀ key kind, (classify key e kind).isTransport = true

def Missing (e : SdkError) : Prop := ∀ key kind, (classify key e kind).isNotFound = true

def Unmet (e : SdkError) : Prop := ∀ key kind, (classify key e kind).isPreconditionFailed = true

def Unsupported (e : SdkError) : Prop := ∀ key kind, (classify key e kind).isNotImplemented = true

end SdkError

/-- What a write did: nothing, for one of four reasons, or all of it. -/
inductive Written (conditions : Conditions) (key : String) (body : Bytes) (tag : String)
    (before after : String → Option S3Object) : Except SdkError (Option String) → Prop where
  | refused {e : SdkError} : after = before → e.Plain → Written conditions key body tag before after (.error e)
  | conflict {e : SdkError} : after = before → e.Conflict → Written conditions key body tag before after (.error e)
  | unmet {e : SdkError} : after = before → ¬ conditions.Hold (before key) → before key ≠ none → e.Unmet →
      Written conditions key body tag before after (.error e)
  | gone {e : SdkError} : after = before → before key = none → conditions.ifMatch ≠ none → e.Missing →
      Written conditions key body tag before after (.error e)
  | stored {time : Nat} {reply : Except SdkError (Option String)} : conditions.Hold (before key) →
      after = Function.update before key (some ⟨body, header tag, time⟩) →
      (reply = .ok (some (header tag)) ∨ ∃ e : SdkError, reply = .error e ∧ e.Plain) →
      Written conditions key body tag before after reply

/-- What a delete did. Without an object there is nothing to do, and no condition to check. -/
inductive Removed (ifMatch : Option String) (key : String) (before after : String → Option S3Object) :
    Except SdkError Unit → Prop where
  | refused {e : SdkError} : after = before → e.Plain → Removed ifMatch key before after (.error e)
  | conflict {e : SdkError} : after = before → ifMatch ≠ none → e.Conflict → Removed ifMatch key before after (.error e)
  | unsupported {e : SdkError} : after = before → ifMatch ≠ none → e.Unsupported → Removed ifMatch key before after (.error e)
  | unmet {e : SdkError} {tag : String} {object : S3Object} : after = before → ifMatch = some tag →
      before key = some object → object.eTag ≠ tag → e.Unmet → Removed ifMatch key before after (.error e)
  | missing {reply : Except SdkError Unit} : after = before → before key = none →
      (reply = .ok () ∨ ∃ e : SdkError, reply = .error e ∧ e.Missing) → Removed ifMatch key before after reply
  | removed {reply : Except SdkError Unit} {object : S3Object} : before key = some object →
      (∀ tag, ifMatch = some tag → object.eTag = tag) → after = Function.update before key none →
      (reply = .ok () ∨ ∃ e : SdkError, reply = .error e ∧ e.Plain) → Removed ifMatch key before after reply

/-- A delete that is turned down as such has removed nothing. -/
theorem Removed.unsupported_same {ifMatch : Option String} {key : String} {before after : String → Option S3Object} {e : SdkError}
    (removed : Removed ifMatch key before after (.error e)) (unsupported : e.Unsupported) : after = before := by
  cases removed with
  | refused same | conflict same | unsupported same | unmet same | missing same => exact same
  | removed _ _ _ how =>
    rcases how with there | ⟨other, there, plain⟩
    · cases there
    · cases there
      have implemented := (S3Error.transport_kind (plain "" .delete)).2.2
      rw [unsupported "" .delete] at implemented
      cases implemented

/-- A key that comes after a position in a listing. -/
def Beyond : Option String → String → Prop
  | none, _ => True
  | some last, key => last < key

instance (position : Option String) (key : String) : Decidable (Beyond position key) :=
  match position with
  | none => .isTrue trivial
  | some last => inferInstanceAs (Decidable (last < key))

/-- A page: a stretch of the keys under a prefix, in order, from a position on. -/
structure Paged (objects : String → Option S3Object) (pre : String) (position : Option String) (page : ListPage)
    (later : Option String) : Prop where
  entry : ∀ listed ∈ page.contents.getD [], ∃ key object, objects key = some object ∧ pre.toList <+: key.toList ∧
    Beyond position key ∧ listed = ⟨some key, some object.eTag, some object.lastModified, some object.data.length⟩
  ascending : ((page.contents.getD []).filterMap (·.key)).Pairwise (· < ·)
  complete : ∀ key, objects key ≠ none → pre.toList <+: key.toList → Beyond position key →
    key ∈ (page.contents.getD []).filterMap (·.key) ∨ ∃ last, later = some last ∧ last < key
  /-- A page that is cut off has a last key, and the token stands for it. -/
  truncated : page.isTruncated = some true → ∃ last, later = some last ∧
    last ∈ (page.contents.getD []).filterMap (·.key) ∧ ∀ key ∈ (page.contents.getD []).filterMap (·.key), key ≤ last
  whole : page.isTruncated.getD false = false → later = none

/-- A backend of the API, as documented. -/
class S3Backend [EtagScheme] (S : Type) where
  answer : (call : S3Call) → S → call.Answer → S → Prop
  object : S → String → Option S3Object
  upload : S → String → Option S3Upload
  /-- The tag of a body that came in one piece. -/
  contentTag : Bytes → String
  /-- The tag of an object made of parts. -/
  partsTag : List Bytes → String
  /-- The last key of the pages that a token continues. -/
  position : String → String
  tag_small : ∀ body : Bytes, body.length < multipartThreshold → contentTag body = etagFor body
  tag_large : ∀ body : Bytes, multipartThreshold ≤ body.length → partsTag (chunks partSize body) = etagFor body
  tag_plain : ∀ body : Bytes, Text.trimMatches '"' (etagFor body) = etagFor body
  put_answer : ∀ {key body conditions s reply t}, answer (.putObject key body conditions) s reply t →
    upload t = upload s ∧ Written conditions key body (contentTag body) (object s) (object t) reply
  create_answer : ∀ {key s reply t}, answer (.createMultipartUpload key) s reply t →
    object t = object s ∧ (∀ id, upload s id ≠ none → upload t id = upload s id) ∧
    (∀ id, reply = .ok (some id) → upload s id = none ∧ upload t id = some ⟨key, fun _ => none⟩) ∧
    ∀ e, reply = .error e → e.Plain
  part_answer : ∀ {key id number body s reply t}, answer (.uploadPart key id number body) s reply t →
    object t = object s ∧ (∀ other, other ≠ id → upload t other = upload s other) ∧
    ∀ started, upload s id = some started → started.key = key →
      ∃ parts, upload t id = some ⟨key, parts⟩ ∧ (∀ other, other ≠ number → parts other = started.parts other) ∧
        (∀ tag, reply = .ok tag → tag = some (header (contentTag body)) ∧ parts number = some body) ∧
        ∀ e, reply = .error e → e.Plain
  complete_answer : ∀ {key id listed conditions s reply t},
    answer (.completeMultipartUpload key id listed conditions) s reply t →
    (∀ other, other ≠ id → upload t other = upload s other) ∧ (∀ tag, reply = .ok tag → upload t id = none) ∧
    ((∃ e, reply = .error e ∧ object t = object s ∧ ∀ started, upload s id = some started → started.key = key → e.Plain) ∨
      ∃ started bodies, upload s id = some started ∧ started.key = key ∧
        List.Forall₂ (fun part body => started.parts part.partNumber = some body ∧ part.eTag = header (contentTag body))
          listed bodies ∧
        Written conditions key bodies.flatten (partsTag bodies) (object s) (object t) reply)
  abort_answer : ∀ {key id s reply t}, answer (.abortMultipartUpload key id) s reply t →
    object t = object s ∧ (∀ other, other ≠ id → upload t other = upload s other) ∧ (reply = .ok () → upload t id = none)
  head_answer : ∀ {key s reply t}, answer (.headObject key) s reply t → object t = object s ∧ upload t = upload s ∧
    (∀ output, reply = .ok output → ∃ found, object s key = some found ∧
      output = ⟨some found.eTag, some found.lastModified, some found.data.length⟩) ∧
    ∀ e, reply = .error e → e.Plain ∨ (object s key = none ∧ e.Missing)
  get_answer : ∀ {key s reply t}, answer (.getObject key) s reply t → object t = object s ∧ upload t = upload s ∧
    (∀ output, reply = .ok output → ∃ found, object s key = some found ∧ output.eTag = some found.eTag ∧
      output.lastModified = some found.lastModified ∧ ∀ bytes, output.body = .ok bytes → bytes = found.data) ∧
    ∀ e, reply = .error e → e.Plain ∨ (object s key = none ∧ e.Missing)
  delete_answer : ∀ {key ifMatch s reply t}, answer (.deleteObject key ifMatch) s reply t → upload t = upload s ∧
    Removed ifMatch key (object s) (object t) reply
  list_answer : ∀ {pre maxKeys token s reply t}, answer (.listObjectsV2 pre maxKeys token) s reply t →
    object t = object s ∧ upload t = upload s ∧
    ∀ page, reply = .ok page → (∀ n, maxKeys = some n → 0 < n) → Paged (object s) pre (token.map position) page (page.nextContinuationToken.map position)

export S3Backend (object upload)

section
variable [EtagScheme] {S : Type} [S3Backend S]

variable (S) in
/-- No delete is turned down for its condition as such. -/
def ConditionalDeletes : Prop :=
  ∀ (key tag : String) (s : S) (e : SdkError) (t : S),
    S3Backend.answer (.deleteObject key (some tag)) s (.error e) t → ¬ e.Unsupported

end

/-- What a task of one client sees: the service, and the client's own flag. -/
structure World (S : Type) where
  service : S
  supported : Bool

abbrev Call (S : Type) := Moment clientSignature (World S)

abbrev S3Node (S : Type) := Traced clientSignature (World S)

/-- The upload that a call has started. -/
def started {S : Type} : Call S → Option String
  | ⟨.send (.createMultipartUpload _), .ok (some id), _, _⟩ => some id
  | _ => none

def uploads {S : Type} (log : List (Call S)) : List String := log.filterMap started

theorem uploads_other {S : Type} {m : Call S} {log : List (Call S)} (other : started m = none) :
    uploads (m :: log) = uploads log := List.filterMap_cons_none other

section
variable [EtagScheme] {S : Type} [S3Backend S]

def clientEffect : Effect clientSignature (World S)
  | .send call => fun s reply t => S3Backend.answer call s.service reply t.service ∧ t.supported = s.supported
  | .loadSupported => fun s reply t => reply = s.supported ∧ t = s
  | .storeUnsupported => fun s _ t => t = { s with supported := false }
  | .arrange futures => fun s reply t => List.Perm (α := Nat) reply (List.range futures) ∧ t = s

/-- The flag is cleared only where it tells the truth. -/
def LatchStep (s t : World S) : Prop := t.supported = s.supported ∨ (t.supported = false ∧ ¬ ConditionalDeletes S)

/-- Others do anything to the objects. They do not know the uploads of this task, and never set the flag again. -/
structure ClientRely (s t : S3Node S) : Prop where
  log : t.log = s.log
  latch : LatchStep s.state t.state
  own : ∀ id ∈ uploads s.log, upload t.state.service id = upload s.state.service id

/-- The task itself leaves the uploads of others alone. -/
structure ClientGuarantee (s t : S3Node S) : Prop where
  latch : LatchStep s.state t.state
  others : ∀ id, id ∉ uploads s.log → upload s.state.service id ≠ none →
    upload t.state.service id = upload s.state.service id

variable (S) in
def client : Contract clientSignature (S3Node S) where
  effect := clientEffect.traced
  rely := ClientRely
  rely_refl _ := ⟨rfl, .inl rfl, fun _ _ => rfl⟩
  rely_trans first second :=
    { log := second.log.trans first.log
      latch := second.latch.elim (fun same => first.latch.elim (fun again => .inl (same.trans again))
        fun cleared => .inr ⟨same.trans cleared.1, cleared.2⟩) .inr
      own := fun id member => (second.own id (first.log ▸ member)).trans (first.own id member) }
  guarantee := fun _ s _ t => ClientGuarantee s t

end
end MonakaFs.Sync.S3
