import Mathlib
import MonakaFs.Data.Text
import MonakaFs.Sync.Types

/-! The object store: key layout, conditional requests and their answers.

The store evaluates preconditions atomically and derives an ETag from the
content, as S3's MD5 does. Requests are served one at a time; which of them
reports a transport error, and whether it took effect, is decided outside.
-/

set_option autoImplicit false

namespace MonakaFs.Sync

/-- A map keyed by text. Its order is the order of insertion; a walk over a hash
map takes its order from the surroundings instead. -/
abbrev Map (V : Type) := AList (fun _ : String => V)

namespace Map

variable {V : Type}

@[simp] theorem lookup_insert_eq (key key' : String) (value : V) (entries : Map V) :
    (entries.insert key value).lookup key' = if key' = key then some value else entries.lookup key' := by
  split
  · next same => subst same; exact AList.lookup_insert entries
  · next different => exact AList.lookup_insert_ne different

@[simp] theorem lookup_erase_eq (key key' : String) (entries : Map V) :
    (entries.erase key).lookup key' = if key' = key then none else entries.lookup key' := by
  split
  · next same => subst same; exact AList.lookup_erase _ entries
  · next different => exact AList.lookup_erase_ne different

/-- `HashMap::get_mut` followed by an update in place. -/
def alter (entries : Map V) (key : String) (change : V → V) : Map V :=
  match entries.lookup key with
  | some value => entries.insert key (change value)
  | none => entries

@[simp] theorem lookup_alter (key key' : String) (change : V → V) (entries : Map V) :
    (entries.alter key change).lookup key' =
      if key' = key then (entries.lookup key).map change else entries.lookup key' := by
  unfold alter
  cases found : entries.lookup key with
  | none =>
    by_cases same : key' = key
    · subst same
      simpa using found
    · simp [same]
  | some value => simp

end Map

def filesPrefix : String := "files/"
def locksPrefix : String := "locks/"

def fileKey (path : String) : String := filesPrefix ++ Text.trimStartMatches '/' path

def dirMarkerKey (path : String) : String := fileKey (Text.trimEndMatches '/' path) ++ "/"

def lockKey (path : String) : String := locksPrefix ++ Text.trimStartMatches '/' path

/-- The VFS path of a `files/` key, and whether it is a directory marker. -/
def pathFromFileKey (key : String) : Option (String × Bool) :=
  if filesPrefix.toList.isPrefixOf key.toList then
    let rest := key.toList.drop filesPrefix.length
    if rest = [] then none
    else
      let trimmed := rest.rdropWhile (· == '/')
      if trimmed = [] then none
      else some ("/" ++ String.ofList trimmed, rest.getLast? == some '/')
  else none

/-- The key of a listed file can be read off its path. -/
theorem pathFromFileKey_file {key path : String} (named : pathFromFileKey key = some (path, false)) :
    key.toList = filesPrefix.toList ++ path.toList.drop 1 := by
  unfold pathFromFileKey at named
  split at named
  · next here =>
    obtain ⟨rest, whole⟩ := List.isPrefixOf_iff_prefix.mp here
    have tail : key.toList.drop filesPrefix.length = rest := by
      rw [← whole, show filesPrefix.length = filesPrefix.toList.length from rfl, List.drop_left]
    simp only [tail] at named
    split at named
    · cases named
    split at named
    · cases named
    obtain ⟨spelled, plain⟩ := Prod.mk.inj (Option.some.inj named)
    have kept : rest.rdropWhile (· == '/') = rest := by
      rw [List.rdropWhile_eq_self_iff]
      intro nonempty last
      rw [List.getLast?_eq_getLast_of_ne_nil nonempty] at plain
      simp only [beq_eq_false_iff_ne, beq_iff_eq, ne_eq, Option.some.injEq] at plain last
      exact plain last
    rw [kept] at spelled
    simp [← whole, ← spelled]
  · cases named

theorem pathFromFileKey_inj {key other path : String} (first : pathFromFileKey key = some (path, false))
    (second : pathFromFileKey other = some (path, false)) : key = other :=
  String.toList_injective ((pathFromFileKey_file first).trans (pathFromFileKey_file second).symm)

theorem fileKey_ne_lockKey (path other : String) : fileKey path ≠ lockKey other := by
  intro same
  have chars := congrArg String.toList same
  simp [fileKey, lockKey, filesPrefix, locksPrefix, String.toList_append] at chars

theorem dirMarkerKey_ne_lockKey (path other : String) : dirMarkerKey path ≠ lockKey other := by
  intro same
  have chars := congrArg String.toList same
  simp [dirMarkerKey, fileKey, lockKey, filesPrefix, locksPrefix, String.toList_append] at chars

/-- How the store derives an ETag from a body. Distinct bodies get distinct ETags. -/
class EtagScheme where
  etagFor : Bytes → String
  injective : Function.Injective etagFor

export EtagScheme (etagFor)

namespace ContentEtags

/-- The bytes themselves as text, for concrete runs. -/
scoped instance scheme : EtagScheme where
  etagFor data := String.ofList (data.map fun byte => Char.ofNat byte.toNat)
  injective first second same := by
    have plain : ∀ byte : UInt8, (Char.ofNat byte.toNat).toNat = byte.toNat := fun byte => by
      have valid : byte.toNat.isValidChar := .inl (by have := byte.toNat_lt; omega)
      simp [Char.ofNat, valid, Char.ofNatAux, Char.toNat]
    refine List.map_injective_iff.mpr (fun one other equal => ?_) (String.ofList_injective same)
    have numbers := congrArg Char.toNat equal
    rw [plain, plain] at numbers
    exact UInt8.toNat_inj.mp numbers

end ContentEtags

/-- A stored object. Its ETag is always that of its content. -/
structure MemObject [EtagScheme] where
  data : Bytes
  lastModified : Nat
  deriving DecidableEq

def MemObject.etag [EtagScheme] (object : MemObject) : String := etagFor object.data

def MemObject.meta [EtagScheme] (key : String) (object : MemObject) : ObjectMeta :=
  ⟨key, object.etag, object.lastModified, object.data.length⟩

structure ObjectStore [EtagScheme] where
  objects : Map MemObject
  /-- Monotonic stand-in for the last-modified clock. -/
  clock : Nat
  /-- Answer conditional deletes with `NotImplemented`. -/
  rejectConditionalDelete : Bool

/-- A request to the store, by key under the sync prefix. -/
inductive Request where
  | list (pre : String) (maxKeys : Option Nat)
  | head (key : String)
  | get (key : String)
  | put (key : String) (body : Bytes) (cond : Precondition)
  | delete (key : String) (cond : Precondition)
  deriving DecidableEq

/-- The key that a request may change. -/
def Request.writes : Request → Option String
  | .put key _ _ | .delete key _ => some key
  | .list .. | .head _ | .get _ => none

abbrev Request.Payload : Request → Type
  | .list .. => List ObjectMeta
  | .head _ => Option ObjectMeta
  | .get _ => Option (Bytes × ObjectMeta)
  | .put .. => String
  | .delete .. => Unit

abbrev Request.Answer (request : Request) := Except S3Error request.Payload

namespace ObjectStore

variable [EtagScheme]

def checkCond (store : ObjectStore) (key : String) : Precondition → Except S3Error Unit
  | .none => .ok ()
  | .ifNoneMatchAny =>
      match store.objects.lookup key with
      | some _ => .error (.preconditionFailed key 412 "PreconditionFailed")
      | none => .ok ()
  | .ifMatch expected =>
      match store.objects.lookup key with
      | none => .error (.notFound key)
      | some object =>
          if object.etag = expected then .ok ()
          else .error (.preconditionFailed key 412 "PreconditionFailed")

def list (store : ObjectStore) (pre : String) (maxKeys : Option Nat) : List ObjectMeta :=
  let listed := (store.objects.entries.filter fun entry => pre.toList.isPrefixOf entry.1.toList).map
    fun entry => entry.2.meta entry.1
  match maxKeys with
  | some n => listed.take n
  | none => listed

def head (store : ObjectStore) (key : String) : Option ObjectMeta :=
  (store.objects.lookup key).map fun object => object.meta key

def get (store : ObjectStore) (key : String) : Option (Bytes × ObjectMeta) :=
  (store.objects.lookup key).map fun object => (object.data, object.meta key)

def put (store : ObjectStore) (key : String) (body : Bytes) (cond : Precondition) :
    Except S3Error String × ObjectStore :=
  match store.checkCond key cond with
  | .error e => (.error e, store)
  | .ok () =>
      (.ok (etagFor body),
        { store with
          clock := store.clock + 1
          objects := store.objects.insert key ⟨body, store.clock + 1⟩ })

/-- Deleting a missing key is a success, also under `If-Match`. -/
def delete (store : ObjectStore) (key : String) (cond : Precondition) :
    Except S3Error Unit × ObjectStore :=
  if store.rejectConditionalDelete = true ∧ cond ≠ .none then
    (.error (.notImplemented key "conditional delete rejected by test store"), store)
  else
    let checked := match cond, store.objects.lookup key with
      | .ifMatch _, none => none
      | _, _ => some (store.checkCond key cond)
    match checked with
    | none => (.ok (), store)
    | some (.error e) => (.error e, store)
    | some (.ok ()) => (.ok (), { store with objects := store.objects.erase key })

/-- The store's own answer and effect. -/
def serve (store : ObjectStore) : (request : Request) → request.Answer × ObjectStore
  | .list pre maxKeys => (.ok (store.list pre maxKeys), store)
  | .head key => (.ok (store.head key), store)
  | .get key => (.ok (store.get key), store)
  | .put key body cond => store.put key body cond
  | .delete key cond => store.delete key cond

end ObjectStore

namespace ObjectStore

variable [EtagScheme] {store : ObjectStore} {key : String} {body : Bytes} {cond : Precondition}

/-- The condition of a write holds of the current object. -/
def Passes (store : ObjectStore) (key : String) : Precondition → Prop
  | .none => True
  | .ifNoneMatchAny => store.objects.lookup key = none
  | .ifMatch expected => ∃ object, store.objects.lookup key = some object ∧ object.etag = expected

theorem checkCond_ok (passes : store.Passes key cond) : store.checkCond key cond = .ok () := by
  cases cond with
  | none => rfl
  | ifNoneMatchAny => simp only [checkCond, show store.objects.lookup key = none from passes]
  | ifMatch expected =>
    obtain ⟨object, found, same⟩ := passes
    simp [checkCond, found, same]

theorem checkCond_error (fails : ¬ store.Passes key cond) : ∃ e, store.checkCond key cond = .error e := by
  cases cond with
  | none => exact (fails trivial).elim
  | ifNoneMatchAny =>
    cases found : store.objects.lookup key with
    | none => exact (fails found).elim
    | some object => exact ⟨_, by simp [checkCond, found]; rfl⟩
  | ifMatch expected =>
    cases found : store.objects.lookup key with
    | none => exact ⟨_, by simp [checkCond, found]; rfl⟩
    | some object =>
      have other : object.etag ≠ expected := fun same => fails ⟨object, found, same⟩
      exact ⟨_, by simp [checkCond, found, other]; rfl⟩

/-- A write takes effect exactly when its condition holds. -/
theorem put_cases (store : ObjectStore) (key : String) (body : Bytes) (cond : Precondition) :
    (store.Passes key cond ∧ store.put key body cond = (.ok (etagFor body),
      { store with clock := store.clock + 1, objects := store.objects.insert key ⟨body, store.clock + 1⟩ })) ∨
    (¬ store.Passes key cond ∧ ∃ e, store.put key body cond = (.error e, store)) := by
  by_cases passes : store.Passes key cond
  · exact .inl ⟨passes, by simp only [put, checkCond_ok passes]⟩
  · obtain ⟨e, failed⟩ := checkCond_error passes
    exact .inr ⟨passes, e, by simp only [put, failed]⟩

/-- A delete removes the object or leaves the store alone. -/
theorem delete_cases (store : ObjectStore) (key : String) (cond : Precondition) :
    (store.Passes key cond ∧
      store.delete key cond = (.ok (), { store with objects := store.objects.erase key })) ∨
    (store.delete key cond).2 = store := by
  by_cases rejects : store.rejectConditionalDelete = true ∧ cond ≠ .none
  · exact .inr (by simp [delete, rejects])
  by_cases passes : store.Passes key cond
  · have checked := checkCond_ok passes
    refine .inl ⟨passes, ?_⟩
    cases cond with
    | none => simp [delete, checked]
    | ifNoneMatchAny => simp only [delete, rejects, if_false, checked]
    | ifMatch expected =>
      obtain ⟨object, found, -⟩ := passes
      simp only [delete, rejects, if_false, found, checked]
  · obtain ⟨e, failed⟩ := checkCond_error passes
    refine .inr ?_
    simp only [delete, rejects, if_false, failed]
    split
    · rfl
    · next checked => split at checked <;> cases checked; rfl
    · next checked => split at checked <;> cases checked

theorem put_ok {etag : String} (stored : (store.put key body cond).1 = .ok etag) : etag = etagFor body := by
  unfold put at stored
  split at stored
  · cases stored
  · exact (Except.ok.inj stored).symm

/-- A condition fails only against an object. -/
theorem refused_there {e : S3Error} (failed : (store.put key body cond).1 = .error e) (refused : e.isPreconditionFailed = true) :
    (store.objects.lookup key).isSome = true := by
  cases found : store.objects.lookup key with
  | some version => rfl
  | none =>
    cases cond <;> simp only [put, checkCond, found] at failed <;> cases failed
    cases refused

/-- A true answer that rejects a write names the condition as the reason. -/
theorem put_error {e : S3Error} (failed : (store.put key body cond).1 = .error e) :
    e.isPreconditionFailed = true ∨
      (e.isNotFound = true ∧ store.objects.lookup key = none ∧ ∃ expected, cond = .ifMatch expected) := by
  unfold put at failed
  split at failed
  · next rejected checked =>
    cases failed
    cases cond with
    | none => cases checked
    | ifNoneMatchAny =>
      simp only [checkCond] at checked
      split at checked <;> cases checked
      exact .inl rfl
    | ifMatch expected =>
      simp only [checkCond] at checked
      split at checked
      · next absent =>
        cases checked
        exact .inr ⟨rfl, absent, expected, rfl⟩
      · split at checked <;> cases checked
        exact .inl rfl
  · cases failed

theorem get_etag {data : Bytes} {info : ObjectMeta} (found : store.get key = some (data, info)) :
    info.etag = etagFor data := by
  obtain ⟨object, _, same⟩ := Option.map_eq_some_iff.mp found
  obtain ⟨rfl, rfl⟩ := Prod.mk.inj same
  rfl

/-- A conditional write that replaces a version names that version. -/
theorem put_replaces {version : MemObject} (found : store.objects.lookup key = some version)
    (replaced : (store.put key body cond).2.objects.lookup key ≠ some version) :
    cond = .none ∨ cond = .ifMatch version.etag := by
  cases cond with
  | none => exact .inl rfl
  | ifNoneMatchAny => simp [put, checkCond, found] at replaced
  | ifMatch expected =>
    by_cases same : version.etag = expected
    · exact .inr (by rw [same])
    · simp [put, checkCond, found, same] at replaced

theorem serve_rejects (store : ObjectStore) (request : Request) :
    (store.serve request).2.rejectConditionalDelete = store.rejectConditionalDelete := by
  cases request with
  | list | head | get => rfl
  | put key body cond =>
    rcases store.put_cases key body cond with ⟨-, stored⟩ | ⟨-, e, failed⟩
    · simp only [serve, stored]
    · simp only [serve, failed]
  | delete key cond =>
    rcases store.delete_cases key cond with ⟨-, removed⟩ | kept
    · simp only [serve, removed]
    · simp only [serve, kept]

/-- A delete whose condition holds removes the object, where conditional deletes are supported. -/
theorem delete_passes (supported : store.rejectConditionalDelete = false) (passes : store.Passes key cond) :
    store.delete key cond = (.ok (), { store with objects := store.objects.erase key }) := by
  have checked := checkCond_ok passes
  cases cond with
  | none => simp [delete, checked]
  | ifNoneMatchAny => simp [delete, supported, checked]
  | ifMatch expected =>
    obtain ⟨object, found, -⟩ := passes
    simp [delete, supported, found, checked]

/-- After an answered conditional delete only another version can be there. -/
theorem delete_leaves (store : ObjectStore) (key expected : String) :
    (∃ text, (store.delete key (.ifMatch expected)).1 = .error (.notImplemented key text)) ∨
      ∀ version, (store.delete key (.ifMatch expected)).2.objects.lookup key = some version →
        store.objects.lookup key = some version ∧ version.etag ≠ expected := by
  by_cases rejects : store.rejectConditionalDelete = true
  · exact .inl ⟨_, by simp [delete, rejects]; rfl⟩
  refine .inr fun version found => ?_
  have supported : store.rejectConditionalDelete = false := Bool.eq_false_iff.mpr rejects
  by_cases passes : store.Passes key (.ifMatch expected)
  · simp [delete_passes supported passes] at found
  · rcases store.delete_cases key (.ifMatch expected) with ⟨holds, -⟩ | kept
    · exact (passes holds).elim
    · rw [kept] at found
      exact ⟨found, fun same => passes ⟨version, found, same⟩⟩

/-- A request changes no other key than the one it names. -/
theorem serve_other {request : Request} {name : String} (other : request.writes ≠ some name) :
    (store.serve request).2.objects.lookup name = store.objects.lookup name := by
  cases request with
  | list | head | get => rfl
  | put key body cond =>
    have different : name ≠ key := fun same => other (congrArg some same.symm)
    rcases store.put_cases key body cond with ⟨-, stored⟩ | ⟨-, e, failed⟩
    · simp only [serve, stored, Map.lookup_insert_eq, different, if_false]
    · simp only [serve, failed]
  | delete key cond =>
    have different : name ≠ key := fun same => other (congrArg some same.symm)
    rcases store.delete_cases key cond with ⟨-, removed⟩ | kept
    · simp only [serve, removed, Map.lookup_erase_eq, different, if_false]
    · simp only [serve, kept]

end ObjectStore

/-- What happens to a request on its way: answered, lost before the store saw it,
or served with the answer lost. -/
inductive Fault where
  | answered
  | unsent (error : S3Error)
  | unanswered (error : S3Error)
  deriving DecidableEq

def Fault.isTransport : Fault → Bool
  | .answered => true
  | .unsent error | .unanswered error => error.isTransport

def ObjectStore.serveWith [EtagScheme] (store : ObjectStore) (fault : Fault) (request : Request) :
    request.Answer × ObjectStore :=
  match fault with
  | .answered => store.serve request
  | .unsent error => (.error error, store)
  | .unanswered error => (.error error, (store.serve request).2)

end MonakaFs.Sync
