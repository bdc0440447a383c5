import MonakaFs.Sync.S3.Backend

/-! A backend in memory: one that always answers, and does what is documented. -/

set_option autoImplicit false

namespace MonakaFs.Sync.S3

open Async

namespace PlainEtags

theorem toNat_char (byte : UInt8) : (Char.ofNat (byte.toNat + 256)).toNat = byte.toNat + 256 := by
  have small := byte.toNat_lt
  have valid : (byte.toNat + 256).isValidChar := .inl (by omega)
  simp only [Char.ofNat, valid, Char.ofNatAux, Char.toNat, dite_true, UInt32.toNat]
  simp

/-- The bytes as characters that no header quotes. -/
def tag (data : Bytes) : String := String.ofList (data.map fun byte => Char.ofNat (byte.toNat + 256))

theorem tag_injective : Function.Injective tag := by
  intro first second same
  refine List.map_injective_iff.mpr (fun one other equal => ?_) (String.ofList_injective same)
  have numbers := congrArg Char.toNat equal
  rw [toNat_char, toNat_char] at numbers
  exact UInt8.toNat_inj.mp (by omega)

scoped instance scheme : EtagScheme where
  etagFor := tag
  injective := tag_injective

end PlainEtags

structure MemoryS3 where
  objects : Map S3Object
  uploads : Map (String × AList fun _ : Nat => Bytes)
  clock : Nat
  /-- Turn conditional deletes down, as some backends do. -/
  rejects : Bool
  /-- One less than the keys of a page. -/
  pageSize : Nat

namespace MemoryS3

/-- An empty bucket. -/
def empty (rejects : Bool) : MemoryS3 := ⟨∅, ∅, 0, rejects, 999⟩

def fault (status : Nat) (code : String) : SdkError := ⟨some status, some code, none, code⟩

def check (conditions : Conditions) (current : Option S3Object) : Bool :=
  (match conditions.ifMatch with
    | none => true
    | some tag => match current with
      | some object => object.eTag == tag
      | none => false) &&
  !(conditions.ifNoneMatch == some "*" && current.isSome)

theorem check_iff (conditions : Conditions) (current : Option S3Object) : check conditions current = true ↔ conditions.Hold current := by
  unfold check
  constructor
  · intro passed
    simp only [Bool.and_eq_true, Bool.not_eq_true', Bool.and_eq_false_iff, beq_eq_false_iff_ne] at passed
    refine ⟨fun tag asked => ?_, fun asked => ?_⟩
    · rw [asked] at passed
      cases current with
      | none => simp at passed
      | some object => exact ⟨object, rfl, by simpa using passed.1⟩
    · rcases passed.2 with other | absent
      · exact (other asked).elim
      · exact Option.not_isSome_iff_eq_none.mp (by simp [absent])
  · intro hold
    simp only [Bool.and_eq_true, Bool.not_eq_true', Bool.and_eq_false_iff, beq_eq_false_iff_ne]
    constructor
    · cases asked : conditions.ifMatch with
      | none => rfl
      | some tag =>
        obtain ⟨object, rfl, same⟩ := hold.met tag asked
        simpa using same
    · by_cases asked : conditions.ifNoneMatch = some "*"
      · rw [hold.absent asked]
        exact .inr rfl
      · exact .inl asked

/-- The write itself, once the body is there. -/
def store (key : String) (conditions : Conditions) (body : Bytes) (s : MemoryS3) : Except SdkError (Option String) × MemoryS3 :=
  if check conditions (s.objects.lookup key) then
    let tag := header (PlainEtags.tag body)
    (.ok (some tag), { s with clock := s.clock + 1, objects := s.objects.insert key ⟨body, tag, s.clock + 1⟩ })
  else if (s.objects.lookup key).isSome then (.error (fault 412 "PreconditionFailed"), s)
  else (.error (fault 404 "NoSuchKey"), s)

/-- The staged bodies that a list of parts names, when each tag is right. -/
def listedBodies (parts : AList fun _ : Nat => Bytes) : List CompletedPart → Option (List Bytes)
  | [] => some []
  | part :: rest =>
      match parts.lookup part.partNumber with
      | some body =>
          if part.eTag = header (PlainEtags.tag body) then (listedBodies parts rest).map (body :: ·) else none
      | none => none

/-- The keys under a prefix from a position on, in order. -/
def keysFrom (pre : String) (position : Option String) (s : MemoryS3) : List String :=
  (s.objects.keys.filter fun key => pre.toList.isPrefixOf key.toList && decide (Beyond position key)).mergeSort fun first second =>
    decide (first ≤ second)

def listedObject (s : MemoryS3) (key : String) : Option ListedObject :=
  (s.objects.lookup key).map fun object => ⟨some key, some object.eTag, some object.lastModified, some object.data.length⟩

def page (pre : String) (maxKeys : Option Int) (token : Option String) (s : MemoryS3) : ListPage :=
  let keys := s.keysFrom pre token
  let limit := match maxKeys with
    | some n => min n.toNat (s.pageSize + 1)
    | none => s.pageSize + 1
  let shown := keys.take limit
  let cut := decide (limit < keys.length)
  ⟨some (shown.filterMap s.listedObject), some cut, if cut then shown.getLast? else none⟩

/-- A number that no upload under way has. -/
def freshId (s : MemoryS3) : String := String.ofList (List.replicate ((s.uploads.keys.map String.length).sum + 1) 'u')

def stage (key uploadId : String) (number : Nat) (body : Bytes) (s : MemoryS3) : Except SdkError (Option String) × MemoryS3 :=
  match s.uploads.lookup uploadId with
  | some (name, parts) =>
      if name = key then
        (.ok (some (header (PlainEtags.tag body))),
          { s with uploads := s.uploads.insert uploadId (name, parts.insert number body) })
      else (.error (fault 404 "NoSuchUpload"), s)
  | none => (.error (fault 404 "NoSuchUpload"), s)

def complete (key uploadId : String) (listed : List CompletedPart) (conditions : Conditions) (s : MemoryS3) :
    Except SdkError (Option String) × MemoryS3 :=
  match s.uploads.lookup uploadId with
  | some (name, parts) =>
      if name = key then
        match listedBodies parts listed with
        | some bodies =>
            match s.store key conditions bodies.flatten with
            | (.ok tag, written) => (.ok tag, { written with uploads := s.uploads.erase uploadId })
            | (.error e, _) => (.error e, s)
        | none => (.error (fault 400 "InvalidPart"), s)
      else (.error (fault 404 "NoSuchUpload"), s)
  | none => (.error (fault 404 "NoSuchUpload"), s)

/-- The object, or that there is none. -/
def find (key : String) (s : MemoryS3) : Except SdkError S3Object :=
  match s.objects.lookup key with
  | some object => .ok object
  | none => .error (fault 404 "NoSuchKey")

def remove (key : String) (ifMatch : Option String) (s : MemoryS3) : Except SdkError Unit × MemoryS3 :=
  if ifMatch.isSome && s.rejects then (.error (fault 501 "NotImplemented"), s)
  else
    match s.objects.lookup key with
    | none => (.ok (), s)
    | some object =>
        if ifMatch = none ∨ ifMatch = some object.eTag then (.ok (), { s with objects := s.objects.erase key })
        else (.error (fault 412 "PreconditionFailed"), s)

def serve : (call : S3Call) → MemoryS3 → call.Answer × MemoryS3
  | .putObject key body conditions, s => s.store key conditions body
  | .createMultipartUpload key, s => (.ok (some s.freshId), { s with uploads := s.uploads.insert s.freshId (key, ∅) })
  | .uploadPart key uploadId number body, s => s.stage key uploadId number body
  | .completeMultipartUpload key uploadId listed conditions, s => s.complete key uploadId listed conditions
  | .abortMultipartUpload _ uploadId, s => (.ok (), { s with uploads := s.uploads.erase uploadId })
  | .listObjectsV2 pre maxKeys token, s => (.ok (s.page pre maxKeys token), s)
  | .headObject key, s => ((s.find key).map fun object => ⟨some object.eTag, some object.lastModified, some object.data.length⟩, s)
  | .getObject key, s => ((s.find key).map fun object => ⟨some object.eTag, some object.lastModified, .ok object.data⟩, s)
  | .deleteObject key ifMatch, s => s.remove key ifMatch

/-! ### Its laws -/

def object (s : MemoryS3) (key : String) : Option S3Object := s.objects.lookup key

def upload (s : MemoryS3) (uploadId : String) : Option S3Upload :=
  (s.uploads.lookup uploadId).map fun started => ⟨started.1, started.2.lookup⟩

variable {s : MemoryS3}

theorem fault_plain {status : Nat} {code : String} (other : status ≠ 412 ∧ status ≠ 409 ∧ status ≠ 404 ∧ status ≠ 501)
    (name : code ∉ ["PreconditionFailed", "ConditionalRequestConflict", "NotFound", "NoSuchKey", "NotImplemented"]) :
    (fault status code).Plain := by
  intro key kind
  simp only [List.mem_cons, List.not_mem_nil, or_false, not_or] at name
  cases kind <;> simp [classify, fault, other, name, S3Error.isTransport]

theorem store_written (key : String) (conditions : Conditions) (body : Bytes) (s : MemoryS3) :
    (s.store key conditions body).2.uploads = s.uploads ∧
      Written conditions key body (PlainEtags.tag body) s.object (s.store key conditions body).2.object
        (s.store key conditions body).1 := by
  unfold store
  split
  · next passed =>
    refine ⟨rfl, @Written.stored _ _ _ _ _ _ (s.clock + 1) _ ((check_iff _ _).mp passed) (funext fun other => ?_) (.inl rfl)⟩
    rw [Function.update_apply]
    exact Map.lookup_insert_eq ..
  · next failed =>
    have unmet := mt (check_iff _ _).mpr failed
    split
    · next there =>
      exact ⟨rfl, .unmet rfl unmet (Option.isSome_iff_ne_none.mp there) fun _ _ => by simp [classify, fault, S3Error.isPreconditionFailed]⟩
    · next absent =>
      have nothing : s.objects.lookup key = none := Option.not_isSome_iff_eq_none.mp absent
      refine ⟨rfl, .gone rfl nothing (fun unconditional => unmet ?_) fun _ _ => by simp [classify, fault, S3Error.isNotFound]⟩
      exact ⟨fun tag asked => (by rw [unconditional] at asked; cases asked), fun _ => nothing⟩

theorem store_error {key : String} {conditions : Conditions} {body : Bytes} {e : SdkError}
    (failed : (s.store key conditions body).1 = .error e) : (s.store key conditions body).2 = s := by
  unfold store at failed ⊢
  split
  · next passed =>
    rw [if_pos passed] at failed
    cases failed
  · split <;> rfl

theorem listedBodies_all {parts : AList fun _ : Nat => Bytes} {listed : List CompletedPart} {bodies : List Bytes}
    (all : listedBodies parts listed = some bodies) :
    List.Forall₂ (fun part body => parts.lookup part.partNumber = some body ∧ part.eTag = header (PlainEtags.tag body))
      listed bodies := by
  induction listed generalizing bodies with
  | nil => cases all; exact .nil
  | cons part rest ih =>
    unfold listedBodies at all
    split at all
    · next body found =>
      split at all
      · next tagged =>
        obtain ⟨others, later, rfl⟩ := Option.map_eq_some_iff.mp all
        exact .cons ⟨found, tagged⟩ (ih later)
      · cases all
    · cases all

theorem freshId_fresh (s : MemoryS3) : s.uploads.lookup s.freshId = none := by
  rw [AList.lookup_eq_none]
  intro member
  have bounded := List.single_le_sum (fun _ _ => Nat.zero_le _) _ (List.mem_map_of_mem (f := String.length) (AList.mem_keys.mp member))
  have length : s.freshId.length = (s.uploads.keys.map String.length).sum + 1 := by simp [freshId]
  omega

theorem mem_keysFrom {pre key : String} {position : Option String} :
    key ∈ s.keysFrom pre position ↔ s.object key ≠ none ∧ pre.toList <+: key.toList ∧ Beyond position key := by
  simp only [keysFrom, List.mem_mergeSort, List.mem_filter, Bool.and_eq_true, List.isPrefixOf_iff_prefix, decide_eq_true_eq, object, ne_eq,
    AList.lookup_eq_none, not_not, AList.mem_keys]

theorem keysFrom_ascending (pre : String) (position : Option String) (s : MemoryS3) : (s.keysFrom pre position).Pairwise (· < ·) := by
  have sorted : (s.keysFrom pre position).Pairwise fun first second => decide (first ≤ second) = true :=
    List.pairwise_mergeSort (fun _ _ _ first second => by simpa using le_trans (by simpa using first) (by simpa using second))
      (fun first second => by simpa using le_total first second) _
  have distinct : (s.keysFrom pre position).Nodup := by
    rw [keysFrom, List.Perm.nodup_iff (List.mergeSort_perm _ _)]
    exact s.objects.keys_nodup.filter _
  refine (sorted.and distinct).imp fun both => ?_
  exact lt_of_le_of_ne (by simpa using both.1) both.2

theorem listed_keys {keys : List String} (there : ∀ key ∈ keys, s.object key ≠ none) :
    (keys.filterMap s.listedObject).filterMap (·.key) = keys := by
  induction keys with
  | nil => rfl
  | cons key rest ih =>
    obtain ⟨object, found⟩ := Option.ne_none_iff_exists'.mp (there key (by simp))
    have found : s.objects.lookup key = some object := found
    have entry : s.listedObject key = some ⟨some key, some object.eTag, some object.lastModified, some object.data.length⟩ := by
      rw [listedObject, found, Option.map_some]
    rw [List.filterMap_cons_some entry]
    exact congrArg (key :: ·) (ih fun other member => there other (by simp [member]))

theorem page_paged (pre : String) (maxKeys : Option Int) (token : Option String) (s : MemoryS3) (limits : ∀ n, maxKeys = some n → 0 < n) :
    Paged s.object pre token (s.page pre maxKeys token) (s.page pre maxKeys token).nextContinuationToken := by
  obtain ⟨limit, positive, same⟩ : ∃ limit, 0 < limit ∧ s.page pre maxKeys token =
      ⟨some (((s.keysFrom pre token).take limit).filterMap s.listedObject), some (decide (limit < (s.keysFrom pre token).length)),
        if decide (limit < (s.keysFrom pre token).length) = true then ((s.keysFrom pre token).take limit).getLast? else none⟩ := by
    cases maxKeys with
    | none => exact ⟨_, Nat.succ_pos s.pageSize, rfl⟩
    | some n =>
      have := limits n rfl
      exact ⟨min n.toNat (s.pageSize + 1), by omega, rfl⟩
  rw [same]
  have shown : ((((s.keysFrom pre token).take limit).filterMap s.listedObject).filterMap (·.key)) = (s.keysFrom pre token).take limit :=
    listed_keys fun key member => (mem_keysFrom.mp (List.mem_of_mem_take member)).1
  have ascending := keysFrom_ascending pre token s
  -- What comes after the page is behind its last key.
  have split : (s.keysFrom pre token).take limit ++ (s.keysFrom pre token).drop limit = s.keysFrom pre token := List.take_append_drop ..
  have parted := List.pairwise_append.mp (split.symm ▸ ascending)
  have ending : limit < (s.keysFrom pre token).length → ∃ front last, (s.keysFrom pre token).take limit = front ++ [last] := fun more => by
    have nonempty : (s.keysFrom pre token).take limit ≠ [] := by
      rw [← List.length_pos_iff, List.length_take]
      omega
    exact ⟨_, _, (List.dropLast_append_getLast nonempty).symm⟩
  refine ⟨fun listed member => ?_, ?_, fun key there under beyond => ?_, fun cut => ?_, fun whole => ?_⟩
  · obtain ⟨key, inPage, entry⟩ := List.mem_filterMap.mp member
    obtain ⟨-, under, beyond⟩ := mem_keysFrom.mp (List.mem_of_mem_take inPage)
    obtain ⟨object, found, rfl⟩ := Option.map_eq_some_iff.mp entry
    exact ⟨key, object, found, under, beyond, rfl⟩
  · simp only [Option.getD_some, shown]
    exact ascending.sublist (List.take_sublist ..)
  · simp only [Option.getD_some, shown]
    have member := mem_keysFrom.mpr ⟨there, under, beyond⟩
    rw [← split, List.mem_append] at member
    rcases member with inPage | behind
    · exact .inl inPage
    · right
      have more : limit < (s.keysFrom pre token).length := by
        by_contra fits
        rw [List.drop_of_length_le (by omega)] at behind
        cases behind
      obtain ⟨front, last, page⟩ := ending more
      exact ⟨last, by simp [more, page], parted.2.2 last (by simp [page]) key behind⟩
  · have more : limit < (s.keysFrom pre token).length := by simpa using cut
    obtain ⟨front, last, page⟩ := ending more
    refine ⟨last, by simp [more, page], ?_, fun key member => ?_⟩
    · rw [Option.getD_some, shown, page]
      simp
    · rw [Option.getD_some, shown, page, List.mem_append, List.mem_singleton] at member
      rcases member with earlier | rfl
      · have inOrder := parted.1
        rw [page] at inOrder
        exact le_of_lt ((List.pairwise_append.mp inOrder).2.2 key earlier last (by simp))
      · exact le_rfl
  · simp only [Option.getD_some, decide_eq_false_iff_not] at whole
    simp [whole]

theorem tag_plain (body : Bytes) : Text.trimMatches '"' (PlainEtags.tag body) = PlainEtags.tag body := by
  have other : ∀ c ∈ body.map fun byte => Char.ofNat (byte.toNat + 256), (c == '"') = false := fun c member => by
    obtain ⟨byte, -, rfl⟩ := List.mem_map.mp member
    refine beq_false_of_ne fun same => ?_
    have numbers := congrArg Char.toNat same
    rw [PlainEtags.toNat_char, show Char.toNat '"' = 34 from rfl] at numbers
    omega
  have front : (body.map fun byte => Char.ofNat (byte.toNat + 256)).dropWhile (· == '"') =
      body.map fun byte => Char.ofNat (byte.toNat + 256) :=
    List.dropWhile_eq_self_iff.mpr fun nonempty => by rw [other _ (List.getElem_mem _)]; exact Bool.false_ne_true
  have back : (body.map fun byte => Char.ofNat (byte.toNat + 256)).rdropWhile (· == '"') =
      body.map fun byte => Char.ofNat (byte.toNat + 256) :=
    List.rdropWhile_eq_self_iff.mpr fun nonempty => by rw [other _ (List.getLast_mem _)]; exact Bool.false_ne_true
  simp only [PlainEtags.tag, Text.trimMatches, Text.trimEndMatches, Text.trimStartMatches, String.toList_ofList, front, back]

variable {t : MemoryS3}

theorem put_law {key : String} {body : Bytes} {conditions : Conditions} {reply : (S3Call.putObject key body conditions).Answer}
    (answered : serve (.putObject key body conditions) s = (reply, t)) :
    t.upload = s.upload ∧ Written conditions key body (PlainEtags.tag body) s.object t.object reply := by
  have stored : s.store key conditions body = (reply, t) := answered
  obtain ⟨same, written⟩ := store_written key conditions body s
  rw [stored] at same written
  exact ⟨funext fun uploadId => by rw [upload, upload, same], written⟩

theorem create_law {key : String} {reply : (S3Call.createMultipartUpload key).Answer}
    (answered : serve (.createMultipartUpload key) s = (reply, t)) :
    t.object = s.object ∧ (∀ uploadId, s.upload uploadId ≠ none → t.upload uploadId = s.upload uploadId) ∧
      (∀ uploadId, reply = .ok (some uploadId) → s.upload uploadId = none ∧ t.upload uploadId = some ⟨key, fun _ => none⟩) ∧
      ∀ e, reply = .error e → e.Plain := by
  obtain ⟨rfl, rfl⟩ := Prod.mk.inj answered
  have absent : s.upload s.freshId = none := by rw [upload, freshId_fresh, Option.map_none]
  refine ⟨rfl, fun uploadId there => ?_, fun uploadId same => ?_, fun e same => by cases same⟩
  · have different : uploadId ≠ s.freshId := fun same => there (same ▸ absent)
    simp [upload, different]
  · cases same
    exact ⟨absent, by simp [upload]⟩

theorem part_law {key uploadId : String} {number : Nat} {body : Bytes} {reply : (S3Call.uploadPart key uploadId number body).Answer}
    (answered : serve (.uploadPart key uploadId number body) s = (reply, t)) :
    t.object = s.object ∧ (∀ other, other ≠ uploadId → t.upload other = s.upload other) ∧
      ∀ started, s.upload uploadId = some started → started.key = key →
        ∃ parts, t.upload uploadId = some ⟨key, parts⟩ ∧ (∀ other, other ≠ number → parts other = started.parts other) ∧
          (∀ tag, reply = .ok tag → tag = some (header (PlainEtags.tag body)) ∧ parts number = some body) ∧
          ∀ e, reply = .error e → e.Plain := by
  have staged : s.stage key uploadId number body = (reply, t) := answered
  unfold stage at staged
  split at staged
  · next name parts found =>
    split at staged
    · next same =>
      obtain ⟨rfl, rfl⟩ := Prod.mk.inj staged
      subst same
      refine ⟨rfl, fun other different => by simp [upload, different], fun started there _ => ?_⟩
      rw [upload, found, Option.map_some] at there
      cases there
      refine ⟨(parts.insert number body).lookup, by simp [upload], fun other different => AList.lookup_insert_ne different,
        fun tag same => by cases same; exact ⟨rfl, AList.lookup_insert parts⟩, fun e same => by cases same⟩
    · next different =>
      obtain ⟨rfl, rfl⟩ := Prod.mk.inj staged
      refine ⟨rfl, fun _ _ => rfl, fun started there same => ?_⟩
      rw [upload, found, Option.map_some] at there
      cases there
      exact (different same).elim
  · next missing =>
    obtain ⟨rfl, rfl⟩ := Prod.mk.inj staged
    refine ⟨rfl, fun _ _ => rfl, fun started there _ => ?_⟩
    rw [upload, missing] at there
    cases there

theorem complete_law {key uploadId : String} {listed : List CompletedPart} {conditions : Conditions}
    {reply : (S3Call.completeMultipartUpload key uploadId listed conditions).Answer}
    (answered : serve (.completeMultipartUpload key uploadId listed conditions) s = (reply, t)) :
    (∀ other, other ≠ uploadId → t.upload other = s.upload other) ∧ (∀ tag, reply = .ok tag → t.upload uploadId = none) ∧
      ((∃ e, reply = .error e ∧ t.object = s.object ∧ ∀ started, s.upload uploadId = some started → started.key = key → e.Plain) ∨
        ∃ started bodies, s.upload uploadId = some started ∧ started.key = key ∧
          List.Forall₂ (fun part body => started.parts part.partNumber = some body ∧
            part.eTag = header (PlainEtags.tag body)) listed bodies ∧
          Written conditions key bodies.flatten (PlainEtags.tag bodies.flatten) s.object t.object reply) := by
  have completed : s.complete key uploadId listed conditions = (reply, t) := answered
  unfold complete at completed
  split at completed
  · next name parts found =>
    have begun : s.upload uploadId = some ⟨name, parts.lookup⟩ := by rw [upload, found, Option.map_some]
    split at completed
    · next same =>
      subst same
      split at completed
      · next bodies all =>
        obtain ⟨uploads, written⟩ := store_written name conditions bodies.flatten s
        split at completed
        · next tag after stored =>
          obtain ⟨rfl, rfl⟩ := Prod.mk.inj completed
          rw [stored] at written
          exact ⟨fun other different => by simp [upload, different], fun _ _ => by simp [upload],
            .inr ⟨_, bodies, begun, rfl, listedBodies_all all, written⟩⟩
        · next e after failed =>
          obtain ⟨rfl, rfl⟩ := Prod.mk.inj completed
          have same := store_error (congrArg Prod.fst failed)
          rw [failed] at written same
          rw [show after = s from same] at written
          exact ⟨fun _ _ => rfl, fun _ same => (by cases same), .inr ⟨_, bodies, begun, rfl, listedBodies_all all, written⟩⟩
      · obtain ⟨rfl, rfl⟩ := Prod.mk.inj completed
        exact ⟨fun _ _ => rfl, fun _ same => (by cases same),
          .inl ⟨_, rfl, rfl, fun _ _ _ => fault_plain (by decide) (by decide)⟩⟩
    · next different =>
      obtain ⟨rfl, rfl⟩ := Prod.mk.inj completed
      refine ⟨fun _ _ => rfl, fun _ same => (by cases same), .inl ⟨_, rfl, rfl, fun started there same => ?_⟩⟩
      rw [begun] at there
      cases there
      exact (different same).elim
  · next missing =>
    obtain ⟨rfl, rfl⟩ := Prod.mk.inj completed
    refine ⟨fun _ _ => rfl, fun _ same => (by cases same), .inl ⟨_, rfl, rfl, fun started there _ => ?_⟩⟩
    rw [upload, missing] at there
    cases there

theorem abort_law {key uploadId : String} {reply : (S3Call.abortMultipartUpload key uploadId).Answer}
    (answered : serve (.abortMultipartUpload key uploadId) s = (reply, t)) :
    t.object = s.object ∧ (∀ other, other ≠ uploadId → t.upload other = s.upload other) ∧ (reply = .ok () → t.upload uploadId = none) := by
  obtain ⟨rfl, rfl⟩ := Prod.mk.inj answered
  exact ⟨rfl, fun other different => by simp [upload, different], fun _ => by simp [upload]⟩

theorem missing_fault (code : String) (other : code ≠ "PreconditionFailed" ∧ code ≠ "ConditionalRequestConflict") :
    (fault 404 code).Missing := fun key kind => by simp [classify, fault, other, S3Error.isNotFound]

theorem find_cases (key : String) (s : MemoryS3) :
    (∃ found, s.object key = some found ∧ s.find key = .ok found) ∨
      (s.object key = none ∧ s.find key = .error (fault 404 "NoSuchKey")) := by
  unfold find
  cases found : s.objects.lookup key with
  | none => exact .inr ⟨found, rfl⟩
  | some object => exact .inl ⟨object, found, rfl⟩

theorem head_law {key : String} {reply : (S3Call.headObject key).Answer} (answered : serve (.headObject key) s = (reply, t)) :
    t.object = s.object ∧ t.upload = s.upload ∧
      (∀ output, reply = .ok output → ∃ found, s.object key = some found ∧
        output = ⟨some found.eTag, some found.lastModified, some found.data.length⟩) ∧
      ∀ e, reply = .error e → e.Plain ∨ (s.object key = none ∧ e.Missing) := by
  obtain ⟨rfl, rfl⟩ := Prod.mk.inj answered
  refine ⟨rfl, rfl, ?_⟩
  rcases find_cases key s with ⟨found, there, read⟩ | ⟨absent, read⟩ <;> rw [read]
  · exact ⟨fun output same => (by cases same; exact ⟨found, there, rfl⟩), fun e same => (by cases same)⟩
  · exact ⟨fun output same => (by cases same), fun e same => (by cases same; exact .inr ⟨absent, missing_fault _ (by decide)⟩)⟩

theorem get_law {key : String} {reply : (S3Call.getObject key).Answer} (answered : serve (.getObject key) s = (reply, t)) :
    t.object = s.object ∧ t.upload = s.upload ∧
      (∀ output, reply = .ok output → ∃ found, s.object key = some found ∧ output.eTag = some found.eTag ∧
        output.lastModified = some found.lastModified ∧ ∀ bytes, output.body = .ok bytes → bytes = found.data) ∧
      ∀ e, reply = .error e → e.Plain ∨ (s.object key = none ∧ e.Missing) := by
  obtain ⟨rfl, rfl⟩ := Prod.mk.inj answered
  refine ⟨rfl, rfl, ?_⟩
  rcases find_cases key s with ⟨found, there, read⟩ | ⟨absent, read⟩ <;> rw [read]
  · refine ⟨fun output same => ?_, fun e same => (by cases same)⟩
    cases same
    exact ⟨found, there, rfl, rfl, fun bytes same => (Except.ok.inj same).symm⟩
  · exact ⟨fun output same => (by cases same), fun e same => (by cases same; exact .inr ⟨absent, missing_fault _ (by decide)⟩)⟩

theorem delete_law {key : String} {ifMatch : Option String} {reply : (S3Call.deleteObject key ifMatch).Answer}
    (answered : serve (.deleteObject key ifMatch) s = (reply, t)) :
    t.upload = s.upload ∧ Removed ifMatch key s.object t.object reply := by
  have removed : s.remove key ifMatch = (reply, t) := answered
  unfold remove at removed
  split at removed
  · next turnedDown =>
    obtain ⟨rfl, rfl⟩ := Prod.mk.inj removed
    refine ⟨rfl, .unsupported rfl (fun unconditional => ?_) fun _ _ => by simp [classify, fault, S3Error.isNotImplemented]⟩
    simp [unconditional] at turnedDown
  · split at removed
    · next missing =>
      obtain ⟨rfl, rfl⟩ := Prod.mk.inj removed
      exact ⟨rfl, .missing rfl missing (.inl rfl)⟩
    · next object found =>
      split at removed
      · next fits =>
        obtain ⟨rfl, rfl⟩ := Prod.mk.inj removed
        refine ⟨rfl, .removed found (fun tag asked => ?_) (funext fun other => ?_) (.inl rfl)⟩
        · rcases fits with unconditional | same
          · rw [unconditional] at asked
            cases asked
          · exact Option.some.inj (same.symm.trans asked)
        · rw [Function.update_apply]
          exact Map.lookup_erase_eq ..
      · next different =>
        obtain ⟨rfl, rfl⟩ := Prod.mk.inj removed
        obtain ⟨conditional, other⟩ := not_or.mp different
        obtain ⟨tag, rfl⟩ := Option.ne_none_iff_exists'.mp conditional
        exact ⟨rfl, .unmet rfl rfl found (fun same => other (congrArg some same.symm)) fun _ _ => by
          simp [classify, fault, S3Error.isPreconditionFailed]⟩

theorem list_law {pre : String} {maxKeys : Option Int} {token : Option String} {reply : (S3Call.listObjectsV2 pre maxKeys token).Answer}
    (answered : serve (.listObjectsV2 pre maxKeys token) s = (reply, t)) :
    t.object = s.object ∧ t.upload = s.upload ∧ ∀ page, reply = .ok page → (∀ n, maxKeys = some n → 0 < n) →
      Paged s.object pre (token.map id) page (page.nextContinuationToken.map id) := by
  obtain ⟨rfl, rfl⟩ := Prod.mk.inj answered
  refine ⟨rfl, rfl, fun page same limits => ?_⟩
  cases same
  rw [Option.map_id]
  exact page_paged pre maxKeys token s limits

end MemoryS3

open MemoryS3 in
open scoped PlainEtags in
instance : S3Backend MemoryS3 where
  answer call s reply t := serve call s = (reply, t)
  object := MemoryS3.object
  upload := MemoryS3.upload
  contentTag := PlainEtags.tag
  partsTag parts := PlainEtags.tag parts.flatten
  position := id
  tag_small _ _ := rfl
  tag_large body _ := congrArg PlainEtags.tag (chunks_flatten (Nat.succ_pos _) body)
  tag_plain := MemoryS3.tag_plain
  put_answer := put_law
  create_answer := create_law
  part_answer := part_law
  complete_answer := complete_law
  abort_answer := abort_law
  head_answer := head_law
  get_answer := get_law
  delete_answer := delete_law
  list_answer := list_law

end MonakaFs.Sync.S3
