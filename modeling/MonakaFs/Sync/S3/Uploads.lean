import MonakaFs.Sync.S3.Atomic

/-! A body that goes up in parts is stored at once.

The parts are staged under an upload that nobody else knows, in any order. The object
changes when the upload is completed, and only then; until then, and after it, the calls of
the upload leave every object alone.
-/

set_option autoImplicit false

namespace MonakaFs.Sync.S3

open Async Contract

section
variable [EtagScheme] {S : Type} [S3Backend S] {storage : S3Storage} {s t u : S3Node S}

/-! ### What one call does to the log -/

/-- Every call so far left the objects alone. -/
def AllStill (log : List (Call S)) : Prop := ∀ m ∈ log, Still m

theorem AllStill.cons {log : List (Call S)} {m : Call S} (all : AllStill log) (still : Still m) : AllStill (m :: log) := by
  intro other member
  rcases List.mem_cons.mp member with rfl | member
  · exact still
  · exact all other member

theorem sent {call : S3Call} {reply : call.Answer} (effect : (client S).effect (.send call) t reply u) :
    S3Backend.answer call t.state.service reply u.state.service ∧ u.state.supported = t.state.supported ∧
      u.log = ⟨.send call, reply, t.state, u.state⟩ :: t.log := ⟨effect.1.1, effect.1.2, effect.2⟩

/-- A call that touches one upload at most, an own one. -/
theorem guarantee_own {id : String} (own : id ∈ uploads t.log) (supported : u.state.supported = t.state.supported)
    (others : ∀ other, other ≠ id → upload u.state.service other = upload t.state.service other) : ClientGuarantee t u :=
  ⟨.inl supported, fun other unknown _ => others other fun same => unknown (same ▸ own)⟩

theorem guarantee_same (supported : u.state.supported = t.state.supported)
    (same : upload u.state.service = upload t.state.service) : ClientGuarantee t u :=
  ⟨.inl supported, fun other _ _ => congrFun same other⟩

/-! ### The parts -/

/-- While the parts of a body are on their way, with the results that have come. -/
structure Uploading (key id : String) (data : Bytes) (done : List (Nat × Except S3Error CompletedPart)) (s : S3Node S) : Prop where
  still : AllStill s.log
  own : uploads s.log = [id]
  staged : ∃ parts, upload s.state.service id = some ⟨key, parts⟩ ∧ ∀ i part, (i, .ok part) ∈ done →
    ∃ chunk, (chunks partSize data)[i]? = some chunk ∧ parts (i + 1) = some chunk ∧
      part = ⟨i + 1, header (S3Backend.contentTag S chunk)⟩
  failed : ∀ i e, (i, .error e) ∈ done → e.isTransport = true

theorem Uploading.rely {key id : String} {data : Bytes} {done : List (Nat × Except S3Error CompletedPart)}
    (uploading : Uploading key id data done s) (moves : ClientRely s t) : Uploading key id data done t := by
  obtain ⟨parts, staged, matched⟩ := uploading.staged
  have kept := moves.own id (by simp [uploading.own])
  exact ⟨moves.log ▸ uploading.still, moves.log ▸ uploading.own, ⟨parts, kept.trans staged, matched⟩, uploading.failed⟩

theorem uploadPart_safe {key id : String} {data chunk : Bytes} {i : Nat} {done : List (Nat × Except S3Error CompletedPart)}
    (found : (chunks partSize data)[i]? = some chunk) (fresh : i ∉ done.map Prod.fst) (uploading : Uploading key id data done s) :
    (client S).Safe (fun result t => Uploading key id data (done ++ [(i, result)]) t) (S3Storage.uploadPart key id i chunk) s := by
  simp only [S3Storage.uploadPart]
  refine safe_call fun t moves => ⟨trivial, fun reply u effect => ?_⟩
  obtain ⟨answered, supported, logged⟩ := sent effect
  obtain ⟨still, own, ⟨parts, staged, matched⟩, failed⟩ := uploading.rely moves
  obtain ⟨kept, others, part⟩ := S3Backend.part_answer answered
  obtain ⟨parts', staged', elsewhere, stored, plain⟩ := part _ staged rfl
  refine ⟨guarantee_own (by simp [own]) supported others, ?_⟩
  have still' : AllStill u.log := by rw [logged]; exact still.cons kept
  have own' : uploads u.log = [id] := by rw [logged, uploads_other rfl, own]
  -- The parts that were there before have other numbers.
  have before : ∀ j part, (j, Except.ok part) ∈ done → ∃ chunk, (chunks partSize data)[j]? = some chunk ∧
      parts' (j + 1) = some chunk ∧ part = ⟨j + 1, header (S3Backend.contentTag S chunk)⟩ := fun j part member => by
    obtain ⟨other, there, at_, same⟩ := matched j part member
    have different : j ≠ i := fun same => fresh (List.mem_map.mpr ⟨_, member, same⟩)
    exact ⟨other, there, (elsewhere _ (by omega)).trans at_, same⟩
  cases reply with
  | error e =>
    refine safe_done fun v later => Uploading.rely ⟨still', own', ⟨parts', staged', fun j part member => ?_⟩, fun j e' member => ?_⟩ later
    · exact before j part (by simpa using member)
    · simp only [List.mem_append, List.mem_singleton, Prod.mk.injEq, Except.error.injEq] at member
      rcases member with member | ⟨-, rfl⟩
      · exact failed j e' member
      · exact plain e rfl _ _
  | ok tag =>
    obtain ⟨rfl, here⟩ := stored tag rfl
    refine safe_done fun v later => Uploading.rely ⟨still', own', ⟨parts', staged', fun j part member => ?_⟩, fun j e' member => ?_⟩ later
    · simp only [List.mem_append, List.mem_singleton, Prod.mk.injEq, Except.ok.injEq] at member
      rcases member with member | ⟨rfl, rfl⟩
      · exact before j part member
      · exact ⟨chunk, found, here, rfl⟩
    · exact failed j e' (by simpa using member)

theorem arrange_safe {key id : String} {data : Bytes} (futures : Nat) (uploading : Uploading key id data [] s) :
    (client S).Safe (fun order t => order.Perm (List.range futures) ∧ Uploading key id data [] t) (arrange futures) s := by
  refine safe_call fun t moves => ⟨trivial, fun order u effect => ?_⟩
  obtain ⟨⟨perm, same⟩, logged⟩ := effect
  obtain ⟨still, own, staged, failed⟩ := uploading.rely moves
  refine ⟨guarantee_same (by rw [same]) (by rw [same]), safe_done fun v later => ⟨perm, ?_⟩⟩
  have quiet : Still (S := S) ⟨.arrange futures, order, t.state, u.state⟩ := by rw [Still, same]
  exact Uploading.rely ⟨by rw [logged]; exact still.cons quiet, by rw [logged, uploads_other rfl, own], by rw [same]; exact staged,
    failed⟩ later

/-- Every part has been staged, and the list names them in the order of the body, whatever order they came in. -/
theorem parts_listed {key uploadId : String} {data : Bytes} {done : List (Nat × Except S3Error CompletedPart)}
    (uploading : Uploading key uploadId data done s) {results : List (Except S3Error CompletedPart)} {parts : List CompletedPart}
    (length : results.length = (chunks partSize data).length)
    (found : ∀ index result, results[index]? = some result → (index, result) ∈ done) (all : collect results = .ok parts) :
    (∃ staged, upload s.state.service uploadId = some ⟨key, staged⟩ ∧
      ∀ (i : Nat) chunk, (chunks partSize data)[i]? = some chunk → staged (i + 1) = some chunk) ∧
      parts = (chunks partSize data).mapIdx fun i chunk => ⟨i + 1, header (S3Backend.contentTag S chunk)⟩ := by
  obtain ⟨staged, there, matched⟩ := uploading.staged
  have same := collect_ok all
  have lengths : parts.length = (chunks partSize data).length := by rw [← length, same, List.length_map]
  have each : ∀ (i : Nat) part, parts[i]? = some part → ∃ chunk, (chunks partSize data)[i]? = some chunk ∧
      staged (i + 1) = some chunk ∧ part = ⟨i + 1, header (S3Backend.contentTag S chunk)⟩ := fun i part at_ =>
    matched i part (found i (.ok part) (by rw [same, List.getElem?_map, at_, Option.map_some]))
  refine ⟨⟨staged, there, fun i chunk at_ => ?_⟩, List.ext_getElem? fun i => ?_⟩
  · obtain ⟨inRange, -⟩ := List.getElem?_eq_some_iff.mp at_
    obtain ⟨other, again, stored, -⟩ := each i _ (List.getElem?_eq_getElem (lengths ▸ inRange))
    rw [stored, ← again, at_]
  · rw [List.getElem?_mapIdx]
    cases at_ : parts[i]? with
    | none =>
      have outside := List.getElem?_eq_none_iff.mp at_
      rw [List.getElem?_eq_none (by omega), Option.map_none]
    | some part =>
      obtain ⟨chunk, here, -, rfl⟩ := each i part at_
      rw [here, Option.map_some]

omit [EtagScheme] in
/-- Bodies found under the listed numbers are the chunks, so together they are the body. -/
theorem listed_bodies {data : Bytes} {staged : Nat → Option Bytes} {tag : Bytes → String} {bodies : List Bytes}
    (stored : ∀ (i : Nat) chunk, (chunks partSize data)[i]? = some chunk → staged (i + 1) = some chunk)
    (named : List.Forall₂ (fun (part : CompletedPart) body => staged part.partNumber = some body ∧ part.eTag = header (tag body))
      ((chunks partSize data).mapIdx fun i chunk => ⟨i + 1, header (tag chunk)⟩) bodies) :
    bodies = chunks partSize data := by
  have lengths := named.length_eq
  rw [List.length_mapIdx] at lengths
  refine List.ext_getElem lengths.symm fun i inBodies inChunks => ?_
  have here := named.get (by simpa using inChunks) inBodies
  simp only [List.get_eq_getElem, List.getElem_mapIdx] at here
  have there := stored i _ (List.getElem?_eq_getElem inChunks)
  rw [here.1] at there
  exact Option.some.inj there

omit [EtagScheme] in
theorem sorted_parts {data : Bytes} {tag : Bytes → String} :
    ((chunks partSize data).mapIdx fun i chunk => (⟨i + 1, header (tag chunk)⟩ : CompletedPart)).mergeSort
      (fun first second => decide (first.partNumber ≤ second.partNumber)) =
      (chunks partSize data).mapIdx fun i chunk => ⟨i + 1, header (tag chunk)⟩ := by
  refine List.mergeSort_of_pairwise (List.pairwise_iff_getElem.mpr fun i j inRange inRange' before => ?_)
  simp only [List.getElem_mapIdx, decide_eq_true_eq]
  omega

/-! ### The whole upload -/

/-- So far one call has done it, in an upload of its own. -/
structure Uploaded (storage : S3Storage) (uploadId key : String) (data : Bytes) (cond : Precondition) (result : Except S3Error String)
    (s : S3Node S) : Prop where
  own : uploads s.log = [uploadId]
  once : Once Still (Serves storage (.put key data cond) result) s.log
  released : result.isOk = true → upload s.state.service uploadId = none

theorem Uploaded.rely {uploadId key : String} {data : Bytes} {cond : Precondition} {result : Except S3Error String}
    (uploaded : Uploaded storage uploadId key data cond result s) (moves : ClientRely s t) :
    Uploaded storage uploadId key data cond result t :=
  ⟨moves.log ▸ uploaded.own, moves.log ▸ uploaded.once,
    fun returned => (moves.own uploadId (by simp [uploaded.own])).trans (uploaded.released returned)⟩

theorem once_unsent {request : Request} {e : S3Error} (admissible : Admissible (.unsent e)) {log : List (Call S)}
    (some_ : log ≠ []) (still : AllStill log) : Once Still (Serves storage request (.error e)) log := by
  obtain ⟨m, earlier, rfl⟩ := List.exists_cons_of_ne_nil some_
  exact .last (serves_unsent admissible (still m (by simp))) fun other member => still other (by simp [member])

theorem multipartUploadInner_safe {key uploadId : String} (relative : Relative key) {data : Bytes} (large : multipartThreshold ≤ data.length)
    {cond : Precondition} (unquoted : Unquoted cond) (uploading : Uploading (storage.key key) uploadId data [] s) :
    (client S).Safe (fun result t => Uploaded storage uploadId key data cond result t)
      (S3Storage.multipartUploadInner (storage.key key) data uploadId cond) s := by
  unfold S3Storage.multipartUploadInner
  refine (safe_joinAll (Uploading (storage.key key) uploadId data) (fun holds moves => Uploading.rely holds moves) (fun index future done t there fresh holds => ?_)
    (arrange_safe _ uploading)).bind fun results t joined => ?_
  · rw [List.getElem?_mapIdx] at there
    obtain ⟨chunk, found, rfl⟩ := Option.map_eq_some_iff.mp there
    exact uploadPart_safe found fresh holds
  obtain ⟨done, holds, length, found⟩ := joined
  rw [List.length_mapIdx] at length
  split
  · next e failed =>
    -- A part did not come through, and nothing has been done to the object.
    obtain ⟨i, inRange, at_⟩ := List.getElem_of_mem (collect_error failed)
    have transport := holds.failed i e (found i _ (by rw [List.getElem?_eq_getElem inRange, at_]))
    have some_ : t.log ≠ [] := fun empty => by
      have own := holds.own
      rw [empty] at own
      cases own
    exact safe_done fun u moves => Uploaded.rely ⟨holds.own, once_unsent (.lost transport) some_ holds.still,
      fun returned => (by cases returned)⟩ moves
  · next parts all =>
    obtain ⟨-, rfl⟩ := parts_listed holds length found all
    rw [sorted_parts]
    refine safe_call fun u moves => ⟨trivial, fun reply v effect => ?_⟩
    obtain ⟨answered, supported, logged⟩ := sent effect
    have here := holds.rely moves
    obtain ⟨⟨staged, there, stored⟩, -⟩ := parts_listed here length found all
    obtain ⟨others, emptied, outcome⟩ := S3Backend.complete_answer answered
    refine ⟨guarantee_own (by simp [here.own]) supported others, ?_⟩
    have own' : uploads v.log = [uploadId] := by rw [logged, uploads_other rfl, here.own]
    rcases outcome with ⟨e, rfl, same, plain⟩ | ⟨begun, bodies, there', -, named, written⟩
    · have admissible : Admissible (.unsent (classify (storage.key key) e .write)) := .lost (plain _ there rfl _ _)
      have still' : AllStill v.log := by rw [logged]; exact here.still.cons same
      exact safe_done fun w later => Uploaded.rely ⟨own', once_unsent admissible (by simp [logged]) still',
        fun returned => (by cases returned)⟩ later
    · obtain rfl := Option.some.inj (there'.symm.trans there)
      obtain rfl := listed_bodies stored named
      rw [chunks_flatten (by decide), S3Backend.tag_large data large] at written
      cases reply with
      | error e =>
        refine safe_done fun w later => Uploaded.rely ⟨own', ?_, fun returned => (by cases returned)⟩ later
        rw [logged]
        exact .last (written_serves relative unquoted (fun _ same => by cases same; rfl) (fun _ same => by cases same) written) here.still
      | ok tag =>
        refine safe_done fun w later => Uploaded.rely ⟨own', ?_, fun _ => emptied tag rfl⟩ later
        rw [logged]
        exact .last (written_serves relative unquoted (fun _ same => by cases same) (fun _ same => by cases same; rfl) written) here.still

/-- The upload whose abort did not come through. -/
def abortFailed : Call S → Option String
  | ⟨.send (.abortMultipartUpload _ uploadId), .error _, _, _⟩ => some uploadId
  | _ => none

/-- Nothing stays staged, unless an abort was lost. -/
def Released (s : S3Node S) : Prop :=
  ∀ uploadId ∈ uploads s.log, upload s.state.service uploadId = none ∨ ∃ m ∈ s.log, abortFailed m = some uploadId

theorem Released.rely (released : Released s) (moves : ClientRely s t) : Released t := by
  intro uploadId member
  rw [moves.log] at member ⊢
  exact (released uploadId member).imp (moves.own uploadId member).trans id

theorem multipartUpload_safe {key : String} (relative : Relative key) {data : Bytes} (large : multipartThreshold ≤ data.length)
    {cond : Precondition} (unquoted : Unquoted cond) (fresh : s.log = []) :
    (client S).Safe (fun result t => Once Still (Serves storage (.put key data cond) result) t.log ∧ Released t)
      (S3Storage.multipartUpload (storage.key key) data cond) s := by
  unfold S3Storage.multipartUpload
  refine safe_call fun t moves => ⟨trivial, fun reply u effect => ?_⟩
  obtain ⟨answered, supported, logged⟩ := sent effect
  obtain ⟨same, others, begun, plain⟩ := S3Backend.create_answer answered
  rw [moves.log, fresh] at logged
  refine ⟨⟨.inl supported, fun other _ there => others other there⟩, ?_⟩
  have still : AllStill u.log := by rw [logged]; exact AllStill.cons (fun _ member => by cases member) same
  cases reply with
  | error e =>
    refine safe_done fun v later => ⟨later.log ▸ once_unsent (.lost (plain e rfl _ _)) (by simp [logged]) still, Released.rely ?_ later⟩
    rw [Released, logged]
    exact fun _ member => by cases member
  | ok started =>
    cases started with
    | none =>
      refine safe_done fun v later => ⟨later.log ▸ once_unsent (.lost rfl) (by simp [logged]) still, Released.rely ?_ later⟩
      rw [Released, logged]
      exact fun _ member => by cases member
    | some uploadId =>
      obtain ⟨-, staged⟩ := begun uploadId rfl
      have own : uploads u.log = [uploadId] := by rw [logged]; rfl
      refine (multipartUploadInner_safe relative large unquoted ⟨still, own, ⟨_, staged, fun _ _ member => by cases member⟩,
        fun _ _ member => by cases member⟩).bind fun result v uploaded => ?_
      cases result with
      | ok etag =>
        refine safe_done fun w later => ?_
        have after := uploaded.rely later
        refine ⟨after.once, fun other member => .inl ?_⟩
        rw [after.own, List.mem_singleton] at member
        rw [member]
        exact after.released rfl
      | error e =>
        refine safe_call fun w later => ⟨trivial, fun aborted x effect => ?_⟩
        obtain ⟨answered', supported', logged'⟩ := sent effect
        have here := uploaded.rely later
        obtain ⟨same', others', gone⟩ := S3Backend.abort_answer answered'
        refine ⟨guarantee_own (by simp [here.own]) supported' others', safe_done fun y last => ?_⟩
        refine ⟨last.log ▸ ?_, Released.rely (fun other member => ?_) last⟩
        · rw [logged']
          exact here.once.later same'
        · rw [logged', uploads_other rfl, here.own, List.mem_singleton] at member
          subst member
          cases aborted with
          | ok _ => exact .inl (gone rfl)
          | error _ => exact .inr ⟨_, by rw [logged']; exact List.mem_cons_self, rfl⟩

end
end MonakaFs.Sync.S3
