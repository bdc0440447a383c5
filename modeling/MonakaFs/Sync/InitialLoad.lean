import MonakaFs.Sync.Cluster
import MonakaFs.Sync.LocalTree
import MonakaFs.Sync.Runs

/-! The initial load over the in-memory filesystem, from a store that is at rest.

The filesystem and the metadata cache describe one list of downloads. The load fails when
one of its files stands where another one needs a directory, and then the instance begins
with nothing.
-/

set_option autoImplicit false

namespace MonakaFs.Sync

open Async FsCore

/-! ### What a list of downloads comes to -/

/-- The bytes that came last under a key of their path. -/
def latest {K : Type} [DecidableEq K] (key : String → K) (loads : List (String × Bytes)) (wanted : K) : Option Bytes :=
  (loads.filter fun load => key load.1 = wanted).getLast?.map (·.2)

section
variable {K : Type} [DecidableEq K] (key : String → K) (loads : List (String × Bytes))

theorem latest_concat (path : String) (data : Bytes) :
    latest key (loads ++ [(path, data)]) = Function.update (latest key loads) (key path) (some data) := by
  funext wanted
  rw [latest, List.filter_append, Function.update_apply, List.filter_singleton]
  by_cases same : key path = wanted
  · simp [same]
  · simp [same, Ne.symm same, latest]

theorem latest_ne_none {wanted : K} : latest key loads wanted ≠ none ↔ ∃ load ∈ loads, key load.1 = wanted := by
  rw [latest, Ne, Option.map_eq_none_iff, List.getLast?_eq_none_iff, List.filter_eq_nil_iff]
  push Not
  simp only [decide_eq_true_eq]

end

/-- The directories of a tree: those that were listed, and those above its files. -/
def Folder (dirs : List String) (loads : List (String × Bytes)) (names : List String) : Prop :=
  names = [] ∨ (∃ dir ∈ dirs, names <+: components dir) ∨ ∃ load ∈ loads, names <+: (components load.1).dropLast

/-- A file stands in the place of a directory. -/
def Clashes (dirs : List String) (loads : List (String × Bytes)) : Prop := ∃ load ∈ loads, Folder dirs loads (components load.1)

instance (dirs : List String) (loads : List (String × Bytes)) (names : List String) : Decidable (Folder dirs loads names) :=
  inferInstanceAs (Decidable (_ ∨ _ ∨ _))

instance (dirs : List String) (loads : List (String × Bytes)) : Decidable (Clashes dirs loads) :=
  inferInstanceAs (Decidable (∃ load ∈ loads, Folder dirs loads (components load.1)))

section
variable {dirs : List String} {loads more : List (String × Bytes)} {load : String × Bytes} {names : List String}

theorem folder_concat : Folder dirs (loads ++ [load]) names ↔ Folder dirs loads names ∨ names <+: (components load.1).dropLast := by
  simp only [Folder, List.mem_append, List.mem_singleton, or_and_right, exists_or, exists_eq_left, or_assoc]

theorem Folder.mono (folder : Folder dirs loads names) (within : loads ⊆ more) : Folder dirs more names :=
  folder.imp id (.imp id fun there => there.elim fun load found => ⟨load, within found.1, found.2⟩)

theorem Clashes.mono (clash : Clashes dirs loads) (within : loads ⊆ more) : Clashes dirs more := by
  obtain ⟨load, member, folder⟩ := clash
  exact ⟨load, within member, folder.mono within⟩

/-- One more file clashes with a directory in its place, or with a file among its directories. -/
theorem clashes_concat (apart : ¬ Clashes dirs loads) : Clashes dirs (loads ++ [load]) ↔
    Folder dirs loads (components load.1) ∨ ∃ other ∈ loads, components other.1 <+: (components load.1).dropLast := by
  constructor
  · rintro ⟨one, member, folder⟩
    rcases List.mem_append.mp member with old | new
    · exact (folder_concat.mp folder).elim (fun there => absurd ⟨one, old, there⟩ apart) fun above => .inr ⟨one, old, above⟩
    · obtain rfl := List.mem_singleton.mp new
      refine (folder_concat.mp folder).elim .inl fun above => .inl (.inl ?_)
      by_contra some
      have shorter := above.length_le
      rw [List.length_dropLast] at shorter
      have := List.length_pos_iff.mpr some
      omega
  · rintro (there | ⟨other, member, above⟩)
    · exact ⟨load, List.mem_append_right _ List.mem_cons_self, folder_concat.mpr (.inl there)⟩
    · exact ⟨other, List.mem_append_left _ member, folder_concat.mpr (.inr above)⟩

end

/-- More inode numbers than paths take. -/
def cost (paths : List String) : Nat := (paths.map fun path => (components path).length + 1).sum

/-- Directories and files share the numbers. -/
theorem cost_split (infos : List S3ObjectInfo) : cost (infos.map (·.path)) =
    cost ((infos.filter (·.isDir)).map (·.path)) + cost ((infos.filter fun info => !info.isDir).map (·.path)) := by
  unfold cost
  induction infos with
  | nil => rfl
  | cons info rest ih =>
    rw [List.map_cons, List.map_cons, List.sum_cons, ih]
    cases dir : info.isDir <;> simp [dir] <;> omega

theorem room_after {number later taken further : Nat} (spent : later ≤ number + taken) (room : number + (taken + further) < 2 ^ 64) :
    later + further < 2 ^ 64 := by omega

theorem room_first {number taken further : Nat} (room : number + (taken + 1 + further) < 2 ^ 64) : number + taken + 1 < 2 ^ 64 := by omega

/-! ### The tree of a list of downloads -/

/-- The filesystem holds what was loaded, and nothing else. -/
structure Holding {T : Type} [TimeProvider T] [Target] (fs : Fs T) (dirs : List String) (loads : List (String × Bytes)) : Prop where
  working : Working fs
  files : fs.files = latest components loads
  folders : ∀ names, fs.Occupied names ↔ Folder dirs loads names

section
variable {T : Type} [TimeProvider T] [target : Target] {fs : Fs T} {dirs : List String} {loads : List (String × Bytes)}
variable {path : String} {data : Bytes}

theorem Holding.new (clock : T) : Holding (Fs.withTimeProvider clock) [] [] := by
  have nowhere (name : String) (names : List String) :
      (Fs.withTimeProvider clock).links.walk (Fs.withTimeProvider clock).rootInode (name :: names) = none := rfl
  refine ⟨.new clock, funext fun names => ?_, fun names => ?_⟩
  · cases names with
    | nil => exact Fs.files_dir rfl (Fs.new_sane clock).root
    | cons name names => exact Fs.files_missing (nowhere name names)
  · cases names with
    | nil => exact ⟨fun _ => .inl rfl, fun _ => Fs.occupied_root (Fs.new_sane clock)⟩
    | cons name names => simp [Fs.Occupied, nowhere, Folder]

theorem Holding.mkdir (word : target.usizeBits ≤ 64) (holding : Holding fs dirs []) (spelled : path ≠ "")
    (room : fs.nextInode + (components path).length < 2 ^ 64) : Holding (fs.mkdirP path).2 (dirs ++ [path]) [] := by
  have sane := (holding.working.healthy word).sane
  have free : ¬ fs.Blocked fs.rootInode (components path) := by
    rw [Fs.blocked_iff, holding.files]
    rintro ⟨front, -, there⟩
    exact there rfl
  refine ⟨holding.working.called (.mkdirP path) room trivial, (Fs.mkdirP_files path sane room).trans holding.files, fun names => ?_⟩
  rw [Fs.mkdirP_occupied sane spelled free room, holding.folders]
  simp only [Folder, List.mem_append, List.mem_singleton, or_and_right, exists_or, exists_eq_left, List.not_mem_nil, false_and,
    exists_false, or_false, or_assoc]

theorem Holding.load (word : target.usizeBits ≤ 64) (holding : Holding fs dirs loads) (apart : ¬ Clashes dirs loads)
    (plain : "." ∉ components path) (room : fs.nextInode + (components path).length + 1 < 2 ^ 64) (small : data.length < 2 ^ target.usizeBits) :
    (Clashes dirs (loads ++ [(path, data)]) ∧ ∃ e, (loadFile path data fs).1 = .error e) ∨
      (¬ Clashes dirs (loads ++ [(path, data)]) ∧ (loadFile path data fs).1 = .ok () ∧
        Holding (loadFile path data fs).2 dirs (loads ++ [(path, data)]) ∧
        (loadFile path data fs).2.nextInode ≤ fs.nextInode + ((components path).length + 1)) := by
  have fewer := Nat.lt_of_succ_lt room
  have healthy := holding.working.healthy word
  obtain ⟨effect, same⟩ := replaced word healthy fewer small
  have decided := stored_iff word holding.working plain fewer small
  have stands : (components path ≠ [] ∧ ¬ fs.Blocked fs.rootInode (components path).dropLast ∧ ¬ fs.Occupied (components path)) ↔
      ¬ Clashes dirs (loads ++ [(path, data)]) := by
    rw [clashes_concat apart, Fs.blocked_iff, holding.files, holding.folders]
    simp only [latest_ne_none]
    constructor
    · rintro ⟨-, unblocked, free⟩ (there | ⟨other, member, above⟩)
      · exact free there
      · exact unblocked ⟨_, above, other, member, rfl⟩
    · intro free
      refine ⟨fun root => free (.inl (.inl root)), ?_, fun there => free (.inl there)⟩
      rintro ⟨front, above, other, member, rfl⟩
      exact free (.inr ⟨other, member, above⟩)
  have working := @writeFileContent_working T _ _ fs path data word holding.working room small
  have folders := @writeFileContent_occupied T _ _ fs path data word healthy plain fewer small
  have clash : (writeFileContent path data fs).1 ≠ .ok () → Clashes dirs (loads ++ [(path, data)]) := fun failed =>
    by_contra fun free => failed (decided.mpr (stands.mpr free))
  rw [same, ← stands, ← decided]
  generalize writeFileContent path data fs = outcome at effect working folders clash
  cases effect with
  | done filled files back =>
    refine .inr ⟨rfl, rfl, ⟨working.1, ?_, fun names => ?_⟩, by rw [← Nat.add_assoc]; exact working.2⟩
    · rw [files, holding.files, latest_concat]
    · rw [folders rfl, holding.folders, folder_concat]
  | failed => exact .inl ⟨clash fun ok => (by cases ok), _, rfl⟩
  | root => exact .inl ⟨clash fun ok => (by cases ok), _, rfl⟩

end

/-! ### The load -/

section
variable [EtagScheme]

/-- The listed files, as they are in the store. -/
def offered (store : ObjectStore) (files : List S3ObjectInfo) : List (String × Bytes) :=
  files.filterMap fun info => (store.objects.lookup (fileKey info.path)).map fun object => (info.path, object.data)

def listing (store : ObjectStore) : List S3ObjectInfo := (store.list filesPrefix none).filterMap fileInfo

def listedDirs (store : ObjectStore) : List String := ((listing store).filter (·.isDir)).map (·.path)

def listedFiles (store : ObjectStore) : List (String × Bytes) := offered store ((listing store).filter fun info => !info.isDir)

section
variable {F : Type}

/-- The store has the files of another one. -/
structure Offers (store : ObjectStore) (s : Snapshot F) : Prop where
  listed : s.store.list filesPrefix none = store.list filesPrefix none
  objects : ∀ path, object path s = store.objects.lookup (fileKey path)

/-- Nobody changes a file in the store, and the instance itself waits. -/
def atRest : Surroundings F where
  moves s t := (t.manager = s.manager ∧ t.fs = s.fs) ∧ Offers s.store t
  refl _ := ⟨⟨rfl, rfl⟩, rfl, fun _ => rfl⟩
  trans first second := ⟨⟨second.1.1.trans first.1.1, second.1.2.trans first.1.2⟩, second.2.listed.trans first.2.listed,
    fun path => (second.2.objects path).trans (first.2.objects path)⟩

theorem Offers.moves {store : ObjectStore} {s t : Snapshot F} (offers : Offers store s) (moves : atRest.moves s t) : Offers store t :=
  ⟨moves.2.listed.trans offers.listed, fun path => (moves.2.objects path).trans (offers.objects path)⟩

/-- A request that only looks is answered from the store, if it is answered. -/
theorem act_look [FsBackend F] {r : Request} (looks : r.writes = none) (turn : Turn) (s : Snapshot F) :
    (s.act turn (.request r)).2 = s ∧ ((s.act turn (.request r)).1 = (s.store.serve r).1 ∨
      ¬ Truthful turn ∧ ∃ e, (s.act turn (.request r)).1 = .error e) := by
  have same : (s.store.serve r).2 = s.store := by
    cases r with
    | put | delete => cases looks
    | list | head | get => rfl
  have step : s.act turn (.request r) =
      ((s.store.serveWith turn.fault r).1, { s with store := (s.store.serveWith turn.fault r).2 }) := rfl
  rw [step, Truthful]
  unfold ObjectStore.serveWith
  cases turn.fault with
  | answered => exact ⟨by dsimp only; rw [same], .inl rfl⟩
  | unsent e => exact ⟨rfl, .inr ⟨Fault.noConfusion, e, rfl⟩⟩
  | unanswered e => exact ⟨by dsimp only; rw [same], .inr ⟨Fault.noConfusion, e, rfl⟩⟩

end

/-- Requests may fail in any way. -/
def Anyhow (_ : Turn) : Prop := True

section
variable {T : Type} [TimeProvider T] [target : Target] {admits : Turn → Prop} {store : ObjectStore} {s : Node (AdapterFs T)}
variable {cache : MetadataCache} {dirs : List String} {loads : List (String × Bytes)}

/-- The filesystem and the cache describe the same downloads. -/
structure Built (fs : Fs T) (cache : MetadataCache) (dirs : List String) (loads : List (String × Bytes)) : Prop where
  holding : Holding fs dirs loads
  apart : ¬ Clashes dirs loads
  etags : ∀ path, cache.etag path = (latest id loads path).map etagFor
  markers : ∀ path, cache.hasDir path = true ↔ path ∈ dirs

theorem populateDirs_builds (word : target.usizeBits ≤ 64) {rest : List S3ObjectInfo} {further : Nat}
    (built : Built s.state.fs cache dirs []) (offers : Offers store s.state) (spelled : ∀ info ∈ rest, info.path ≠ "")
    (room : s.state.fs.nextInode + (cost (rest.map (·.path)) + further) < 2 ^ 64) :
    (runs admits atRest).Safe (fun cache t => Built t.state.fs cache (dirs ++ rest.map (·.path)) [] ∧ Offers store t.state ∧
      t.state.fs.nextInode + further < 2 ^ 64) (populateDirs rest cache) s := by
  induction rest generalizing s dirs cache with
  | nil =>
    refine safe_return fun t moves => ⟨?_, offers.moves moves, ?_⟩
    · rw [moves.1.2, List.map_nil, List.append_nil]
      exact built
    · rw [moves.1.2]
      simpa [cost] using room
  | cons info rest ih =>
    simp only [populateDirs, onFs_bind]
    refine safe_next ?_
    rintro t reply _ moves ⟨turn, -, -, rfl⟩
    have number : t.fs.nextInode + ((components info.path).length + 1 + (cost (rest.map (·.path)) + further)) < 2 ^ 64 := by
      rw [moves.1.2, ← Nat.add_assoc _ (cost _)]
      simpa [cost] using room
    have within : t.fs.nextInode + (components info.path).length < 2 ^ 64 := Nat.lt_of_succ_lt (room_first number)
    have spent : (t.fs.mkdirP info.path).2.nextInode ≤ t.fs.nextInode + ((components info.path).length + 1) :=
      (Fs.mkdirP_next t.fs info.path).trans (Nat.add_le_add_left (Nat.le_succ _) _)
    have made : Built (t.fs.mkdirP info.path).2 (cache.addDir info.path info.etag) (dirs ++ [info.path]) [] := by
      refine ⟨(moves.1.2 ▸ built.holding).mkdir word (spelled info List.mem_cons_self) within, ?_, built.etags, fun path => ?_⟩
      · rintro ⟨load, member, -⟩
        cases member
      · rw [MetadataCache.hasDir, MetadataCache.addDir, Map.lookup_insert_eq, List.mem_append, List.mem_singleton, ← built.markers]
        split
        · next same => simp [same]
        · next other => simp [other, MetadataCache.hasDir]
    have here := offers.moves moves
    have left : (t.fs.mkdirP info.path).2.nextInode + (cost (rest.map (·.path)) + further) < 2 ^ 64 := room_after spent number
    refine (ih made ⟨here.listed, here.objects⟩ (fun info member => spelled info (List.mem_cons_of_mem _ member)) left).weaken
      fun _ _ done => ?_
    rw [List.map_cons, ← List.singleton_append, ← List.append_assoc]
    exact done

/-- The files were loaded, or one of them clashed. -/
inductive Loaded (dirs : List String) (loads : List (String × Bytes)) (fs : Fs T) : Except LoadError MetadataCache → Prop where
  | built {cache : MetadataCache} (built : Built fs cache dirs loads) : Loaded dirs loads fs (.ok cache)
  | clash {e : LoadError} (clash : Clashes dirs loads) : Loaded dirs loads fs (.error e)

omit [TimeProvider T] target in
theorem offered_missing {info : S3ObjectInfo} {rest : List S3ObjectInfo} (missing : store.objects.lookup (fileKey info.path) = none) :
    offered store (info :: rest) = offered store rest := List.filterMap_cons_none (by rw [missing]; rfl)

omit [TimeProvider T] target in
theorem offered_there {info : S3ObjectInfo} {rest : List S3ObjectInfo} {object : MemObject}
    (found : store.objects.lookup (fileKey info.path) = some object) :
    offered store (info :: rest) = (info.path, object.data) :: offered store rest := List.filterMap_cons_some (by rw [found]; rfl)

omit [TimeProvider T] target in
theorem offered_rest (store : ObjectStore) (info : S3ObjectInfo) (rest : List S3ObjectInfo) :
    (offered store rest).Sublist (offered store (info :: rest)) := (List.sublist_cons_self info rest).filterMap _

/-- One more download is recorded. -/
theorem Built.record {fs later : Fs T} {path : String} {data : Bytes} (built : Built fs cache dirs loads) (modified size : Nat)
    (holding : Holding later dirs (loads ++ [(path, data)])) (apart : ¬ Clashes dirs (loads ++ [(path, data)])) :
    Built later (cache.updateAfterDownload path (etagFor data) modified size) dirs (loads ++ [(path, data)]) := by
  refine ⟨holding, apart, fun other => ?_, built.markers⟩
  rw [MetadataCache.etag_updateAfterDownload, latest_concat, Function.update_apply, built.etags]
  simp only [id]
  split <;> rfl

theorem populateFiles_builds (word : target.usizeBits ≤ 64) {rest : List S3ObjectInfo} (built : Built s.state.fs cache dirs loads)
    (offers : Offers store s.state) (room : s.state.fs.nextInode + cost (rest.map (·.path)) < 2 ^ 64)
    (fits : ∀ load ∈ offered store rest, "." ∉ components load.1 ∧ load.2.length < 2 ^ target.usizeBits) :
    (runs admits atRest).Safe (fun result t => ∃ more, more.Sublist (offered store rest) ∧
      ((∀ turn, admits turn → Truthful turn) → more = offered store rest) ∧ Loaded dirs (loads ++ more) t.state.fs result)
      (populateFiles rest cache) s := by
  induction rest generalizing s loads cache with
  | nil =>
    refine safe_return fun t moves => ⟨[], .slnil, fun _ => rfl, ?_⟩
    rw [List.append_nil, moves.1.2]
    exact .built built
  | cons info rest ih =>
    have fewer : s.state.fs.nextInode + cost (rest.map (·.path)) < 2 ^ 64 :=
      Nat.lt_of_le_of_lt (Nat.add_le_add_left (Nat.le_add_left _ _) _) room
    have fits' (load) (member : load ∈ offered store rest) := fits load ((offered_rest store info rest).subset member)
    simp only [populateFiles, getFile_bind]
    refine safe_next ?_
    rintro t reply u moves ⟨turn, admitted, answer, later⟩
    obtain ⟨same, given⟩ := @act_look _ (AdapterFs T) _ (.get (fileKey info.path)) rfl turn t
    obtain rfl := later.trans same
    have here := offers.moves moves
    rw [← moves.1.2] at built room fewer
    rcases given with given | ⟨lied, e, failed⟩
    · cases found : store.objects.lookup (fileKey info.path) with
      | none =>
        have nothing : reply = .ok none := by
          rw [answer, given]
          exact congrArg Except.ok (by rw [ObjectStore.get, show u.store.objects.lookup _ = none from (here.objects _).trans found]; rfl)
        rw [nothing, offered_missing found]
        exact ih built here fewer fits'
      | some object =>
        have taken : reply = .ok (some (object.data, object.meta (fileKey info.path))) := by
          rw [answer, given]
          exact congrArg Except.ok (by rw [ObjectStore.get, show u.store.objects.lookup _ = some object from (here.objects _).trans found]; rfl)
        have all := @offered_there _ store info rest object found
        obtain ⟨plain, small⟩ := fits (info.path, object.data) (by rw [all]; exact List.mem_cons_self)
        rw [taken, all]
        simp only [onFs_bind]
        refine safe_next ?_
        rintro v loaded w moves' ⟨turn', -, answer', later'⟩
        have there := here.moves moves'
        have number : v.fs.nextInode + ((components info.path).length + 1 + cost (rest.map (·.path))) < 2 ^ 64 := by
          rw [moves'.1.2]
          simpa [cost] using room
        have within : v.fs.nextInode + (components info.path).length + 1 < 2 ^ 64 := room_first number
        have before : Built v.fs cache dirs loads := moves'.1.2 ▸ built
        have reached : loaded = (loadFile info.path object.data v.fs).1 := answer'
        have landed : w = { v with fs := (loadFile info.path object.data v.fs).2 } := later'
        have outcome := before.holding.load word before.apart plain within small
        generalize loadFile info.path object.data v.fs = stored at reached landed outcome
        obtain rfl := landed
        rcases outcome with ⟨clash, e, failed⟩ | ⟨apart, ok, holding, spent⟩
        · rw [reached, failed]
          refine safe_return fun w _ => ⟨_, .refl _, fun _ => rfl, .clash (clash.mono ?_)⟩
          exact ((List.singleton_sublist.mpr List.mem_cons_self).append_left loads).subset
        · rw [reached, ok]
          have left : stored.2.nextInode + cost (rest.map (·.path)) < 2 ^ 64 := room_after spent number
          refine (ih (before.record _ _ holding apart) ⟨there.listed, there.objects⟩ left fits').weaken ?_
          rintro result w ⟨more, part, whole, loaded⟩
          refine ⟨_, part.cons_cons _, fun honest => by rw [whole honest], ?_⟩
          rw [List.append_cons]
          exact loaded
    · rw [answer, failed]
      refine (ih built here fewer fits').weaken ?_
      rintro result t ⟨more, part, -, loaded⟩
      exact ⟨more, part.trans (offered_rest store info rest), fun honest => absurd (honest turn admitted) lied, loaded⟩

omit [TimeProvider T] target in
theorem listing_spelled {info : S3ObjectInfo} (member : info ∈ listing store) : info.path ≠ "" := by
  obtain ⟨found, -, named⟩ := List.mem_filterMap.mp member
  obtain ⟨⟨path, isDir⟩, parsed, rfl⟩ := Option.map_eq_some_iff.mp named
  unfold pathFromFileKey at parsed
  split at parsed
  · dsimp only at parsed
    split at parsed
    · cases parsed
    split at parsed
    · cases parsed
    · cases parsed
      intro blank
      have chars := congrArg String.toList blank
      simp at chars
  · cases parsed

variable {clock : T} {fresh : AdapterFs T}

/-- What is loaded has plain names, and what it takes can be counted. -/
structure Loadable (store : ObjectStore) (fs : Fs T) : Prop where
  fits : ∀ load ∈ listedFiles store, "." ∉ components load.1 ∧ load.2.length < 2 ^ target.usizeBits
  room : fs.nextInode + cost ((listing store).map (·.path)) < 2 ^ 64

/-- The instance begins with what was loaded, or with nothing. -/
inductive Begun (store : ObjectStore) (fresh : Fs T) (honest : Prop) (fs : Fs T) (cache : MetadataCache) : Prop where
  | loaded (loads : List (String × Bytes)) (part : loads.Sublist (listedFiles store)) (whole : honest → loads = listedFiles store)
      (built : Built fs cache (listedDirs store) loads)
  | empty (clash : honest → Clashes (listedDirs store) (listedFiles store)) (same : fs = fresh) (cached : cache = .empty)

theorem populateFromS3_builds (word : target.usizeBits ≤ 64) (begun : s.state.fs = Fs.withTimeProvider clock)
    (loadable : Loadable s.state.store s.state.fs) :
    (runs admits atRest).Safe (fun result t =>
      (¬ (∀ turn, admits turn → Truthful turn) ∧ ∃ e, result = .error e) ∨
        ∃ loads, loads.Sublist (listedFiles s.state.store) ∧ ((∀ turn, admits turn → Truthful turn) → loads = listedFiles s.state.store) ∧
          Loaded (listedDirs s.state.store) loads t.state.fs result) populateFromS3 s := by
  simp only [populateFromS3, listFiles_bind]
  refine safe_next ?_
  rintro t reply u moves ⟨turn, admitted, answer, later⟩
  obtain ⟨same, given⟩ := @act_look _ (AdapterFs T) _ (.list filesPrefix none) rfl turn t
  obtain rfl := later.trans same
  rcases given with given | ⟨lied, e, failed⟩
  · have listed : reply = .ok (s.state.store.list filesPrefix none) := by
      rw [answer, given]
      exact congrArg Except.ok moves.2.listed
    rw [listed]
    have blank : Built u.fs .empty [] [] := by
      rw [moves.1.2, begun]
      refine ⟨.new clock, ?_, fun path => rfl, fun path => ?_⟩
      · rintro ⟨load, member, -⟩
        cases member
      · exact ⟨fun there => (by cases there), fun member => (by cases member)⟩
    have room := loadable.room
    rw [cost_split, ← moves.1.2] at room
    refine (populateDirs_builds word blank moves.2 (fun info member => listing_spelled (List.mem_filter.mp member).1) room).bind ?_
    rintro cache v ⟨built, offers, room⟩
    refine (populateFiles_builds word built offers room loadable.fits).weaken ?_
    rintro result w ⟨more, part, whole, loaded⟩
    exact .inr ⟨more, part, whole, loaded⟩
  · rw [answer, failed]
    exact safe_return fun v _ => .inl ⟨fun honest => lied (honest turn admitted), _, rfl⟩

theorem initServer_builds (word : target.usizeBits ≤ 64) (begun : s.state.fs = Fs.withTimeProvider clock)
    (loadable : Loadable s.state.store s.state.fs) :
    (runs admits atRest).Safe (fun _ t => Begun s.state.store fresh (∀ turn, admits turn → Truthful turn) t.state.fs
      t.state.manager.metadataCache) (initServer fresh) s := by
  have loaded : (runs admits atRest).Safe (fun cache t => Begun s.state.store fresh (∀ turn, admits turn → Truthful turn) t.state.fs cache)
      (loadOrEmpty fresh) s := by
    refine (populateFromS3_builds word begun loadable).bind ?_
    have empty {t : Node (AdapterFs T)} (clash : (∀ turn, admits turn → Truthful turn) →
        Clashes (listedDirs s.state.store) (listedFiles s.state.store)) :
        (runs admits atRest).Safe (fun cache t => Begun s.state.store fresh (∀ turn, admits turn → Truthful turn) t.state.fs cache)
          (app (fun _ => fresh) >>= fun _ => pure .empty) t := by
      simp only [app_bind]
      refine safe_next ?_
      rintro u reply _ moves ⟨turn, -, -, rfl⟩
      exact safe_return fun v moves => .empty clash moves.1.2 rfl
    rintro result t (⟨lied, e, rfl⟩ | ⟨loads, part, whole, loaded⟩)
    · exact empty fun honest => absurd honest lied
    · cases loaded with
      | built built => exact safe_return fun u moves => .loaded loads part whole (moves.1.2 ▸ built)
      | clash clash => exact empty fun honest => whole honest ▸ clash
  refine loaded.bind fun cache t begun => ?_
  simp only [withCache_bind, instant_bind, withSchedule_bind]
  refine safe_next ?_
  rintro u _ u' moves ⟨turn, -, -, cached⟩
  refine safe_next ?_
  rintro v _ v' moves' ⟨turn', -, -, looked⟩
  refine safe_next ?_
  rintro w _ w' moves'' ⟨turn'', -, -, scheduled⟩
  refine safe_return fun x later => ?_
  have fs : x.fs = t.state.fs := by
    rw [later.1.2, scheduled]
    show w.fs = t.state.fs
    rw [moves''.1.2, looked]
    show v.fs = t.state.fs
    rw [moves'.1.2, cached]
    exact moves.1.2
  have known : x.manager.metadataCache = cache := by
    rw [later.1.1, scheduled]
    show w.manager.metadataCache = cache
    rw [moves''.1.1, looked]
    show v.manager.metadataCache = cache
    rw [moves'.1.1, cached]
    rfl
  rw [fs, known]
  exact begun

/-- An instance that starts over a store at rest holds exactly what is listed there, or
begins with nothing if a listed file stands where a directory is needed. -/
theorem initServer_exact {start : Snapshot (AdapterFs T)} {last : Node (AdapterFs T)} (word : target.usizeBits ≤ 64)
    (begun : start.fs = Fs.withTimeProvider clock) (loadable : Loadable start.store start.fs)
    (ran : Ran Truthful atRest (initServer fresh) start () last) :
    (Clashes (listedDirs start.store) (listedFiles start.store) → last.state.fs = fresh ∧ last.state.manager.metadataCache = .empty) ∧
      (¬ Clashes (listedDirs start.store) (listedFiles start.store) →
        Built last.state.fs last.state.manager.metadataCache (listedDirs start.store) (listedFiles start.store)) := by
  have safe : (runs Truthful atRest).Safe (fun _ t => Begun start.store fresh (∀ turn, Truthful turn → Truthful turn) t.state.fs
      t.state.manager.metadataCache) (initServer fresh) ⟨start, []⟩ := initServer_builds word begun loadable
  have outcome := safe.exec ran
  cases outcome with
  | loaded loads part whole built =>
    obtain rfl := whole fun _ => id
    exact ⟨fun clash => absurd clash built.apart, fun _ => built⟩
  | empty clash same cached => exact ⟨fun _ => ⟨same, cached⟩, fun apart => absurd (clash fun _ => id) apart⟩

/-- Requests that fail leave files out, and nothing is half there. -/
theorem initServer_partial {start : Snapshot (AdapterFs T)} {last : Node (AdapterFs T)} (word : target.usizeBits ≤ 64)
    (begun : start.fs = Fs.withTimeProvider clock) (loadable : Loadable start.store start.fs)
    (ran : Ran Anyhow atRest (initServer fresh) start () last) :
    (last.state.fs = fresh ∧ last.state.manager.metadataCache = .empty) ∨
      ∃ loads, loads.Sublist (listedFiles start.store) ∧
        Built last.state.fs last.state.manager.metadataCache (listedDirs start.store) loads := by
  have safe : (runs Anyhow atRest).Safe (fun _ t => Begun start.store fresh (∀ turn, Anyhow turn → Truthful turn) t.state.fs
      t.state.manager.metadataCache) (initServer fresh) ⟨start, []⟩ := initServer_builds word begun loadable
  have outcome := safe.exec ran
  cases outcome with
  | loaded loads part whole built => exact .inr ⟨loads, part, built⟩
  | empty clash same cached => exact .inl ⟨same, cached⟩

end
end

/-! Two files and a marker. -/

open scoped ContentEtags

/-- An instance over a store that holds these bodies, not started yet. -/
def unloaded [Target] (bodies : List (String × Bytes)) : Snapshot (AdapterFs MonotonicCounter) :=
  ⟨Sample.store bodies, 0, .new .empty 0, Fs.new⟩

theorem plainly_rested {F : Type} {admits : Turn → Prop} (plain : admits {}) (count : Nat) :
    ∀ turn ∈ List.replicate count (plainly (F := F)), (∀ s, (atRest (F := F)).moves s (turn.1 s)) ∧ admits turn.2 := quiet_turns plain

theorem initServer_exact_sample :
    let _ : Target := .wasm32
    ∃ last, Ran Truthful atRest (initServer Fs.new) (unloaded [("files/a/f", [1]), ("files/b/", []), ("files/c", [2])]) () last ∧
      Built last.state.fs last.state.manager.metadataCache ["/b"] [("/c", [2]), ("/a/f", [1])] := by
  let _ : Target := .wasm32
  let start := unloaded [("files/a/f", [1]), ("files/b/", []), ("files/c", [2])]
  have dirs : listedDirs start.store = ["/b"] := by decide +kernel
  have files : listedFiles start.store = [("/c", [2]), ("/a/f", [1])] := by decide +kernel
  have truthful : Truthful {} := rfl
  obtain ⟨_, last, ran, -⟩ := solo_returned (initServer Fs.new) start (fun _ _ => true) (plainly_rested truthful 16) (by decide +kernel)
  refine ⟨last, ran, ?_⟩
  rw [← dirs, ← files]
  exact (initServer_exact (by decide) rfl ⟨by decide +kernel, by decide +kernel⟩ ran).2 (by decide +kernel)

/-- The file `/a` is loaded first, and nothing can stand below it. -/
theorem initServer_partial_clash :
    let _ : Target := .wasm32
    ∃ last, Ran Anyhow atRest (initServer Fs.new) (unloaded [("files/a/f", [1]), ("files/a", [2])]) () last ∧
      ((last.state.fs = Fs.new ∧ last.state.manager.metadataCache = .empty) ∨
        ∃ loads, loads.Sublist [("/a", [2]), ("/a/f", [1])] ∧ Built last.state.fs last.state.manager.metadataCache [] loads) := by
  let _ : Target := .wasm32
  let start := unloaded [("files/a/f", [1]), ("files/a", [2])]
  have dirs : listedDirs start.store = [] := by decide +kernel
  have files : listedFiles start.store = [("/a", [2]), ("/a/f", [1])] := by decide +kernel
  have anyhow : Anyhow {} := trivial
  obtain ⟨_, last, ran, -⟩ := solo_returned (initServer Fs.new) start (fun _ _ => true) (plainly_rested anyhow 16) (by decide +kernel)
  refine ⟨last, ran, ?_⟩
  rw [← dirs, ← files]
  exact initServer_partial (by decide) rfl ⟨by decide +kernel, by decide +kernel⟩ ran

end MonakaFs.Sync
