import MonakaFs.Async.Ending
import MonakaFs.Sync.S3.Memory
import MonakaFs.Sync.S3.Uploads

/-! A listing that comes in pages.

Between two pages the bucket may change. Still every key comes once and in order, everything
listed was there when its page was answered, and what is there all the time is listed. A page
that is cut off ends behind the one before, so a bucket whose keys are bounded has a last page.
-/

set_option autoImplicit false

namespace MonakaFs.Sync.S3

open Async Contract

section
variable [EtagScheme] {S : Type} [S3Backend S] {storage : S3Storage} {s t u : S3Node S}

/-- The entry of an object that is there at one of the calls. -/
def Entered (storage : S3Storage) (full : String) (log : List (Call S)) (key : String) (info : ObjectMeta) : Prop :=
  full.toList <+: key.toList ∧ ∃ m ∈ log, ∃ there, object m.before.service key = some there ∧
    info = ⟨storage.rel key, Text.trimMatches '"' there.eTag, there.lastModified, there.data.length⟩

/-- The entries so far, up to a position, and every key up to there that was there at all the calls. -/
structure ListedTo (storage : S3Storage) (full : String) (log : List (Call S)) (position : Option String) (keys : List String)
    (objects : List ObjectMeta) : Prop where
  ascending : keys.Pairwise (· < ·)
  entered : List.Forall₂ (Entered storage full log) keys objects
  complete : ∀ key, full.toList <+: key.toList → (∀ m ∈ log, object m.before.service key ≠ none) → ¬ Beyond position key → key ∈ keys
  before : ∀ key ∈ keys, ¬ Beyond position key

/-- A whole listing. -/
structure Listed (storage : S3Storage) (full : String) (log : List (Call S)) (keys : List String) (objects : List ObjectMeta) : Prop where
  ascending : keys.Pairwise (· < ·)
  entered : List.Forall₂ (Entered storage full log) keys objects
  complete : ∀ key, full.toList <+: key.toList → (∀ m ∈ log, object m.before.service key ≠ none) → key ∈ keys

theorem Entered.later {full key : String} {log : List (Call S)} {info : ObjectMeta} {m : Call S}
    (entered : Entered storage full log key info) : Entered storage full (m :: log) key info := by
  obtain ⟨under, at_, member, there, present, same⟩ := entered
  exact ⟨under, at_, List.mem_cons_of_mem _ member, there, present, same⟩

/-- The entries of one page. -/
theorem page_entered {full : String} {position later : Option String} {page : ListPage} {m : Call S} {log : List (Call S)}
    (paged : Paged (object m.before.service) full position page later) :
    List.Forall₂ (Entered storage full (m :: log)) ((page.contents.getD []).filterMap (·.key)) (storage.pageObjects page) := by
  have entry := paged.entry
  unfold S3Storage.pageObjects
  revert entry
  induction page.contents.getD [] with
  | nil => exact fun _ => .nil
  | cons listed rest ih =>
    intro entry
    obtain ⟨key, there, present, under, -, rfl⟩ := entry listed (by simp)
    exact .cons ⟨under, m, by simp, there, present, rfl⟩ (ih fun other member => entry other (by simp [member]))

omit [EtagScheme] in
theorem pageKeys_beyond {full key : String} {position later : Option String} {page : ListPage} {objects : String → Option S3Object}
    (paged : Paged objects full position page later) (member : key ∈ (page.contents.getD []).filterMap (·.key)) :
    Beyond position key ∧ objects key ≠ none := by
  obtain ⟨listed, there, same⟩ := List.mem_filterMap.mp member
  obtain ⟨name, object, present, -, beyond, rfl⟩ := paged.entry listed there
  cases same
  exact ⟨beyond, by simp [present]⟩

omit [EtagScheme] in
theorem lt_of_beyond {position : Option String} {first second : String} (reached : ¬ Beyond position first)
    (beyond : Beyond position second) : first < second := by
  cases position with
  | none => exact (reached trivial).elim
  | some last => exact lt_of_le_of_lt (not_lt.mp reached) beyond

/-- One page more. -/
theorem ListedTo.page {full : String} {log : List (Call S)} {position later : Option String} {keys : List String}
    {objects : List ObjectMeta} {page : ListPage} {m : Call S} (listed : ListedTo storage full log position keys objects)
    (paged : Paged (object m.before.service) full position page later) :
    let keys' := keys ++ (page.contents.getD []).filterMap (·.key)
    keys'.Pairwise (· < ·) ∧ List.Forall₂ (Entered storage full (m :: log)) keys' (objects ++ storage.pageObjects page) ∧
      ∀ key, full.toList <+: key.toList → (∀ other ∈ m :: log, object other.before.service key ≠ none) →
        key ∈ keys' ∨ ∃ last, later = some last ∧ last < key := by
  refine ⟨List.pairwise_append.mpr ⟨listed.ascending, paged.ascending, fun first member second member' => ?_⟩, ?_, fun key under there => ?_⟩
  · exact lt_of_beyond (listed.before first member) (pageKeys_beyond paged member').1
  · exact List.rel_append (listed.entered.imp fun _ _ => Entered.later) (page_entered paged)
  · by_cases beyond : Beyond position key
    · exact (paged.complete key (there m (by simp)) under beyond).imp (List.mem_append_right _) id
    · exact .inl (List.mem_append_left _ (listed.complete key under (fun other member => there other (by simp [member])) beyond))

/-! ### The whole loop -/

/-- Every key of the bucket is one of these. -/
def Within (names : Finset String) (s : S3Node S) : Prop := ∀ key, object s.state.service key ≠ none → key ∈ names

variable (S) in
/-- A client whose surroundings add no key but these. -/
def bounded (names : Finset String) : Contract clientSignature (S3Node S) where
  effect := (client S).effect
  rely s t := (client S).rely s t ∧ (Within names s → Within names t)
  rely_refl s := ⟨(client S).rely_refl s, id⟩
  rely_trans first second := ⟨(client S).rely_trans first.1 second.1, second.2 ∘ first.2⟩
  guarantee := (client S).guarantee

/-- How many keys may still come. -/
def remaining (names : Finset String) (position : Option String) : Nat := (names.filter (Beyond position)).card

omit [EtagScheme] in
theorem remaining_lt {names : Finset String} {position : Option String} {last : String} (there : last ∈ names)
    (beyond : Beyond position last) : remaining names (some last) < remaining names position := by
  refine Finset.card_lt_card (Finset.ssubset_iff_of_subset (fun key member => ?_) |>.mpr ⟨last, by simp [there, beyond], by simp [Beyond]⟩)
  obtain ⟨named, after⟩ := Finset.mem_filter.mp member
  refine Finset.mem_filter.mpr ⟨named, ?_⟩
  cases position with
  | none => trivial
  | some earlier => exact lt_trans beyond after

theorem listFrom_ends {names : Finset String} {full : String} (fuel : Nat) {token : Option String} {keys : List String}
    {objects : List ObjectMeta} (enough : remaining names (token.map (S3Backend.position S)) < fuel) (within : Within names s)
    (listed : ListedTo storage full s.log (token.map (S3Backend.position S)) keys objects) :
    (bounded S names).Ends (fun result t => ∀ metas, result = .ok metas → ∃ keys, Listed storage full t.log keys metas)
      (storage.listFrom full none token objects fuel) s := by
  induction fuel generalizing token keys objects s with
  | zero => exact (Nat.not_lt_zero _ enough).elim
  | succ fuel ih =>
    unfold S3Storage.listFrom
    intro t moves reply u effect
    obtain ⟨⟨answered, -⟩, logged⟩ := effect
    obtain ⟨same, -, paged⟩ := S3Backend.list_answer answered
    have here : Within names t := moves.2 within
    rw [moves.1.log] at logged
    cases reply with
    | error e => exact fun v later metas failed => (by cases failed)
    | ok page =>
      have paged := paged page rfl (fun _ limit => by cases limit)
      obtain ⟨ascending, entered, complete⟩ := listed.page (m := ⟨_, _, t.state, u.state⟩) paged
      rw [← logged] at entered complete
      simp only [Prog.bind]
      split
      · next more =>
        -- The last key of the page is one of the names, and no later page comes back to it.
        have cut : page.isTruncated = some true := by
          cases flag : page.isTruncated with
          | none => rw [flag] at more; cases more
          | some truncated => rw [flag] at more; exact congrArg some more
        obtain ⟨last, later, member, upTo⟩ := paged.truncated cut
        obtain ⟨beyond, there⟩ := pageKeys_beyond paged member
        have fewer := remaining_lt (here last there) beyond
        refine ih ?_ (fun key there => here key (same ▸ there)) ⟨ascending, entered, fun key under there reached => ?_,
          fun key member' => ?_⟩
        · rw [later]
          omega
        · rcases complete key under there with listed' | ⟨last', again, beyond'⟩
          · exact listed'
          · rw [later] at again reached
            cases again
            exact (reached beyond').elim
        · rw [later]
          rcases List.mem_append.mp member' with old | new
          · exact not_lt.mpr (le_of_lt (lt_of_beyond (listed.before key old) beyond))
          · exact not_lt.mpr (upTo key new)
      · next last =>
        have none_ := paged.whole (by simpa using last)
        refine fun v later metas returned => ⟨keys ++ (page.contents.getD []).filterMap (·.key), ?_⟩
        cases returned
        rw [later.1.log]
        refine ⟨ascending, entered, fun key under there => (complete key under there).resolve_right fun more => ?_⟩
        obtain ⟨last', again, -⟩ := more
        rw [none_] at again
        cases again

/-- Whatever others change between the pages: the keys come in order, each once, what is listed was there, and what
was there all the time is listed. Where no key comes that is not one of these names, the last page comes too. -/
theorem list_ends (storage : S3Storage) (world : World S) (pre : String) {names : Finset String} {fuel : Nat}
    (enough : names.card < fuel) (within : ∀ key, object world.service key ≠ none → key ∈ names) :
    (bounded S names).Ends (fun result t => ∀ metas, result = .ok metas → ∃ keys, Listed storage (storage.key pre) t.log keys metas)
      (storage.list fuel pre none) ⟨world, []⟩ := by
  have all : remaining names none = names.card := congrArg Finset.card (Finset.filter_true_of_mem fun _ _ => trivial)
  exact listFrom_ends fuel (by simpa [all] using enough) within
    ⟨.nil, .nil, fun _ _ _ reached => (reached trivial).elim, fun _ member => by cases member⟩

end

open scoped PlainEtags in
theorem list_ends_one :
    (bounded MemoryS3 {"vfs/files/a"}).Ends (fun result t => ∀ metas, result = .ok metas →
        ∃ keys, Listed ⟨"vfs/"⟩ (S3Storage.key ⟨"vfs/"⟩ "files/") t.log keys metas)
      (S3Storage.list ⟨"vfs/"⟩ 2 "files/" none) ⟨⟨((MemoryS3.empty false).store "vfs/files/a" {} [7]).2, true⟩, []⟩ :=
  list_ends ⟨"vfs/"⟩ ⟨((MemoryS3.empty false).store "vfs/files/a" {} [7]).2, true⟩ "files/" (by decide) fun key there => by
    by_contra other
    exact there (Map.lookup_insert_eq .. |>.trans (if_neg (by simpa using other)))

end MonakaFs.Sync.S3
