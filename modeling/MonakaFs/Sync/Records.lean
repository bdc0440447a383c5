import MonakaFs.Sync.Lease

/-! Which lease records are read back as they were written.

Whatever a reader accepts, the path it reports is one trimmed line. A path that is
no such line is therefore never read back, and one that is cannot be mistaken for
another field.
-/

set_option autoImplicit false

namespace MonakaFs.Text

/-- A line of its own without white space around it. -/
def Bare (text : List Char) : Prop := '\n' ∉ text ∧ trim text = text

theorem dropWhile_head {p : Char → Bool} {text rest : List Char} {c : Char} (dropped : text.dropWhile p = c :: rest) : p c = false := by
  have nonempty : text.dropWhile p ≠ [] := by simp [dropped]
  have head := List.head_dropWhile_not p nonempty
  simpa [dropped] using head

/-- The front that is kept is no white space, so a second trim removes nothing. -/
theorem trim_trim (text : List Char) : trim (trim text) = trim text := by
  have front : (trim text).dropWhile isWhiteSpace = trim text := by
    cases kept : trim text with
    | nil => rfl
    | cons c rest =>
      have leads : [c] <+: text.dropWhile isWhiteSpace := by
        refine List.IsPrefix.trans ⟨rest, ?_⟩ (List.rdropWhile_prefix isWhiteSpace _)
        exact kept.symm
      obtain ⟨others, whole⟩ := leads
      exact List.dropWhile_cons_of_neg (by simp [dropWhile_head whole.symm])
  unfold trim at front ⊢
  rw [front, List.rdropWhile_idempotent]

theorem trim_sublist (text : List Char) : (trim text).Sublist text :=
  (List.rdropWhile_prefix isWhiteSpace _).sublist.trans (List.dropWhile_sublist isWhiteSpace)

theorem trim_bare {text : List Char} (one : '\n' ∉ text) : Bare (trim text) :=
  ⟨fun member => one ((trim_sublist text).subset member), trim_trim text⟩

/-- A carriage return is white space, so no bare text ends in one. -/
theorem closeLine_bare {text : List Char} (bare : Bare text) : closeLine text.reverse = text := by
  unfold closeLine
  split
  · next before ends =>
    have same : text = before.reverse ++ ['\r'] := by rw [← List.reverse_reverse text, ends, List.reverse_cons]
    have nonempty : trim text ≠ [] := by rw [bare.2, same]; exact List.concat_ne_nil _ _
    have last (kept : List Char) (h : kept ≠ []) (whole : kept = before.reverse ++ ['\r']) : kept.getLast h = '\r' := by
      subst whole
      exact List.getLast_concat
    have kept : ¬ isWhiteSpace ((trim text).getLast nonempty) := List.rdropWhile_last_not isWhiteSpace _ nonempty
    rw [last _ nonempty (bare.2.trans same)] at kept
    exact absurd rfl kept
  · exact List.reverse_reverse text

/-- No line of a text contains the line feed. -/
theorem linesFrom_one {current text : List Char} (one : '\n' ∉ current) : ∀ line ∈ linesFrom current text, '\n' ∉ line := by
  have close {line : List Char} (one : '\n' ∉ line) : '\n' ∉ closeLine line := by
    unfold closeLine
    split
    · simpa using fun member => one (List.mem_cons_of_mem _ member)
    · simpa using one
  induction text generalizing current with
  | nil =>
    cases current with
    | nil => simp [linesFrom]
    | cons c rest =>
      intro line member
      obtain rfl : line = (c :: rest).reverse := by simpa [linesFrom] using member
      exact fun member => one (List.mem_reverse.mp member)
  | cons c text ih =>
    rw [linesFrom]
    split
    · intro line member
      rcases List.mem_cons.mp member with rfl | member
      · exact close one
      · exact ih (by simp) line member
    · next other =>
      refine ih fun member => ?_
      rcases List.mem_cons.mp member with same | member
      · exact other same.symm
      · exact one member

theorem lines_one {text line : List Char} (member : line ∈ lines text) : '\n' ∉ line :=
  linesFrom_one (by simp) line member

theorem splitOnce_parts {separator : Char} {text key value : List Char} (split : splitOnce separator text = some (key, value)) :
    text = key ++ separator :: value := by
  induction text generalizing key with
  | nil => cases split
  | cons c rest ih =>
    rw [splitOnce] at split
    split at split
    · next same =>
      cases split
      rw [same, List.nil_append]
    · cases found : splitOnce separator rest with
      | none => simp [found] at split
      | some parts =>
        obtain ⟨front, back⟩ := parts
        rw [found] at split
        cases split
        rw [ih found, List.cons_append]

end MonakaFs.Text

namespace MonakaFs.Sync.LockRecord

/-- The path read so far is one trimmed line. -/
def Fields.Plain (fields : Fields) : Prop := ∀ path, fields.path = some path → Text.Bare path.toList

theorem Fields.read_plain {fields : Fields} {line : List Char} (one : '\n' ∉ line) (plain : fields.Plain) : (fields.read line).Plain := by
  unfold Fields.read
  split
  · exact plain
  · next k v parts =>
    have bare : Text.Bare (Text.trim v) := by
      refine Text.trim_bare fun member => one ?_
      rw [Text.splitOnce_parts parts]
      exact List.mem_append_right _ (List.mem_cons_of_mem _ member)
    dsimp only
    split
    · exact plain
    split
    · exact plain
    split
    · exact plain
    split
    · rintro path found
      cases found
      simpa using bare
    · exact plain

theorem Fields.readAll_plain {lines : List (List Char)} (one : ∀ line ∈ lines, '\n' ∉ line) {fields : Fields} (plain : fields.Plain) :
    (lines.foldl Fields.read fields).Plain := by
  induction lines generalizing fields with
  | nil => exact plain
  | cons line lines ih =>
    exact ih (fun other member => one other (List.mem_cons_of_mem _ member)) (Fields.read_plain (one line List.mem_cons_self) plain)

/-- The path of an accepted record is one trimmed line, whatever the body was. -/
theorem parse_bare {body : Bytes} {record : LockRecord} (parsed : parse body = some record) : Text.Bare record.path.toList := by
  obtain ⟨text, -, read⟩ := Option.bind_eq_some_iff.mp parsed
  have start : Fields.Plain {} := by
    rintro path found
    cases found
  have plain := Fields.readAll_plain (fun line (member : line ∈ Text.lines text.toList) => Text.lines_one member) start
  generalize (Text.lines text.toList).foldl Fields.read {} = fields at read plain
  have named : record.path = fields.path.getD "" := by
    simp only [Fields.record, Option.bind_eq_bind, Option.bind_eq_some_iff, Option.pure_def, Option.some.injEq] at read
    obtain ⟨_, _, _, _, _, _, rfl⟩ := read
    rfl
  rw [named]
  cases present : fields.path with
  | none => exact ⟨by simp, rfl⟩
  | some path => exact plain path present

/-- A record is read back as it was written exactly if its path is one trimmed line. -/
theorem parse_encode_iff (id : InstanceId) (epoch expires : Nat) (path : String) (epochBound : epoch < 2 ^ 64)
    (expiresBound : expires < 2 ^ 64) :
    parse (encode ⟨id.text, epoch, expires, path⟩) = some ⟨id.text, epoch, expires, path⟩ ↔ Text.Bare path.toList := by
  refine ⟨fun read => parse_bare read, fun bare => ?_⟩
  rw [parse_encode id epoch expires path bare.1 epochBound expiresBound, Text.closeLine_bare bare, bare.2, String.ofList_toList]

/-- The lines of this path take the place of the fields before them. -/
def injected : String := "/x\ninstance=b\nepoch=9\nexpires=0"

theorem injected_read :
    parse (encode ⟨"a", 1, 5, injected⟩) = some ⟨"b", 9, 0, "/x"⟩ ∧ (⟨"b", 9, 0, "/x"⟩ : LockRecord) ≠ ⟨"a", 1, 5, injected⟩ := by
  refine ⟨?_, by decide⟩
  rw [parse, encode, fromUtf8_utf8, Option.bind_some, toList_encoded]
  decide

theorem bare_read :
    parse (encode ⟨"a", 1, 5, "/x y"⟩) = some ⟨"a", 1, 5, "/x y"⟩ ↔ Text.Bare "/x y".toList :=
  parse_encode_iff ⟨"a", by simp⟩ 1 5 "/x y" (by decide) (by decide)

end MonakaFs.Sync.LockRecord
