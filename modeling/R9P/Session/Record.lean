import R9P.Wire.Data

/-!
# Change records

Library `Session`. The records of a change feed, `crates/session/src/feed/record.rs`, and the
reading of a batch of them in `feed/worker.rs`. A record is a line of fields separated by
tabs, either `key=value` fields in any order or six or seven positional ones.
-/

namespace R9P.Session
open Base Wire

/-- `record.rs:4`. -/
structure NamespaceChange where
  scope : Bytes
  path : Bytes
  changeKind : Bytes
  generation : UInt64
  eventId : Bytes
  oldPath : Option Bytes
  deriving DecidableEq, Repr

/-! ### One record -/

/-- `str::parse::<u64>`: digits, one leading plus sign allowed. -/
def parseU64 (text : Bytes) : Option UInt64 :=
  let digits := if text.head? = some 0x2b then text.tail else text
  if digits.isEmpty || digits.any (fun byte => byte < 0x30 || 0x39 < byte) then none
  else
    let value := digits.foldl (fun value byte => 10 * value + (byte.toNat - 0x30)) 0
    if value < 2 ^ 64 then some (UInt64.ofNat value) else none

/-- The fields met so far, in `parse_key_value_record`. -/
structure KeyValues where
  scope : Option Bytes := none
  path : Option Bytes := none
  changeKind : Option Bytes := none
  generation : Option UInt64 := none
  eventId : Option Bytes := none
  oldPath : Option Bytes := none

/-- One turn of the loop of `record.rs:110`. -/
def KeyValues.put (values : KeyValues) (field : Bytes) : KeyValues :=
  if !field.contains 0x3d then values
  else
    let key := field.takeWhile (· != 0x3d)
    let value := (field.dropWhile (· != 0x3d)).tail
    if key = utf8 "scope" then { values with scope := some value }
    else if key = utf8 "path" then { values with path := some value }
    else if key = utf8 "change_kind" ∨ key = utf8 "kind" then
      { values with changeKind := some value }
    else if key = utf8 "generation" then { values with generation := parseU64 value }
    else if key = utf8 "event_id" then { values with eventId := some value }
    else if key = utf8 "old_path" ∨ key = utf8 "from" then { values with oldPath := some value }
    else values

/-- `record.rs:103`. -/
def parseKeyValueRecord (fields : List Bytes) : Option NamespaceChange := do
  let values := fields.foldl KeyValues.put {}
  return {
    scope := ← values.scope
    path := ← values.path
    changeKind := ← values.changeKind
    generation := ← values.generation
    eventId := ← values.eventId
    oldPath := values.oldPath }

/-- `record.rs:134`. -/
def parsePositionalRecord (fields : List Bytes) : Option NamespaceChange :=
  match fields with
  | [kind, eventId, generation, scope, changeKind, path] =>
    if kind = utf8 "namespace_change" then
      (parseU64 generation).map fun generation =>
        ⟨scope, path, changeKind, generation, eventId, none⟩
    else none
  | [kind, eventId, generation, scope, renamed, oldPath, path] =>
    if kind = utf8 "namespace_change" ∧ renamed = utf8 "renamed" then
      (parseU64 generation).map fun generation =>
        ⟨scope, path, utf8 "renamed", generation, eventId, some oldPath⟩
    else none
  | _ => none

/-- `record.rs:27`. -/
def validEventId (value : Bytes) : Bool :=
  !value.isEmpty && value.length ≤ 256 && value != utf8 "." && value != utf8 ".." &&
    !value.any fun byte => byte == 0x2f || byte == 0 || isAsciiControl byte

/-- `record.rs:20`. -/
def parseNamespaceChangeRecord (line : Bytes) : Option NamespaceChange :=
  let fields := line.splitOn 0x09
  ((parseKeyValueRecord fields).or (parsePositionalRecord fields)).filter
    fun change => validEventId change.eventId

/-! ### A batch -/

/-- `str::lines`: a line ends in a newline, with a carriage return before it or not. -/
def lines (text : Bytes) : List Bytes :=
  let parts := text.splitOn 0x0a
  parts.dropLast.map (fun line => if line.getLast? = some 0x0d then line.dropLast else line) ++
    parts.getLast?.toList.filter (!·.isEmpty)

/-- `worker.rs:444`. -/
def parseFeedRecords (data : Bytes) : Option (List NamespaceChange) :=
  if (ByteArray.mk data.toArray).validateUTF8 then
    ((lines data).filter (!·.isEmpty)).mapM parseNamespaceChangeRecord
  else none

/-- `record.rs:14`. -/
structure SelectedFeedRecords where
  records : List NamespaceChange
  cursorAdvancedTo : Option Bytes
  cursorMissed : Bool
  deriving DecidableEq, Repr

/-- The records of a catch-up file behind the cursor. A file addressed by the cursor has only
those; the recent ones are searched for it; `record.rs:69`. -/
def selectFeedRecords (records : List NamespaceChange) (sinceEventId : Option Bytes)
    (cursorTemplateConfigured : Bool) : SelectedFeedRecords :=
  if cursorTemplateConfigured then ⟨records, none, false⟩
  else
    match sinceEventId with
    | none => ⟨records, none, false⟩
    | some cursor =>
      match records.findIdx? (·.eventId == cursor) with
      | none => ⟨[], records.getLast?.map (·.eventId), !records.isEmpty⟩
      | some index => ⟨records.drop (index + 1), none, false⟩

/-- A line of the feed that is read back as one record. -/
structure Line where
  text : Bytes
  change : NamespaceChange
  valid : (ByteArray.mk text.toArray).IsValidUTF8
  single : 0x0a ∉ text
  bare : text.getLast? ≠ some 0x0d
  parsed : parseNamespaceChangeRecord text = some change

/-- The line and its newline. -/
def Line.bytes (line : Line) : Bytes := line.text ++ [0x0a]

theorem Line.text_ne_nil (line : Line) : line.text ≠ [] := by
  intro ht
  have hp := line.parsed
  rw [ht] at hp
  cases hp

theorem splitOn_flatMap_bytes (file : List Line) :
    (file.flatMap Line.bytes).splitOn 0x0a = file.map Line.text ++ [[]] := by
  induction file with
  | nil => rfl
  | cons line rest ih =>
    rw [List.flatMap_cons, Line.bytes, List.append_assoc, List.singleton_append,
      List.splitOn_append_cons_self_of_not_mem line.single, ih]
    rfl

theorem lines_flatMap_bytes (file : List Line) :
    lines (file.flatMap Line.bytes) = file.map Line.text := by
  unfold lines
  rw [splitOn_flatMap_bytes]
  dsimp only
  rw [List.dropLast_concat, List.getLast?_concat]
  have hb : ∀ line ∈ file, ((fun text : Bytes =>
      if text.getLast? = some 0x0d then text.dropLast else text) ∘ Line.text) line = line.text := by
    intro line _
    exact if_neg line.bare
  rw [List.map_map, List.map_congr_left hb]
  exact List.append_nil _

theorem isValidUTF8_flatMap_bytes (file : List Line) :
    (ByteArray.mk (file.flatMap Line.bytes).toArray).IsValidUTF8 := by
  have ha : ∀ a b : Bytes, .mk (a ++ b).toArray = .mk a.toArray ++ ByteArray.mk b.toArray := by
    intro a b
    apply ByteArray.ext
    simp
  have hn : (ByteArray.mk [0x0a].toArray).IsValidUTF8 := ⟨['\n'], by decide⟩
  induction file with
  | nil => exact ByteArray.isValidUTF8_empty
  | cons line rest ih =>
    exact (line.valid.append hn).append ih

/-- Whole lines are read back as their records. -/
theorem parseFeedRecords_flatMap_bytes (file : List Line) :
    parseFeedRecords (file.flatMap Line.bytes) = some (file.map Line.change) := by
  unfold parseFeedRecords
  rw [if_pos (ByteArray.validateUTF8_eq_true_iff.mpr (isValidUTF8_flatMap_bytes file)),
    lines_flatMap_bytes]
  induction file with
  | nil => rfl
  | cons line rest ih =>
    have hne : (!line.text.isEmpty) = true := by simpa using line.text_ne_nil
    rw [List.map_cons, List.filter_cons, if_pos hne, List.mapM_cons, line.parsed, ih]
    rfl

end R9P.Session
