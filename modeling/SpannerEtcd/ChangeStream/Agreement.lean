import SpannerEtcd.ChangeStream.Decode
import SpannerEtcd.Store.History

/-!
# The change stream and the log

The records that Spanner emits for the `kv` table under `NEW_ROW` capture, and
the events decoded from them next to those that `After` reads off the rows.
-/

namespace SpannerEtcd

/-! ## The records Spanner emits -/

def BytesCell : Option Bytes → Value → Prop
  | none, cell => cell = .null
  | some bytes, cell => cell = .string (Base64.encode bytes)

def TimestampCell : Option Int → Value → Prop
  | none, cell => cell = .null
  | some ts, cell => ∃ text, cell = .string text ∧ RFC3339.Denotes text ts

def Int64Cell (n : Int) (cell : Value) : Prop :=
  IsInt64 n ∧ ∃ text, cell = .string text ∧ Decimal.Numeral n text

def Column (object : Object) (name : String) (holds : Value → Prop) : Prop :=
  ∃ cell, object.lookup (ascii name) = some cell ∧ holds cell

/-- The `new_values` of an inserted row: every column but the key `id`. -/
structure NewRow (row : Row) (object : Object) : Prop where
  rev : Column object "rev" (TimestampCell (some row.rev))
  key : Column object "key" (· = .string row.key)
  value : Column object "value" (BytesCell row.value)
  oldValue : Column object "old_value" (BytesCell row.oldValue)
  leaseId : Column object "lease_id" (Int64Cell row.leaseId)
  deleted : Column object "deleted" (· = .bool row.deleted)
  created : Column object "created" (· = .bool row.created)
  createRevision : Column object "create_revision" (TimestampCell row.createRevision)
  prevRevision : Column object "prev_revision" (TimestampCell row.prevRevision)

section
variable (runtime : Runtime)

/-- A text without column values: nothing, `null` or an empty object. -/
def NoColumns (text : Bytes) : Prop :=
  text = [] ∨ text = ascii "null" ∨ runtime.unmarshalJSON text = some []

inductive InsertMod (row : Row) : Value → Prop
  | mk (keys : Value) {newValues oldValues : Bytes} {object : Object}
      (braced : newValues.head? = some 123)
      (parsed : runtime.unmarshalJSON newValues = some object) (captured : NewRow row object)
      (noOldValues : NoColumns runtime oldValues) :
      InsertMod row (.list [keys, .string newValues, .string oldValues])

inductive DeleteMod : Value → Prop
  | mk (keys : Value) {newValues oldValues : Bytes} (noNewValues : NoColumns runtime newValues)
      (noOldValues : NoColumns runtime oldValues) :
      DeleteMod (.list [keys, .string newValues, .string oldValues])

/-- A data change record of the `kv` table: the fields up to the column types,
the mods, the mod type and the fields after it. -/
def dataRecord (commit : Bytes) (sequence transaction isLast columnTypes : Value)
    (mods : List Value) (modType : Bytes) (rest : List Value) : Value :=
  .list (.string commit :: sequence :: transaction :: isLast :: .string (ascii "kv") ::
    columnTypes :: .list mods :: .string modType :: rest)

/-- The data change records, with the rows that they insert. -/
inductive DataRecord : List Row → Value → Prop
  | inserts {commit : Int} {commitText : Bytes} {rows : List Row} {mods : List Value}
      (sequence transaction isLast columnTypes : Value) (rest : List Value)
      (denotes : RFC3339.Denotes commitText commit) (committed : ∀ row ∈ rows, row.rev = commit)
      (oneModPerRow : List.Forall₂ (InsertMod runtime) rows mods) :
      DataRecord rows (dataRecord commitText sequence transaction isLast columnTypes mods
        (ascii "INSERT") rest)
  | deletes {commit : Int} {commitText : Bytes} {mods : List Value}
      (sequence transaction isLast columnTypes : Value) (rest : List Value)
      (denotes : RFC3339.Denotes commitText commit)
      (noColumns : ∀ mod ∈ mods, DeleteMod runtime mod) :
      DataRecord [] (dataRecord commitText sequence transaction isLast columnTypes mods
        (ascii "DELETE") rest)

/-- One struct of the `ChangeRecord` array. -/
inductive StructRecord : List Row → Value → Prop
  | mk {groups : List (List Row)} {dcrs : List Value} (heartbeats childPartitions : Value)
      (records : List.Forall₂ (DataRecord runtime) groups dcrs) :
      StructRecord groups.flatten (.list [.list dcrs, heartbeats, childPartitions])

/-- A `ChangeRecord`, with the rows whose inserts it reports. -/
inductive ChangeRecord : List Row → Value → Prop
  | mk {groups : List (List Row)} {structs : List Value}
      (records : List.Forall₂ (StructRecord runtime) groups structs) :
      ChangeRecord groups.flatten (.list structs)

end

/-! ## Reading the columns back -/

variable {runtime : Runtime}

theorem timeParse_of_denotes {text : Bytes} {ts : Int} (denotes : RFC3339.Denotes text ts) :
    timeParse runtime text = some ts := by
  simp only [timeParse, RFC3339.parse_of_denotes denotes]

theorem tsField_column {object : Object} {name : String} {ts : Option Int}
    (column : Column object name (TimestampCell ts)) :
    tsField runtime (some object) (ascii name) = nullTimeToRev ts := by
  obtain ⟨cell, found, holds⟩ := column
  have found : index (some object) (ascii name) = some cell := found
  cases ts with
  | none =>
      obtain rfl : cell = .null := holds
      simp only [tsField, found, nullTimeToRev]
  | some ts =>
      obtain ⟨text, rfl, denotes⟩ := holds
      simp only [tsField, found, RFC3339.ne_nil_of_denotes denotes, if_false,
        timeParse_of_denotes denotes, nullTimeToRev]

theorem bytesField_column {object : Object} {name : String} {bytes : Option Bytes}
    (column : Column object name (BytesCell bytes)) :
    (bytesField (some object) (ascii name)).getD [] = bytes.getD [] := by
  obtain ⟨cell, found, holds⟩ := column
  have found : index (some object) (ascii name) = some cell := found
  cases bytes with
  | none =>
      obtain rfl : cell = .null := holds
      simp only [bytesField, found]
  | some bytes =>
      obtain rfl : cell = .string (Base64.encode bytes) := holds
      simp only [bytesField, found, Base64.encode_eq_nil_iff]
      split
      · next empty => simp [empty]
      · simp

theorem i64Field_column {object : Object} {name : String} {n : Int}
    (column : Column object name (Int64Cell n)) : i64Field (some object) (ascii name) = n := by
  obtain ⟨cell, found, range, text, rfl, numeral⟩ := column
  have found : index (some object) (ascii name) = some (.string text) := found
  simp only [i64Field, found, Decimal.sscan_numeral numeral range.1 range.2, Option.getD_some]

theorem strField_column {object : Object} {name : String} {text : Bytes}
    (column : Column object name (· = .string text)) :
    strField (some object) (ascii name) = text := by
  obtain ⟨cell, found, rfl⟩ := column
  have found : index (some object) (ascii name) = some (.string text) := found
  simp only [strField, found]

theorem boolField_column {object : Object} {name : String} {b : Bool}
    (column : Column object name (· = .bool b)) :
    boolField (some object) (ascii name) = b := by
  obtain ⟨cell, found, rfl⟩ := column
  have found : index (some object) (ascii name) = some (.bool b) := found
  simp only [boolField, found]

theorem parseJSONMap_noColumns {text : Bytes} (noColumns : NoColumns runtime text) :
    parseJSONMap runtime text = none ∨ parseJSONMap runtime text = some [] := by
  unfold parseJSONMap
  split
  · exact .inl rfl
  · next object =>
      obtain empty | null | parsed := noColumns
      · exact absurd (.inl empty) object
      · exact absurd (.inr null) object
      · exact .inr parsed

theorem parseJSONMap_braced {text : Bytes} {object : Object} (braced : text.head? = some 123)
    (parsed : runtime.unmarshalJSON text = some object) :
    parseJSONMap runtime text = some object := by
  have notNull : ¬(text = [] ∨ text = ascii "null") := by
    rintro (rfl | rfl) <;> revert braced <;> decide
  simp only [parseJSONMap, notNull, if_false, parsed]

/-! ## The decoded events -/

/-- An event with its nil byte slices read as empty ones. -/
def Event.normalize (event : Event) : Event :=
  { event with
    kv := { event.kv with
      value := some (event.kv.value.getD [])
      oldValue := some (event.kv.oldValue.getD []) } }

def capturedEvent (row : Row) : Event :=
  { rowEvent row with kv := { scanKV row with oldValue := none } }

/-- What the decoder makes of inserted rows: it skips empty keys. -/
def capturedEvents (rows : List Row) : List Event :=
  (rows.filter fun row => row.key ≠ []).map fun row => (capturedEvent row).normalize

theorem capturedEvents_append (first second : List Row) :
    capturedEvents (first ++ second) = capturedEvents first ++ capturedEvents second := by
  simp [capturedEvents]

theorem decodeMod_delete (modType : Bytes) (commitTS : Int) {mod : Value}
    (deletes : DeleteMod runtime mod) : decodeMod runtime modType commitTS mod = none := by
  obtain ⟨keys, noNewValues, noOldValues⟩ := deletes
  have nothing : ∀ {newV oldV : Option Object}, newV = none ∨ newV = some [] →
      oldV = none ∨ oldV = some [] → extractKV runtime newV oldV commitTS = none := by
    rintro _ _ (rfl | rfl) (rfl | rfl) <;> rfl
  simp only [decodeMod, Value.getListValue, Value.getStringValue,
    nothing (parseJSONMap_noColumns noNewValues) (parseJSONMap_noColumns noOldValues),
    Option.map_none]

theorem extractKV_insert (runtime : Runtime) {row : Row} {object : Object}
    (captured : NewRow row object) (oldV : Option Object) (commitTS : Int) :
    extractKV runtime (some object) oldV commitTS =
      if row.key = [] then none else some (fieldsKV runtime (some object) oldV) := by
  simp only [extractKV, Option.some_or, Option.isNone_some, Bool.false_eq_true, if_false,
    strField_column captured.key]

theorem fieldsKV_insert (runtime : Runtime) {row : Row} {object : Object}
    (captured : NewRow row object) {oldV : Option Object}
    (noOldValues : oldV = none ∨ oldV = some []) :
    (⟨fieldsKV runtime (some object) oldV, (rowEvent row).type⟩ : Event).normalize =
      (capturedEvent row).normalize := by
  have noOldValue : bytesField oldV (ascii "value") = none := by
    obtain rfl | rfl := noOldValues <;> rfl
  have rev : tsField runtime (some object) (ascii "rev") = tsToRev row.rev :=
    tsField_column captured.rev
  simp only [Event.normalize, capturedEvent, scanKV, fieldsKV, noOldValue, rev,
    strField_column captured.key, bytesField_column captured.value,
    i64Field_column captured.leaseId, boolField_column captured.deleted,
    boolField_column captured.created, tsField_column captured.createRevision,
    tsField_column captured.prevRevision]

theorem fieldsKV_type (runtime : Runtime) {row : Row} {object : Object}
    (captured : NewRow row object) (oldV : Option Object) :
    (if (fieldsKV runtime (some object) oldV).deleted = true then .delete else .put) =
      (rowEvent row).type :=
  congrArg (fun deleted : Bool => if deleted = true then EventType.delete else .put)
    (boolField_column captured.deleted)

theorem decodeMod_insert {row : Row} {mod : Value} (inserts : InsertMod runtime row mod)
    (commitTS : Int) :
    ((decodeMod runtime (ascii "INSERT") commitTS mod).toList).map Event.normalize =
      capturedEvents [row] := by
  obtain ⟨keys, braced, parsed, captured, noOldValues⟩ := inserts
  simp only [decodeMod, Value.getListValue, Value.getStringValue,
    parseJSONMap_braced braced parsed, extractKV_insert runtime captured]
  by_cases empty : row.key = []
  · simp [capturedEvents, empty]
  · have insert : ascii "INSERT" ≠ ascii "DELETE" := by decide
    simp only [empty, if_false, Option.map_some, Option.toList_some, List.map_cons, List.map_nil,
      insert, false_or, fieldsKV_type runtime captured, fieldsKV_insert runtime captured
        (parseJSONMap_noColumns noOldValues), capturedEvents, List.filter_cons, ne_eq,
      not_false_eq_true, decide_true, if_true, List.filter_nil]

theorem decodeMods_inserts {rows : List Row} {mods : List Value}
    (oneModPerRow : List.Forall₂ (InsertMod runtime) rows mods) (commitTS : Int) :
    (mods.filterMap (decodeMod runtime (ascii "INSERT") commitTS)).map Event.normalize =
      capturedEvents rows := by
  rw [List.filterMap_eq_flatMap_toList]
  induction oneModPerRow with
  | nil => rfl
  | @cons row mod rows mods inserts _ inductionHypothesis =>
      rw [List.flatMap_cons, List.map_append, decodeMod_insert inserts, inductionHypothesis]
      exact (capturedEvents_append [row] rows).symm

theorem decodeDataChangeRecord_events {rows : List Row} {record : Value}
    (emitted : DataRecord runtime rows record) :
    (decodeDataChangeRecord runtime record).1.map Event.normalize = capturedEvents rows := by
  cases emitted with
  | inserts _ _ _ _ _ denotes _ oneModPerRow =>
      simpa only [decodeDataChangeRecord, dataRecord, Value.getListValue, Value.getStringValue,
        timeParse_of_denotes denotes, ne_eq, not_true_eq_false, if_false]
        using decodeMods_inserts oneModPerRow _
  | deletes _ _ _ _ _ denotes noColumns =>
      simp only [decodeDataChangeRecord, dataRecord, Value.getListValue, Value.getStringValue,
        timeParse_of_denotes denotes, ne_eq, not_true_eq_false, if_false]
      rw [List.filterMap_eq_nil_iff.mpr fun mod membership =>
        decodeMod_delete _ _ (noColumns mod membership)]
      rfl

theorem flatMap_events {emits : List Row → Value → Prop} {decode : Value → List Event}
    {groups : List (List Row)} {values : List Value}
    (related : List.Forall₂ emits groups values)
    (decodes : ∀ {rows value}, emits rows value →
      (decode value).map Event.normalize = capturedEvents rows) :
    (values.flatMap decode).map Event.normalize = capturedEvents groups.flatten := by
  induction related with
  | nil => rfl
  | cons head _ inductionHypothesis =>
      rw [List.flatMap_cons, List.map_append, decodes head, inductionHypothesis,
        List.flatten_cons, capturedEvents_append]

theorem structEvents_of_record {rows : List Row} {value : Value}
    (emitted : StructRecord runtime rows value) :
    (structEvents runtime value).map Event.normalize = capturedEvents rows := by
  obtain ⟨_, _, records⟩ := emitted
  exact flatMap_events records decodeDataChangeRecord_events

/-- Decoding a record yields the events of its rows without their old values,
except for the rows with an empty key. -/
theorem decodeRecord_captured {rows : List Row} {gcv : Value}
    (emitted : ChangeRecord runtime rows gcv) :
    (decodeRecord runtime gcv).events.map Event.normalize = capturedEvents rows := by
  obtain ⟨records⟩ := emitted
  rw [decodeRecord_events]
  exact flatMap_events records structEvents_of_record

theorem capturedEvent_normalize_iff (row : Row) :
    (capturedEvent row).normalize = (rowEvent row).normalize ↔ row.oldValue.getD [] = [] := by
  simp only [capturedEvent, Event.normalize, rowEvent, scanKV, Option.getD_none, Event.mk.injEq,
    KV.mk.injEq, Option.some.injEq, true_and, and_true]
  exact eq_comm

theorem capturedEvents_eq_iff (rows : List Row) :
    capturedEvents rows = rows.map (fun row => (rowEvent row).normalize) ↔
      ∀ row ∈ rows, row.key ≠ [] ∧ row.oldValue.getD [] = [] := by
  constructor
  · intro same
    have lengths := congrArg List.length same
    simp only [capturedEvents, List.length_map] at lengths
    have keyed := List.length_filter_eq_length_iff.mp lengths
    rw [capturedEvents, List.filter_eq_self.mpr keyed] at same
    intro row membership
    exact ⟨by simpa using keyed row membership,
      (capturedEvent_normalize_iff row).mp (List.map_inj_left.mp same row membership)⟩
  · intro faithful
    have keyed : rows.filter (fun row => row.key ≠ []) = rows :=
      List.filter_eq_self.mpr fun row membership => by simpa using (faithful row membership).1
    rw [capturedEvents, keyed]
    exact List.map_congr_left fun row membership =>
      (capturedEvent_normalize_iff row).mpr (faithful row membership).2

/-! ## Records of single rows -/

def bytesValue : Option Bytes → Value
  | none => .null
  | some bytes => .string (Base64.encode bytes)

def timestampValue (text : Int → Bytes) : Option Int → Value
  | none => .null
  | some ts => .string (text ts)

/-- The `new_values` object of a row, given the texts of its timestamps and of
its lease. -/
def rowObject (text : Int → Bytes) (lease : Bytes) (row : Row) : Object :=
  [(ascii "rev", .string (text row.rev)), (ascii "key", .string row.key),
    (ascii "value", bytesValue row.value), (ascii "old_value", bytesValue row.oldValue),
    (ascii "lease_id", .string lease), (ascii "deleted", .bool row.deleted),
    (ascii "created", .bool row.created),
    (ascii "create_revision", timestampValue text row.createRevision),
    (ascii "prev_revision", timestampValue text row.prevRevision)]

theorem bytesCell_bytesValue (bytes : Option Bytes) : BytesCell bytes (bytesValue bytes) := by
  cases bytes <;> rfl

theorem timestampCell_timestampValue {text : Int → Bytes} {ts : Option Int}
    (denotes : ∀ instant ∈ ts, RFC3339.Denotes (text instant) instant) :
    TimestampCell ts (timestampValue text ts) := by
  cases ts with
  | none => rfl
  | some instant => exact ⟨text instant, rfl, denotes instant rfl⟩

theorem rowObject_newRow {text : Int → Bytes} {lease : Bytes} {row : Row}
    (rev : RFC3339.Denotes (text row.rev) row.rev)
    (createRevision : ∀ ts ∈ row.createRevision, RFC3339.Denotes (text ts) ts)
    (prevRevision : ∀ ts ∈ row.prevRevision, RFC3339.Denotes (text ts) ts)
    (range : IsInt64 row.leaseId) (numeral : Decimal.Numeral row.leaseId lease) :
    NewRow row (rowObject text lease row) where
  rev := ⟨_, rfl, _, rfl, rev⟩
  key := ⟨_, rfl, rfl⟩
  value := ⟨_, rfl, bytesCell_bytesValue row.value⟩
  oldValue := ⟨_, rfl, bytesCell_bytesValue row.oldValue⟩
  leaseId := ⟨_, rfl, range, _, rfl, numeral⟩
  deleted := ⟨_, rfl, rfl⟩
  created := ⟨_, rfl, rfl⟩
  createRevision := ⟨_, rfl, timestampCell_timestampValue createRevision⟩
  prevRevision := ⟨_, rfl, timestampCell_timestampValue prevRevision⟩

/-- A runtime that knows the JSON text of one object. -/
def runtimeOf (json : Bytes) (object : Object) : Runtime :=
  { unmarshalJSON := fun s => if s = json then some object else none
    parseLayout := fun _ => none }

def insertRecord (commit json : Bytes) : Value :=
  .list [.list [.list [dataRecord commit .null .null .null .null
    [.list [.null, .string json, .string []]] (ascii "INSERT") []], .null, .null]]

theorem insertRecord_changeRecord {row : Row} {commit json : Bytes} {object : Object}
    (denotes : RFC3339.Denotes commit row.rev) (braced : json.head? = some 123)
    (captured : NewRow row object) :
    ChangeRecord (runtimeOf json object) [row] (insertRecord commit json) := by
  have inserted : InsertMod (runtimeOf json object) row
      (.list [.null, .string json, .string []]) :=
    .mk .null braced (by simp [runtimeOf]) captured (.inl rfl)
  have record : DataRecord (runtimeOf json object) [row] (dataRecord commit .null .null .null
      .null [.list [.null, .string json, .string []]] (ascii "INSERT") []) :=
    .inserts .null .null .null .null [] denotes (by simp) (.cons inserted .nil)
  exact .mk (.cons (.mk .null .null (.cons record .nil)) .nil)

/-- Less than ten nanoseconds after the epoch. -/
def nanoFields (ns : Fin 10) : RFC3339.Fields where
  year := 1970
  month := 1
  day := 1
  hour := 0
  minute := 0
  second := 0
  fraction := Decimal.fixed 9 ns
  yearRange := by decide
  monthRange := by decide
  dayRange := by decide
  hourRange := by decide
  minuteRange := by decide
  secondRange := by decide
  fractionDigits := Decimal.fixed_isDigit 9 ns
  fractionLength := by simp

def nanoText (ts : Int) : Bytes := (nanoFields (Fin.ofNat 10 ts.toNat)).render

theorem nanoText_denotes (ns : Fin 10) : RFC3339.Denotes (nanoText ns.val) ns.val := by
  refine ⟨nanoFields ns, ?_, ?_⟩
  · simp [nanoText]
  · revert ns
    decide

/-- The events decoded from a record are those that `After` makes of its rows
exactly when no key is empty and no row has an old value; deleted rows yield
none. -/
theorem change_stream_agrees_iff {rows : List Row} {gcv : Value}
    (emitted : ChangeRecord runtime rows gcv) :
    ((decodeRecord runtime gcv).events.map Event.normalize =
        rows.map (fun row => (rowEvent row).normalize) ↔
      ∀ row ∈ rows, row.key ≠ [] ∧ row.oldValue.getD [] = []) ∧
      ∀ modType commitTS mod, DeleteMod runtime mod →
        decodeMod runtime modType commitTS mod = none := by
  refine ⟨?_, fun modType commitTS mod deletes => decodeMod_delete modType commitTS deletes⟩
  rw [decodeRecord_captured emitted]
  exact capturedEvents_eq_iff rows

/-- The row of the creation in `lifetimeRun`. -/
def createdRow : Row :=
  { id := 0, rev := 5, key := ascii "k", value := some (ascii "v"), oldValue := none,
    leaseId := 7, deleted := false, created := true, createRevision := some 5,
    prevRevision := none }

def createdJSON : Bytes :=
  123 :: (ascii "\"rev\":\"1970-01-01T00:00:00.000000005Z\",\"key\":\"k\"," ++
    ascii "\"value\":\"dg==\",\"old_value\":null,\"lease_id\":\"7\",\"deleted\":false," ++
    ascii "\"created\":true,\"create_revision\":\"1970-01-01T00:00:00.000000005Z\"," ++
    ascii "\"prev_revision\":null\x7d")

def createdRuntime : Runtime := runtimeOf createdJSON (rowObject nanoText (ascii "7") createdRow)

theorem createdRow_agrees :
    createdRow ∈ lifetimeWorld.history ∧
      (decodeRecord (runtimeOf createdJSON (rowObject nanoText (ascii "7") createdRow))
        (insertRecord (nanoText 5) createdJSON)).events.map Event.normalize =
          [(rowEvent createdRow).normalize] := by
  have captured : NewRow createdRow (rowObject nanoText (ascii "7") createdRow) :=
    rowObject_newRow (nanoText_denotes 5) (by rintro _ ⟨⟩; exact nanoText_denotes 5)
      (by rintro _ ⟨⟩) (by decide) (Decimal.numeral_digit 7)
  have braced : createdJSON.head? = some 123 := rfl
  have emitted := insertRecord_changeRecord (nanoText_denotes 5) braced captured
  exact ⟨by decide, (change_stream_agrees_iff emitted).1.mpr (by decide)⟩

/-- The row of the update in `lifetimeRun`. -/
def updatedRow : Row :=
  { id := 1, rev := 6, key := ascii "k", value := some (ascii "w"), oldValue := some (ascii "v"),
    leaseId := 0, deleted := false, created := false, createRevision := some 5,
    prevRevision := some 5 }

def updatedJSON : Bytes :=
  123 :: (ascii "\"rev\":\"1970-01-01T00:00:00.000000006Z\",\"key\":\"k\"," ++
    ascii "\"value\":\"dw==\",\"old_value\":\"dg==\",\"lease_id\":\"0\",\"deleted\":false," ++
    ascii "\"created\":false,\"create_revision\":\"1970-01-01T00:00:00.000000005Z\"," ++
    ascii "\"prev_revision\":\"1970-01-01T00:00:00.000000005Z\"\x7d")

/-- An update reaches the subscribers of the change stream without the value
that it replaced. -/
theorem updated_row_loses_old_value :
    ∃ runtime world row gcv, Reachable world ∧ row ∈ world.history ∧
      ChangeRecord runtime [row] gcv ∧
      (decodeRecord runtime gcv).events.map Event.normalize ≠ [(rowEvent row).normalize] := by
  have captured : NewRow updatedRow (rowObject nanoText (ascii "0") updatedRow) :=
    rowObject_newRow (nanoText_denotes 6) (by rintro _ ⟨⟩; exact nanoText_denotes 5)
      (by rintro _ ⟨⟩; exact nanoText_denotes 5) (by decide) (Decimal.numeral_digit 0)
  have braced : updatedJSON.head? = some 123 := rfl
  have emitted := insertRecord_changeRecord (nanoText_denotes 6) braced captured
  refine ⟨_, lifetimeWorld, updatedRow, _, ⟨lifetimeRun, rfl⟩, by decide, emitted, ?_⟩
  rw [decodeRecord_captured emitted]
  decide

end SpannerEtcd
