import Mathlib
import SpannerEtcd.Lib.Base64
import SpannerEtcd.Lib.RFC3339
import SpannerEtcd.Store.Read

/-!
# Decoding change records

Spanner delivers a `ChangeRecord` as a tree of protobuf values.  The column
values of a row sit in it as JSON texts, in which `BYTES` are base64,
`TIMESTAMP` is RFC 3339 and `INT64` is a decimal numeral.
-/

namespace SpannerEtcd

/-- A `structpb.Value`; the finite doubles are rationals. -/
inductive Value where
  | null
  | number (n : ℚ)
  | string (text : Bytes)
  | bool (b : Bool)
  | list (values : List Value)
  | struct (fields : List (Bytes × Value))

def Value.getListValue : Value → Option (List Value)
  | .list values => some values
  | _ => none

def Value.getStringValue : Value → Bytes
  | .string text => text
  | _ => []

abbrev Object := List (Bytes × Value)

/-- What the decoder calls and does not define: `structpb.Struct.UnmarshalJSON`,
and the layout-driven parser that `time.Parse` turns to when a text is not in
RFC 3339 form. -/
structure Runtime where
  unmarshalJSON : Bytes → Option Object
  parseLayout : Bytes → Option Int

def zeroTime : Int := -62135596800 * 10 ^ 9

section
variable (runtime : Runtime)

/-- `time.Parse` with the layout `time.RFC3339Nano`. -/
def timeParse (text : Bytes) : Option Int :=
  match RFC3339.parse text with
  | some instant => some instant
  | none => runtime.parseLayout text

def parseJSONMap (s : Bytes) : Option Object :=
  if s = [] ∨ s = ascii "null" then none else runtime.unmarshalJSON s

/-- The indexing expression `m[k]`, which finds nothing in a nil map. -/
def index (m : Option Object) (k : Bytes) : Option Value :=
  m.bind fun fields => fields.lookup k

def tsField (m : Option Object) (k : Bytes) : Int :=
  match index m k with
  | some (.string s) =>
      if s = [] then 0
      else
        match timeParse runtime s with
        | some t => tsToRev t
        | none => 0
  | _ => 0

def strField (m : Option Object) (k : Bytes) : Bytes :=
  match index m k with
  | some (.string s) => s
  | _ => []

def i64Field (m : Option Object) (k : Bytes) : Int :=
  match index m k with
  | some (.string t) => (Decimal.sscan t).getD 0
  | some (.number n) => n.num.tdiv n.den
  | _ => 0

def bytesField (m : Option Object) (k : Bytes) : Option Bytes :=
  match index m k with
  | some (.string s) => if s = [] then none else some (Base64.decode s)
  | _ => none

def boolField (m : Option Object) (k : Bytes) : Bool :=
  match index m k with
  | some (.bool b) => b
  | _ => false

/-- The assignments of `extractKV`. -/
def fieldsKV (src oldV : Option Object) : KV :=
  { key := strField src (ascii "key")
    value := bytesField src (ascii "value")
    oldValue := bytesField oldV (ascii "value")
    leaseID := i64Field src (ascii "lease_id")
    deleted := boolField src (ascii "deleted")
    created := boolField src (ascii "created")
    rev := tsField runtime src (ascii "rev")
    createRevision := tsField runtime src (ascii "create_revision")
    prevRevision := tsField runtime src (ascii "prev_revision") }

def extractKV (newV oldV : Option Object) (_commitTS : Int) : Option KV :=
  let src := newV.or oldV
  if src.isNone then none
  else if strField src (ascii "key") = [] then none
  else some (fieldsKV runtime src oldV)

/-- One round of the loop over the mods of a record. -/
def decodeMod (modType : Bytes) (commitTS : Int) (modVal : Value) : Option Event :=
  match modVal.getListValue with
  | some (_ :: newValues :: oldValues :: _) =>
      let newVals := parseJSONMap runtime newValues.getStringValue
      let oldVals := parseJSONMap runtime oldValues.getStringValue
      (extractKV runtime newVals oldVals commitTS).map fun kv =>
        { kv := kv, type := if modType = ascii "DELETE" ∨ kv.deleted then .delete else .put }
  | _ => none

def decodeDataChangeRecord (v : Value) : List Event × Int :=
  match v.getListValue with
  | some (commitTS :: _ :: _ :: _ :: tableName :: _ :: mods :: modType :: _) =>
      match timeParse runtime commitTS.getStringValue with
      | none => ([], zeroTime)
      | some ts =>
          if tableName.getStringValue ≠ ascii "kv" then ([], ts)
          else
            match mods.getListValue with
            | none => ([], ts)
            | some modsArr =>
                (modsArr.filterMap (decodeMod runtime modType.getStringValue ts), ts)
  | _ => ([], zeroTime)

def decodeHeartbeat (v : Value) : Int :=
  match v.getListValue with
  | some (timestamp :: _) => (timeParse runtime timestamp.getStringValue).getD zeroTime
  | _ => zeroTime

structure PartitionState where
  token : Bytes
  startTimestamp : Int
  resumeTimestamp : Int
  deriving DecidableEq, Repr

def decodeChild (startTS : Int) (childVal : Value) : Option PartitionState :=
  match childVal.getListValue with
  | some (token :: _) =>
      if token.getStringValue = [] then none
      else some
        { token := token.getStringValue, startTimestamp := startTS, resumeTimestamp := startTS }
  | _ => none

def decodeChildPartitions (v : Value) : List PartitionState :=
  match v.getListValue with
  | some (startTimestamp :: _ :: children :: _) =>
      let startTS := (timeParse runtime startTimestamp.getStringValue).getD zeroTime
      match children.getListValue with
      | none => []
      | some childrenArr => childrenArr.filterMap (decodeChild startTS)
  | _ => []

/-- What `decodeRecord` returns. -/
structure Decoded where
  done : Bool := false
  maxTS : Int := zeroTime
  events : List Event := []
  children : List PartitionState := []
  deriving DecidableEq, Repr

def Decoded.advance (decoded : Decoded) (ts : Int) : Decoded :=
  if decoded.maxTS < ts then { decoded with maxTS := ts } else decoded

def Decoded.addDataChange (decoded : Decoded) (dcr : Value) : Decoded :=
  let (events, ts) := decodeDataChangeRecord runtime dcr
  { decoded with events := decoded.events ++ events }.advance ts

def Decoded.addHeartbeat (decoded : Decoded) (hb : Value) : Decoded :=
  decoded.advance (decodeHeartbeat runtime hb)

def Decoded.addChildPartitions (decoded : Decoded) (cprs : List Value) : Decoded :=
  if cprs.isEmpty then decoded
  else
    { decoded with
      done := true
      children := decoded.children ++ cprs.flatMap (decodeChildPartitions runtime) }

/-- One round of the loop over the structs of the array. -/
def Decoded.addStruct (decoded : Decoded) (outerVal : Value) : Decoded :=
  match outerVal.getListValue with
  | some (dcrs :: hbs :: cprs :: _) =>
      let withData := (dcrs.getListValue.getD []).foldl (addDataChange runtime) decoded
      let withHeartbeats := (hbs.getListValue.getD []).foldl (addHeartbeat runtime) withData
      withHeartbeats.addChildPartitions runtime (cprs.getListValue.getD [])
  | _ => decoded

def decodeRecord (gcv : Value) : Decoded :=
  (gcv.getListValue.getD []).foldl (Decoded.addStruct runtime) {}

end

/-! ## The events of a record -/

@[simp]
theorem Decoded.advance_events (decoded : Decoded) (ts : Int) :
    (decoded.advance ts).events = decoded.events := by
  unfold advance
  split <;> rfl

theorem Decoded.addDataChange_events (runtime : Runtime) (decoded : Decoded) (dcr : Value) :
    (decoded.addDataChange runtime dcr).events =
      decoded.events ++ (decodeDataChangeRecord runtime dcr).1 := by
  simp [addDataChange]

theorem Decoded.addHeartbeat_events (runtime : Runtime) (decoded : Decoded) (hb : Value) :
    (decoded.addHeartbeat runtime hb).events = decoded.events ++ [] := by
  simp [addHeartbeat]

theorem Decoded.addChildPartitions_events (runtime : Runtime) (decoded : Decoded)
    (cprs : List Value) : (decoded.addChildPartitions runtime cprs).events = decoded.events := by
  unfold addChildPartitions
  split <;> rfl

theorem Decoded.foldl_events {add : Decoded → Value → Decoded} {events : Value → List Event}
    (adds : ∀ decoded value, (add decoded value).events = decoded.events ++ events value)
    (values : List Value) (decoded : Decoded) :
    (values.foldl add decoded).events = decoded.events ++ values.flatMap events := by
  induction values generalizing decoded with
  | nil => simp
  | cons head rest inductionHypothesis =>
      rw [List.foldl_cons, inductionHypothesis, adds, List.flatMap_cons, List.append_assoc]

def structEvents (runtime : Runtime) (outerVal : Value) : List Event :=
  match outerVal.getListValue with
  | some (dcrs :: _ :: _ :: _) =>
      (dcrs.getListValue.getD []).flatMap fun dcr => (decodeDataChangeRecord runtime dcr).1
  | _ => []

theorem Decoded.addStruct_events (runtime : Runtime) (decoded : Decoded) (outerVal : Value) :
    (decoded.addStruct runtime outerVal).events =
      decoded.events ++ structEvents runtime outerVal := by
  unfold addStruct structEvents
  split
  · rw [addChildPartitions_events, foldl_events (addHeartbeat_events runtime),
      foldl_events (addDataChange_events runtime)]
    simp
  · simp

theorem decodeRecord_events (runtime : Runtime) (gcv : Value) :
    (decodeRecord runtime gcv).events =
      (gcv.getListValue.getD []).flatMap (structEvents runtime) := by
  rw [decodeRecord, Decoded.foldl_events (Decoded.addStruct_events runtime)]
  simp

end SpannerEtcd
