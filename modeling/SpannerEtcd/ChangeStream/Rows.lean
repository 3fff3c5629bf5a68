import SpannerEtcd.ChangeStream.Agreement

/-!
# The rows of a partition

A row of a change stream query carries data change records, heartbeats and
records that announce child partitions.  The reader takes three things from
it next to the events: the latest timestamp, the children, and whether any
record announces children at all.
-/

namespace SpannerEtcd

/-! ## Well-formed rows -/

/-- A data change record of some table, committed at the given instant. -/
inductive ChangeAt : Int → Value → Prop
  | mk {commit : Int} {commitText : Bytes} (denotes : RFC3339.Denotes commitText commit)
      (sequence transaction isLast tableName columnTypes mods modType : Value)
      (rest : List Value) :
      ChangeAt commit (.list (.string commitText :: sequence :: transaction :: isLast ::
        tableName :: columnTypes :: mods :: modType :: rest))

inductive HeartbeatAt : Int → Value → Prop
  | mk {ts : Int} {text : Bytes} (denotes : RFC3339.Denotes text ts) (rest : List Value) :
      HeartbeatAt ts (.list (.string text :: rest))

/-- A child partition; the tokens of its parents come after its own. -/
inductive ChildNamed : Bytes → Value → Prop
  | mk {token : Bytes} (named : token ≠ []) (rest : List Value) :
      ChildNamed token (.list (.string token :: rest))

/-- A child partitions record, with the tokens that it announces and their
start. -/
inductive Announces : List (Bytes × Int) → Value → Prop
  | mk {start : Int} {startText : Bytes} {tokens : List Bytes} {children : List Value}
      (denotes : RFC3339.Denotes startText start) (sequence : Value) (nonempty : tokens ≠ [])
      (named : List.Forall₂ ChildNamed tokens children) (rest : List Value) :
      Announces (tokens.map fun token => (token, start))
        (.list (.string startText :: sequence :: .list children :: rest))

/-- The timestamps of the data changes and heartbeats of a row, and what each of
its child partitions records announces. -/
structure RowContent where
  stamps : List Int
  announcements : List (List (Bytes × Int))
  deriving DecidableEq, Repr

def RowContent.concat (contents : List RowContent) : RowContent :=
  { stamps := contents.flatMap RowContent.stamps
    announcements := contents.flatMap RowContent.announcements }

/-- One struct of the array; an absent array counts as empty. -/
inductive StructHolds : RowContent → Value → Prop
  | mk {changes beats : List Int} {announcements : List (List (Bytes × Int))}
      {dcrs hbs cprs : Value} (rest : List Value)
      (data : List.Forall₂ ChangeAt changes (dcrs.getListValue.getD []))
      (heartbeats : List.Forall₂ HeartbeatAt beats (hbs.getListValue.getD []))
      (children : List.Forall₂ Announces announcements (cprs.getListValue.getD [])) :
      StructHolds ⟨changes ++ beats, announcements⟩ (.list (dcrs :: hbs :: cprs :: rest))

inductive RowHolds : RowContent → Value → Prop
  | mk {contents : List RowContent} {structs : List Value}
      (records : List.Forall₂ StructHolds contents structs) :
      RowHolds (.concat contents) (.list structs)

theorem forall_of_forall₂ {First Second : Type} {relation : First → Second → Prop}
    {property : First → Prop} (implied : ∀ first second, relation first second → property first)
    {firsts : List First} {seconds : List Second}
    (related : List.Forall₂ relation firsts seconds) : ∀ first ∈ firsts, property first :=
  ((List.forall₂_and_left firsts seconds).mp
    (related.imp fun first second holds => ⟨implied first second holds, holds⟩)).1

theorem Announces.ne_nil {announcements : List (Bytes × Int)} {cpr : Value}
    (announces : Announces announcements cpr) : announcements ≠ [] := by
  cases announces with
  | mk denotes sequence nonempty named rest => simpa using nonempty

theorem StructHolds.announcements_ne_nil {content : RowContent} {outerVal : Value}
    (holds : StructHolds content outerVal) : ∀ group ∈ content.announcements, group ≠ [] := by
  cases holds with
  | mk rest data heartbeats children =>
      exact forall_of_forall₂ (fun _ _ announces => announces.ne_nil) children

/-- Every record of children announces some. -/
theorem RowHolds.flatten_ne_nil {content : RowContent} {gcv : Value}
    (holds : RowHolds content gcv) (announces : content.announcements ≠ []) :
    content.announcements.flatten ≠ [] := by
  cases holds with
  | @mk contents structs records =>
      obtain ⟨group, membership⟩ := List.exists_mem_of_ne_nil _ announces
      obtain ⟨content, inContents, inContent⟩ := List.mem_flatMap.mp membership
      have each := forall_of_forall₂ (fun _ _ holds => holds.announcements_ne_nil) records
      intro empty
      exact each content inContents group inContent
        (List.flatten_eq_nil_iff.mp empty group membership)

/-! ## What is decoded -/

/-- The partition that an announcement leads to. -/
def announced (announcement : Bytes × Int) : PartitionState :=
  { token := announcement.1
    startTimestamp := announcement.2
    resumeTimestamp := announcement.2 }

/-- How decoding some records of a row changes what was decoded before. -/
structure Decoded.Grows (content : RowContent) (before after : Decoded) : Prop where
  maxTS : after.maxTS = content.stamps.foldl max before.maxTS
  done : after.done = (before.done || !content.announcements.isEmpty)
  children : after.children = before.children ++ content.announcements.flatten.map announced

namespace Decoded.Grows

theorem refl (decoded : Decoded) : Grows ⟨[], []⟩ decoded decoded where
  maxTS := rfl
  done := (Bool.or_false _).symm
  children := (List.append_nil _).symm

theorem trans {first second : RowContent} {before middle after : Decoded}
    (grown : Grows first before middle) (grownOn : Grows second middle after) :
    Grows ⟨first.stamps ++ second.stamps, first.announcements ++ second.announcements⟩ before
      after where
  maxTS := by rw [grownOn.maxTS, grown.maxTS, List.foldl_append]
  done := by
    rw [grownOn.done, grown.done, Bool.or_assoc]
    cases first.announcements <;> rfl
  children := by
    rw [grownOn.children, grown.children, List.flatten_append, List.map_append, List.append_assoc]

theorem foldl {add : Decoded → Value → Decoded} {contents : List RowContent}
    {values : List Value}
    (adds : List.Forall₂ (fun content value => ∀ decoded, Grows content decoded (add decoded value))
      contents values) (decoded : Decoded) :
    Grows (.concat contents) decoded (values.foldl add decoded) := by
  induction adds generalizing decoded with
  | nil => exact refl decoded
  | cons head _ inductionHypothesis => exact (head decoded).trans (inductionHypothesis _)

end Decoded.Grows

section

variable {runtime : Runtime}

theorem Value.getListValue_list (values : List Value) :
    (Value.list values).getListValue = some values := rfl

theorem Value.getStringValue_string (text : Bytes) :
    (Value.string text).getStringValue = text := rfl

theorem Decoded.advance_grows (decoded : Decoded) (ts : Int) :
    Decoded.Grows ⟨[ts], []⟩ decoded (decoded.advance ts) := by
  unfold Decoded.advance
  split
  next later =>
    exact ⟨(max_eq_right later.le).symm, (Bool.or_false _).symm, (List.append_nil _).symm⟩
  next earlier =>
    exact ⟨(max_eq_left (not_lt.mp earlier)).symm, (Bool.or_false _).symm,
      (List.append_nil _).symm⟩

theorem decodeDataChangeRecord_of_changeAt {ts : Int} {dcr : Value} (change : ChangeAt ts dcr) :
    (decodeDataChangeRecord runtime dcr).2 = ts := by
  cases change with
  | mk denotes sequence transaction isLast tableName columnTypes mods modType rest =>
      simp only [decodeDataChangeRecord, Value.getListValue_list, Value.getStringValue_string,
        timeParse_of_denotes denotes]
      split
      · rfl
      · split <;> rfl

theorem decodeHeartbeat_of_heartbeatAt {ts : Int} {hb : Value} (beat : HeartbeatAt ts hb) :
    decodeHeartbeat runtime hb = ts := by
  cases beat with
  | mk denotes rest =>
      simp only [decodeHeartbeat, Value.getListValue_list, Value.getStringValue_string,
        timeParse_of_denotes denotes, Option.getD_some]

theorem decodeChild_of_named {token : Bytes} {child : Value} (named : ChildNamed token child)
    (start : Int) : decodeChild start child = some (announced (token, start)) := by
  cases named with
  | mk nonempty rest =>
      simp only [decodeChild, Value.getListValue_list, Value.getStringValue_string, nonempty,
        if_false]
      rfl

theorem decodeChildPartitions_of_announces {announcements : List (Bytes × Int)} {cpr : Value}
    (announces : Announces announcements cpr) :
    decodeChildPartitions runtime cpr = announcements.map announced := by
  cases announces with
  | @mk start startText tokens children denotes sequence nonempty named rest =>
      clear nonempty
      simp only [decodeChildPartitions, Value.getListValue_list, Value.getStringValue_string,
        timeParse_of_denotes denotes, Option.getD_some, List.map_map]
      induction named with
      | nil => rfl
      | cons first _ inductionHypothesis =>
          rw [List.filterMap_cons_some (decodeChild_of_named first start), inductionHypothesis]
          rfl

theorem Decoded.addDataChange_grows (runtime : Runtime) {ts : Int} {dcr : Value}
    (change : ChangeAt ts dcr) (decoded : Decoded) :
    Decoded.Grows ⟨[ts], []⟩ decoded (decoded.addDataChange runtime dcr) := by
  have grown := Decoded.advance_grows
    { decoded with events := decoded.events ++ (decodeDataChangeRecord runtime dcr).1 } ts
  rw [← decodeDataChangeRecord_of_changeAt change] at grown ⊢
  exact ⟨grown.maxTS, grown.done, grown.children⟩

theorem Decoded.addHeartbeat_grows (runtime : Runtime) {ts : Int} {hb : Value}
    (beat : HeartbeatAt ts hb) (decoded : Decoded) :
    Decoded.Grows ⟨[ts], []⟩ decoded (decoded.addHeartbeat runtime hb) := by
  rw [Decoded.addHeartbeat, decodeHeartbeat_of_heartbeatAt beat]
  exact Decoded.advance_grows decoded ts

theorem Decoded.addChildPartitions_grows (runtime : Runtime)
    {announcements : List (List (Bytes × Int))} {cprs : List Value}
    (announces : List.Forall₂ Announces announcements cprs)
    (decoded : Decoded) :
    Decoded.Grows ⟨[], announcements⟩ decoded (decoded.addChildPartitions runtime cprs) := by
  have children : cprs.flatMap (decodeChildPartitions runtime) =
      announcements.flatten.map announced := by
    induction announces with
    | nil => rfl
    | cons first _ inductionHypothesis =>
        rw [List.flatMap_cons, inductionHypothesis, decodeChildPartitions_of_announces first,
          List.flatten_cons, List.map_append]
  unfold Decoded.addChildPartitions
  cases announces with
  | nil => exact .refl decoded
  | cons first others =>
      exact ⟨rfl, (Bool.or_true _).symm, congrArg (decoded.children ++ ·) children⟩

/-- The content of records that hold one timestamp each. -/
theorem RowContent.concat_stamps (stamps : List Int) :
    RowContent.concat (stamps.map fun ts => ⟨[ts], []⟩) = ⟨stamps, []⟩ := by
  induction stamps with
  | nil => rfl
  | cons ts rest inductionHypothesis =>
      simp only [RowContent.concat, List.map_cons, List.flatMap_cons, RowContent.mk.injEq] at *
      exact ⟨congrArg (ts :: ·) inductionHypothesis.1, inductionHypothesis.2⟩

theorem Decoded.Grows.foldl_stamps {add : Decoded → Value → Decoded} {stamps : List Int}
    {values : List Value}
    (adds : List.Forall₂ (fun ts value => ∀ decoded,
      Decoded.Grows ⟨[ts], []⟩ decoded (add decoded value)) stamps values) (decoded : Decoded) :
    Decoded.Grows ⟨stamps, []⟩ decoded (values.foldl add decoded) := by
  rw [← RowContent.concat_stamps]
  exact .foldl (List.forall₂_map_left_iff.mpr adds) decoded

theorem Decoded.addStruct_grows (runtime : Runtime) {content : RowContent} {outerVal : Value}
    (holds : StructHolds content outerVal) (decoded : Decoded) :
    Decoded.Grows content decoded (decoded.addStruct runtime outerVal) := by
  cases holds with
  | mk rest data heartbeats children =>
      have withData := Decoded.Grows.foldl_stamps
        (data.imp fun _ _ change => Decoded.addDataChange_grows runtime change) decoded
      have withHeartbeats := withData.trans (Decoded.Grows.foldl_stamps
        (heartbeats.imp fun _ _ beat => Decoded.addHeartbeat_grows runtime beat) _)
      have withChildren := withHeartbeats.trans
        (Decoded.addChildPartitions_grows runtime children _)
      simp only [List.append_nil, List.nil_append] at withChildren
      exact withChildren

/-- The reader takes the content of a row from it. -/
theorem decodeRecord_grows (runtime : Runtime) {content : RowContent} {gcv : Value}
    (holds : RowHolds content gcv) :
    Decoded.Grows content {} (decodeRecord runtime gcv) := by
  cases holds with
  | mk records =>
      exact .foldl (records.imp fun _ _ => Decoded.addStruct_grows runtime) {}

/-- A row without children; its timestamp is the latest that it carries.  The
timestamps of Spanner begin with the year 1. -/
def Stamped (ts : Int) (gcv : Value) : Prop :=
  ∃ stamps, RowHolds ⟨stamps, []⟩ gcv ∧ ts ∈ stamps ∧ (∀ stamp ∈ stamps, stamp ≤ ts) ∧
    zeroTime ≤ ts

theorem foldl_max_eq {stamps : List Int} {first latest : Int} (below : first ≤ latest)
    (bound : ∀ stamp ∈ stamps, stamp ≤ latest) (attained : latest ∈ first :: stamps) :
    stamps.foldl max first = latest := by
  induction stamps generalizing first with
  | nil => exact (List.mem_singleton.mp attained).symm
  | cons stamp rest inductionHypothesis =>
      obtain ⟨stampBelow, restBelow⟩ := List.forall_mem_cons.mp bound
      refine inductionHypothesis (max_le below stampBelow) restBelow ?_
      rw [List.mem_cons]
      rcases List.mem_cons.mp attained with same | later
      · exact .inl (by omega)
      · exact (List.mem_cons.mp later).imp_left fun same => by omega

theorem decodeRecord_of_stamped (runtime : Runtime) {ts : Int} {gcv : Value}
    (stamped : Stamped ts gcv) :
    (decodeRecord runtime gcv).maxTS = ts ∧ (decodeRecord runtime gcv).done = false ∧
      (decodeRecord runtime gcv).children = [] := by
  obtain ⟨stamps, holds, attained, bound, afterYearOne⟩ := stamped
  have grown := decodeRecord_grows runtime holds
  refine ⟨?_, grown.done, grown.children⟩
  rw [grown.maxTS]
  exact foldl_max_eq afterYearOne bound (List.mem_cons_of_mem _ attained)

end

/-! ## Rows with one record -/

def heartbeatRow (text : Bytes) : Value :=
  .list [.list [.list [], .list [.list [.string text]], .list []]]

def childRow (startText : Bytes) (tokens : List Bytes) : Value :=
  .list [.list [.list [], .list [], .list [.list [.string startText, .string (ascii "00000001"),
    .list (tokens.map fun token => .list [.string token, .list []])]]]]

theorem rowHolds_single {content : RowContent} {outerVal : Value}
    (holds : StructHolds content outerVal) : RowHolds content (.list [outerVal]) := by
  have row := RowHolds.mk (.cons holds .nil)
  simpa [RowContent.concat] using row

theorem heartbeatRow_holds {text : Bytes} {ts : Int} (denotes : RFC3339.Denotes text ts) :
    RowHolds ⟨[ts], []⟩ (heartbeatRow text) := by
  have beat : HeartbeatAt ts (.list [.string text]) := .mk denotes []
  have beats : List.Forall₂ HeartbeatAt [ts] [.list [.string text]] := .cons beat .nil
  have holds : StructHolds ⟨[] ++ [ts], []⟩
      (.list [.list [], .list [.list [.string text]], .list []]) := .mk [] .nil beats .nil
  exact rowHolds_single holds

theorem childRow_holds {startText : Bytes} {start : Int}
    (denotes : RFC3339.Denotes startText start) {tokens : List Bytes} (nonempty : tokens ≠ [])
    (named : ∀ token ∈ tokens, token ≠ []) :
    RowHolds ⟨[], [tokens.map fun token => (token, start)]⟩ (childRow startText tokens) := by
  have children : List.Forall₂ ChildNamed tokens
      (tokens.map fun token => .list [.string token, .list []]) := by
    rw [List.forall₂_map_right_iff]
    exact List.forall₂_same.mpr fun token membership => .mk (named token membership) _
  have announces := Announces.mk denotes (.string (ascii "00000001")) nonempty children []
  have records : List.Forall₂ Announces [tokens.map fun token => (token, start)] [_] :=
    .cons announces .nil
  have holds : StructHolds ⟨[] ++ [], [tokens.map fun token => (token, start)]⟩
      (.list [.list [], .list [], .list _]) := .mk [] .nil .nil records
  exact rowHolds_single holds

theorem insertRecord_holds {text : Bytes} {ts : Int} (denotes : RFC3339.Denotes text ts)
    (json : Bytes) : RowHolds ⟨[ts], []⟩ (insertRecord text json) := by
  have change : ChangeAt ts (dataRecord text .null .null .null .null
      [.list [.null, .string json, .string []]] (ascii "INSERT") []) := .mk denotes _ _ _ _ _ _ _ _
  have changes : List.Forall₂ ChangeAt [ts] [_] := .cons change .nil
  have holds : StructHolds ⟨[ts] ++ [], []⟩ (.list [.list _, .null, .null]) :=
    .mk [] changes .nil .nil
  exact rowHolds_single holds

theorem stamped_of_holds {ts : Int} {gcv : Value} (holds : RowHolds ⟨[ts], []⟩ gcv)
    (afterYearOne : zeroTime ≤ ts) : Stamped ts gcv :=
  ⟨[ts], holds, List.mem_singleton_self ts, by simp, afterYearOne⟩

end SpannerEtcd
