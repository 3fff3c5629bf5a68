import SpannerEtcd.ChangeStream.Rows
import SpannerEtcd.Lib.Runs

/-!
# The reader of a partition

`readPartition` queries a partition from its resume timestamp and goes through
the rows of the answer: their events are dispatched, the resume timestamp
advances, and announced children are sent to the dispatcher of partitions.  A
query that fails or ends is asked again.  The first row that announces
children is taken for the end of the partition.
-/

namespace SpannerEtcd

/-- A row of an answer.  The reader looks at its column alone, which may fail
to decode; the number and the timestamp tell where it stands in its
partition. -/
structure StreamRow where
  number : Nat
  timestamp : Int
  column : Option Value

/-- Where `readPartition` stands. -/
inductive ReaderPhase where
  /-- Before a query. -/
  | resting
  | streaming (rows : List StreamRow)
  /-- The children of a row wait for room in the channel. -/
  | enqueueing (children : List PartitionState) (done : Bool) (rows : List StreamRow)
  | finished
  /-- It has returned without having come to the end of the partition. -/
  | abandoned

structure Reader where
  p : PartitionState
  phase : ReaderPhase
  /-- The calls of `dispatch`, each with the number of its row. -/
  dispatched : List (Nat × List Event)
  /-- The children that were sent into the channel. -/
  queued : List PartitionState
  /-- The `resume_timestamp` that was last stored for the partition. -/
  cursor : Option Int
  /-- Every row that was decoded. -/
  read : List StreamRow

def Reader.start (p : PartitionState) : Reader :=
  { p := p, phase := .resting, dispatched := [], queued := [], cursor := none, read := [] }

/-- `if ts.After(p.resumeTimestamp) { p.resumeTimestamp = ts }`. -/
def PartitionState.advance (p : PartitionState) (ts : Int) : PartitionState :=
  if p.resumeTimestamp < ts then { p with resumeTimestamp := ts } else p

/-- What follows the children of a row; `flushed` tells whether the cursor was
due to be stored, and was. -/
def Reader.settle (reader : Reader) (done flushed : Bool) (rows : List StreamRow) : Reader :=
  { reader with
    phase := if done then .finished else .streaming rows
    cursor := if flushed then some reader.p.resumeTimestamp else reader.cursor }

/-- The loop over the children of a row. -/
def Reader.enqueueAll (reader : Reader) (children : List PartitionState) (done flushed : Bool)
    (rows : List StreamRow) : Reader :=
  if children.isEmpty then reader.settle done flushed rows
  else { reader with phase := .enqueueing children done rows }

theorem Reader.enqueueAll_p (reader : Reader) (children : List PartitionState)
    (done flushed : Bool) (rows : List StreamRow) :
    (reader.enqueueAll children done flushed rows).p = reader.p := by
  unfold Reader.enqueueAll
  split <;> rfl

def Reader.receive (runtime : Runtime) (reader : Reader) (row : StreamRow) (gcv : Value) : Reader :=
  let decoded := decodeRecord runtime gcv
  { reader with
    p := reader.p.advance decoded.maxTS
    dispatched :=
      if decoded.events.isEmpty then reader.dispatched
      else reader.dispatched ++ [(row.number, decoded.events)]
    read := reader.read ++ [row] }

/-- How `iter.Next` ends a query. -/
inductive QueryEnd where
  | done
  | canceled
  | deadlineExceeded
  | error
  deriving DecidableEq, Repr

def QueryEnd.phase : QueryEnd → ReaderPhase
  | .done | .error => .resting
  | .canceled | .deadlineExceeded => .abandoned

inductive ReaderAction where
  | query
  | next (flushed : Bool)
  | enqueue (flushed : Bool)
  | queryEnd (how : QueryEnd)
  | stop
  deriving DecidableEq, Repr

/-- `source` answers the queries of the partition from a timestamp on. -/
def Reader.step (runtime : Runtime) (source : Int → List StreamRow) (reader : Reader) :
    ReaderAction → Option Reader
  | .query =>
      match reader.phase with
      | .resting => some { reader with phase := .streaming (source reader.p.resumeTimestamp) }
      | _ => none
  | .next flushed =>
      match reader.phase with
      | .streaming (row :: rows) =>
          match row.column with
          | none => some { reader with phase := .streaming rows }
          | some gcv =>
              let decoded := decodeRecord runtime gcv
              some ((reader.receive runtime row gcv).enqueueAll decoded.children decoded.done
                flushed rows)
      | _ => none
  | .enqueue flushed =>
      match reader.phase with
      | .enqueueing (child :: children) done rows =>
          some ({ reader with queued := reader.queued ++ [child] }.enqueueAll children done flushed
            rows)
      | _ => none
  | .queryEnd how =>
      match reader.phase with
      | .streaming _ => some { reader with phase := how.phase }
      | _ => none
  | .stop =>
      match reader.phase with
      | .resting | .enqueueing _ _ _ => some { reader with phase := .abandoned }
      | _ => none

inductive ReaderMove (runtime : Runtime) (source : Int → List StreamRow) (reader : Reader) :
    ReaderAction → Reader → Prop where
  | query (resting : reader.phase = .resting) :
      ReaderMove runtime source reader .query
        { reader with phase := .streaming (source reader.p.resumeTimestamp) }
  | skip {flushed : Bool} {row : StreamRow} {rows : List StreamRow}
      (streaming : reader.phase = .streaming (row :: rows)) (undecoded : row.column = none) :
      ReaderMove runtime source reader (.next flushed) { reader with phase := .streaming rows }
  | receive {flushed : Bool} {row : StreamRow} {rows : List StreamRow} {gcv : Value}
      (streaming : reader.phase = .streaming (row :: rows)) (decoded : row.column = some gcv) :
      ReaderMove runtime source reader (.next flushed)
        ((reader.receive runtime row gcv).enqueueAll (decodeRecord runtime gcv).children
          (decodeRecord runtime gcv).done flushed rows)
  | enqueue {flushed : Bool} {child : PartitionState} {children : List PartitionState}
      {done : Bool} {rows : List StreamRow}
      (enqueueing : reader.phase = .enqueueing (child :: children) done rows) :
      ReaderMove runtime source reader (.enqueue flushed)
        ({ reader with queued := reader.queued ++ [child] }.enqueueAll children done flushed rows)
  | queryEnd {how : QueryEnd} {rows : List StreamRow} (streaming : reader.phase = .streaming rows) :
      ReaderMove runtime source reader (.queryEnd how) { reader with phase := how.phase }
  | stop (waiting : reader.phase = .resting ∨
        ∃ children done rows, reader.phase = .enqueueing children done rows) :
      ReaderMove runtime source reader .stop { reader with phase := .abandoned }

theorem Reader.step_move {runtime : Runtime} {source : Int → List StreamRow}
    {reader next : Reader} {action : ReaderAction}
    (stepped : reader.step runtime source action = some next) :
    ReaderMove runtime source reader action next := by
  cases action with
  | query =>
      simp only [Reader.step] at stepped
      split at stepped
      next resting =>
        obtain rfl := Option.some.inj stepped
        exact .query resting
      next => cases stepped
  | next flushed =>
      simp only [Reader.step] at stepped
      split at stepped
      next row rows streaming =>
        split at stepped
        next undecoded =>
          obtain rfl := Option.some.inj stepped
          exact .skip streaming undecoded
        next gcv decoded =>
          obtain rfl := Option.some.inj stepped
          exact .receive streaming decoded
      next => cases stepped
  | enqueue flushed =>
      simp only [Reader.step] at stepped
      split at stepped
      next child children done rows enqueueing =>
        obtain rfl := Option.some.inj stepped
        exact .enqueue enqueueing
      next => cases stepped
  | queryEnd how =>
      simp only [Reader.step] at stepped
      split at stepped
      next rows streaming =>
        obtain rfl := Option.some.inj stepped
        exact .queryEnd streaming
      next => cases stepped
  | stop =>
      simp only [Reader.step] at stepped
      split at stepped
      next resting =>
        obtain rfl := Option.some.inj stepped
        exact .stop (.inl resting)
      next children done rows enqueueing =>
        obtain rfl := Option.some.inj stepped
        exact .stop (.inr ⟨children, done, rows, enqueueing⟩)
      next => cases stepped

/-! ## The discovery of the first partitions -/

inductive DiscoveryErr where
  | queryFailed
  | noPartitions
  deriving DecidableEq, Repr

/-- The loop of `queryInitialPartitions` over the rows of its answer, after
which the query ends or fails. -/
def collectPartitions (runtime : Runtime) (failed : Bool) :
    List StreamRow → Except DiscoveryErr (List PartitionState)
  | [] => if failed then .error .queryFailed else .ok []
  | row :: rows =>
      match row.column with
      | none => collectPartitions runtime failed rows
      | some gcv =>
          let decoded := decodeRecord runtime gcv
          if decoded.done then .ok decoded.children
          else
            (collectPartitions runtime failed rows).map fun partitions =>
              decoded.children ++ partitions

def queryInitialPartitions (runtime : Runtime) (rows : List StreamRow) (failed : Bool) :
    Except DiscoveryErr (List PartitionState) :=
  match collectPartitions runtime failed rows with
  | .error err => .error err
  | .ok partitions => if partitions.isEmpty then .error .noPartitions else .ok partitions

/-- `Start` enqueues the partitions that it has discovered, to be read from
their stored cursor or else from the common start. -/
def initialPartitions (cursors : Bytes → Option Int) (startTime : Int)
    (partitions : List PartitionState) : List PartitionState :=
  partitions.map fun p => { p with resumeTimestamp := (cursors p.token).getD startTime }

end SpannerEtcd
