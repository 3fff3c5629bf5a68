import SpannerEtcd.ChangeStream.Reader
import SpannerEtcd.Lib.Resume
import SpannerEtcd.Lib.Simulation

/-!
# Restarts of a partition reader

The reader of a partition is an instance of a reader that resumes from the
highest timestamp it has read.  However often its queries fail or end, no row
of the partition is passed over.
-/

namespace SpannerEtcd

def StreamRow.events (runtime : Runtime) (row : StreamRow) : List Event :=
  match row.column with
  | none => []
  | some gcv => (decodeRecord runtime gcv).events

/-- A whole partition: rows with data changes and heartbeats in the order of
their timestamps, and a last row that announces children. -/
structure PartitionHistory where
  rows : List StreamRow
  last : StreamRow
  stamped : ∀ row ∈ rows, ∃ gcv, row.column = some gcv ∧ Stamped row.timestamp gcv
  ends : ∃ gcv content, last.column = some gcv ∧ RowHolds content gcv ∧
    content.announcements ≠ []
  ordered : Resume.Ordered StreamRow.timestamp StreamRow.number (rows ++ [last])

def PartitionHistory.all (history : PartitionHistory) : List StreamRow :=
  history.rows ++ [history.last]

/-- A query returns every row from a timestamp on. -/
def PartitionHistory.source (history : PartitionHistory) (start : Int) : List StreamRow :=
  Resume.itemsFrom StreamRow.timestamp history.all start

/-- Some call has handed each event of the row to the subscribers. -/
def Dispatched (runtime : Runtime) (calls : List (Nat × List Event)) (row : StreamRow) : Prop :=
  ∀ event ∈ row.events runtime, ∃ call ∈ calls, call.1 = row.number ∧ event ∈ call.2

/-- Where the reader stands as a reader that resumes.  After the last row there
is nothing left. -/
def ReaderPhase.Follows (cursor : Int) (state : Resume.State StreamRow Int) : ReaderPhase → Prop
  | .resting => state.answer = none ∧ state.cursor = cursor
  | .streaming rows => state.answer = some rows ∧ state.cursor = cursor
  | .enqueueing _ done _ => done = true ∧ state.answer = some []
  | .finished => state.answer = some []
  | .abandoned => True

/-- The call of `dispatch` that a row leads to. -/
def StreamRow.call (runtime : Runtime) (row : StreamRow) : Option (Nat × List Event) :=
  if (row.events runtime).isEmpty then none else some (row.number, row.events runtime)

structure Reader.Simulates (runtime : Runtime) (history : PartitionHistory) (start : Int)
    (reader : Reader) (state : Resume.State StreamRow Int) : Prop where
  reached : Runs.Reaches (Resume.step StreamRow.timestamp history.all) (.start start) state
  phase : reader.phase.Follows reader.p.resumeTimestamp state
  log : state.log = reader.read
  dispatched : reader.dispatched = reader.read.filterMap (StreamRow.call runtime)

theorem PartitionState.advance_resumeTimestamp (p : PartitionState) (ts : Int) :
    (p.advance ts).resumeTimestamp = max p.resumeTimestamp ts := by
  unfold PartitionState.advance
  split
  next later => exact (max_eq_right later.le).symm
  next earlier => exact (max_eq_left (not_lt.mp earlier)).symm

theorem Reader.receive_dispatched {runtime : Runtime} {reader : Reader} {row : StreamRow}
    {gcv : Value} (decoded : row.column = some gcv)
    (before : reader.dispatched = reader.read.filterMap (StreamRow.call runtime)) :
    (reader.receive runtime row gcv).dispatched =
      (reader.receive runtime row gcv).read.filterMap (StreamRow.call runtime) := by
  have events : row.events runtime = (decodeRecord runtime gcv).events := by
    rw [StreamRow.events, decoded]
  simp only [Reader.receive, List.filterMap_append, List.filterMap_cons, List.filterMap_nil,
    StreamRow.call, events, before]
  split <;> simp

section Simulation

variable {runtime : Runtime} {history : PartitionHistory} {start : Int} {reader : Reader}
  {state : Resume.State StreamRow Int}

/-- After the last row only its children are left to be sent. -/
theorem Reader.simulates_enqueueAll
    (reached : Runs.Reaches (Resume.step StreamRow.timestamp history.all) (.start start) state)
    (exhausted : state.answer = some []) (log : state.log = reader.read)
    (dispatched : reader.dispatched = reader.read.filterMap (StreamRow.call runtime))
    (children : List PartitionState) (flushed : Bool) (rows : List StreamRow) :
    (reader.enqueueAll children true flushed rows).Simulates runtime history start state := by
  unfold Reader.enqueueAll
  split
  · exact ⟨reached, exhausted, log, dispatched⟩
  · exact ⟨reached, ⟨rfl, exhausted⟩, log, dispatched⟩

namespace Reader.Simulates

variable (simulates : reader.Simulates runtime history start state)

include simulates

theorem inv : Resume.Inv StreamRow.timestamp StreamRow.number history.all start state :=
  Resume.reaches_inv history.ordered simulates.reached

/-- One step of the resuming reader. -/
theorem reaches_next {action : Resume.Action} {next : Resume.State StreamRow Int}
    (stepped : Resume.step StreamRow.timestamp history.all state action = some next) :
    Runs.Reaches (Resume.step StreamRow.timestamp history.all) (.start start) next :=
  simulates.reached.trans (.single stepped)

theorem left_of_streaming {rows : List StreamRow} (streaming : reader.phase = .streaming rows) :
    state.answer = some rows ∧ state.cursor = reader.p.resumeTimestamp ∧
      rows.Sublist history.all := by
  have phase := simulates.phase
  rw [streaming] at phase
  refine ⟨phase.1, phase.2, ?_⟩
  have sublist := simulates.inv.sublist
  rwa [Resume.State.left, phase.1] at sublist

theorem query (resting : reader.phase = .resting) :
    ∃ next, Runs.Reaches (Resume.step StreamRow.timestamp history.all) state next ∧
      { reader with
        phase := .streaming (history.source reader.p.resumeTimestamp) }.Simulates runtime history
        start next := by
  have phase := simulates.phase
  rw [resting] at phase
  obtain ⟨idle, cursor⟩ := phase
  have stepped : Resume.step StreamRow.timestamp history.all state .query = some
      { state with
        answer := some (Resume.itemsFrom StreamRow.timestamp history.all state.cursor) } := by
    simp only [Resume.step, idle]
  refine ⟨_, .single stepped, simulates.reaches_next stepped, ⟨?_, cursor⟩, simulates.log,
    simulates.dispatched⟩
  rw [cursor]
  rfl

theorem read {row : StreamRow} {rows : List StreamRow}
    (streaming : reader.phase = .streaming (row :: rows)) :
    Resume.step StreamRow.timestamp history.all state .next = some
      { cursor := max reader.p.resumeTimestamp row.timestamp
        answer := some rows
        log := reader.read ++ [row] } := by
  obtain ⟨answer, cursor, _⟩ := simulates.left_of_streaming streaming
  simp only [Resume.step, answer, cursor, simulates.log]

/-- Nothing comes after the last row. -/
theorem nothing_after_last {rows : List StreamRow}
    (streaming : reader.phase = .streaming (history.last :: rows)) : rows = [] := by
  obtain ⟨_, _, sublist⟩ := simulates.left_of_streaming streaming
  obtain ⟨later, _⟩ := List.pairwise_cons.mp (history.ordered.sublist sublist)
  have earlier := (List.pairwise_append.mp history.ordered).2.2
  rw [List.eq_nil_iff_forall_not_mem]
  intro row membership
  have follows := (later row membership).1
  have inAll := sublist.subset (List.mem_cons_of_mem _ membership)
  rcases List.mem_append.mp inAll with inRows | isLast
  · exact absurd follows (earlier row inRows _ List.mem_cons_self).1.asymm
  · rw [List.mem_singleton.mp isLast] at follows
    exact absurd follows (lt_irrefl _)

theorem receive {flushed : Bool} {row : StreamRow} {rows : List StreamRow} {gcv : Value}
    (streaming : reader.phase = .streaming (row :: rows)) (decoded : row.column = some gcv) :
    ∃ next, Runs.Reaches (Resume.step StreamRow.timestamp history.all) state next ∧
      ((reader.receive runtime row gcv).enqueueAll (decodeRecord runtime gcv).children
        (decodeRecord runtime gcv).done flushed rows).Simulates runtime history start next := by
  have stepped := simulates.read streaming
  have calls := Reader.receive_dispatched decoded simulates.dispatched
  obtain ⟨_, _, sublist⟩ := simulates.left_of_streaming streaming
  refine ⟨_, .single stepped, ?_⟩
  rcases List.mem_append.mp (sublist.subset List.mem_cons_self) with inRows | isLast
  · obtain ⟨value, column, stamped⟩ := history.stamped row inRows
    obtain rfl : value = gcv := Option.some.inj (column.symm.trans decoded)
    obtain ⟨maxTS, notDone, childless⟩ := decodeRecord_of_stamped runtime stamped
    rw [childless, notDone]
    refine ⟨simulates.reaches_next stepped, ⟨rfl, ?_⟩, rfl, calls⟩
    have advanced := PartitionState.advance_resumeTimestamp reader.p row.timestamp
    rw [← maxTS] at advanced ⊢
    exact advanced.symm
  · obtain rfl := List.mem_singleton.mp isLast
    obtain rfl := simulates.nothing_after_last streaming
    obtain ⟨value, content, column, holds, announces⟩ := history.ends
    obtain rfl : value = gcv := Option.some.inj (column.symm.trans decoded)
    have done : (decodeRecord runtime value).done = true := by
      rw [(decodeRecord_grows runtime holds).done]
      simpa using announces
    rw [done]
    exact Reader.simulates_enqueueAll (simulates.reaches_next stepped) rfl rfl calls _ _ _

theorem enqueue {flushed : Bool} {child : PartitionState} {children : List PartitionState}
    {done : Bool} {rows : List StreamRow}
    (enqueueing : reader.phase = .enqueueing (child :: children) done rows) :
    ({ reader with queued := reader.queued ++ [child] }.enqueueAll children done flushed
      rows).Simulates runtime history start state := by
  have phase := simulates.phase
  rw [enqueueing] at phase
  rw [phase.1]
  apply Reader.simulates_enqueueAll simulates.reached phase.2
  · exact simulates.log
  · exact simulates.dispatched

theorem queryEnd {rows : List StreamRow} (streaming : reader.phase = .streaming rows)
    (how : QueryEnd) :
    ∃ next, Runs.Reaches (Resume.step StreamRow.timestamp history.all) state next ∧
      { reader with phase := how.phase }.Simulates runtime history start next := by
  obtain ⟨answer, cursor, _⟩ := simulates.left_of_streaming streaming
  have stepped : Resume.step StreamRow.timestamp history.all state .cut = some
      { state with answer := none } := by
    simp only [Resume.step, answer]
  refine ⟨_, .single stepped, simulates.reaches_next stepped, ?_, simulates.log,
    simulates.dispatched⟩
  cases how with
  | done => exact ⟨rfl, cursor⟩
  | error => exact ⟨rfl, cursor⟩
  | canceled => trivial
  | deadlineExceeded => trivial

/-- Each step of the reader is one of the resuming reader, or none. -/
theorem step {action : ReaderAction} {next : Reader}
    (stepped : reader.step runtime history.source action = some next) :
    ∃ nextState, Runs.Reaches (Resume.step StreamRow.timestamp history.all) state nextState ∧
      next.Simulates runtime history start nextState := by
  cases Reader.step_move stepped with
  | query resting => exact simulates.query resting
  | @skip flushed row rows streaming undecoded =>
      obtain ⟨_, _, sublist⟩ := simulates.left_of_streaming streaming
      rcases List.mem_append.mp (sublist.subset List.mem_cons_self) with inRows | isLast
      · obtain ⟨_, column, _⟩ := history.stamped row inRows
        cases column.symm.trans undecoded
      · obtain ⟨_, _, column, _⟩ := history.ends
        rw [← List.mem_singleton.mp isLast] at column
        cases column.symm.trans undecoded
  | receive streaming decoded => exact simulates.receive streaming decoded
  | enqueue enqueueing => exact ⟨state, ⟨[], rfl⟩, simulates.enqueue enqueueing⟩
  | queryEnd streaming => exact simulates.queryEnd streaming _
  | stop waiting =>
      exact ⟨state, ⟨[], rfl⟩, simulates.reached, trivial, simulates.log, simulates.dispatched⟩

end Reader.Simulates

theorem Reader.start_simulates (runtime : Runtime) (history : PartitionHistory)
    (p : PartitionState) : (Reader.start p).Simulates runtime history p.resumeTimestamp
      (.start p.resumeTimestamp) :=
  ⟨⟨[], rfl⟩, ⟨rfl, rfl⟩, rfl, rfl⟩

/-- Every run of the reader is one of the resuming reader. -/
theorem Reader.exists_simulated {p : PartitionState} {actions : List ReaderAction}
    (ran : Runs.run (Reader.step runtime history.source) (Reader.start p) actions = some reader) :
    ∃ state, reader.Simulates runtime history p.resumeTimestamp state := by
  obtain ⟨state, _, simulates⟩ := Simulation.run_simulated
    (fun _ simulates stepped => simulates.step stepped) (fun _ _ => trivial) ran
    (Reader.start_simulates runtime history p)
  exact ⟨state, simulates⟩

end Simulation

section Results

variable {runtime : Runtime} {history : PartitionHistory} {start : Int} {reader : Reader}
  {state : Resume.State StreamRow Int}

/-- A row that was read has been dispatched. -/
theorem dispatched_of_mem_read (runtime : Runtime) {read : List StreamRow} {row : StreamRow}
    (membership : row ∈ read) :
    Dispatched runtime (read.filterMap (StreamRow.call runtime)) row := by
  intro event inRow
  have calls : row.call runtime = some (row.number, row.events runtime) :=
    if_neg (by simpa using List.ne_nil_of_mem inRow)
  exact ⟨_, List.mem_filterMap.mpr ⟨row, membership, calls⟩, rfl, inRow⟩

namespace Reader.Simulates

variable (simulates : reader.Simulates runtime history start state)

include simulates

theorem dispatched_of_read {row : StreamRow} (read : row ∈ reader.read) :
    Dispatched runtime reader.dispatched row :=
  simulates.dispatched ▸ dispatched_of_mem_read runtime read

theorem read_of_finished (finished : reader.phase = .finished) {row : StreamRow}
    (membership : row ∈ history.all) (late : start ≤ row.timestamp) : row ∈ reader.read := by
  have exhausted := simulates.phase
  rw [finished] at exhausted
  exact simulates.log ▸ simulates.inv.complete exhausted membership late

/-- The calls of `dispatch` come in the order of the rows that were read. -/
theorem dispatched_inOrder :
    Resume.Justified (fun before call => ∀ earlier ∈ history.all, start ≤ earlier.timestamp →
      earlier.number < call.1 → Dispatched runtime before earlier) reader.dispatched := by
  intro before call after split earlier membership late front
  rw [simulates.dispatched] at split
  obtain ⟨front', back, readSplit, rfl, backCalls⟩ := List.filterMap_eq_append_iff.mp split
  obtain ⟨silent, row, rest, rfl, noCalls, calls, _⟩ := List.filterMap_eq_cons_iff.mp backCalls
  have number : call.1 = row.number := by
    unfold StreamRow.call at calls
    split at calls
    · cases calls
    · exact congrArg Prod.fst (Option.some.inj calls).symm
  rw [← simulates.log, ← List.append_assoc] at readSplit
  have read : earlier ∈ front' ++ silent :=
    simulates.inv.inOrder _ row rest readSplit earlier membership late (number ▸ front)
  have nothing : silent.filterMap (StreamRow.call runtime) = [] :=
    List.filterMap_eq_nil_iff.mpr noCalls
  have dispatched := dispatched_of_mem_read runtime read
  rwa [List.filterMap_append, nothing, List.append_nil] at dispatched

end Reader.Simulates

theorem Reader.step_resumeTimestamp_le {source : Int → List StreamRow} {next : Reader}
    {action : ReaderAction} (stepped : reader.step runtime source action = some next) :
    reader.p.resumeTimestamp ≤ next.p.resumeTimestamp := by
  cases Reader.step_move stepped with
  | query resting => exact le_refl _
  | skip streaming undecoded => exact le_refl _
  | receive streaming decoded =>
      rw [Reader.enqueueAll_p, Reader.receive, PartitionState.advance_resumeTimestamp]
      exact le_max_left _ _
  | enqueue enqueueing =>
      rw [Reader.enqueueAll_p]
  | queryEnd streaming => exact le_refl _
  | stop waiting => exact le_refl _

/-- Restarts lose nothing.  When the reader has finished, every event from its
start on has been dispatched; before a call of `dispatch` everything in front
of its row has been dispatched; and the resume timestamp never decreases. -/
theorem restarts_lose_nothing (runtime : Runtime) (history : PartitionHistory)
    (p : PartitionState) {actions : List ReaderAction} {reader : Reader}
    (ran : Runs.run (Reader.step runtime history.source) (Reader.start p) actions = some reader) :
    (reader.phase = .finished → ∀ row ∈ history.all, p.resumeTimestamp ≤ row.timestamp →
        Dispatched runtime reader.dispatched row) ∧
      Resume.Justified (fun before call => ∀ earlier ∈ history.all,
        p.resumeTimestamp ≤ earlier.timestamp → earlier.number < call.1 →
          Dispatched runtime before earlier) reader.dispatched ∧
      (Runs.visited (Reader.step runtime history.source) (Reader.start p) actions).Pairwise
        fun earlier later => earlier.p.resumeTimestamp ≤ later.p.resumeTimestamp := by
  obtain ⟨state, simulates⟩ := Reader.exists_simulated ran
  refine ⟨?_, simulates.dispatched_inOrder, ?_⟩
  · intro finished row membership late
    exact simulates.dispatched_of_read (simulates.read_of_finished finished membership late)
  · have grows : ∀ earlier action later,
        Reader.step runtime history.source earlier action = some later →
          earlier.p.resumeTimestamp ≤ later.p.resumeTimestamp :=
      fun _ _ _ stepped => Reader.step_resumeTimestamp_le stepped
    exact (Runs.visited_pairwise
      (fun earlier later : Reader => earlier.p.resumeTimestamp ≤ later.p.resumeTimestamp)
      (fun _ => le_refl _) le_trans grows _ _).2

/-! ## Restarts of the process -/

/-- Everything before the stored cursor has been read. -/
def Reader.CursorBehind (history : PartitionHistory) (start : Int) (reader : Reader) : Prop :=
  ∀ resume, reader.cursor = some resume → ∀ row ∈ history.all, start ≤ row.timestamp →
    row.timestamp < resume → row ∈ reader.read

/-- The cursor is stored for the rows that have been read when it is stored. -/
theorem Reader.enqueueAll_cursor (children : List PartitionState) (done flushed : Bool)
    (rows : List StreamRow) :
    (reader.enqueueAll children done flushed rows).read = reader.read ∧
      ((reader.enqueueAll children done flushed rows).cursor = reader.cursor ∨
        (reader.enqueueAll children done flushed rows).cursor = some reader.p.resumeTimestamp ∧
          (reader.enqueueAll children done flushed rows).phase =
            if done then .finished else .streaming rows) := by
  unfold Reader.enqueueAll
  split
  · cases flushed
    · exact ⟨rfl, .inl rfl⟩
    · exact ⟨rfl, .inr ⟨rfl, rfl⟩⟩
  · exact ⟨rfl, .inl rfl⟩

theorem Reader.Simulates.read_behind (simulates : reader.Simulates runtime history start state)
    {done : Bool} {rows : List StreamRow}
    (phase : reader.phase = if done then .finished else .streaming rows) {row : StreamRow}
    (membership : row ∈ history.all) (late : start ≤ row.timestamp)
    (below : row.timestamp < reader.p.resumeTimestamp) : row ∈ reader.read := by
  cases done with
  | true => exact simulates.read_of_finished phase membership late
  | false =>
      obtain ⟨_, cursor, _⟩ := simulates.left_of_streaming phase
      exact simulates.log ▸ simulates.inv.behind membership late (cursor ▸ below)

theorem Reader.CursorBehind.enqueueAll {children : List PartitionState} {done flushed : Bool}
    {rows : List StreamRow} (behind : reader.CursorBehind history start)
    (simulates : (reader.enqueueAll children done flushed rows).Simulates runtime history start
      state) : (reader.enqueueAll children done flushed rows).CursorBehind history start := by
  obtain ⟨read, kept | ⟨stored, phase⟩⟩ := reader.enqueueAll_cursor children done flushed rows
  · intro resume isStored
    rw [read]
    exact behind resume (kept ▸ isStored)
  · intro resume isStored row membership late below
    obtain rfl := Option.some.inj (stored.symm.trans isStored)
    rw [← Reader.enqueueAll_p reader children done flushed rows] at below
    exact simulates.read_behind phase membership late below

theorem Reader.CursorBehind.step {next : Reader} {action : ReaderAction}
    (behind : reader.CursorBehind history start)
    (stepped : reader.step runtime history.source action = some next)
    (simulates : next.Simulates runtime history start state) : next.CursorBehind history start := by
  cases Reader.step_move stepped with
  | query resting => exact behind
  | skip streaming undecoded => exact behind
  | @receive _ row _ gcv streaming decoded =>
      have received : (reader.receive runtime row gcv).CursorBehind history start :=
        fun resume stored other membership late below =>
          List.mem_append_left [row] (behind resume stored other membership late below)
      exact received.enqueueAll simulates
  | @enqueue _ child _ _ _ enqueueing =>
      have sent : { reader with queued := reader.queued ++ [child] }.CursorBehind history start :=
        behind
      exact sent.enqueueAll simulates
  | queryEnd streaming => exact behind
  | stop waiting => exact behind

theorem Reader.cursorBehind_of_run {p : PartitionState} {actions : List ReaderAction}
    (ran : Runs.run (Reader.step runtime history.source) (Reader.start p) actions = some reader) :
    reader.CursorBehind history p.resumeTimestamp := by
  have kept : ∀ before action next, Reader.step runtime history.source before action = some next →
      (∃ state, before.Simulates runtime history p.resumeTimestamp state) ∧
        before.CursorBehind history p.resumeTimestamp →
      (∃ state, next.Simulates runtime history p.resumeTimestamp state) ∧
        next.CursorBehind history p.resumeTimestamp := by
    intro before action next stepped both
    obtain ⟨⟨state, simulates⟩, behind⟩ := both
    obtain ⟨nextState, _, follows⟩ := simulates.step stepped
    exact ⟨⟨nextState, follows⟩, behind.step stepped follows⟩
  have initially : (Reader.start p).CursorBehind history p.resumeTimestamp := by
    intro resume stored
    cases stored
  exact (Runs.run_invariant kept ran ⟨⟨_, Reader.start_simulates runtime history p⟩, initially⟩).2

/-- A process that stops at any point and a later one that begins at the stored
cursor and comes to the end of the partition have dispatched everything
between them. -/
theorem stored_cursor_loses_nothing (runtime : Runtime) (history : PartitionHistory)
    (p : PartitionState) {actions others : List ReaderAction} {reader again : Reader}
    {cursors : Bytes → Option Int} {startTime : Int} {resumed : PartitionState}
    (ran : Runs.run (Reader.step runtime history.source) (Reader.start p) actions = some reader)
    (stored : reader.cursor.isSome) (loaded : cursors p.token = reader.cursor)
    (discovered : resumed ∈ initialPartitions cursors startTime [p])
    (ranAgain : Runs.run (Reader.step runtime history.source) (Reader.start resumed) others =
      some again) (finished : again.phase = .finished) :
    ∀ row ∈ history.all, p.resumeTimestamp ≤ row.timestamp →
      Dispatched runtime reader.dispatched row ∨ Dispatched runtime again.dispatched row := by
  intro row membership late
  obtain ⟨resume, isStored⟩ := Option.isSome_iff_exists.mp stored
  have resumes : resumed.resumeTimestamp = resume := by
    rw [List.mem_singleton.mp discovered]
    exact congrArg (Option.getD · startTime) (loaded.trans isStored)
  obtain ⟨state, simulates⟩ := Reader.exists_simulated ran
  obtain ⟨stateAgain, simulatesAgain⟩ := Reader.exists_simulated ranAgain
  by_cases below : row.timestamp < resume
  · left
    exact simulates.dispatched_of_read
      (Reader.cursorBehind_of_run ran resume isStored row membership late below)
  · right
    rw [resumes] at simulatesAgain
    exact simulatesAgain.dispatched_of_read
      (simulatesAgain.read_of_finished finished membership (not_lt.mp below))

end Results

/-! ## A partition that is read in three attempts -/

/-- A data change at 5, a heartbeat at 6, and the announcement of a child. -/
def shortHistory : PartitionHistory where
  rows := [⟨0, 5, some (insertRecord (nanoText 5) createdJSON)⟩,
    ⟨1, 6, some (heartbeatRow (nanoText 6))⟩]
  last := ⟨2, 7, some (childRow (nanoText 7) [ascii "child"])⟩
  stamped := by
    simp only [List.mem_cons, List.not_mem_nil, or_false, forall_eq_or_imp, forall_eq]
    exact ⟨⟨_, rfl, stamped_of_holds (insertRecord_holds (nanoText_denotes 5) _) (by decide)⟩,
      ⟨_, rfl, stamped_of_holds (heartbeatRow_holds (nanoText_denotes 6)) (by decide)⟩⟩
  ends := ⟨_, _, rfl, childRow_holds (nanoText_denotes 7) (by simp) (by decide), by simp⟩
  ordered := by simp [Resume.Ordered]

/-- The first attempt fails after the data change, the second ends after the
heartbeat. -/
def restartedRun : List ReaderAction :=
  [.query, .next false, .queryEnd .error,
    .query, .next false, .next true, .queryEnd .done,
    .query, .next false, .next false, .enqueue true]

set_option maxRecDepth 20000 in
theorem restartedRun_loses_nothing :
    ∃ reader, Runs.run (Reader.step createdRuntime shortHistory.source)
        (Reader.start ⟨ascii "parent", 4, 4⟩) restartedRun = some reader ∧
      reader.phase = .finished ∧ reader.dispatched.map Prod.fst = [0, 0] ∧
      ∀ row ∈ shortHistory.all, Dispatched createdRuntime reader.dispatched row := by
  have run : ∃ reader, Runs.run (Reader.step createdRuntime shortHistory.source)
      (Reader.start ⟨ascii "parent", 4, 4⟩) restartedRun = some reader ∧
        reader.phase = .finished ∧ reader.dispatched.map Prod.fst = [0, 0] := ⟨_, rfl, rfl, rfl⟩
  obtain ⟨reader, ran, finished, calls⟩ := run
  have late : ∀ row ∈ shortHistory.all, 4 ≤ row.timestamp := by
    simp [shortHistory, PartitionHistory.all]
  refine ⟨reader, ran, finished, calls, ?_⟩
  intro row membership
  exact (restarts_lose_nothing createdRuntime shortHistory _ ran).1 finished row membership
    (late row membership)

end SpannerEtcd
