import SpannerEtcd.ChangeStream.Dispatcher
import SpannerEtcd.ChangeStream.Restarts

/-!
# The whole change stream

Partitions end when they are split or merged, and their children take their
place, so the stream as a whole never ends.  At every instant each partition
that was announced waits, is being read, or was read to its end, and has then
handed over all of its events.

`readPartition` asks again when a query fails, but not when the error is
`Canceled` or `DeadlineExceeded`: it then gives the partition up, also while the
context is not done.  Nobody takes such a partition up again.

The trace keeps the readers that have returned.
-/

namespace SpannerEtcd

structure StreamTrace where
  system : StartSystem
  retired : List Reader

def StreamTrace.init (partitions : List PartitionState) : StreamTrace :=
  { system := .init partitions, retired := [] }

/-- The reader whose token an action drops from `active`. -/
def StartSystem.returning (system : StartSystem) : StartAction → Option Reader
  | .retire token => system.readers.find? fun reader => reader.p.token = token
  | _ => none

def StreamTrace.step (runtime : Runtime) (source : Bytes → Int → List StreamRow)
    (trace : StreamTrace) (action : StartAction) : Option StreamTrace :=
  (trace.system.step runtime source action).map fun next =>
    { system := next, retired := trace.retired ++ (trace.system.returning action).toList }

/-- The children that the last row of a partition announces. -/
def PartitionHistory.children (runtime : Runtime) (history : PartitionHistory) :
    List PartitionState :=
  match history.last.column with
  | some gcv => (decodeRecord runtime gcv).children
  | none => []

/-- The partitions that `Start` has found, and all that follow them. -/
inductive Discovered (runtime : Runtime) (histories : Bytes → PartitionHistory)
    (partitions : List PartitionState) : PartitionState → Prop where
  | initial {p : PartitionState} (found : p ∈ partitions) :
      Discovered runtime histories partitions p
  | child {parent p : PartitionState} (discovered : Discovered runtime histories partitions parent)
      (announced : p ∈ (histories parent.token).children runtime) :
      Discovered runtime histories partitions p

/-- The partition waits, its token has a reader, or a reader of its token has
come to the end of the partition. -/
def StreamTrace.Holds (trace : StreamTrace) (p : PartitionState) : Prop :=
  p ∈ trace.system.initial ∨ p ∈ trace.system.pending ∨ p.token ∈ trace.system.active ∨
    ∃ reader ∈ trace.retired, reader.p.token = p.token ∧ reader.phase = .finished

/-- A query ends with an error on which `readPartition` returns. -/
def StartAction.givesUp : StartAction → Bool
  | .read _ (.queryEnd how) => how.phase.over
  | _ => false

/-- What is left of the children of a reader's partition. -/
def Reader.Owes (holds : PartitionState → Prop) (children : List PartitionState)
    (reader : Reader) : Prop :=
  match reader.phase with
  | .enqueueing waiting _ _ =>
      waiting ⊆ children ∧ ∀ child ∈ children, child ∈ waiting ∨ holds child
  | .finished => ∀ child ∈ children, holds child
  | .resting | .streaming _ | .abandoned => True

section
variable {runtime : Runtime} {histories : Bytes → PartitionHistory}
  {partitions : List PartitionState}

/-! ## One reader -/

section
variable {history : PartitionHistory} {start : Int} {reader next : Reader}
  {state : Resume.State StreamRow Int} {holds after : PartitionState → Prop}

theorem Reader.owes_enqueueAll {children waiting : List PartitionState} {done flushed : Bool}
    {rows : List StreamRow} (announced : waiting ⊆ children)
    (kept : ∀ child ∈ children, child ∈ waiting ∨ holds child) :
    (reader.enqueueAll waiting done flushed rows).Owes holds children := by
  unfold Reader.enqueueAll
  split
  next empty =>
    have nothing := List.isEmpty_iff.mp empty
    cases done with
    | false => trivial
    | true =>
      intro child membership
      exact (kept child membership).resolve_left (by simp [nothing])
  next => exact ⟨announced, kept⟩

theorem Reader.Simulates.owes_receive (simulates : reader.Simulates runtime history start state)
    {flushed : Bool} {row : StreamRow} {rows : List StreamRow} {gcv : Value}
    (streaming : reader.phase = .streaming (row :: rows)) (decoded : row.column = some gcv) :
    ((reader.receive runtime row gcv).enqueueAll (decodeRecord runtime gcv).children
      (decodeRecord runtime gcv).done flushed rows).Owes holds (history.children runtime) := by
  obtain ⟨_, _, sublist⟩ := simulates.left_of_streaming streaming
  rcases List.mem_append.mp (sublist.subset List.mem_cons_self) with inRows | isLast
  · obtain ⟨value, column, stamped⟩ := history.stamped row inRows
    obtain rfl : value = gcv := Option.some.inj (column.symm.trans decoded)
    obtain ⟨_, notDone, childless⟩ := decodeRecord_of_stamped runtime stamped
    rw [childless, notDone]
    trivial
  · have children : history.children runtime = (decodeRecord runtime gcv).children := by
      rw [List.mem_singleton.mp isLast] at decoded
      rw [PartitionHistory.children, decoded]
    rw [children]
    exact Reader.owes_enqueueAll (List.Subset.refl _) fun child membership => .inl membership

/-- A reader sends the children that it still holds. -/
theorem Reader.Owes.step (owes : reader.Owes holds (history.children runtime))
    (simulates : reader.Simulates runtime history start state) {action : ReaderAction}
    (stepped : reader.step runtime history.source action = some next)
    (kept : ∀ child, holds child → after child)
    (sent : ∀ child ∈ reader.sends action, after child) :
    next.Owes after (history.children runtime) := by
  cases Reader.step_move stepped with
  | query resting => trivial
  | skip streaming undecoded => trivial
  | receive streaming decoded => exact simulates.owes_receive streaming decoded
  | @enqueue flushed first rest done rows enqueueing =>
    rw [Reader.Owes, enqueueing] at owes
    have sends : reader.sends (.enqueue flushed) = [first] := by rw [Reader.sends, enqueueing]
    apply Reader.owes_enqueueAll (List.subset_of_cons_subset owes.1)
    intro child membership
    rcases owes.2 child membership with waits | held
    · rcases List.mem_cons.mp waits with rfl | later
      · exact .inr (sent child (by rw [sends]; exact List.mem_singleton_self child))
      · exact .inl later
    · exact .inr (kept child held)
  | @queryEnd how rows streaming => cases how <;> trivial
  | stop waiting => trivial

theorem Reader.Owes.mono (owes : reader.Owes holds (history.children runtime))
    (kept : ∀ child, holds child → after child) :
    reader.Owes after (history.children runtime) := by
  unfold Reader.Owes at owes ⊢
  split
  next waiting done rows enqueueing =>
    rw [enqueueing] at owes
    exact ⟨owes.1, fun child membership => (owes.2 child membership).imp_right (kept child)⟩
  next finished =>
    rw [finished] at owes
    exact fun child membership => kept child (owes child membership)
  all_goals trivial

theorem Reader.finished_of_enqueueAll_over {children : List PartitionState} {done flushed : Bool}
    {rows : List StreamRow}
    (isOver : (reader.enqueueAll children done flushed rows).phase.over = true) :
    (reader.enqueueAll children done flushed rows).phase = .finished := by
  unfold Reader.enqueueAll at isOver ⊢
  split at isOver
  next empty =>
    rw [if_pos empty]
    cases done with
    | false => cases isOver
    | true => rfl
  next => cases isOver

/-- A reader that goes on until it has come to the end of its partition returns
nowhere else. -/
theorem Reader.finished_of_step {action : ReaderAction}
    (stepped : reader.step runtime history.source action = some next) (unstopped : action ≠ .stop)
    (patient : ∀ how, action = .queryEnd how → how.phase.over = false)
    (isOver : next.phase.over = true) : next.phase = .finished := by
  cases Reader.step_move stepped with
  | query | skip => cases isOver
  | receive | enqueue => exact Reader.finished_of_enqueueAll_over isOver
  | @queryEnd how rows streaming => exact absurd (isOver.symm.trans (patient how rfl)) (by decide)
  | stop waiting => exact absurd rfl unstopped

end

/-! ## What a step can be -/

/-- A step that leaves the context alone. -/
inductive StreamMove (runtime : Runtime) (source : Bytes → Int → List StreamRow)
    (trace : StreamTrace) : StartAction → StreamTrace → Prop where
  | enqueueInitial {p : PartitionState} {rest : List PartitionState}
      (left : trace.system.initial = p :: rest) :
      StreamMove runtime source trace .enqueueInitial
        { trace with
          system := { trace.system with initial := rest, pending := trace.system.pending ++ [p] } }
  | skip {p : PartitionState} {rest : List PartitionState}
      (first : trace.system.pending = p :: rest) (active : p.token ∈ trace.system.active) :
      StreamMove runtime source trace .dispatch
        { trace with system := { trace.system with pending := rest } }
  | start {p : PartitionState} {rest : List PartitionState}
      (first : trace.system.pending = p :: rest) :
      StreamMove runtime source trace .dispatch
        { trace with
          system := { trace.system with
            pending := rest
            readers := trace.system.readers ++ [Reader.start p]
            started := trace.system.started ++ [p.token] } }
  | read {token : Bytes} {action : ReaderAction} {reader next : Reader}
      (membership : reader ∈ trace.system.readers) (named : reader.p.token = token)
      (stepped : reader.step runtime (source token) action = some next)
      (unstopped : action ≠ .stop) :
      StreamMove runtime source trace (.read token action)
        { trace with
          system := { trace.system with
            pending := trace.system.pending ++ reader.sends action
            readers := trace.system.readers.map fun other =>
              if other.p.token = token then next else other } }
  | retire {token : Bytes} {reader : Reader} (membership : reader ∈ trace.system.readers)
      (named : reader.p.token = token) (isOver : reader.phase.over = true) :
      StreamMove runtime source trace (.retire token)
        { system := { trace.system with
            readers := trace.system.readers.filter fun other => other.p.token ≠ token }
          retired := trace.retired ++ [reader] }

theorem StreamTrace.step_move {source : Bytes → Int → List StreamRow} {trace next : StreamTrace}
    {action : StartAction} (stepped : trace.step runtime source action = some next)
    (uncanceled : next.system.canceled = false) :
    trace.system.canceled = false ∧ StreamMove runtime source trace action next := by
  obtain ⟨system, moved, rfl⟩ := Option.map_eq_some_iff.mp stepped
  cases action with
  | enqueueInitial =>
    cases StartSystem.step_move moved with
    | enqueueInitial left =>
      simp only [StartSystem.returning, Option.toList_none, List.append_nil]
      exact ⟨uncanceled, .enqueueInitial left⟩
  | abandonInitial =>
    simp only [StartSystem.step] at moved
    split at moved
    next canceled =>
      obtain rfl := Option.some.inj moved
      exact absurd (uncanceled.symm.trans canceled) (by decide)
    next => cases moved
  | dispatch =>
    simp only [StartSystem.returning, Option.toList_none, List.append_nil]
    simp only [StartSystem.step] at moved
    split at moved
    next => cases moved
    next p rest first =>
      split_ifs at moved with dispatching active
      all_goals obtain rfl := Option.some.inj moved
      · exact ⟨uncanceled, .skip first (by simpa [StartSystem.active] using active)⟩
      · exact ⟨uncanceled, .start first⟩
  | read token action =>
    simp only [StartSystem.returning, Option.toList_none, List.append_nil]
    simp only [StartSystem.step] at moved
    split at moved
    next => cases moved
    next reader found =>
      split at moved
      next => cases moved
      next after readerStepped =>
        split_ifs at moved with permitted
        obtain rfl := Option.some.inj moved
        refine ⟨uncanceled, .read (List.mem_of_find?_eq_some found)
          (by simpa using List.find?_some found) readerStepped fun stopping => ?_⟩
        exact absurd (uncanceled.symm.trans (permitted.1 stopping)) (by decide)
  | retire token =>
    simp only [StartSystem.step] at moved
    split at moved
    next => cases moved
    next reader found =>
      split_ifs at moved with returned
      obtain rfl := Option.some.inj moved
      simp only [StartSystem.returning, found, Option.toList_some]
      exact ⟨uncanceled, .retire (List.mem_of_find?_eq_some found)
        (by simpa using List.find?_some found) returned⟩
  | cancel =>
    obtain rfl := Option.some.inj moved
    cases uncanceled
  | leave =>
    simp only [StartSystem.step] at moved
    split at moved
    next canceled =>
      obtain rfl := Option.some.inj moved
      exact absurd (uncanceled.symm.trans canceled) (by decide)
    next => cases moved

/-! ## What every step keeps -/

variable (runtime histories partitions) in
/-- The reader works on a discovered partition. -/
structure Reader.Traced (holds : PartitionState → Prop) (reader : Reader) : Prop where
  origin : ∃ p state, Discovered runtime histories partitions p ∧ p.token = reader.p.token ∧
    reader.Simulates runtime (histories reader.p.token) p.resumeTimestamp state
  owes : reader.Owes holds ((histories reader.p.token).children runtime)

variable (runtime histories partitions) in
structure StreamTrace.Inv (trace : StreamTrace) : Prop where
  found : ∀ p ∈ partitions, trace.Holds p
  waiting : ∀ p ∈ trace.system.initial ++ trace.system.pending,
    Discovered runtime histories partitions p
  going : ∀ reader ∈ trace.system.readers, reader.phase.over = true → reader.phase = .finished
  returned : ∀ reader ∈ trace.retired, reader.phase = .finished
  readers : ∀ reader ∈ trace.system.readers ++ trace.retired,
    reader.Traced runtime histories partitions trace.Holds

theorem Reader.Traced.mono {holds after : PartitionState → Prop} {reader : Reader}
    (traced : reader.Traced runtime histories partitions holds)
    (kept : ∀ p, holds p → after p) : reader.Traced runtime histories partitions after :=
  ⟨traced.origin, traced.owes.mono kept⟩

theorem Reader.traced_start {p : PartitionState} (holds : PartitionState → Prop)
    (discovered : Discovered runtime histories partitions p) :
    (Reader.start p).Traced runtime histories partitions holds :=
  ⟨⟨p, _, discovered, rfl, Reader.start_simulates runtime (histories p.token) p⟩, trivial⟩

theorem Reader.Traced.step {holds after : PartitionState → Prop} {reader next : Reader}
    (traced : reader.Traced runtime histories partitions holds) {action : ReaderAction}
    (stepped : reader.step runtime (histories reader.p.token).source action = some next)
    (kept : ∀ p, holds p → after p) (sent : ∀ child ∈ reader.sends action, after child) :
    next.Traced runtime histories partitions after := by
  obtain ⟨p, state, discovered, token, simulates⟩ := traced.origin
  obtain ⟨following, _, follows⟩ := simulates.step stepped
  have same := Reader.step_token stepped
  refine ⟨⟨p, following, discovered, token.trans same.symm, ?_⟩, ?_⟩
  · rwa [same]
  · rw [same]
    exact traced.owes.step simulates stepped kept sent

/-- What a reader sends was announced by its partition. -/
theorem Reader.Traced.discovered_of_sends {holds : PartitionState → Prop} {reader : Reader}
    (traced : reader.Traced runtime histories partitions holds) {action : ReaderAction}
    {child : PartitionState} (sent : child ∈ reader.sends action) :
    Discovered runtime histories partitions child := by
  obtain ⟨p, _, discovered, token, _⟩ := traced.origin
  have owes := traced.owes
  cases action with
  | enqueue flushed =>
    rw [Reader.Owes] at owes
    simp only [Reader.sends] at sent
    split at sent
    next first rest done rows enqueueing =>
      rw [enqueueing] at owes
      rw [List.mem_singleton.mp sent]
      exact .child discovered (token ▸ owes.1 List.mem_cons_self)
    next => cases sent
  | query | next | queryEnd | stop => cases sent

/-- Nothing that was announced gets lost as long as no reader gives up. -/
theorem StreamMove.holds {source : Bytes → Int → List StreamRow} {trace next : StreamTrace}
    {action : StartAction} (move : StreamMove runtime source trace action next)
    (going : ∀ reader ∈ trace.system.readers, reader.phase.over = true → reader.phase = .finished)
    {p : PartitionState} (held : trace.Holds p) : next.Holds p := by
  cases move with
  | @enqueueInitial first rest left =>
    rcases held with waits | waits | active | returned
    · rw [left] at waits
      rcases List.mem_cons.mp waits with rfl | later
      · exact .inr (.inl (List.mem_append_right _ (List.mem_singleton_self p)))
      · exact .inl later
    · exact .inr (.inl (List.mem_append_left _ waits))
    · exact .inr (.inr (.inl active))
    · exact .inr (.inr (.inr returned))
  | @skip first rest waiting running =>
    rcases held with waits | waits | active | returned
    · exact .inl waits
    · rw [waiting] at waits
      rcases List.mem_cons.mp waits with rfl | later
      · exact .inr (.inr (.inl running))
      · exact .inr (.inl later)
    · exact .inr (.inr (.inl active))
    · exact .inr (.inr (.inr returned))
  | @start first rest waiting =>
    have grown : ∀ token, token ∈ trace.system.active ∨ token = first.token →
        token ∈ (trace.system.readers ++ [Reader.start first]).map
          fun reader => reader.p.token := by
      intro token running
      rw [List.map_append, List.mem_append]
      exact running.imp_right fun same => List.mem_singleton.mpr same
    rcases held with waits | waits | active | returned
    · exact .inl waits
    · rw [waiting] at waits
      rcases List.mem_cons.mp waits with rfl | later
      · exact .inr (.inr (.inl (grown _ (.inr rfl))))
      · exact .inr (.inl later)
    · exact .inr (.inr (.inl (grown _ (.inl active))))
    · exact .inr (.inr (.inr returned))
  | @read token action reader after membership named stepped unstopped =>
    have kept : after.p.token = token := by rw [Reader.step_token stepped, named]
    rcases held with waits | waits | active | returned
    · exact .inl waits
    · exact .inr (.inl (List.mem_append_left _ waits))
    · refine .inr (.inr (.inl ?_))
      rwa [StartSystem.active, active_replace kept]
    · exact .inr (.inr (.inr returned))
  | @retire token reader membership named isOver =>
    rcases held with waits | waits | active | ⟨earlier, returned, atEnd⟩
    · exact .inl waits
    · exact .inr (.inl waits)
    · by_cases same : p.token = token
      · have finished := going reader membership isOver
        refine .inr (.inr (.inr ⟨reader, ?_, named.trans same.symm, finished⟩))
        exact List.mem_append_right _ (List.mem_singleton_self reader)
      · refine .inr (.inr (.inl ?_))
        rw [StartSystem.active, active_retire]
        exact List.mem_filter.mpr ⟨active, decide_eq_true same⟩
    · exact .inr (.inr (.inr ⟨earlier, List.mem_append_left _ returned, atEnd⟩))

theorem StreamTrace.init_inv : (StreamTrace.init partitions).Inv runtime histories partitions where
  found := fun p membership => .inl membership
  waiting := fun p membership => .initial (by simpa [init, StartSystem.init] using membership)
  going := by simp [init, StartSystem.init]
  returned := by simp [init]
  readers := by simp [init, StartSystem.init]

theorem StreamTrace.Inv.move {trace next : StreamTrace} {action : StartAction}
    (inv : trace.Inv runtime histories partitions) (patient : action.givesUp = false)
    (move : StreamMove runtime (fun token => (histories token).source) trace action next) :
    next.Inv runtime histories partitions := by
  have kept (p : PartitionState) : trace.Holds p → next.Holds p := move.holds inv.going
  have mono (reader : Reader) (membership : reader ∈ trace.system.readers ++ trace.retired) :
      reader.Traced runtime histories partitions next.Holds :=
    (inv.readers reader membership).mono kept
  refine ⟨fun p membership => kept p (inv.found p membership), ?_, ?_, ?_, ?_⟩
  · intro p membership
    cases move with
    | enqueueInitial left =>
      apply inv.waiting
      rw [left]
      simp only [List.mem_append, List.mem_cons] at membership ⊢
      tauto
    | skip first active =>
      apply inv.waiting
      rw [first]
      simp only [List.mem_append, List.mem_cons] at membership ⊢
      tauto
    | start first =>
      apply inv.waiting
      rw [first]
      simp only [List.mem_append, List.mem_cons] at membership ⊢
      tauto
    | read reads named stepped unstopped =>
      rw [← List.append_assoc] at membership
      rcases List.mem_append.mp membership with waits | sent
      · exact inv.waiting p waits
      · exact (inv.readers _ (List.mem_append_left _ reads)).discovered_of_sends sent
    | retire reads named isOver => exact inv.waiting p membership
  · intro later membership
    cases move with
    | enqueueInitial | skip => exact inv.going later membership
    | start first =>
      rcases List.mem_append.mp membership with old | fresh
      · exact inv.going later old
      · rw [List.mem_singleton.mp fresh]
        rintro ⟨⟩
    | read reads named stepped unstopped =>
      obtain ⟨before, reading, rfl⟩ := List.mem_map.mp membership
      split
      · apply Reader.finished_of_step stepped unstopped
        rintro how rfl
        exact patient
      · exact inv.going before reading
    | retire => exact inv.going later (List.mem_filter.mp membership).1
  · intro later membership
    cases move with
    | enqueueInitial | skip | start | read => exact inv.returned later membership
    | @retire token reader reads named isOver =>
      rcases List.mem_append.mp membership with earlier | fresh
      · exact inv.returned later earlier
      · rw [List.mem_singleton.mp fresh]
        exact inv.going reader reads isOver
  · intro later membership
    cases move with
    | enqueueInitial | skip => exact mono later membership
    | @start p rest first =>
      simp only [List.mem_append, List.mem_singleton] at membership
      rcases membership with (old | rfl) | returned
      · exact mono later (List.mem_append_left _ old)
      · apply Reader.traced_start
        apply inv.waiting
        rw [first]
        exact List.mem_append_right _ List.mem_cons_self
      · exact mono later (List.mem_append_right _ returned)
    | @read token action reader after reads named stepped unstopped =>
      subst named
      rcases List.mem_append.mp membership with reading | returned
      · obtain ⟨before, wasReading, rfl⟩ := List.mem_map.mp reading
        split
        · apply (inv.readers reader (List.mem_append_left _ reads)).step stepped kept
          exact fun child sent => .inr (.inl (List.mem_append_right _ sent))
        · exact mono before (List.mem_append_left _ wasReading)
      · exact mono later (List.mem_append_right _ returned)
    | @retire token reader reads named isOver =>
      simp only [List.mem_append, List.mem_filter, List.mem_singleton] at membership
      rcases membership with ⟨reading, _⟩ | returned | rfl
      · exact mono later (List.mem_append_left _ reading)
      · exact mono later (List.mem_append_right _ returned)
      · exact mono later (List.mem_append_left _ reads)

-- After a query that has run into a deadline nobody reads the partition.
example : ∃ trace, Runs.run (StreamTrace.step createdRuntime fun _ => shortHistory.source)
      (.init [⟨ascii "parent", 4, 4⟩])
      [.enqueueInitial, .dispatch, .read (ascii "parent") .query,
        .read (ascii "parent") (.queryEnd .deadlineExceeded), .retire (ascii "parent")] =
        some trace ∧
      trace.system.initial = [] ∧ trace.system.pending = [] ∧ trace.system.active = [] ∧
      trace.system.canceled = false :=
  ⟨_, rfl, rfl, rfl, rfl, rfl⟩

/-! ## The bounded channel -/

section
variable {source : Bytes → Int → List StreamRow} {system next : StartSystem} {action : StartAction}

/-- A reader that waits for room has something to send. -/
def Reader.Sending (reader : Reader) : Prop :=
  ∀ children done rows, reader.phase = .enqueueing children done rows → children ≠ []

structure StartSystem.Sound (system : StartSystem) : Prop where
  room : system.pending.length ≤ partitionWorkersBuf
  looping : system.canceled = false → system.dispatching = true
  sending : ∀ reader ∈ system.readers, reader.Sending

theorem Reader.sending_enqueueAll {reader : Reader} {children : List PartitionState}
    {done flushed : Bool} {rows : List StreamRow} :
    (reader.enqueueAll children done flushed rows).Sending := by
  intro waiting finishing rest enqueueing
  unfold Reader.enqueueAll at enqueueing
  split at enqueueing
  · cases done <;> cases enqueueing
  next nonempty =>
    cases enqueueing
    simpa using nonempty

theorem Reader.sending_of_step {answers : Int → List StreamRow} {reader after : Reader}
    {taken : ReaderAction} (stepped : reader.step runtime answers taken = some after) :
    after.Sending := by
  cases Reader.step_move stepped with
  | query | skip | stop => rintro _ _ _ ⟨⟩
  | receive | enqueue => exact Reader.sending_enqueueAll
  | @queryEnd how rows streaming => cases how <;> rintro _ _ _ ⟨⟩

theorem StartSystem.room_of_step (stepped : system.step runtime source action = some next)
    (room : system.pending.length ≤ partitionWorkersBuf) :
    next.pending.length ≤ partitionWorkersBuf := by
  cases action with
  | enqueueInitial =>
    simp only [StartSystem.step] at stepped
    split at stepped
    next => cases stepped
    next p rest left =>
      split_ifs at stepped with free
      obtain rfl := Option.some.inj stepped
      rw [List.length_append, List.length_singleton]
      exact free
  | dispatch =>
    cases StartSystem.step_move stepped with
    | skip first | start first =>
      rw [first, List.length_cons] at room
      exact Nat.le_of_succ_le room
  | read token taken =>
    simp only [StartSystem.step] at stepped
    split at stepped
    next => cases stepped
    next reader found =>
      split at stepped
      next => cases stepped
      next after moved =>
        split_ifs at stepped with permitted
        obtain rfl := Option.some.inj stepped
        exact permitted.2
  | abandonInitial | retire | cancel | leave =>
    cases StartSystem.step_move stepped
    exact room

theorem StartSystem.looping_of_step (stepped : system.step runtime source action = some next)
    (looping : system.canceled = false → system.dispatching = true) :
    next.canceled = false → next.dispatching = true := by
  cases action with
  | leave =>
    simp only [StartSystem.step] at stepped
    split_ifs at stepped with canceled
    obtain rfl := Option.some.inj stepped
    exact fun uncanceled => absurd (uncanceled.symm.trans canceled) (by decide)
  | cancel =>
    cases StartSystem.step_move stepped
    rintro ⟨⟩
  | enqueueInitial | abandonInitial | dispatch | read | retire =>
    cases StartSystem.step_move stepped <;> exact looping

theorem StartSystem.Sound.step (sound : system.Sound)
    (stepped : system.step runtime source action = some next) : next.Sound := by
  refine ⟨StartSystem.room_of_step stepped sound.room,
    StartSystem.looping_of_step stepped sound.looping, ?_⟩
  intro later membership
  cases StartSystem.step_move stepped with
  | enqueueInitial | abandonInitial | skip | cancel | leave => exact sound.sending later membership
  | start first idle =>
    rcases List.mem_append.mp membership with old | fresh
    · exact sound.sending later old
    · rw [List.mem_singleton.mp fresh]
      rintro _ _ _ ⟨⟩
  | read reads named moved =>
    obtain ⟨before, reading, rfl⟩ := List.mem_map.mp membership
    split
    · exact Reader.sending_of_step moved
    · exact sound.sending before reading
  | retire => exact sound.sending later (List.mem_filter.mp membership).1

theorem StartSystem.sound_init : (StartSystem.init partitions).Sound where
  room := Nat.zero_le _
  looping := fun _ => rfl
  sending := by simp [StartSystem.init]

/-- The action can happen now, or as soon as one partition has been taken out of
the channel. -/
def StartSystem.CanSoon (runtime : Runtime) (source : Bytes → Int → List StreamRow)
    (system : StartSystem) (action : StartAction) : Prop :=
  (system.step runtime source action).isSome = true ∨
    ∃ next, system.step runtime source .dispatch = some next ∧
      (next.step runtime source action).isSome = true

/-- A step of a reader that does not need the context to be done. -/
def StartAction.Drives (token : Bytes) (action : StartAction) : Prop :=
  action = .retire token ∨ ∃ taken, taken ≠ .stop ∧ action = .read token taken

theorem StartSystem.step_read_isSome {token : Bytes} {reader after : Reader} {taken : ReaderAction}
    (found : system.readers.find? (fun reader => reader.p.token = token) = some reader)
    (stepped : reader.step runtime (source token) taken = some after) (unstopped : taken ≠ .stop)
    (room : (system.pending ++ reader.sends taken).length ≤ partitionWorkersBuf) :
    (system.step runtime source (.read token taken)).isSome = true := by
  simp only [StartSystem.step, found, stepped]
  rw [if_pos ⟨fun stopping => absurd stopping unstopped, room⟩]
  rfl

/-- The dispatcher takes a partition out, and the readers stay. -/
theorem StartSystem.Sound.dispatches (sound : system.Sound) (uncanceled : system.canceled = false)
    {p : PartitionState} {rest : List PartitionState} (first : system.pending = p :: rest) :
    ∃ next, system.step runtime source .dispatch = some next ∧ next.pending = rest ∧
      next.initial = system.initial ∧
      ∃ started, next.readers = system.readers ++ started := by
  simp only [StartSystem.step, first, sound.looping uncanceled, if_true]
  split_ifs
  · exact ⟨_, rfl, rfl, rfl, [], (List.append_nil _).symm⟩
  · exact ⟨_, rfl, rfl, rfl, [Reader.start p], rfl⟩

theorem StartSystem.Sound.drives (sound : system.Sound) (uncanceled : system.canceled = false)
    {token : Bytes} {reader : Reader}
    (found : system.readers.find? (fun reader => reader.p.token = token) = some reader) :
    ∃ action, StartAction.Drives token action ∧ system.CanSoon runtime source action := by
  have reads {taken : ReaderAction} {after : Reader}
      (stepped : reader.step runtime (source token) taken = some after) (unstopped : taken ≠ .stop)
      (silent : reader.sends taken = []) :
      ∃ action, StartAction.Drives token action ∧ system.CanSoon runtime source action := by
    refine ⟨.read token taken, .inr ⟨taken, unstopped, rfl⟩, .inl ?_⟩
    apply StartSystem.step_read_isSome found stepped unstopped
    rw [silent, List.append_nil]
    exact sound.room
  cases phase : reader.phase with
  | resting =>
    have stepped : ∃ after, reader.step runtime (source token) .query = some after := by
      simp [Reader.step, phase]
    exact reads stepped.choose_spec (by decide) rfl
  | streaming rows =>
    cases rows with
    | nil =>
      have stepped : ∃ after, reader.step runtime (source token) (.queryEnd .done) =
          some after := by
        simp [Reader.step, phase]
      exact reads stepped.choose_spec (by decide) rfl
    | cons row rest =>
      have stepped : ∃ after, reader.step runtime (source token) (.next false) = some after := by
        simp only [Reader.step, phase]
        split <;> exact ⟨_, rfl⟩
      exact reads stepped.choose_spec (by decide) rfl
  | finished | abandoned =>
    refine ⟨.retire token, .inl rfl, .inl ?_⟩
    simp only [StartSystem.step, found, phase, ReaderPhase.over, if_true]
    rfl
  | enqueueing children done rows =>
    obtain ⟨child, others, rfl⟩ := List.exists_cons_of_ne_nil
      (sound.sending reader (List.mem_of_find?_eq_some found) _ _ _ phase)
    have sends : reader.sends (.enqueue false) = [child] := by rw [Reader.sends, phase]
    have stepped : ∃ after, reader.step runtime (source token) (.enqueue false) = some after := by
      simp [Reader.step, phase]
    refine ⟨.read token (.enqueue false), .inr ⟨_, by decide, rfl⟩, ?_⟩
    by_cases free : system.pending.length < partitionWorkersBuf
    · refine .inl (StartSystem.step_read_isSome found stepped.choose_spec (by decide) ?_)
      rw [sends, List.length_append]
      exact free
    · have full : system.pending.length = partitionWorkersBuf :=
        le_antisymm sound.room (not_lt.mp free)
      obtain ⟨p, rest, first⟩ := List.exists_cons_of_length_eq_add_one full
      obtain ⟨after, dispatched, pending, _, started, readers⟩ :=
        sound.dispatches uncanceled first
      refine .inr ⟨after, dispatched, ?_⟩
      apply StartSystem.step_read_isSome _ stepped.choose_spec (by decide)
      · rw [sends, pending, List.length_append, List.length_singleton, ← List.length_cons (a := p),
          ← first]
        exact sound.room
      · rw [readers, List.find?_append, found]
        rfl

/-- The channel of 64 partitions blocks nobody for good.  As long as the context
is not done, the dispatcher can take out whatever the channel holds, and every
reader, as well as the goroutine that enqueues the first partitions, can take
its next step at once or after one partition has been taken out. -/
theorem start_never_deadlocks (runtime : Runtime) (source : Bytes → Int → List StreamRow)
    (partitions : List PartitionState) {actions : List StartAction}
    (ran : Runs.run (StartSystem.step runtime source) (.init partitions) actions = some system)
    (uncanceled : system.canceled = false) :
    (system.pending ≠ [] → (system.step runtime source .dispatch).isSome = true) ∧
      (system.initial ≠ [] → system.CanSoon runtime source .enqueueInitial) ∧
      ∀ token ∈ system.active, ∃ action, StartAction.Drives token action ∧
        system.CanSoon runtime source action := by
  have sound : system.Sound := Runs.run_invariant
    (fun _ _ _ stepped standing => StartSystem.Sound.step standing stepped) ran
    StartSystem.sound_init
  refine ⟨?_, ?_, ?_⟩
  · intro waits
    obtain ⟨p, rest, first⟩ := List.exists_cons_of_ne_nil waits
    obtain ⟨after, dispatched, _⟩ := sound.dispatches uncanceled first
    rw [dispatched]
    rfl
  · intro left
    obtain ⟨p, others, initial⟩ := List.exists_cons_of_ne_nil left
    by_cases free : system.pending.length < partitionWorkersBuf
    · refine .inl ?_
      simp only [StartSystem.step, initial, if_pos free, Option.isSome_some]
    · have full : system.pending.length = partitionWorkersBuf :=
        le_antisymm sound.room (not_lt.mp free)
      obtain ⟨first, rest, pending⟩ := List.exists_cons_of_length_eq_add_one full
      obtain ⟨after, dispatched, shorter, kept, _⟩ := sound.dispatches uncanceled pending
      refine .inr ⟨after, dispatched, ?_⟩
      have room : after.pending.length < partitionWorkersBuf := by
        rw [shorter, ← full, pending]
        exact Nat.lt_succ_self _
      simp only [StartSystem.step, kept, initial, if_pos room, Option.isSome_some]
  · intro token active
    obtain ⟨reader, reads, named⟩ := List.mem_map.mp active
    have found : (system.readers.find? fun reader => reader.p.token = token).isSome = true :=
      List.find?_isSome.mpr ⟨reader, reads, by simpa using named⟩
    obtain ⟨first, isFirst⟩ := Option.isSome_iff_exists.mp found
    exact sound.drives uncanceled isFirst

end

end

/-! ## A partition and its child -/

set_option maxRecDepth 20000 in
theorem startParents_go_on :
    ∃ system, Runs.run (StartSystem.step createdRuntime mergeSource) (.init mergeParents)
        startParents = some system ∧ system.active = [ascii "a", ascii "b"] ∧
      ∀ token ∈ system.active, ∃ action, StartAction.Drives token action ∧
        system.CanSoon createdRuntime mergeSource action := by
  have run : ∃ system, Runs.run (StartSystem.step createdRuntime mergeSource) (.init mergeParents)
      startParents = some system ∧ system.active = [ascii "a", ascii "b"] ∧
        system.canceled = false := ⟨_, rfl, rfl, rfl⟩
  obtain ⟨system, ran, active, uncanceled⟩ := run
  exact ⟨system, ran, active,
    (start_never_deadlocks createdRuntime mergeSource mergeParents ran uncanceled).2.2⟩

end SpannerEtcd
