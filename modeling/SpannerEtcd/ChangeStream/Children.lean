import SpannerEtcd.ChangeStream.Reader

/-!
# The children of a partition

A partition is taken to have ended at the first row that announces children,
and the discovery of the first partitions stops there as well.  What later
rows announce is lost.
-/

namespace SpannerEtcd

/-- The row carries this content. -/
def Carries (content : RowContent) (row : StreamRow) : Prop :=
  ∃ gcv, row.column = some gcv ∧ RowHolds content gcv

/-- Some row announces a token with a start. -/
def Announced (contents : List RowContent) (announcement : Bytes × Int) : Prop :=
  ∃ content ∈ contents, announcement ∈ content.announcements.flatten

/-- What the first row announces that announces anything. -/
def firstAnnounced : List RowContent → List (Bytes × Int)
  | [] => []
  | content :: later =>
      if content.announcements.isEmpty then firstAnnounced later
      else content.announcements.flatten

/-- A reader that comes to the end of the partition in this answer has enqueued
every child that the answer announces. -/
def KeepsChildren (runtime : Runtime) (contents : List RowContent) (rows : List StreamRow) : Prop :=
  ∀ source reader actions final, reader.phase = .streaming rows →
    ReaderAction.query ∉ actions →
    Runs.run (Reader.step runtime source) reader actions = some final →
    final.phase = .finished →
    ∀ announcement, Announced contents announcement → announced announcement ∈ final.queued

/-- A discovery that succeeds leads to every partition that its answer
announces, to be read from the cursor that is stored for it or else from the
common start. -/
def DiscoversChildren (runtime : Runtime) (contents : List RowContent) (rows : List StreamRow) :
    Prop :=
  ∀ failed partitions, queryInitialPartitions runtime rows failed = .ok partitions →
    ∀ cursors startTime announcement, Announced contents announcement →
      { announced announcement with
        resumeTimestamp := (cursors announcement.1).getD startTime } ∈
        initialPartitions cursors startTime partitions

/-- A discovery that succeeds leads to every partition that its answer
announces, to be read from the announced start. -/
def DiscoversFromStart (runtime : Runtime) (cursors : Bytes → Option Int) (startTime : Int)
    (contents : List RowContent) (rows : List StreamRow) : Prop :=
  ∀ failed partitions, queryInitialPartitions runtime rows failed = .ok partitions →
    ∀ announcement, Announced contents announcement →
      announced announcement ∈ initialPartitions cursors startTime partitions

/-! ## Reading one answer -/

theorem announced_injective : Function.Injective announced := by
  intro first second same
  exact Prod.ext (congrArg PartitionState.token same) (congrArg PartitionState.startTimestamp same)

/-- Where a reader stands in an answer, and what it has enqueued since
`before`. -/
def Reader.Reading (contents : List RowContent) (before : List PartitionState)
    (reader : Reader) : Prop :=
  match reader.phase with
  | .streaming rows => ∃ rest, List.Forall₂ Carries rest rows ∧
      firstAnnounced rest = firstAnnounced contents ∧ reader.queued = before
  | .enqueueing children done _ => done = true ∧
      reader.queued ++ children = before ++ (firstAnnounced contents).map announced
  | .finished => reader.queued = before ++ (firstAnnounced contents).map announced
  | .resting | .abandoned => True

section

variable {runtime : Runtime} {contents : List RowContent} {before : List PartitionState}
  {reader : Reader}

theorem Reader.reading_enqueueAll {children : List PartitionState}
    (total : reader.queued ++ children = before ++ (firstAnnounced contents).map announced)
    (flushed : Bool) (rows : List StreamRow) :
    (reader.enqueueAll children true flushed rows).Reading contents before := by
  unfold Reader.enqueueAll
  split
  next empty =>
    rw [List.isEmpty_iff.mp empty, List.append_nil] at total
    exact total
  next => exact ⟨rfl, total⟩

theorem Reader.Reading.receive {flushed : Bool} {row : StreamRow} {rows : List StreamRow}
    {gcv : Value} (reading : reader.Reading contents before)
    (streaming : reader.phase = .streaming (row :: rows)) (decoded : row.column = some gcv) :
    ((reader.receive runtime row gcv).enqueueAll (decodeRecord runtime gcv).children
      (decodeRecord runtime gcv).done flushed rows).Reading contents before := by
  rw [Reader.Reading, streaming] at reading
  obtain ⟨rest, carries, first, queued⟩ := reading
  cases carries with
  | @cons content _ rest _ head tail =>
      obtain ⟨value, column, holds⟩ := head
      obtain rfl : value = gcv := Option.some.inj (column.symm.trans decoded)
      have done := (decodeRecord_grows runtime holds).done
      have children := (decodeRecord_grows runtime holds).children
      rw [firstAnnounced] at first
      by_cases quiet : content.announcements.isEmpty = true
      · rw [if_pos quiet] at first
        rw [quiet] at done
        rw [List.isEmpty_iff.mp quiet] at children
        rw [done, children]
        exact ⟨rest, tail, first, queued⟩
      · rw [if_neg quiet] at first
        rw [Bool.not_eq_true] at quiet
        rw [quiet] at done
        rw [done, children]
        apply Reader.reading_enqueueAll
        rw [← first, ← queued]
        rfl

theorem Reader.Reading.step {source : Int → List StreamRow} {action : ReaderAction}
    {next : Reader} (reading : reader.Reading contents before) (noQuery : action ≠ .query)
    (stepped : reader.step runtime source action = some next) : next.Reading contents before := by
  cases Reader.step_move stepped with
  | query resting => exact absurd rfl noQuery
  | skip streaming undecoded =>
      rw [Reader.Reading, streaming] at reading
      obtain ⟨rest, carries, _, _⟩ := reading
      cases carries with
      | cons head tail =>
          obtain ⟨_, column, _⟩ := head
          cases column.symm.trans undecoded
  | receive streaming decoded => exact reading.receive streaming decoded
  | enqueue enqueueing =>
      rw [Reader.Reading, enqueueing] at reading
      obtain ⟨rfl, total⟩ := reading
      apply Reader.reading_enqueueAll
      rwa [List.append_assoc]
  | @queryEnd how rows streaming => cases how <;> trivial
  | stop waiting => trivial

theorem Reader.Reading.run {source : Int → List StreamRow} {actions : List ReaderAction}
    {final : Reader} (reading : reader.Reading contents before) (noQuery : .query ∉ actions)
    (ran : Runs.run (Reader.step runtime source) reader actions = some final) :
    final.Reading contents before := by
  induction actions generalizing reader with
  | nil =>
      simp only [Runs.run_nil, Option.some.injEq] at ran
      exact ran ▸ reading
  | cons action rest inductionHypothesis =>
      obtain ⟨next, stepped, finished⟩ := Runs.run_cons_eq_some.mp ran
      rw [List.mem_cons, not_or] at noQuery
      exact inductionHypothesis (reading.step (Ne.symm noQuery.1) stepped) noQuery.2 finished

/-- A reader that finishes with an answer has enqueued what its first row of
children announces. -/
theorem queued_of_finished {source : Int → List StreamRow} {rows : List StreamRow}
    (carries : List.Forall₂ Carries contents rows) {actions : List ReaderAction} {final : Reader}
    (streaming : reader.phase = .streaming rows) (noQuery : .query ∉ actions)
    (ran : Runs.run (Reader.step runtime source) reader actions = some final)
    (finished : final.phase = .finished) :
    final.queued = reader.queued ++ (firstAnnounced contents).map announced := by
  have reading : reader.Reading contents reader.queued := by
    rw [Reader.Reading, streaming]
    exact ⟨contents, carries, rfl, rfl⟩
  have reached := reading.run noQuery ran
  rwa [Reader.Reading, finished] at reached

/-! ## Coming to the end -/

/-- The reader can come to the end of the partition without another query. -/
def Reader.CanFinish (runtime : Runtime) (source : Int → List StreamRow) (reader : Reader) :
    Prop :=
  ∃ actions final, ReaderAction.query ∉ actions ∧
    Runs.run (Reader.step runtime source) reader actions = some final ∧ final.phase = .finished

theorem Reader.CanFinish.of_step {source : Int → List StreamRow} {action : ReaderAction}
    {next : Reader} (noQuery : action ≠ .query)
    (stepped : reader.step runtime source action = some next)
    (canFinish : next.CanFinish runtime source) : reader.CanFinish runtime source := by
  obtain ⟨actions, final, noQueries, ran, finished⟩ := canFinish
  refine ⟨action :: actions, final, ?_, Runs.run_cons_eq_some.mpr ⟨next, stepped, ran⟩, finished⟩
  rw [List.mem_cons, not_or]
  exact ⟨Ne.symm noQuery, noQueries⟩

theorem Reader.enqueueAll_canFinish (source : Int → List StreamRow)
    (children : List PartitionState) (rows : List StreamRow) :
    (reader.enqueueAll children true false rows).CanFinish runtime source := by
  induction children generalizing reader with
  | nil => exact ⟨[], _, List.not_mem_nil, rfl, rfl⟩
  | cons child children inductionHypothesis =>
      have stepped : (reader.enqueueAll (child :: children) true false rows).step runtime source
          (.enqueue false) = some _ := rfl
      exact .of_step (by simp) stepped inductionHypothesis

theorem Reader.canFinish_of_announced (runtime : Runtime) (source : Int → List StreamRow)
    {rows : List StreamRow} (carries : List.Forall₂ Carries contents rows)
    (announces : ∃ content ∈ contents, content.announcements ≠ [])
    (streaming : reader.phase = .streaming rows) : reader.CanFinish runtime source := by
  induction carries generalizing reader with
  | nil => simp at announces
  | @cons content row contents rows head tail inductionHypothesis =>
      obtain ⟨gcv, column, holds⟩ := head
      have done := (decodeRecord_grows runtime holds).done
      have children := (decodeRecord_grows runtime holds).children
      have stepped : reader.step runtime source (.next false) = some
          ((reader.receive runtime row gcv).enqueueAll (decodeRecord runtime gcv).children
            (decodeRecord runtime gcv).done false rows) := by
        simp only [Reader.step, streaming, column]
      refine .of_step (by simp) stepped ?_
      by_cases quiet : content.announcements = []
      · rw [quiet] at done children
        rw [done, children]
        apply inductionHypothesis
        · simpa [quiet] using announces
        · rfl
      · have ends : (decodeRecord runtime gcv).done = true := by
          rw [done]
          simpa using quiet
        rw [ends]
        exact Reader.enqueueAll_canFinish source _ rows

end

/-! ## What is kept -/

section

variable {contents : List RowContent} {rows : List StreamRow}

theorem firstAnnounced_ne_nil (carries : List.Forall₂ Carries contents rows)
    (announces : ∃ content ∈ contents, content.announcements ≠ []) :
    firstAnnounced contents ≠ [] := by
  induction carries with
  | nil => simp at announces
  | @cons content row contents rows head tail inductionHypothesis =>
      obtain ⟨gcv, column, holds⟩ := head
      rw [firstAnnounced]
      split
      next quiet =>
        rw [List.isEmpty_iff] at quiet
        exact inductionHypothesis (by simpa [quiet] using announces)
      next loud =>
        rw [List.isEmpty_iff] at loud
        exact holds.flatten_ne_nil loud

theorem Announced.exists_announces {announcement : Bytes × Int}
    (known : Announced contents announcement) :
    ∃ content ∈ contents, content.announcements ≠ [] := by
  obtain ⟨content, membership, announces⟩ := known
  refine ⟨content, membership, ?_⟩
  intro silent
  simp [silent] at announces

theorem keepsChildren_iff (runtime : Runtime) (carries : List.Forall₂ Carries contents rows) :
    KeepsChildren runtime contents rows ↔
      ∀ announcement, Announced contents announcement → announcement ∈ firstAnnounced contents := by
  constructor
  · intro keeps announcement known
    have streaming : { Reader.start ⟨[], 0, 0⟩ with phase := .streaming rows }.phase =
        .streaming rows := rfl
    obtain ⟨actions, final, noQuery, ran, finished⟩ := Reader.canFinish_of_announced runtime
      (fun _ => []) carries known.exists_announces streaming
    have kept := keeps _ _ _ _ streaming noQuery ran finished announcement known
    rw [queued_of_finished carries streaming noQuery ran finished] at kept
    simpa [Reader.start, announced_injective.eq_iff] using kept
  · intro all source reader actions final streaming noQuery ran finished announcement known
    rw [queued_of_finished carries streaming noQuery ran finished]
    exact List.mem_append_right _ (List.mem_map_of_mem (all announcement known))

theorem collectPartitions_of_announced (runtime : Runtime) (failed : Bool)
    (carries : List.Forall₂ Carries contents rows)
    (announces : ∃ content ∈ contents, content.announcements ≠ []) :
    collectPartitions runtime failed rows = .ok ((firstAnnounced contents).map announced) := by
  induction carries with
  | nil => simp at announces
  | @cons content row contents rows head tail inductionHypothesis =>
      obtain ⟨gcv, column, holds⟩ := head
      have done := (decodeRecord_grows runtime holds).done
      have children := (decodeRecord_grows runtime holds).children
      simp only [collectPartitions, column, firstAnnounced]
      by_cases quiet : content.announcements = []
      · rw [quiet] at done children
        rw [done, children, inductionHypothesis (by simpa [quiet] using announces)]
        simp [quiet, Except.map]
      · have loud : content.announcements.isEmpty = false := by simpa using quiet
        rw [loud] at done
        rw [done, children]
        simp [loud]

theorem queryInitialPartitions_of_announced (runtime : Runtime) (failed : Bool)
    (carries : List.Forall₂ Carries contents rows)
    (announces : ∃ content ∈ contents, content.announcements ≠ []) :
    queryInitialPartitions runtime rows failed =
      .ok ((firstAnnounced contents).map announced) := by
  have nonempty : ((firstAnnounced contents).map announced).isEmpty = false := by
    simpa using firstAnnounced_ne_nil carries announces
  simp only [queryInitialPartitions, nonempty,
    collectPartitions_of_announced runtime failed carries announces]
  rfl

/-- What `Start` enqueues for an announcement tells which one it was, and from
where the partition is read. -/
theorem mem_initialPartitions_iff {cursors : Bytes → Option Int} {startTime resume : Int}
    {announcements : List (Bytes × Int)} {announcement : Bytes × Int} :
    { announced announcement with resumeTimestamp := resume } ∈
        initialPartitions cursors startTime (announcements.map announced) ↔
      announcement ∈ announcements ∧ (cursors announcement.1).getD startTime = resume := by
  simp only [initialPartitions, List.map_map, List.mem_map]
  constructor
  · intro enqueued
    obtain ⟨other, membership, same⟩ := enqueued
    obtain rfl : other = announcement :=
      Prod.ext (congrArg PartitionState.token same) (congrArg PartitionState.startTimestamp same)
    exact ⟨membership, congrArg PartitionState.resumeTimestamp same⟩
  · intro known
    obtain ⟨membership, rfl⟩ := known
    exact ⟨announcement, membership, rfl⟩

/-- Every announcement leads to a partition that is read from where `resume`
says. -/
theorem enqueues_iff (runtime : Runtime) (cursors : Bytes → Option Int) (startTime : Int)
    (resume : Bytes × Int → Int) (carries : List.Forall₂ Carries contents rows) :
    (∀ failed partitions, queryInitialPartitions runtime rows failed = .ok partitions →
        ∀ announcement, Announced contents announcement →
          { announced announcement with resumeTimestamp := resume announcement } ∈
            initialPartitions cursors startTime partitions) ↔
      ∀ announcement, Announced contents announcement → announcement ∈ firstAnnounced contents ∧
        (cursors announcement.1).getD startTime = resume announcement := by
  constructor
  · intro enqueues announcement known
    have answered :=
      queryInitialPartitions_of_announced runtime false carries known.exists_announces
    exact mem_initialPartitions_iff.mp (enqueues false _ answered announcement known)
  · intro all failed partitions answered announcement known
    rw [queryInitialPartitions_of_announced runtime failed carries known.exists_announces]
      at answered
    obtain rfl := Except.ok.inj answered
    exact mem_initialPartitions_iff.mpr (all announcement known)

theorem discoversChildren_iff (runtime : Runtime) (carries : List.Forall₂ Carries contents rows) :
    DiscoversChildren runtime contents rows ↔
      ∀ announcement, Announced contents announcement → announcement ∈ firstAnnounced contents := by
  constructor
  · intro discovers announcement known
    have enqueued := (enqueues_iff runtime (fun _ => none) 0 (fun _ => 0) carries).mp
      fun failed partitions answered => discovers failed partitions answered _ _
    exact (enqueued announcement known).1
  · intro all failed partitions answered cursors startTime
    have enqueued := (enqueues_iff runtime cursors startTime
      (fun announcement => (cursors announcement.1).getD startTime) carries).mpr
      fun announcement known => ⟨all announcement known, rfl⟩
    exact enqueued failed partitions answered

theorem discoversFromStart_iff (runtime : Runtime) (cursors : Bytes → Option Int)
    (startTime : Int) (carries : List.Forall₂ Carries contents rows) :
    DiscoversFromStart runtime cursors startTime contents rows ↔
      ∀ announcement, Announced contents announcement → announcement ∈ firstAnnounced contents ∧
        (cursors announcement.1).getD startTime = announcement.2 :=
  enqueues_iff runtime cursors startTime Prod.snd carries

/-- The reader of a partition and the discovery of the first partitions keep
every child that their answer announces if and only if the first row of
children announces them all.  The reader enqueues them with the announced
start; `Start` puts a stored cursor or the common start in its place, and a
partition that was discovered is read from the announced start if and only if
these agree. -/
theorem children_kept_iff (runtime : Runtime) (carries : List.Forall₂ Carries contents rows) :
    (KeepsChildren runtime contents rows ↔
        ∀ announcement, Announced contents announcement →
          announcement ∈ firstAnnounced contents) ∧
      (DiscoversChildren runtime contents rows ↔
        ∀ announcement, Announced contents announcement →
          announcement ∈ firstAnnounced contents) ∧
      ∀ cursors startTime, DiscoversFromStart runtime cursors startTime contents rows ↔
        ∀ announcement, Announced contents announcement →
          announcement ∈ firstAnnounced contents ∧
            (cursors announcement.1).getD startTime = announcement.2 :=
  ⟨keepsChildren_iff runtime carries, discoversChildren_iff runtime carries,
    fun cursors startTime => discoversFromStart_iff runtime cursors startTime carries⟩

end

/-! ## Children in one row and in two -/

/-- The rows of an answer in which each row of children announces these tokens,
all with the start 7. -/
def childRows (groups : List (List Bytes)) : List StreamRow :=
  groups.map fun tokens => ⟨0, 7, some (childRow (nanoText 7) tokens)⟩

def childContents (groups : List (List Bytes)) : List RowContent :=
  groups.map fun tokens => ⟨[], [tokens.map fun token => (token, 7)]⟩

theorem childRows_carry {groups : List (List Bytes)} (nonempty : ∀ tokens ∈ groups, tokens ≠ [])
    (named : ∀ tokens ∈ groups, ∀ token ∈ tokens, token ≠ []) :
    List.Forall₂ Carries (childContents groups) (childRows groups) := by
  rw [childContents, childRows, List.forall₂_map_left_iff, List.forall₂_map_right_iff]
  apply List.forall₂_same.mpr
  intro tokens membership
  exact ⟨_, rfl, childRow_holds (nanoText_denotes 7) (nonempty tokens membership)
    (named tokens membership)⟩

/-- Two children announced by one row are kept, and read from their start if
that is also the common one. -/
theorem one_row_keeps_children :
    KeepsChildren createdRuntime (childContents [[ascii "a", ascii "b"]])
        (childRows [[ascii "a", ascii "b"]]) ∧
      DiscoversChildren createdRuntime (childContents [[ascii "a", ascii "b"]])
        (childRows [[ascii "a", ascii "b"]]) ∧
      DiscoversFromStart createdRuntime (fun _ => none) 7
        (childContents [[ascii "a", ascii "b"]]) (childRows [[ascii "a", ascii "b"]]) := by
  have carries : List.Forall₂ Carries (childContents [[ascii "a", ascii "b"]])
      (childRows [[ascii "a", ascii "b"]]) := childRows_carry (by simp) (by decide)
  have all : ∀ announcement, Announced (childContents [[ascii "a", ascii "b"]]) announcement →
      announcement ∈ firstAnnounced (childContents [[ascii "a", ascii "b"]]) := by
    intro announcement known
    obtain ⟨content, membership, announces⟩ := known
    obtain rfl := List.mem_singleton.mp membership
    exact announces
  have starts : ∀ announcement ∈ firstAnnounced (childContents [[ascii "a", ascii "b"]]),
      announcement.2 = 7 := by decide
  have kept := children_kept_iff createdRuntime carries
  refine ⟨kept.1.mpr all, kept.2.1.mpr all, (kept.2.2 _ _).mpr ?_⟩
  intro announcement known
  have inFirst := all announcement known
  exact ⟨inFirst, (starts announcement inFirst).symm⟩

/-- Of two children announced by two rows with one start the second is lost, by
a reader and by the discovery. -/
theorem second_row_loses_child :
    List.Forall₂ Carries (childContents [[ascii "a"], [ascii "b"]])
        (childRows [[ascii "a"], [ascii "b"]]) ∧
      Announced (childContents [[ascii "a"], [ascii "b"]]) (ascii "b", 7) ∧
      ¬KeepsChildren createdRuntime (childContents [[ascii "a"], [ascii "b"]])
        (childRows [[ascii "a"], [ascii "b"]]) ∧
      ¬DiscoversChildren createdRuntime (childContents [[ascii "a"], [ascii "b"]])
        (childRows [[ascii "a"], [ascii "b"]]) ∧
      ∀ cursors startTime, ¬DiscoversFromStart createdRuntime cursors startTime
        (childContents [[ascii "a"], [ascii "b"]]) (childRows [[ascii "a"], [ascii "b"]]) := by
  have carries : List.Forall₂ Carries (childContents [[ascii "a"], [ascii "b"]])
      (childRows [[ascii "a"], [ascii "b"]]) := childRows_carry (by simp) (by decide)
  have known : Announced (childContents [[ascii "a"], [ascii "b"]]) (ascii "b", 7) :=
    ⟨⟨[], [[(ascii "b", 7)]]⟩, by decide, by decide⟩
  have lost : ¬∀ announcement, Announced (childContents [[ascii "a"], [ascii "b"]]) announcement →
      announcement ∈ firstAnnounced (childContents [[ascii "a"], [ascii "b"]]) :=
    fun all => absurd (all _ known) (by decide)
  refine ⟨carries, known, ?_, ?_, ?_⟩
  · rwa [keepsChildren_iff createdRuntime carries]
  · rwa [discoversChildren_iff createdRuntime carries]
  · intro cursors startTime
    rw [discoversFromStart_iff createdRuntime cursors startTime carries]
    exact fun all => lost fun announcement known => (all announcement known).1

end SpannerEtcd
