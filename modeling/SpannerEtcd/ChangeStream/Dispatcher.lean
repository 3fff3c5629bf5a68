import SpannerEtcd.ChangeStream.Children
import SpannerEtcd.Lib.Worklist

/-!
# The dispatcher of partitions

`Start` enqueues the partitions that it has discovered and starts a reader for
every partition that it takes out of the channel, unless one with the same
token is active.  The readers enqueue the children of their partitions, and the
token of a reader that returns is active no longer.  A partition that two
parents announce is read twice if its reader returns before the second parent
announces it.
-/

namespace SpannerEtcd

def partitionWorkersBuf : Nat := 64

/-- The goroutines of `Start` and the channel between them.  The tokens of the
readers are those of the map `active`. -/
structure StartSystem where
  /-- The discovered partitions that are not enqueued yet. -/
  initial : List PartitionState
  pending : List PartitionState
  readers : List Reader
  /-- The tokens for which a reader was started, in order. -/
  started : List Bytes
  /-- Whether `ctx` is done or `stopCh` closed. -/
  canceled : Bool
  /-- Whether `Start` is in its loop. -/
  dispatching : Bool

def StartSystem.init (partitions : List PartitionState) : StartSystem :=
  { initial := partitions, pending := [], readers := [], started := [], canceled := false
    dispatching := true }

inductive StartAction where
  | enqueueInitial
  | abandonInitial
  | dispatch
  | read (token : Bytes) (action : ReaderAction)
  | retire (token : Bytes)
  | cancel
  | leave
  deriving DecidableEq, Repr

/-- Whether `readPartition` has returned. -/
def ReaderPhase.over : ReaderPhase → Bool
  | .finished | .abandoned => true
  | .resting | .streaming _ | .enqueueing _ _ _ => false

/-- What an action of the reader sends into the channel. -/
def Reader.sends (reader : Reader) : ReaderAction → List PartitionState
  | .enqueue _ =>
      match reader.phase with
      | .enqueueing (child :: _) _ _ => [child]
      | _ => []
  | _ => []

/-- The state after one action, or `none` when the action cannot happen. -/
def StartSystem.step (runtime : Runtime) (source : Bytes → Int → List StreamRow)
    (system : StartSystem) : StartAction → Option StartSystem
  | .enqueueInitial =>
      match system.initial with
      | [] => none
      | p :: rest =>
          if system.pending.length < partitionWorkersBuf then
            some { system with initial := rest, pending := system.pending ++ [p] }
          else none
  | .abandonInitial => if system.canceled then some { system with initial := [] } else none
  | .dispatch =>
      match system.pending with
      | [] => none
      | p :: rest =>
          if system.dispatching then
            if system.readers.any fun reader => reader.p.token = p.token then
              some { system with pending := rest }
            else
              some { system with
                pending := rest
                readers := system.readers ++ [Reader.start p]
                started := system.started ++ [p.token] }
          else none
  | .read token action =>
      match system.readers.find? fun reader => reader.p.token = token with
      | none => none
      | some reader =>
          match reader.step runtime (source token) action with
          | none => none
          | some next =>
              -- A reader stops when it finds the context done, and sends when
              -- there is room.
              if (action = .stop → system.canceled) ∧
                  (system.pending ++ reader.sends action).length ≤ partitionWorkersBuf then
                some { system with
                  pending := system.pending ++ reader.sends action
                  readers := system.readers.map fun other =>
                    if other.p.token = token then next else other }
              else none
  | .retire token =>
      match system.readers.find? fun reader => reader.p.token = token with
      | none => none
      | some reader =>
          if reader.phase.over then
            some { system with
              readers := system.readers.filter fun other => other.p.token ≠ token }
          else none
  | .cancel => some { system with canceled := true }
  | .leave => if system.canceled then some { system with dispatching := false } else none

def StartSystem.active (system : StartSystem) : List Bytes :=
  system.readers.map fun reader => reader.p.token

inductive StartMove (runtime : Runtime) (source : Bytes → Int → List StreamRow)
    (system : StartSystem) : StartAction → StartSystem → Prop where
  | enqueueInitial {p : PartitionState} {rest : List PartitionState}
      (left : system.initial = p :: rest) :
      StartMove runtime source system .enqueueInitial
        { system with initial := rest, pending := system.pending ++ [p] }
  | abandonInitial : StartMove runtime source system .abandonInitial { system with initial := [] }
  | skip {p : PartitionState} {rest : List PartitionState} (first : system.pending = p :: rest) :
      StartMove runtime source system .dispatch { system with pending := rest }
  | start {p : PartitionState} {rest : List PartitionState} (first : system.pending = p :: rest)
      (idle : p.token ∉ system.active) :
      StartMove runtime source system .dispatch
        { system with
          pending := rest
          readers := system.readers ++ [Reader.start p]
          started := system.started ++ [p.token] }
  | read {token : Bytes} {action : ReaderAction} {reader next : Reader}
      (membership : reader ∈ system.readers) (named : reader.p.token = token)
      (stepped : reader.step runtime (source token) action = some next) :
      StartMove runtime source system (.read token action)
        { system with
          pending := system.pending ++ reader.sends action
          readers := system.readers.map fun other =>
            if other.p.token = token then next else other }
  | retire {token : Bytes} :
      StartMove runtime source system (.retire token)
        { system with readers := system.readers.filter fun other => other.p.token ≠ token }
  | cancel : StartMove runtime source system .cancel { system with canceled := true }
  | leave : StartMove runtime source system .leave { system with dispatching := false }

theorem StartSystem.step_move {runtime : Runtime} {source : Bytes → Int → List StreamRow}
    {system next : StartSystem} {action : StartAction}
    (stepped : system.step runtime source action = some next) :
    StartMove runtime source system action next := by
  cases action with
  | enqueueInitial =>
      simp only [StartSystem.step] at stepped
      split at stepped
      next => cases stepped
      next p rest left =>
        split at stepped
        next =>
          obtain rfl := Option.some.inj stepped
          exact .enqueueInitial left
        next => cases stepped
  | abandonInitial =>
      simp only [StartSystem.step] at stepped
      split at stepped
      next =>
        obtain rfl := Option.some.inj stepped
        exact .abandonInitial
      next => cases stepped
  | dispatch =>
      simp only [StartSystem.step] at stepped
      split at stepped
      next => cases stepped
      next p rest first =>
        split at stepped
        next =>
          split at stepped
          next =>
            obtain rfl := Option.some.inj stepped
            exact .skip first
          next idle =>
            obtain rfl := Option.some.inj stepped
            exact .start first (by simpa [StartSystem.active] using idle)
        next => cases stepped
  | read token action =>
      simp only [StartSystem.step] at stepped
      split at stepped
      next => cases stepped
      next reader found =>
        split at stepped
        next => cases stepped
        next readerNext readerStepped =>
          split at stepped
          next =>
            obtain rfl := Option.some.inj stepped
            have named : reader.p.token = token := by simpa using List.find?_some found
            exact .read (List.mem_of_find?_eq_some found) named readerStepped
          next => cases stepped
  | retire token =>
      simp only [StartSystem.step] at stepped
      split at stepped
      next => cases stepped
      next reader found =>
        split at stepped
        next =>
          obtain rfl := Option.some.inj stepped
          exact .retire
        next => cases stepped
  | cancel =>
      obtain rfl := Option.some.inj stepped
      exact .cancel
  | leave =>
      simp only [StartSystem.step] at stepped
      split at stepped
      next =>
        obtain rfl := Option.some.inj stepped
        exact .leave
      next => cases stepped

/-! ## The graph of the partitions -/

section

variable (runtime : Runtime) (source : Bytes → Int → List StreamRow)

/-- A row of the partition `parent` announces `child`. -/
def Leads (parent child : Bytes) : Prop :=
  ∃ start, ∃ row ∈ source parent start, ∃ gcv, row.column = some gcv ∧
    ∃ p ∈ (decodeRecord runtime gcv).children, p.token = child

/-- The tokens of the partitions that wait or are being read. -/
def StartSystem.live (system : StartSystem) : List Bytes :=
  (system.initial ++ system.pending).map PartitionState.token ++
    (system.readers.filter fun reader => !reader.phase.over).map fun reader => reader.p.token

/-- A token is dropped from `active` only when no partition that waits or is
being read is the same or leads to it. -/
def DropsUnreachable (system : StartSystem) : StartAction → Prop
  | .retire token => ∀ other ∈ system.live,
      ¬Relation.ReflTransGen (Leads runtime source) other token
  | _ => True

/-- The reader works on rows of its own partition. -/
def Reader.FromSource (reader : Reader) : Prop :=
  match reader.phase with
  | .streaming rows => ∃ start, rows ⊆ source reader.p.token start
  | .enqueueing children _ rows =>
      (∀ child ∈ children, Leads runtime source reader.p.token child.token) ∧
        ∃ start, rows ⊆ source reader.p.token start
  | .resting | .finished | .abandoned => True

def StartSystem.worklist (system : StartSystem) : Worklist.State Bytes :=
  { live := system.live, running := system.active, started := system.started }

structure StartSystem.Inv (system : StartSystem) : Prop where
  worklist : Worklist.Inv (Leads runtime source) system.worklist
  fromSource : ∀ reader ∈ system.readers, reader.FromSource runtime source

variable {runtime : Runtime} {source : Bytes → Int → List StreamRow}
  {reader next : Reader} {action : ReaderAction}

/-! ## One step of a reader -/

theorem PartitionState.advance_token (p : PartitionState) (ts : Int) :
    (p.advance ts).token = p.token := by
  unfold PartitionState.advance
  split <;> rfl

theorem Reader.step_token {answers : Int → List StreamRow}
    (stepped : reader.step runtime answers action = some next) :
    next.p.token = reader.p.token := by
  cases Reader.step_move stepped with
  | query resting => rfl
  | skip streaming undecoded => rfl
  | receive streaming decoded =>
      rw [Reader.enqueueAll_p]
      exact PartitionState.advance_token _ _
  | enqueue enqueueing => rw [Reader.enqueueAll_p]
  | queryEnd streaming => rfl
  | stop waiting => rfl

theorem Reader.not_over_of_step {answers : Int → List StreamRow}
    (stepped : reader.step runtime answers action = some next) :
    reader.phase.over = false := by
  cases Reader.step_move stepped with
  | query resting => rw [resting]; rfl
  | skip streaming undecoded => rw [streaming]; rfl
  | receive streaming decoded => rw [streaming]; rfl
  | enqueue enqueueing => rw [enqueueing]; rfl
  | queryEnd streaming => rw [streaming]; rfl
  | stop waiting =>
      rcases waiting with resting | ⟨children, done, rows, enqueueing⟩
      · rw [resting]; rfl
      · rw [enqueueing]; rfl

theorem Reader.fromSource_enqueueAll {children : List PartitionState} {done flushed : Bool}
    {rows : List StreamRow}
    (leads : ∀ child ∈ children, Leads runtime source reader.p.token child.token)
    (own : ∃ start, rows ⊆ source reader.p.token start) :
    (reader.enqueueAll children done flushed rows).FromSource runtime source := by
  unfold Reader.enqueueAll
  split
  · cases done
    · exact own
    · trivial
  · exact ⟨leads, own⟩

theorem Reader.FromSource.step (fromSource : reader.FromSource runtime source)
    (stepped : reader.step runtime (source reader.p.token) action = some next) :
    next.FromSource runtime source := by
  cases Reader.step_move stepped with
  | query resting => exact ⟨_, List.Subset.refl _⟩
  | skip streaming undecoded =>
      rw [Reader.FromSource, streaming] at fromSource
      obtain ⟨start, included⟩ := fromSource
      exact ⟨start, List.subset_of_cons_subset included⟩
  | @receive _ row rows gcv streaming decoded =>
      rw [Reader.FromSource, streaming] at fromSource
      obtain ⟨start, included⟩ := fromSource
      have token : (reader.receive runtime row gcv).p.token = reader.p.token :=
        PartitionState.advance_token _ _
      apply Reader.fromSource_enqueueAll
      · intro child announced
        rw [token]
        exact ⟨start, row, included List.mem_cons_self, gcv, decoded, child, announced, rfl⟩
      · rw [token]
        exact ⟨start, List.subset_of_cons_subset included⟩
  | enqueue enqueueing =>
      rw [Reader.FromSource, enqueueing] at fromSource
      apply Reader.fromSource_enqueueAll
      · exact fun child waits => fromSource.1 child (List.mem_cons_of_mem _ waits)
      · exact fromSource.2
  | @queryEnd how _ streaming => cases how <;> trivial
  | stop waiting => trivial

theorem Reader.FromSource.leads_of_sends (fromSource : reader.FromSource runtime source)
    {child : PartitionState} (sent : child ∈ reader.sends action) :
    Leads runtime source reader.p.token child.token := by
  cases action with
  | enqueue flushed =>
      rw [Reader.FromSource] at fromSource
      simp only [Reader.sends] at sent
      split at sent
      next first children done rows enqueueing =>
        rw [enqueueing] at fromSource
        rw [List.mem_singleton.mp sent]
        exact fromSource.1 first List.mem_cons_self
      next => cases sent
  | query => cases sent
  | next flushed => cases sent
  | queryEnd how => cases sent
  | stop => cases sent

/-! ## The dispatcher as a worklist -/

variable {system following : StartSystem} {taken : StartAction}

theorem StartSystem.mem_live_iff {token : Bytes} : token ∈ system.worklist.live ↔
    (∃ p ∈ system.initial, p.token = token) ∨ (∃ p ∈ system.pending, p.token = token) ∨
      ∃ reader ∈ system.readers, reader.phase.over = false ∧ reader.p.token = token := by
  simp only [StartSystem.worklist, StartSystem.live, List.map_append, List.mem_append,
    List.mem_map, List.mem_filter, Bool.not_eq_true', and_assoc, or_assoc]

/-- A step of a reader leaves its token active. -/
theorem active_replace {token : Bytes} (named : next.p.token = token) (readers : List Reader) :
    (readers.map fun other => if other.p.token = token then next else other).map
        (fun reader => reader.p.token) = readers.map fun reader => reader.p.token := by
  rw [List.map_map]
  apply List.map_congr_left
  intro other _
  by_cases same : other.p.token = token
  · simp [same, named]
  · simp [same]

theorem active_retire (token : Bytes) (readers : List Reader) :
    (readers.filter fun other => other.p.token ≠ token).map (fun reader => reader.p.token) =
      (readers.map fun reader => reader.p.token).filter fun other => other ≠ token := by
  rw [List.filter_map]
  rfl

theorem StartMove.worklist (moved : StartMove runtime source system taken following)
    (unreachable : DropsUnreachable runtime source system taken)
    (fromSource : ∀ reader ∈ system.readers, reader.FromSource runtime source) :
    Worklist.Move (Leads runtime source) system.worklist following.worklist := by
  cases moved with
  | @enqueueInitial p rest left =>
      refine .work (fun token isLive => .inl ?_) rfl rfl
      rw [StartSystem.mem_live_iff] at isLive ⊢
      grind
  | abandonInitial =>
      refine .work (fun token isLive => .inl ?_) rfl rfl
      exact StartSystem.mem_live_iff.mpr
        (.inr ((StartSystem.mem_live_iff.mp isLive).resolve_left (by simp)))
  | @skip p rest first =>
      refine .work (fun token isLive => .inl ?_) rfl rfl
      rw [StartSystem.mem_live_iff] at isLive ⊢
      grind
  | @start p rest first idle =>
      have waits : p.token ∈ system.worklist.live :=
        StartSystem.mem_live_iff.mpr (.inr (.inl ⟨p, by simp [first], rfl⟩))
      refine .start waits idle (fun token isLive => ?_) List.map_append rfl
      rw [StartSystem.mem_live_iff] at isLive ⊢
      grind [Reader.start]
  | @read token action reader next membership named stepped =>
      have kept : next.p.token = token := by rw [Reader.step_token stepped, named]
      have reads : token ∈ system.worklist.live := StartSystem.mem_live_iff.mpr
        (.inr (.inr ⟨reader, membership, Reader.not_over_of_step stepped, named⟩))
      refine .work (fun other isLive => ?_) (active_replace kept system.readers) rfl
      rcases StartSystem.mem_live_iff.mp isLive with
        ⟨p, waits, rfl⟩ | ⟨p, waits, rfl⟩ | ⟨later, laterReads, running, rfl⟩
      · exact .inl (StartSystem.mem_live_iff.mpr (.inl ⟨p, waits, rfl⟩))
      · rcases List.mem_append.mp waits with old | sent
        · exact .inl (StartSystem.mem_live_iff.mpr (.inr (.inl ⟨p, old, rfl⟩)))
        · exact .inr ⟨token, reads, named ▸ (fromSource reader membership).leads_of_sends sent⟩
      · obtain ⟨before, readBefore, rfl⟩ := List.mem_map.mp laterReads
        left
        by_cases same : before.p.token = token
        · rwa [if_pos same, kept]
        · rw [if_neg same] at running ⊢
          exact StartSystem.mem_live_iff.mpr (.inr (.inr ⟨before, readBefore, running, rfl⟩))
  | @retire token =>
      refine .retire unreachable (fun other isLive => ?_) (active_retire token system.readers) rfl
      rw [StartSystem.mem_live_iff] at isLive ⊢
      grind
  | cancel => exact .work (fun token isLive => .inl isLive) rfl rfl
  | leave => exact .work (fun token isLive => .inl isLive) rfl rfl

theorem StartMove.fromSource (moved : StartMove runtime source system taken following)
    (fromSource : ∀ reader ∈ system.readers, reader.FromSource runtime source) :
    ∀ reader ∈ following.readers, reader.FromSource runtime source := by
  cases moved with
  | enqueueInitial left => exact fromSource
  | abandonInitial => exact fromSource
  | skip first => exact fromSource
  | start first idle =>
      intro reader reads
      rcases List.mem_append.mp reads with old | fresh
      · exact fromSource reader old
      · rw [List.mem_singleton.mp fresh]
        trivial
  | read membership named stepped =>
      intro later reads
      obtain ⟨before, readBefore, rfl⟩ := List.mem_map.mp reads
      split
      · exact (fromSource _ membership).step (named ▸ stepped)
      · exact fromSource before readBefore
  | retire => exact fun reader reads => fromSource reader (List.mem_filter.mp reads).1
  | cancel => exact fromSource
  | leave => exact fromSource

theorem StartSystem.Inv.step (unreachable : DropsUnreachable runtime source system taken)
    (stepped : system.step runtime source taken = some following)
    (inv : system.Inv runtime source) : following.Inv runtime source := by
  have moved := StartSystem.step_move stepped
  exact ⟨inv.worklist.move (moved.worklist unreachable inv.fromSource),
    moved.fromSource inv.fromSource⟩

theorem StartSystem.init_inv (partitions : List PartitionState) :
    (StartSystem.init partitions).Inv runtime source where
  worklist := Worklist.Inv.init _ _
  fromSource := by simp [StartSystem.init]

/-- No partition is started twice in a run in which a token is dropped only
when nothing that waits or is being read leads to it. -/
theorem partitions_started_once (partitions : List PartitionState) {actions : List StartAction}
    (guarded : Runs.Guarded (StartSystem.step runtime source) (DropsUnreachable runtime source)
      (.init partitions) actions)
    (ran : Runs.run (StartSystem.step runtime source) (.init partitions) actions = some system) :
    system.started.Nodup :=
  (Runs.run_invariant_of_guarded (fun _ _ _ unreachable stepped inv => inv.step unreachable stepped)
    guarded ran (StartSystem.init_inv partitions)).worklist.nodup

end

/-! ## Two partitions that are merged -/

/-- The partitions a and b are merged into c, which is followed by d. -/
def mergeSource (token : Bytes) (_ : Int) : List StreamRow :=
  if token = ascii "a" ∨ token = ascii "b" then childRows [[ascii "c"]]
  else if token = ascii "c" then childRows [[ascii "d"]]
  else []

def mergeParents : List PartitionState := [announced (ascii "a", 0), announced (ascii "b", 0)]

/-- How far a partition is from a and b. -/
def mergeRank (token : Bytes) : Nat :=
  if token = ascii "d" then 2 else if token = ascii "c" then 1 else 0

/-- A reader reads the row of a child and returns. -/
def readChild (token : Bytes) : List StartAction :=
  [.read token .query, .read token (.next false), .read token (.enqueue false)]

def startParents : List StartAction := [.enqueueInitial, .enqueueInitial, .dispatch, .dispatch]

theorem leads_childRows {runtime : Runtime} {source : Bytes → Int → List StreamRow}
    {parent token child : Bytes} (rows : ∀ start, source parent start = childRows [[token]])
    (named : token ≠ []) : Leads runtime source parent child ↔ child = token := by
  have holds : RowHolds ⟨[], [[(token, 7)]]⟩ (childRow (nanoText 7) [token]) :=
    childRow_holds (nanoText_denotes 7) (List.cons_ne_nil token []) (by simpa using named)
  have children : (decodeRecord runtime (childRow (nanoText 7) [token])).children =
      [announced (token, 7)] := (decodeRecord_grows runtime holds).children
  constructor
  · intro leading
    obtain ⟨start, row, answered, gcv, decoded, p, inRow, rfl⟩ := leading
    rw [rows, childRows, List.map_singleton, List.mem_singleton] at answered
    obtain rfl := Option.some.inj (answered ▸ decoded)
    rw [children, List.mem_singleton] at inRow
    rw [inRow]
    rfl
  · intro same
    refine ⟨0, ⟨0, 7, some (childRow (nanoText 7) [token])⟩, ?_, _, rfl, announced (token, 7), ?_,
      same.symm⟩
    · rw [rows]
      exact List.mem_singleton_self _
    · rw [children]
      exact List.mem_singleton_self _

theorem mergeRank_lt_of_leads {runtime : Runtime} {parent child : Bytes}
    (leading : Leads runtime mergeSource parent child) : mergeRank parent < mergeRank child := by
  by_cases merged : parent = ascii "a" ∨ parent = ascii "b"
  · rw [leads_childRows (fun _ => if_pos merged) (by decide)] at leading
    rw [leading]
    rcases merged with rfl | rfl <;> decide
  · by_cases between : parent = ascii "c"
    · rw [leads_childRows (fun _ => by rw [mergeSource, if_neg merged, if_pos between])
        (by decide)] at leading
      rw [leading, between]
      decide
    · obtain ⟨start, row, answered, _⟩ := leading
      rw [mergeSource, if_neg merged, if_neg between] at answered
      cases answered

theorem mergeRank_le_of_path {runtime : Runtime} {first last : Bytes}
    (path : Relation.ReflTransGen (Leads runtime mergeSource) first last) :
    mergeRank first ≤ mergeRank last := by
  induction path with
  | refl => exact le_refl _
  | tail _ leading inductionHypothesis =>
      exact inductionHypothesis.trans (mergeRank_lt_of_leads leading).le

/-- Only what is nearer than everything live is dropped. -/
def RetiresNearest (system : StartSystem) : StartAction → Prop
  | .retire token => ∀ other ∈ system.live, mergeRank token < mergeRank other
  | _ => True

instance (system : StartSystem) (action : StartAction) :
    Decidable (RetiresNearest system action) := by
  cases action <;> unfold RetiresNearest <;> infer_instance

theorem RetiresNearest.dropsUnreachable {runtime : Runtime} (system : StartSystem)
    (action : StartAction) (nearest : RetiresNearest system action) :
    DropsUnreachable runtime mergeSource system action := by
  cases action with
  | retire token =>
      intro other isLive path
      exact absurd (mergeRank_le_of_path path) (not_le.mpr (nearest other isLive))
  | _ => trivial

/-- Both parents have been read when c is started. -/
def promptParentsRun : List StartAction :=
  startParents ++ readChild (ascii "a") ++ readChild (ascii "b") ++
    [.retire (ascii "a"), .retire (ascii "b"), .dispatch, .dispatch] ++
    readChild (ascii "c") ++ [.retire (ascii "c"), .dispatch]

set_option maxRecDepth 20000 in
theorem promptParents_started_once : ∃ system,
    Runs.run (StartSystem.step createdRuntime mergeSource) (.init mergeParents) promptParentsRun =
      some system ∧ system.started = ["a", "b", "c", "d"].map ascii ∧ system.started.Nodup := by
  have guarded : Runs.Guarded (StartSystem.step createdRuntime mergeSource) RetiresNearest
      (.init mergeParents) promptParentsRun := by decide
  exact ⟨_, rfl, rfl,
    partitions_started_once mergeParents (guarded.mono RetiresNearest.dropsUnreachable) rfl⟩

/-- The parent b announces c when c has been read. -/
def lateParentRun : List StartAction :=
  startParents ++ readChild (ascii "a") ++ [.retire (ascii "a"), .dispatch] ++
    readChild (ascii "c") ++ [.retire (ascii "c")] ++ readChild (ascii "b") ++
    [.dispatch, .dispatch]

set_option maxRecDepth 20000 in
/-- A partition that both its parents announce is started twice. -/
theorem late_parent_starts_twice :
    Leads createdRuntime mergeSource (ascii "a") (ascii "c") ∧
      Leads createdRuntime mergeSource (ascii "b") (ascii "c") ∧
      ∃ system, Runs.run (StartSystem.step createdRuntime mergeSource) (.init mergeParents)
          lateParentRun = some system ∧
        system.started = ["a", "b", "c", "d", "c"].map ascii ∧ ¬system.started.Nodup := by
  refine ⟨(leads_childRows (fun _ => rfl) (by decide)).mpr rfl,
    (leads_childRows (fun _ => rfl) (by decide)).mpr rfl, _, rfl, rfl, ?_⟩
  decide

end SpannerEtcd
