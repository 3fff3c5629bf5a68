import SpannerEtcd.Migrate.Copy
import SpannerEtcd.Server.Isolation

/-!
# Migrating from a store in use

The source of a migration may be a server that others go on writing to.  Every
page of the copy loop is a `Range` call of its own, with several reads, and the
next page begins behind the last key of this one.  Whatever is written,
deleted and compacted meanwhile, the keys that are left alone are copied once,
with their values.
-/

namespace SpannerEtcd

open VersionedLog Program

namespace Migrate

/-! ## The loop over a server -/

/-- `src.Get(ctx, fromKey, clientv3.WithFromKey(), clientv3.WithLimit(limit))`. -/
def fromKeyRequest (fromKey : Bytes) (limit : Int) : RangeRequest :=
  { key := fromKey, rangeEnd := [0], limit := limit, revision := 0, keysOnly := false,
    countOnly := false }

/-- What the tool reads of a pair; `string(kv.Value)` of nil is empty. -/
def entryOf (kv : KeyValue) : Entry := ⟨kv.key, kv.value.getD []⟩

def getPage (fromKey : Bytes) (limit : Int) : Call (Option (List Entry)) := do
  match ← range (fromKeyRequest fromKey limit) with
  | .error _ => return none
  | .ok response => return some (response.kvs.map entryOf)

/-- The copy loop with a page read from the server in each round. -/
def copyFrom (cfg : Config) (putOk : Nat → Bool) :
    Nat → Progress → Call (Option (List Entry × Progress × Stop))
  | 0, _ => return none
  | fuel + 1, progress => do
      let kvs ← getPage (if progress.lastKey = [] then [0] else progress.lastKey) cfg.batchSize
      match copyPage cfg (fun _ _ => kvs) putOk progress with
      | (puts, after, some stop) => return some (puts, after, stop)
      | (puts, after, none) => do
          let rest ← copyFrom cfg putOk fuel after
          return rest.map fun rest => (puts ++ rest.1, rest.2)

/-- Without other clients the server is a source that does not change. -/
theorem alone_copyFrom (supply : Nat → CommitTs) (cfg : Config) (putOk : Nat → Bool) (fuel : Nat)
    (progress : Progress) (count : Nat) (world : World) :
    alone supply (copyFrom cfg putOk fuel progress) count world =
      (copyLoop cfg (fun fromKey limit => (alone supply (getPage fromKey limit) 0 world).1) putOk
        fuel progress, count, world) := by
  have reads : ∀ fromKey limit count, alone supply (getPage fromKey limit) count world =
      ((alone supply (getPage fromKey limit) 0 world).1, count, world) := by
    intro fromKey limit count
    unfold getPage range
    rfl
  induction fuel generalizing progress count with
  | zero => rfl
  | succ fuel inductionHypothesis =>
      simp only [copyFrom, copyLoop]
      rw [alone_bind_of (reads ..)]
      have same : copyPage cfg (fun _ _ => (alone supply (getPage
            (if progress.lastKey = [] then [0] else progress.lastKey) cfg.batchSize) 0 world).1)
            putOk progress =
          copyPage cfg (fun fromKey limit => (alone supply (getPage fromKey limit) 0 world).1)
            putOk progress := by
        simp only [copyPage]
      rw [same]
      generalize copyPage cfg (fun fromKey limit =>
        (alone supply (getPage fromKey limit) 0 world).1) putOk progress = round
      obtain ⟨puts, after, stop⟩ := round
      cases stop with
      | some stop => rfl
      | none =>
          dsimp only
          rw [alone_bind_of (inductionHypothesis ..)]
          rfl

/-! ## One page among other clients -/

def rowEntry (row : Row) : Entry := ⟨row.key, row.value.getD []⟩

/-- What is listed from a key on. -/
def listing (revision rows : DB) (fromKey : Bytes) : List Entry :=
  (listRows rows.kv [] fromKey (currentRevision revision)).map rowEntry

/-- A page comes from two states of the source that follow each other. -/
theorem getPage_interleaved {fromKey : Bytes} {limit : Int} {start middle : World}
    {accesses : List (World × World)} {kvs : Option (List Entry)}
    (ran : Interleaved World.environment (getPage fromKey limit) start accesses middle kvs) :
    ∃ before, World.environment.later start before ∧ World.environment.later before middle ∧
      kvs = some (limitClause limit (listing before.db middle.db fromKey)) := by
  obtain ⟨ranged, rest, last, reply, rfl, ranging, ran⟩ := ran.of_bind
  unfold range at ranging
  simp only [fromKeyRequest, List.cons_ne_self, if_false, rangeToPrefix, if_true,
    Bool.false_eq_true] at ranging
  obtain ⟨listed, others, reached, result, rfl, listing, ranging⟩ := ranging.of_bind
  obtain ⟨before, compactRev, passed, passedAgain, _, rfl⟩ := list_interleaved rfl listing
  cases ranging with
  | ret =>
      cases ran with
      | ret =>
          refine ⟨before, passed, passedAgain, ?_⟩
          simp only [Migrate.listing, limitClause_map, List.map_map]
          rfl

/-! ## What is copied -/

/-- What the loop has copied of the keys behind `cursor` between two states. -/
structure Copied (start finish : World) (cursor : Bytes) (puts : List Entry) : Prop where
  ascending : puts.Pairwise fun first second => first.key < second.key
  behind : ∀ entry ∈ puts, cursor < entry.key
  committed : ∀ entry ∈ puts, ∃ row ∈ finish.history, row.deleted = false ∧ rowEntry row = entry
  quiet : ∀ entry : Entry, cursor < entry.key → Quiet start finish entry.key →
    (entry ∈ puts ↔ ∃ row, latestRow finish.history entry.key = some row ∧
      row.deleted = false ∧ rowEntry row = entry)

section Listing

variable {start before middle finish : World} {cursor : Bytes}

theorem inRange_from (cursor key : Bytes) :
    inRange [] (cursor ++ [0]) key = true ↔ cursor < key := by
  simp only [inRange, like_likePrefix_nil, Bool.true_and, decide_eq_true_eq]
  exact PrefixRange.concat_bot_le_iff

/-- A whole listing copies everything. -/
theorem copied_listing (beforeInv : before.Inv) (middleInv : middle.Inv)
    (first : Extends start before) (second : Extends before middle)
    (third : Extends middle finish) :
    Copied start finish cursor (listing before.db middle.db (cursor ++ [0])) := by
  have rows : ∀ row, row ∈ listRows middle.db.kv [] (cursor ++ [0]) (currentRevision before.db) ↔
      cursor < row.key ∧
        latestRowAt middle.db.kv row.key (currentRevision before.db) = some row ∧
        row.deleted = false := by
    intro row
    rw [mem_listRows_iff middleInv.storedDistinct, inRange_from]
  constructor
  · exact List.pairwise_map.mpr
      (listRows_pairwise middleInv.storedDistinct middleInv.storedNodup _ _ _)
  · intro entry member
    obtain ⟨row, listed, rfl⟩ := List.mem_map.mp member
    exact ((rows row).mp listed).1
  · intro entry member
    obtain ⟨row, listed, rfl⟩ := List.mem_map.mp member
    obtain ⟨_, found, live⟩ := (rows row).mp listed
    exact ⟨row, third.mem_history (middleInv.mem_history (newest_mem found)), live, rfl⟩
  · intro entry above quiet
    have read := quiet.read beforeInv middleInv first second third
    constructor
    · intro member
      obtain ⟨row, listed, rfl⟩ := List.mem_map.mp member
      obtain ⟨_, found, live⟩ := (rows row).mp listed
      exact ⟨row, read.symm.trans found, live, rfl⟩
    · rintro ⟨row, found, live, rfl⟩
      exact List.mem_map_of_mem ((rows row).mpr ⟨above, read.trans found, live⟩)

end Listing

/-- A full page and what is copied behind its last key. -/
theorem Copied.append {start middle finish : World} {cursor : Bytes} {items rest : List Entry}
    {size : Nat} {last : Entry} (copied : Copied start finish cursor items) (positive : 0 < size)
    (found : (items.take size).getLast? = some last) (later : Copied middle finish last.key rest)
    (between : ∀ key, Quiet start finish key → Quiet middle finish key) :
    Copied start finish cursor (items.take size ++ rest) := by
  have inItems : ∀ entry ∈ items.take size, entry ∈ items := fun _ => List.mem_of_mem_take
  have lastIn : last ∈ items := inItems last (List.mem_of_getLast? found)
  have highest : ∀ entry ∈ items.take size, entry.key ≤ last.key := by
    obtain ⟨front, split⟩ := List.getLast?_eq_some_iff.mp found
    have ordered : (front ++ [last]).Pairwise fun first second => first.key < second.key :=
      split ▸ copied.ascending.sublist (List.take_sublist size items)
    intro entry taken
    rw [split, List.mem_append, List.mem_singleton] at taken
    rcases taken with front | rfl
    · exact ((List.pairwise_append.mp ordered).2.2 entry front last (.head _)).le
    · exact le_refl _
  constructor
  · apply List.pairwise_append.mpr
    refine ⟨copied.ascending.sublist (List.take_sublist size items), later.ascending, ?_⟩
    exact fun entry taken other copiedLater =>
      (highest entry taken).trans_lt (later.behind other copiedLater)
  · intro entry member
    rcases List.mem_append.mp member with taken | copiedLater
    · exact copied.behind entry (inItems entry taken)
    · exact (copied.behind last lastIn).trans (later.behind entry copiedLater)
  · intro entry member
    rcases List.mem_append.mp member with taken | copiedLater
    · exact copied.committed entry (inItems entry taken)
    · exact later.committed entry copiedLater
  · intro entry above quiet
    rw [List.mem_append]
    rcases lt_or_ge last.key entry.key with beyond | within
    · rw [← later.quiet entry beyond (between _ quiet)]
      exact or_iff_right fun taken => absurd (highest entry taken) (not_le.mpr beyond)
    · rw [← copied.quiet entry above quiet]
      constructor
      · rintro (taken | copiedLater)
        · exact inItems entry taken
        · exact absurd (later.behind entry copiedLater) (not_lt.mpr within)
      · intro member
        rcases Paging.mem_take_or_last_lt positive copied.ascending member with
          taken | ⟨_, other, same, beyond⟩
        · exact .inl taken
        · obtain rfl := Option.some.inj (found.symm.trans same)
          exact absurd beyond (not_lt.mpr within)

/-! ## The loop -/

section Loop

variable {cfg : Config} {putOk : Nat → Bool}

/-- One round, once its page is there. -/
theorem copyPage_served (off : cfg.dryRun = false) (positive : 1 ≤ cfg.batchSize)
    (page : List Entry) (progress : Progress) :
    copyPage cfg (fun _ _ => some page) putOk progress =
      if (page.length : Int) < cfg.batchSize then
        (page, page.foldl (Progress.put putOk) progress, some .copied)
      else (page, (page.foldl (Progress.put putOk) progress).turnPage page, none) := by
  cases page with
  | nil =>
      have short : 0 < cfg.batchSize := by omega
      simp [copyPage, short]
  | cons kv rest => simp [copyPage, off]

theorem Progress.turnPage_count (progress : Progress) (kvs : List Entry) :
    (progress.turnPage kvs).migrated + (progress.turnPage kvs).failed =
      progress.migrated + progress.failed := by
  unfold Progress.turnPage
  split <;> rfl

/-- Every full page takes the loop past a key of the history. -/
theorem countP_behind_lt {rows : List Row} {cursor last : Bytes} (above : cursor < last)
    {row : Row} (membership : row ∈ rows) (named : row.key = last) :
    rows.countP (fun row => decide (last < row.key)) <
      rows.countP (fun row => decide (cursor < row.key)) := by
  have nested : rows.filter (fun row => decide (last < row.key)) =
      (rows.filter fun row => decide (cursor < row.key)).filter
        fun row => decide (last < row.key) := by
    rw [List.filter_filter]
    apply List.filter_congr
    intro other _
    simpa using above.trans
  rw [List.countP_eq_length_filter, List.countP_eq_length_filter, nested]
  apply List.length_filter_lt_length_iff_exists.mpr
  exact ⟨row, List.mem_filter.mpr ⟨membership, by simpa [named] using above⟩, by simp [named]⟩

theorem copyFrom_interleaved (off : cfg.dryRun = false) (positive : 1 ≤ cfg.batchSize)
    {fuel : Nat} {progress : Progress} {cursor : Bytes} (standing : progress.At cursor)
    {start finish : World} (inv : start.Inv) {accesses : List (World × World)}
    {result : Option (List Entry × Progress × Stop)}
    (ran : Interleaved World.environment (copyFrom cfg putOk fuel progress) start accesses finish
      result)
    (enough : finish.history.countP (fun row => decide (cursor < row.key)) < fuel) :
    ∃ puts final, result = some (puts, final, .copied) ∧ Copied start finish cursor puts ∧
      final.migrated + final.failed = progress.migrated + progress.failed + puts.length := by
  induction fuel generalizing progress cursor start accesses result with
  | zero => exact absurd enough (Nat.not_lt_zero _)
  | succ fuel inductionHypothesis =>
      obtain ⟨reads, others, middle, kvs, rfl, reading, ran⟩ := ran.of_bind
      obtain ⟨before, passed, passedAgain, rfl⟩ := getPage_interleaved reading
      have beforeInv := inv.reaches passed.2
      have middleInv := beforeInv.reaches passedAgain.2
      have first := extends_of_reaches passed.2
      have second := extends_of_reaches passedAgain.2
      obtain ⟨_, third⟩ := interleaved_extends ran middleInv
      rw [Progress.At] at standing
      rw [standing] at ran
      have copied : Copied start finish cursor (listing before.db middle.db (cursor ++ [0])) :=
        copied_listing beforeInv middleInv first second third
      have limited : 0 < cfg.batchSize := by omega
      have size : 0 < cfg.batchSize.toNat := by omega
      simp only [limitClause_of_pos limited, copyPage_served off positive] at ran
      generalize listing before.db middle.db (cursor ++ [0]) = items at ran copied
      by_cases short : ((items.take cfg.batchSize.toNat).length : Int) < cfg.batchSize
      · simp only [short, if_true] at ran
        cases ran with
        | ret =>
            have whole : items.take cfg.batchSize.toNat = items := by
              apply List.take_of_length_le
              rw [List.length_take] at short
              omega
            rw [whole]
            exact ⟨items, _, rfl, copied, Progress.puts_count ..⟩
      · simp only [short, if_false] at ran
        obtain ⟨laterReads, none, reached, rest, rfl, copying, ran⟩ := ran.of_bind
        cases ran with
        | ret =>
            have full : (items.take cfg.batchSize.toNat).length = cfg.batchSize.toNat := by
              rw [List.length_take] at short ⊢
              omega
            have nonempty : items.take cfg.batchSize.toNat ≠ [] :=
              List.ne_nil_of_length_pos (by omega)
            obtain ⟨last, found⟩ : ∃ last, (items.take cfg.batchSize.toNat).getLast? = some last :=
              ⟨_, List.getLast?_eq_some_getLast nonempty⟩
            have inItems : last ∈ items := List.mem_of_mem_take (List.mem_of_getLast? found)
            have turned : (((items.take cfg.batchSize.toNat).foldl (Progress.put putOk)
                progress).turnPage (items.take cfg.batchSize.toNat)).At last.key := by
              simp only [Progress.turnPage, found]
              exact if_neg (List.append_ne_nil_of_right_ne_nil _ (List.cons_ne_nil _ _))
            obtain ⟨row, membership, _, named⟩ := copied.committed last inItems
            have fewer := countP_behind_lt (copied.behind last inItems) membership
              (congrArg Entry.key named)
            obtain ⟨puts, final, rfl, copiedLater, number⟩ :=
              inductionHypothesis turned middleInv copying (by omega)
            refine ⟨items.take cfg.batchSize.toNat ++ puts, final, rfl,
              copied.append size found copiedLater ?_, ?_⟩
            · exact fun key quiet => quiet.between middleInv (first.trans second) third
            · rw [number, Progress.turnPage_count, Progress.puts_count, List.length_append]
              omega

end Loop

/-- The source is a server in use, and every page is a `Range` call among the
calls, transactions and compactions of others.  The loop comes to an end after
at most one page more than rows have ever been committed; it puts each key at
most once, in order, with a value that was written; and of the keys that nobody
writes meanwhile, other than the empty one, it puts exactly the live ones, with
their values. -/
theorem live_migration_copies_quiet_keys (cfg : Config) (off : cfg.dryRun = false)
    (positive : 1 ≤ cfg.batchSize) (putOk : Nat → Bool) {start finish : World}
    (reachable : Reachable start) {fuel : Nat} (enough : finish.history.length < fuel)
    {accesses : List (World × World)} {result : Option (List Entry × Progress × Stop)}
    (ran : Interleaved World.environment (copyFrom cfg putOk fuel .start) start accesses finish
      result) :
    ∃ puts final, result = some (puts, final, .copied) ∧ Copied start finish [] puts ∧
      final.migrated + final.failed = puts.length := by
  have standing : Progress.start.At [] := if_pos rfl
  have few := (List.countP_le_length (l := finish.history)
    (p := fun row : Row => decide ([] < row.key))).trans_lt enough
  obtain ⟨puts, final, copied, all, number⟩ :=
    copyFrom_interleaved off positive standing reachable.inv ran few
  refine ⟨puts, final, copied, all, ?_⟩
  simpa [Progress.start] using number

/-- Two keys. -/
def twoKeysRun : List Action :=
  [.write (.create (ascii "a") (some (ascii "u")) 0) 5, .write (.create (ascii "b") none 0) 6]

def twoKeysWorld : World := (Runs.run World.step World.init twoKeysRun).getD World.init

/-- The first key, which is on the first page, is deleted before the second. -/
def firstDeleted : List Action := [.write (.delete (ascii "a") 0) 7]

def firstDeletedWorld : World :=
  (Runs.run World.step twoKeysWorld firstDeleted).getD twoKeysWorld

theorem twoKeys_copying :
    Interleaved World.environment (copyFrom ⟨1, true, false⟩ (fun _ => true) 4 .start) twoKeysWorld
      (List.replicate 3 (twoKeysWorld, twoKeysWorld) ++
        List.replicate 6 (firstDeletedWorld, firstDeletedWorld)) firstDeletedWorld
      (some ([⟨ascii "a", ascii "u"⟩, ⟨ascii "b", []⟩], ⟨ascii "b" ++ [0], 2, 0⟩, .copied)) := by
  have reachable : Reachable twoKeysWorld := ⟨twoKeysRun, rfl⟩
  have passed : World.environment.later twoKeysWorld twoKeysWorld := ⟨reachable.inv, [], rfl⟩
  have deleted : World.environment.later twoKeysWorld firstDeletedWorld :=
    ⟨reachable.inv, firstDeleted, rfl⟩
  have passedLater : World.environment.later firstDeletedWorld firstDeletedWorld :=
    ⟨reachable.inv.reaches deleted.2, [], rfl⟩
  exact .observe passed (.observe passed (.observe passed (.observe deleted (.observe passedLater
    (.observe passedLater (.observe passedLater (.observe passedLater (.observe passedLater
      (.ret _ _)))))))))

/-- The second key is copied, with its empty value. -/
theorem twoKeys_copied :
    ∃ puts, Copied twoKeysWorld firstDeletedWorld [] puts ∧
      Quiet twoKeysWorld firstDeletedWorld (ascii "b") ∧
      (⟨ascii "b", []⟩ : Entry) ∈ puts := by
  obtain ⟨puts, final, same, copied, _⟩ := live_migration_copies_quiet_keys ⟨1, true, false⟩ rfl
    (by decide) (fun _ => true) ⟨twoKeysRun, rfl⟩ (by decide) twoKeys_copying
  obtain rfl : puts = _ := (congrArg Prod.fst (Option.some.inj same)).symm
  exact ⟨_, copied, rfl, .tail _ (.head _)⟩

end Migrate

end SpannerEtcd
