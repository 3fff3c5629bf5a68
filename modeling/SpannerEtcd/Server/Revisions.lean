import SpannerEtcd.Server.Handlers
import SpannerEtcd.Store.Range
import SpannerEtcd.Store.Refinement

/-!
# Revisions in responses

A response carries a revision in its header and revisions in its key-values.
They come from many places: commit timestamps, reads of the current revision
before or after the data, the last operation of a loop.  Clients rely on two
things, whatever the calls run next to: the header is not older than anything
in the response, and a call does not report an older revision than a call that
had returned before it started.
-/

namespace SpannerEtcd

open VersionedLog

/-- A revision that a call reports: at least the current revision `floor` at
its start, at most the current one, and at least those of the entries that
come with it. -/
structure Reported (floor : Int) (world : World) (rev : Int) (entries : List KV) : Prop where
  floor_le : floor ≤ rev
  le_current : rev ≤ currentRevision world.db
  entries_le : ∀ kv ∈ entries, kv.rev ≤ rev

section Later

variable {world next : World} {floor rev : Int} {entries : List KV}

theorem currentRevision_later (passed : World.environment.later world next) :
    currentRevision world.db ≤ currentRevision next.db :=
  passed.1.currentRevision_mono (passed.1.reaches passed.2) (extends_of_reaches passed.2)

theorem Reported.later (reported : Reported floor world rev entries)
    (passed : World.environment.later world next) : Reported floor next rev entries :=
  ⟨reported.floor_le, reported.le_current.trans (currentRevision_later passed),
    reported.entries_le⟩

theorem Reported.above (reported : Reported floor world rev entries) :
    floor ≤ currentRevision world.db :=
  reported.floor_le.trans reported.le_current

end Later

/-! ## The reads -/

/-- The entry of a row at or below a cap. -/
theorem World.Inv.scanKV_rev {world : World} (inv : world.Inv) {row : Row}
    (membership : row ∈ world.db.kv) : (scanKV row).rev = row.rev :=
  tsToRev_of_exact (inv.storedExact row membership)

theorem World.Inv.latestRowAt_rev_le {world : World} (inv : world.Inv) {key : Bytes} {cap : Int}
    {row : Row} (found : latestRowAt world.db.kv key cap = some row) :
    (scanKV row).rev ≤ cap := by
  rw [inv.scanKV_rev (newest_mem found)]
  simpa using newest_visible found

namespace Store

variable {world : World} {floor : Int}

theorem currentRevision_ensures (above : floor ≤ SpannerEtcd.currentRevision world.db) :
    currentRevision.Ensures World.environment
      (fun world rev => Reported floor world rev []) world := by
  intro current passed
  exact ⟨above.trans (currentRevision_later passed), le_refl _, by simp⟩

def entriesOf {Result : Type} (entries : Result → List KV) : Except StoreErr Result → List KV
  | .ok result => entries result
  | .error _ => []

theorem get_ensures (above : floor ≤ SpannerEtcd.currentRevision world.db) (key : Bytes) :
    (get key 0).Ensures World.environment
      (fun world result => Reported floor world result.1 (entriesOf Option.toList result.2))
      world := by
  intro current passed final passedAgain
  have inv : final.Inv := passedAgain.1.reaches passedAgain.2
  refine ⟨above.trans (currentRevision_later passed), currentRevision_later passedAgain, ?_⟩
  intro kv membership
  change kv ∈ entriesOf Option.toList (SpannerEtcd.get current.db current.db final.db key 0).2
    at membership
  rw [get_current, entriesOf, Option.mem_toList] at membership
  obtain ⟨row, found, _, rfl⟩ := liveKV_eq_some_iff.mp membership
  exact inv.latestRowAt_rev_le found

theorem list_ensures (above : floor ≤ SpannerEtcd.currentRevision world.db)
    (pre startKey : Bytes) (limit : Int) :
    (list pre startKey limit 0).Ensures World.environment
      (fun world result => Reported floor world result.1 (entriesOf id result.2.2)) world := by
  intro current passed middle passedAgain final passedFinally
  have inv : final.Inv := passedFinally.1.reaches passedFinally.2
  refine ⟨above.trans (currentRevision_later passed),
    (currentRevision_later passedAgain).trans (currentRevision_later passedFinally), ?_⟩
  intro kv membership
  change kv ∈ entriesOf id
    (SpannerEtcd.list current.db middle.db final.db pre startKey limit 0).2.2 at membership
  rw [list_current, entriesOf, id, List.mem_map] at membership
  obtain ⟨row, listed, rfl⟩ := membership
  have inRows : row ∈ listRows final.db.kv pre startKey
      (SpannerEtcd.currentRevision current.db) :=
    (limitClause_sublist limit _).subset listed
  exact inv.latestRowAt_rev_le ((mem_listRows_iff inv.storedDistinct).mp inRows).2.1

theorem count_ensures (above : floor ≤ SpannerEtcd.currentRevision world.db)
    (pre startKey : Bytes) :
    (count pre startKey 0).Ensures World.environment
      (fun world result => Reported floor world result.1 []) world := by
  intro current passed final passedAgain
  exact ⟨above.trans (currentRevision_later passed), currentRevision_later passedAgain, by simp⟩

end Store

/-! ## The writes -/

theorem World.Inv.entry_rev_le {world : World} (inv : world.Inv) {key : Bytes} {kv : KV}
    (present : getLatestTxn world.db.kv key = some kv) : kv.rev ≤ currentRevision world.db := by
  obtain ⟨row, found, _, rfl⟩ := latestRow_of_getLatestTxn_some present
  rw [inv.scanKV_rev (newest_mem found)]
  exact SpannerEtcd.le_currentRevision inv.storedExact (newest_mem found)

theorem World.Inv.write_passes {world next : World} (inv : world.Inv) {op : WriteOp}
    {ts : CommitTs} (stepped : world.step (.write op ts) = some next) :
    World.environment.later world next :=
  ⟨inv, .single stepped⟩

/-- The timestamp of a commit lies above the current revision, and is the
current one afterwards. -/
theorem World.Inv.commit_rev {world next : World} (inv : world.Inv) {op : WriteOp} {ts : CommitTs}
    (stepped : world.step (.write op ts) = some next) {inserts : List KvInsert}
    (applied : op.apply world.db ts = world.db.commit ts inserts) {insert : KvInsert}
    (membership : insert ∈ inserts) :
    currentRevision world.db < tsToRev ts.ns ∧ tsToRev ts.ns ≤ currentRevision next.db := by
  have nextInv := inv.step stepped
  simp only [World.step, Option.ite_none_right_eq_some, Option.some.injEq] at stepped
  obtain ⟨later, rfl⟩ := stepped
  rw [tsToRev_of_exact ts.exact]
  refine ⟨inv.currentRevision_le_clock.trans_lt later, ?_⟩
  obtain ⟨rowId, found⟩ := exists_committedRow membership
  refine SpannerEtcd.le_currentRevision nextInv.storedExact
    (show insert.toRow rowId ts.ns ∈ (op.apply world.db ts).kv from ?_)
  rw [applied]
  exact List.mem_append_right _ found

theorem World.Inv.commit_reported {world next : World} (inv : world.Inv) {op : WriteOp}
    {ts : CommitTs} (stepped : world.step (.write op ts) = some next) {inserts : List KvInsert}
    (applied : op.apply world.db ts = world.db.commit ts inserts) {insert : KvInsert}
    (membership : insert ∈ inserts) {floor : Int} (above : floor ≤ currentRevision world.db)
    {entries : List KV} (read : ∀ kv ∈ entries, kv.rev ≤ currentRevision world.db) :
    Reported floor next (tsToRev ts.ns) entries := by
  obtain ⟨newer, current⟩ := inv.commit_rev stepped applied membership
  exact ⟨above.trans (le_of_lt newer), current,
    fun kv listed => (read kv listed).trans (le_of_lt newer)⟩

/-- The transaction of `Update` or `Delete` finds what it is to replace, or
changes nothing. -/
inductive CasOutcome (db : DB) (ts : CommitTs) (key : Bytes) :
    Except StoreErr CasResult × DB → Prop where
  | missed : CasOutcome db ts key (.ok ⟨0, getLatestTxn db.kv key, false⟩, db)
  | swapped (prev : KV) (insert : KvInsert) (present : getLatestTxn db.kv key = some prev) :
      CasOutcome db ts key (.ok ⟨tsToRev ts.ns, some prev, true⟩, db.commit ts [insert])

theorem CasOutcome.missed_of {db : DB} {ts : CommitTs} {key : Bytes} {prev : Option KV}
    (found : getLatestTxn db.kv key = prev) :
    CasOutcome db ts key (.ok ⟨reportedRevision none, prev, false⟩, db) :=
  found ▸ .missed

theorem update_outcome (db : DB) (ts : CommitTs) (key : Bytes) (value : Option Bytes)
    (revision leaseID : Int) :
    CasOutcome db ts key (update db ts none key value revision leaseID) := by
  cases found : getLatestTxn db.kv key with
  | none =>
      rw [update_of_absent ts none value revision leaseID found]
      exact .missed_of found
  | some prev =>
      by_cases agrees : prev.rev = revision
      · subst agrees
        rw [update_of_match ts none value leaseID found]
        exact .swapped prev _ found
      · rw [update_of_mismatch ts none value leaseID found agrees]
        exact .missed_of found

theorem delete_outcome (db : DB) (ts : CommitTs) (key : Bytes) (revision : Int) :
    CasOutcome db ts key (delete db ts none key revision) := by
  cases found : getLatestTxn db.kv key with
  | none =>
      rw [delete_of_absent ts none revision found]
      exact .missed_of found
  | some prev =>
      by_cases agrees : revision = 0 ∨ prev.rev = revision
      · rw [delete_of_match ts none found agrees]
        exact .swapped prev _ found
      · rw [delete_of_mismatch ts none found (not_or.mp agrees)]
        exact .missed_of found

/-- Without mutations a transaction reports the current revision it read. -/
theorem snapshotRevision_eq (db : DB) :
    (if snapshotRevision db.kv = 0 then 1 else snapshotRevision db.kv) = currentRevision db := by
  unfold snapshotRevision currentRevision
  cases (db.kv.map Row.rev).max? with
  | none => rfl
  | some ts =>
      have positive : 1 ≤ tsToRev ts := by
        unfold tsToRev
        dsimp only
        split <;> omega
      dsimp only
      split <;> split <;> omega

namespace Store

variable {world : World} {floor : Int}

theorem create_ensures (above : floor ≤ SpannerEtcd.currentRevision world.db) (key : Bytes)
    (value : Option Bytes) (leaseID : Int) :
    (create key value leaseID).Ensures World.environment
      (fun world result => floor ≤ SpannerEtcd.currentRevision world.db ∧
        ∀ rev, result = .ok rev → Reported floor world rev []) world := by
  rintro current _ next passed ⟨ts, stepped, rfl⟩
  have inv : current.Inv := passed.1.reaches passed.2
  have aboveNow := above.trans (currentRevision_later passed)
  refine ⟨aboveNow.trans (currentRevision_later (inv.write_passes stepped)), ?_⟩
  intro rev returned
  cases found : getLatestTxn current.db.kv key with
  | none =>
      simp only [WriteOp.answer, create_of_absent ts value leaseID found,
        Except.ok.injEq] at returned
      subst returned
      have applied : (WriteOp.create key value leaseID).apply current.db ts =
          current.db.commit ts [createInsert key value leaseID] := by
        simp only [WriteOp.apply, create_of_absent ts value leaseID found]
      exact inv.commit_reported stepped applied (List.mem_singleton_self _) aboveNow (by simp)
  | some prev =>
      simp [WriteOp.answer, create_of_present ts value leaseID found] at returned

/-- A compare-and-swap does not fail, it misses. -/
def CasReported (floor : Int) (world : World) (result : Except StoreErr CasResult) : Prop :=
  ∃ swap, result = .ok swap ∧ Reported floor world swap.rev swap.prev.toList

/-- A compare-and-swap, and the read of the revision that it reports if it
missed. -/
theorem cas_ensures (above : floor ≤ SpannerEtcd.currentRevision world.db) (op : WriteOp)
    {key : Bytes} (answer : op.Answer → Except StoreErr CasResult)
    (outcome : ∀ db ts, CasOutcome db ts key (answer (op.answer db ts), op.apply db ts)) :
    (transaction op >>= fun result => reported (answer result)).Ensures World.environment
      (CasReported floor) world := by
  rintro current _ next passed ⟨ts, stepped, rfl⟩
  have inv : current.Inv := passed.1.reaches passed.2
  have aboveNow := above.trans (currentRevision_later passed)
  have written := currentRevision_later (inv.write_passes stepped)
  change (reported (answer (op.answer current.db ts))).Ensures _ _ next
  have known := outcome current.db ts
  generalize answer (op.answer current.db ts) = result, applied : op.apply current.db ts = db
    at known ⊢
  cases known with
  | missed =>
      intro final passedAgain
      have reread := currentRevision_later passedAgain
      refine ⟨_, rfl, aboveNow.trans (written.trans reread), le_refl _, ?_⟩
      intro kv membership
      exact (inv.entry_rev_le (Option.mem_toList.mp membership)).trans (written.trans reread)
  | swapped prev insert present =>
      refine ⟨_, rfl, inv.commit_reported stepped applied (List.mem_singleton_self _) aboveNow ?_⟩
      intro kv membership
      obtain rfl := List.mem_singleton.mp membership
      exact inv.entry_rev_le present

theorem update_ensures (above : floor ≤ SpannerEtcd.currentRevision world.db) (key : Bytes)
    (value : Option Bytes) (revision leaseID : Int) :
    (update key value revision leaseID).Ensures World.environment (CasReported floor) world :=
  cas_ensures above (.update key value revision leaseID) id fun db ts =>
    update_outcome db ts key value revision leaseID

theorem delete_ensures (above : floor ≤ SpannerEtcd.currentRevision world.db) (key : Bytes)
    (revision : Int) :
    (delete key revision).Ensures World.environment (CasReported floor) world :=
  cas_ensures above (.delete key revision) id fun db ts => delete_outcome db ts key revision

theorem atomicTxn_ensures (above : floor ≤ SpannerEtcd.currentRevision world.db)
    (compares : List TxnCompare) (successOps failureOps : List TxnOp) :
    (atomicTxn compares successOps failureOps).Ensures World.environment
      (fun world result => ∀ done, result = .ok done →
        Reported floor world done.commitRev (done.results.filterMap TxnResult.kv)) world := by
  rintro current _ next passed ⟨ts, stepped, rfl⟩
  have inv : current.Inv := passed.1.reaches passed.2
  have aboveNow := above.trans (currentRevision_later passed)
  have written := currentRevision_later (inv.write_passes stepped)
  intro done returned
  cases valid : validateCompares compares with
  | error err =>
      simp [WriteOp.answer, atomicTxn_of_invalid ts successOps failureOps valid] at returned
  | ok _ =>
      cases checked : branchCheck (chosenOps current.db.kv compares successOps failureOps) with
      | error err => simp [WriteOp.answer, atomicTxn_of_error ts valid checked] at returned
      | ok _ =>
          have committed := atomicTxn_of_ok ts valid checked
          generalize chosenOps current.db.kv compares successOps failureOps = ops at committed
          simp only [WriteOp.answer, committed, Except.ok.injEq] at returned
          subst returned
          have read : ∀ kv ∈ (ops.map (txnResult current.db.kv)).filterMap TxnResult.kv,
              kv.rev ≤ SpannerEtcd.currentRevision current.db := by
            intro kv membership
            obtain ⟨_, listed, found⟩ := List.mem_filterMap.mp membership
            obtain ⟨op, _, rfl⟩ := List.mem_map.mp listed
            have present : getLatestTxn current.db.kv op.key = some kv := by
              unfold txnResult at found
              split at found <;> exact found
            exact inv.entry_rev_le present
          cases inserts : ops.filterMap (txnInsert current.db.kv) with
          | nil =>
              simp only [txnRevision, List.isEmpty_nil, if_true, snapshotRevision_eq]
              exact ⟨aboveNow, written, read⟩
          | cons insert rest =>
              simp only [txnRevision, List.isEmpty_cons, Bool.false_eq_true, if_false]
              have applied : (WriteOp.atomicTxn compares successOps failureOps).apply current.db
                  ts = current.db.commit ts (insert :: rest) := by
                simp only [WriteOp.apply, committed, inserts]
              exact inv.commit_reported stepped applied List.mem_cons_self aboveNow read

end Store

/-! ## The handlers -/

/-- The same of a revision in a response and the key-values in it. -/
structure Dated (floor : Int) (world : World) (rev : Int) (kvs : List KeyValue) : Prop where
  floor_le : floor ≤ rev
  le_current : rev ≤ currentRevision world.db
  kvs_le : ∀ kv ∈ kvs, kv.modRevision ≤ rev

/-- A key-value without data, or that of an entry. -/
def KeyValue.Shows (entries : List KV) (kv : KeyValue) : Prop :=
  kv.modRevision = 0 ∨ ∃ entry ∈ entries, kv.modRevision = entry.rev

theorem Reported.dated {floor : Int} {world : World} {rev : Int} {entries : List KV}
    (reported : Reported floor world rev entries) (positive : 1 ≤ floor) {kvs : List KeyValue}
    (shown : ∀ kv ∈ kvs, kv.Shows entries) : Dated floor world rev kvs where
  floor_le := reported.floor_le
  le_current := reported.le_current
  kvs_le := by
    intro kv membership
    rcases shown kv membership with empty | ⟨entry, listed, same⟩
    · have := reported.floor_le
      omega
    · exact same ▸ reported.entries_le entry listed

theorem toProtoKV_shows {entries : List KV} {entry : KV} (membership : entry ∈ entries) :
    (toProtoKV entry).Shows entries :=
  .inr ⟨entry, membership, rfl⟩

theorem prevKvsOf_shows (prevKv : Bool) (prev : Option KV) :
    ∀ kv ∈ prevKvsOf prevKv prev, kv.Shows prev.toList := by
  intro kv membership
  cases prev with
  | none => simp [prevKvsOf] at membership
  | some entry =>
      simp only [prevKvsOf, Option.map_some, Option.toList_some, List.mem_ite_nil_right,
        List.mem_singleton] at membership
      obtain ⟨-, rfl⟩ := membership
      exact toProtoKV_shows (by simp)

def PutResponse.keyValues (response : PutResponse) : List KeyValue := response.prevKv.toList

theorem putResponse_shows (request : PutRequest) (rev : Int) (prev : Option KV) :
    ∀ kv ∈ (putResponse request rev prev).keyValues, kv.Shows prev.toList := by
  intro kv membership
  refine prevKvsOf_shows request.prevKv prev kv ?_
  unfold PutResponse.keyValues putResponse at membership
  unfold prevKvsOf
  split at membership <;> simp_all

/-- What the calls guarantee of a response, if they return one. -/
def Answers {Response : Type} (header : Response → ResponseHeader)
    (kvs : Response → List KeyValue) (floor : Int) (world : World)
    (reply : Except GrpcErr Response) : Prop :=
  ∀ response, reply = .ok response →
    Dated floor world (header response).revision (kvs response)

section Handlers

variable {world : World} {floor : Int}

theorem range_ensures (above : floor ≤ currentRevision world.db) (positive : 1 ≤ floor)
    (request : RangeRequest) (current : request.revision = 0) :
    (range request).Ensures World.environment
      (Answers RangeResponse.header RangeResponse.kvs floor) world := by
  unfold range
  rw [current]
  split
  · refine (Store.get_ensures above request.key).bind ?_
    rintro after ⟨curRev, err | entry⟩ reported
    · rintro response ⟨⟩
    · cases entry with
      | none =>
          rintro response ⟨⟩
          exact reported.dated positive (by simp)
      | some kv =>
          dsimp only
          split
          · rintro response ⟨⟩
            exact reported.dated positive (by simp)
          · rintro response ⟨⟩
            exact reported.dated positive
              (List.forall_mem_singleton.mpr (toProtoKV_shows (List.mem_singleton_self kv)))
  · dsimp only
    split
    · refine (Store.count_ensures above _ request.key).bind ?_
      rintro after ⟨curRev, err | count⟩ reported
      · rintro response ⟨⟩
      · rintro response ⟨⟩
        exact reported.dated positive (by simp)
    · refine (Store.list_ensures above _ request.key request.limit).bind ?_
      rintro after ⟨curRev, compactRev, err | kvs⟩ reported
      · rintro response ⟨⟩
      · rintro response ⟨⟩
        refine reported.dated positive ?_
        intro kv membership
        obtain ⟨entry, listed, rfl⟩ := List.mem_map.mp membership
        split
        · exact .inl rfl
        · exact toProtoKV_shows listed

theorem put_ensures (above : floor ≤ currentRevision world.db) (positive : 1 ≤ floor)
    (request : PutRequest) :
    (put request).Ensures World.environment
      (Answers PutResponse.header PutResponse.keyValues floor) world := by
  unfold put
  refine (Store.create_ensures above request.key request.value request.lease).bind ?_
  rintro created (err | rev) ⟨aboveNow, reported⟩
  · cases err with
    | keyExists =>
        refine (Store.get_ensures aboveNow request.key).bind ?_
        rintro read ⟨_, err | kv⟩ got
        · rintro response ⟨⟩
        · refine (Store.update_ensures got.above request.key request.value _ request.lease).bind ?_
          rintro updated _ ⟨result, rfl, reported⟩
          rintro response ⟨⟩
          exact reported.dated positive (putResponse_shows request _ _)
    | _ => rintro response ⟨⟩
  · rintro response ⟨⟩
    exact (reported rev rfl).dated positive (by simp [PutResponse.keyValues])

theorem deleteKey_ensures (above : floor ≤ currentRevision world.db) (positive : 1 ≤ floor)
    (request : DeleteRangeRequest) :
    (deleteKey request).Ensures World.environment
      (Answers DeleteRangeResponse.header DeleteRangeResponse.prevKvs floor) world := by
  unfold deleteKey
  refine (Store.delete_ensures above request.key 0).bind ?_
  rintro deleted _ ⟨result, rfl, reported⟩
  rintro response ⟨⟩
  exact reported.dated positive (prevKvsOf_shows _ _)

/-! ### Loops -/

/-- A loop that has collected key-values and keeps the revision of its last
step, 0 before the first. -/
structure Progress (floor : Int) (world : World) (lastRev : Int) (kvs : List KeyValue) :
    Prop where
  above : floor ≤ currentRevision world.db
  dated : lastRev = 0 ∧ kvs = [] ∨ Dated floor world lastRev kvs

theorem Progress.start (above : floor ≤ currentRevision world.db) :
    Progress floor world 0 [] :=
  ⟨above, .inl ⟨rfl, rfl⟩⟩

/-- A step that reports at least what was current before it. -/
theorem Progress.extend {next : World} {lastRev rev : Int} {kvs added : List KeyValue}
    (progress : Progress floor world lastRev kvs)
    (dated : Dated (currentRevision world.db) next rev added) :
    Progress floor next rev (kvs ++ added) := by
  have newer := dated.floor_le
  refine ⟨(progress.above.trans newer).trans dated.le_current,
    .inr ⟨progress.above.trans newer, dated.le_current, ?_⟩⟩
  intro kv membership
  rcases List.mem_append.mp membership with old | new
  · rcases progress.dated with ⟨-, rfl⟩ | before
    · cases old
    · exact ((before.kvs_le kv old).trans before.le_current).trans newer
  · exact dated.kvs_le kv new

theorem Progress.finish {lastRev : Int} {kvs : List KeyValue}
    (progress : Progress floor world lastRev kvs) (positive : 1 ≤ floor) :
    (revisionOrCurrent lastRev).Ensures World.environment
      (fun world rev => Dated floor world rev kvs) world := by
  unfold revisionOrCurrent
  rcases progress.dated with ⟨rfl, rfl⟩ | dated
  · rw [if_pos rfl]
    exact (Store.currentRevision_ensures progress.above).mono fun _ _ reported =>
      reported.dated positive (by simp)
  · have := dated.floor_le
    rw [if_neg (by omega)]
    exact dated

theorem Progress.add {next : World} {done : Deletions} {result : CasResult} (prevKv : Bool)
    (progress : Progress floor world done.lastRev done.prevKvs)
    (reported : Reported (currentRevision world.db) next result.rev result.prev.toList) :
    Progress floor next (done.add prevKv result).lastRev (done.add prevKv result).prevKvs := by
  have positive := one_le_currentRevision world.db
  unfold Deletions.add
  split
  · exact progress.extend (reported.dated positive (prevKvsOf_shows prevKv result.prev))
  · refine ⟨progress.above.trans reported.above, progress.dated.imp_right fun dated => ?_⟩
    exact ⟨dated.floor_le, dated.le_current.trans reported.above, dated.kvs_le⟩

theorem deleteListed_ensures (prevKv : Bool) (kvs : List KV) {done : Deletions}
    (progress : Progress floor world done.lastRev done.prevKvs) :
    (deleteListed prevKv done kvs).Ensures World.environment
      (fun world done => Progress floor world done.lastRev done.prevKvs) world := by
  induction kvs generalizing world done with
  | nil => exact progress
  | cons kv rest inductionHypothesis =>
      unfold deleteListed
      refine (Store.delete_ensures (le_refl _) kv.key 0).bind ?_
      rintro deleted _ ⟨result, rfl, reported⟩
      exact inductionHypothesis (progress.add prevKv reported)

/-- The response to a loop over the listed keys. -/
theorem deletionsResponse_ensures {done : Deletions} (positive : 1 ≤ floor)
    (progress : Progress floor world done.lastRev done.prevKvs) :
    (deletionsResponse done).Ensures World.environment
      (fun world response => Dated floor world response.header.revision response.prevKvs)
      world := by
  unfold deletionsResponse
  refine (progress.finish positive).bind ?_
  intro _ _ dated
  exact dated

theorem deleteRange_ensures (above : floor ≤ currentRevision world.db) (positive : 1 ≤ floor)
    (request : DeleteRangeRequest) :
    (deleteRange request).Ensures World.environment
      (Answers DeleteRangeResponse.header DeleteRangeResponse.prevKvs floor) world := by
  unfold deleteRange
  split
  · exact deleteKey_ensures above positive request
  · refine (Store.list_ensures above _ request.key 0).bind ?_
    rintro listed ⟨_, _, err | kvs⟩ reported
    · rintro response ⟨⟩
    · refine (deleteListed_ensures request.prevKv kvs (.start reported.above)).bind ?_
      intro looped done progress
      refine (deletionsResponse_ensures positive progress).bind ?_
      rintro finished response dated _ ⟨⟩
      exact dated

theorem putIgnoring_ensures (above : floor ≤ currentRevision world.db) (positive : 1 ≤ floor)
    (request : PutRequest) :
    (putIgnoring request).Ensures World.environment
      (Answers PutResponse.header PutResponse.keyValues floor) world := by
  unfold putIgnoring
  refine (Store.get_ensures above request.key).bind ?_
  rintro read ⟨_, err | none | cur⟩ got
  · rintro response ⟨⟩
  · rintro response ⟨⟩
  · refine (Store.update_ensures got.above request.key _ cur.rev _).bind ?_
    rintro updated _ ⟨result, rfl, reported⟩
    dsimp only
    split
    · rintro response ⟨⟩
      exact reported.dated positive (putResponse_shows request _ _)
    · rintro response ⟨⟩

theorem deleteInRange_ensures (request : DeleteRangeRequest) (kvs : List KV) {done : Deletions}
    (progress : Progress floor world done.lastRev done.prevKvs) :
    (deleteInRange request done kvs).Ensures World.environment
      (fun world result => ∀ done, result = .ok done →
        Progress floor world done.lastRev done.prevKvs) world := by
  induction kvs generalizing world done with
  | nil =>
      rintro _ ⟨⟩
      exact progress
  | cons kv rest inductionHypothesis =>
      unfold deleteInRange
      split
      · rintro _ ⟨⟩
        exact progress
      · refine (Store.delete_ensures (le_refl _) kv.key 0).bind ?_
        rintro deleted _ ⟨result, rfl, reported⟩
        exact inductionHypothesis (progress.add request.prevKv reported)

theorem deleteRangeFailFast_ensures (above : floor ≤ currentRevision world.db)
    (positive : 1 ≤ floor) (request : DeleteRangeRequest) :
    (deleteRangeFailFast request).Ensures World.environment
      (Answers DeleteRangeResponse.header DeleteRangeResponse.prevKvs floor) world := by
  unfold deleteRangeFailFast
  refine (Store.list_ensures above _ request.key 0).bind ?_
  rintro listed ⟨_, _, err | kvs⟩ reported
  · rintro response ⟨⟩
  · refine (deleteInRange_ensures request kvs (.start reported.above)).bind ?_
    rintro looped (err | done) progress
    · rintro response ⟨⟩
    · refine (deletionsResponse_ensures positive (progress done rfl)).bind ?_
      rintro finished response dated _ ⟨⟩
      exact dated

/-! ### Transactions -/

def ResponseOp.keyValues : ResponseOp → List KeyValue
  | .range response => response.kvs
  | .put response => response.keyValues
  | .deleteRange response => response.prevKvs

/-- No key-value of the response is newer than its header. -/
def ResponseOp.Coherent (response : ResponseOp) : Prop :=
  ∀ kv ∈ response.keyValues, kv.modRevision ≤ response.header.revision

def TxnResponse.keyValues (response : TxnResponse) : List KeyValue :=
  response.responses.flatMap ResponseOp.keyValues

def RequestOp.ReadsCurrent : RequestOp → Prop
  | .range request => request.revision = 0
  | _ => True

theorem Dated.cutRange {response : RangeResponse} (request : RangeRequest)
    (dated : Dated floor world response.header.revision response.kvs) :
    Dated floor world (cutRange request response).header.revision
      (SpannerEtcd.cutRange request response).kvs := by
  unfold SpannerEtcd.cutRange
  split
  · exact ⟨dated.floor_le, dated.le_current,
      fun kv membership => dated.kvs_le kv (List.mem_of_mem_filter membership)⟩
  · exact dated

/-- A response may be wrapped, if that keeps its revisions. -/
theorem answers_wrapped {Response : Type} {program : Call (Except GrpcErr Response)}
    {header : Response → ResponseHeader} {kvs : Response → List KeyValue}
    (answered : program.Ensures World.environment (Answers header kvs floor) world)
    {wrap : Response → ResponseOp}
    (kept : ∀ {world response}, Dated floor world (header response).revision (kvs response) →
      Dated floor world (wrap response).header.revision (wrap response).keyValues) :
    Program.Ensures World.environment (Answers ResponseOp.header ResponseOp.keyValues floor)
      (do
        let reply ← program
        return reply.map wrap) world := by
  refine answered.bind ?_
  rintro after (err | response) answers
  · rintro _ ⟨⟩
  · rintro _ ⟨⟩
    exact kept (answers response rfl)

theorem executeOp_ensures (above : floor ≤ currentRevision world.db) (positive : 1 ≤ floor)
    (op : RequestOp) (current : op.ReadsCurrent) :
    (executeOp op).Ensures World.environment
      (Answers ResponseOp.header ResponseOp.keyValues floor) world := by
  cases op with
  | range request =>
      exact answers_wrapped (range_ensures above positive request current) (·.cutRange request)
  | put request =>
      have answered : (executePut request).Ensures World.environment
          (Answers PutResponse.header PutResponse.keyValues floor) world := by
        unfold executePut
        split
        · exact putIgnoring_ensures above positive request
        · exact put_ensures above positive request
      exact answers_wrapped answered id
  | deleteRange request =>
      have answered : (executeDeleteRange request).Ensures World.environment
          (Answers DeleteRangeResponse.header DeleteRangeResponse.prevKvs floor) world := by
        unfold executeDeleteRange
        split
        · exact deleteRange_ensures above positive request
        · exact deleteRangeFailFast_ensures above positive request
      exact answers_wrapped answered id
  | unsupported => rintro _ ⟨⟩

theorem executeOps_ensures (positive : 1 ≤ floor) (ops : List RequestOp)
    (current : ∀ op ∈ ops, op.ReadsCurrent) {responses : List ResponseOp} {lastRev : Int}
    (progress : Progress floor world lastRev (responses.flatMap ResponseOp.keyValues))
    (coherent : ∀ response ∈ responses, response.Coherent) :
    (executeOps responses lastRev ops).Ensures World.environment
      (fun world reply => ∀ executed, reply = .ok executed →
        Dated floor world executed.2 (executed.1.flatMap ResponseOp.keyValues) ∧
          ∀ response ∈ executed.1, response.Coherent) world := by
  induction ops generalizing world responses lastRev with
  | nil =>
      refine (progress.finish positive).bind ?_
      rintro after rev dated _ ⟨⟩
      exact ⟨dated, coherent⟩
  | cons op rest inductionHypothesis =>
      unfold executeOps
      refine (executeOp_ensures (le_refl _) (one_le_currentRevision world.db) op
        (current op List.mem_cons_self)).bind ?_
      rintro after (err | response) answers
      · rintro _ ⟨⟩
      · have dated := answers response rfl
        refine inductionHypothesis
          (fun other membership => current other (List.mem_cons_of_mem op membership)) ?_ ?_
        · rw [List.flatMap_append, List.flatMap_singleton]
          exact progress.extend dated
        · intro other membership
          rcases List.mem_append.mp membership with old | new
          · exact coherent other old
          · obtain rfl := List.mem_singleton.mp new
            exact dated.kvs_le

theorem evaluateCompare_ensures (above : floor ≤ currentRevision world.db)
    (compares : List Compare) :
    (evaluateCompare compares).Ensures World.environment
      (fun world _ => floor ≤ currentRevision world.db) world := by
  induction compares generalizing world with
  | nil => exact above
  | cons compare rest inductionHypothesis =>
      unfold evaluateCompare
      refine (Store.get_ensures above compare.key).bind ?_
      rintro after ⟨_, err | kv⟩ got
      · exact got.above
      · dsimp only
        split
        · exact got.above
        · split
          · exact inductionHypothesis got.above
          · exact got.above

theorem txnResponseOp_shows {commitRev : Int} {result : TxnResult} {op : RequestOp}
    {response : ResponseOp} (made : txnResponseOp commitRev result op = some response) :
    response.header.revision = commitRev ∧
      ∀ kv ∈ response.keyValues, kv.Shows result.kv.toList := by
  cases op with
  | range request =>
      obtain rfl := Option.some.inj made
      refine ⟨rfl, fun kv membership => ?_⟩
      obtain ⟨entry, found, rfl⟩ := Option.map_eq_some_iff.mp (Option.mem_toList.mp membership)
      exact toProtoKV_shows (Option.mem_toList.mpr found)
  | put request =>
      obtain rfl := Option.some.inj made
      exact ⟨rfl, putResponse_shows request commitRev result.kv⟩
  | deleteRange request =>
      obtain rfl := Option.some.inj made
      exact ⟨rfl, prevKvsOf_shows request.prevKv result.kv⟩
  | unsupported => cases made

theorem KeyValue.Shows.mono {entries more : List KV} {kv : KeyValue} (shows : kv.Shows entries)
    (subset : entries ⊆ more) : kv.Shows more :=
  shows.imp_right fun ⟨entry, membership, same⟩ => ⟨entry, subset membership, same⟩

/-- The responses of the atomic path show what the transaction read, under one
revision. -/
theorem txnResponseOps_shows (commitRev : Int) (ops : List RequestOp) (results : List TxnResult) :
    ∀ response ∈ txnResponseOps commitRev ops results,
      response.header.revision = commitRev ∧
        ∀ kv ∈ response.keyValues, kv.Shows (results.filterMap TxnResult.kv) := by
  induction ops generalizing results with
  | nil => simp [txnResponseOps]
  | cons op rest inductionHypothesis =>
      intro response membership
      rcases List.mem_append.mp membership with first | later
      · obtain ⟨same, shows⟩ := txnResponseOp_shows (Option.mem_toList.mp first)
        refine ⟨same, fun kv listed => (shows kv listed).mono ?_⟩
        intro entry found
        cases results with
        | nil => cases found
        | cons result others =>
            exact List.mem_filterMap.mpr ⟨result, List.mem_cons_self, Option.mem_toList.mp found⟩
      · obtain ⟨same, shows⟩ := inductionHypothesis results.tail response later
        exact ⟨same, fun kv listed => (shows kv listed).mono
          ((List.tail_sublist results).filterMap TxnResult.kv).subset⟩

/-- What a transaction guarantees of its response. -/
def TxnAnswers (floor : Int) (world : World) (reply : Except GrpcErr TxnResponse) : Prop :=
  ∀ response, reply = .ok response →
    Dated floor world response.header.revision response.keyValues ∧
      ∀ nested ∈ response.responses, nested.Coherent

theorem txnAtomic_ensures (above : floor ≤ currentRevision world.db) (positive : 1 ≤ floor)
    (request : TxnRequest) :
    (txnAtomic request).Ensures World.environment (TxnAnswers floor) world := by
  unfold txnAtomic
  split
  · rintro _ ⟨⟩
  · refine (Store.atomicTxn_ensures above _ _ _).bind ?_
    rintro committed (err | result) reported
    · rintro _ ⟨⟩
    · have known := reported result rfl
      have nonzero : result.commitRev ≠ 0 := by
        have := known.floor_le
        omega
      dsimp only
      rw [revisionOrCurrent, if_neg nonzero]
      rintro _ ⟨⟩
      have shows := txnResponseOps_shows result.commitRev (request.chosen result.succeeded)
        result.results
      refine ⟨known.dated positive ?_, ?_⟩
      · intro kv membership
        obtain ⟨response, listed, inside⟩ := List.mem_flatMap.mp membership
        exact (shows response listed).2 kv inside
      · intro nested listed
        obtain ⟨same, inside⟩ := shows nested listed
        rw [ResponseOp.Coherent, same]
        exact (known.dated positive inside).kvs_le

theorem txnNonAtomic_ensures (above : floor ≤ currentRevision world.db) (positive : 1 ≤ floor)
    (request : TxnRequest)
    (current : ∀ succeeded, ∀ op ∈ request.chosen succeeded, op.ReadsCurrent) :
    (txnNonAtomic request).Ensures World.environment (TxnAnswers floor) world := by
  unfold txnNonAtomic
  split
  · rintro _ ⟨⟩
  · rintro _ ⟨⟩
  · refine (evaluateCompare_ensures above request.compare).bind ?_
    rintro compared (err | succeeded) aboveNow
    · rintro _ ⟨⟩
    · refine (executeOps_ensures positive _ (current succeeded) (.start aboveNow)
        (by simp)).bind ?_
      rintro executed (err | ⟨responses, rev⟩) done
      · rintro _ ⟨⟩
      · rintro _ ⟨⟩
        exact done (responses, rev) rfl

theorem txn_ensures (above : floor ≤ currentRevision world.db) (positive : 1 ≤ floor)
    (request : TxnRequest)
    (current : ∀ succeeded, ∀ op ∈ request.chosen succeeded, op.ReadsCurrent) :
    (txn request).Ensures World.environment (TxnAnswers floor) world := by
  unfold txn
  split
  · exact txnNonAtomic_ensures above positive request current
  · exact txnAtomic_ensures above positive request

end Handlers

end SpannerEtcd
