import SpannerEtcd.Lib.Paging
import SpannerEtcd.Lib.PrefixRange
import SpannerEtcd.Store.Schema

/-!
# The copy of a source

`migrate` reads a source in pages, each from the key that follows the last key
of the page before, and puts every pair into the destination.  It then reads
the source once more and compares.
-/

namespace SpannerEtcd

namespace Migrate

/-- The settings that matter once both clients are connected. -/
structure Config where
  batchSize : Int
  verify : Bool
  dryRun : Bool

structure Entry where
  key : Bytes
  value : Bytes
  deriving DecidableEq, Repr

structure Progress where
  lastKey : Bytes
  migrated : Nat
  failed : Nat
  deriving DecidableEq, Repr

def Progress.start : Progress := { lastKey := [], migrated := 0, failed := 0 }

/-- Why the loop over the pages ends. -/
inductive Stop where
  | readFailed
  /-- The keys that a dry run shows. -/
  | sampled (kvs : List Entry)
  | copied
  deriving DecidableEq, Repr

/-- One `Put`; `putOk` tells for each of them in turn whether it succeeds. -/
def Progress.put (putOk : Nat → Bool) (progress : Progress) (_ : Entry) : Progress :=
  if putOk (progress.migrated + progress.failed) then
    { progress with migrated := progress.migrated + 1 }
  else { progress with failed := progress.failed + 1 }

/-- The next page starts after the last key of this one. -/
def Progress.turnPage (progress : Progress) (kvs : List Entry) : Progress :=
  match kvs.getLast? with
  | none => progress
  | some kv => { progress with lastKey := kv.key ++ [0] }

/-- One round of the loop: its `Put` calls, the progress after it and whether
it is the last one.  `get` is a from-key read of the source. -/
def copyPage (cfg : Config) (get : Bytes → Int → Option (List Entry)) (putOk : Nat → Bool)
    (progress : Progress) : List Entry × Progress × Option Stop :=
  let fromKey := if progress.lastKey = [] then [0] else progress.lastKey
  match get fromKey cfg.batchSize with
  | none => ([], progress, some .readFailed)
  | some kvs =>
      if kvs.isEmpty then ([], progress, some .copied)
      else if cfg.dryRun ∧ progress.migrated = 0 then
        ([], progress, some (.sampled (kvs.take 10)))
      else
        let after := kvs.foldl (Progress.put putOk) progress
        if (kvs.length : Int) < cfg.batchSize then (kvs, after, some .copied)
        else (kvs, after.turnPage kvs, none)

def copyLoop (cfg : Config) (get : Bytes → Int → Option (List Entry)) (putOk : Nat → Bool) :
    Nat → Progress → Option (List Entry × Progress × Stop)
  | 0, _ => none
  | fuel + 1, progress =>
      match copyPage cfg get putOk progress with
      | (puts, after, some stop) => some (puts, after, stop)
      | (puts, after, none) =>
          (copyLoop cfg get putOk fuel after).map fun rest => (puts ++ rest.1, rest.2)

inductive RunErr where
  | readSource
  | keysFailed (failed : Nat)
  | verifyReadSource
  | verificationFailed (missing wrong : Nat)
  deriving DecidableEq, Repr

structure Tally where
  ok : Nat
  missing : Nat
  wrong : Nat
  deriving DecidableEq, Repr

/-- Compare one pair with what the destination returns for its key. -/
def Tally.compare (dst : Bytes → Option (List Entry)) (tally : Tally) (srcKV : Entry) : Tally :=
  match dst srcKV.key with
  | none | some [] => { tally with missing := tally.missing + 1 }
  | some (dstKV :: _) =>
      if dstKV.value ≠ srcKV.value then { tally with wrong := tally.wrong + 1 }
      else { tally with ok := tally.ok + 1 }

/-- `verify`.  A from-key read of the empty key is sent with a zero byte, and
the limit 0 is none. -/
def verify (get : Bytes → Int → Option (List Entry)) (dst : Bytes → Option (List Entry)) :
    Except RunErr Unit :=
  match get [0] 0 with
  | none => .error .verifyReadSource
  | some kvs =>
      let tally := kvs.foldl (Tally.compare dst) ⟨0, 0, 0⟩
      if tally.missing > 0 ∨ tally.wrong > 0 then
        .error (.verificationFailed tally.missing tally.wrong)
      else .ok ()

/-- What follows the loop. -/
def conclude (cfg : Config) (get : Bytes → Int → Option (List Entry))
    (dst : Bytes → Option (List Entry)) (progress : Progress) : Stop → Except RunErr Unit
  | .readFailed => .error .readSource
  | .sampled _ => .ok ()
  | .copied =>
      if progress.failed > 0 then .error (.keysFailed progress.failed)
      else if cfg.verify then verify get dst
      else .ok ()

/-- `run`, once both clients are connected. -/
def run (cfg : Config) (get : Bytes → Int → Option (List Entry)) (putOk : Nat → Bool)
    (dst : Bytes → Option (List Entry)) (fuel : Nat) : Option (Except RunErr Unit) :=
  (copyLoop cfg get putOk fuel .start).map fun copied =>
    conclude cfg get dst copied.2.1 copied.2.2

/-! ## A source that does not change -/

/-- A set of keys with their values, by key. -/
structure Source where
  entries : List Entry
  ascending : entries.Pairwise fun first second => first.key < second.key
  named : ∀ entry ∈ entries, entry.key ≠ []

/-- The first keys from the given one on. -/
def Source.get (source : Source) (fromKey : Bytes) (limit : Int) : Option (List Entry) :=
  let found := source.entries.filter fun entry => decide (fromKey ≤ entry.key)
  some (if limit ≤ 0 then found else found.take limit.toNat)

/-- The pairs behind a key. -/
def Source.behind (source : Source) (cursor : Bytes) : List Entry :=
  source.entries.filter fun entry => decide (cursor < entry.key)

/-- The next page is read from the key that follows `cursor`. -/
def Progress.At (progress : Progress) (cursor : Bytes) : Prop :=
  (if progress.lastKey = [] then [0] else progress.lastKey) = cursor ++ [0]

section

variable {source : Source} {cfg : Config} {putOk : Nat → Bool} {progress : Progress}
  {cursor : Bytes}

theorem Source.filter_from (source : Source) (cursor : Bytes) :
    source.entries.filter (fun entry => decide (cursor ++ [0] ≤ entry.key)) =
      source.behind cursor := by
  apply List.filter_congr
  intro entry _
  exact decide_eq_decide.mpr PrefixRange.concat_bot_le_iff

theorem Source.get_from (source : Source) (cursor : Bytes) {limit : Int} (positive : 1 ≤ limit) :
    source.get (cursor ++ [0]) limit = some ((source.behind cursor).take limit.toNat) := by
  have limited : ¬limit ≤ 0 := by omega
  simp only [Source.get, source.filter_from, if_neg limited]

/-- All keys come after the empty one. -/
theorem Source.behind_nil (source : Source) : source.behind [] = source.entries := by
  apply List.filter_eq_self.mpr
  intro entry membership
  have named := source.named entry membership
  rw [decide_eq_true_eq]
  cases key : entry.key with
  | nil => exact absurd key named
  | cons byte rest => exact List.nil_lt_cons byte rest

theorem Progress.put_count (progress : Progress) (putOk : Nat → Bool) (entry : Entry) :
    (progress.put putOk entry).migrated + (progress.put putOk entry).failed =
      progress.migrated + progress.failed + 1 := by
  unfold Progress.put
  split <;> simp only <;> omega

theorem Progress.puts_count (progress : Progress) (putOk : Nat → Bool) (kvs : List Entry) :
    (kvs.foldl (Progress.put putOk) progress).migrated +
        (kvs.foldl (Progress.put putOk) progress).failed =
      progress.migrated + progress.failed + kvs.length := by
  induction kvs generalizing progress with
  | nil => rfl
  | cons kv rest inductionHypothesis =>
      rw [List.foldl_cons, inductionHypothesis, Progress.put_count, List.length_cons]
      omega

/-- The counters do not depend on where the next page begins. -/
theorem Progress.puts_lastKey (progress : Progress) (putOk : Nat → Bool) (lastKey : Bytes)
    (kvs : List Entry) :
    kvs.foldl (Progress.put putOk) { progress with lastKey := lastKey } =
      { kvs.foldl (Progress.put putOk) progress with lastKey := lastKey } := by
  induction kvs generalizing progress with
  | nil => rfl
  | cons kv rest inductionHypothesis =>
      have same : { progress with lastKey := lastKey }.put putOk kv =
          { progress.put putOk kv with lastKey := lastKey } := by
        unfold Progress.put
        split <;> rfl
      rw [List.foldl_cons, same, inductionHypothesis, List.foldl_cons]

/-- A round of the loop reads one page behind the cursor. -/
theorem copyPage_eq (off : cfg.dryRun = false) (positive : 1 ≤ cfg.batchSize)
    (standing : progress.At cursor) :
    copyPage cfg source.get putOk progress =
      match Paging.readPage Entry.key cfg.batchSize.toNat source.behind cursor with
      | (page, none) => (page, page.foldl (Progress.put putOk) progress, some .copied)
      | (page, some last) =>
          (page, { page.foldl (Progress.put putOk) progress with lastKey := last ++ [0] },
            none) := by
  have size : 0 < cfg.batchSize.toNat := by omega
  rw [Progress.At] at standing
  simp only [copyPage, standing, source.get_from cursor positive, Paging.readPage]
  generalize (source.behind cursor).take cfg.batchSize.toNat = page
  cases page with
  | nil => simp [size]
  | cons kv rest =>
      have long : ((kv :: rest).length : Int) < cfg.batchSize ↔
          (kv :: rest).length < cfg.batchSize.toNat := by omega
      by_cases short : (kv :: rest).length < cfg.batchSize.toNat
      · simp only [List.isEmpty_cons, off, long, short, if_true, Bool.false_eq_true, if_false,
          false_and]
      · have found := List.getLast?_eq_some_getLast (List.cons_ne_nil kv rest)
        simp only [List.isEmpty_cons, off, long, short, Bool.false_eq_true, if_false, false_and,
          found, Option.map_some, Progress.turnPage]

/-- The `Put` calls of the loop are what is read page after page. -/
theorem copyLoop_of_readAll (off : cfg.dryRun = false) (positive : 1 ≤ cfg.batchSize)
    (standing : progress.At cursor) {fuel : Nat} {taken : List Entry}
    (read : Paging.readAll Entry.key cfg.batchSize.toNat source.behind fuel cursor = some taken) :
    ∃ lastKey, copyLoop cfg source.get putOk fuel progress = some (taken,
      { taken.foldl (Progress.put putOk) progress with lastKey := lastKey }, .copied) := by
  induction fuel generalizing progress cursor taken with
  | zero => cases read
  | succ fuel inductionHypothesis =>
      have round : copyPage cfg source.get putOk progress = _ := copyPage_eq off positive standing
      simp only [Paging.readAll, Paging.collect] at read
      simp only [copyLoop, round]
      generalize Paging.readPage Entry.key cfg.batchSize.toNat source.behind cursor = page at read ⊢
      obtain ⟨puts, next⟩ := page
      cases next with
      | none =>
          obtain rfl := Option.some.inj read
          exact ⟨_, rfl⟩
      | some last =>
          obtain ⟨rest, later, rfl⟩ := Option.map_eq_some_iff.mp read
          have turned : { puts.foldl (Progress.put putOk) progress with
              lastKey := last ++ [0] }.At last :=
            if_neg (List.append_ne_nil_of_right_ne_nil _ (List.cons_ne_nil _ _))
          obtain ⟨lastKey, copied⟩ := inductionHypothesis turned later
          refine ⟨lastKey, ?_⟩
          simp only [copied, Option.map_some, Progress.puts_lastKey, List.foldl_append]

theorem copyLoop_start (source : Source) (off : cfg.dryRun = false)
    (positive : 1 ≤ cfg.batchSize) {fuel : Nat} (enough : source.entries.length < fuel) :
    ∃ lastKey, copyLoop cfg source.get putOk fuel .start = some (source.entries,
      { source.entries.foldl (Progress.put putOk) .start with lastKey := lastKey }, .copied) := by
  have size : 0 < cfg.batchSize.toNat := by omega
  have all : (source.behind []).length < fuel := source.behind_nil ▸ enough
  have read : Paging.readAll Entry.key cfg.batchSize.toNat source.behind fuel [] =
      some (source.behind []) :=
    Paging.readAll_ascending source.ascending
      (fun cursor => List.filter_congr fun _ _ => decide_eq_decide.mpr Iff.rfl) size all
  rw [source.behind_nil] at read
  have standing : Progress.start.At [] := if_pos rfl
  exact copyLoop_of_readAll off positive standing read

end

/-- The loop comes to an end, and it has put every pair of the source into the
destination once, by key. -/
theorem copy_puts_each_key_once (source : Source) (cfg : Config) (off : cfg.dryRun = false)
    (positive : 1 ≤ cfg.batchSize) (putOk : Nat → Bool) :
    ∀ fuel > source.entries.length, ∃ final,
      copyLoop cfg source.get putOk fuel .start = some (source.entries, final, .copied) ∧
        final.migrated + final.failed = source.entries.length := by
  intro fuel enough
  obtain ⟨lastKey, copied⟩ := copyLoop_start source off positive enough
  refine ⟨_, copied, ?_⟩
  have number := Progress.start.puts_count putOk source.entries
  simpa [Progress.start] using number

/-- Four keys in pages of two; one is a prefix of the next, with a zero byte
in between. -/
def fourKeys : Source where
  entries := [⟨[0], ascii "u"⟩, ⟨ascii "a", ascii "v"⟩, ⟨ascii "a" ++ [0], ascii "w"⟩,
    ⟨ascii "b", ascii "x"⟩]
  ascending := by decide
  named := by decide

theorem fourKeys_copied :
    ∃ final, copyLoop ⟨2, true, false⟩ fourKeys.get (fun number => decide (number ≠ 2)) 5 .start =
        some (fourKeys.entries, final, .copied) ∧
      final.migrated + final.failed = 4 ∧ final.failed = 1 := by
  obtain ⟨final, copied, number⟩ := copy_puts_each_key_once fourKeys ⟨2, true, false⟩ rfl
    (by decide) (fun number => decide (number ≠ 2)) 5 (by decide)
  refine ⟨final, copied, number, ?_⟩
  cases copied
  decide

/-! ## What the verification finds -/

/-- The destination returns the value for the key. -/
def holds (dst : Bytes → Option (List Entry)) (entry : Entry) : Bool :=
  match dst entry.key with
  | none | some [] => false
  | some (dstKV :: _) => decide (dstKV.value = entry.value)

theorem Tally.compare_faults (dst : Bytes → Option (List Entry)) (tally : Tally) (entry : Entry) :
    (tally.compare dst entry).missing + (tally.compare dst entry).wrong =
      tally.missing + tally.wrong + if holds dst entry then 0 else 1 := by
  unfold Tally.compare holds
  split
  · simp only [Bool.false_eq_true, if_false]
    omega
  · simp only [Bool.false_eq_true, if_false]
    omega
  next dstKV _ _ =>
    by_cases same : dstKV.value = entry.value
    · simp [same]
    · simp [same, Nat.add_assoc]

theorem Tally.foldl_faults (dst : Bytes → Option (List Entry)) (tally : Tally)
    (entries : List Entry) :
    (entries.foldl (Tally.compare dst) tally).missing +
        (entries.foldl (Tally.compare dst) tally).wrong =
      tally.missing + tally.wrong + entries.countP fun entry => !holds dst entry := by
  induction entries generalizing tally with
  | nil => rfl
  | cons entry rest inductionHypothesis =>
      rw [List.foldl_cons, inductionHypothesis, Tally.compare_faults, List.countP_cons]
      cases holds dst entry with
      | true => simp
      | false =>
          simp only [Bool.false_eq_true, if_false, Bool.not_false, if_true]
          omega

/-- The verification passes if and only if the destination returns every value
of the source. -/
theorem verify_eq_ok_iff (source : Source) (dst : Bytes → Option (List Entry)) :
    verify source.get dst = .ok () ↔ ∀ entry ∈ source.entries, holds dst entry = true := by
  have whole : source.get [0] 0 = some source.entries := by
    have all := source.filter_from []
    rw [source.behind_nil, List.nil_append] at all
    simp only [Source.get, all, le_refl, if_true]
  have faults := Tally.foldl_faults dst ⟨0, 0, 0⟩ source.entries
  simp only [Nat.zero_add] at faults
  have none : source.entries.countP (fun entry => !holds dst entry) = 0 ↔
      ∀ entry ∈ source.entries, holds dst entry = true := by
    simp [List.countP_eq_zero]
  rw [← none]
  simp only [verify, whole]
  split
  next found =>
    refine iff_of_false (by simp) ?_
    omega
  next clean =>
    refine iff_of_true rfl ?_
    omega

theorem puts_failed_of_ok (progress : Progress) (kvs : List Entry) :
    (kvs.foldl (Progress.put fun _ => true) progress).failed = progress.failed := by
  induction kvs generalizing progress with
  | nil => rfl
  | cons kv rest inductionHypothesis => exact inductionHypothesis _

/-- A migration whose `Put` calls all succeed ends without an error if the
destination keeps what was put. -/
theorem migration_ends_well (source : Source) (cfg : Config) (off : cfg.dryRun = false)
    (positive : 1 ≤ cfg.batchSize) {dst : Bytes → Option (List Entry)}
    (keeps : ∀ entry ∈ source.entries, holds dst entry = true) :
    ∀ fuel > source.entries.length,
      run cfg source.get (fun _ => true) dst fuel = some (.ok ()) := by
  intro fuel enough
  obtain ⟨lastKey, copied⟩ : ∃ lastKey,
      copyLoop cfg source.get (fun _ => true) fuel .start = _ :=
    copyLoop_start source off positive enough
  have none : (source.entries.foldl (Progress.put fun _ => true) .start).failed = 0 :=
    puts_failed_of_ok .start source.entries
  simp only [run, copied, Option.map_some, conclude, none, lt_irrefl, if_false, Option.some.injEq]
  split
  · exact (verify_eq_ok_iff source dst).mpr keeps
  · rfl

end Migrate

end SpannerEtcd
