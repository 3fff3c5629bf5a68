import SpannerEtcd.Migrate.Copy
import SpannerEtcd.Server.Isolation

/-!
# Migrating into a server in use

Seen from the destination, a migration is a client: it puts pair after pair and
then reads every key once more.  Other clients may go on writing to the
destination, as long as they leave the keys of the source alone.
-/

namespace SpannerEtcd

open Program

namespace Session

variable {Result Other : Type}

/-- One call. -/
def ask (call : KeyCall) : Session (Option PlainResponse) := .act call .ret

theorem onMap_bind_of {session : Session Result} {next : Result → Session Other} {count after : Nat}
    {map final : PlainMap} {result : Result}
    (played : onMap session count map = (result, after, final)) :
    onMap (session >>= next) count map = onMap (next result) after final := by
  unfold onMap at played ⊢
  rw [exec_bind, played]

theorem onMap_ask (call : KeyCall) (count : Nat) (map : PlainMap) :
    onMap (ask call) count map =
      (call.request.respond map, count + 1, call.request.effect map) := rfl

theorem Within.bind {keys : Set Bytes} {session : Session Result} {next : Result → Session Other}
    (within : Within keys session) (continues : ∀ result, Within keys (next result)) :
    Within keys (session >>= next) := by
  induction session with
  | ret result => exact continues result
  | observe resume inductionHypothesis => exact inductionHypothesis () within
  | act call resume inductionHypothesis =>
      exact ⟨within.1, fun answer => inductionHypothesis answer (within.2 answer)⟩

theorem within_ask {keys : Set Bytes} {call : KeyCall} (spared : call.key ∈ keys) :
    Within keys (ask call) :=
  ⟨spared, fun _ => trivial⟩

end Session

namespace Migrate

/-! ## The tool as a client of the destination -/

/-- `dst.Put(ctx, key, string(kv.Value))`; an empty value is not sent. -/
def putCall (kv : Entry) : KeyCall :=
  .put { key := kv.key, value := if kv.value = [] then none else some kv.value, lease := 0
         prevKv := false }

/-- The puts of a page. -/
def putAll : List Entry → Progress → Session Progress
  | [], progress => return progress
  | kv :: rest, progress => do
      let answer ← Session.ask (putCall kv)
      putAll rest (progress.put (fun _ => answer.isSome) kv)

/-- The loop over the pages; `get` is a from-key read of the source. -/
def copyTo (cfg : Config) (get : Bytes → Int → Option (List Entry)) :
    Nat → Progress → Session (Option (Progress × Stop))
  | 0, _ => return none
  | fuel + 1, progress =>
      match get (if progress.lastKey = [] then [0] else progress.lastKey) cfg.batchSize with
      | none => return some (progress, .readFailed)
      | some kvs =>
          if kvs.isEmpty then return some (progress, .copied)
          else if cfg.dryRun ∧ progress.migrated = 0 then
            return some (progress, .sampled (kvs.take 10))
          else do
            let after ← putAll kvs progress
            if (kvs.length : Int) < cfg.batchSize then return some (after, .copied)
            else copyTo cfg get fuel (after.turnPage kvs)

/-- `dst.Get(ctx, key)`. -/
def entriesOf : Option PlainResponse → Option (List Entry)
  | some (.range kvs _) => some (kvs.map fun kv => ⟨kv.1, kv.2.value.getD []⟩)
  | _ => none

def compareAll : List Entry → Tally → Session Tally
  | [], tally => return tally
  | srcKV :: rest, tally => do
      let answer ← Session.ask (.get srcKV.key)
      compareAll rest (tally.compare (fun _ => entriesOf answer) srcKV)

def verifyAt (get : Bytes → Int → Option (List Entry)) : Session (Except RunErr Unit) :=
  match get [0] 0 with
  | none => return .error .verifyReadSource
  | some kvs => do
      let tally ← compareAll kvs ⟨0, 0, 0⟩
      if tally.missing > 0 ∨ tally.wrong > 0 then
        return .error (.verificationFailed tally.missing tally.wrong)
      else return .ok ()

def concludeAt (cfg : Config) (get : Bytes → Int → Option (List Entry)) (progress : Progress) :
    Stop → Session (Except RunErr Unit)
  | .readFailed => return .error .readSource
  | .sampled _ => return .ok ()
  | .copied =>
      if progress.failed > 0 then return .error (.keysFailed progress.failed)
      else if cfg.verify then verifyAt get
      else return .ok ()

/-- `run`, as the destination sees it. -/
def runInto (cfg : Config) (get : Bytes → Int → Option (List Entry)) (fuel : Nat) :
    Session (Option (Except RunErr Unit)) := do
  match ← copyTo cfg get fuel .start with
  | none => return none
  | some (progress, stop) => do
      let result ← concludeAt cfg get progress stop
      return some result

/-! ## On a map -/

/-- What a put leaves. -/
def store (map : PlainMap) (kv : Entry) : PlainMap :=
  Function.update map kv.key (some ⟨if kv.value = [] then none else some kv.value, 0⟩)

/-- The destination as the verification reads it. -/
def readBack (map : PlainMap) (key : Bytes) : Option (List Entry) :=
  some ((map key).map fun plain => (⟨key, plain.value.getD []⟩ : Entry)).toList

section OnMap

variable {cfg : Config} {get : Bytes → Int → Option (List Entry)} {map : PlainMap} {count : Nat}

theorem onMap_putAll (kvs : List Entry) (progress : Progress) :
    Session.onMap (putAll kvs progress) count map =
      (kvs.foldl (Progress.put fun _ => true) progress, count + kvs.length,
        kvs.foldl store map) := by
  induction kvs generalizing progress count map with
  | nil => rfl
  | cons kv rest inductionHypothesis =>
      rw [putAll, Session.onMap_bind_of (Session.onMap_ask ..)]
      refine (inductionHypothesis _).trans ?_
      simp only [List.length_cons, List.foldl_cons, Nat.add_assoc, Nat.add_comm 1]
      rfl

/-- The loop puts what `copyLoop` says. -/
theorem onMap_copyTo {fuel : Nat} {progress after : Progress} {puts : List Entry} {stop : Stop}
    (copied : copyLoop cfg get (fun _ => true) fuel progress = some (puts, after, stop)) :
    Session.onMap (copyTo cfg get fuel progress) count map =
      (some (after, stop), count + puts.length, puts.foldl store map) := by
  induction fuel generalizing progress count map puts with
  | zero => cases copied
  | succ fuel inductionHypothesis =>
      simp only [copyLoop, copyPage] at copied
      simp only [copyTo]
      generalize get (if progress.lastKey = [] then [0] else progress.lastKey) cfg.batchSize = page
        at copied ⊢
      cases page with
      | none =>
          obtain ⟨rfl, rfl, rfl⟩ : [] = puts ∧ progress = after ∧ Stop.readFailed = stop := by
            simpa using copied
          rfl
      | some kvs =>
          dsimp only at copied ⊢
          by_cases finished : kvs.isEmpty
          · rw [if_pos finished] at copied ⊢
            obtain ⟨rfl, rfl, rfl⟩ : [] = puts ∧ progress = after ∧ Stop.copied = stop := by
              simpa using copied
            rfl
          · rw [if_neg finished] at copied ⊢
            by_cases dry : cfg.dryRun ∧ progress.migrated = 0
            · rw [if_pos dry] at copied ⊢
              obtain ⟨rfl, rfl, rfl⟩ :
                  [] = puts ∧ progress = after ∧ Stop.sampled (kvs.take 10) = stop := by
                simpa using copied
              rfl
            · rw [if_neg dry] at copied ⊢
              rw [Session.onMap_bind_of (onMap_putAll kvs progress)]
              by_cases short : (kvs.length : Int) < cfg.batchSize
              · rw [if_pos short] at copied ⊢
                obtain ⟨rfl, rfl, rfl⟩ :
                    kvs = puts ∧ kvs.foldl (Progress.put fun _ => true) progress = after ∧
                      Stop.copied = stop := by
                  simpa using copied
                rfl
              · rw [if_neg short] at copied ⊢
                obtain ⟨⟨later, _⟩, rest, same⟩ := Option.map_eq_some_iff.mp copied
                obtain ⟨rfl, rfl⟩ := Prod.mk.inj same
                rw [inductionHypothesis rest, List.length_append, List.foldl_append,
                  Nat.add_assoc]

theorem entriesOf_get (map : PlainMap) (key : Bytes) :
    entriesOf ((KeyCall.get key).request.respond map) = readBack map key := by
  cases found : map key <;>
    simp [KeyCall.request, getRequest, RequestOp.respond, entriesOf, readBack, found]

theorem onMap_compareAll (kvs : List Entry) (tally : Tally) :
    Session.onMap (compareAll kvs tally) count map =
      (kvs.foldl (Tally.compare (readBack map)) tally, count + kvs.length, map) := by
  induction kvs generalizing tally count with
  | nil => rfl
  | cons srcKV rest inductionHypothesis =>
      have same : tally.compare (fun _ => readBack map srcKV.key) srcKV =
          tally.compare (readBack map) srcKV := rfl
      rw [compareAll, Session.onMap_bind_of (Session.onMap_ask ..), entriesOf_get, same]
      refine (inductionHypothesis _).trans ?_
      rw [List.length_cons, List.foldl_cons, Nat.add_assoc, Nat.add_comm 1]

/-- What follows the loop is what `conclude` makes of the map. -/
theorem onMap_concludeAt (progress : Progress) (stop : Stop) :
    ∃ after, Session.onMap (concludeAt cfg get progress stop) count map =
      (conclude cfg get (readBack map) progress stop, after, map) := by
  cases stop with
  | readFailed => exact ⟨_, rfl⟩
  | sampled kvs => exact ⟨_, rfl⟩
  | copied =>
      simp only [concludeAt, conclude]
      by_cases failing : progress.failed > 0
      · rw [if_pos failing, if_pos failing]
        exact ⟨_, rfl⟩
      · rw [if_neg failing, if_neg failing]
        by_cases verifying : cfg.verify
        · rw [if_pos verifying, if_pos verifying, verifyAt, verify]
          cases get [0] 0 with
          | none => exact ⟨_, rfl⟩
          | some kvs =>
              refine ⟨count + kvs.length, ?_⟩
              dsimp only
              rw [Session.onMap_bind_of (onMap_compareAll kvs ⟨0, 0, 0⟩)]
              split <;> rfl
        · rw [if_neg verifying, if_neg verifying]
          exact ⟨_, rfl⟩

theorem onMap_runInto {fuel : Nat} {after : Progress} {puts : List Entry} {stop : Stop}
    (copied : copyLoop cfg get (fun _ => true) fuel .start = some (puts, after, stop)) :
    ∃ calls, Session.onMap (runInto cfg get fuel) count map =
      (run cfg get (fun _ => true) (readBack (puts.foldl store map)) fuel, calls,
        puts.foldl store map) := by
  obtain ⟨calls, concluded⟩ : ∃ calls, Session.onMap (concludeAt cfg get after stop)
      (count + puts.length) (puts.foldl store map) = (_, calls, _) :=
    onMap_concludeAt after stop
  refine ⟨calls, ?_⟩
  rw [runInto, Session.onMap_bind_of (onMap_copyTo copied)]
  dsimp only
  rw [Session.onMap_bind_of concluded, run, copied]
  rfl

end OnMap

/-! ## What the puts leave -/

/-- The pairs of the source over what was there before. -/
def Source.overlay (source : Source) (map : PlainMap) : PlainMap := fun key =>
  match source.entries.find? fun entry => decide (entry.key = key) with
  | some entry => some ⟨if entry.value = [] then none else some entry.value, 0⟩
  | none => map key

theorem foldl_store_other {entries : List Entry} {key : Bytes}
    (other : ∀ entry ∈ entries, entry.key ≠ key) (map : PlainMap) :
    entries.foldl store map key = map key := by
  induction entries generalizing map with
  | nil => rfl
  | cons entry rest inductionHypothesis =>
      obtain ⟨different, others⟩ := List.forall_mem_cons.mp other
      rw [List.foldl_cons, inductionHypothesis others, store, Function.update_of_ne different.symm]

theorem foldl_store (source : Source) (map : PlainMap) :
    source.entries.foldl store map = source.overlay map := by
  funext key
  have ascending := source.ascending
  unfold Source.overlay
  generalize source.entries = entries at ascending
  induction entries generalizing map with
  | nil => rfl
  | cons entry rest inductionHypothesis =>
      obtain ⟨first, later⟩ := List.pairwise_cons.mp ascending
      by_cases same : entry.key = key
      · subst same
        have others : ∀ other ∈ rest, other.key ≠ entry.key :=
          fun other membership => (first other membership).ne'
        rw [List.foldl_cons, foldl_store_other others, List.find?_cons_of_pos (by simp), store,
          Function.update_self]
      · rw [List.foldl_cons, inductionHypothesis (store map entry) later,
          List.find?_cons_of_neg (by simpa using same), store, Function.update_of_ne (Ne.symm same)]

theorem Source.overlay_entry (source : Source) (map : PlainMap) {entry : Entry}
    (membership : entry ∈ source.entries) :
    source.overlay map entry.key =
      some ⟨if entry.value = [] then none else some entry.value, 0⟩ := by
  unfold Source.overlay
  cases found : source.entries.find? fun other => decide (other.key = entry.key) with
  | none =>
      have missing := List.find?_eq_none.mp found entry membership
      simp at missing
  | some other =>
      have sameKey : other.key = entry.key := by simpa using List.find?_some found
      have distinct : (source.entries.map Entry.key).Nodup :=
        (List.pairwise_map.mpr source.ascending).imp fun below => below.ne
      rw [List.inj_on_of_nodup_map distinct (List.mem_of_find?_eq_some found) membership sameKey]

theorem overlay_holds (source : Source) (map : PlainMap) :
    ∀ entry ∈ source.entries, holds (readBack (source.overlay map)) entry = true := by
  intro entry membership
  simp only [holds, readBack, source.overlay_entry map membership]
  by_cases empty : entry.value = [] <;> simp [empty]

/-! ## The keys of a migration -/

section Within

variable {keys : Set Bytes}

theorem within_putAll {kvs : List Entry} (spared : ∀ kv ∈ kvs, kv.key ∈ keys)
    (progress : Progress) : Session.Within keys (putAll kvs progress) := by
  induction kvs generalizing progress with
  | nil => trivial
  | cons kv rest inductionHypothesis =>
      obtain ⟨first, later⟩ := List.forall_mem_cons.mp spared
      have asked : Session.Within keys (Session.ask (putCall kv)) := Session.within_ask first
      apply asked.bind
      intro answer
      exact inductionHypothesis later _

theorem within_compareAll {kvs : List Entry} (spared : ∀ kv ∈ kvs, kv.key ∈ keys)
    (tally : Tally) : Session.Within keys (compareAll kvs tally) := by
  induction kvs generalizing tally with
  | nil => trivial
  | cons kv rest inductionHypothesis =>
      obtain ⟨first, later⟩ := List.forall_mem_cons.mp spared
      have asked : Session.Within keys (Session.ask (.get kv.key)) := Session.within_ask first
      apply asked.bind
      intro answer
      exact inductionHypothesis later _

variable {cfg : Config} {get : Bytes → Int → Option (List Entry)}
  (spared : ∀ fromKey limit kvs, get fromKey limit = some kvs → ∀ kv ∈ kvs, kv.key ∈ keys)

include spared

theorem within_copyTo (fuel : Nat) (progress : Progress) :
    Session.Within keys (copyTo cfg get fuel progress) := by
  induction fuel generalizing progress with
  | zero => trivial
  | succ fuel inductionHypothesis =>
      unfold copyTo
      split
      · trivial
      next kvs read =>
        split
        · trivial
        · split
          · trivial
          · apply (within_putAll (spared _ _ kvs read) progress).bind
            intro after
            split
            · trivial
            · exact inductionHypothesis _

theorem within_concludeAt (progress : Progress) (stop : Stop) :
    Session.Within keys (concludeAt cfg get progress stop) := by
  cases stop with
  | readFailed => trivial
  | sampled kvs => trivial
  | copied =>
      simp only [concludeAt]
      split
      · trivial
      · split
        · unfold verifyAt
          split
          · trivial
          next kvs read =>
            apply (within_compareAll (spared _ _ kvs read) _).bind
            intro tally
            split <;> trivial
        · trivial

theorem within_runInto (fuel : Nat) : Session.Within keys (runInto cfg get fuel) := by
  apply (within_copyTo spared fuel .start).bind
  rintro (_ | ⟨progress, stop⟩)
  · trivial
  · exact (within_concludeAt spared progress stop).bind fun _ => trivial

end Within

theorem Source.mem_of_get {source : Source} {fromKey : Bytes} {limit : Int} {kvs : List Entry}
    (read : source.get fromKey limit = some kvs) : ∀ kv ∈ kvs, kv ∈ source.entries := by
  intro kv membership
  obtain rfl := Option.some.inj read
  split at membership
  · exact (List.mem_filter.mp membership).1
  · exact (List.mem_filter.mp (List.mem_of_mem_take membership)).1

/-- A migration into a server that others use, but not for the keys of the
source, ends without an error: every pair of the source is there, without a
lease, and of the other keys those that nobody writes are as before. -/
theorem migration_reaches_destination (source : Source) (cfg : Config) (off : cfg.dryRun = false)
    (positive : 1 ≤ cfg.batchSize) {keys : Set Bytes}
    (spared : ∀ entry ∈ source.entries, entry.key ∈ keys) {world : World}
    (reachable : Reachable world) {fuel : Nat} (enough : source.entries.length < fuel) :
    (Session.onServer (runInto cfg source.get fuel)).Ensures (World.sparing keys)
      (fun final result => result = some (.ok ()) ∧
        ∀ key ∈ keys, final.plain key = source.overlay world.plain key) world := by
  have within : Session.Within keys (runInto cfg source.get fuel) := by
    apply within_runInto
    intro fromKey limit kvs read kv membership
    exact spared kv (Source.mem_of_get read kv membership)
  obtain ⟨lastKey, copied⟩ : ∃ lastKey, copyLoop cfg source.get (fun _ => true) fuel .start =
      some (source.entries, { source.entries.foldl (Progress.put fun _ => true) .start with
        lastKey := lastKey }, .copied) := copyLoop_start source off positive enough
  obtain ⟨calls, played⟩ : ∃ calls, Session.onMap (runInto cfg source.get fuel) 0 world.plain =
      (_, calls, _) := onMap_runInto copied
  have ended : run cfg source.get (fun _ => true) (readBack (source.overlay world.plain)) fuel =
      some (.ok ()) :=
    migration_ends_well source cfg off positive (overlay_holds source world.plain) fuel enough
  rw [foldl_store, ended] at played
  have agrees : Agrees keys world.plain world := ⟨reachable.inv, fun _ _ => rfl⟩
  refine (Session.onServer_ensures 0 within agrees).mono ?_
  rw [played]
  rintro final result ⟨answered, later⟩
  exact ⟨answered, later.shown⟩

/-- Into a server that has the key `k`, which the source has not, while others
write the key `z`. -/
theorem fourKeys_reach_destination :
    (Session.onServer (runInto ⟨2, true, false⟩ fourKeys.get 5)).Ensures
      (World.sparing {key | key ≠ ascii "z"})
      (fun final result => result = some (.ok ()) ∧
        final.plain (ascii "b") = some ⟨some (ascii "x"), 0⟩ ∧
        final.plain (ascii "k") = some ⟨some (ascii "v"), 7⟩) createdWorld := by
  have spared : ∀ entry ∈ fourKeys.entries, entry.key ≠ ascii "z" := by decide
  refine (migration_reaches_destination fourKeys ⟨2, true, false⟩ rfl (by decide) spared
    createdWorld_reachable (by decide)).mono ?_
  rintro final result ⟨ended, shown⟩
  exact ⟨ended, (shown (ascii "b") (by decide)).trans rfl,
    (shown (ascii "k") (by decide)).trans rfl⟩

end Migrate

end SpannerEtcd
