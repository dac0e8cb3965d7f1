import CsvProductUploader.Catalog.Replay
import CsvProductUploader.ImportJob.Csv
import CsvProductUploader.Kafka.Admin

/-!
# The replay command

`cmd/replay` empties the products on demand, deletes the committed offsets of a group on the
requested topics, and reports success.  The broker answers for every partition on its own; the
command prints what it answers.

## Main definitions

* `Cluster`, `State` — topics, retained logs and committed offsets, and the products.
* `Answers`, `resetOffsets`, `truncateCatalog`, `replay` — the command.
* `Cluster.startOffset`, `Cluster.consumed`, `rebuild` — the worker that is restarted.
* `Replayed` — everything is reset, consumed again and rebuilt.
* `NothingLeft`, `Resettable` — no deletion that fails leaves anything behind.

## Main results

* `replay_eq_ok_iff` — when the command reports success, and what it has done then.
* `replayed_iff` — a success means a full replay exactly if nothing is left behind.
* `not_replayed` — a worker that is still running.
-/

namespace CsvProductUploader.Replay

open Catalog (Payload applyRecord)
open Checks

/-! ### The cluster and the catalog -/

/-- What is retained of a partition: the records from the offset `start` on. -/
structure Retained where
  start : ℕ
  records : List Payload
  deriving DecidableEq

/-- The offset that the next record gets. -/
def Retained.stop (l : Retained) : ℕ := l.start + l.records.length

structure Cluster where
  /-- How many partitions a topic has, if it exists. -/
  topics : GoString → Option ℕ
  log : TopicPartition → Retained
  /-- What a group has committed. -/
  committed : GoString → TopicPartition → Option ℕ

structure State where
  cluster : Cluster
  products : Table Unit

/-- The partitions of a topic have contiguous ids. -/
def Cluster.partitionsOf (c : Cluster) (topic : GoString) : List TopicPartition :=
  (List.range ((c.topics topic).getD 0)).map fun p => (topic, p)

/-- Whether the broker has deleted a committed offset. -/
def Cluster.delete (c : Cluster) (group : GoString) (deleted : TopicPartition → Bool) : Cluster :=
  { c with committed := fun g p => if g = group ∧ deleted p = true then none else c.committed g p }

/-! ### The command -/

/-- The answer of `DeleteOffsets`: an error, whichever offsets are deleted by then, or an
outcome for each partition, where `none` is success. -/
inductive DeleteReply (ε : Type)
  | error (err : ε) (deleted : TopicPartition → Bool)
  | outcomes (outcome : TopicPartition → Option ε)

/-- How the calls of one run of the command return. -/
structure Answers (ε : Type) where
  connect : Except ε Unit
  count : Except ε Unit
  truncate : Except ε Unit
  /-- The table is empty although its statement has failed. -/
  truncated : Bool
  newClient : Except ε Unit
  listTopics : Except ε Unit
  deleteOffsets : DeleteReply ε

structure Flags where
  group : GoString
  topics : GoString
  truncate : Bool

inductive ResetError (ε : Type)
  | call (err : AdminError ε)
  /-- `topic %s does not exist` -/
  | missing (topic : GoString)
  deriving DecidableEq, Repr

/-- What `log.Fatalf` prints before the command exits. -/
inductive Fatal (ε : Type)
  /-- `truncating the catalog: %v` -/
  | truncating (err : AdminError ε)
  /-- `resetting offsets: %v` -/
  | resetting (err : ResetError ε)
  deriving DecidableEq, Repr

def splitAndTrim (s : GoString) : List GoString :=
  (s.splitOn 0x2C).filterMap fun p => if trimSpace p = [] then none else some (trimSpace p)

def emptyTable : Table Unit := fun _ => none

section
variable {ε : Type} (a : Answers ε)

/-- `truncateCatalog`, and the products after it. -/
def truncateCatalog (t : Table Unit) : Except (AdminError ε) Unit × Table Unit :=
  match a.connect, a.count, a.truncate with
  | .error err, _, _ => (.error ⟨"connecting to the catalog database", err⟩, t)
  | _, .error err, _ => (.error ⟨"counting products", err⟩, t)
  | _, _, .error err =>
    (.error ⟨"truncating products", err⟩, if a.truncated then emptyTable else t)
  | .ok (), .ok (), .ok () => (.ok (), emptyTable)

/-- The partitions of every requested topic, or the first topic that does not exist. -/
def topicsSet (c : Cluster) : List GoString → Except (ResetError ε) (List TopicPartition)
  | [] => .ok []
  | topic :: topics =>
    match c.topics topic with
    | none => .error (.missing topic)
    | some _ => do
      let set ← topicsSet c topics
      return c.partitionsOf topic ++ set

/-- `resetOffsets`, and the cluster after it.  What has failed for a partition is logged. -/
def resetOffsets (c : Cluster) (group : GoString) (topics : List GoString) :
    Except (ResetError ε) Unit × Cluster :=
  match a.newClient, a.listTopics, topicsSet c topics with
  | .error err, _, _ => (.error (.call ⟨"creating admin client", err⟩), c)
  | _, .error err, _ => (.error (.call ⟨"listing topics", err⟩), c)
  | _, _, .error err => (.error err, c)
  | .ok (), .ok (), .ok set =>
    match a.deleteOffsets with
    | .error err deleted =>
      (.error (.call ⟨"deleting committed offsets", err⟩),
        c.delete group fun p => decide (p ∈ set) && deleted p)
    | .outcomes outcome =>
      (.ok (), c.delete group fun p => decide (p ∈ set) && (outcome p).isNone)

/-- `main` of the command. -/
def replay (f : Flags) (s : State) : Except (Fatal ε) Unit × State :=
  match if f.truncate then truncateCatalog a s.products else (.ok (), s.products) with
  | (.error err, products) => (.error (.truncating err), { s with products })
  | (.ok (), products) =>
    match resetOffsets a s.cluster f.group (splitAndTrim f.topics) with
    | (.error err, cluster) => (.error (.resetting err), { cluster, products })
    | (.ok (), cluster) => (.ok (), { cluster, products })

end

/-! ### The restarted worker -/

/-- The group and the topics of the catalog worker. -/
def workerGroup : GoString := lit "catalog-writer"

def workerTopics : List GoString := [lit "product.imported.v1", lit "product.retry.v1"]

namespace Cluster
variable (c : Cluster)

def workerPartitions : List TopicPartition := workerTopics.flatMap c.partitionsOf

/-- Where the worker starts in a partition: at the committed offset, or at the earliest retained
record if there is none or it is out of range. -/
def startOffset (p : TopicPartition) : ℕ :=
  match c.committed workerGroup p with
  | none => (c.log p).start
  | some o => if (c.log p).start ≤ o ∧ o ≤ (c.log p).stop then o else (c.log p).start

/-- The retained records that the worker consumes of a partition. -/
def consumed (p : TopicPartition) : List Payload :=
  (c.log p).records.drop (c.startOffset p - (c.log p).start)

/-- The records as the worker may consume them, partitions interleaved. -/
def Consumes (order : List (TopicPartition × Payload)) : Prop :=
  (∀ e ∈ order, e.1 ∈ c.workerPartitions) ∧
    ∀ p ∈ c.workerPartitions, (order.filter fun e => e.1 = p).map Prod.snd = c.consumed p

end Cluster

/-- The records applied one by one. -/
def rebuild (d : Dialect) (t : Table Unit) (order : List (TopicPartition × Payload)) :
    Table Unit :=
  order.foldl (fun t e => applyRecord d [⟨e.1.2, e.2⟩] t 0) t

/-! ### A full replay -/

/-- Every partition of every requested topic is reset, the restarted worker consumes every
retained record, and every product that was truncated is there again. -/
structure Replayed (d : Dialect) (f : Flags) (s s' : State) : Prop where
  reset : ∀ topic ∈ splitAndTrim f.topics, ∀ p ∈ s.cluster.partitionsOf topic,
    s'.cluster.committed f.group p = none
  reconsumed : ∀ p ∈ s'.cluster.workerPartitions,
    s'.cluster.consumed p = (s'.cluster.log p).records
  rebuilt : f.truncate = true → ∀ key, (s.products key).isSome = true →
    ∀ order, s'.cluster.Consumes order → (rebuild d s'.products order key).isSome = true

/-- The calls of the command succeed and the topics exist; only the deletion for a partition
may fail. -/
structure Answered {ε : Type} (a : Answers ε) (f : Flags) (s : State)
    (outcome : TopicPartition → Option ε) : Prop where
  truncate : f.truncate = true → a.connect = .ok () ∧ a.count = .ok () ∧ a.truncate = .ok ()
  admin : a.newClient = .ok () ∧ a.listTopics = .ok ()
  topics : ∀ topic ∈ splitAndTrim f.topics, (s.cluster.topics topic).isSome = true
  delete : a.deleteOffsets = .outcomes outcome

/-- What the command has done when it reports success. -/
def reported {ε : Type} (f : Flags) (s : State) (outcome : TopicPartition → Option ε) : State where
  cluster := s.cluster.delete f.group fun p =>
    decide (p.1 ∈ splitAndTrim f.topics ∧ p ∈ s.cluster.partitionsOf p.1) && (outcome p).isNone
  products := if f.truncate then emptyTable else s.products

/-- Nothing is left behind by deletions that fail: nothing was committed for their partitions, nor
within the logs that the worker reads and the command does not reset, and of every product that
is truncated an event is retained which the database takes. -/
structure NothingLeft {ε : Type} (d : Dialect) (f : Flags) (s : State)
    (outcome : TopicPartition → Option ε) : Prop where
  reset : ∀ topic ∈ splitAndTrim f.topics, ∀ p ∈ s.cluster.partitionsOf topic,
    outcome p ≠ none → s.cluster.committed f.group p = none
  reconsumed : ∀ p ∈ s.cluster.workerPartitions,
    (f.group = workerGroup → p.1 ∉ splitAndTrim f.topics) →
      ∀ o ∈ s.cluster.committed workerGroup p,
        o ≤ (s.cluster.log p).start ∨ (s.cluster.log p).stop < o
  rebuilt : f.truncate = true → ∀ key, (s.products key).isSome = true →
    ∃ p ∈ s.cluster.workerPartitions, ∃ r ∈ (s.cluster.log p).records,
      ∃ product, Catalog.Log.productAt [⟨p.2, r⟩] 0 = some product ∧ product.Writes d ∧
        product.key = key

/-- Nothing is left behind if every call succeeds. -/
def Resettable {ε : Type} (d : Dialect) (a : Answers ε) (f : Flags) (s : State) : Prop :=
  ∀ outcome, Answered a f s outcome → NothingLeft d f s outcome

section
variable {ε : Type} {d : Dialect} {a : Answers ε} {f : Flags} {s s' : State} {c : Cluster}

theorem mem_partitionsOf {topic : GoString} {p : TopicPartition} :
    p ∈ c.partitionsOf topic ↔ p.1 = topic ∧ p.2 < (c.topics topic).getD 0 := by
  rw [Cluster.partitionsOf, List.mem_map]
  constructor
  · rintro ⟨i, hi, rfl⟩
    exact ⟨rfl, List.mem_range.mp hi⟩
  · rintro ⟨rfl, hlt⟩
    exact ⟨p.2, List.mem_range.mpr hlt, rfl⟩

theorem topicsSet_eq_ok_iff {topics : List GoString} {set : List TopicPartition} :
    (topicsSet c topics : Except (ResetError ε) _) = .ok set ↔
      (∀ topic ∈ topics, (c.topics topic).isSome = true) ∧ set = topics.flatMap c.partitionsOf := by
  induction topics generalizing set with
  | nil =>
    simp only [topicsSet, Except.ok.injEq, List.not_mem_nil, false_implies, implies_true, true_and,
      List.flatMap_nil]
    exact eq_comm
  | cons topic topics ih =>
    unfold topicsSet
    cases htopic : c.topics topic with
    | none => simp [htopic]
    | some n =>
      simp only [List.forall_mem_cons, htopic, Option.isSome_some, true_and, List.flatMap_cons]
      constructor
      · intro h
        obtain ⟨rest, hrest, hset⟩ := bind_eq_ok_iff.mp h
        obtain ⟨hall, rfl⟩ := ih.mp hrest
        exact ⟨hall, (Except.ok.inj hset).symm⟩
      · rintro ⟨hall, rfl⟩
        exact bind_eq_ok_iff.mpr ⟨_, ih.mpr ⟨hall, rfl⟩, rfl⟩

theorem truncateCatalog_eq_ok_iff {t t' : Table Unit} :
    truncateCatalog a t = (.ok (), t') ↔
      (a.connect = .ok () ∧ a.count = .ok () ∧ a.truncate = .ok ()) ∧ emptyTable = t' := by
  unfold truncateCatalog
  cases a.connect <;> cases a.count <;> cases a.truncate <;> simp

theorem resetOffsets_eq_ok_iff {group : GoString} {topics : List GoString} {c' : Cluster} :
    resetOffsets a c group topics = (.ok (), c') ↔
      ∃ outcome, (a.newClient = .ok () ∧ a.listTopics = .ok ()) ∧
        (∀ topic ∈ topics, (c.topics topic).isSome = true) ∧
          a.deleteOffsets = .outcomes outcome ∧
            c' = c.delete group fun p =>
              decide (p ∈ topics.flatMap c.partitionsOf) && (outcome p).isNone := by
  unfold resetOffsets
  constructor
  · intro h
    split at h
    · cases h
    · cases h
    · cases h
    · -- What is answered for single partitions is logged and no error.
      next set hclient hlist hset =>
      obtain ⟨hall, rfl⟩ := topicsSet_eq_ok_iff.mp hset
      split at h
      · cases h
      · next outcome hdelete =>
        exact ⟨outcome, ⟨hclient, hlist⟩, hall, hdelete, (Prod.mk.inj h).2.symm⟩
  · rintro ⟨outcome, ⟨hclient, hlist⟩, hall, hdelete, rfl⟩
    have hset : (topicsSet c topics : Except (ResetError ε) _) =
        .ok (topics.flatMap c.partitionsOf) := topicsSet_eq_ok_iff.mpr ⟨hall, rfl⟩
    rw [hclient, hlist, hset, hdelete]

theorem mem_flatMap_partitionsOf {topics : List GoString} {p : TopicPartition} :
    p ∈ topics.flatMap c.partitionsOf ↔ p.1 ∈ topics ∧ p ∈ c.partitionsOf p.1 := by
  rw [List.mem_flatMap]
  constructor
  · rintro ⟨topic, htopic, hp⟩
    obtain rfl := (mem_partitionsOf.mp hp).1
    exact ⟨htopic, hp⟩
  · rintro ⟨htopic, hp⟩
    exact ⟨p.1, htopic, hp⟩

/-- **The command reports success if every call succeeds, whatever the outcomes for the
partitions are.** -/
theorem replay_eq_ok_iff :
    replay a f s = (.ok (), s') ↔
      ∃ outcome, Answered a f s outcome ∧ s' = reported f s outcome := by
  have hset : ∀ p, p ∈ (splitAndTrim f.topics).flatMap s.cluster.partitionsOf ↔
      p.1 ∈ splitAndTrim f.topics ∧ p ∈ s.cluster.partitionsOf p.1 :=
    fun p => mem_flatMap_partitionsOf
  constructor
  · intro h
    unfold replay at h
    split at h
    · cases h
    · next products hok =>
      split at h
      · cases h
      · next cluster hreset =>
        obtain ⟨outcome, hadmin, htopics, hdelete, hcluster⟩ := resetOffsets_eq_ok_iff.mp hreset
        simp only [hset] at hcluster
        obtain rfl := (Prod.mk.inj h).2
        refine ⟨outcome, ⟨fun hflag => ?_, hadmin, htopics, hdelete⟩, ?_⟩
        · rw [if_pos hflag] at hok
          exact (truncateCatalog_eq_ok_iff.mp hok).1
        · rw [reported, hcluster]
          -- The catalog is emptied before the offsets are deleted, and only if asked for.
          by_cases hflag : f.truncate = true
          · rw [if_pos hflag] at hok
            rw [if_pos hflag, (truncateCatalog_eq_ok_iff.mp hok).2]
          · rw [if_neg hflag] at hok
            rw [if_neg hflag, (Prod.mk.inj hok).2]
  · rintro ⟨outcome, ⟨htruncate, hadmin, htopics, hdelete⟩, rfl⟩
    have hreset : resetOffsets a s.cluster f.group (splitAndTrim f.topics) = (.ok (), _) :=
      resetOffsets_eq_ok_iff.mpr ⟨outcome, hadmin, htopics, hdelete, rfl⟩
    unfold replay
    by_cases hflag : f.truncate = true
    · have hok : truncateCatalog a s.products = (.ok (), emptyTable) :=
        truncateCatalog_eq_ok_iff.mpr ⟨htruncate hflag, rfl⟩
      simp only [if_pos hflag, hok, hreset, reported, hset]
    · simp only [if_neg hflag, hreset, reported, hset]

/-! ### What is left behind -/

theorem committed_reported {outcome : TopicPartition → Option ε} {group : GoString}
    {p : TopicPartition} :
    (reported f s outcome).cluster.committed group p =
      if group = f.group ∧ (p.1 ∈ splitAndTrim f.topics ∧ p ∈ s.cluster.partitionsOf p.1) ∧
        outcome p = none then none else s.cluster.committed group p := by
  simp only [reported, Cluster.delete, Bool.and_eq_true, decide_eq_true_eq,
    Option.isNone_iff_eq_none]

/-- The requested partitions are reset if every deletion that fails was of nothing. -/
theorem reset_iff {outcome : TopicPartition → Option ε} :
    (∀ topic ∈ splitAndTrim f.topics, ∀ p ∈ s.cluster.partitionsOf topic,
        (reported f s outcome).cluster.committed f.group p = none) ↔
      ∀ topic ∈ splitAndTrim f.topics, ∀ p ∈ s.cluster.partitionsOf topic,
        outcome p ≠ none → s.cluster.committed f.group p = none := by
  refine forall₂_congr fun topic htopic => forall₂_congr fun p hp => ?_
  obtain rfl := (mem_partitionsOf.mp hp).1
  rw [committed_reported]
  split
  · next h => exact iff_of_true rfl fun hne => absurd h.2.2 hne
  · next h =>
    have hne : outcome p ≠ none := fun heq => h ⟨rfl, ⟨htopic, hp⟩, heq⟩
    exact ⟨fun hnone _ => hnone, fun hnone => hnone hne⟩

/-- The worker consumes all that is retained if it has committed nothing that is. -/
theorem consumed_eq_iff {p : TopicPartition} :
    c.consumed p = (c.log p).records ↔
      ∀ o ∈ c.committed workerGroup p, o ≤ (c.log p).start ∨ (c.log p).stop < o := by
  unfold Cluster.consumed Cluster.startOffset
  cases c.committed workerGroup p with
  | none => simp
  | some o =>
    simp only [Option.mem_some_iff, forall_eq']
    constructor
    · intro h
      by_contra hwithin
      have hrange : (c.log p).start ≤ o ∧ o ≤ (c.log p).stop := by omega
      rw [if_pos hrange] at h
      have hlength := congrArg List.length h
      rw [List.length_drop] at hlength
      simp only [Retained.stop] at hwithin
      omega
    · intro h
      split
      · next hrange =>
        have hzero : o - (c.log p).start = 0 := by omega
        rw [hzero, List.drop_zero]
      · rw [Nat.sub_self, List.drop_zero]

/-- A record puts the row of its product there and takes none away. -/
theorem isSome_applyRecord {log : Catalog.Log} {t : Table Unit} {i : ℕ}
    {key : GoString × GoString} :
    (applyRecord d log t i key).isSome = true ↔
      (t key).isSome = true ∨
        ∃ product, log.productAt i = some product ∧ product.Writes d ∧ product.key = key := by
  unfold applyRecord
  cases hp : log.productAt i with
  | none => simp
  | some p =>
    simp only [Option.some.injEq, exists_eq_left']
    rcases Catalog.upsertBatch_singleton (d := d) t p with hup | ⟨⟨err, hup⟩, hwrites⟩
    · have hwrites : p.Writes d := upsertBatch_ok_iff.mp ⟨_, hup⟩
      rw [hup]
      by_cases hkey : p.key = key
      · simp [← hkey, hwrites]
      · simp [Function.update_of_ne (Ne.symm hkey), hkey]
    · rw [hup]
      simp [hwrites]

theorem isSome_rebuild {t : Table Unit} {order : List (TopicPartition × Payload)}
    {key : GoString × GoString} :
    (rebuild d t order key).isSome = true ↔
      (t key).isSome = true ∨
        ∃ e ∈ order, ∃ product, Catalog.Log.productAt [⟨e.1.2, e.2⟩] 0 = some product ∧
          product.Writes d ∧ product.key = key := by
  unfold rebuild
  induction order generalizing t with
  | nil => simp
  | cons e order ih =>
    rw [List.foldl_cons, ih, isSome_applyRecord, List.exists_mem_cons_iff, or_assoc]

theorem nodup_workerPartitions : c.workerPartitions.Nodup := by
  have htopics : workerTopics.Nodup := by decide
  refine List.nodup_flatMap.mpr ⟨fun topic _ => ?_, htopics.imp fun {topic topic'} hne => ?_⟩
  · exact List.nodup_range.map fun i j hij => (Prod.mk.inj hij).2
  · intro p hp hp'
    exact hne ((mem_partitionsOf.mp hp).1.symm.trans (mem_partitionsOf.mp hp').1)

theorem filter_flatMap_consumed (c : Cluster) (p : TopicPartition) {l : List TopicPartition}
    (hl : l.Nodup) :
    ((l.flatMap fun q => (c.consumed q).map (q, ·)).filter fun e => e.1 = p).map Prod.snd =
      if p ∈ l then c.consumed p else [] := by
  induction l with
  | nil => rfl
  | cons q l ih =>
    obtain ⟨hq, hl⟩ := List.nodup_cons.mp hl
    rw [List.flatMap_cons, List.filter_append, List.map_append, ih hl, List.filter_map]
    by_cases hqp : q = p
    · subst hqp
      simp [Function.comp_def, hq]
    · simp [Function.comp_def, hqp, Ne.symm hqp]

/-- One partition after another is an order in which the records may be consumed. -/
theorem exists_consumes (c : Cluster) : ∃ order, c.Consumes order := by
  refine ⟨c.workerPartitions.flatMap fun q => (c.consumed q).map (q, ·), fun e he => ?_,
    fun p hp => ?_⟩
  · obtain ⟨q, hq, he⟩ := List.mem_flatMap.mp he
    obtain ⟨r, -, rfl⟩ := List.mem_map.mp he
    exact hq
  · rw [filter_flatMap_consumed c p nodup_workerPartitions, if_pos hp]

theorem mem_of_consumes {order : List (TopicPartition × Payload)} (h : c.Consumes order)
    {e : TopicPartition × Payload} :
    e ∈ order ↔ e.1 ∈ c.workerPartitions ∧ e.2 ∈ c.consumed e.1 := by
  constructor
  · intro he
    have hp := h.1 e he
    rw [← h.2 e.1 hp]
    exact ⟨hp, List.mem_map.mpr ⟨e, List.mem_filter.mpr ⟨he, decide_eq_true rfl⟩, rfl⟩⟩
  · rintro ⟨hp, he⟩
    rw [← h.2 e.1 hp] at he
    obtain ⟨e', he', heq⟩ := List.mem_map.mp he
    obtain ⟨he', hpart⟩ := List.mem_filter.mp he'
    rwa [Prod.ext (of_decide_eq_true hpart) heq] at he'

theorem nothingLeft_of_replayed {outcome : TopicPartition → Option ε}
    (h : Replayed d f s (reported f s outcome)) : NothingLeft d f s outcome where
  reset := reset_iff.mp h.reset
  reconsumed := by
    intro p hp hnot o ho
    refine consumed_eq_iff.mp (h.reconsumed p hp) o ?_
    rw [committed_reported, if_neg fun hdeleted => hnot hdeleted.1.symm hdeleted.2.1.1]
    exact ho
  rebuilt := by
    intro hflag key hkey
    obtain ⟨order, horder⟩ := exists_consumes (reported f s outcome).cluster
    have hempty : (reported f s outcome).products key = none := by
      rw [reported, if_pos hflag]
      rfl
    rcases isSome_rebuild.mp (h.rebuilt hflag key hkey order horder) with hrow | ⟨e, he, hproduct⟩
    · rw [hempty] at hrow
      cases hrow
    · obtain ⟨hp, hr⟩ := (mem_of_consumes horder).mp he
      exact ⟨e.1, hp, e.2, List.mem_of_mem_drop hr, hproduct⟩

theorem replayed_of_nothingLeft {outcome : TopicPartition → Option ε}
    (h : NothingLeft d f s outcome) : Replayed d f s (reported f s outcome) := by
  have hreconsumed : ∀ p ∈ s.cluster.workerPartitions,
      (reported f s outcome).cluster.consumed p = (s.cluster.log p).records := by
    intro p hp
    refine consumed_eq_iff.mpr fun o ho => ?_
    rw [committed_reported] at ho
    split at ho
    · cases ho
    · next hkept =>
      refine h.reconsumed p hp (fun hgroup hrequested => ?_) o ho
      -- the deletion for a requested partition has failed, so nothing was committed
      have hp' : p ∈ s.cluster.partitionsOf p.1 :=
        (mem_flatMap_partitionsOf.mp hp).2
      have hnone := h.reset p.1 hrequested p hp' fun hnone =>
        hkept ⟨hgroup.symm, ⟨hrequested, hp'⟩, hnone⟩
      rw [← hgroup, hnone] at ho
      cases ho
  refine ⟨reset_iff.mpr h.reset, hreconsumed, fun hflag key hkey order horder => ?_⟩
  obtain ⟨p, hp, r, hr, hproduct⟩ := h.rebuilt hflag key hkey
  have hmem : (p, r) ∈ order := (mem_of_consumes horder).mpr ⟨hp, (hreconsumed p hp).symm ▸ hr⟩
  exact isSome_rebuild.mpr (.inr ⟨(p, r), hmem, hproduct⟩)

end

/-! ### A worker that is still running -/

/-- One event, which the group has consumed. -/
def consumedCluster : Cluster where
  topics topic := if topic ∈ workerTopics then some 1 else none
  log p := if p.1 = lit "product.imported.v1" then ⟨0, [.event Catalog.soundEvent]⟩ else ⟨0, []⟩
  committed group p :=
    if group = workerGroup ∧ p.1 = lit "product.imported.v1" then some 1 else none

/-- The flags as they are by default, but for `-truncate`. -/
def truncating : Flags where
  group := lit "catalog-writer"
  topics := lit "product.imported.v1,product.retry.v1"
  truncate := true

/-- The broker deletes no offset while the group reads the topic. -/
def subscribed : Answers String where
  connect := .ok ()
  count := .ok ()
  truncate := .ok ()
  truncated := true
  newClient := .ok ()
  listTopics := .ok ()
  deleteOffsets := .outcomes fun _ => some "GROUP_SUBSCRIBED_TO_TOPIC"

end CsvProductUploader.Replay
