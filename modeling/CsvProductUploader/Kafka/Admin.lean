import CsvProductUploader.GoString
import CsvProductUploader.Lib.Checks
import Mathlib.Algebra.BigOperators.Ring.Finset
import Mathlib.Algebra.Order.BigOperators.Group.List
import Mathlib.Algebra.Order.Group.Nat
import Mathlib.Algebra.Order.Ring.Int
import Mathlib.Data.List.Dedup
import Mathlib.Tactic.Common

/-!
# The lag of a consumer group

`AdminLagSource.GroupLag` asks the broker for the committed offsets of a group and for the end
offsets of the topics among them, and adds up the differences.  Retention moves the start of a
log, and a topic of which nothing is committed is not among them.

## Main definitions

* `groupLag` — the two requests and the sum, in `int64`.
* `PartitionLog`, `Group` — the retained logs that a group consumes, and what it has committed.
* `Group.outstanding`, `Group.retained` — the retained records it has not committed, and all.
* `Group.expired`, `Group.unlisted` — the records counted too many, and those left out.

## Main results

* `Group.lagSum_add_unlisted` — what the sum counts.
* `Group.lag_iff` — when the number is that of the outstanding records;
  `Group.not_lag` — a group that has committed nothing.
-/

namespace CsvProductUploader

open Checks

/-- A partition of a topic. -/
abbrev TopicPartition := GoString × ℕ

/-- An error of the broker under the text of the function that met it. -/
structure AdminError (ε : Type) where
  op : String
  cause : ε
  deriving DecidableEq, Repr

/-! ### `GroupLag` -/

/-- What one partition adds to the sum. -/
def partitionLag (committed : Option Int64) (stop : Int64) : Int64 :=
  match committed with
  | none => stop
  | some pos => if pos < 0 then stop else if 0 < stop - pos then stop - pos else 0

/-- `AdminLagSource.GroupLag`, where `FetchOffsets` and `ListEndOffsets` answer with the entries
of their maps. -/
def groupLag {ε : Type} (fetchOffsets : Except ε (List (TopicPartition × Int64)))
    (listEndOffsets : List GoString → Except ε (List (TopicPartition × Int64))) :
    Except (AdminError ε) Int64 := do
  let committed ← fetchOffsets.mapError (⟨"fetching committed offsets", ·⟩)
  let topics := (committed.map fun e => e.1.1).dedup
  if topics = [] then return 0
  else
    let ends ← (listEndOffsets topics).mapError (⟨"listing end offsets", ·⟩)
    return ends.foldl (fun total e => total + partitionLag (committed.lookup e.1) e.2) 0

/-! ### Groups -/

/-- The retained part of a partition's log: the offsets from `start` up to `stop`. -/
structure PartitionLog where
  start : ℕ
  stop : ℕ
  start_le : start ≤ stop
  stop_lt : stop < 2 ^ 63

/-- The partitions that a group consumes, and its committed offsets. -/
structure Group where
  partitions : List TopicPartition
  nodup : partitions.Nodup
  log : TopicPartition → PartitionLog
  /-- The entries of the map; an offset may be negative. -/
  committed : List (TopicPartition × Int64)
  keys : (committed.map Prod.fst).Nodup
  subset : ∀ e ∈ committed, e.1 ∈ partitions

namespace Group

/-- The answer of `ListEndOffsets`. -/
def endOffsets (g : Group) (topics : List GoString) : List (TopicPartition × Int64) :=
  (g.partitions.filter fun p => p.1 ∈ topics).map fun p => (p, Int64.ofNat (g.log p).stop)

/-- `GroupLag` of the group. -/
def groupLag (g : Group) : Except (AdminError GoString) Int64 :=
  CsvProductUploader.groupLag (.ok g.committed) fun topics => .ok (g.endOffsets topics)

/-- The offset up to which a partition is committed, a missing or negative one being none. -/
def position (g : Group) (p : TopicPartition) : ℕ :=
  match g.committed.lookup p with
  | none => 0
  | some pos => pos.toInt.toNat

/-- The number of retained records of a partition that are not committed. -/
def outstandingAt (g : Group) (p : TopicPartition) : ℕ :=
  (g.log p).stop - max (g.log p).start (g.position p)

/-- The retained records that are not committed by the group. -/
def outstanding (g : Group) : ℕ := (g.partitions.map g.outstandingAt).sum

/-- The retained records of a partition. -/
def retainedAt (g : Group) (p : TopicPartition) : ℕ := (g.log p).stop - (g.log p).start

def retained (g : Group) : ℕ := (g.partitions.map g.retainedAt).sum

/-- A topic of which some partition has a committed offset. -/
def lists (g : Group) (topic : GoString) : Bool := topic ∈ g.committed.map fun e => e.1.1

/-- The records of listed topics that retention has removed from behind the committed offsets. -/
def expired (g : Group) : ℕ :=
  ((g.partitions.filter fun p => g.lists p.1).map fun p => (g.log p).start - g.position p).sum

/-- The retained records of topics of which nothing is committed. -/
def unlisted (g : Group) : ℕ :=
  ((g.partitions.filter fun p => !g.lists p.1).map g.retainedAt).sum

/-- The call succeeds with the number `k`. -/
def Reports (g : Group) (k : ℕ) : Prop := ∃ n, g.groupLag = .ok n ∧ n.toInt = k

/-- As many records have expired as are unlisted, as far as `int64` can tell, which also has to
hold the outstanding ones. -/
def Balanced (g : Group) : Prop :=
  g.outstanding < 2 ^ 63 ∧ (2 ^ 64 : ℤ) ∣ (g.expired : ℤ) - g.unlisted

instance (g : Group) : Decidable g.Balanced := inferInstanceAs (Decidable (_ ∧ _))

/-- The group without the committed offset of a partition. -/
def uncommit (g : Group) (p : TopicPartition) : Group where
  partitions := g.partitions
  nodup := g.nodup
  log := g.log
  committed := g.committed.filter fun e => e.1 ≠ p
  keys := g.keys.sublist (List.filter_sublist.map _)
  subset e he := g.subset e (List.mem_of_mem_filter he)

/-! ### What the sum counts -/

/-- A sum in `int64` is the sum of the integers, wrapped around. -/
theorem toInt_foldl_add {α : Type} (f : α → Int64) (l : List α) (total : Int64) :
    (l.foldl (fun total a => total + f a) total).toInt =
      (total.toInt + (l.map fun a => (f a).toInt).sum).bmod (2 ^ 64) := by
  induction l generalizing total with
  | nil =>
    rw [List.map_nil, List.sum_nil, add_zero]
    exact (Int64.toInt_bmod total).symm
  | cons a l ih =>
    rw [List.foldl_cons, ih, Int64.toInt_add, List.map_cons, List.sum_cons, Int.bmod_add_bmod,
      add_assoc]

variable (g : Group)

/-- A partition adds its outstanding records, and those expired from behind its position. -/
theorem toInt_partitionLag (p : TopicPartition) :
    (partitionLag (g.committed.lookup p) (Int64.ofNat (g.log p).stop)).toInt =
      g.outstandingAt p + ((g.log p).start - g.position p : ℕ) := by
  have hle := (g.log p).start_le
  have hlt := (g.log p).stop_lt
  have hstop : (Int64.ofNat (g.log p).stop).toInt = (g.log p).stop :=
    Int64.toInt_ofNat_of_lt hlt
  unfold partitionLag outstandingAt position
  cases g.committed.lookup p with
  | none =>
    simp only [hstop]
    omega
  | some pos =>
    have hzero : (0 : Int64).toInt = 0 := rfl
    have hrange := pos.toInt_lt
    simp only [Int64.lt_iff_toInt_lt, hzero]
    split
    · rw [hstop]
      omega
    · -- Both ends are at least zero, so that the difference does not wrap.
      have hsub : (Int64.ofNat (g.log p).stop - pos).toInt = (g.log p).stop - pos.toInt := by
        rw [Int64.toInt_sub, hstop]
        exact Int.bmod_eq_of_le (by omega) (by omega)
      rw [hsub]
      split
      · rw [hsub]
        omega
      · rw [hzero]
        omega

/-- The sum, before it is wrapped around. -/
def lagSum : ℕ :=
  ((g.partitions.filter fun p => g.lists p.1).map fun p =>
    g.outstandingAt p + ((g.log p).start - g.position p)).sum

theorem mem_dedup_topics (topic : GoString) :
    topic ∈ (g.committed.map fun e => e.1.1).dedup ↔ g.lists topic = true := by
  rw [List.mem_dedup, lists, decide_eq_true_eq]

theorem groupLag_eq : ∃ n, g.groupLag = .ok n ∧ n.toInt = (g.lagSum : ℤ).bmod (2 ^ 64) := by
  -- Without a committed offset there are no topics to ask about.
  by_cases hnil : (g.committed.map fun e => e.1.1).dedup = []
  · refine ⟨0, ?_, ?_⟩
    · show (if _ then _ else _) = _
      rw [if_pos hnil]
      rfl
    · have hempty : (g.partitions.filter fun p => g.lists p.1) = [] := by
        refine List.filter_eq_nil_iff.mpr fun p _ hp => ?_
        have hmem := (g.mem_dedup_topics p.1).mpr hp
        rw [hnil] at hmem
        cases hmem
      rw [lagSum, hempty, List.map_nil, List.sum_nil, Nat.cast_zero, Int.zero_bmod,
        Int64.toInt_zero]
  · refine ⟨(g.endOffsets (g.committed.map fun e => e.1.1).dedup).foldl
      (fun total e => total + partitionLag (g.committed.lookup e.1) e.2) 0, ?_, ?_⟩
    · show (if _ then _ else _) = _
      rw [if_neg hnil]
      rfl
    · have hfilter : (g.partitions.filter fun p =>
          p.1 ∈ (g.committed.map fun e => e.1.1).dedup) =
          g.partitions.filter fun p => g.lists p.1 :=
        List.filter_congr fun p _ => by
          rw [Bool.eq_iff_iff, decide_eq_true_eq]
          exact g.mem_dedup_topics p.1
      have hsum : (g.lagSum : ℤ) = ((g.partitions.filter fun p => g.lists p.1).map fun p =>
          (partitionLag (g.committed.lookup p) (Int64.ofNat (g.log p).stop)).toInt).sum := by
        rw [lagSum, Nat.cast_list_sum, List.map_map]
        exact congrArg List.sum (List.map_congr_left fun p _ => (g.toInt_partitionLag p).symm)
      rw [toInt_foldl_add, Int64.toInt_zero, zero_add, endOffsets, hfilter, List.map_map, hsum]
      rfl

/-- **The sum counts the outstanding records, but those that are unlisted, and the expired
ones.** -/
theorem lagSum_add_unlisted : g.lagSum + g.unlisted = g.outstanding + g.expired := by
  -- A topic that is not listed has no committed offset in any of its partitions.
  have hnone : ∀ p, g.lists p.1 = false → g.outstandingAt p = g.retainedAt p := by
    intro p hp
    have hlookup : g.committed.lookup p = none := by
      refine List.lookup_eq_none_iff.mpr fun e he => ?_
      rw [bne_iff_ne]
      rintro rfl
      have hlists : g.lists e.1.1 = true :=
        decide_eq_true (List.mem_map_of_mem (f := fun e => e.1.1) he)
      rw [hp] at hlists
      cases hlists
    rw [outstandingAt, position, hlookup, retainedAt, Nat.max_zero]
  have hsplit : ∀ l : List TopicPartition,
      ((l.filter fun p => g.lists p.1).map fun p =>
        g.outstandingAt p + ((g.log p).start - g.position p)).sum +
        ((l.filter fun p => !g.lists p.1).map g.retainedAt).sum =
      (l.map g.outstandingAt).sum +
        ((l.filter fun p => g.lists p.1).map fun p => (g.log p).start - g.position p).sum := by
    intro l
    -- Partition by partition, whichever of the two sums it falls into.
    induction l with
    | nil => rfl
    | cons p l ih =>
      cases hp : g.lists p.1 with
      | true =>
        simp only [List.filter_cons, hp, Bool.not_true, if_true, Bool.false_eq_true, if_false,
          List.map_cons, List.sum_cons]
        omega
      | false =>
        simp only [List.filter_cons, hp, Bool.not_false, if_true, Bool.false_eq_true, if_false,
          List.map_cons, List.sum_cons, hnone p hp]
        omega
  exact hsplit g.partitions

/-! ### When the number is right -/

/-- What the call reports is the outstanding records, less the unlisted and plus the expired
ones, as an `int64`. -/
theorem reports_outstanding_iff (g : Group) : g.Reports g.outstanding ↔ g.Balanced := by
  obtain ⟨n, hok, hn⟩ := g.groupLag_eq
  have hsum := g.lagSum_add_unlisted
  have hreports : g.Reports g.outstanding ↔ (g.lagSum : ℤ).bmod (2 ^ 64) = g.outstanding := by
    constructor
    · rintro ⟨m, hm, heq⟩
      obtain rfl := Except.ok.inj (hok.symm.trans hm)
      rw [← hn, heq]
    · exact fun heq => ⟨n, hok, by rw [hn, heq]⟩
  have hdiff : (g.outstanding : ℤ) - g.lagSum = -((g.expired : ℤ) - g.unlisted) := by omega
  rw [hreports, Int.bmod_eq_iff (by decide), Balanced, hdiff]
  have hcast : ((2 ^ 64 : ℕ) : ℤ) = 2 ^ 64 := rfl
  rw [hcast, Int.dvd_neg]
  constructor
  · rintro ⟨-, hlt, hdvd⟩
    exact ⟨by omega, hdvd⟩
  · rintro ⟨hlt, hdvd⟩
    exact ⟨by omega, by omega, hdvd⟩

theorem lookup_uncommit (p q : TopicPartition) :
    (g.uncommit p).committed.lookup q = if q = p then none else g.committed.lookup q := by
  have hfilter : ∀ l : List (TopicPartition × Int64),
      (l.filter fun e => e.1 ≠ p).lookup q = if q = p then none else l.lookup q := by
    intro l
    induction l with
    | nil => simp
    | cons e l ih =>
      by_cases he : e.1 = p
      · rw [List.filter_cons_of_neg (by simpa using he), ih]
        split
        · rfl
        · next hq => rw [List.lookup_cons, beq_false_of_ne fun heq => hq (heq.trans he)]
      · rw [List.filter_cons_of_pos (by simpa using he), List.lookup_cons, List.lookup_cons, ih]
        split
        · next heq =>
          rw [if_neg fun hq => he ((beq_iff_eq.mp heq).symm.trans hq)]
        · rfl
  exact hfilter g.committed

/-- Without a committed offset more records are outstanding. -/
theorem outstanding_le_uncommit (p : TopicPartition) :
    g.outstanding ≤ (g.uncommit p).outstanding := by
  refine List.sum_le_sum fun q _ => ?_
  have hposition : (g.uncommit p).position q ≤ g.position q := by
    unfold position
    rw [lookup_uncommit]
    by_cases hq : q = p
    · rw [if_pos hq]
      exact Nat.zero_le _
    · rw [if_neg hq]
  have hlog : (g.uncommit p).log q = g.log q := rfl
  rw [outstandingAt, outstandingAt, hlog]
  omega

theorem groupLag_of_committed_eq_nil (h : g.committed = []) : g.groupLag = .ok 0 := by
  unfold groupLag CsvProductUploader.groupLag
  rw [h]
  rfl

/-- **The number is that of the outstanding records exactly if the expired and the unlisted
ones make up for each other.**  Where they do before and after the removal of a committed
offset, it does not fall; a group that has committed nothing reports an empty log only. -/
theorem lag_iff (g : Group) :
    (g.Reports g.outstanding ↔ g.Balanced) ∧
      (∀ p n n', g.Balanced → (g.uncommit p).Balanced → g.groupLag = .ok n →
        (g.uncommit p).groupLag = .ok n' → n ≤ n') ∧
      (g.committed = [] → (g.Reports g.retained ↔ g.retained = 0)) := by
  refine ⟨g.reports_outstanding_iff, fun p n n' hbal hbal' hn hn' => ?_, fun hnil => ?_⟩
  · obtain ⟨m, hm, heq⟩ := g.reports_outstanding_iff.mpr hbal
    obtain ⟨m', hm', heq'⟩ := (g.uncommit p).reports_outstanding_iff.mpr hbal'
    obtain rfl := Except.ok.inj (hm.symm.trans hn)
    obtain rfl := Except.ok.inj (hm'.symm.trans hn')
    have hle := g.outstanding_le_uncommit p
    rw [Int64.le_iff_toInt_le, heq, heq']
    omega
  · have hok := g.groupLag_of_committed_eq_nil hnil
    constructor
    · rintro ⟨n, hn, heq⟩
      obtain rfl := Except.ok.inj (hok.symm.trans hn)
      exact Int.natCast_eq_zero.mp heq.symm
    · intro hzero
      exact ⟨0, hok, by rw [hzero]; rfl⟩

/-- A group that consumes one partition of five records, with the given offset committed. -/
def single (committed : Option Int64) : Group where
  partitions := [(lit "product.imported.v1", 0)]
  nodup := List.nodup_singleton _
  log _ := ⟨0, 5, by omega, by omega⟩
  committed := committed.toList.map fun pos => ((lit "product.imported.v1", 0), pos)
  keys := by cases committed <;> simp
  subset := by cases committed <;> simp

/-- **A group that has committed nothing reports no lag**, and the lag of one that has not got
on falls if its offset is removed. -/
theorem not_lag : (¬ ∀ g : Group, g.Reports g.outstanding) ∧
    (¬ ∀ (g : Group) p n n', g.groupLag = .ok n → (g.uncommit p).groupLag = .ok n' → n ≤ n') ∧
      ¬ ∀ g : Group, g.committed = [] → g.Reports g.retained := by
  refine ⟨fun h => ?_, fun h => ?_, fun h => ?_⟩
  · exact absurd ((reports_outstanding_iff _).mp (h (single none))) (by decide)
  · have hle := h (single (some 0)) (lit "product.imported.v1", 0) 5 0 rfl rfl
    exact absurd hle (by decide)
  · obtain ⟨n, hn, heq⟩ := h (single none) rfl
    obtain rfl := Except.ok.inj ((groupLag_of_committed_eq_nil _ rfl).symm.trans hn)
    exact absurd heq (by decide)

end Group

end CsvProductUploader
