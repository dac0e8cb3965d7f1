import CsvProductUploader.Catalog.Commits
import CsvProductUploader.Catalog.Rows

/-!
# The catalog as a function of the log

However the partitions interleave, the polls divide and the workers stop, and however often
the offsets are reset, a catalog that has consumed the whole log is the one that the accepted
events give one by one.

## Main definitions

* `Course`, `courseStep` — the group, and the command that resets it.
* `Mine` — a worker holds records only of partitions that it owns.
* `applyRecord`, `sequential` — the events of a log as single-row upserts, in some order.
* `Log.InOrder` — an order that keeps the order of every partition.

## Main results

* `fenced_of_orderly`, `timely_of_orderly` — in an orderly run no write is stale.
* `products_eq_sequential` — the catalog is a function of the log.
-/

namespace CsvProductUploader.Catalog

open Runs Update

/-! ### Resetting the group -/

inductive Course
  | group (a : Label)
  /-- The replay command, which may empty the table before it deletes the offsets. -/
  | replay (truncate : Bool)
  deriving DecidableEq, Repr

/-- `truncateCatalog` and `resetOffsets`: without committed offsets the group starts over.  The
broker deletes the offsets only while the group has no members. -/
def resetOffsets (s : State) (truncate : Bool) : State :=
  { s with
    committed := fun _ => 0
    products := if truncate then fun _ => none else s.products }

/-- One step of the group or of the command. -/
def courseStep (d : Dialect) (maxPoll : ℕ) (s : State) : Course → Option State
  | .group a => step d maxPoll s a
  | .replay truncate =>
    if ∀ k ∈ s.used, (s.workers k).isNone = true then some (resetOffsets s truncate) else none

/-- A partition changes hands only once its owner has stopped or holds nothing of it. -/
def OrderlyCourse (s : State) : Course → Prop
  | .group a => Orderly s a
  | .replay _ => True

instance (s : State) (a : Course) : Decidable (OrderlyCourse s a) := by
  unfold OrderlyCourse
  split <;> infer_instance

/-! ### Orderly runs are fenced and timely -/

/-- A worker holds records only of partitions that it owns. -/
def Mine (s : State) : Prop :=
  ∀ k w, s.workers k = some w → ∀ i ∈ w.batch, ∀ p, s.log.partitionAt i = some p →
    s.owner p = some k

section
variable {d : Dialect} {maxPoll : ℕ} {s s' : State} {a : Label}

theorem mine_step (hM : Mine s) (hI : Custody s) (hC : Orderly s a)
    (h : step d maxPoll s a = some s') : Mine s' := by
  cases a with
  | append r =>
    obtain rfl := step_append h
    intro k w hw i hi p hp
    rw [Log.partitionAt_snoc (hI.bound k w hw i hi)] at hp
    exact hM k w hw i hi p hp
  | start k =>
    obtain ⟨-, rfl⟩ := step_start h
    refine forall_update_some rfl ?_ fun k' v _ hv => hM k' v hv
    exact fun i hi => absurd hi List.not_mem_nil
  | stop k =>
    obtain rfl := step_stop h
    intro k' w' hw' i hi p hp
    obtain ⟨hne, hv⟩ := of_update_none hw'
    have hown := hM k' w' hv i hi p hp
    show (if s.owner p = some k then none else s.owner p) = some k'
    rw [if_neg fun heq => hne (Option.some.inj (hown.symm.trans heq))]
    exact hown
  | assign p₀ k =>
    obtain ⟨w, hw, -, rfl⟩ := step_assign h
    -- The partition that changes hands is one of which nobody holds a record.
    have hkeep : ∀ k' w', s.workers k' = some w' → ∀ i ∈ w'.batch, ∀ p,
        s.log.partitionAt i = some p → Function.update s.owner p₀ (some k) p = some k' := by
      intro k' w' hw' i hi p hp
      have hown := hM k' w' hw' i hi p hp
      have hne : p ≠ p₀ := by
        rintro rfl
        exact hC k' hown w' hw' i hi hp
      rw [Function.update_of_ne hne]
      exact hown
    exact forall_update_some rfl (hkeep k w hw) fun k' v _ hv => hkeep k' v hv
  | worker k b =>
    obtain ⟨w, hw, ha⟩ := step_worker h
    obtain ⟨w', hupd, hhand⟩ := ha.hand_update
    obtain ⟨hlog, howner, -⟩ := ha.frame
    unfold Mine
    rw [hlog, howner]
    refine forall_update_some hupd ?_ fun k' v _ hv => hM k' v hv
    intro i hi p hp
    cases hhand with
    | count new hbatch =>
      rw [hbatch] at hi
      exact hM k w hw i hi p hp
    | fetch i₀ p₀ hpolling hpart hown hle hbatch =>
      rw [hbatch] at hi
      rcases List.mem_append.mp hi with hi | hi
      · exact hM k w hw i hi p hp
      · rw [List.mem_singleton.mp hi, hpart] at hp
        exact Option.some.inj hp ▸ hown
    | commit hbatch =>
      rw [hbatch] at hi
      cases hi

/-- An orderly run takes nothing from a worker that it might commit. -/
theorem fenced_of_orderly (hM : Mine s) (hC : Orderly s a) : Fenced s a := by
  cases a with
  | assign p k =>
    intro w hw i hi hp
    exact hC k (hM k w hw i hi p hp) w hw i hi hp
  | worker k b =>
    cases b with
    | commit ok reached => exact fun _ w hw i hi p hp => hM k w hw i hi p hp
    | _ => trivial
  | _ => trivial

/-- The owner of a partition has everything in its poll that it could undo. -/
theorem not_stale (hM : Mine s) (hI : Custody s) (hco : s.log.Colocated) {k : GoString} {w : Worker}
    (hw : s.workers k = some w) : ¬ s.Stale w := by
  rintro ⟨i, hi, hlast, j, hj, ⟨hlt, halike⟩, p, hp, hsettled⟩
  have hpart : s.log.partitionAt i = some p := by
    rw [← hco i (by omega) j hj halike]
    exact hp
  have hown := hM k w hw i hi p hpart
  rcases hsettled with hbelow | ⟨k', hk', w', hw', -, hmem⟩
  · have hge := ((hI.mem_batch k w hw p hown i hpart).mp hi).1
    omega
  · have hk : k' = k := Option.some.inj (Eq.trans (Option.mem_def.mp hk').symm hown)
    rw [hk, Option.mem_def, hw] at hw'
    obtain rfl := Option.some.inj hw'
    exact hlast j hmem ⟨hlt, halike⟩

theorem timely_of_orderly (hM : Mine s) (hI : Custody s) (hco : s.log.Colocated) :
    Timely s a := by
  cases a with
  | worker k b =>
    cases b with
    | write lost giveUp => exact fun _ w hw => not_stale hM hI hco hw
    | _ => trivial
  | _ => trivial

end

/-! ### What the log alone gives -/

/-- A record applied on its own: the single-row upsert of its event, if that is accepted.  A
statement that fails changes nothing. -/
def applyRecord (d : Dialect) (log : Log) (t : Table Unit) (i : ℕ) : Table Unit :=
  match log.productAt i with
  | none => t
  | some p =>
    match upsertBatch d t [p] with
    | .ok t' => t'
    | .error _ => t

/-- The records applied one by one, to an empty table. -/
def sequential (d : Dialect) (log : Log) (order : List ℕ) : Table Unit :=
  order.foldl (applyRecord d log) fun _ => none

/-- Every record once, and those of a partition in its order. -/
def Log.InOrder (log : Log) (order : List ℕ) : Prop :=
  order.Perm (List.range log.length) ∧
    order.Pairwise fun i j => log.partitionAt i = log.partitionAt j → i < j

section
variable {d : Dialect} {log : Log}

instance (p : Product) : Decidable (p.Writes d) := inferInstanceAs (Decidable (Writable _ _ _))

theorem upsertBatch_singleton (t : Table Unit) (p : Product) :
    upsertBatch d t [p] = .ok (Function.update t p.key (some (p.row d))) ∨
      (∃ err, upsertBatch d t [p] = .error err) ∧ ¬ p.Writes d := by
  cases hup : upsertBatch d t [p] with
  | ok t' =>
    left
    rw [upsert_eq_putAll (Checks.mapError_eq_ok_iff.mp hup)]
    rfl
  | error err =>
    right
    refine ⟨⟨err, rfl⟩, fun hwrites => ?_⟩
    have hwritable : Writable d productsSchema ([p].map tupleOfProduct) := hwrites
    obtain ⟨t', ht'⟩ : ∃ t', upsertBatch d t [p] = .ok t' := upsertBatch_ok_iff.mpr hwritable
    rw [ht'] at hup
    cases hup

/-- One by one the records leave what the products that can be written alone do. -/
theorem foldl_applyRecord (t : Table Unit) (order : List ℕ) :
    order.foldl (applyRecord d log) t =
      putAll Product.key (Product.row d) t
        ((order.filterMap log.productAt).filter fun p => p.Writes d) := by
  induction order generalizing t with
  | nil => rfl
  | cons i order ih =>
    rw [List.foldl_cons, ih]
    cases hp : log.productAt i with
    | none =>
      have happly : applyRecord d log t i = t := by simp only [applyRecord, hp]
      rw [happly, List.filterMap_cons_none hp]
    | some p =>
      rw [List.filterMap_cons_some hp, List.filter_cons]
      -- The database takes the product, or the record leaves the table alone.
      rcases upsertBatch_singleton (d := d) t p with hup | ⟨⟨err, hup⟩, hwrites⟩
      · have hwrites : p.Writes d := upsertBatch_ok_iff.mp ⟨_, hup⟩
        rw [if_pos (decide_eq_true hwrites)]
        have happly : applyRecord d log t i = Function.update t p.key (some (p.row d)) := by
          simp only [applyRecord, hp, hup]
        rw [happly]
        rfl
      · rw [if_neg (by simpa using hwrites)]
        have happly : applyRecord d log t i = t := by simp only [applyRecord, hp, hup]
        rw [happly]

/-- An identity of which no record is applied has no row. -/
theorem sequential_of_forall_ne {order : List ℕ} {key : GoString × GoString}
    (h : ∀ i ∈ order, log.identityAt i ≠ some key) : sequential d log order key = none := by
  rw [sequential, foldl_applyRecord]
  apply putAll_of_forall_ne
  intro p hp heq
  obtain ⟨i, hi, hip⟩ := List.mem_filterMap.mp (List.mem_filter.mp hp).1
  exact h i hi (Log.identityAt_eq_some.mpr ⟨p, hip, heq⟩)

/-- The last record of an identity decides its row. -/
theorem sequential_of_last {o₁ o₂ : List ℕ} {i : ℕ} {p : Product} (hi : log.productAt i = some p)
    (hwrites : p.Writes d) (h : ∀ j ∈ o₂, log.identityAt j ≠ some p.key) :
    sequential d log (o₁ ++ i :: o₂) p.key = some (p.row d) := by
  rw [sequential, foldl_applyRecord, List.filterMap_append, List.filterMap_cons_some hi,
    List.filter_append, List.filter_cons, if_pos (decide_eq_true hwrites)]
  apply putAll_of_last
  intro q hq heq
  obtain ⟨j, hj, hjq⟩ := List.mem_filterMap.mp (List.mem_filter.mp hq).1
  exact h j hj (Log.identityAt_eq_some.mpr ⟨q, hjq, heq⟩)

end

/-! ### The catalog -/

/-- What holds of an orderly run with resets. -/
structure Reproducible (d : Dialect) (s : State) : Prop where
  known : Known s
  custody : Custody s
  mine : Mine s
  rows : s.log.Colocated → ∀ key, RowOf d s key

theorem reproducible_initial {d : Dialect} : Reproducible d initial where
  known := ⟨fun _ hk => absurd rfl hk, fun _ hc => nomatch hc⟩
  custody := custody_initial
  mine _ _ hw := nomatch hw
  rows _ _ := Or.inl ⟨rfl, fun _ hj => nomatch hj⟩

section
variable {d : Dialect} {maxPoll : ℕ} {s s' : State}

/-- After a reset nothing is settled, so every row may stay or go. -/
theorem reproducible_reset (hI : Reproducible d s) {truncate : Bool}
    (hdown : ∀ k ∈ s.used, (s.workers k).isNone = true) :
    Reproducible d (resetOffsets s truncate) := by
  have hnone : ∀ k, s.workers k = none := by
    intro k
    by_contra hk
    exact hk (Option.isNone_iff_eq_none.mp (hdown k (hI.known.up k hk)))
  have hworkers : ∀ k w, (resetOffsets s truncate).workers k ≠ some w := by
    intro k w hw
    have hw' : s.workers k = some w := hw
    rw [hnone k] at hw'
    cases hw'
  -- Nothing is settled any more: the offsets are gone and no worker is up.
  have hopen : ∀ j, ¬ (resetOffsets s truncate).Settled j := by
    rintro j ⟨p, -, hlt | ⟨k, -, w, hw, -⟩⟩
    · exact absurd hlt (Nat.not_lt_zero j)
    · exact hworkers k w hw
  refine ⟨⟨hI.known.up, hI.known.counts⟩, ?_, fun k w hw => absurd hw (hworkers k w), ?_⟩
  · exact {
      up := hI.custody.up
      committed_le := fun _ => Nat.zero_le _
      bound := fun k w hw => absurd hw (hworkers k w)
      ascending := fun k w hw => absurd hw (hworkers k w)
      position := fun k w hw => absurd hw (hworkers k w)
      mem_batch := fun k w hw => absurd hw (hworkers k w) }
  · intro hco key
    cases truncate with
    | true => exact Or.inl ⟨rfl, fun j _ => hopen j⟩
    | false =>
      rcases hI.rows hco key with ⟨hrow, -⟩ | ⟨i, p, hi, hkey, hrow, hwrites, -⟩
      · exact Or.inl ⟨hrow, fun j _ => hopen j⟩
      · exact Or.inr ⟨i, p, hi, hkey, hrow, hwrites, fun j _ => hopen j⟩

theorem reproducible_step {a : Course} (hI : Reproducible d s) (hC : OrderlyCourse s a)
    (h : courseStep d maxPoll s a = some s') : Reproducible d s' := by
  cases a with
  | group a =>
    have hfence : Fenced s a := fenced_of_orderly hI.mine hC
    refine ⟨known_step hI.known h, custody_step hI.custody hfence h,
      mine_step hI.mine hI.custody hC h, fun hco => ?_⟩
    have hco' := colocated_of_step h hco
    exact rows_step (hI.rows hco') hI.custody hfence (timely_of_orderly hI.mine hI.custody hco')
        hco' h
  | replay truncate =>
    simp only [courseStep] at h
    split at h
    · next hdown =>
      obtain rfl := Option.some.inj h
      exact reproducible_reset hI hdown
    · cases h

/-- **The catalog is a function of the log**: in every run in which a partition changes hands
only once its owner has stopped or holds nothing of it, with any resets between, a table that
has consumed every record is the one that the accepted events give one by one, in any order
that keeps the order of the partitions. -/
theorem products_eq_sequential {as : List Course}
    (hC : Meets (courseStep d maxPoll) OrderlyCourse initial as)
    (h : exec (courseStep d maxPoll) initial as = some s) (hco : s.log.Colocated)
    (hall : ∀ i < s.log.length, ∀ p ∈ s.log.partitionAt i, i < s.committed p) {order : List ℕ}
    (horder : s.log.InOrder order) : s.products = sequential d s.log order := by
  have hI : Reproducible d s :=
    exec_invariant_of_meets (fun _ _ _ hI hC hs => reproducible_step hI hC hs)
        reproducible_initial hC h
  have hsettled : ∀ j, j < s.log.length → s.Settled j := by
    intro j hj
    have hp : s.log.partitionAt j = some (s.log[j]).partition := by
      rw [Log.partitionAt, List.getElem?_eq_getElem hj]
      rfl
    exact ⟨_, hp, Or.inl (hall j hj _ hp)⟩
  funext key
  rcases hI.rows hco key with ⟨hrow, hopen⟩ | ⟨i, p, hi, rfl, hrow, hwrites, hopen⟩
  · rw [hrow, sequential_of_forall_ne]
    intro i hi hid
    exact hopen i hid (hsettled i (Log.lt_of_identityAt hid))
  · have hid : s.log.identityAt i = some p.key := Log.identityAt_eq_some.mpr ⟨p, hi, rfl⟩
    have hlt : i < s.log.length := Log.lt_of_identityAt hid
    have himem : i ∈ order := horder.1.mem_iff.mpr (List.mem_range.mpr hlt)
    obtain ⟨o₁, o₂, rfl⟩ := List.append_of_mem himem
    rw [hrow, sequential_of_last hi hwrites]
    intro j hj hjid
    -- The event of the row is the last one of its identity.
    have halike : s.log.Alike j i := ⟨by rw [hid]; rfl, hjid.trans hid.symm⟩
    have hpart : s.log.partitionAt j = s.log.partitionAt i := hco i hlt j halike.lt halike
    have hafter := (List.pairwise_cons.mp (List.pairwise_append.mp horder.2).2.1).1 j hj hpart.symm
    exact hopen j ⟨hafter, halike⟩ (hsettled j halike.lt)

end

/-- A worker starts and takes two events of one job to their commit. -/
def consume (k : GoString) : List Label :=
  [.start k, .assign 0 k] ++
  [.fetch 0, .fetch 1, .poll, .write none false, .count, .flush (.read [⟨auditedJob, 2, 0, 0⟩]),
    .flush (.report .ok), .flush (.confirm true), .flush .mark, .commit true true].map (.worker k)

/-- A worker crashes between its write and its commit, and another one takes over. -/
def crashRun : List Label :=
  [.append ⟨0, .event soundEvent⟩, .append ⟨0, .event soundEvent⟩, .start (lit "a"),
    .assign 0 (lit "a")] ++
  [.fetch 0, .poll, .write none false].map (.worker (lit "a")) ++
  [.stop (lit "a")] ++ consume (lit "b") ++ [.stop (lit "b")]

/-- Then the table is emptied and the log consumed once more. -/
def replayedRun : List Course :=
  crashRun.map .group ++ [.replay true] ++ (consume (lit "a")).map .group

theorem products_eq_sequential_replayed :
    ∃ s, exec (courseStep canonicalDialect 10) initial replayedRun = some s ∧
      s.log.InOrder [0, 1] ∧ s.products = sequential canonicalDialect s.log [0, 1] := by
  have hrun : ∃ s, exec (courseStep canonicalDialect 10) initial replayedRun = some s ∧
      s.log.Colocated ∧ (∀ i < s.log.length, ∀ p ∈ s.log.partitionAt i, i < s.committed p) ∧
        s.log.InOrder [0, 1] := ⟨_, rfl, by decide, by decide, by decide, by decide⟩
  have hC : Meets (courseStep canonicalDialect 10) OrderlyCourse initial replayedRun := by decide
  obtain ⟨s, hs, hco, hall, horder⟩ := hrun
  exact ⟨s, hs, horder, products_eq_sequential hC hs hco hall horder⟩

end CsvProductUploader.Catalog
