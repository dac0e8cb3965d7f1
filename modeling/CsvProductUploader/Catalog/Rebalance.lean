import CsvProductUploader.Catalog.Commits
import CsvProductUploader.Catalog.Rows

/-!
# Rows across a rebalance

The group may take a partition from a worker that is still busy with a poll of it.  Nothing
stops that worker from writing the poll later, over what the new owner has written by then.

## Main definitions

* `Pc.pending`, `Quiescent` — a partition of which everything is committed and no write is
  outstanding.
* `LatestRows` — the row of every identity of a partition is that of its last event.

## Main results

* `latest_rows` — runs without such writes leave the last event in every row.
* `not_latest_rows_late_write` — a late write leaves an older one.
-/

namespace CsvProductUploader.Catalog

open Runs

/-- The loop may yet write the records it has polled. -/
def Pc.pending : Pc → Bool
  | .polling | .poisoning _ | .republishing _ _ | .deadLettering _ | .writing _ => true
  | _ => false

/-- Every record of the partition is committed, and no worker that is up has one of them to
write. -/
def Quiescent (s : State) (p : ℕ) : Prop :=
  (∀ i < s.log.length, s.log.partitionAt i = some p → i < s.committed p) ∧
    ∀ k ∈ s.used, ∀ w ∈ s.workers k, w.pc.pending = true → ∀ i ∈ w.batch,
      s.log.partitionAt i ≠ some p

instance (s : State) (p : ℕ) : Decidable (Quiescent s p) :=
  inferInstanceAs (Decidable (_ ∧ _))

/-- No later event of the identity of the record is in the log. -/
def Log.Latest (log : Log) (i : ℕ) : Prop := ∀ j < log.length, ¬ log.Supersedes j i

instance (log : Log) (i : ℕ) : Decidable (log.Latest i) :=
  inferInstanceAs (Decidable (∀ j < log.length, _))

/-- The table has the row of the record's product. -/
def State.Keeps (d : Dialect) (s : State) (i : ℕ) : Prop :=
  ∀ q ∈ s.log.productAt i, s.products q.key = some (q.row d)

instance (d : Dialect) (s : State) (i : ℕ) : Decidable (s.Keeps d i) :=
  inferInstanceAs (Decidable (∀ q ∈ s.log.productAt i, _))

/-- The row of each identity is the one of its last event in the partition. -/
def LatestRows (d : Dialect) (s : State) (p : ℕ) : Prop :=
  ∀ i < s.log.length, s.log.partitionAt i = some p → s.log.Latest i → s.Keeps d i

instance (d : Dialect) (s : State) (p : ℕ) : Decidable (LatestRows d s p) :=
  inferInstanceAs (Decidable (∀ i < s.log.length, _))

variable {d : Dialect} {maxPoll : ℕ} {s s' : State} {a : Label}

/-- What holds of a run without stale writes. -/
structure Undisturbed (d : Dialect) (s : State) : Prop where
  custody : Custody s
  rows : s.log.Colocated → ∀ key, RowOf d s key

theorem undisturbed_initial : Undisturbed d initial where
  custody := custody_initial
  rows _ _ := Or.inl ⟨rfl, fun _ hj => nomatch hj⟩

theorem undisturbed_step (hI : Undisturbed d s) (hC : Fenced s a ∧ Timely s a)
    (h : step d maxPoll s a = some s') : Undisturbed d s' := by
  refine ⟨custody_step hI.custody hC.1 h, fun hco => ?_⟩
  have hco' := colocated_of_step h hco
  exact rows_step (hI.rows hco') hI.custody hC.1 hC.2 hco' h

/-- **No stale overwrite**, in every run in which no statement puts an event under which a
later one of its identity is settled, no worker commits records of a partition that it has
lost, and none gets a partition back while it holds records of it. -/
theorem latest_rows {as : List Label}
    (hC : Meets (step d maxPoll) (fun s a => Fenced s a ∧ Timely s a) initial as)
    (h : exec (step d maxPoll) initial as = some s) (hco : s.log.Colocated) (p : ℕ)
    (hq : Quiescent s p) : LatestRows d s p := by
  have hI : Undisturbed d s :=
    exec_invariant_of_meets (fun _ _ _ hI hC hs => undisturbed_step hI hC hs)
        undisturbed_initial hC h
  intro i hi hpart hlast q hqi
  have hid : s.log.identityAt i = some q.key := Log.identityAt_eq_some.mpr ⟨q, hqi, rfl⟩
  have hsettled : s.Settled i := ⟨p, hpart, Or.inl (hq.1 i hi hpart)⟩
  rcases hI.rows hco q.key with ⟨-, hopen⟩ | ⟨j, q', hj, hkey, hrow, -, hopen⟩
  · exact absurd hsettled (hopen i hid)
  · have hid' : s.log.identityAt j = some q.key := Log.identityAt_eq_some.mpr ⟨q', hj, hkey⟩
    have halike : s.log.Alike i j := ⟨by rw [hid']; rfl, hid.trans hid'.symm⟩
    have halike' : s.log.Alike j i := ⟨by rw [hid]; rfl, hid'.trans hid.symm⟩
    -- The event of the row is neither before the last one nor after it.
    have hle : i ≤ j := Nat.le_of_not_lt fun hlt => hopen i ⟨hlt, halike⟩ hsettled
    have hge : j ≤ i := Nat.le_of_not_lt fun hlt => hlast j halike'.lt ⟨hlt, halike'⟩
    obtain rfl : i = j := by omega
    obtain rfl : q = q' := Option.some.inj (hqi.symm.trans hj)
    exact hrow

/-- The same product at another price. -/
def dearerEvent : ProductImported :=
  { soundEvent with product := { soundEvent.product with priceCents := 2 } }

/-- Two events of one product, of which the worker `a` has polled the first when the partition
goes to `b`. -/
def handover : List Label :=
  [.append ⟨0, .event soundEvent⟩, .append ⟨0, .event dearerEvent⟩,
    .start (lit "a"), .start (lit "b"),
    .assign 0 (lit "a"), .worker (lit "a") (.fetch 0), .worker (lit "a") .poll, .assign 0 (lit "b")]

/-- The worker `a` writes its poll and is gone before it can commit. -/
def lateWrite : List Label := [.worker (lit "a") (.write none false), .stop (lit "a")]

/-- The worker `b` takes both events to their commit. -/
def takeover : List Label :=
  [.fetch 0, .fetch 1, .poll, .write none false, .count, .flush (.read [⟨auditedJob, 2, 0, 0⟩]),
    .flush (.report .ok), .flush (.confirm true), .flush .mark, .commit true true].map
        (.worker (lit "b"))

theorem latest_rows_early_write :
    ∃ s, exec (step canonicalDialect 10) initial (handover ++ lateWrite ++ takeover) = some s ∧
      Quiescent s 0 ∧ LatestRows canonicalDialect s 0 := by
  have hrun : ∃ s,
      exec (step canonicalDialect 10) initial (handover ++ lateWrite ++ takeover) = some s ∧
      s.log.Colocated ∧ Quiescent s 0 := ⟨_, rfl, by decide, by decide⟩
  have hC : Meets (step canonicalDialect 10) (fun s a => Fenced s a ∧ Timely s a) initial
      (handover ++ lateWrite ++ takeover) := by decide
  obtain ⟨s, hs, hco, hq⟩ := hrun
  exact ⟨s, hs, hq, latest_rows hC hs hco 0 hq⟩

/-- A write that comes after the new owner's commit puts the older event back. -/
theorem not_latest_rows_late_write :
    ∃ s, exec (step canonicalDialect 10) initial (handover ++ takeover ++ lateWrite) = some s ∧
      s.log.Colocated ∧ Quiescent s 0 ∧ ¬ LatestRows canonicalDialect s 0 :=
  ⟨_, rfl, by decide, by decide, by decide⟩

end CsvProductUploader.Catalog
