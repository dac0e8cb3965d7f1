import CsvProductUploader.Catalog.Worker

/-!
# Counting and adjudication

`ProcessBatch` counts its events once each of them is written or dead-lettered, so a batch
that fails leaves the counters alone.  `ProcessPoison` counts first: a raw record whose
dead-lettering fails is counted all the same, and counted again when it is read again.

## Main definitions

* `processPoison` — `ProcessPoison` against a broker that may fail.
* `Service.Unchanged` — no job's counters have changed.
* `Settles` — what a batch has done once `ProcessBatch` returns nil.
* `BatchAtomic`, `PoisonAtomic` — counting goes with adjudication, or neither happens.

## Main results

* `batchAtomic` — a batch is counted with its adjudication, whatever fails.
* `poisonAtomic_iff` — a raw record is, unless it names a job and is not dead-lettered.
* `atomic_iff` — both; `not_atomic_unreachable_broker` — a record that is counted and
  not dead-lettered.
* `service_of_countPoison` — a worker of the group has counted before it dead-letters.
-/

namespace CsvProductUploader.Catalog

/-! ### Raw records -/

/-- `ProcessPoison`, for a record with these bytes; `republish` is the error of
`RepublishDeadRaw`. -/
def processPoison (republish : Option String) (value : GoString) (s : Service) :
    Option String × Service :=
  let jobID := (recoverJobID value).getD []
  (republish, if jobID ≠ [] then s.increment jobID .dead else s)

theorem recoverJobID_ne_nil {value id : GoString} (h : recoverJobID value = some id) : id ≠ [] := by
  induction value with
  | nil => cases h
  | cons b s ih =>
    unfold recoverJobID at h
    cases hmatch : matchJobID (b :: s) with
    | none =>
      rw [hmatch] at h
      exact ih h
    | some id' =>
      rw [hmatch] at h
      obtain rfl := Option.some.inj h
      unfold matchJobID at hmatch
      split at hmatch
      · split at hmatch
        · split at hmatch
          · split at hmatch
            · next huuid =>
              obtain rfl := Option.some.inj hmatch
              -- The empty string is no UUID.
              intro hnil
              rw [hnil] at huuid
              exact absurd huuid.1 (by decide)
            · cases hmatch
          · cases hmatch
        · cases hmatch
      · cases hmatch

theorem processPoison_eq (republish : Option String) (value : GoString) (s : Service) :
    processPoison republish value s =
      (republish, (recoverJobID value).elim s fun id => s.increment id .dead) := by
  unfold processPoison
  cases hid : recoverJobID value with
  | none => rfl
  | some id => simp only [Option.getD_some, if_pos (recoverJobID_ne_nil hid), Option.elim_some]

/-! ### Counting with adjudication -/

/-- No job's counters have changed. -/
def Service.Unchanged (s s' : Service) : Prop := ∀ id, s'.entryLocked id = s.entryLocked id

/-- The events of a batch that do not pass validation. -/
def rejectedEvents (evts : List ProductImported) : List ProductImported :=
  evts.filter fun evt => !(fromEvent evt).isOk

/-- What a batch has done once `ProcessBatch` returns nil. -/
structure Settles (d : Dialect) (env : Env) (evts : List ProductImported) (w w' : World) :
    Prop where
  applied : ∀ id, w'.service.count id .applied =
    w.service.count id .applied + (validEvents evts).countP fun evt => evt.jobID = id
  dead : ∀ id, w'.service.count id .dead =
    w.service.count id .dead + (rejectedEvents evts).countP fun evt => evt.jobID = id
  /-- One `UpsertBatch` of the products of all valid events has returned nil. -/
  written : (validEvents evts = [] ∧ w'.products = w.products) ∨
    ∃ n < writeRetryAttempts, ∃ t,
      writeOnce d ((validEvents evts).map productOf) (env.lost n) t = (none, w'.products)
  /-- Every other event was dead-lettered, and each of them once. -/
  deadLettered : w'.dead = w.dead ++ rejectedEvents evts

/-- A batch is counted with its adjudication, or not at all. -/
def BatchAtomic (d : Dialect) (env : Env) (evts : List ProductImported) (w : World) : Prop :=
  (∀ err w', processBatch d env evts w = (some err, w') → w.service.Unchanged w'.service) ∧
  ∀ w', processBatch d env evts w = (none, w') → Settles d env evts w w'

/-- A raw record is counted with its dead-lettering, or not at all. -/
def PoisonAtomic (republish : Option String) (value : GoString) (s : Service) : Prop :=
  (∀ err s', processPoison republish value s = (some err, s') → s.Unchanged s') ∧
  ∀ s', processPoison republish value s = (none, s') → ∀ id kind,
    s'.count id kind =
      s.count id kind + if recoverJobID value = some id ∧ kind = .dead then 1 else 0

/-! ### Batches -/

theorem splitBatch_eq (evts : List ProductImported) :
    splitBatch evts = (validEvents evts, rejectedEvents evts) := by
  rw [splitBatch, List.partition_eq_filter_filter]
  rfl

/-- What is counted under one lock for a job and an outcome. -/
theorem count_countBatch_of (s : Service) (valid invalid : List ProductImported) (id : GoString) :
    (countBatch s valid invalid).count id .applied =
      s.count id .applied + valid.countP (fun evt => evt.jobID = id) ∧
    (countBatch s valid invalid).count id .dead =
      s.count id .dead + invalid.countP (fun evt => evt.jobID = id) := by
  have hown : ∀ (evts : List ProductImported) (kind : Kind),
      (evts.map fun evt => (evt.jobID, kind)).count (id, kind) =
        evts.countP fun evt => evt.jobID = id := by
    intro evts kind
    rw [List.count, List.countP_map]
    exact List.countP_congr fun evt _ => by simp
  have hother : ∀ (evts : List ProductImported) (kind kind' : Kind), kind ≠ kind' →
      (evts.map fun evt => (evt.jobID, kind)).count (id, kind') = 0 := by
    intro evts kind kind' hne
    refine List.count_eq_zero.mpr fun hmem => ?_
    obtain ⟨evt, -, heq⟩ := List.mem_map.mp hmem
    exact hne (Prod.mk.inj heq).2
  unfold countBatch
  rw [Service.count_countAll, Service.count_countAll, List.count_append, List.count_append,
    hown, hown, hother _ _ _ (by decide), hother _ _ _ (by decide), Nat.zero_add]
  exact ⟨rfl, rfl⟩

/-- Dead-lettering counts nothing and writes nothing; if it ends well, each event has been
dead-lettered once. -/
theorem deadLetter_spec {env : Env} {i : ℕ} {evts : List ProductImported} {w w' : World}
    {err : Option BatchError} (h : deadLetter env i evts w = (err, w')) :
    w'.service = w.service ∧ w'.products = w.products ∧
      (err = none → w'.dead = w.dead ++ evts) := by
  induction evts generalizing i w with
  | nil =>
    obtain ⟨-, rfl⟩ := Prod.mk.inj h
    exact ⟨rfl, rfl, fun _ => (List.append_nil _).symm⟩
  | cons evt evts ih =>
    unfold deadLetter at h
    split at h
    · obtain ⟨rfl, rfl⟩ := Prod.mk.inj h
      exact ⟨rfl, rfl, nofun⟩
    · obtain ⟨hservice, hproducts, hdead⟩ := ih h
      refine ⟨hservice, hproducts, fun hnone => ?_⟩
      rw [hdead hnone, List.append_assoc]
      rfl

/-- The retries that end well end with a write that returns nil. -/
theorem writeLoop_none {d : Dialect} {env : Env} {products : List Product} {left attempt : ℕ}
    {last : Option WriteFailure} {t t' : Table Unit}
    (h : writeLoop d env products left attempt last t = (none, t'))
    (hlast : left = 0 → last ≠ none) :
    ∃ n < attempt + left, ∃ t, writeOnce d products (env.lost n) t = (none, t') := by
  induction left generalizing attempt last t with
  | zero =>
    cases last with
    | none => exact absurd rfl (hlast rfl)
    | some failure => cases (Prod.mk.inj h).1
  | succ left ih =>
    unfold writeLoop at h
    split at h
    · next t₁ hwrite =>
      obtain ⟨-, rfl⟩ := Prod.mk.inj h
      exact ⟨attempt, by omega, t, hwrite⟩
    · next failure t₁ hwrite =>
      split at h
      · cases (Prod.mk.inj h).1
      · obtain ⟨n, hn, hend⟩ := ih h fun _ => Option.some_ne_none _
        exact ⟨n, by omega, hend⟩

/-- **A batch is counted with its adjudication**, whatever fails on the way. -/
theorem batchAtomic (d : Dialect) (env : Env) (evts : List ProductImported) (w : World) :
    BatchAtomic d env evts w := by
  unfold BatchAtomic processBatch
  rw [splitBatch_eq]
  split
  · next hnil =>
    subst hnil
    refine ⟨nofun, fun w' h => ?_⟩
    obtain ⟨-, rfl⟩ := Prod.mk.inj h
    exact ⟨fun _ => rfl, fun _ => rfl, Or.inl ⟨rfl, rfl⟩, (List.append_nil _).symm⟩
  cases hdead : deadLetter env 0 (rejectedEvents evts) w with
  | mk cause w₁ =>
  obtain ⟨hservice, hproducts, hsent⟩ := deadLetter_spec hdead
  cases cause with
  | some cause =>
    refine ⟨fun err w' h => ?_, nofun⟩
    obtain ⟨-, rfl⟩ := Prod.mk.inj h
    exact fun id => by rw [hservice]
  | none =>
    dsimp only
    split
    · next hnone =>
      -- Every event is rejected, so there is nothing to write.
      rw [accepted_eq, List.map_eq_nil_iff] at hnone
      refine ⟨nofun, fun w' h => ?_⟩
      obtain ⟨-, rfl⟩ := Prod.mk.inj h
      refine ⟨fun id => ?_, fun id => ?_, Or.inl ⟨hnone, hproducts⟩, hsent rfl⟩
      · rw [(count_countBatch_of _ _ _ id).1, hservice, hnone]
      · rw [(count_countBatch_of _ _ _ id).2, hservice]
    · cases hloop : writeLoop d env (accepted evts) writeRetryAttempts 0 none w₁.products with
      | mk cause t =>
      cases cause with
      | some cause =>
        refine ⟨fun err w' h => ?_, nofun⟩
        obtain ⟨-, rfl⟩ := Prod.mk.inj h
        exact fun id => by rw [hservice]
      | none =>
        refine ⟨nofun, fun w' h => ?_⟩
        obtain ⟨-, rfl⟩ := Prod.mk.inj h
        obtain ⟨n, hn, t₀, hwrite⟩ := writeLoop_none hloop nofun
        rw [accepted_eq] at hwrite
        refine ⟨fun id => ?_, fun id => ?_, Or.inr ⟨n, ?_, t₀, hwrite⟩, hsent rfl⟩
        · rw [(count_countBatch_of _ _ _ id).1, hservice]
        · rw [(count_countBatch_of _ _ _ id).2, hservice]
        · omega

/-! ### The count of a raw record -/

/-- **When a raw record is counted with its dead-lettering**: if it is dead-lettered, or
names no job. -/
theorem poisonAtomic_iff (republish : Option String) (value : GoString) (s : Service) :
    PoisonAtomic republish value s ↔ republish = none ∨ recoverJobID value = none := by
  unfold PoisonAtomic
  rw [processPoison_eq]
  constructor
  · rintro ⟨hfail, -⟩
    by_contra hcase
    rw [not_or] at hcase
    obtain ⟨err, rfl⟩ := Option.ne_none_iff_exists'.mp hcase.1
    obtain ⟨id, hid⟩ := Option.ne_none_iff_exists'.mp hcase.2
    rw [hid] at hfail
    -- The count precedes the copy, so that a copy that fails leaves one behind.
    have hsame := congrArg (JobEntry.count · .dead) (hfail err _ rfl id)
    have hcount : (s.increment id .dead).count id .dead = s.count id .dead + 1 := by
      rw [Service.count_increment, if_pos rfl]
    exact Nat.succ_ne_self _ (hcount.symm.trans hsame)
  · intro hcase
    refine ⟨fun err s' h => ?_, fun s' h id kind => ?_⟩
    · obtain ⟨herr, rfl⟩ := Prod.mk.inj h
      have hid : recoverJobID value = none :=
        hcase.resolve_left (by rw [herr]; exact Option.some_ne_none _)
      intro id
      rw [hid]
      rfl
    · obtain ⟨-, rfl⟩ := Prod.mk.inj h
      cases hid : recoverJobID value with
      | none => simp
      | some id' =>
        rw [Option.elim_some, Service.count_increment]
        simp only [Prod.mk.injEq, Option.some.injEq, eq_comm (a := id)]

/-- **When counting goes with adjudication**: for every batch, and for a raw record that is
dead-lettered or names no job. -/
theorem atomic_iff (d : Dialect) (env : Env) (evts : List ProductImported) (w : World)
    (republish : Option String) (value : GoString) (s : Service) :
    BatchAtomic d env evts w ∧
      (PoisonAtomic republish value s ↔ republish = none ∨ recoverJobID value = none) :=
  ⟨batchAtomic d env evts w, poisonAtomic_iff republish value s⟩

/-- The bytes of a record that breaks off behind its job id. -/
def truncatedValue : GoString := lit "\x7b\"job_id\":\"00000000-0000-4000-8000-000000000000\","

/-- The broker does not answer, and the record is counted. -/
theorem not_atomic_unreachable_broker :
    ¬∀ d env evts w republish value s,
      BatchAtomic d env evts w ∧ PoisonAtomic republish value s := by
  intro h
  have hpoison := (h ⟨fun _ => none, fun _ => none⟩ .calm [] ⟨∅, fun _ => none, []⟩
    (some "unreachable") truncatedValue ∅).2
  rcases (poisonAtomic_iff _ _ _).mp hpoison with hrepublish | hjob
  · cases hrepublish
  · exact absurd hjob (by decide +kernel)

/-! ### The group -/

/-- A worker of the group has counted what `ProcessPoison` counts when it comes to the
dead-lettering, however that ends. -/
theorem service_of_countPoison {d : Dialect} {maxPoll : ℕ} {s s' : State} {k : GoString}
    {w : Worker} {i p : ℕ} {todo : List ℕ} {value : GoString} (hpc : w.pc = .poisoning (i :: todo))
    (hrec : s.log[i]? = some ⟨p, .raw value⟩)
    (h : act d maxPoll s k w .countPoison = some s') (republish : Option String) :
    s'.workers k = some { w with
      service := (processPoison republish value w.service).2, pc := .republishing i todo } := by
  have hjob : s.log.jobAt i = recoverJobID value := by rw [Log.jobAt, hrec]
  rw [processPoison_eq]
  simp only [act, hpc, hjob] at h
  cases hid : recoverJobID value with
  | none =>
    rw [hid] at h
    obtain rfl := Option.some.inj h
    exact Function.update_self ..
  | some id =>
    rw [hid] at h
    obtain rfl := Option.some.inj h
    exact Function.update_self ..

end CsvProductUploader.Catalog
