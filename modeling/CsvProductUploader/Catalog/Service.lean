import CsvProductUploader.Catalog.Counters
import CsvProductUploader.Postgres.Products

/-!
# The catalog service

The adjudication of consumed batches: events that fail validation go to the dead letter
topic, the rest are written in one statement, and both are counted for their jobs.

## Main definitions

* `splitBatch`, `countBatch` — validation, and the counting at the end of a batch.
* `Env`, `writeLoop`, `processBatch` — `ProcessBatch` against a broker and a database
  that may fail.
* `Poisonless` — the batches whose data the statement takes.

## Main results

* `poisonless_iff_writable` — of the checks of the statement, validation settles those
  on the job id and the price and no others.
* `batch_written_iff`, `long_currency_accepted` — when a batch of accepted events can be
  written, and an accepted event that no table takes.
-/

namespace CsvProductUploader.Catalog

/-- The events that pass validation and those that do not. -/
def splitBatch (evts : List ProductImported) : List ProductImported × List ProductImported :=
  evts.partition fun evt => (fromEvent evt).isOk

/-- The counting of an adjudicated batch. -/
def countBatch (s : Service) (validEvts invalid : List ProductImported) : Service :=
  s.countAll (validEvts.map (fun evt => (evt.jobID, .applied)) ++
    invalid.map fun evt => (evt.jobID, .dead))

/-! ### `ProcessBatch` -/

/-- How the world answers one call of `ProcessBatch`. -/
structure Env where
  /-- The error of the `i`-th `RepublishDead`. -/
  republish : ℕ → Option String
  /-- The connection fails at an attempt, after the statement took effect or before. -/
  lost : ℕ → Option (String × Bool)
  /-- The context is done in the pause after an attempt. -/
  cancelled : ℕ → Bool

/-- The error of one write. -/
inductive WriteFailure
  | data (err : WriteError)
  | connection (err : String)
  deriving DecidableEq, Repr

/-- The errors of `ProcessBatch`. -/
inductive BatchError
  /-- `dead-lettering invalid event row %d: %w` -/
  | deadLetter (rowNum : ℤ) (err : String)
  /-- `catalog write failed after %d attempts: %w` -/
  | write (attempts : ℕ) (err : WriteFailure)
  /-- `ctx.Err()` -/
  | cancelled
  deriving DecidableEq, Repr

/-- What a batch acts on: the counters, the catalog and the dead letter topic. -/
structure World where
  service : Service
  products : Table Unit
  dead : List ProductImported

def writeRetryAttempts : ℕ := 3

/-- One call of `UpsertBatch` and its effect on the catalog; `lost` is the failure of the
connection, after the statement took effect or before. -/
def writeOnce (d : Dialect) (products : List Product) (lost : Option (String × Bool))
    (t : Table Unit) : Option WriteFailure × Table Unit :=
  match upsertBatch d t products, lost with
  | .ok t', none => (none, t')
  | .ok t', some (err, applied) => (some (.connection err), if applied then t' else t)
  | .error _, some (err, _) => (some (.connection err), t)
  | .error err, none => (some (.data err), t)

/-- The in-place retries: `left` attempts from number `attempt` on. -/
def writeLoop (d : Dialect) (env : Env) (products : List Product) :
    ℕ → ℕ → Option WriteFailure → Table Unit → Option BatchError × Table Unit
  | 0, _, none, t => (none, t)
  | 0, _, some err, t => (some (.write writeRetryAttempts err), t)
  | left + 1, attempt, _, t =>
    match writeOnce d products (env.lost attempt) t with
    | (none, t') => (none, t')
    | (some err, t') =>
      if env.cancelled attempt then (some .cancelled, t')
      else writeLoop d env products left (attempt + 1) (some err) t'

/-- The dead-lettering of the invalid events, up to the first that fails. -/
def deadLetter (env : Env) : ℕ → List ProductImported → World → Option BatchError × World
  | _, [], w => (none, w)
  | i, evt :: evts, w =>
    match env.republish i with
    | some err => (some (.deadLetter evt.rowNum err), w)
    | none => deadLetter env (i + 1) evts { w with dead := w.dead ++ [evt] }

/-- `ProcessBatch` -/
def processBatch (d : Dialect) (env : Env) (evts : List ProductImported) (w : World) :
    Option BatchError × World :=
  if evts = [] then (none, w)
  else
    match deadLetter env 0 (splitBatch evts).2 w with
    | (some err, w) => (some err, w)
    | (none, w) =>
      if accepted evts = [] then
        (none, { w with service := countBatch w.service [] (splitBatch evts).2 })
      else
        match writeLoop d env (accepted evts) writeRetryAttempts 0 none w.products with
        | (some err, t) => (some err, { w with products := t })
        | (none, t) =>
          (none, { w with
            products := t
            service := countBatch w.service (splitBatch evts).1 (splitBatch evts).2 })

/-! ### Data the statement takes -/

/-- The natural key. -/
def Product.key (p : Product) : GoString × GoString := (p.merchantID, p.productID)

/-- Nothing in the batch that validation leaves open fails the statement: every text is
UTF-8 without NUL, and an event that is the last of its key in the batch has no
expiration or a date, and a currency of three characters. -/
def Poisonless (d : Dialect) (products : List Product) : Prop :=
  (∀ p ∈ products, storable p.merchantID ∧ storable p.productID ∧ storable p.name ∧
    storable p.currency ∧ storable p.expirationDate) ∧
  ∀ p ∈ lastPerKey Product.key products,
    (p.expirationDate = [] ∨ (d.castDate p.expirationDate).isSome = true) ∧
      (char3 p.currency).isSome = true

instance (d : Dialect) (products : List Product) : Decidable (Poisonless d products) :=
  inferInstanceAs (Decidable (_ ∧ _))

theorem texts_storable_iff {p : Product} (h : p.Valid) :
    (∀ s ∈ (tupleOfProduct p).texts, storable s) ↔
      storable p.merchantID ∧ storable p.productID ∧ storable p.name ∧ storable p.currency ∧
        storable p.expirationDate := by
  have hid : storable p.sourceJobID := storable_of_ascii (ascii_of_matchShape h.sourceJobID)
  simp [Tuple.texts, tupleOfProduct, hid]

theorem takes_iff {d : Dialect} {p : Product} (h : p.Valid) :
    Takes d productsSchema (tupleOfProduct p) ↔
      (p.expirationDate = [] ∨ (d.castDate p.expirationDate).isSome = true) ∧
        (char3 p.currency).isSome = true := by
  have hid : (d.castUUID p.sourceJobID).isSome = true := castUUID_of_isUUID h.sourceJobID
  have hprice : decide (0 ≤ p.priceCents) = true := decide_eq_true h.priceCents
  simp [Takes, tupleOfProduct, productsSchema, hid, hprice]

/-- Validation settles the checks of the statement on the job id and the price, and no
others. -/
theorem poisonless_iff_writable {d : Dialect} {products : List Product}
    (h : ∀ p ∈ products, p.Valid) :
    Writable d productsSchema (products.map tupleOfProduct) ↔ Poisonless d products := by
  have hkey : Tuple.key ∘ tupleOfProduct = Product.key := rfl
  unfold Writable Poisonless
  rw [lastPerKey_map, hkey, List.forall_mem_map, List.forall_mem_map]
  apply and_congr
  · exact forall₂_congr fun p hp => texts_storable_iff (h p hp)
  · exact forall₂_congr fun p hp => takes_iff (h p (mem_of_mem_lastPerKey hp))

/-- A batch of accepted events is written exactly if it is poisonless, whatever the table
holds. -/
theorem upsertBatch_accepted_iff {d : Dialect} {t : Table Unit} {evts : List ProductImported} :
    (∃ t', upsertBatch d t (accepted evts) = .ok t') ↔ Poisonless d (accepted evts) := by
  rw [upsertBatch_ok_iff]
  exact poisonless_iff_writable fun p hp => valid_of_mem_accepted hp

/-! ### Data errors of a batch -/

theorem not_ok_of_error {d : Dialect} {t : Table Unit} {products : List Product} {err : WriteError}
    (h : upsertBatch d t products = .error err) : ¬∃ t', upsertBatch d t products = .ok t' := by
  rintro ⟨t', hok⟩
  rw [h] at hok
  cases hok

/-- A write leaves the table alone and fails, or it takes effect. -/
theorem writeOnce_cases {d : Dialect} {products : List Product} {lost : Option (String × Bool)}
    {t t' : Table Unit} {err : Option WriteFailure}
    (h : writeOnce d products lost t = (err, t')) :
    (t' = t ∧ err ≠ none) ∨ (lost.all Prod.snd = true ∧ upsertBatch d t products = .ok t') := by
  unfold writeOnce at h
  split at h
  · next hup =>
    obtain ⟨-, rfl⟩ := Prod.mk.inj h
    exact Or.inr ⟨rfl, hup⟩
  · next t₁ e applied hup =>
    obtain ⟨rfl, rfl⟩ := Prod.mk.inj h
    cases applied with
    | true => exact Or.inr ⟨rfl, hup⟩
    | false => exact Or.inl ⟨rfl, Option.some_ne_none _⟩
  · obtain ⟨rfl, rfl⟩ := Prod.mk.inj h
    exact Or.inl ⟨rfl, Option.some_ne_none _⟩
  · obtain ⟨rfl, rfl⟩ := Prod.mk.inj h
    exact Or.inl ⟨rfl, Option.some_ne_none _⟩

/-- A data error of one write is one of the statement. -/
theorem writeOnce_data {d : Dialect} {products : List Product} {lost : Option (String × Bool)}
    {t : Table Unit} {err : WriteError}
    (h : (writeOnce d products lost t).1 = some (.data err)) :
    upsertBatch d t products = .error err := by
  unfold writeOnce at h
  split at h
  · cases h
  · cases h
  · cases h
  · next failure hup =>
    obtain rfl := WriteFailure.data.inj (Option.some.inj h)
    exact hup

/-- A data error at the end of the retries is one of the last attempt. -/
theorem writeLoop_data {d : Dialect} {env : Env} {products : List Product} {left attempt n : ℕ}
    {last : Option WriteFailure} {t : Table Unit} {err : WriteError}
    (h : (writeLoop d env products left attempt last t).1 = some (.write n (.data err))) :
    last = some (.data err) ∨ ∃ t', upsertBatch d t' products = .error err := by
  induction left generalizing attempt last t with
  | zero =>
    cases last with
    | none => cases h
    | some failure =>
      obtain ⟨-, rfl⟩ := BatchError.write.inj (Option.some.inj h)
      exact Or.inl rfl
  | succ left ih =>
    right
    unfold writeLoop at h
    split at h
    · cases h
    · next failure t' hwrite =>
      split at h
      · cases h
      · -- Either the last failure was returned or a later attempt failed.
        rcases ih h with hlast | hup
        · obtain rfl := Option.some.inj hlast
          exact ⟨t, writeOnce_data (by rw [hwrite])⟩
        · exact hup

/-- Dead-lettering ends with no other error than its own. -/
theorem deadLetter_error {env : Env} {i : ℕ} {evts : List ProductImported} {w : World}
    {err : BatchError} (h : (deadLetter env i evts w).1 = some err) :
    ∃ rowNum cause, err = .deadLetter rowNum cause := by
  induction evts generalizing i w with
  | nil => cases h
  | cons evt evts ih =>
    unfold deadLetter at h
    split at h
    · next cause _ => exact ⟨evt.rowNum, cause, (Option.some.inj h).symm⟩
    · exact ih h

/-- A data error that a batch returns is one of its write. -/
theorem processBatch_data {d : Dialect} {env : Env} {evts : List ProductImported} {w : World}
    {n : ℕ} {err : WriteError} (h : (processBatch d env evts w).1 = some (.write n (.data err))) :
    ∃ t, upsertBatch d t (accepted evts) = .error err := by
  unfold processBatch at h
  split at h
  · cases h
  · split at h
    · next cause w' hdead =>
      obtain ⟨rowNum, text, hcause⟩ := deadLetter_error (congrArg Prod.fst hdead)
      rw [hcause] at h
      cases h
    · split at h
      · cases h
      · split at h
        · next cause t hloop =>
          have hfst := congrArg Prod.fst hloop
          rcases writeLoop_data (hfst.trans h) with hlast | hup
          · cases hlast
          · exact hup
        · cases h

/-- A world in which nothing fails. -/
def Env.calm : Env where
  republish := fun _ => none
  lost := fun _ => none
  cancelled := fun _ => false

theorem deadLetter_calm (i : ℕ) (evts : List ProductImported) (w : World) :
    deadLetter .calm i evts w = (none, { w with dead := w.dead ++ evts }) := by
  induction evts generalizing i w with
  | nil =>
    rw [deadLetter, List.append_nil]
  | cons evt evts ih =>
    -- Nothing fails, so the loop goes on behind the first event.
    change deadLetter .calm (i + 1) evts { w with dead := w.dead ++ [evt] } = _
    rw [ih, List.append_assoc]
    rfl

/-- With nothing else failing, a statement that fails for its data fails at every
attempt. -/
theorem writeLoop_calm {d : Dialect} {products : List Product} {err : WriteError} {t : Table Unit}
    (h : upsertBatch d t products = .error err) (left attempt : ℕ) (last : Option WriteFailure) :
    writeLoop d .calm products (left + 1) attempt last t =
      (some (.write writeRetryAttempts (.data err)), t) := by
  have hwrite : ∀ k, writeOnce d products (Env.calm.lost k) t = (some (.data err), t) := by
    intro k
    simp only [writeOnce, h, Env.calm]
  induction left generalizing attempt last with
  | zero =>
    rw [writeLoop, hwrite]
    rfl
  | succ left ih =>
    rw [writeLoop, hwrite]
    exact ih (attempt + 1) (some (.data err))

/-- A poisoned batch stops the worker at every try, whatever the state it meets. -/
theorem processBatch_calm {d : Dialect} {evts : List ProductImported}
    (h : ¬Poisonless d (accepted evts)) (w : World) :
    ∃ err, (processBatch d .calm evts w).1 = some (.write writeRetryAttempts (.data err)) := by
  have hne : accepted evts ≠ [] := by
    intro hnil
    rw [hnil] at h
    exact h ⟨by simp, by simp⟩
  have hevts : evts ≠ [] := by
    rintro rfl
    exact hne rfl
  cases hup : upsertBatch d w.products (accepted evts) with
  | ok t' => exact absurd (upsertBatch_accepted_iff.mp ⟨t', hup⟩) h
  | error err =>
    refine ⟨err, ?_⟩
    rw [processBatch, if_neg hevts, deadLetter_calm]
    simp only [if_neg hne]
    have hloop := writeLoop_calm hup 2 0 none
    rw [writeRetryAttempts, hloop]
    rfl

/-- The events of a batch that pass validation can be written together, over any table,
exactly if they are poisonless; and exactly then no call of `ProcessBatch` ends in a data
error. -/
theorem batch_written_iff (d : Dialect) (evts : List ProductImported) :
    (∀ t, (∃ t', upsertBatch d t (accepted evts) = .ok t') ↔ Poisonless d (accepted evts)) ∧
    ((∀ env w n err, (processBatch d env evts w).1 ≠ some (.write n (.data err))) ↔
      Poisonless d (accepted evts)) := by
  refine ⟨fun t => upsertBatch_accepted_iff, ?_⟩
  constructor
  · intro h
    by_contra hpoison
    obtain ⟨err, herr⟩ := processBatch_calm hpoison ⟨∅, fun _ => none, []⟩
    exact h _ _ _ _ herr
  · intro h env w n err herr
    obtain ⟨t, ht⟩ := processBatch_data herr
    exact not_ok_of_error ht (upsertBatch_accepted_iff.mpr h)

/-- An event whose currency is four characters long. -/
def euroEvent : ProductImported where
  jobID := lit "00000000-0000-4000-8000-000000000000"
  rowNum := 2
  producedAt := 0
  product := {
    merchantID := lit "m", productID := lit "p", name := lit "n", priceCents := 1
    currency := lit "EURO", expirationDate := [] }

/-- `FromEvent` accepts it, and no table takes it. -/
theorem long_currency_accepted :
    fromEvent euroEvent = .ok (productOf euroEvent) ∧
      ∀ d t, upsertBatch d t [productOf euroEvent] =
        .error ⟨"applying catalog batch", .tooLong⟩ := by
  have htexts : ∀ r ∈ [tupleOfProduct (productOf euroEvent)], ∀ s ∈ r.texts, storable s := by
    decide
  refine ⟨by decide, ?_⟩
  intro d t
  have hup : upsert d productsSchema t [tupleOfProduct (productOf euroEvent)] =
      .error .tooLong := by
    rw [upsert, if_neg (List.cons_ne_nil _ _), if_pos htexts]
    rfl
  simp only [upsertBatch, List.map_cons, List.map_nil, hup]
  rfl

end CsvProductUploader.Catalog
