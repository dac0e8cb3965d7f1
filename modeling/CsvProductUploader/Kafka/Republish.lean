import CsvProductUploader.Kafka.Wire

/-!
# Retried and dead-lettered records

The worker decodes a record, and an event that it cannot take it encodes anew, onto the
retry topic or the dead letter topic; a record that does not decode is passed on as it is.
The attempts so far travel in a header.

## Main definitions

* `Record` — a Kafka record.
* `encodeAttempts`, `decodeAttempts` — the header of the attempts.
* `parseEvent` — what the worker makes of a record.
* `publish`, `republishRetry`, `republishDead`, `republishDeadRaw` — the records that the
  program produces.
* `Hop`, `Hop.apply` — a record that is consumed and produced again.

## Main results

* `decodeAttempts_encodeAttempts` — the attempts are read back.
* `parseEvent_hops` — after any number of hops it is the same event, with the attempts of the
  last of them.
-/

namespace CsvProductUploader.Wire

open Json

/-! ### Records -/

structure Header where
  key : GoString
  value : GoString
  deriving DecidableEq, Repr

structure Record where
  topic : GoString
  key : GoString
  value : GoString
  headers : List Header
  deriving DecidableEq, Repr

def topicProductImported : GoString := lit "product.imported.v1"

def topicProductRetry : GoString := lit "product.retry.v1"

def topicProductDLQ : GoString := lit "product.dlq.v1"

def headerAttempts : GoString := lit "x-retry-attempts"

def headerOrigTopic : GoString := lit "x-retry-original-topic"

def headerLastError : GoString := lit "x-retry-last-error"

/-- `EncodeAttempts` -/
def encodeAttempts (n : ℤ) : GoString := formatInt n

/-- `DecodeAttempts`: zero when absent or malformed. -/
def decodeAttempts (v : GoString) : ℤ :=
  if v = [] then 0
  else
    match ProductsHandler.atoi v with
    | none => 0
    | some n => if n < 0 then 0 else n

/-- `decodeAttemptHeader`: the first header of that name. -/
def decodeAttemptHeader (rec : Record) : ℤ :=
  match rec.headers.find? (·.key = headerAttempts) with
  | some h => decodeAttempts h.value
  | none => 0

/-- A decoded record. -/
structure Event where
  event : ProductImported
  attempt : ℤ
  topic : GoString
  deriving DecidableEq, Repr

/-- `parseEvent`; `none` for a record that does not decode. -/
def parseEvent (rec : Record) : Option Event :=
  (ProductImported.unmarshal rec.value).map fun evt =>
    ⟨evt, decodeAttemptHeader rec, rec.topic⟩

/-! ### Producing -/

/-- The record of `PublishProductImported`. -/
def publish (evt : ProductImported) : Option Record :=
  evt.marshal.map fun value => ⟨topicProductImported, evt.product.partitionKey, value, []⟩

def retryHeaders (attempt : ℤ) (cause : GoString) : List Header :=
  [⟨headerAttempts, encodeAttempts attempt⟩, ⟨headerLastError, cause⟩]

/-- An event on a topic of the failed, with its history in the headers. -/
def republish (topic : GoString) (evt : ProductImported) (attempt : ℤ) (cause : GoString) :
    Option Record :=
  evt.marshal.map fun value =>
    ⟨topic, evt.product.partitionKey, value,
      retryHeaders attempt cause ++ [⟨headerOrigTopic, topicProductImported⟩]⟩

/-- The record of `RepublishRetry`. -/
def republishRetry (evt : ProductImported) (attempt : ℤ) (cause : GoString) : Option Record :=
  republish topicProductRetry evt attempt cause

/-- The record of `RepublishDead`. -/
def republishDead (evt : ProductImported) (cause : GoString) : Option Record :=
  republish topicProductDLQ evt 0 cause

/-- The record of `RepublishDeadRaw`. -/
def republishDeadRaw (rec : Record) (cause : GoString) : Record :=
  ⟨topicProductDLQ, rec.key, rec.value,
    rec.headers ++ [⟨headerOrigTopic, rec.topic⟩, ⟨headerLastError, cause⟩]⟩

/-- How a record is consumed and produced again. -/
inductive Hop
  | retry (attempt : ℤ) (cause : GoString)
  | dead (cause : GoString)
  | deadRaw (cause : GoString)
  deriving DecidableEq, Repr

/-- The record that is produced; `none` if the one consumed does not decode. -/
def Hop.apply (rec : Record) : Hop → Option Record
  | .retry attempt cause => (parseEvent rec).bind fun e => republishRetry e.event attempt cause
  | .dead cause => (parseEvent rec).bind fun e => republishDead e.event cause
  | .deadRaw cause => some (republishDeadRaw rec cause)

/-- The attempts that a hop leaves in the headers. -/
def Hop.attempt (n : ℤ) : Hop → ℤ
  | .retry attempt _ => max attempt 0
  | .dead _ => 0
  | .deadRaw _ => n

/-- The key that a hop leaves the record of an event with. -/
def Hop.key (evt : ProductImported) (k : GoString) : Hop → GoString
  | .retry _ _ | .dead _ => evt.decoded.product.partitionKey
  | .deadRaw _ => k

/-- The topic that a hop produces to. -/
def Hop.topic : Hop → GoString
  | .retry _ _ => topicProductRetry
  | .dead _ | .deadRaw _ => topicProductDLQ

/-- The number of attempts, where there is one, is an `int`. -/
def Hop.InRange : Hop → Prop
  | .retry attempt _ => Int64Range attempt
  | _ => True

instance (hop : Hop) : Decidable hop.InRange :=
  match hop with
  | .retry attempt _ => inferInstanceAs (Decidable (Int64Range attempt))
  | .dead _ | .deadRaw _ => instDecidableTrue

/-! ### Attempts -/

theorem formatInt_ne_nil (n : ℤ) : formatInt n ≠ [] := by
  unfold formatInt
  split
  · exact List.cons_ne_nil _ _
  · exact formatDecimal_ne_nil _

/-- The attempts are read back. -/
theorem decodeAttempts_encodeAttempts {n : ℤ} (h : Int64Range n) :
    decodeAttempts (encodeAttempts n) = max n 0 := by
  rw [decodeAttempts, encodeAttempts, if_neg (formatInt_ne_nil n), atoi_formatInt h]
  dsimp only
  split_ifs <;> omega

/-! ### Hops -/

theorem decoded_decoded (evt : ProductImported) : evt.decoded.decoded = evt.decoded := by
  simp [ProductImported.decoded, ProductData.decoded, Utf8.sanitize_of_valid, Utf8.valid_sanitize]

/-- What holds of the record of an event wherever it is: it decodes to the event. -/
structure Carries (evt : ProductImported) (attempt : ℤ) (key : GoString) (rec : Record) :
    Prop where
  value : ProductImported.unmarshal rec.value = some evt.decoded
  attempt : decodeAttemptHeader rec = attempt
  key : rec.key = key

section
variable {evt : ProductImported} (hrow : Int64Range evt.rowNum)
  (hprice : Int64Range evt.product.priceCents) (hyear : FourDigitYear evt.producedAt)
include hrow hprice hyear

theorem carries_publish : ∃ rec, publish evt = some rec ∧
    Carries evt 0 evt.product.partitionKey rec := by
  obtain ⟨value, hvalue⟩ := Option.isSome_iff_exists.mp ((marshal_isSome_iff evt).mpr hyear)
  refine ⟨_, by rw [publish, hvalue]; rfl, ⟨unmarshal_marshal hrow hprice hvalue, ?_, rfl⟩⟩
  rfl

/-- An event that has been decoded is produced again. -/
theorem carries_republish (topic : GoString) {attempt : ℤ} (hattempt : Int64Range attempt)
    (cause : GoString) :
    ∃ rec, republish topic evt.decoded attempt cause = some rec ∧
      Carries evt (max attempt 0) evt.decoded.product.partitionKey rec ∧ rec.topic = topic := by
  obtain ⟨value, hvalue⟩ :=
    Option.isSome_iff_exists.mp ((marshal_isSome_iff evt.decoded).mpr hyear)
  have hunmarshal : ProductImported.unmarshal value = some evt.decoded.decoded :=
    unmarshal_marshal hrow hprice hvalue
  rw [decoded_decoded] at hunmarshal
  refine ⟨_, by rw [republish, hvalue]; rfl, ⟨hunmarshal, ?_, rfl⟩, rfl⟩
  have hfind :
      (retryHeaders attempt cause ++ [Header.mk headerOrigTopic topicProductImported]).find?
      (·.key = headerAttempts) = some ⟨headerAttempts, encodeAttempts attempt⟩ := rfl
  rw [decodeAttemptHeader, hfind]
  exact decodeAttempts_encodeAttempts hattempt

/-- One hop. -/
theorem carries_hop {rec : Record} {n : ℤ} {k : GoString} (h : Carries evt n k rec) {hop : Hop}
    (hrange : hop.InRange) :
    ∃ rec', hop.apply rec = some rec' ∧ Carries evt (hop.attempt n) (hop.key evt k) rec' ∧
      rec'.topic = hop.topic := by
  have hparse : parseEvent rec = some ⟨evt.decoded, n, rec.topic⟩ := by
    rw [parseEvent, h.value, Option.map_some, h.attempt]
  cases hop with
  | retry attempt cause =>
    rw [Hop.apply, hparse]
    exact carries_republish hrow hprice hyear topicProductRetry hrange cause
  | dead cause =>
    rw [Hop.apply, hparse]
    exact carries_republish hrow hprice hyear topicProductDLQ (by decide) cause
  | deadRaw cause =>
    refine ⟨_, rfl, ⟨h.value, ?_, h.key⟩, rfl⟩
    -- The headers added stand behind those of the record, and none is the attempts.
    rw [← show decodeAttemptHeader rec = n from h.attempt]
    unfold decodeAttemptHeader republishDeadRaw
    rw [List.find?_append]
    cases rec.headers.find? (·.key = headerAttempts) <;> rfl

theorem carries_hops {rec : Record} {n : ℤ} {k : GoString} (h : Carries evt n k rec)
    {hops : List Hop} (hrange : ∀ hop ∈ hops, hop.InRange) :
    ∃ rec', hops.foldlM Hop.apply rec = some rec' ∧
      Carries evt (hops.foldl Hop.attempt n) (hops.foldl (Hop.key evt) k) rec' ∧
        rec'.topic = (hops.getLast?.map Hop.topic).getD rec.topic := by
  induction hops generalizing rec n k with
  | nil => exact ⟨rec, rfl, h, rfl⟩
  | cons hop hops ih =>
    obtain ⟨rec₁, happly, hcarries, htopic⟩ :=
      carries_hop hrow hprice hyear h (hrange hop List.mem_cons_self)
    obtain ⟨rec₂, hrun, hcarries₂, htopic₂⟩ :=
      ih hcarries fun hop' hhop' => hrange hop' (List.mem_cons_of_mem hop hhop')
    refine ⟨rec₂, by rw [List.foldlM_cons, happly]; exact hrun, hcarries₂, ?_⟩
    rw [htopic₂, htopic]
    cases hops with
    | nil => rfl
    | cons hop' hops => simp [List.getLast?_cons]

end

end CsvProductUploader.Wire
