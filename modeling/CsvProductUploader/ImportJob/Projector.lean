import CsvProductUploader.Catalog.Commits
import CsvProductUploader.ImportJob.Published

/-!
# The importer's product projection

The importer consumes the product topic a second time, next to the catalog worker, and keeps
a table of its own for the UI.  It decodes, filters and writes by itself, and what it filters
out is not what the worker dead-letters.

## Main definitions

* `projectPoll` — one cycle of `ProductProjector.Run`.
* `consumeCatalog`, `consumeProjection` — the topic through the worker and the projector.
* `SameView` — both tables hold the same, and nothing that was dead-lettered was projected.
* `ViewsAgreeOn` — what the events must be like for that.

## Main results

* `consumeCatalog_spec`, `consumeProjection_spec` — what the two leave in their tables.
* `same_view_iff` — when the two views agree.
* `nameless_event_projected` — an event that is dead-lettered, and projected.
-/

namespace CsvProductUploader

open Catalog

/-! ### `ProductProjector.Run` -/

def projectionWriteAttempts : ℕ := 3

/-- How the world answers the writes of one cycle. -/
structure ProjectorEnv where
  /-- The connection fails at an attempt, after the statement took effect or before. -/
  lost : ℕ → Option (String × Bool)
  /-- The context is done in the pause after an attempt. -/
  cancelled : ℕ → Bool

inductive ProjectionError
  /-- `projecting products after %d attempts: %w` -/
  | write (attempts : ℕ) (err : WriteFailure)
  /-- `ctx.Err()` -/
  | cancelled
  deriving DecidableEq, Repr

/-- One call of `UpsertProducts` and its effect on the projection. -/
def projectOnce (d : Dialect) (evts : List ProductImported) (lost : Option (String × Bool))
    (t : Table ℤ) : Option WriteFailure × Table ℤ :=
  match upsertProducts d t evts, lost with
  | .ok t', none => (none, t')
  | .ok t', some (err, applied) => (some (.connection err), if applied then t' else t)
  | .error _, some (err, _) => (some (.connection err), t)
  | .error err, none => (some (.data err), t)

/-- The in-place retries: `left` attempts from number `attempt` on. -/
def projectLoop (d : Dialect) (env : ProjectorEnv) (evts : List ProductImported) :
    ℕ → ℕ → Option WriteFailure → Table ℤ → Option ProjectionError × Table ℤ
  | 0, _, none, t => (none, t)
  | 0, _, some err, t => (some (.write projectionWriteAttempts err), t)
  | left + 1, attempt, _, t =>
    match projectOnce d evts (env.lost attempt) t with
    | (none, t') => (none, t')
    | (some err, t') =>
      if env.cancelled attempt then (some .cancelled, t')
      else projectLoop d env evts left (attempt + 1) (some err) t'

/-- The events of a poll that decode. -/
def eventsOf (recs : List Payload) : List ProductImported :=
  recs.filterMap fun rec =>
    match rec with
    | .event evt => some evt
    | .raw _ => none

/-- One cycle of `Run` up to its commit. -/
def projectPoll (d : Dialect) (env : ProjectorEnv) (recs : List Payload) (t : Table ℤ) :
    Option ProjectionError × Table ℤ :=
  let evts := (eventsOf recs).filter projectable
  if evts = [] then (none, t) else projectLoop d env evts projectionWriteAttempts 0 none t

/-! ### The topic through both consumers -/

/-- Writes that meet no failure but those of their data. -/
def ProjectorEnv.calm : ProjectorEnv := ⟨fun _ => none, fun _ => false⟩

/-- A poll of the projector; `none` if its write fails. -/
def projectorCycle (d : Dialect) (t : Table ℤ) (recs : List Payload) : Option (Table ℤ) :=
  match projectPoll d .calm recs t with
  | (none, t') => some t'
  | (some _, _) => none

/-- A poll of the catalog worker; `none` if its write fails. -/
def catalogCycle (d : Dialect) (w : World) (recs : List Payload) : Option World :=
  match processBatch d .calm (eventsOf recs) w with
  | (none, w') => some w'
  | (some _, _) => none

/-- The topic through the projector. -/
def consumeProjection (d : Dialect) (t : Table ℤ) (polls : List (List Payload)) :
    Option (Table ℤ) :=
  polls.foldlM (projectorCycle d) t

/-- The topic through the catalog worker. -/
def consumeCatalog (d : Dialect) (w : World) (polls : List (List Payload)) : Option World :=
  polls.foldlM (catalogCycle d) w

/-- Nothing consumed yet. -/
def Catalog.World.blank : World := ⟨∅, fun _ => none, []⟩

/-- The columns that both tables have. -/
def Stored.view {χ : Type} (r : Stored χ) : GoString × ℤ × GoString × Option Date × GoString :=
  (r.name, r.priceCents, r.currency, r.expirationDate, r.sourceJobID)

/-- Both tables hold the same identities with the same columns, and no event that the worker
dead-lettered was projected. -/
structure SameView (w : World) (t : Table ℤ) : Prop where
  rows : ∀ key, (w.products key).map Stored.view = (t key).map Stored.view
  dead : ∀ evt ∈ w.dead, ¬ projectable evt

/-- The identity of an event. -/
def ProductImported.key (evt : ProductImported) : GoString × GoString :=
  (evt.product.merchantID, evt.product.productID)

/-- Every event that passes the projector's filter passes `FromEvent`, and the last of them of
each identity has a currency of three characters. -/
structure ViewsAgreeOn (evts : List ProductImported) : Prop where
  accepted : ∀ evt ∈ evts, projectable evt → (fromEvent evt).isOk = true
  currency : ∀ evt ∈ lastPerKey ProductImported.key (evts.filter projectable),
    (Utf8.runes evt.product.currency).length = 3

/-! ### What one poll leaves -/

section
variable {d : Dialect}

theorem projectLoop_calm {evts : List ProductImported} {err : WriteError} {t : Table ℤ}
    (h : upsertProducts d t evts = .error err) (left attempt : ℕ) (last : Option WriteFailure) :
    projectLoop d .calm evts (left + 1) attempt last t =
      (some (.write projectionWriteAttempts (.data err)), t) := by
  have hwrite : ∀ k, projectOnce d evts (ProjectorEnv.calm.lost k) t = (some (.data err), t) := by
    intro k
    simp only [projectOnce, h, ProjectorEnv.calm]
  induction left generalizing attempt last with
  | zero =>
    rw [projectLoop, hwrite]
    rfl
  | succ left ih =>
    rw [projectLoop, hwrite]
    exact ih (attempt + 1) (some (.data err))

/-- A cycle that ends well has written the events that pass the filter. -/
theorem upsert_of_projectPoll {recs : List Payload} {t t' : Table ℤ}
    (h : projectPoll d .calm recs t = (none, t')) :
    upsertProducts d t ((eventsOf recs).filter projectable) = .ok t' := by
  simp only [projectPoll] at h
  split at h
  · next hnil =>
    obtain ⟨-, rfl⟩ := Prod.mk.inj h
    rw [hnil]
    rfl
  · cases hup : upsertProducts d t ((eventsOf recs).filter projectable) with
    | ok t₁ =>
      have hloop : projectLoop d .calm ((eventsOf recs).filter projectable)
          projectionWriteAttempts 0
          none t = (none, t₁) := by
        simp only [projectionWriteAttempts, projectLoop, projectOnce, hup, ProjectorEnv.calm]
      rw [hloop] at h
      obtain ⟨-, rfl⟩ := Prod.mk.inj h
      rfl
    | error err =>
      rw [projectionWriteAttempts, projectLoop_calm hup] at h
      cases (Prod.mk.inj h).1

/-- A batch that ends well has written what is accepted and dead-lettered the rest. -/
theorem upsert_of_processBatch {evts : List ProductImported} {w w' : World}
    (h : processBatch d .calm evts w = (none, w')) :
    upsertBatch d w.products (accepted evts) = .ok w'.products ∧
      w'.dead = w.dead ++ (splitBatch evts).2 := by
  unfold processBatch at h
  split at h
  · next hnil =>
    obtain ⟨-, rfl⟩ := Prod.mk.inj h
    subst hnil
    exact ⟨rfl, (List.append_nil _).symm⟩
  · rw [deadLetter_calm] at h
    simp only at h
    split at h
    · next hnone =>
      obtain ⟨-, rfl⟩ := Prod.mk.inj h
      rw [hnone]
      exact ⟨rfl, rfl⟩
    · -- Nothing is lost here, so the first attempt decides.
      cases hup : upsertBatch d w.products (accepted evts) with
      | ok t =>
        have hloop : writeLoop d .calm (accepted evts) writeRetryAttempts 0 none w.products =
            (none, t) := by
          simp only [writeRetryAttempts, writeLoop, writeOnce, hup, Env.calm]
        rw [hloop] at h
        obtain ⟨-, rfl⟩ := Prod.mk.inj h
        exact ⟨rfl, rfl⟩
      | error err =>
        have hloop := writeLoop_calm hup 2 0 none
        rw [writeRetryAttempts, hloop] at h
        cases (Prod.mk.inj h).1

/-! ### What the topic leaves -/

theorem eventsOf_append (recs recs' : List Payload) :
    eventsOf (recs ++ recs') = eventsOf recs ++ eventsOf recs' := List.filterMap_append

theorem splitBatch_append (evts evts' : List ProductImported) :
    (splitBatch (evts ++ evts')).2 = (splitBatch evts).2 ++ (splitBatch evts').2 := by
  simp only [splitBatch, List.partition_eq_filter_filter, List.filter_append]

/-- The events of a topic that pass the projector's filter, as it writes them. -/
def projectionRows (recs : List Payload) : List (Tuple ℤ) :=
  ((eventsOf recs).filter projectable).map tupleOfEvent

/-- The events of a topic that the catalog worker accepts, as it writes them. -/
def catalogRows (recs : List Payload) : List (Tuple Unit) :=
  (accepted (eventsOf recs)).map tupleOfProduct

theorem consumeProjection_spec {polls : List (List Payload)} {t t' : Table ℤ}
    (h : consumeProjection d t polls = some t') :
    (polls.map projectionRows).foldlM (upsert d projectionSchema) t = .ok t' := by
  induction polls generalizing t with
  | nil =>
    obtain rfl := Option.some.inj h
    rfl
  | cons recs polls ih =>
    rw [consumeProjection, List.foldlM_cons] at h
    obtain ⟨t₁, hcycle, h⟩ := Option.bind_eq_some_iff.mp h
    have hup : upsert d projectionSchema t (projectionRows recs) = .ok t₁ := by
      unfold projectorCycle at hcycle
      split at hcycle
      · next t₂ hpoll =>
        obtain rfl := Option.some.inj hcycle
        exact Checks.mapError_eq_ok_iff.mp (upsert_of_projectPoll hpoll)
      · cases hcycle
    rw [List.map_cons, List.foldlM_cons, hup]
    exact ih h

theorem consumeCatalog_spec {polls : List (List Payload)} {w w' : World}
    (h : consumeCatalog d w polls = some w') :
    (polls.map catalogRows).foldlM (upsert d productsSchema) w.products = .ok w'.products ∧
      w'.dead = w.dead ++ (splitBatch (eventsOf polls.flatten)).2 := by
  -- One poll is one statement, and the table goes from poll to poll.
  induction polls generalizing w with
  | nil =>
    obtain rfl := Option.some.inj h
    exact ⟨rfl, (List.append_nil _).symm⟩
  | cons recs polls ih =>
    rw [consumeCatalog, List.foldlM_cons] at h
    obtain ⟨w₁, hcycle, h⟩ := Option.bind_eq_some_iff.mp h
    obtain ⟨hup, hdead⟩ : upsert d productsSchema w.products (catalogRows recs) = .ok w₁.products ∧
        w₁.dead = w.dead ++ (splitBatch (eventsOf recs)).2 := by
      unfold catalogCycle at hcycle
      split at hcycle
      · next w₂ hbatch =>
        obtain rfl := Option.some.inj hcycle
        obtain ⟨hup, hdead⟩ := upsert_of_processBatch hbatch
        exact ⟨Checks.mapError_eq_ok_iff.mp hup, hdead⟩
      · cases hcycle
    obtain ⟨hrest, hdead'⟩ := ih h
    constructor
    · rw [List.map_cons, List.foldlM_cons, hup]
      exact hrest
    · rw [hdead', hdead, List.flatten_cons, eventsOf_append, splitBatch_append, List.append_assoc]

theorem flatten_projectionRows (polls : List (List Payload)) :
    (polls.map projectionRows).flatten = projectionRows polls.flatten := by
  induction polls with
  | nil => rfl
  | cons recs polls ih =>
    rw [List.map_cons, List.flatten_cons, List.flatten_cons, ih]
    simp only [projectionRows, eventsOf_append, List.filter_append, List.map_append]

theorem flatten_catalogRows (polls : List (List Payload)) :
    (polls.map catalogRows).flatten = catalogRows polls.flatten := by
  induction polls with
  | nil => rfl
  | cons recs polls ih =>
    rw [List.map_cons, List.flatten_cons, List.flatten_cons, ih]
    simp only [catalogRows, eventsOf_append, accepted, List.filterMap_append, List.map_append]

/-- What passes `FromEvent` passes the projector's filter. -/
theorem projectable_of_valid {evt : ProductImported} (h : (productOf evt).Valid) :
    projectable evt := ⟨h.sourceJobID, h.merchantID, h.productID⟩

/-- The accepted products are those of the events that pass the filter, if none of these is
rejected. -/
theorem accepted_eq_map {evts : List ProductImported}
    (h : ∀ evt ∈ evts, projectable evt → (fromEvent evt).isOk = true) :
    accepted evts = (evts.filter projectable).map productOf := by
  rw [accepted_eq, validEvents]
  congr 1
  refine List.filter_congr fun evt hevt => ?_
  rw [Bool.eq_iff_iff, decide_eq_true_eq]
  exact ⟨fun hok => projectable_of_valid (isOk_fromEvent_iff.mp hok), h evt hevt⟩

/-- Of one event both tables store the same columns, the currency apart. -/
theorem view_eq_iff {evt : ProductImported}
    (hc : Takes d productsSchema (tupleOfProduct (productOf evt)))
    (hp : Takes d projectionSchema (tupleOfEvent evt)) :
    (stored d productsSchema (tupleOfProduct (productOf evt))).view =
        (stored d projectionSchema (tupleOfEvent evt)).view ↔
      (Utf8.runes evt.product.currency).length = 3 := by
  obtain ⟨e, u, c, he, hu, hcur, hrow⟩ := stored_of_takes hc
  obtain ⟨e', u', c', he', hu', hcur', hrow'⟩ := stored_of_takes hp
  obtain rfl : e = e' := Except.ok.inj (he.symm.trans he')
  obtain rfl : u = u' := Option.some.inj (hu.symm.trans hu')
  have hkept : evt.product.currency = c' := Option.some.inj hcur'
  have hchar : char3 evt.product.currency = some c := hcur
  rw [hrow, hrow', ← char3_eq_self_iff, hchar]
  simp only [Stored.view, tupleOfProduct, productOf, tupleOfEvent, Prod.mk.injEq, true_and,
      and_true,
    Option.some.injEq]
  rw [hkept]

/-- The last event of an identity decides its row. -/
theorem putAll_map_of_last {χ : Type} {row : ProductImported → Tuple χ} {val : Tuple χ → Stored χ}
    (hrow : ∀ evt, (row evt).key = evt.key) {e₁ e₂ : List ProductImported} {evt : ProductImported}
    (h : ∀ e ∈ e₂, e.key ≠ evt.key) :
    putAll Tuple.key val (fun _ => none) ((e₁ ++ evt :: e₂).map row) evt.key =
        some (val (row evt)) := by
  rw [List.map_append, List.map_cons, ← hrow evt]
  apply putAll_of_last
  intro r hr
  obtain ⟨e, he, rfl⟩ := List.mem_map.mp hr
  rw [hrow, hrow]
  exact h e he

/-- An identity without events has no row. -/
theorem putAll_map_of_forall_ne {χ : Type} {row : ProductImported → Tuple χ}
    {val : Tuple χ → Stored χ} (hrow : ∀ evt, (row evt).key = evt.key)
    {evts : List ProductImported} {key : GoString × GoString} (h : ¬ ∃ evt ∈ evts, evt.key = key) :
    putAll Tuple.key val (fun _ => none) (evts.map row) key = none := by
  apply putAll_of_forall_ne
  intro r hr heq
  obtain ⟨e, he, rfl⟩ := List.mem_map.mp hr
  exact h ⟨e, he, (hrow e).symm.trans heq⟩

/-- Written from the same events, both tables agree exactly if the last one of each identity has a
currency of three characters. -/
theorem rows_agree_iff {evts : List ProductImported}
    (hc : ∀ r ∈ lastPerKey Tuple.key (evts.map (tupleOfProduct ∘ productOf)),
        Takes d productsSchema r)
    (hp : ∀ r ∈ lastPerKey Tuple.key (evts.map tupleOfEvent), Takes d projectionSchema r) :
    (∀ key, (putAll Tuple.key (stored d productsSchema) (fun _ => none)
          (evts.map (tupleOfProduct ∘ productOf)) key).map Stored.view =
        (putAll Tuple.key (stored d projectionSchema) (fun _ => none)
          (evts.map tupleOfEvent) key).map Stored.view) ↔
      ∀ evt ∈ lastPerKey ProductImported.key evts,
          (Utf8.runes evt.product.currency).length = 3 := by
  -- The row of an identity is that of its last event, in either table.
  have hlast : ∀ {e₁ evt e₂}, evts = e₁ ++ evt :: e₂ → (∀ e ∈ e₂, e.key ≠ evt.key) →
      ((putAll Tuple.key (stored d productsSchema) (fun _ => none)
            (evts.map (tupleOfProduct ∘ productOf)) evt.key).map Stored.view =
          (putAll Tuple.key (stored d projectionSchema) (fun _ => none)
            (evts.map tupleOfEvent) evt.key).map Stored.view ↔
        (Utf8.runes evt.product.currency).length = 3) := by
    intro e₁ evt e₂ hevts hlater
    have hmem : evt ∈ lastPerKey ProductImported.key evts :=
      mem_lastPerKey_iff.mpr ⟨e₁, e₂, hevts, hlater⟩
    have htakes : Takes d productsSchema (tupleOfProduct (productOf evt)) := by
      apply hc
      rw [lastPerKey_map]
      exact List.mem_map_of_mem hmem
    have htakes' : Takes d projectionSchema (tupleOfEvent evt) := by
      apply hp
      rw [lastPerKey_map]
      exact List.mem_map_of_mem hmem
    rw [← view_eq_iff htakes htakes', hevts, putAll_map_of_last (fun _ => rfl) hlater,
      putAll_map_of_last (fun _ => rfl) hlater, Option.map_some, Option.map_some, Option.some.injEq]
    rfl
  constructor
  · intro hview evt hevt
    obtain ⟨e₁, e₂, hevts, hlater⟩ := mem_lastPerKey_iff.mp hevt
    exact (hlast hevts hlater).mp (hview evt.key)
  · intro hcurrency key
    by_cases hkey : ∃ evt ∈ evts, evt.key = key
    · obtain ⟨e₁, evt, e₂, hevts, rfl, hlater⟩ := exists_last hkey
      exact (hlast hevts hlater).mpr
        (hcurrency evt (mem_lastPerKey_iff.mpr ⟨e₁, e₂, hevts, hlater⟩))
    · rw [putAll_map_of_forall_ne (fun _ => rfl) hkey, putAll_map_of_forall_ne (fun _ => rfl) hkey]
      rfl

/-- **When the views agree**: exactly if every event that passes the projector's filter passes
`FromEvent`, and the last one of each identity has a currency of three characters. -/
theorem same_view_iff {catalogPolls projectorPolls : List (List Payload)} {w : World} {t : Table ℤ}
    (hsame : catalogPolls.flatten = projectorPolls.flatten)
    (hw : consumeCatalog d .blank catalogPolls = some w)
    (ht : consumeProjection d (fun _ => none) projectorPolls = some t) :
    SameView w t ↔ ViewsAgreeOn (eventsOf catalogPolls.flatten) := by
  obtain ⟨hcatalog, hdead⟩ := consumeCatalog_spec hw
  obtain ⟨hproducts, htakes⟩ := foldlM_upsert hcatalog
  obtain ⟨hprojection, htakes'⟩ := foldlM_upsert (consumeProjection_spec ht)
  rw [flatten_catalogRows] at hproducts htakes
  rw [flatten_projectionRows, ← hsame] at hprojection htakes'
  generalize catalogPolls.flatten = recs at *
  -- Once no event that passes the filter is rejected, both write the same events.
  have hrows : (∀ evt ∈ eventsOf recs, projectable evt → (fromEvent evt).isOk = true) →
      ((∀ key, (w.products key).map Stored.view = (t key).map Stored.view) ↔
        ∀ evt ∈ lastPerKey ProductImported.key ((eventsOf recs).filter projectable),
          (Utf8.runes evt.product.currency).length = 3) := by
    intro hacc
    rw [catalogRows, accepted_eq_map hacc, List.map_map] at hproducts htakes
    rw [hproducts, hprojection]
    exact rows_agree_iff htakes htakes'
  constructor
  · rintro ⟨hview, hdeadProj⟩
    have hacc : ∀ evt ∈ eventsOf recs, projectable evt → (fromEvent evt).isOk = true := by
      intro evt hevt hproj
      by_contra hbad
      refine hdeadProj evt ?_ hproj
      rw [hdead]
      refine List.mem_append_right _ ?_
      simp only [splitBatch, List.partition_eq_filter_filter, List.mem_filter]
      exact ⟨hevt, by simpa using hbad⟩
    exact ⟨hacc, (hrows hacc).mp hview⟩
  · rintro ⟨hacc, hcurrency⟩
    refine ⟨(hrows hacc).mpr hcurrency, fun evt hevt hproj => ?_⟩
    rw [hdead] at hevt
    have hmem : evt ∈ (splitBatch (eventsOf recs)).2 := hevt
    simp only [splitBatch, List.partition_eq_filter_filter, List.mem_filter] at hmem
    have hok := hacc evt hmem.1 hproj
    rw [Function.comp_apply, hok] at hmem
    cases hmem.2

end

/-- Two events and a record that does not decode, polled in two ways. -/
theorem same_view_two_polls :
    ∃ w t, consumeCatalog canonicalDialect .blank
        [[.event soundEvent, .raw brokenValue], [.event soundEvent]] = some w ∧
      consumeProjection canonicalDialect (fun _ => none)
        [[.event soundEvent], [.raw brokenValue, .event soundEvent]] = some t ∧ SameView w t := by
  have hrun : ∃ w t, consumeCatalog canonicalDialect .blank
        [[.event soundEvent, .raw brokenValue], [.event soundEvent]] = some w ∧
      consumeProjection canonicalDialect (fun _ => none)
        [[.event soundEvent], [.raw brokenValue, .event soundEvent]] = some t := ⟨_, _, rfl, rfl⟩
  have hagree : ViewsAgreeOn (eventsOf [[.event soundEvent, .raw brokenValue],
      [.event soundEvent]].flatten) :=
    ⟨by decide, by decide⟩
  obtain ⟨w, t, hw, ht⟩ := hrun
  exact ⟨w, t, hw, ht, (same_view_iff rfl hw ht).mpr hagree⟩

/-- An event without a name is dead-lettered by the worker and projected all the same. -/
theorem nameless_event_projected :
    ∃ w t, consumeCatalog canonicalDialect .blank [[.event namelessEvent]] = some w ∧
      consumeProjection canonicalDialect (fun _ => none) [[.event namelessEvent]] = some t ∧
      w.dead = [namelessEvent] ∧ w.products namelessEvent.key = none ∧
      (t namelessEvent.key).isSome = true ∧ ¬ SameView w t := by
  refine ⟨_, _, rfl, rfl, by decide, by decide, by decide, fun h => ?_⟩
  exact h.dead namelessEvent (by decide) (by decide)

end CsvProductUploader
