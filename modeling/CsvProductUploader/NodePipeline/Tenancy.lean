import CsvProductUploader.NodePipeline.Processor
import CsvProductUploader.NodePipeline.Products
import Mathlib.Data.List.Flatten

/-!
# The users of the NestJS API

Whoever signs up is handed a token, and with it uploads files, lists its batches and queries
its products.  All users share the tables, the queue and the processor.

## Main definitions

* `Server` — what the API leaves to its libraries and its database.
* `Request`, `extractToken`, `canActivate` — the guard of the routes that are not public.
* `Upload`, `Tables` — the batches with their jobs, and what the primary keys see to.
* `handle`, `step` — the routes, and the processor between the requests.
* `owner` — the user that a request, or a step of the processor, is for.

## Main results

* `alone_of_run` — **every user is answered as if it had the server to itself**.
-/

namespace CsvProductUploader.NodePipeline

open Runs Paging

namespace Tenancy

/-! ### The guard -/

/-- What the API leaves to its libraries and its database. -/
structure Server (τ : Type) where
  db : Database τ
  engine : Engine
  /-- `verifyAsync`, at a time: the subject of a token that is valid then. -/
  verify : ℤ → JsString → Option (Option JsString)
  /-- `sign({ sub })`, at a time. -/
  sign : ℤ → JsString → JsString
  /-- Whether the column takes a file name. -/
  takesFileName : JsString → Bool
  /-- Whether the products table takes a row. -/
  accepts : ProcessedRow → Bool
  /-- A price, and an exchange rate, as their columns store them. -/
  storedPrice : Number → ℚ
  storedRate : Number → Number
  /-- `Math.round(price * rate * 100) / 100` -/
  convert : Number → Number → Number
  duplicateKey : JsString
  refused : JsString

structure Request where
  now : ℤ
  authorization : Option JsString
  /-- The parameter `token` of the query. -/
  token : Option JsString

/-- `extractToken` -/
def extractToken (req : Request) : Option JsString :=
  match req.authorization.elim [] (split 0x20) with
  | [] => req.token.filter (· ≠ [])
  | type :: rest => if type = js "Bearer" then rest.head? else req.token.filter (· ≠ [])

section
variable {τ : Type} (srv : Server τ)

/-- `canActivate`, on a route that is not public: the subject of the token; `none` is an
`UnauthorizedException`. -/
def canActivate (req : Request) : Option (Option JsString) :=
  ((extractToken req).filter (· ≠ [])).bind (srv.verify req.now)

/-- The user that a column of the tables holds for the `userId` of a request or of a job. -/
def storedUser (userId : Option JsString) : Option JsString :=
  (orNull userId).bind srv.db.castUUID

/-! ### Files and batches -/

def MAX_FILE_SIZE : ℕ := 50 * 1024 * 1024

structure UploadedFile where
  originalname : JsString
  mimetype : JsString
  size : ℕ
  /-- What `csv-parser` makes of it, and the rates that its attempts are answered. -/
  parsed : Except JsString (List CsvRow)
  usd : ℕ → Option (JsString → Option Number)

/-- `extname(name)`, of a name without slashes. -/
def extname (name : JsString) : JsString :=
  let rest := name.rtakeWhile (· ≠ 0x2E)
  if rest.length + 1 < name.length ∧ name ≠ js ".." then 0x2E :: rest else []

/-- `s.toLowerCase()`, as far as ASCII. -/
def toLowerCase (s : JsString) : JsString :=
  s.map fun u => if 0x41 ≤ u && u ≤ 0x5A then u + 0x20 else u

/-- Whether `fileFilter` lets a file pass. -/
def fileFilter (file : UploadedFile) : Bool :=
  toLowerCase (extname file.originalname) = js ".csv" ||
    file.mimetype ∈ [js "text/csv", js "application/vnd.ms-excel"]

/-- A batch and its job. -/
structure Upload where
  fileName : JsString
  createdAt : ℤ
  job : Job
  /-- Whether the queue has taken the job. -/
  queued : Bool
  proc : NodePipeline.State
  /-- The ids and the times that the database gives its products, one after another. -/
  stamps : ℕ → JsString × ℤ

/-- A batch as it is listed. -/
structure Batch where
  id : JsString
  fileName : JsString
  createdAt : ℤ
  columns : UploadBatch
  deriving DecidableEq

namespace Upload

variable (up : Upload)

def id : JsString := up.job.batchId

/-- The user in its column. -/
def user : Option JsString := storedUser srv up.job.userId

def batch : Batch := ⟨up.id, up.fileName, up.createdAt, up.proc.world.batch⟩

/-- A row of the products table. -/
def product (row : ProcessedRow) (k : ℕ) : Product where
  id := (up.stamps k).1
  name := row.name
  price := srv.storedPrice row.price
  expirationDate := row.expirationDate
  uploadBatchId := row.uploadBatchId
  userId := storedUser srv row.userId
  createdAt := (up.stamps k).2

/-- The products that its job has saved. -/
def products : List Product :=
  up.proc.world.products.zipIdx.map fun (row, k) => up.product srv row k

end Upload

/-- The tables.  Ids are primary keys. -/
structure Tables where
  users : List JsString
  uploads : List Upload
  nodup_id : (uploads.map Upload.id).Nodup
  nodup : ((uploads.flatMap (Upload.products srv)).map Product.id).Nodup
  length_lt : (uploads.flatMap (Upload.products srv)).length < 2 ^ 63

variable {srv}

namespace Tables

variable (T : Tables srv)

def products : ProductTable := ⟨T.uploads.flatMap (Upload.products srv), T.nodup, T.length_lt⟩

/-- `getRatesForBatch` -/
def rates : Rates where
  ofBatch id := (T.uploads.find? fun up => up.id = id).elim [] fun up =>
    up.proc.world.exchangeRates.map fun rate => (rate.currencyCode, srv.storedRate rate.rate)
  convert := srv.convert

/-- Other batches in place of those there are, as far as the primary keys allow. -/
def put (uploads : List Upload) : Option (Tables srv) :=
  if h : (uploads.map Upload.id).Nodup ∧
      ((uploads.flatMap (Upload.products srv)).map Product.id).Nodup ∧
      (uploads.flatMap (Upload.products srv)).length < 2 ^ 63 then
    some ⟨T.users, uploads, h.1, h.2.1, h.2.2⟩
  else none

end Tables

/-! ### The routes -/

/-- What the database makes up for a new batch, and whether the queue takes its job. -/
structure NewBatch where
  id : JsString
  createdAt : ℤ
  stamps : ℕ → JsString × ℤ
  queued : Bool

/-- `job.data`, less the path of the file. -/
structure JobData where
  batchId : JsString
  userId : Option JsString
  deriving DecidableEq

inductive Label
  /-- `POST auth/signup`, where the database makes up the id. -/
  | signup (now : ℤ) (id : JsString)
  /-- `POST auth/login`; `none` is a body that the validation pipe rejects. -/
  | login (now : ℤ) (userId : Option JsString)
  /-- `POST upload` -/
  | uploadFile (req : Request) (file : Option UploadedFile) (new : NewBatch)
  /-- `GET upload/batches` -/
  | getBatches (req : Request) (sorter : Sorter Batch)
  /-- `GET products`; `none` is a query that the validation pipe rejects. -/
  | findAll (req : Request) (query : Option GetProductsDto) (sorter : Sorter Product)
  /-- The processor goes on with a job. -/
  | process (data : JobData) (event : NodePipeline.Label)

inductive Response
  | unauthorized
  | badRequest
  | payloadTooLarge
  | internalServerError
  | token (token userId : JsString)
  | batch (batch : Batch)
  | batches (data : List Batch)
  | products (page : PaginatedResponse)

variable (srv)

/-- The batch whose job the queue does not take. -/
def failedToStart : UploadBatch :=
  start.world.batch.update
    { status := some .failed, errorMessage := some (js "Failed to start processing") }

/-- `createBatch`: the batch, its job and the state of it. -/
def createBatch (userId : Option JsString) (file : UploadedFile) (new : NewBatch) : Upload where
  fileName := file.originalname
  createdAt := new.createdAt
  job := {
    batchId := new.id
    userId := orNull userId
    engine := srv.engine
    parsed := file.parsed
    usd := file.usd
    accepts := srv.accepts
    duplicateKey := srv.duplicateKey
    refused := srv.refused }
  queued := new.queued
  proc :=
    if new.queued then start
    else { start with world := { start.world with batch := failedToStart } }
  stamps := new.stamps

/-- Whether the foreign key of a batch holds. -/
def userExists (users : List JsString) (userId : Option JsString) : Bool :=
  match orNull userId with
  | none => true
  | some id => (srv.db.castUUID id).any (· ∈ users)

/-- The user that is let in with a request. -/
def requestUser (req : Request) : Option JsString :=
  ((canActivate srv req).bind orNull).bind srv.db.castUUID

/-- The user that a request, or a step of the processor, is for. -/
def owner : Label → Option JsString
  | .signup _ id => some id
  | .login _ userId => userId.bind srv.db.castUUID
  | .uploadFile req _ _ | .getBatches req _ | .findAll req _ _ => requestUser srv req
  | .process data _ => storedUser srv data.userId

variable {srv} [LinearOrder τ]

/-- What a label does to the tables, and the response if it is a request. -/
def handle (T : Tables srv) : Label → Option (Tables srv × Option Response)
  | .signup now id =>
    if id ∈ T.users then none
    else some ({ T with users := id :: T.users }, some (.token (srv.sign now id) id))
  | .login now userId =>
    match userId with
    | none => some (T, some .badRequest)
    | some userId =>
      match (srv.db.castUUID userId).filter (· ∈ T.users) with
      | none => some (T, some .unauthorized)
      | some id => some (T, some (.token (srv.sign now id) id))
  | .uploadFile req file new =>
    match canActivate srv req with
    | none => some (T, some .unauthorized)
    | some userId =>
      match file with
      | none => some (T, some .badRequest)
      | some file =>
        if fileFilter file = false then some (T, some .badRequest)
        else if MAX_FILE_SIZE < file.size then some (T, some .payloadTooLarge)
        else if srv.takesFileName file.originalname && userExists srv T.users userId then
          -- The response has the batch as it was saved, whatever the queue says.
          (T.put (createBatch srv userId file new :: T.uploads)).map fun T' =>
            (T', some (.batch ⟨new.id, file.originalname, new.createdAt, start.world.batch⟩))
        else some (T, some .internalServerError)
  | .getBatches req sorter =>
    match (canActivate srv req).bind orNull with
    | none => some (T, some .unauthorized)
    | some userId =>
      match srv.db.castUUID userId with
      | none => some (T, some .internalServerError)
      | some user =>
        some (T, some (.batches (sorter.sort (descending (byKey Batch.createdAt))
          ((T.uploads.filter fun up => up.user srv = some user).map Upload.batch))))
  | .findAll req query sorter =>
    match canActivate srv req with
    | none => some (T, some .unauthorized)
    | some userId =>
      -- `GetProductsDto` has no property `token`, and the pipe takes no others.
      match query.filter fun _ => req.token = none with
      | none => some (T, some .badRequest)
      | some q =>
        let q := match orNull userId with
          | none => q
          | some id => { q with userId := some id }
        match findAll srv.db srv.engine T.rates sorter T.products q with
        | none => some (T, some .internalServerError)
        | some page => some (T, some (.products page))
  | .process data event => do
    let up ← T.uploads.find? fun up => up.queued && up.id = data.batchId &&
      up.job.userId = data.userId
    let proc ← NodePipeline.step up.job up.proc event
    let T' ← T.put (T.uploads.map fun up => if up.id = data.batchId then { up with proc } else up)
    return (T', none)

variable (srv)

structure State where
  tables : Tables srv
  /-- The requests with their responses, the last of them first. -/
  answers : List (Label × Response)

def initial : State srv := ⟨⟨[], [], List.nodup_nil, List.nodup_nil, Nat.two_pow_pos 63⟩, []⟩

variable {srv}

def step (s : State srv) (a : Label) : Option (State srv) :=
  (handle s.tables a).map fun (T, response) =>
    ⟨T, (response.map fun r => (a, r)).toList ++ s.answers⟩

end

/-! ### What a job saves -/

section
variable {job : Job}

theorem fit_of_mem_jobRows {row : ProcessedRow} (h : row ∈ job.validRows) :
    Fit job.batchId (orNull job.userId) row := by
  unfold Job.validRows at h
  split at h
  · exact fit_of_mem_validateRows h
  · cases h

/-- The rows of one slice belong to the job. -/
theorem fit_of_saveProducts {pc : Pc} {batch : List ProcessedRow}
    (hc : pc.call job = some (.saveProducts batch)) {row : ProcessedRow} (h : row ∈ batch) :
    Fit job.batchId (orNull job.userId) row := by
  cases pc with
  | saving i =>
    obtain rfl := Call.saveProducts.inj (Option.some.inj hc)
    exact fit_of_mem_jobRows (List.mem_of_mem_drop (List.mem_of_mem_take h))
  | _ => simp [Pc.call] at hc

/-- Every saved row belongs to the job. -/
def Fits (job : Job) (w : World) : Prop :=
  ∀ row ∈ w.products, Fit job.batchId (orNull job.userId) row

theorem Fits.run {w w' : World} {n : ℕ} {pc : Pc} {c : Call} (hw : Fits job w)
    (hc : pc.call job = some c) (h : w.run job n c = .ok w') : Fits job w' := by
  rcases run_cases h with ⟨-, -, hproducts | ⟨batch, rfl⟩⟩ | ⟨-, hproducts, -⟩
  · intro row hrow
    exact hw row (hproducts ▸ hrow)
  · dsimp only [World.run] at h
    split at h <;> cases h
    intro row hrow
    rcases List.mem_append.mp hrow with hrow | hrow
    · exact hw row hrow
    · exact fit_of_saveProducts hc hrow
  · intro row hrow
    exact hw row (hproducts ▸ hrow)

/-- **The saved rows belong to the job**, step by step. -/
theorem fits_step {p p' : NodePipeline.State} {a : NodePipeline.Label} (hI : Fits job p.world)
    (h : NodePipeline.step job p a = some p') : Fits job p'.world := by
  rcases step_cases h with ⟨c, hc, hrun, -⟩ | ⟨c, hc, -, hw | hrun⟩ | ⟨hw, -⟩
  · exact hI.run hc hrun
  · rwa [hw]
  · exact hI.run hc hrun
  · rwa [hw]

end

/-! ### What a user is shown -/

section
variable {τ : Type} {srv : Server τ} {u : JsString}

theorem orNull_orNull (userId : Option JsString) : orNull (orNull userId) = orNull userId := by
  match userId with
  | none => rfl
  | some [] => rfl
  | some (_ :: _) => rfl

theorem storedUser_orNull (userId : Option JsString) :
    storedUser srv (orNull userId) = storedUser srv userId := by
  rw [storedUser, orNull_orNull, storedUser]

theorem mem_products {up : Upload} (h : Fits up.job up.proc.world) {p : Product}
    (hp : p ∈ up.products srv) : p.userId = up.user srv ∧ p.uploadBatchId = up.id := by
  obtain ⟨⟨row, k⟩, hrow, rfl⟩ := List.mem_map.mp hp
  have hfit := h row (List.fst_mem_of_mem_zipIdx hrow)
  constructor
  · change storedUser srv row.userId = _
    rw [hfit.user, storedUser_orNull, Upload.user]
  · exact hfit.batch

/-- The products of a user are those of its batches. -/
theorem products_filter {uploads : List Upload}
    (h : ∀ up ∈ uploads, Fits up.job up.proc.world) :
    (uploads.filter fun up => up.user srv = some u).flatMap (Upload.products srv) =
      (uploads.flatMap (Upload.products srv)).filter fun p => p.userId = some u := by
  induction uploads with
  | nil => rfl
  | cons up uploads ih =>
    obtain ⟨hup, hrest⟩ := List.forall_mem_cons.mp h
    have huser : ∀ p ∈ up.products srv, p.userId = up.user srv :=
      fun p hp => (mem_products hup hp).1
    rw [List.flatMap_cons, List.filter_append, ← ih hrest]
    by_cases hu : up.user srv = some u
    · have hself : (up.products srv).filter (fun p => p.userId = some u) = up.products srv :=
        List.filter_eq_self.mpr fun p hp => by simp [huser p hp, hu]
      rw [List.filter_cons_of_pos (by simp [hu]), List.flatMap_cons, hself]
    · have hnil : (up.products srv).filter (fun p => p.userId = some u) = [] :=
        List.filter_eq_nil_iff.mpr fun p hp => by simp [huser p hp, hu]
      rw [List.filter_cons_of_neg (by simp [hu]), hnil, List.nil_append]

/-- Tables in which a user sees the same: its own account and its own batches. -/
structure Sees (u : JsString) (T T' : Tables srv) : Prop where
  fits : ∀ up ∈ T.uploads, Fits up.job up.proc.world
  users : u ∈ T.users ↔ u ∈ T'.users
  uploads : T'.uploads = T.uploads.filter fun up => up.user srv = some u

theorem Tables.put_eq_some {T T' : Tables srv} {uploads : List Upload}
    (h : T.put uploads = some T') : T'.users = T.users ∧ T'.uploads = uploads := by
  unfold Tables.put at h
  split at h
  · obtain rfl := Option.some.inj h
    exact ⟨rfl, rfl⟩
  · cases h

/-- Fewer batches do not violate a primary key either. -/
theorem Tables.exists_put_filter {T T₁ : Tables srv} {uploads : List Upload}
    (h : T.put uploads = some T₁) (T' : Tables srv) (p : Upload → Bool) :
    ∃ T₂, T'.put (uploads.filter p) = some T₂ := by
  unfold Tables.put at h
  split at h
  · next hkeys =>
    obtain ⟨hid, hnodup, hlt⟩ := hkeys
    have hsub : (uploads.filter p).Sublist uploads := List.filter_sublist
    have hrows := hsub.flatMap (Upload.products srv)
    refine ⟨_, dif_pos ⟨hid.sublist (hsub.map _), hnodup.sublist (hrows.map _), ?_⟩⟩
    exact Nat.lt_of_le_of_lt hrows.length_le hlt
  · cases h

/-- An id leads to its batch. -/
theorem Tables.find?_id (T : Tables srv) {up : Upload} (h : up ∈ T.uploads) :
    (T.uploads.find? fun x => x.id = up.id) = some up := by
  have hsome : (T.uploads.find? fun x => x.id = up.id).isSome :=
    List.find?_isSome.mpr ⟨up, h, by simp⟩
  obtain ⟨x, hx⟩ := Option.isSome_iff_exists.mp hsome
  have hid : x.id = up.id := by simpa using List.find?_some hx
  rw [hx, List.inj_on_of_nodup_map T.nodup_id (List.mem_of_find?_eq_some hx) h hid]

end

section
variable {τ : Type} [LinearOrder τ] {srv : Server τ} {u : JsString} {T T' T₁ : Tables srv}
  {a : Label} {r : Option Response}

omit [LinearOrder τ] in
theorem Sees.mem_iff (hS : Sees u T T') {up : Upload} :
    up ∈ T'.uploads ↔ up ∈ T.uploads ∧ up.user srv = some u := by
  rw [hS.uploads, List.mem_filter, decide_eq_true_eq]

omit [LinearOrder τ] in
theorem Sees.rows (hS : Sees u T T') :
    T'.products.rows = T.products.rows.filter fun p => p.userId = some u := by
  change T'.uploads.flatMap _ = _
  rw [hS.uploads, products_filter hS.fits]
  rfl

omit [LinearOrder τ] in
/-- The rows that match a query of the user are among its own. -/
theorem Sees.filtered (hS : Sees u T T') {q : GetProductsDto}
    (hq : optional srv.db.castUUID q.userId = some (some u)) :
    filtered srv.db T.products q = filtered srv.db T'.products q := by
  have hlast : ∀ p : Product, holds (fun user => decide (p.userId = some user)) (some u) =
      decide (p.userId = some u) := fun _ => rfl
  simp only [NodePipeline.filtered, hq, hS.rows, List.filter_filter, Option.bind_eq_bind,
    Option.bind_some, hlast, Bool.and_assoc, Bool.and_self]

omit [LinearOrder τ] in
/-- So are their rates. -/
theorem Sees.rates (hS : Sees u T T') {p : Product} (hp : p ∈ T.products.rows)
    (hu : p.userId = some u) :
    T.rates.ofBatch p.uploadBatchId = T'.rates.ofBatch p.uploadBatchId := by
  obtain ⟨up, hup, hmem⟩ := List.mem_flatMap.mp hp
  obtain ⟨huser, hid⟩ := mem_products (hS.fits up hup) hmem
  have hup' : up ∈ T'.uploads := hS.mem_iff.mpr ⟨hup, huser ▸ hu⟩
  simp only [Tables.rates]
  rw [hid, T.find?_id hup, T'.find?_id hup']

/-- **A user's page is the same.** -/
theorem Sees.findAll (hS : Sees u T T') {q : GetProductsDto}
    (hq : optional srv.db.castUUID q.userId = some (some u)) (sorter : Sorter Product) :
    findAll srv.db srv.engine T.rates sorter T.products q =
      findAll srv.db srv.engine T'.rates sorter T'.products q := by
  unfold NodePipeline.findAll
  rw [← hS.filtered hq]
  cases hrows : NodePipeline.filtered srv.db T.products q with
  | none => rfl
  | some rows =>
    have huser : ∀ p ∈ rows, p ∈ T.products.rows ∧ p.userId = some u := by
      intro p hp
      have hmem := (sublist_of_filtered (hS.filtered hq ▸ hrows)).subset hp
      simpa [hS.rows] using hmem
    have hdata :
        ∀ p ∈ window q.limit ((q.page - 1) * q.limit) (sorter.sort (orderBy srv.db q) rows),
        productWithRates srv.engine T.rates p = productWithRates srv.engine T'.rates p := by
      intro p hp
      have hmem := (sorter.perm _ rows).mem_iff.mp (List.mem_of_mem_drop (List.mem_of_mem_take hp))
      simp only [productWithRates, hS.rates (huser p hmem).1 (huser p hmem).2]
      rfl
    simp only [Option.bind_eq_bind, Option.bind_some, List.map_congr_left hdata]

/-! ### A step of the user -/

omit [LinearOrder τ] in
theorem requestUser_eq_some {req : Request} (h : requestUser srv req = some u) :
    ∃ userId id, canActivate srv req = some userId ∧ orNull userId = some id ∧
      srv.db.castUUID id = some u := by
  obtain ⟨id, hid, hu⟩ := Option.bind_eq_some_iff.mp h
  obtain ⟨userId, huserId, hid⟩ := Option.bind_eq_some_iff.mp hid
  exact ⟨userId, id, huserId, hid, hu⟩

omit [LinearOrder τ] in
theorem ne_nil_of_orNull {userId : Option JsString} {id : JsString} (h : orNull userId = some id) :
    id ≠ [] := by
  rintro rfl
  match userId with
  | none => cases h
  | some [] => cases h
  | some (_ :: _) => cases h

omit [LinearOrder τ] in
/-- A batch that is added is one of the user. -/
theorem Sees.createBatch (hS : Sees u T T') {userId : Option JsString} {file : UploadedFile}
    {new : NewBatch} (h : T.put (createBatch srv userId file new :: T.uploads) = some T₁)
    (hu : storedUser srv userId = some u) :
    ∃ T₂, T'.put (Tenancy.createBatch srv userId file new :: T'.uploads) = some T₂ ∧
      Sees u T₁ T₂ := by
  obtain ⟨husers, huploads⟩ := Tables.put_eq_some h
  have hown : (Tenancy.createBatch srv userId file new).user srv = some u := by
    rw [Upload.user, Tenancy.createBatch, storedUser_orNull, hu]
  have hfilter : (Tenancy.createBatch srv userId file new :: T.uploads).filter
      (fun up => up.user srv = some u) = Tenancy.createBatch srv userId file new :: T'.uploads := by
    rw [List.filter_cons_of_pos (by simp [hown]), hS.uploads]
  obtain ⟨T₂, hput⟩ := Tables.exists_put_filter h T' fun up => up.user srv = some u
  rw [hfilter] at hput
  obtain ⟨husers', huploads'⟩ := Tables.put_eq_some hput
  refine ⟨T₂, hput, ⟨?_, ?_, ?_⟩⟩
  · rw [huploads]
    refine List.forall_mem_cons.mpr ⟨fun row hrow => ?_, hS.fits⟩
    dsimp only [Tenancy.createBatch] at hrow
    split at hrow <;> cases hrow
  · rw [husers, husers', hS.users]
  · rw [huploads, huploads', hfilter]

omit [LinearOrder τ] in
/-- What a step of the processor comes to. -/
theorem process_eq_some {data : JobData} {event : NodePipeline.Label} [LinearOrder τ]
    (h : handle T (.process data event) = some (T₁, r)) :
    r = none ∧ ∃ up proc, up ∈ T.uploads ∧ up.id = data.batchId ∧ up.job.userId = data.userId ∧
      (T.uploads.find? fun up => up.queued && up.id = data.batchId &&
        up.job.userId = data.userId) = some up ∧
      NodePipeline.step up.job up.proc event = some proc ∧
      T.put (T.uploads.map fun up => if up.id = data.batchId then { up with proc } else up) =
        some T₁ := by
  simp only [handle, Option.bind_eq_bind, Option.bind_eq_some_iff] at h
  obtain ⟨up, hfind, proc, hproc, T₂, hput, heq⟩ := h
  cases heq
  have hmatch := List.find?_some hfind
  simp only [Bool.and_eq_true, decide_eq_true_eq] at hmatch
  exact ⟨rfl, up, proc, List.mem_of_find?_eq_some hfind, hmatch.1.2, hmatch.2, hfind, hproc, hput⟩

omit [LinearOrder τ] in
/-- The jobs of the batches remain what they are. -/
theorem Sees.fits_map (hS : Sees u T T') {up : Upload} {proc : NodePipeline.State}
    {event : NodePipeline.Label} (hup : up ∈ T.uploads)
    (h : NodePipeline.step up.job up.proc event = some proc) :
    ∀ x ∈ T.uploads.map fun x => if x.id = up.id then { x with proc } else x,
      Fits x.job x.proc.world := by
  intro x hx
  obtain ⟨y, hy, rfl⟩ := List.mem_map.mp hx
  split
  · next hid =>
    obtain rfl := List.inj_on_of_nodup_map T.nodup_id hy hup hid
    exact fits_step (hS.fits y hy) h
  · exact hS.fits y hy

omit [LinearOrder τ] in
/-- Those of a user are among its own. -/
theorem filter_map_proc (uploads : List Upload) (id : JsString) (proc : NodePipeline.State) :
    (uploads.map fun x => if x.id = id then { x with proc } else x).filter
        (fun x => x.user srv = some u) =
      (uploads.filter fun x => x.user srv = some u).map
        fun x => if x.id = id then { x with proc } else x := by
  rw [List.filter_map]
  congr 2
  funext x
  simp only [Function.comp_apply]
  split <;> rfl

/-- **A step of the user can be taken alone**, with the same response. -/
theorem handle_own (hS : Sees u T T') (hu : owner srv a = some u)
    (h : handle T a = some (T₁, r)) : ∃ T₂, handle T' a = some (T₂, r) ∧ Sees u T₁ T₂ := by
  cases a with
  | signup now id =>
    obtain rfl : id = u := Option.some.inj hu
    by_cases hmem : id ∈ T.users
    · simp [handle, hmem] at h
    · have hmem' : id ∉ T'.users := fun hm => hmem (hS.users.mpr hm)
      simp only [handle, hmem, if_false, Option.some.injEq, Prod.mk.injEq] at h
      obtain ⟨rfl, rfl⟩ := h
      refine ⟨{ T' with users := id :: T'.users }, ?_, hS.fits, ?_, hS.uploads⟩
      · simp only [handle, hmem', if_false]
      · exact iff_of_true List.mem_cons_self List.mem_cons_self
  | login now userId =>
    cases userId with
    | none => cases hu
    | some userId =>
      have hcast : srv.db.castUUID userId = some u := hu
      -- The user is among the rows of both sides or of neither.
      have hfilter : (srv.db.castUUID userId).filter (fun id => id ∈ T.users) =
          (srv.db.castUUID userId).filter fun id => id ∈ T'.users := by
        rw [hcast]
        simp only [Option.filter, hS.users]
      simp only [handle, hfilter] at h ⊢
      cases hfound : (srv.db.castUUID userId).filter fun id => id ∈ T'.users with
      | none =>
        rw [hfound] at h
        cases h
        exact ⟨T', rfl, hS⟩
      | some id =>
        rw [hfound] at h
        cases h
        exact ⟨T', rfl, hS⟩
  | uploadFile req file new =>
    obtain ⟨userId, id, hreq, hid, hcast⟩ := requestUser_eq_some hu
    have hexists : userExists srv T.users userId = userExists srv T'.users userId := by
      simp only [userExists, hid, hcast, Option.any_some, hS.users]
    have hstored : storedUser srv userId = some u := by
      rw [storedUser, hid, Option.bind_some, hcast]
    simp only [handle, hreq, hexists] at h ⊢
    cases file with
    | none =>
      cases h
      exact ⟨T', rfl, hS⟩
    | some file =>
      dsimp only at h ⊢
      split_ifs at h ⊢ with hfilter hsize hsave
      · cases h
        exact ⟨T', rfl, hS⟩
      · cases h
        exact ⟨T', rfl, hS⟩
      · obtain ⟨T₂, hput, heq⟩ := Option.map_eq_some_iff.mp h
        cases heq
        obtain ⟨T₃, hput', hS'⟩ := hS.createBatch hput hstored
        exact ⟨T₃, by rw [hput', Option.map_some], hS'⟩
      · cases h
        exact ⟨T', rfl, hS⟩
  | getBatches req sorter =>
    obtain ⟨userId, id, hreq, hid, hcast⟩ := requestUser_eq_some hu
    simp only [handle, hreq, Option.bind_some, hid, hcast, Option.some.injEq, Prod.mk.injEq] at h
    obtain ⟨rfl, rfl⟩ := h
    refine ⟨T', ?_, hS⟩
    simp only [handle, hreq, Option.bind_some, hid, hcast, hS.uploads, List.filter_filter,
      Bool.and_self]
  | findAll req query sorter =>
    obtain ⟨userId, id, hreq, hid, hcast⟩ := requestUser_eq_some hu
    simp only [handle, hreq, hid] at h ⊢
    cases hquery : query.filter fun _ => req.token = none with
    | none =>
      rw [hquery] at h
      cases h
      exact ⟨T', rfl, hS⟩
    | some q =>
      have hq : optional srv.db.castUUID ({ q with userId := some id } : GetProductsDto).userId =
          some (some u) := by
        simp only [optional, ne_nil_of_orNull hid, if_false, hcast, Option.map_some]
      rw [hquery] at h
      dsimp only at h ⊢
      rw [hS.findAll hq] at h
      cases hpage : NodePipeline.findAll srv.db srv.engine T'.rates sorter T'.products
          { q with userId := some id } with
      | none =>
        rw [hpage] at h
        cases h
        exact ⟨T', rfl, hS⟩
      | some page =>
        rw [hpage] at h
        cases h
        exact ⟨T', rfl, hS⟩
  | process data event =>
    obtain ⟨rfl, up, proc, hup, hid, huser, hfind, hproc, hput⟩ := process_eq_some h
    have hown : ∀ x : Upload, x.job.userId = data.userId → x.user srv = some u := by
      intro x hx
      rw [Upload.user, hx]
      exact hu
    have hfind' : (T'.uploads.find? fun up => up.queued && up.id = data.batchId &&
        up.job.userId = data.userId) = some up := by
      rw [hS.uploads, List.find?_filter, ← hfind]
      congr 1
      funext x
      by_cases hx : x.job.userId = data.userId <;> simp [hx, hown x]
    obtain ⟨T₂, hput'⟩ := Tables.exists_put_filter hput T' fun up => up.user srv = some u
    rw [filter_map_proc, ← hS.uploads] at hput'
    obtain ⟨husers, huploads⟩ := Tables.put_eq_some hput
    obtain ⟨husers', huploads'⟩ := Tables.put_eq_some hput'
    refine ⟨T₂, ?_, ?_, ?_, ?_⟩
    · simp only [handle, hfind', hproc, hput', Option.bind_eq_bind, Option.bind_some]
      rfl
    · rw [huploads, ← hid]
      exact hS.fits_map hup hproc
    · rw [husers, husers', hS.users]
    · rw [huploads, huploads', filter_map_proc, hS.uploads]

/-! ### A step of the others -/

/-- The requests that only read. -/
def Label.reads : Label → Bool
  | .login _ _ | .getBatches _ _ | .findAll _ _ _ => true
  | .signup _ _ | .uploadFile _ _ _ | .process _ _ => false

theorem tables_of_reads (ha : a.reads = true) (h : handle T a = some (T₁, r)) : T₁ = T := by
  cases a with
  | signup | uploadFile | process => cases ha
  | login now userId =>
    simp only [handle] at h
    split at h
    · cases h
      rfl
    · split at h <;> cases h <;> rfl
  | getBatches req sorter =>
    simp only [handle] at h
    split at h
    · cases h
      rfl
    · split at h <;> cases h <;> rfl
  | findAll req query sorter =>
    simp only [handle] at h
    split at h
    · cases h
      rfl
    · split at h
      · cases h
        rfl
      · split at h <;> cases h <;> rfl

omit [LinearOrder τ] in
/-- A batch that is added for another user, or for none. -/
theorem Sees.createBatch_other (hS : Sees u T T') {userId : Option JsString} {file : UploadedFile}
    {new : NewBatch} (h : T.put (Tenancy.createBatch srv userId file new :: T.uploads) = some T₁)
    (hu : storedUser srv userId ≠ some u) : Sees u T₁ T' := by
  obtain ⟨husers, huploads⟩ := Tables.put_eq_some h
  have hother : (Tenancy.createBatch srv userId file new).user srv ≠ some u := by
    rwa [Upload.user, Tenancy.createBatch, storedUser_orNull]
  refine ⟨?_, husers ▸ hS.users, ?_⟩
  · rw [huploads]
    refine List.forall_mem_cons.mpr ⟨fun row hrow => ?_, hS.fits⟩
    dsimp only [Tenancy.createBatch] at hrow
    split at hrow <;> cases hrow
  · rw [huploads, List.filter_cons_of_neg (by simp [hother]), hS.uploads]

/-- **A step of the others changes nothing that the user sees.** -/
theorem handle_other (hS : Sees u T T') (hu : owner srv a ≠ some u)
    (h : handle T a = some (T₁, r)) : Sees u T₁ T' := by
  cases a with
  | signup now id =>
    have hne : u ≠ id := fun heq => hu (congrArg some heq.symm)
    by_cases hmem : id ∈ T.users
    · simp [handle, hmem] at h
    · simp only [handle, hmem, if_false, Option.some.injEq, Prod.mk.injEq] at h
      obtain ⟨rfl, rfl⟩ := h
      refine ⟨hS.fits, ?_, hS.uploads⟩
      rw [← hS.users]
      exact ⟨fun hm => (List.mem_cons.mp hm).resolve_left hne, List.mem_cons_of_mem id⟩
  | login | getBatches | findAll => exact tables_of_reads rfl h ▸ hS
  | uploadFile req file new =>
    simp only [handle] at h
    split at h
    · cases h
      exact hS
    · next userId hreq =>
      have hstored : storedUser srv userId ≠ some u := by
        intro heq
        refine hu ?_
        rw [owner, requestUser, hreq, Option.bind_some]
        exact heq
      split at h
      · cases h
        exact hS
      · split_ifs at h
        · cases h
          exact hS
        · cases h
          exact hS
        · obtain ⟨T₂, hput, heq⟩ := Option.map_eq_some_iff.mp h
          cases heq
          exact hS.createBatch_other hput hstored
        · cases h
          exact hS
  | process data event =>
    obtain ⟨rfl, up, proc, hup, hid, huser, hfind, hproc, hput⟩ := process_eq_some h
    obtain ⟨husers, huploads⟩ := Tables.put_eq_some hput
    have hother : up.user srv ≠ some u := by
      rw [Upload.user, huser]
      exact hu
    refine ⟨?_, husers ▸ hS.users, ?_⟩
    · rw [huploads, ← hid]
      exact hS.fits_map hup hproc
    · rw [huploads, filter_map_proc, hS.uploads]
      -- The batch of the job is not among those of the user.
      refine ((List.map_congr_left fun x hx => ?_).trans (List.map_id _)).symm
      obtain ⟨hmem, hx⟩ := List.mem_filter.mp hx
      refine if_neg fun heq => ?_
      obtain rfl := List.inj_on_of_nodup_map T.nodup_id hmem hup (heq.trans hid.symm)
      exact hother (of_decide_eq_true hx)

/-! ### Runs -/

/-- What a user sees of two states, and how it was answered on the way. -/
structure Alone (u : JsString) (s t : State srv) : Prop where
  sees : Sees u s.tables t.tables
  answers : t.answers = s.answers.filter fun answer => owner srv answer.1 = some u

theorem answers_step {s s' : State srv} (h : step s a = some s') :
    ∃ r, handle s.tables a = some (s'.tables, r) ∧
      s'.answers = (r.map fun r => (a, r)).toList ++ s.answers := by
  obtain ⟨⟨T, r⟩, hT, rfl⟩ := Option.map_eq_some_iff.mp h
  exact ⟨r, hT, rfl⟩

omit [LinearOrder τ] in
theorem filter_answer (a : Label) (r : Option Response) :
    (r.map fun r => (a, r)).toList.filter (fun answer => owner srv answer.1 = some u) =
      if owner srv a = some u then (r.map fun r => (a, r)).toList else [] := by
  cases r with
  | none => simp
  | some r => by_cases ha : owner srv a = some u <;> simp [ha]

theorem alone_own {s t s' : State srv} (hA : Alone u s t) (hu : owner srv a = some u)
    (h : step s a = some s') : ∃ t', step t a = some t' ∧ Alone u s' t' := by
  obtain ⟨r, hs, hanswers⟩ := answers_step h
  obtain ⟨T, hT, hS⟩ := handle_own hA.sees hu hs
  refine ⟨⟨T, (r.map fun r => (a, r)).toList ++ t.answers⟩, ?_, hS, ?_⟩
  · rw [step, hT, Option.map_some]
  · rw [hanswers, List.filter_append, filter_answer, if_pos hu, hA.answers]

theorem alone_other {s t s' : State srv} (hA : Alone u s t) (hu : owner srv a ≠ some u)
    (h : step s a = some s') : Alone u s' t := by
  obtain ⟨r, hs, hanswers⟩ := answers_step h
  refine ⟨handle_other hA.sees hu hs, ?_⟩
  rw [hanswers, List.filter_append, filter_answer, if_neg hu, List.nil_append, hA.answers]

end

/-! ### Two users -/

/-- A server whose tokens are the ids of the users. -/
def plainServer : Server (List ℕ) where
  db := plainDatabase
  engine := exactEngine
  verify _ token := some (some token)
  sign _ id := id
  takesFileName name := name.length ≤ 255
  accepts _ := true
  storedPrice
    | .finite q => q
    | _ => 0
  storedRate := id
  convert price _ := price
  duplicateKey := []
  refused := []

def bearer (user : String) : Request := ⟨0, some (js "Bearer " ++ js user), none⟩

/-- The upload of a file of one row. -/
def upload (user id name : String) : Label :=
  .uploadFile (bearer user)
    (some ⟨js "p.CSV", [], 40, .ok [⟨some (js name), some (js "5"), some (js "1/15/2025")⟩],
      fun _ => none⟩)
    ⟨js id, 0, fun k => (js id ++ [UInt16.ofNat k], 0), true⟩

/-- The processor at work on it. -/
def work (user id : String) (calls : ℕ) : List Label :=
  List.replicate calls (.process ⟨js id, some (js user)⟩ (.reply .ok))

/-- Two users whose files are processed in turns. -/
def twoUsers : List Label :=
  [.signup 0 (js "a"), .signup 0 (js "b"), upload "b" "1" "Lamp", upload "a" "2" "Desk"] ++
    work "b" "1" 5 ++ work "a" "2" 9 ++ work "b" "1" 4 ++
    [.findAll (bearer "a") (some defaultQuery) (insertionSorter Product),
      .getBatches (bearer "b") (insertionSorter Batch)]

end Tenancy

end CsvProductUploader.NodePipeline
