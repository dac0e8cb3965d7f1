import CsvProductUploader.Lib.Requests
import CsvProductUploader.Lib.Runs
import CsvProductUploader.NodePipeline.Products

/-!
# The products that the clients show

`useProductsData` of either client: a request goes out whenever the arguments or the filters
change, when an interval fires or a handler is called; no request is cancelled, and every answer
that arrives replaces what is shown.

## Main definitions

* `ProductsData`, `productsStep` — the hook of the Go pipeline's client.
* `NodeProducts`, `nodeStep` — the hook of the NestJS pipeline's client.
* `ProductsData.Shown`, `NodeProducts.Shown` — once every answer has arrived, what is shown is the
  answer to the most recent request.
* `ProductsInTime`, `NodeInTime` — no step of the kind that may put something else there.

## Main results

* `shown_of_inTime`, `nodeShown_of_inTime` — runs of such steps show the most recent request.
-/

namespace CsvProductUploader.Client

open NodePipeline (JsString js Number SortBy SortOrder)
open Runs

structure PaginationInfo where
  page : ℕ
  limit : ℕ
  total : ℕ
  totalPages : ℕ
  deriving DecidableEq, Repr

/-- What a response carries and a hook holds: products and pagination. -/
structure Page (P : Type) where
  products : List P
  pagination : PaginationInfo
  deriving DecidableEq, Repr

/-! ### The client of the Go pipeline -/

inductive ProductSortBy
  | name
  | price
  | expiration
  deriving DecidableEq, Repr

structure ProductFilters where
  filterName : Option JsString
  sortBy : ProductSortBy
  sortOrder : SortOrder
  limit : ℕ
  deriving DecidableEq

/-- The arguments of the hook, on which `fetchPage` depends. -/
structure Args where
  jobId : Option JsString
  filters : ProductFilters
  page : ℕ
  deriving DecidableEq

/-- The import that products are asked of: neither `null` nor the empty text. -/
def Args.job (q : Args) : Option JsString := q.jobId.filter (· ≠ [])

def emptyPage {P : Type} : Page P := ⟨[], ⟨1, 20, 0, 1⟩⟩

/-- The state of `useProductsData`. -/
structure ProductsData (P : Type) where
  /-- The arguments of the last render, and those with which the effects last ran. -/
  args : Args
  ran : Option Args
  /-- The `fetchPage` that the interval calls. -/
  interval : Option Args
  shown : Page P
  loading : Bool
  /-- The requests and their answers, `none` being an error. -/
  requests : Requests Args (Option (Page P))

inductive ProductsLabel (P : Type)
  | render (args : Args)
  | effects
  | tick
  | answer (i : ℕ) (res : Option (Page P))

section
variable {P : Type}

/-- `fetchPage`.  Without an import there is nothing to ask: this counts as a request that is
answered on the spot. -/
def fetchPage (s : ProductsData P) (q : Args) : ProductsData P :=
  match q.job with
  | none =>
    { s with
      shown := emptyPage
      requests := (s.requests.ask q).arrive _ none (Requests.open_ask s.requests q) }
  | some _ => { s with loading := true, requests := s.requests.ask q }

/-- The effects run: a new `fetchPage` is called, and the interval is set for as long as there are
no products of the import. -/
def runEffects (s : ProductsData P) : ProductsData P :=
  let interval := if s.args.job = none ∨ 0 < s.shown.pagination.total then none else some s.args
  let s' := { s with ran := some s.args, interval }
  if s.ran = some s.args then s' else fetchPage s' s.args

def productsStep (s : ProductsData P) : ProductsLabel P → Option (ProductsData P)
  | .render args => some { s with args }
  | .effects => some (runEffects s)
  | .tick => s.interval.map (fetchPage s)
  | .answer i res =>
    if h : s.requests.Open i then
      some { s with
        shown := res.getD emptyPage
        loading := false
        requests := s.requests.arrive i res h }
    else none

/-- The first render. -/
def mountProducts (args : Args) : ProductsData P where
  args := args
  ran := none
  interval := none
  shown := emptyPage
  loading := false
  requests := Requests.empty

/-- What an answer shows: its page, or nothing if it is an error. -/
def Shows (res : Option (Page P)) (shown : Page P) : Prop := shown = res.getD emptyPage

/-- **Once all answers have arrived, the products and the pagination are those of the most recent
request.** -/
def ProductsData.Shown (s : ProductsData P) : Prop :=
  s.requests.AllArrived → s.requests.asked ≠ [] →
    ∃ res, s.requests.latest = some res ∧ Shows res s.shown

/-- No answer to an older request arrives after the one to the most recent. -/
def ProductsInTime (s : ProductsData P) : ProductsLabel P → Prop
  | .answer i _ => i = s.requests.last ∨ s.requests.latest = none
  | _ => True

instance (s : ProductsData P) (a : ProductsLabel P) : Decidable (ProductsInTime s a) := by
  unfold ProductsInTime
  split <;> infer_instance

theorem current_fetchPage {s : ProductsData P} (q : Args) :
    Requests.Current Shows (fetchPage s q).requests (fetchPage s q).shown := by
  unfold fetchPage
  split
  · exact (Requests.current_ask s.requests q s.shown).arrive (Requests.open_ask s.requests q)
      (fun _ => rfl) fun hne => absurd rfl hne
  · exact Requests.current_ask s.requests q s.shown

theorem current_step {s s' : ProductsData P} {a : ProductsLabel P}
    (hI : Requests.Current Shows s.requests s.shown) (hC : ProductsInTime s a)
    (h : productsStep s a = some s') : Requests.Current Shows s'.requests s'.shown := by
  cases a with
  | render args =>
    obtain rfl := Option.some.inj h
    exact hI
  | effects =>
    obtain rfl := Option.some.inj h
    unfold runEffects
    dsimp only
    split
    · exact hI
    · exact current_fetchPage s.args
  | tick =>
    obtain ⟨q, -, rfl⟩ := Option.map_eq_some_iff.mp h
    exact current_fetchPage q
  | answer i res =>
    rw [productsStep] at h
    split at h
    · next hopen =>
      obtain rfl := Option.some.inj h
      -- An answer shows what was asked last, unless it was overtaken; the hook does not tell the
      -- two apart.
      exact hI.arrive hopen (fun _ => rfl) fun hne => .inl (hC.resolve_left hne)
    · cases h

/-- **A run in which no answer is late shows the most recent request.** -/
theorem shown_of_inTime {args : Args} {as : List (ProductsLabel P)} {s : ProductsData P}
    (hC : Meets productsStep ProductsInTime (mountProducts args) as)
    (h : exec productsStep (mountProducts args) as = some s) : s.Shown := by
  have hI : Requests.Current Shows s.requests s.shown :=
    exec_invariant_of_meets (fun _ _ _ hI hC hs => current_step hI hC hs)
      (fun _ ha => by cases ha) hC h
  exact fun hall hasked => hI.of_allArrived hall hasked

end

/-! ### The client of the NestJS pipeline -/

structure NodeFilters where
  page : ℕ
  limit : ℕ
  sortBy : SortBy
  sortOrder : SortOrder
  filterName : Option JsString
  priceMin : Option Number
  priceMax : Option Number
  expirationFrom : Option JsString
  expirationTo : Option JsString
  batchId : Option JsString
  deriving DecidableEq

def defaultFilters : NodeFilters where
  page := 1
  limit := 50
  sortBy := .name
  sortOrder := .asc
  filterName := none
  priceMin := none
  priceMax := none
  expirationFrom := none
  expirationTo := none
  batchId := none

/-- `Partial<ProductFilters>`: the fields that are there, of which an optional one may be
`undefined`. -/
structure FilterUpdates where
  page : Option ℕ
  limit : Option ℕ
  sortBy : Option SortBy
  sortOrder : Option SortOrder
  filterName : Option (Option JsString)
  priceMin : Option (Option Number)
  priceMax : Option (Option Number)
  expirationFrom : Option (Option JsString)
  expirationTo : Option (Option JsString)
  batchId : Option (Option JsString)

/-- `{ ...filters, ...updates, page: updates.page ?? 1 }` -/
def NodeFilters.update (f : NodeFilters) (u : FilterUpdates) : NodeFilters where
  page := u.page.getD 1
  limit := u.limit.getD f.limit
  sortBy := u.sortBy.getD f.sortBy
  sortOrder := u.sortOrder.getD f.sortOrder
  filterName := u.filterName.getD f.filterName
  priceMin := u.priceMin.getD f.priceMin
  priceMax := u.priceMax.getD f.priceMax
  expirationFrom := u.expirationFrom.getD f.expirationFrom
  expirationTo := u.expirationTo.getD f.expirationTo
  batchId := u.batchId.getD f.batchId

/-- What the handlers and the effect of one render see. -/
structure NodeView where
  batchId : Option JsString
  isAuthenticated : Bool
  filters : NodeFilters
  deriving DecidableEq

/-- The state of `useProductsData`. -/
structure NodeProducts (P : Type) where
  view : NodeView
  /-- What the effect has last run with. -/
  ran : Option (Option JsString × Bool)
  filters : NodeFilters
  shown : Page P
  loading : Bool
  error : Option JsString
  /-- The requests and their answers, an error being its message. -/
  requests : Requests (NodeFilters × Option JsString) (Except JsString (Page P))

inductive NodeLabel (P : Type)
  /-- A render: the batch, and whether there is a token. -/
  | render (batchId : Option JsString) (token : Bool)
  | effects
  | updateFilters (u : FilterUpdates)
  | changePage (page : ℕ)
  | updateSort (sortBy : SortBy) (sortOrder : SortOrder)
  | refresh
  | answer (i : ℕ) (res : Except JsString (Page P))

section
variable {P : Type}

def clearProducts (s : NodeProducts P) : NodeProducts P :=
  { s with shown := { s.shown with products := [] } }

/-- `load`, of the last render. -/
def load (s : NodeProducts P) (filters : NodeFilters) (batchId : Option JsString) :
    NodeProducts P :=
  if s.view.isAuthenticated then
    { s with loading := true, error := none, requests := s.requests.ask (filters, batchId) }
  else { clearProducts s with loading := false }

/-- A handler that sets the filters and loads with them. -/
def loadWith (s : NodeProducts P) (filters : NodeFilters) : NodeProducts P :=
  if s.view.isAuthenticated then load { s with filters } filters s.view.batchId else s

/-- The effect, which runs when the batch or the authentication has changed. -/
def runEffect (s : NodeProducts P) : NodeProducts P :=
  if s.ran = some (s.view.batchId, s.view.isAuthenticated) then s
  else
    let s' := { s with ran := some (s.view.batchId, s.view.isAuthenticated) }
    if s.view.isAuthenticated then load s' s.view.filters s.view.batchId else clearProducts s'

def nodeStep (s : NodeProducts P) : NodeLabel P → Option (NodeProducts P)
  | .render batchId token =>
    some { s with view := { batchId, isAuthenticated := token, filters := s.filters } }
  | .effects => some (runEffect s)
  | .updateFilters u => some (loadWith s (s.view.filters.update u))
  | .changePage page => some (loadWith s { s.view.filters with page })
  | .updateSort sortBy sortOrder =>
    some (loadWith s { s.view.filters with sortBy, sortOrder, page := 1 })
  | .refresh =>
    some (if s.view.isAuthenticated then load s s.view.filters s.view.batchId else s)
  | .answer i res =>
    if h : s.requests.Open i then
      let s' := { s with loading := false, requests := s.requests.arrive i res h }
      match res with
      | .ok page => some { s' with shown := page }
      | .error message => some { s' with error := some message }
    else none

/-- The first render. -/
def mountNode (batchId : Option JsString) (token : Bool) : NodeProducts P where
  view := { batchId, isAuthenticated := token, filters := defaultFilters }
  ran := none
  filters := defaultFilters
  shown := ⟨[], ⟨1, 50, 0, 0⟩⟩
  loading := false
  error := none
  requests := Requests.empty

/-- **Once all answers have arrived, the products and the pagination are those of the most recent
request.** -/
def NodeProducts.Shown (s : NodeProducts P) : Prop :=
  s.requests.AllArrived → s.requests.asked ≠ [] → s.requests.latest = some (.ok s.shown)

/-- The most recent request is not answered with an error, no other is answered with a page after
it, and the token is not lost once there is a request. -/
def NodeInTime (s : NodeProducts P) : NodeLabel P → Prop
  | .answer i (.ok _) => i = s.requests.last ∨ s.requests.latest = none
  | .answer i (.error _) => i ≠ s.requests.last
  | .effects =>
    s.ran = some (s.view.batchId, s.view.isAuthenticated) ∨ s.view.isAuthenticated = true ∨
      s.requests.asked = []
  | _ => True

instance (s : NodeProducts P) (a : NodeLabel P) : Decidable (NodeInTime s a) := by
  unfold NodeInTime
  split <;> infer_instance

/-- What is held is the page of an answer. -/
def IsPage (res : Except JsString (Page P)) (shown : Page P) : Prop := res = .ok shown

/-- Asked something, or left as it was: the two outcomes of a handler. -/
theorem current_load {s t : NodeProducts P}
    (hI : Requests.Current IsPage s.requests s.shown)
    (h : (∃ q, t.requests = s.requests.ask q) ∨ t.requests = s.requests ∧ t.shown = s.shown) :
    Requests.Current IsPage t.requests t.shown := by
  rcases h with ⟨q, hask⟩ | ⟨hrequests, hshown⟩
  · rw [hask]
    exact Requests.current_ask s.requests q t.shown
  · rw [hrequests, hshown]
    exact hI

theorem loadWith_cases (s : NodeProducts P) (filters : NodeFilters) :
    (∃ q, (loadWith s filters).requests = s.requests.ask q) ∨
      (loadWith s filters).requests = s.requests ∧ (loadWith s filters).shown = s.shown := by
  unfold loadWith
  split
  · next hauth => exact .inl ⟨_, by rw [load, if_pos hauth]⟩
  · exact .inr ⟨rfl, rfl⟩

theorem nodeCurrent_step {s s' : NodeProducts P} {a : NodeLabel P}
    (hI : Requests.Current IsPage s.requests s.shown) (hC : NodeInTime s a)
    (h : nodeStep s a = some s') : Requests.Current IsPage s'.requests s'.shown := by
  cases a with
  | render batchId token =>
    obtain rfl := Option.some.inj h
    exact hI
  | effects =>
    obtain rfl := Option.some.inj h
    unfold runEffect
    split
    · exact hI
    · next hran =>
      dsimp only
      split
      · next hauth => exact current_load hI (.inl ⟨_, by rw [load, if_pos hauth]⟩)
      · next hauth =>
        -- Without a token nothing has been asked.
        intro res hres
        have hnone := Requests.latest_of_asked_nil ((hC.resolve_left hran).resolve_left hauth)
        exact absurd (hres.symm.trans hnone) (Option.some_ne_none res)
  | updateFilters u =>
    obtain rfl := Option.some.inj h
    exact current_load hI (loadWith_cases s _)
  | changePage page =>
    obtain rfl := Option.some.inj h
    exact current_load hI (loadWith_cases s _)
  | updateSort sortBy sortOrder =>
    obtain rfl := Option.some.inj h
    exact current_load hI (loadWith_cases s _)
  | refresh =>
    obtain rfl := Option.some.inj h
    split
    · next hauth => exact current_load hI (.inl ⟨_, by rw [load, if_pos hauth]⟩)
    · exact hI
  | answer i res =>
    rw [nodeStep] at h
    split at h
    · next hopen =>
      cases res with
      | ok page =>
        obtain rfl := Option.some.inj h
        exact hI.arrive hopen (fun _ => rfl) fun hne => .inl (hC.resolve_left hne)
      | error message =>
        obtain rfl := Option.some.inj h
        -- An error leaves the page that is shown.
        exact hI.arrive hopen (fun heq => absurd heq hC) fun _ => .inr rfl
    · cases h

/-- **A run in which no answer is late, fails last or finds no token shows the most recent
request.** -/
theorem nodeShown_of_inTime {batchId : Option JsString} {token : Bool} {as : List (NodeLabel P)}
    {s : NodeProducts P} (hC : Meets nodeStep NodeInTime (mountNode batchId token) as)
    (h : exec nodeStep (mountNode batchId token) as = some s) : s.Shown := by
  have hI : Requests.Current IsPage s.requests s.shown :=
    exec_invariant_of_meets (fun _ _ _ hI hC hs => nodeCurrent_step hI hC hs)
      (fun _ ha => by cases ha) hC h
  intro hall hasked
  obtain ⟨res, hres, hpage⟩ := hI.of_allArrived hall hasked
  rw [hres, hpage]

end

end CsvProductUploader.Client
