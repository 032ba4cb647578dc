/-
# The application in the browser

`client/src/components/Application/index.jsx`: the component at the root of every page.
It asks for a new invoice, keeps what came of it in its state, and leaves what is shown
to three routes.  A success sends the browser on to the page of the invoice, by way of a
`Redirect` that the root renders; a failure puts an error in the place of everything.

Several requests may be under way at once, since the form stays until the first answer.
What is shown then is a matter of the whole history (`render_run`): the message of the
last failure, if there was one, and else the page of the *first* invoice that was
created, while the state of the component is that of the *last* one (`run_keeps`).
-/

import BitcoinInvoice.Api.Models
import BitcoinInvoice.Library.Run

namespace BitcoinInvoice

open Transition

/-- What the three routes make of the location of the browser. -/
inductive Location where
  | root
  | invoice (id : String)
  | elsewhere
  deriving DecidableEq

/-- Only letters and digits, so no character that means anything in a path. -/
def Segment (id : String) : Prop := id ≠ "" ∧ ∀ c ∈ id.toList, c.isAlphanum = true

/-- `react-router-dom`: the location of a path.  The empty path, which the application
redirects to for a moment, is the root. -/
structure Router where
  route : String → Location
  route_empty : route "" = .root
  route_invoice : ∀ id, Segment id → route ("/invoice/" ++ id) = .invoice id

/-- The routes for paths of plain characters. -/
def plainRoute (path : String) : Location :=
  match path.toList with
  | [] | ['/'] => .root
  | '/' :: 'i' :: 'n' :: 'v' :: 'o' :: 'i' :: 'c' :: 'e' :: '/' :: id =>
      if id ≠ [] ∧ '/' ∉ id then .invoice (String.ofList id) else .elsewhere
  | _ => .elsewhere

/-- A router that meets the assumptions. -/
def plainRouter : Router where
  route := plainRoute
  route_empty := rfl
  route_invoice id h := by
    have hne : id.toList ≠ [] := fun he => h.1 (String.toList_eq_nil_iff.1 he)
    have hslash : '/' ∉ id.toList := fun hm => absurd (h.2 '/' hm) (by decide)
    have hlist : ("/invoice/" ++ id).toList =
        '/' :: 'i' :: 'n' :: 'v' :: 'o' :: 'i' :: 'c' :: 'e' :: '/' :: id.toList := by
      rw [String.toList_append]
      rfl
    unfold plainRoute
    rw [hlist]
    simp [hne, hslash]

/-- The state of the component.  A field no callback has set yet is `none`. -/
structure Application where
  redirectURL : String
  redirect : Bool
  error : Option String
  fiatValue : Option Int32
  digitalValue : Option Int64
  expiry : Option Int64
  invoiceID : Option String
  deriving DecidableEq

namespace Application

/-- The state the constructor sets. -/
def start : Application where
  redirectURL := ""
  redirect := false
  error := none
  fiatValue := none
  digitalValue := none
  expiry := none
  invoiceID := none

/-- The callback of `createInvoiceRequest`, where there is a response. -/
def created (a : Application) (response : InvoiceResponse) : Application :=
  { a with
    fiatValue := some response.fiatValue
    digitalValue := some response.digitalValue
    expiry := some response.expiry
    invoiceID := some response.invoiceId }

/-- `this.setState({error: err.message})`. -/
def failed (a : Application) (message : String) : Application := { a with error := some message }

/-- The first `setState` of `handleSubmit`, once the promise has resolved. -/
def redirecting (a : Application) : Application := { a with redirect := true }

/-- The second one. -/
def redirectTo (a : Application) : Application :=
  { a with redirectURL := "/invoice/" ++ a.invoiceID.getD "undefined" }

def shouldRedirect (a : Application) : Bool := a.redirect

def isError (a : Application) : Bool := a.error ≠ none

/-- What is rendered between the header and the footer. -/
inductive View where
  | error (errorMessage : String)
  | redirect (path : String)
  | createInvoice
  | showInvoice (id : String)
  deriving DecidableEq

/-- `render`. -/
def render (a : Application) (location : Location) : View :=
  match a.error with
  | some message => .error message
  | none =>
      match location with
      | .root => if a.shouldRedirect then .redirect a.redirectURL else .createInvoice
      | .invoice id => .showInvoice id
      | .elsewhere => .error "Cannot find the resource you are requesting."

/-- A `Redirect` that is rendered changes the location. -/
def follow (router : Router) (a : Application) (location : Location) : Location :=
  match a.render location with
  | .redirect path => router.route path
  | .error _ | .createInvoice | .showInvoice _ => location

/-- What the callback of the request is called with. -/
inductive Event where
  | created (response : InvoiceResponse)
  | failed (message : String)
  deriving DecidableEq

/-- The callback with what follows it.  Outside of an event handler every `setState`
renders at once, so the first one of `handleSubmit` redirects to the URL of before. -/
def react (router : Router) : Application × Location → Event → Application × Location
  | (a, location), .created response =>
      let a := (a.created response).redirecting
      let location := a.follow router location
      let a := a.redirectTo
      (a, a.follow router location)
  | (a, location), .failed message => (a.failed message, location)

/-- The responses of the requests that were answered. -/
def responses (events : List Event) : List InvoiceResponse :=
  events.filterMap fun e =>
    match e with
    | .created response => some response
    | .failed _ => none

/-- The messages of the requests that failed. -/
def failures (events : List Event) : List String :=
  events.filterMap fun e =>
    match e with
    | .created _ => none
    | .failed message => some message

/-- Where the browser is after the responses, having loaded the application at
`location`: at the invoice of the first one, if that was the root. -/
def place (location : Location) (rs : List InvoiceResponse) : Location :=
  match location, rs with
  | .root, r :: _ => .invoice r.invoiceId
  | .root, [] => .root
  | .invoice id, _ => .invoice id
  | .elsewhere, _ => .elsewhere

/-- What the callbacks so far come to. -/
structure Keeps (location : Location) (events : List Event) (v : Application × Location) :
    Prop where
  error : v.1.error = (failures events).getLast?
  redirect : v.1.redirect = true ↔ responses events ≠ []
  redirectURL : v.1.redirectURL =
    ((responses events).getLast?.map fun r => "/invoice/" ++ r.invoiceId).getD ""
  fiatValue : v.1.fiatValue = (responses events).getLast?.map (·.fiatValue)
  digitalValue : v.1.digitalValue = (responses events).getLast?.map (·.digitalValue)
  expiry : v.1.expiry = (responses events).getLast?.map (·.expiry)
  invoiceID : v.1.invoiceID = (responses events).getLast?.map (·.invoiceId)
  place : v.1.error = none → v.2 = Application.place location (responses events)

/-- An application that has just been loaded shows what it is to show, at whatever location: no
event has happened. -/
theorem keeps_start (location : Location) : Keeps location [] (start, location) := by
  constructor <;> try rfl
  · simp [start, responses]
  · intro _
    cases location <;> rfl

/-- The browser stays at the root until the first response, which is the only thing that sends it
on. -/
theorem place_eq_root_iff {location : Location} {rs : List InvoiceResponse} :
    place location rs = .root ↔ location = .root ∧ rs = [] := by
  cases location <;> cases rs <;> simp [place]

/-- Away from the root further responses do not move it: the place is that of the first
response. -/
theorem place_append {location : Location} {rs rs' : List InvoiceResponse}
    (h : place location rs ≠ .root) : place location rs = place location (rs ++ rs') := by
  cases location with
  | root =>
      cases rs with
      | nil => exact absurd rfl h
      | cons r rs => rfl
  | invoice id => rfl
  | elsewhere => rfl

/-- Away from the root no redirect is rendered, because the routes render the form only there. -/
theorem follow_of_ne_root (router : Router) (a : Application) {location : Location}
    (h : location ≠ .root) : a.follow router location = location := by
  unfold follow render
  cases a.error <;> cases location <;> first | rfl | exact absurd rfl h

/-- A redirect that is rendered at the root leads to where the URL is routed, if nothing has
failed. -/
theorem follow_root (router : Router) {a : Application} (he : a.error = none)
    (hr : a.redirect = true) : a.follow router .root = router.route a.redirectURL := by
  simp [follow, render, he, shouldRedirect, hr]

/-- The first invoice sends the browser from the root to its page, by way of the empty
URL. -/
theorem react_created_root (router : Router) {a : Application} {response : InvoiceResponse}
    (he : a.error = none) (hurl : a.redirectURL = "") (hseg : Segment response.invoiceId) :
    (react router (a, .root) (.created response)).2 = .invoice response.invoiceId := by
  have hfirst : (a.created response).redirecting.follow router .root = .root := by
    rw [follow_root (a := (a.created response).redirecting) router he rfl]
    exact (congrArg router.route hurl).trans router.route_empty
  show ((a.created response).redirecting.redirectTo).follow router
    ((a.created response).redirecting.follow router .root) = _
  rw [hfirst, follow_root (a := (a.created response).redirecting.redirectTo) router he rfl]
  exact router.route_invoice _ hseg

/-- Away from the root nothing moves it: a later response sets the redirect again, but the
component that would follow it is not mounted. -/
theorem react_created_of_ne_root (router : Router) (a : Application) {location : Location}
    (h : location ≠ .root) (response : InvoiceResponse) :
    (react router (a, location) (.created response)).2 = location := by
  show ((a.created response).redirecting.redirectTo).follow router
    ((a.created response).redirecting.follow router location) = _
  rw [follow_of_ne_root router _ h, follow_of_ne_root router _ h]

/-- **One callback.** A response is stored and, at the root, followed; a failure is stored and
hides everything else. Neither touches what the other has set. -/
theorem Keeps.react {router : Router} {location : Location} {events : List Event}
    {v : Application × Location} (h : Keeps location events v) {e : Event}
    (hseg : ∀ response, e = .created response → Segment response.invoiceId) :
    Keeps location (events ++ [e]) (Application.react router v e) := by
  obtain ⟨a, l⟩ := v
  cases e with
  | failed message =>
      refine ⟨by simp [failures, Application.react, failed], ?_, ?_, ?_, ?_, ?_, ?_, ?_⟩
      · simpa [responses, Application.react, failed] using h.redirect
      · simpa [responses, Application.react, failed] using h.redirectURL
      · simpa [responses, Application.react, failed] using h.fiatValue
      · simpa [responses, Application.react, failed] using h.digitalValue
      · simpa [responses, Application.react, failed] using h.expiry
      · simpa [responses, Application.react, failed] using h.invoiceID
      · intro hn
        cases hn
  | created response =>
      have hresponses : responses (events ++ [.created response]) =
          responses events ++ [response] := by
        simp [responses]
      have hfailures : failures (events ++ [.created response]) = failures events := by
        simp [failures]
      constructor
      case error => exact hfailures ▸ h.error
      case place =>
        intro hn
        have he : a.error = none := hn
        have hl : l = Application.place location (responses events) := h.place he
        rw [hresponses]
        by_cases hroot : l = .root
        · obtain ⟨rfl, hnil⟩ := place_eq_root_iff.1 (hl.symm.trans hroot)
          have hempty : a.redirectURL = "" := by
            have := h.redirectURL
            rwa [hnil] at this
          rw [hroot, hnil]
          exact react_created_root router he hempty (hseg response rfl)
        · rw [react_created_of_ne_root router a hroot response, hl, place_append (hl ▸ hroot)]
      all_goals simp [hresponses, Application.react, created, redirecting, redirectTo]

/-- **The state is that of the last response and of the last failure,** by induction on the
events, each of which leaves what it does not set as it was. -/
theorem run_keeps (router : Router) (location : Location) {events : List Event}
    (hseg : ∀ r ∈ responses events, Segment r.invoiceId) :
    Keeps location events (events.foldl (react router) (start, location)) := by
  have hguarded := (run_foldl (react router) (start, location) events).guarded
    (P := fun e => ∀ response, e = .created response → Segment response.invoiceId) ?_
  · refine hguarded.history (I := Keeps location) (keeps_start location) ?_
    rintro ks v e _ - h ⟨he, rfl⟩
    exact h.react he
  · rintro e he response rfl
    exact hseg response (List.mem_filterMap.2 ⟨_, he, rfl⟩)

/-- What a tab shows that loaded the application at `location`. -/
def shown (location : Location) (events : List Event) : View :=
  match (failures events).getLast? with
  | some message => .error message
  | none =>
      match place location (responses events) with
      | .root => .createInvoice
      | .invoice id => .showInvoice id
      | .elsewhere => .error "Cannot find the resource you are requesting."

/-- **What is shown after any callbacks:** the last failure, and without one the form
until the first invoice has been created, and its page from then on. -/
theorem render_run (router : Router) (location : Location) {events : List Event}
    (hseg : ∀ r ∈ responses events, Segment r.invoiceId) :
    (events.foldl (react router) (start, location)).1.render
        (events.foldl (react router) (start, location)).2 = shown location events := by
  have h : Keeps location events _ := run_keeps router location hseg
  generalize events.foldl (react router) (start, location) = v at h
  unfold render shown
  rw [h.error]
  cases hf : (failures events).getLast? with
  | some message => rfl
  | none =>
      have hplace := h.place (h.error.trans hf)
      rw [hplace]
      cases hp : place location (responses events) with
      | root =>
          have hnil := (place_eq_root_iff.1 hp).2
          have hredirect : v.1.redirect = false := by
            rw [Bool.eq_false_iff]
            intro ht
            exact h.redirect.1 ht hnil
          simp [shouldRedirect, hredirect]
      | invoice id => rfl
      | elsewhere => rfl

/-- Two clicks on the button, and two invoices. -/
def twoClicks : List Event :=
  [.created ⟨3200, 100000000, 900, "m"⟩, .created ⟨3200, 100000000, 901, "mm"⟩]

/-- The addresses of the two invoices are segments of a path. -/
theorem twoClicks_segment : ∀ r ∈ responses twoClicks, Segment r.invoiceId := by
  simp [responses, twoClicks, Segment]

/-- The theorem at two clicks, of which the page of the first invoice is shown, although the
second response has overwritten the state of the application. -/
theorem render_run_twoClicks :
    (twoClicks.foldl (react plainRouter) (start, .root)).1.render
        (twoClicks.foldl (react plainRouter) (start, .root)).2 = shown .root twoClicks :=
  render_run plainRouter .root twoClicks_segment

/-- The page is that of the first of them. -/
example : shown .root twoClicks = .showInvoice "m" := rfl

end Application
end BitcoinInvoice
