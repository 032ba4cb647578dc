/-
# The invoice page

`client/src/components/ShowInvoice/index.jsx`: a component that asks for its invoice
once and, if it gets one, for its status every ten seconds.  Each callback merges some
fields into the state with `setState`, and `render` looks at four of them in a fixed
order: the two statuses that end the payment, then the error, then whether the invoice
is loading, then whether it has expired.

A poll that fails sets the error, and a poll that succeeds does not take it back
(`run_fields`).  So the page shows the latest status exactly where it is `paid` or
`over_paid`, or the last poll that failed, if any did, failed with an empty message
(`page_reflects_iff`).
-/

import BitcoinInvoice.Api.Models
import BitcoinInvoice.Library.Run

namespace BitcoinInvoice

open Transition

/-- The state of the component.  A field no callback has set yet is `none`. -/
structure ShowInvoice where
  invoiceID : String
  loading : Bool
  status : Status
  shareableURL : String
  error : Option String
  fiatValue : Option Int32
  digitalValue : Option Int64
  expiry : Option Int64
  digitalValueRemaining : Option Int64
  deriving DecidableEq

namespace ShowInvoice

/-- The state the constructor sets, for the id of the route. -/
def start (id : String) : ShowInvoice where
  invoiceID := id
  loading := true
  status := .unpaid
  shareableURL := "localhost:8081/invoice/" ++ id
  error := none
  fiatValue := none
  digitalValue := none
  expiry := none
  digitalValueRemaining := none

/-- What the callbacks of the two requests are called with. -/
inductive Event where
  | invoice (response : InvoiceResponse)
  | invoiceFailed (message : String)
  | checked (response : InvoiceCheckResponse)
  | checkFailed (message : String)
  deriving DecidableEq

/-- The promise of `getInvoiceRequest`: pending, resolved, which starts the polls, or
rejected, which nobody catches. -/
inductive Request where
  | pending
  | resolved
  | rejected
  deriving DecidableEq

/-- `this.setState({error: err.message})`. -/
def failed (s : ShowInvoice) (message : String) : ShowInvoice := { s with error := some message }

/-- The callback of `getInvoiceRequest`, where there is a response. -/
def loaded (s : ShowInvoice) (response : InvoiceResponse) : ShowInvoice :=
  { s with
    fiatValue := some response.fiatValue
    digitalValue := some response.digitalValue
    expiry := some response.expiry
    invoiceID := response.invoiceId
    shareableURL := "localhost:8081/invoice/" ++ s.invoiceID }

/-- `this.setState({loading: false})`, once the promise has resolved. -/
def mounted (s : ShowInvoice) : ShowInvoice := { s with loading := false }

/-- The callback of `checkInvoice`, where there is a response. -/
def polled (s : ShowInvoice) (response : InvoiceCheckResponse) : ShowInvoice :=
  { s with
    status := response.status
    digitalValueRemaining := some response.digitalValueRemaining }

/-- One callback. -/
inductive Step : Request × ShowInvoice → Event → Request × ShowInvoice → Prop
  | invoice (s : ShowInvoice) (response : InvoiceResponse) :
      Step (.pending, s) (.invoice response) (.resolved, (s.loaded response).mounted)
  | invoiceFailed (s : ShowInvoice) (message : String) :
      Step (.pending, s) (.invoiceFailed message) (.rejected, s.failed message)
  | checked (s : ShowInvoice) (response : InvoiceCheckResponse) :
      Step (.resolved, s) (.checked response) (.resolved, s.polled response)
  | checkFailed (s : ShowInvoice) (message : String) :
      Step (.resolved, s) (.checkFailed message) (.resolved, s.failed message)

def isOverPaid (s : ShowInvoice) : Bool := s.status = .overPaid

def isPaid (s : ShowInvoice) : Bool := s.status = .paid

def isExpired (s : ShowInvoice) : Bool := s.status = .expired

/-- What the page shows: the receipt is given the whole state. -/
inductive Page where
  | overPaid
  | paid
  | error (errorMessage : String)
  | notFound
  | expired
  | showInvoice (qrCode : String) (receipt : ShowInvoice)
  deriving DecidableEq

/-- The part of `render` below the error. -/
def renderInvoice (s : ShowInvoice) : Page :=
  if s.loading then .notFound
  else if s.isExpired then .expired
  else .showInvoice s.invoiceID s

/-- `render`. -/
def render (s : ShowInvoice) : Page :=
  if s.isOverPaid then .overPaid
  else if s.isPaid then .paid
  else
    match s.error with
    | none => s.renderInvoice
    -- the empty string is false
    | some message => if message = "" then s.renderInvoice else .error message

/-- The page is the one for `status`. -/
structure Reflects (s : ShowInvoice) (status : Status) : Prop where
  overPaid : s.render = .overPaid ↔ status = .overPaid
  paid : s.render = .paid ↔ status = .paid
  expired : s.render = .expired ↔ status = .expired
  payable : (∃ qrCode receipt, s.render = .showInvoice qrCode receipt) ↔
    status = .unpaid ∨ status = .partiallyPaid

/-! ### What the callbacks leave behind -/

/-- The message of a poll that failed. -/
def Event.failure : Event → Option String
  | checkFailed message => some message
  | invoice _ | invoiceFailed _ | checked _ => none

/-- The message of the last poll that failed. -/
def lastFailure (events : List Event) : Option String := (events.filterMap Event.failure).getLast?

/-- What the callbacks so far come to. -/
def Fields (id : String) (events : List Event) : Request × ShowInvoice → Prop
  | (.pending, s) => s = start id ∧ events = []
  | (.resolved, s) => s.loading = false ∧ s.error = lastFailure events
  | (.rejected, _) => True

/-- One event keeps what is known of the fields: a page that has its invoice is not loading,
and its error is the message of the last failure. -/
theorem fields_step {id : String} {events : List Event} {v v' : Request × ShowInvoice} {e : Event}
    (h : Fields id events v) (hs : Step v e v') : Fields id (events ++ [e]) v' := by
  cases hs with
  | invoice s response =>
      obtain ⟨rfl, rfl⟩ := h
      exact ⟨rfl, rfl⟩
  | invoiceFailed s message => trivial
  | checked s response =>
      obtain ⟨hl, he⟩ := h
      refine ⟨hl, ?_⟩
      simp [polled, he, lastFailure, Event.failure]
  | checkFailed s message =>
      obtain ⟨hl, he⟩ := h
      refine ⟨hl, ?_⟩
      simp [failed, lastFailure, Event.failure]

/-- **The error is that of the last poll that failed**, whatever came after it. -/
theorem run_fields {id : String} {events : List Event} {v : Request × ShowInvoice}
    (h : Run Step (.pending, start id) events v) : Fields id events v :=
  h.history (I := Fields id) ⟨rfl, rfl⟩ fun _ _ _ _ _ hi hs => fields_step hi hs

/-- The page of a status, where no error is in the way: each status has its own page, in the order
the component tests them. -/
theorem reflects_of_no_error {s : ShowInvoice} (hl : s.loading = false)
    (he : ∀ message, s.error = some message → message = "") : s.Reflects s.status := by
  have hrender : s.status ≠ .overPaid → s.status ≠ .paid → s.render = s.renderInvoice := by
    intro ho hp
    cases hs : s.error with
    | none => simp [render, isOverPaid, isPaid, ho, hp, hs]
    | some message => simp [render, isOverPaid, isPaid, ho, hp, hs, he message hs]
  cases hs : s.status with
  | overPaid => constructor <;> simp [render, isOverPaid, hs]
  | paid => constructor <;> simp [render, isOverPaid, isPaid, hs]
  | expired | unpaid | partiallyPaid =>
      rw [hs] at hrender
      constructor <;> simp [hrender, renderInvoice, hl, isExpired, hs]

/-- The two statuses that come before the error: a page that is paid stays so, whatever fails
behind it. -/
theorem reflects_of_settled {s : ShowInvoice} (h : s.status = .overPaid ∨ s.status = .paid) :
    s.Reflects s.status := by
  rcases h with hs | hs
  · rw [hs]
    constructor <;> simp [render, isOverPaid, hs]
  · rw [hs]
    constructor <;> simp [render, isOverPaid, isPaid, hs]

/-- An error with a message hides every other status, and the component never takes the message
back. -/
theorem render_of_error {s : ShowInvoice} {message : String} (ho : s.status ≠ .overPaid)
    (hp : s.status ≠ .paid) (he : s.error = some message) (hm : message ≠ "") :
    s.render = .error message := by
  simp [render, isOverPaid, isPaid, ho, hp, he, hm]

/-- A page with a failure that has a text renders it in place of the status, unless the status is
one of the settled ones. -/
theorem not_reflects_of_error {s : ShowInvoice} {message : String} (ho : s.status ≠ .overPaid)
    (hp : s.status ≠ .paid) (he : s.error = some message) (hm : message ≠ "") :
    ¬ s.Reflects s.status := by
  intro h
  have hrender := render_of_error ho hp he hm
  cases hs : s.status with
  | overPaid => exact ho hs
  | paid => exact hp hs
  | expired =>
      have := h.expired.2 hs
      rw [hrender] at this
      cases this
  | unpaid | partiallyPaid =>
      obtain ⟨qrCode, receipt, hshow⟩ := h.payable.2 (by simp [hs])
      rw [hrender] at hshow
      cases hshow

/-- **The page reflects the latest answer exactly where no error hides it:** the answer
is `over_paid` or `paid`, or the last poll that failed before it, if any did, failed
with an empty message. -/
theorem page_reflects_iff {id : String} {events : List Event} {response : InvoiceCheckResponse}
    {v : Request × ShowInvoice}
    (h : Run Step (.pending, start id) (events ++ [.checked response]) v) :
    v.2.Reflects response.status ↔
      response.status = .overPaid ∨ response.status = .paid ∨
        ∀ message, lastFailure events = some message → message = "" := by
  obtain ⟨t, t', hrun, hstep, hend⟩ := h.split
  obtain rfl := run_nil_iff.1 hend
  cases hstep with
  | checked s _ =>
      obtain ⟨hl, he⟩ := run_fields hrun
      constructor
      · intro hr
        by_contra hn
        obtain ⟨ho, hn⟩ := not_or.1 hn
        obtain ⟨hp, hn⟩ := not_or.1 hn
        refine hn fun message hlast => ?_
        by_contra hm
        exact not_reflects_of_error (s := s.polled response) ho hp (he.trans hlast) hm hr
      · rintro (ho | hp | hm)
        · exact reflects_of_settled (s := s.polled response) (Or.inl ho)
        · exact reflects_of_settled (s := s.polled response) (Or.inr hp)
        · exact reflects_of_no_error (s := s.polled response) hl fun message hmessage =>
            hm message (he.symm.trans hmessage)

/-- An invoice that is loaded, and a poll that fails. -/
def lostPoll : List Event :=
  [.invoice ⟨3200, 100000000, 900, "m"⟩, .checkFailed "Http response at 400 or 500 level"]

/-- The state after them, and one poll that succeeds. -/
def afterLostPoll (response : InvoiceCheckResponse) : ShowInvoice :=
  ((((start "m").loaded ⟨3200, 100000000, 900, "m"⟩).mounted).failed
    "Http response at 400 or 500 level").polled response

/-- The events are a run, which ends with a poll that succeeds after one that has failed. -/
theorem lostPoll_run (response : InvoiceCheckResponse) :
    Run Step (.pending, start "m") (lostPoll ++ [.checked response])
      (.resolved, afterLostPoll response) :=
  .cons (.invoice _ _) (.cons (.checkFailed _ _) (.cons (.checked _ _) (.nil _)))

/-- The theorem at a poll that has failed once, behind which an open status is not shown. -/
theorem page_reflects_iff_lostPoll :
    (afterLostPoll ⟨.unpaid, 100000000⟩).Reflects .unpaid ↔
      Status.unpaid = .overPaid ∨ Status.unpaid = .paid ∨
        ∀ message, lastFailure lostPoll = some message → message = "" :=
  page_reflects_iff (lostPoll_run ⟨.unpaid, 100000000⟩)

/-- The poll after the lost one says that the invoice can be paid, or that it has
expired, and the page goes on showing the error. -/
theorem lostPoll_hides :
    Run Step (.pending, start "m") (lostPoll ++ [.checked ⟨.unpaid, 100000000⟩])
        (.resolved, afterLostPoll ⟨.unpaid, 100000000⟩) ∧
      (afterLostPoll ⟨.unpaid, 100000000⟩).render = .error "Http response at 400 or 500 level" ∧
      ¬ (afterLostPoll ⟨.unpaid, 100000000⟩).Reflects .unpaid ∧
      Run Step (.pending, start "m") (lostPoll ++ [.checked ⟨.expired, 0⟩])
        (.resolved, afterLostPoll ⟨.expired, 0⟩) ∧
      (afterLostPoll ⟨.expired, 0⟩).render = .error "Http response at 400 or 500 level" ∧
      ¬ (afterLostPoll ⟨.expired, 0⟩).Reflects .expired := by
  have hne : ∀ response : InvoiceCheckResponse,
      (afterLostPoll response).error = some "Http response at 400 or 500 level" := fun _ => rfl
  exact ⟨lostPoll_run _, by decide,
    not_reflects_of_error (s := afterLostPoll ⟨.unpaid, 100000000⟩) (by decide) (by decide)
      (hne _) (by decide),
    lostPoll_run _, by decide,
    not_reflects_of_error (s := afterLostPoll ⟨.expired, 0⟩) (by decide) (by decide) (hne _)
      (by decide)⟩

end ShowInvoice
end BitcoinInvoice
