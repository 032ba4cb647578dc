/-
# A document of the browser

The application, its form and its invoice page in one document, as they call each other:
`client/src/components` over `InvoiceClient` of `client/src/protobuf`.  A document is what
one load of the application comes to; a reload makes another one.  The form submits
amounts, the answer to one sends the document on to a page, the page asks for its invoice
when it is mounted, and a timer that is never stopped asks for its status.

An application that has failed renders nothing else, so its page is gone.  The timer goes
on, and the callbacks of the page, whose `setState` changes nothing any more.

What a document shows is `Truthful` to the books of the server if the answers it gets are
(`Truthful.react`).  It asks only for the invoice of its own address, and for new ones only
from the root (`Asks`), so it needs to believe no more than the answers to that.
-/

import BitcoinInvoice.Api.Settlement
import BitcoinInvoice.Client.Amount
import BitcoinInvoice.Client.Application
import BitcoinInvoice.Client.Receipt
import BitcoinInvoice.Library.Network

namespace BitcoinInvoice

open Network (Input Fair)
open ShowInvoice (Mounted)

/-- What a document asks of the server. -/
inductive InvoiceClient.Request where
  | createInvoice (value : Int32)
  | checkInvoice (invoiceId : String)
  | getInvoice (invoiceId : String)
  deriving DecidableEq

/-- What its callbacks are called with. -/
inductive InvoiceClient.Answer where
  | invoice (response : InvoiceResponse)
  | checked (response : InvoiceCheckResponse)
  | error (message : String)
  deriving DecidableEq

/-- What is not in the repository: the routes, and what `writeInt32` makes of a number,
with `none` where it throws. -/
structure Browser extends Router where
  writeInt32 : Float64 → Option Int32
  writeInt32_toInt : ∀ value : Int32, writeInt32 (.finite value.toInt) = some value

/-- The routes of plain characters, and the integers that fit. -/
def plainBrowser : Browser where
  toRouter := plainRouter
  writeInt32
    | .finite q => if (Int32.ofInt q.num).toInt = q then some (Int32.ofInt q.num) else none
    | .inf _ | .nan => none
  writeInt32_toInt value := by simp

/-- What happens to a document besides answers: the load, the form, the timer of the page
and the button of its receipt. -/
inductive Gesture where
  | load (path : String)
  | change (text : List Char)
  | submit
  | tick
  | share
  deriving DecidableEq

/-- A document.  `fiatValue` is the state of the form; the page is there from when it is
mounted. -/
structure Document where
  location : Location
  app : Application
  fiatValue : Float64
  page : Option Mounted
  deriving DecidableEq

namespace Document

open Application (View)

/-- A document, and what it asks for. -/
abbrev Out := Document × List InvoiceClient.Request

/-- What is rendered. -/
def view (d : Document) : View := d.app.render d.location

/-- The page is mounted when its route is first rendered, and asks for its invoice. -/
def mountPage (d : Document) : Out :=
  match d.view, d.page with
  | .showInvoice id, none => ({ d with page := some (.start id) }, [.getInvoice id])
  | .showInvoice _, some _ | .error _, _ | .redirect _, _ | .createInvoice, _ => (d, [])

/-- The application has been loaded at a path. -/
def start (b : Browser) (path : String) : Document where
  location := b.route path
  app := Application.start
  fiatValue := .finite 0
  page := none

/-- `this.state.fiatValue > 0`. -/
def isPositive : Float64 → Bool
  | .finite q => 0 < q
  | .inf negative => !negative
  | .nan => false

/-- `handleSubmit` of the form. -/
def handleSubmit (b : Browser) (d : Document) : List InvoiceClient.Request :=
  if isPositive d.fiatValue then
    match b.writeInt32 d.fiatValue with
    | some value => [.createInvoice value]
    | none => []
  else []

/-- The callback of `createInvoiceRequest`. -/
def answered (b : Browser) (d : Document) (e : Application.Event) : Out :=
  let (app, location) := Application.react b.toRouter (d.app, d.location) e
  mountPage { d with app := app, location := location }

/-- What a callback makes of the page, which may be gone. -/
def afterCallback (d : Document) (v : Mounted) (e : ShowInvoice.Event) : Mounted :=
  if d.app.isError then { v with request := (v.react (.callback e)).request }
  else v.react (.callback e)

/-- The first answer starts the polls. -/
def firstPoll (v v' : Mounted) : List InvoiceClient.Request :=
  if v.request = .pending ∧ v'.request = .resolved then [.checkInvoice v'.page.invoiceID] else []

/-- A callback of the page. -/
def onPage (d : Document) (e : ShowInvoice.Event) : Out :=
  match d.page with
  | none => (d, [])
  | some v => ({ d with page := some (d.afterCallback v e) }, firstPoll v (d.afterCallback v e))

/-- The callback of a request. -/
def callback (b : Browser) (d : Document) : InvoiceClient.Request → InvoiceClient.Answer → Out
  | .createInvoice _, .invoice response => d.answered b (.created response)
  | .createInvoice _, .error message => d.answered b (.failed message)
  | .getInvoice _, .invoice response => d.onPage (.invoice response)
  | .getInvoice _, .error message => d.onPage (.invoiceFailed message)
  | .checkInvoice _, .checked response => d.onPage (.checked response)
  | .checkInvoice _, .error message => d.onPage (.checkFailed message)
  | .createInvoice _, .checked _ | .getInvoice _, .checked _ | .checkInvoice _, .invoice _ =>
      (d, [])

/-- The timer of the page, where there is one. -/
def tick (d : Document) : List InvoiceClient.Request :=
  match d.page with
  | some v => if v.request = .resolved then [.checkInvoice v.page.invoiceID] else []
  | none => []

/-- The button of the receipt. -/
def share (d : Document) : Document :=
  if d.app.isError then d else { d with page := d.page.map fun v => v.react .share }

/-- What a document does with a gesture. -/
def gesture (b : Browser) (d : Document) : Gesture → Out
  | .load _ => (d, [])
  | .change text =>
      if d.view = .createInvoice then
        ({ d with fiatValue := handleChange Float64.round text }, [])
      else (d, [])
  | .submit => (d, if d.view = .createInvoice then d.handleSubmit b else [])
  | .tick => (d, d.tick)
  | .share => (d.share, [])

/-- What happens to a document that may not have been loaded yet. -/
def react (b : Browser) :
    Option Document → Input Gesture InvoiceClient.Request InvoiceClient.Answer String →
      Option Document × List InvoiceClient.Request
  | none, .user (.load path) => let (d, qs) := (start b path).mountPage; (some d, qs)
  | none, .user (.change _) | none, .user .submit | none, .user .tick | none, .user .share
  | none, .reply _ _ | none, .failure _ _ => (none, [])
  | some d, .user g => let (d, qs) := d.gesture b g; (some d, qs)
  | some d, .reply q r => let (d, qs) := d.callback b q r; (some d, qs)
  | some d, .failure q message => let (d, qs) := d.callback b q (.error message); (some d, qs)

end Document

/-- The books of the server: the ledger, and which statuses of an invoice they bear out. -/
structure Books where
  ledger : String → Option Invoice
  warrants : String → Invoice → InvoiceCheckResponse → Prop

/-- Nothing is struck from them. -/
structure Books.Extends (B B' : Books) : Prop where
  ledger : ∀ id invoice, B.ledger id = some invoice → B'.ledger id = some invoice
  warrants : ∀ id invoice status, B.ledger id = some invoice → B.warrants id invoice status →
    B'.warrants id invoice status

/-- What an answer says of the books. -/
def InvoiceClient.Says (B : Books) : InvoiceClient.Request → InvoiceClient.Answer → Prop
  | .createInvoice value, .invoice response =>
      response.fiatValue = value ∧ Segment response.invoiceId ∧
        B.ledger response.invoiceId = some response.entry
  | .getInvoice id, .invoice response =>
      response.invoiceId = id ∧ B.ledger id = some response.entry
  | .checkInvoice id, .checked response =>
      ∃ invoice, B.ledger id = some invoice ∧ B.warrants id invoice response
  | .createInvoice _, .error _ | .getInvoice _, .error _ | .checkInvoice _, .error _ => True
  | .createInvoice _, .checked _ | .getInvoice _, .checked _ | .checkInvoice _, .invoice _ => False

/-- An error says nothing of the books, whatever was asked. -/
theorem InvoiceClient.says_error {B : Books} (q : InvoiceClient.Request) (message : String) :
    InvoiceClient.Says B q (.error message) := by
  cases q <;> trivial

/-- What an answer says of the books stays true while nothing is struck from them: it is a fact
about one entry, and about one warrant. -/
theorem InvoiceClient.Says.mono {B B' : Books} (hB : B.Extends B') {q : InvoiceClient.Request}
    {a : InvoiceClient.Answer} (h : InvoiceClient.Says B q a) : InvoiceClient.Says B' q a := by
  cases q with
  | createInvoice value =>
      cases a with
      | invoice response => exact ⟨h.1, h.2.1, hB.ledger _ _ h.2.2⟩
      | checked response => exact h
      | error message => trivial
  | checkInvoice id =>
      cases a with
      | invoice response => exact h
      | checked response =>
          obtain ⟨invoice, hi, hw⟩ := h
          exact ⟨invoice, hB.ledger _ _ hi, hB.warrants _ _ _ hi hw⟩
      | error message => trivial
  | getInvoice id =>
      cases a with
      | invoice response => exact ⟨h.1, hB.ledger _ _ h.2⟩
      | checked response => exact h
      | error message => trivial

namespace ShowInvoice

/-- The page of the invoice `id`, as far as it has come: it waits for its invoice, or has
it and perhaps a status, or was refused. -/
inductive Mounted.Truthful (B : Books) (id : String) : Mounted → Prop
  | pending : Truthful B id (.start id)
  | loaded (response : InvoiceResponse) (xs : List Input) (v : Mounted)
      (h : v.Loaded response xs) (hid : response.invoiceId = id)
      (hledger : B.ledger id = some response.entry)
      (hstatus : ∀ status, latest xs = some status → B.warrants id response.entry status) :
      Truthful B id v
  | rejected (v : Mounted) (h : v.request = .rejected) (hreceipt : v.receipt = none)
      (hstatus : v.page.status = .unpaid) : Truthful B id v

variable {B B' : Books} {id : String} {v : Mounted}

/-- A page that is truthful to some books is truthful to those that go on from there. -/
theorem Mounted.Truthful.mono (hB : B.Extends B') (h : v.Truthful B id) : v.Truthful B' id := by
  cases h with
  | pending => exact .pending
  | loaded response xs v h hid hledger hstatus =>
      exact .loaded response xs v h hid (hB.ledger _ _ hledger) fun status hs =>
        hB.warrants _ _ _ hledger (hstatus status hs)
  | rejected v h hreceipt hstatus => exact .rejected v h hreceipt hstatus

/-- A callback with an answer that is true leaves the page truthful: an invoice is the one of the
route and in the ledger, a status is borne out, and an error changes neither. -/
theorem Mounted.Truthful.callback (h : v.Truthful B id) {e : Event}
    (hinvoice : ∀ response, e = .invoice response →
      response.invoiceId = id ∧ B.ledger id = some response.entry)
    (hchecked : ∀ status, e = .checked status →
      ∃ invoice, B.ledger id = some invoice ∧ B.warrants id invoice status) :
    (v.react (.callback e)).Truthful B id := by
  cases h with
  | pending =>
      cases e with
      | invoice response =>
          obtain ⟨hid, hledger⟩ := hinvoice response rfl
          refine .loaded response [] _ (Mounted.loaded_start id response) hid hledger ?_
          intro status hs
          cases hs
      | invoiceFailed message =>
          refine .rejected _ rfl ?_ rfl
          by_cases hm : message = ""
          · subst hm
            rfl
          · have hrender : ((ShowInvoice.start id).failed message).render = .error message :=
              render_of_error (fun h => by cases h) (fun h => by cases h) rfl hm
            show ((ShowInvoice.start id).failed message).render.receipt none = none
            rw [hrender]
            rfl
      | checked status => exact .pending
      | checkFailed message => exact .pending
  | loaded response xs v h hid hledger hstatus =>
      refine .loaded response (xs ++ [.callback e]) _ (h.react _) hid hledger ?_
      intro status hs
      cases e with
      | checked status' =>
          obtain rfl : status' = status := by simpa [latest] using hs
          obtain ⟨invoice, hi, hw⟩ := hchecked status' rfl
          obtain rfl := Option.some.inj (hledger.symm.trans hi)
          exact hw
      | invoice response' => exact hstatus status (by simpa [latest] using hs)
      | invoiceFailed message => exact hstatus status (by simpa [latest] using hs)
      | checkFailed message => exact hstatus status (by simpa [latest] using hs)
  | rejected v h hreceipt hstatus =>
      have hstay : v.react (.callback e) = v := by
        obtain ⟨request, page, receipt⟩ := v
        obtain rfl : request = .rejected := h
        cases e <;> rfl
      rw [hstay]
      exact .rejected v h hreceipt hstatus

/-- The button of the receipt changes its label only, so the page stays truthful. -/
theorem Mounted.Truthful.share (h : v.Truthful B id) : (v.react .share).Truthful B id := by
  cases h with
  | pending => exact .pending
  | loaded response xs v h hid hledger hstatus =>
      refine .loaded response (xs ++ [.share]) _ (h.react _) hid hledger ?_
      intro status hs
      exact hstatus status (by simpa [latest] using hs)
  | rejected v h hreceipt hstatus =>
      refine .rejected _ h ?_ hstatus
      show v.receipt.map _ = none
      rw [hreceipt]
      rfl

/-- The page keeps the address of its route, as the invoice that arrives is the one that was asked
for. -/
theorem Mounted.react_invoiceID {e : Event} (hid : v.page.invoiceID = id)
    (hinvoice : ∀ response, e = .invoice response → response.invoiceId = id) :
    (v.react (.callback e)).page.invoiceID = id := by
  obtain ⟨request, page, receipt⟩ := v
  cases e with
  | invoice response =>
      cases request with
      | pending => exact hinvoice response rfl
      | resolved | rejected => exact hid
  | invoiceFailed message => cases request <;> exact hid
  | checked status => cases request <;> exact hid
  | checkFailed message => cases request <;> exact hid

end ShowInvoice

namespace Document

open Application (View)

/-- What a document has come to. -/
structure Truthful (B : Books) (d : Document) : Prop where
  /-- The first redirect goes by way of the empty URL. -/
  redirectURL : d.app.redirect = false → d.app.redirectURL = ""
  redirected : d.app.redirect = true → d.app.error = none →
    ∃ id, d.location = .invoice id ∧ B.ledger id ≠ none
  routed : ∀ v, d.page = some v → ∃ id, d.location = .invoice id ∧ v.page.invoiceID = id
  page : ∀ v id, d.page = some v → d.location = .invoice id → d.app.error = none →
    v.Truthful B id

/-- What it has asked for. -/
def Asks (d : Document) : InvoiceClient.Request → Prop
  | .createInvoice _ => d.location = .root ∨ d.app.redirect = true
  | .checkInvoice id | .getInvoice id => d.location = .invoice id

variable {B B' : Books} {d : Document} {b : Browser}

/-- A document that is truthful to some books is truthful to those that go on from there, however
it has come to what it shows. -/
theorem Truthful.mono (hB : B.Extends B') (h : d.Truthful B) : d.Truthful B' where
  redirectURL := h.redirectURL
  redirected hr he := by
    obtain ⟨id, hl, hi⟩ := h.redirected hr he
    obtain ⟨invoice, hi⟩ := Option.ne_none_iff_exists'.1 hi
    exact ⟨id, hl, by simp [hB.ledger _ _ hi]⟩
  routed := h.routed
  page v id hv hl he := (h.page v id hv hl he).mono hB

/-- What a document does is as good as it was, and so is what it asks for. -/
structure Sound (B : Books) (d : Document) (out : Out) : Prop where
  truthful : out.1.Truthful B
  keeps : ∀ q, d.Asks q → out.1.Asks q
  sends : ∀ q ∈ out.2, out.1.Asks q

/-- A document that does nothing and sends nothing is as good as it was. -/
theorem Sound.refl (h : d.Truthful B) : Sound B d (d, []) where
  truthful := h
  keeps _ hq := hq
  sends _ hq := absurd hq List.not_mem_nil

/-- A document shows the page of an invoice exactly where nothing has failed and its location is
that of the invoice. -/
theorem view_eq_showInvoice_iff {id : String} :
    d.view = .showInvoice id ↔ d.app.error = none ∧ d.location = .invoice id := by
  obtain ⟨location, app, fiatValue, page⟩ := d
  show Application.render app location = .showInvoice id ↔ app.error = none ∧ location = .invoice id
  unfold Application.render
  cases app.error with
  | some message => simp
  | none =>
      cases location with
      | root => by_cases hr : app.shouldRedirect = true <;> simp [hr]
      | invoice id' => simp
      | elsewhere => simp

/-- Where the page of an invoice is shown for the first time, it is mounted, and asks for its
invoice. -/
theorem mountPage_of_showInvoice {id : String} (hview : d.view = .showInvoice id)
    (hpage : d.page = none) :
    d.mountPage = ({ d with page := some (.start id) }, [.getInvoice id]) := by
  unfold mountPage
  rw [hview, hpage]

/-- Where no page is shown, or one is mounted already, rendering mounts nothing and asks for
nothing. -/
theorem mountPage_of_ne (h : (∀ id, d.view ≠ .showInvoice id) ∨ d.page ≠ none) :
    d.mountPage = (d, []) := by
  unfold mountPage
  cases hv : d.view with
  | showInvoice id =>
      rcases h with h | h
      · exact absurd hv (h id)
      · obtain ⟨v, hp⟩ := Option.ne_none_iff_exists'.1 h
        rw [hp]
  | error message => rfl
  | redirect path => rfl
  | createInvoice => rfl

/-- The page that is mounted waits for the invoice of its route, and the request for it is the
only thing it sends. -/
theorem Truthful.mountPage (h : d.Truthful B) : Sound B d d.mountPage := by
  by_cases hm : (∀ id, d.view ≠ .showInvoice id) ∨ d.page ≠ none
  · rw [mountPage_of_ne hm]
    exact .refl h
  · obtain ⟨hview, hpage⟩ := not_or.1 hm
    obtain ⟨id, hview⟩ := not_forall_not.1 hview
    rw [mountPage_of_showInvoice hview (not_not.1 hpage)]
    obtain ⟨-, hl⟩ := view_eq_showInvoice_iff.1 hview
    refine ⟨⟨h.redirectURL, h.redirected, fun v hv => ?_, fun v id' hv hl' _ => ?_⟩,
      fun _ hq => hq, fun q hq => ?_⟩
    · obtain rfl := Option.some.inj hv
      exact ⟨id, hl, rfl⟩
    · obtain rfl := Option.some.inj hv
      obtain rfl := Location.invoice.inj (hl.symm.trans hl')
      exact .pending
    · obtain rfl := List.mem_singleton.1 hq
      exact hl

/-- A document that has just been loaded is truthful to any books: it shows nothing of them. -/
theorem truthful_start (path : String) : (start b path).Truthful B := by
  refine ⟨fun _ => rfl, fun hr => ?_, fun v hv => ?_, fun v id hv => ?_⟩
  · cases hr
  · cases hv
  · cases hv

/-- Where a page is mounted, a callback is its own, and the answer that ends its waiting starts
the polls. -/
theorem onPage_of_some {v : Mounted} (h : d.page = some v) (e : ShowInvoice.Event) :
    d.onPage e =
      ({ d with page := some (d.afterCallback v e) }, firstPoll v (d.afterCallback v e)) := by
  unfold onPage
  rw [h]

/-- While nothing has failed, the page sees to its callbacks. -/
theorem afterCallback_eq (he : d.app.error = none) (v : Mounted) (e : ShowInvoice.Event) :
    d.afterCallback v e = v.react (.callback e) := by
  have hn : ¬ d.app.isError = true := fun h => of_decide_eq_true h he
  rw [afterCallback, if_neg hn]

/-- All that a callback of the page can send is a check of its own invoice, and only the callback
with the invoice does. -/
theorem mem_firstPoll {v v' : Mounted} {q : InvoiceClient.Request} (h : q ∈ firstPoll v v') :
    q = .checkInvoice v'.page.invoiceID := by
  unfold firstPoll at h
  split_ifs at h
  · exact List.mem_singleton.1 h
  · exact absurd h List.not_mem_nil

/-- **A callback of the page** leaves the document truthful if what it brings is true of the
invoice at the document's location. Where the application has failed before, the page is gone, and
the callback sets nothing of it. -/
theorem Truthful.onPage (h : d.Truthful B) {e : ShowInvoice.Event}
    (hinvoice : ∀ response id, e = .invoice response → d.location = .invoice id →
      response.invoiceId = id ∧ B.ledger id = some response.entry)
    (hchecked : ∀ status id, e = .checked status → d.location = .invoice id →
      ∃ invoice, B.ledger id = some invoice ∧ B.warrants id invoice status) :
    Sound B d (d.onPage e) := by
  cases hp : d.page with
  | none =>
      rw [show d.onPage e = (d, []) by unfold Document.onPage; rw [hp]]
      exact .refl h
  | some v =>
      rw [onPage_of_some hp]
      obtain ⟨id, hl, hid⟩ := h.routed v hp
      have hrouted : (d.afterCallback v e).page.invoiceID = id := by
        unfold afterCallback
        split_ifs
        · exact hid
        · exact Mounted.react_invoiceID hid fun response he => (hinvoice response id he hl).1
      refine ⟨⟨h.redirectURL, h.redirected, fun w hw => ?_, fun w id' hw hl' he => ?_⟩,
        fun q hq => hq, fun q hq => ?_⟩
      · obtain rfl := Option.some.inj hw
        exact ⟨id, hl, hrouted⟩
      · obtain rfl := Option.some.inj hw
        obtain rfl := Location.invoice.inj (hl.symm.trans hl')
        show (d.afterCallback v e).Truthful B id
        rw [afterCallback_eq (d := d) he]
        exact (h.page v id hp hl he).callback (fun response he => hinvoice response id he hl)
          fun status he => hchecked status id he hl
      · rw [mem_firstPoll hq, hrouted]
        exact hl

/-- A document that mounts its page last is as good as it was before, and still may have asked for
what it has asked for. -/
theorem Sound.mountPage {c : Document} (h : c.Truthful B)
    (hkeeps : ∀ q, d.Asks q → c.Asks q) : Sound B d c.mountPage where
  truthful := h.mountPage.truthful
  keeps q hq := h.mountPage.keeps q (hkeeps q hq)
  sends := h.mountPage.sends

/-- **A new invoice, or none.** A response that is true sends the document on to an invoice of the
ledger, unless it has been sent on before; an error is stored, and nothing but it is shown from
then on. -/
theorem Truthful.answered (h : d.Truthful B) {e : Application.Event}
    (hasks : d.location = .root ∨ d.app.redirect = true)
    (hcreated : ∀ response, e = .created response →
      Segment response.invoiceId ∧ B.ledger response.invoiceId = some response.entry) :
    Sound B d (d.answered b e) := by
  cases e with
  | failed message =>
      refine Sound.mountPage (c := { d with app := d.app.failed message })
        ⟨h.redirectURL, fun _ he => ?_, h.routed, fun _ _ _ _ he => ?_⟩ fun q hq => hq
      · cases he
      · cases he
  | created response =>
      obtain ⟨hseg, hledger⟩ := hcreated response rfl
      set out := Application.react b.toRouter (d.app, d.location) (.created response) with hout
      have herror : out.1.error = d.app.error := rfl
      have hredirect : out.1.redirect = true := rfl
      have hstay : d.location ≠ .root → out.2 = d.location := fun hne =>
        Application.react_created_of_ne_root b.toRouter d.app hne response
      refine Sound.mountPage (c := { d with app := out.1, location := out.2 })
        ⟨fun hr => ?_, fun _ he => ?_, fun v hv => ?_, fun v id hv hl he => ?_⟩ fun q hq => ?_
      · rw [hredirect] at hr
        cases hr
      · show ∃ id, out.2 = .invoice id ∧ B.ledger id ≠ none
        by_cases hr : d.app.redirect = true
        · obtain ⟨id, hl, hi⟩ := h.redirected hr he
          exact ⟨id, (hstay (by rw [hl]; simp)).trans hl, hi⟩
        · -- the form has been waiting at the root
          have hroot := hasks.resolve_right hr
          have hurl := h.redirectURL (Bool.eq_false_iff.2 hr)
          refine ⟨response.invoiceId, ?_, by simp [hledger]⟩
          rw [hout, hroot]
          exact Application.react_created_root b.toRouter he hurl hseg
      · obtain ⟨id, hl, hid⟩ := h.routed v hv
        exact ⟨id, (hstay (by rw [hl]; simp)).trans hl, hid⟩
      · obtain ⟨id', hl', -⟩ := h.routed v hv
        have hne : d.location ≠ .root := by
          rw [hl']
          simp
        exact h.page v id hv ((hstay hne).symm.trans hl) he
      · cases q with
        | createInvoice value => exact Or.inr hredirect
        | checkInvoice id =>
            have hl : d.location = .invoice id := hq
            exact (hstay (by rw [hl]; simp)).trans hl
        | getInvoice id =>
            have hl : d.location = .invoice id := hq
            exact (hstay (by rw [hl]; simp)).trans hl

/-- **An answer that is true** leaves the document truthful, by cases of the request it answers:
each goes to the component that asked for it. -/
theorem Truthful.callback (h : d.Truthful B) {q : InvoiceClient.Request}
    {a : InvoiceClient.Answer} (hasks : d.Asks q) (htrue : InvoiceClient.Says B q a) :
    Sound B d (d.callback b q a) := by
  cases q with
  | createInvoice value =>
      cases a with
      | invoice response =>
          refine h.answered (e := .created response) hasks fun response' he => ?_
          obtain rfl := Application.Event.created.inj he
          exact htrue.2
      | checked response => exact .refl h
      | error message =>
          exact h.answered (b := b) (e := .failed message) hasks fun response he => by cases he
  | getInvoice id =>
      have hl : d.location = .invoice id := hasks
      cases a with
      | invoice response =>
          refine h.onPage (fun response' id' he hl' => ?_) fun status id' he => by cases he
          obtain rfl := ShowInvoice.Event.invoice.inj he
          obtain rfl := Location.invoice.inj (hl.symm.trans hl')
          exact htrue
      | checked response => exact .refl h
      | error message =>
          exact h.onPage (fun response id' he => by cases he) fun status id' he => by cases he
  | checkInvoice id =>
      have hl : d.location = .invoice id := hasks
      cases a with
      | invoice response => exact .refl h
      | checked response =>
          refine h.onPage (fun response' id' he => by cases he) fun status id' he hl' => ?_
          obtain rfl := ShowInvoice.Event.checked.inj he
          obtain rfl := Location.invoice.inj (hl.symm.trans hl')
          exact htrue
      | error message =>
          exact h.onPage (fun response id' he => by cases he) fun status id' he => by cases he

/-- The form is shown at the root only: any other location has another route, and an error is
shown in place of either. -/
theorem view_eq_createInvoice {d : Document} (h : d.view = .createInvoice) :
    d.location = .root := by
  obtain ⟨location, app, fiatValue, page⟩ := d
  change Application.render app location = .createInvoice at h
  unfold Application.render at h
  cases he : app.error with
  | some message =>
      rw [he] at h
      cases h
  | none =>
      rw [he] at h
      cases location with
      | root => rfl
      | invoice id => cases h
      | elsewhere => cases h

/-- The form asks for new invoices and for nothing else, which a document at the root may do. -/
theorem mem_handleSubmit {q : InvoiceClient.Request} (h : q ∈ d.handleSubmit b)
    (hl : d.location = .root) : d.Asks q := by
  unfold handleSubmit at h
  split_ifs at h
  · cases hw : b.writeInt32 d.fiatValue with
    | none =>
        rw [hw] at h
        cases h
    | some value =>
        rw [hw] at h
        obtain rfl := List.mem_singleton.1 h
        exact Or.inl hl
  · cases h

/-- **A gesture** leaves the document truthful, by cases: it may load a page, change the amount,
submit the form, poll, or copy the link, and none of these invents an invoice. -/
theorem Truthful.gesture (h : d.Truthful B) (g : Gesture) : Sound B d (d.gesture b g) := by
  cases g with
  | load path => exact .refl h
  | change text =>
      unfold Document.gesture
      split_ifs
      · exact ⟨⟨h.redirectURL, h.redirected, h.routed, h.page⟩, fun q hq => hq,
          fun q hq => absurd hq List.not_mem_nil⟩
      · exact .refl h
  | submit =>
      refine ⟨h, fun q hq => hq, fun q hq => ?_⟩
      change q ∈ (if d.view = .createInvoice then d.handleSubmit b else []) at hq
      by_cases hview : d.view = .createInvoice
      · rw [if_pos hview] at hq
        exact mem_handleSubmit hq (view_eq_createInvoice hview)
      · rw [if_neg hview] at hq
        cases hq
  | tick =>
      refine ⟨h, fun q hq => hq, fun q hq => ?_⟩
      change q ∈ d.tick at hq
      unfold Document.tick at hq
      cases hp : d.page with
      | none =>
          rw [hp] at hq
          cases hq
      | some v =>
          obtain ⟨id, hl, hid⟩ := h.routed v hp
          simp only [hp] at hq
          split_ifs at hq
          · rw [List.mem_singleton.1 hq, hid]
            exact hl
          · cases hq
  | share =>
      show Sound B d (d.share, [])
      unfold Document.share
      split_ifs with herr
      · exact .refl h
      · refine ⟨⟨h.redirectURL, h.redirected, fun v hv => ?_, fun v id hv hl he => ?_⟩,
          fun q hq => hq, fun q hq => absurd hq List.not_mem_nil⟩
        · obtain ⟨v', hv', rfl⟩ := Option.map_eq_some_iff.1 hv
          exact h.routed v' hv'
        · obtain ⟨v', hv', rfl⟩ := Option.map_eq_some_iff.1 hv
          exact (h.page v' id hv' hl he).share

/-- What a document that may not have been loaded yet has come to. -/
def TruthfulIf (B : Books) : Option Document → Prop
  | none => True
  | some d => d.Truthful B

/-- What it has asked for. -/
def AsksIf : Option Document → InvoiceClient.Request → Prop
  | none, _ => False
  | some d, q => d.Asks q

/-- **What happens to a document leaves it truthful,** if the answers are. This is the one rule
about the client that the system relies on; what it sends, it may ask for. -/
theorem react_sound {k : Option Document} (h : TruthfulIf B k)
    {x : Input Gesture InvoiceClient.Request InvoiceClient.Answer String}
    (hx : Fair (fun q a B => InvoiceClient.Says B q a) AsksIf k B x) :
    TruthfulIf B (react b k x).1 ∧ (∀ q, AsksIf k q → AsksIf (react b k x).1 q) ∧
      ∀ q ∈ (react b k x).2, AsksIf (react b k x).1 q := by
  cases k with
  | none =>
      cases x with
      | user g =>
          cases g with
          | load path =>
              have hs := (truthful_start (B := B) (b := b) path).mountPage
              exact ⟨hs.truthful, fun q hq => hq.elim, hs.sends⟩
          | change text | submit | tick | share =>
              exact ⟨trivial, fun q hq => hq, fun q hq => absurd hq List.not_mem_nil⟩
      | reply q a => exact hx.1.elim
      | failure q message => exact hx.elim
  | some d =>
      have hd : d.Truthful B := h
      cases x with
      | user g =>
          have hs := hd.gesture (b := b) g
          exact ⟨hs.truthful, hs.keeps, hs.sends⟩
      | reply q a =>
          have hs := hd.callback (b := b) (q := q) hx.1 hx.2
          exact ⟨hs.truthful, hs.keeps, hs.sends⟩
      | failure q message =>
          have hs := hd.callback (b := b) (q := q) hx (InvoiceClient.says_error q message)
          exact ⟨hs.truthful, hs.keeps, hs.sends⟩

end Document
end BitcoinInvoice
