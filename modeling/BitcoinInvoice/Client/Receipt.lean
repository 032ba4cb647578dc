/-
# The receipt

`client/src/components/Receipt/index.jsx`, the part of the invoice page that shows the
amounts.  The component copies the invoice into a state of its own when it is mounted and
never looks at the copied properties again; only the remaining amount is read from the
properties each time.  It is mounted anew whenever the page comes back to it.

So what it shows could be out of date, and is not: after any callbacks and clicks, a
receipt that is shown has the fields of the one response to `getInvoice`, and the
remaining amount of the latest status (`run_receipt`).  And the amounts are exact.  The
dollars are those of the invoice, and the bitcoins, although they went through a
division that rounds, are printed as the satoshis they came from (`receipt_denotes`).
Only before the first status there is no remaining amount, and the quotient that is
printed is not a number.
-/

import BitcoinInvoice.Api.Conversion
import BitcoinInvoice.Client.Amount
import BitcoinInvoice.Client.ShowInvoice
import BitcoinInvoice.Js.Display

namespace BitcoinInvoice

open Transition Float64

/-- The state of the component. -/
structure Receipt where
  fiatValue : Option Int32
  digitalValue : Option Int64
  expiry : Option Int64
  invoiceID : String
  shareableURL : String
  shareMsg : String
  deriving DecidableEq

namespace Receipt

/-- The state the constructor sets. -/
def mount (props : ShowInvoice) : Receipt where
  fiatValue := props.fiatValue
  digitalValue := props.digitalValue
  expiry := props.expiry
  invoiceID := props.invoiceID
  shareableURL := props.shareableURL
  shareMsg := "Share Invoice!"

/-- The receipt has the fields of the properties. -/
structure Copies (r : Receipt) (props : ShowInvoice) : Prop where
  fiatValue : r.fiatValue = props.fiatValue
  digitalValue : r.digitalValue = props.digitalValue
  expiry : r.expiry = props.expiry
  invoiceID : r.invoiceID = props.invoiceID
  shareableURL : r.shareableURL = props.shareableURL

/-- A receipt that is mounted has copied its props, and these are what it shows from then on. -/
theorem copies_mount (props : ShowInvoice) : (mount props).Copies props := ⟨rfl, rfl, rfl, rfl, rfl⟩

/-- Satoshis divided by `100000000`.  Without a number the quotient is not one. -/
def inBitcoin : Option Int64 → Float64
  | none => nan
  | some satoshis => div (ofRat satoshis.toInt) (finite 100000000)

/-- `bitcoinFormat`. -/
def bitcoinFormat (r : Receipt) : Float64 := inBitcoin r.digitalValue

/-- The `fiatFormat` of the receipt. -/
def dollars (display : Float64 → String) (r : Receipt) : String :=
  match r.fiatValue with
  | none => Js.toFixed2 display nan
  | some fiatValue => fiatFormat Float64.round display fiatValue

/-- `shareLink`: the text it copies, and the new state. -/
def shareLink (r : Receipt) : String × Receipt := (r.shareableURL, { r with shareMsg := "Copied!" })

/-- The lines of the receipt. -/
structure Lines where
  expiration : Option Int64
  bitcoin : String
  fiat : String
  address : String
  remaining : String
  share : String
  deriving DecidableEq

/-- `render`, with the one property it reads. -/
def render (display : Float64 → String) (r : Receipt) (digitalValueRemaining : Option Int64) :
    Lines where
  expiration := r.expiry
  bitcoin := display r.bitcoinFormat
  fiat := r.dollars display
  address := r.invoiceID
  remaining := display (inBitcoin digitalValueRemaining)
  share := r.shareMsg

/-- The lines of a receipt are those of the invoice of `response`, of which `status` is the
latest status, if there is one. -/
structure Lines.Denote (display : Float64 → String) (response : InvoiceResponse)
    (status : Option InvoiceCheckResponse) (lines : Lines) : Prop where
  address : lines.address = response.invoiceId
  expiration : lines.expiration = some response.expiry
  fiat : ∀ c : ℕ, 0 < c → response.fiatValue.toInt = c → Denotes lines.fiat c
  bitcoin : ∀ m : ℕ, 0 < m → m ≤ 2 ^ 51 → response.digitalValue.toInt = m →
    Js.Prints display (Float64.round ((m : ℚ) / 10 ^ 8)) → Denominates lines.bitcoin.toList m
  remaining : ∀ m : ℕ, 0 < m → m ≤ 2 ^ 51 →
    (∃ answer, status = some answer ∧ answer.digitalValueRemaining.toInt = m) →
      Js.Prints display (Float64.round ((m : ℚ) / 10 ^ 8)) → Denominates lines.remaining.toList m
  notYet : status = none → lines.remaining = "NaN"

end Receipt

namespace ShowInvoice

/-- The receipt below the page: the one that is mounted stays, with its state, as long
as the page shows one. -/
def Page.receipt (page : Page) (mounted : Option Receipt) : Option Receipt :=
  match page with
  | .showInvoice _ props => some (mounted.getD (Receipt.mount props))
  | .overPaid | .paid | .error _ | .notFound | .expired => none

/-- The page with its receipt. -/
structure Mounted where
  request : Request
  page : ShowInvoice
  receipt : Option Receipt
  deriving DecidableEq

/-- The page has just been mounted. -/
def Mounted.start (id : String) : Mounted where
  request := .pending
  page := ShowInvoice.start id
  receipt := none

/-- `setState` renders the page, and the receipt with it. -/
def Mounted.setState (v : Mounted) (page : ShowInvoice) : Mounted :=
  { v with page := page, receipt := page.render.receipt v.receipt }

/-- What happens to the page: one of its callbacks, or a click on the button of the
receipt. -/
inductive Input where
  | callback (e : Event)
  | share
  deriving DecidableEq

/-- A callback belongs to a request, so one that comes out of place does nothing. -/
def Mounted.react (v : Mounted) : Input → Mounted
  | .callback e =>
      match v.request, e with
      | .pending, .invoice response =>
          let v := v.setState (v.page.loaded response)
          { v.setState v.page.mounted with request := .resolved }
      | .pending, .invoiceFailed message =>
          { v.setState (v.page.failed message) with request := .rejected }
      | .resolved, .checked response => v.setState (v.page.polled response)
      | .resolved, .checkFailed message => v.setState (v.page.failed message)
      | .pending, .checked _ | .pending, .checkFailed _ | .resolved, .invoice _
      | .resolved, .invoiceFailed _ | .rejected, _ => v
  | .share => { v with receipt := v.receipt.map fun r => r.shareLink.2 }

/-- The page itself goes the way it goes without a receipt, or stays: a click on the receipt
changes the receipt only. -/
theorem Mounted.react_step (v : Mounted) (x : Input) :
    (∃ e, x = .callback e ∧ Step (v.request, v.page) e ((v.react x).request, (v.react x).page)) ∨
      ((v.react x).request = v.request ∧ (v.react x).page = v.page) := by
  obtain ⟨request, page, receipt⟩ := v
  cases x with
  | share => exact Or.inr ⟨rfl, rfl⟩
  | callback e =>
      cases request <;> cases e <;>
        first
        | exact Or.inr ⟨rfl, rfl⟩
        | exact Or.inl ⟨_, rfl, by constructor⟩

/-! ### The receipt is never out of date -/

/-- The last status of the invoice. -/
def latest (xs : List Input) : Option InvoiceCheckResponse :=
  (xs.filterMap fun x =>
    match x with
    | .callback (.checked response) => some response
    | .callback (.invoice _) | .callback (.invoiceFailed _) | .callback (.checkFailed _)
    | .share => none).getLast?

/-- What the page and its receipt come to that have been loaded with `response`, and then
have seen `xs`. -/
structure Mounted.Loaded (response : InvoiceResponse) (xs : List Input) (v : Mounted) : Prop where
  request : v.request = .resolved
  loading : v.page.loading = false
  fiatValue : v.page.fiatValue = some response.fiatValue
  digitalValue : v.page.digitalValue = some response.digitalValue
  expiry : v.page.expiry = some response.expiry
  invoiceID : v.page.invoiceID = response.invoiceId
  status : v.page.status = ((latest xs).map (·.status)).getD .unpaid
  remaining : v.page.digitalValueRemaining = (latest xs).map (·.digitalValueRemaining)
  copies : ∀ r, v.receipt = some r → r.Copies v.page
  shown : v.receipt.isSome = true ↔ ∃ qrCode props, v.page.render = .showInvoice qrCode props

/-- The page passes itself to the receipt as props, and its address to the code, in the same
render. -/
theorem renderInvoice_show {page props : ShowInvoice} {qrCode : String}
    (h : page.renderInvoice = .showInvoice qrCode props) :
    qrCode = page.invoiceID ∧ props = page := by
  unfold renderInvoice at h
  by_cases hl : page.loading = true
  · rw [if_pos hl] at h
    cases h
  · by_cases hx : page.isExpired = true
    · rw [if_neg hl, if_pos hx] at h
      cases h
    · rw [if_neg hl, if_neg hx] at h
      obtain ⟨hqr, hprops⟩ := Page.showInvoice.inj h
      exact ⟨hqr.symm, hprops.symm⟩

/-- The code is that of the address, and the receipt is given the whole state. -/
theorem render_show {page props : ShowInvoice} {qrCode : String}
    (h : page.render = .showInvoice qrCode props) : qrCode = page.invoiceID ∧ props = page := by
  unfold render at h
  by_cases ho : page.isOverPaid = true
  · rw [if_pos ho] at h
    cases h
  by_cases hp : page.isPaid = true
  · rw [if_neg ho, if_pos hp] at h
    cases h
  rw [if_neg ho, if_neg hp] at h
  cases he : page.error with
  | none =>
      rw [he] at h
      exact renderInvoice_show h
  | some message =>
      by_cases hm : message = ""
      · simp only [he, if_pos hm] at h
        exact renderInvoice_show h
      · simp only [he, if_neg hm] at h
        cases h

/-- Before the payment is over, the page shows its invoice or an error, since the two settled
statuses are tested first. -/
theorem render_cases {page : ShowInvoice} (ho : ¬ page.isOverPaid = true)
    (hp : ¬ page.isPaid = true) :
    page.render = page.renderInvoice ∨ ∃ message, page.render = .error message := by
  unfold render
  rw [if_neg ho, if_neg hp]
  cases page.error with
  | none => exact Or.inl rfl
  | some message =>
      by_cases hm : message = ""
      · exact Or.inl (if_pos hm)
      · exact Or.inr ⟨message, if_neg hm⟩

/-- The two pages that end the payment are those of their statuses. -/
theorem status_of_render {page : ShowInvoice} (h : page.render = .paid ∨ page.render = .overPaid) :
    page.status = .paid ∨ page.status = .overPaid := by
  by_contra hn
  obtain ⟨hp, ho⟩ := not_or.1 hn
  have hover : ¬ page.isOverPaid = true := by simpa [isOverPaid] using ho
  have hpaid : ¬ page.isPaid = true := by simpa [isPaid] using hp
  rcases render_cases hover hpaid with hr | ⟨message, hr⟩
  · rw [hr] at h
    unfold renderInvoice at h
    split_ifs at h <;> rcases h with h | h <;> cases h
  · rw [hr] at h
    rcases h with h | h <;> cases h

/-- The page with the code is that of an invoice that is open: unpaid, or paid in part. -/
theorem status_of_show {page props : ShowInvoice} {qrCode : String}
    (h : page.render = .showInvoice qrCode props) :
    page.status = .unpaid ∨ page.status = .partiallyPaid := by
  cases hs : page.status with
  | unpaid => exact Or.inl rfl
  | partiallyPaid => exact Or.inr rfl
  | paid | overPaid => simp [render, isOverPaid, isPaid, hs] at h
  | expired =>
      have hexpired : page.renderInvoice ≠ .showInvoice qrCode props := by
        unfold renderInvoice
        split_ifs with hl hx
        · simp
        · simp
        · exact absurd (by simp [isExpired, hs]) hx
      have hover : ¬ page.isOverPaid = true := by simp [isOverPaid, hs]
      have hpaid : ¬ page.isPaid = true := by simp [isPaid, hs]
      rcases render_cases hover hpaid with hr | ⟨message, hr⟩
      · exact absurd (hr.symm.trans h) hexpired
      · rw [hr] at h
        cases h

/-- A receipt is mounted exactly while the page renders one, and loses what it had copied when it
is unmounted. -/
theorem Page.receipt_isSome {p : Page} {m : Option Receipt} :
    (p.receipt m).isSome = true ↔ ∃ qrCode props, p = .showInvoice qrCode props := by
  cases p <;> simp [Page.receipt]

/-- **A render that changes none of the copied fields** leaves a receipt that is a copy: either
the old one, which was, or a new one, which copies now. -/
theorem Mounted.copies_setState {v : Mounted} {page : ShowInvoice}
    (hcopies : ∀ r, v.receipt = some r → r.Copies page) (r : Receipt)
    (h : (v.setState page).receipt = some r) : r.Copies page := by
  have hr : page.render.receipt v.receipt = some r := h
  cases hp : page.render with
  | showInvoice qrCode props =>
      obtain ⟨-, rfl⟩ := render_show hp
      rw [hp] at hr
      cases hm : v.receipt with
      | none =>
          rw [hm] at hr
          obtain rfl := Option.some.inj hr
          exact Receipt.copies_mount props
      | some r' =>
          rw [hm] at hr
          obtain rfl := Option.some.inj hr
          exact hcopies r' hm
  | overPaid | paid | error | notFound | expired =>
      rw [hp] at hr
      cases hr

/-- The page has been loaded: the one response is there, no poll has been answered, and the
receipt, if there is one, was copied from it. -/
theorem Mounted.loaded_start (id : String) (response : InvoiceResponse) :
    ((Mounted.start id).react (.callback (.invoice response))).Loaded response [] := by
  set v := (Mounted.start id).setState ((ShowInvoice.start id).loaded response) with hv
  -- the page is still loading when its fields are set
  have hnone : v.receipt = none := rfl
  have hcopies : ∀ r, (v.setState v.page.mounted).receipt = some r → r.Copies v.page.mounted :=
    Mounted.copies_setState fun r hr => by
      rw [hnone] at hr
      cases hr
  have hshown : (v.setState v.page.mounted).receipt.isSome = true ↔
      ∃ qrCode props, v.page.mounted.render = .showInvoice qrCode props :=
    Page.receipt_isSome (p := v.page.mounted.render) (m := v.receipt)
  exact ⟨rfl, rfl, rfl, rfl, rfl, rfl, rfl, rfl, hcopies, hshown⟩

/-- **What happens to a loaded page** leaves it loaded, by cases: a status sets what remains, an
error sets a message, a click the label, and none of them what the receipt has copied. -/
theorem Mounted.Loaded.react {response : InvoiceResponse} {xs : List Input} {v : Mounted}
    (h : v.Loaded response xs) (x : Input) : (v.react x).Loaded response (xs ++ [x]) := by
  obtain ⟨request, page, receipt⟩ := v
  obtain rfl : request = .resolved := h.request
  cases x with
  | share =>
      have hlatest : latest (xs ++ [.share]) = latest xs := by simp [latest]
      refine ⟨rfl, h.loading, h.fiatValue, h.digitalValue, h.expiry, h.invoiceID,
        hlatest ▸ h.status, hlatest ▸ h.remaining, fun r hr => ?_, ?_⟩
      · obtain ⟨r', hr', rfl⟩ := Option.map_eq_some_iff.1 hr
        obtain ⟨h₁, h₂, h₃, h₄, h₅⟩ := h.copies r' hr'
        exact ⟨h₁, h₂, h₃, h₄, h₅⟩
      · refine Iff.trans ?_ h.shown
        show (receipt.map _).isSome = true ↔ receipt.isSome = true
        rw [Option.isSome_map]
  | callback e =>
      cases e with
      | invoice response' =>
          have hlatest : latest (xs ++ [.callback (.invoice response')]) = latest xs := by
            simp [latest]
          exact ⟨rfl, h.loading, h.fiatValue, h.digitalValue, h.expiry, h.invoiceID,
            hlatest ▸ h.status, hlatest ▸ h.remaining, h.copies, h.shown⟩
      | invoiceFailed message =>
          have hlatest : latest (xs ++ [.callback (.invoiceFailed message)]) = latest xs := by
            simp [latest]
          exact ⟨rfl, h.loading, h.fiatValue, h.digitalValue, h.expiry, h.invoiceID,
            hlatest ▸ h.status, hlatest ▸ h.remaining, h.copies, h.shown⟩
      | checked status =>
          have hlatest : latest (xs ++ [.callback (.checked status)]) = some status := by
            simp [latest]
          refine ⟨rfl, h.loading, h.fiatValue, h.digitalValue, h.expiry, h.invoiceID, ?_, ?_,
            Mounted.copies_setState fun r hr => ?_, Page.receipt_isSome⟩
          · rw [hlatest]
            rfl
          · rw [hlatest]
            rfl
          · obtain ⟨h₁, h₂, h₃, h₄, h₅⟩ := h.copies r hr
            exact ⟨h₁, h₂, h₃, h₄, h₅⟩
      | checkFailed message =>
          have hlatest : latest (xs ++ [.callback (.checkFailed message)]) = latest xs := by
            simp [latest]
          refine ⟨rfl, h.loading, h.fiatValue, h.digitalValue, h.expiry, h.invoiceID,
            hlatest ▸ h.status, hlatest ▸ h.remaining, Mounted.copies_setState fun r hr => ?_,
            Page.receipt_isSome⟩
          obtain ⟨h₁, h₂, h₃, h₄, h₅⟩ := h.copies r hr
          exact ⟨h₁, h₂, h₃, h₄, h₅⟩

/-- **After any callbacks and clicks the copy is that of the invoice,** by induction on them:
React does not construct the receipt again while it stays mounted, and the fields it copied do not
change. -/
theorem run_receipt (id : String) (response : InvoiceResponse) (xs : List Input) :
    (xs.foldl Mounted.react ((Mounted.start id).react (.callback (.invoice response)))).Loaded
      response xs := by
  refine (run_foldl Mounted.react _ xs).history
    (I := fun xs v => Mounted.Loaded response xs v) (Mounted.loaded_start id response) ?_
  rintro xs v x _ - h rfl
  exact h.react x

/-! ### The amounts are exact -/

/-- The bitcoins shown are the satoshis divided: the quotient is rounded, and the numeral
printed for it is that of the satoshis all the same. -/
theorem denominates_inBitcoin {display : Float64 → String} {satoshis : Int64} {m : ℕ}
    (hv : satoshis.toInt = m) (hpos : 0 < m) (hle : m ≤ 2 ^ 51)
    (hprints : Js.Prints display (Float64.round ((m : ℚ) / 10 ^ 8))) :
    Denominates (display (Receipt.inBitcoin (some satoshis))).toList m := by
  obtain ⟨s, k, n, hshort, hparse⟩ := hprints
  have hm : ofRat (satoshis.toInt : ℚ) = finite m := by
    rw [ofRat_intCast (by rw [hv, abs_of_nonneg (Int.natCast_nonneg m)]; omega), hv,
      Int.cast_natCast]
  have hm1 : (1 : ℚ) ≤ m := by exact_mod_cast hpos
  have hmax : (m : ℚ) ≤ 2251799813685248 := by exact_mod_cast hle
  have hnear := abs_le.1 (Js.perturbs_satoshi ((m : ℚ) / 10 ^ 8) (by norm_num; linarith))
  have hlt : |Float64.round ((m : ℚ) / 10 ^ 8)| < 2 ^ 64 := by
    rw [abs_lt]
    norm_num at hnear ⊢
    constructor <;> linarith [hnear.1, hnear.2]
  have hdiv : Receipt.inBitcoin (some satoshis) = finite (Float64.round ((m : ℚ) / 10 ^ 8)) := by
    rw [Receipt.inBitcoin, hm, div, if_neg (by norm_num), ← ofRat_eq_finite hlt]
    norm_num
  rw [Denominates, hdiv, hparse, hshort.eq_of_satoshis hpos hle]

section Shown

variable {display : Float64 → String} {xs : List Input} {r : Receipt} {lines : Receipt.Lines}
  {v : Mounted}

/-- **A receipt that is shown is the receipt of the invoice,** after any callbacks and
clicks.  The address is that of the invoice, and of the code; the amounts denote what the
server said, up to more satoshis than there are, and until it has said what remains the
line for it says that this is not a number. -/
theorem receipt_denotes (id : String) (response : InvoiceResponse)
    (hv : v = xs.foldl Mounted.react ((Mounted.start id).react (.callback (.invoice response))))
    (hr : v.receipt = some r) (hlines : lines = r.render display v.page.digitalValueRemaining)
    (hnan : display nan = "NaN") :
    v.page.render = .showInvoice response.invoiceId v.page ∧
      lines.Denote display response (latest xs) := by
  have h : v.Loaded response xs := hv ▸ run_receipt id response xs
  have hcopy := h.copies r hr
  obtain ⟨qrCode, props, hrender⟩ := h.shown.1 (hr ▸ rfl)
  obtain ⟨hqr, rfl⟩ := render_show hrender
  rw [hqr, h.invoiceID] at hrender
  subst hlines
  refine ⟨hrender, hcopy.invoiceID.trans h.invoiceID, hcopy.expiry.trans h.expiry, ?_, ?_, ?_, ?_⟩
  · intro c hc hfiat
    show Denotes (r.dollars display) c
    rw [Receipt.dollars, hcopy.fiatValue, h.fiatValue]
    have hcmax := response.fiatValue.toInt_lt
    exact denotes_fiatFormat perturbs_round hfiat hc (by omega)
  · intro m hm hmax hbitcoin hprints
    show Denominates (display (Receipt.inBitcoin r.digitalValue)).toList m
    rw [hcopy.digitalValue, h.digitalValue]
    exact denominates_inBitcoin hbitcoin hm hmax hprints
  · rintro m hm hmax ⟨answer, hstatus, hleft⟩ hprints
    show Denominates (display (Receipt.inBitcoin v.page.digitalValueRemaining)).toList m
    rw [h.remaining, hstatus]
    exact denominates_inBitcoin hleft hm hmax hprints
  · intro hnone
    show display (Receipt.inBitcoin v.page.digitalValueRemaining) = "NaN"
    rw [h.remaining, hnone]
    exact hnan

end Shown

/-- One bitcoin, half of one, and no number. -/
def plainDisplay (x : Float64) : String :=
  if x = finite (1 / 2) then "0.5" else if x = nan then "NaN" else "1"

/-- A bitcoin for 32 dollars, half of which has been paid, and a click on the button. -/
def halfPaidInputs : List Input :=
  [.callback (.checked ⟨.unpaid, 100000000⟩), .share,
    .callback (.checked ⟨.partiallyPaid, 50000000⟩)]

def halfPaid : Mounted :=
  halfPaidInputs.foldl Mounted.react
    ((Mounted.start "m").react (.callback (.invoice ⟨3200, 100000000, 900, "m"⟩)))

def halfPaidReceipt : Receipt :=
  ⟨some 3200, some 100000000, some 900, "m", "localhost:8081/invoice/m", "Copied!"⟩

def halfPaidLines : Receipt.Lines :=
  halfPaidReceipt.render plainDisplay halfPaid.page.digitalValueRemaining

/-- The display of the examples prints half a bitcoin by one of its shortest numerals. -/
theorem plainDisplay_half :
    Js.Prints plainDisplay (Float64.round (((50000000 : ℕ) : ℚ) / 10 ^ 8)) := by
  have hround : Float64.round (((50000000 : ℕ) : ℚ) / 10 ^ 8) = 1 / 2 := by decide +kernel
  rw [hround]
  exact ⟨5, 1, 0, ⟨⟨le_rfl, by norm_num, by norm_num, by decide +kernel⟩,
    fun _ _ _ h => h.pos⟩, by decide +kernel⟩

/-- The theorem at the receipt of an invoice of one bitcoin, half of which remains by the last
status. -/
theorem receipt_denotes_halfPaid :
    halfPaid.page.render = .showInvoice "m" halfPaid.page ∧
      halfPaidLines.Denote plainDisplay ⟨3200, 100000000, 900, "m"⟩ (latest halfPaidInputs) ∧
      Denominates halfPaidLines.remaining.toList 50000000 := by
  have h : halfPaid.page.render = .showInvoice "m" halfPaid.page ∧
      halfPaidLines.Denote plainDisplay ⟨3200, 100000000, 900, "m"⟩ (latest halfPaidInputs) :=
    receipt_denotes "m" ⟨3200, 100000000, 900, "m"⟩ rfl rfl rfl (by decide +kernel)
  exact ⟨h.1, h.2, h.2.remaining 50000000 (by norm_num) (by norm_num) ⟨_, rfl, rfl⟩
    plainDisplay_half⟩

end ShowInvoice
end BitcoinInvoice
