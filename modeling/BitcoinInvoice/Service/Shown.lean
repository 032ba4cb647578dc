/-
# What the documents show

In every run of the system, at any number of documents: what a document shows is true of
the server as it is now, whatever it was when the answer left it.  An invoice whose
receipt is shown is in the ledger with these amounts (`shown_receipt`), and a document that
was sent on is at an invoice that exists (`redirected_exists`), as long as no two derivations
clash.  Where the address is unused when the invoice is created, no output lists it twice and
the node knows the chain, an invoice that is shown as paid has been paid since it was created
(`shown_paid`), and what a receipt says remains is enough (`shown_remaining`).
-/

import BitcoinInvoice.Service.System

namespace BitcoinInvoice

open Transition
open Network (Net Label Safe)

variable {Key Address ι : Type} {codec : Codec Address} {xpub : String} {childAddress : ℕ → String}
  {watched : Set String}

namespace Service

/-- The receipt. -/
def newReceipt : Receipt :=
  ⟨some 3200, some 100000000, some 900, "m", "localhost:8081/invoice/m", "Share Invoice!"⟩

/-- The page with the invoice. -/
def newPage : ShowInvoice.Mounted :=
  (ShowInvoice.Mounted.start "m").react (.callback (.invoice newInvoice))

/-- The page with a status. -/
def paidPage : ShowInvoice.Mounted := newPage.react (.callback (.checked ⟨.paid, 0⟩))

/-- One bitcoin has been paid for the invoice, and the page has been told. -/
def settled : OneDocument := polled oneBitcoin ⟨.paid, 0⟩

/-- The poll that tells the page is one run with everything before it, from the form to the
payment. -/
theorem settled_run : Run (OneStep watched) (start Unit "tpub" [])
    (polledLabels oneBitcoin ⟨.paid, 0⟩) settled :=
  polled_run (p := 100000000) oneBitcoin_valid (plainCodec_paysOnce (by decide +kernel))
    (by decide +kernel) (by decide +kernel)

/-- Half of the invoice. -/
def halfBitcoin : MsgTx := ⟨[⟨50000000, [0]⟩]⟩

/-- The page with half of it. -/
def halfPage : ShowInvoice.Mounted :=
  newPage.react (.callback (.checked ⟨.partiallyPaid, 50000000⟩))

/-- After half of the payment, the page knows the other half is due: the node has seen the first
half. -/
theorem polled_halfBitcoin :
    Run (OneStep watched) (start Unit "tpub" [])
      (polledLabels halfBitcoin ⟨.partiallyPaid, 50000000⟩)
      (polled halfBitcoin ⟨.partiallyPaid, 50000000⟩) :=
  polled_run (p := 50000000) ⟨by decide, by decide⟩ (plainCodec_paysOnce (by decide +kernel))
    (by decide +kernel) (by decide +kernel)

/-- The document with its page. -/
def sentOn (page : ShowInvoice.Mounted) : Document where
  location := .invoice "m"
  app := ⟨"/invoice/m", true, none, some 3200, some 100000000, some 900, some "m"⟩
  fiatValue := .finite 3200
  page := some page

section Shown

variable [DecidableEq ι] {b : Browser} {chain : List MsgTx} {w : State ι}
  {ls : List (Happening Key Address ι)} {i : ι} {doc : Document} {v : ShowInvoice.Mounted}
  {r : Receipt}

/-- **Every document is truthful in every run** in which no derivations clash, whatever was
paid before and whatever the nodes say. -/
theorem truthful_of_run (hinj : Set.InjOn childAddress (Set.Iio (2 ^ 31)))
    (hseg : ∀ i < 2 ^ 31, Segment (childAddress i))
    (hr : Run (Step Key b codec xpub childAddress ∅) (start ι xpub chain) ls w)
    (hi : w.client i = some doc) : doc.Truthful (books codec ∅ w.server) := by
  have hsafe := run_safe hinj hseg (fun _ h => absurd h (Set.notMem_empty _))
    (fun _ h => absurd h (Set.notMem_empty _)) hr
  have ht := hsafe.clients i
  rw [hi] at ht
  exact ht

/-- A document is truthful to the books of the watched invoices, in every run that watches them:
their addresses are unused at first, and the nodes know the chain. -/
theorem truthful_of_watched (hinj : Set.InjOn childAddress (Set.Iio (2 ^ 31)))
    (hseg : ∀ i < 2 ^ 31, Segment (childAddress i))
    (hvalid : ∀ tx ∈ chain, tx.Valid)
    (honce : ∀ id ∈ watched, ∀ vout ∈ outputs chain, codec.CountsOnce id vout)
    (hr : Run (Step Key b codec xpub childAddress watched) (start ι xpub chain) ls w)
    (hi : w.client i = some doc) : doc.Truthful (books codec watched w.server) := by
  have ht := (run_safe hinj hseg (fun _ _ => hvalid) honce hr).clients i
  rw [hi] at ht
  exact ht

/-- A page with a receipt has its invoice, which is in the ledger, and the last status it was
told of is borne out. -/
theorem loaded_of_receipt {B : Books} (h : doc.Truthful B) (he : doc.app.error = none)
    (hv : doc.page = some v) (hreceipt : v.receipt = some r) :
    ∃ id response xs, doc.location = .invoice id ∧ v.Loaded response xs ∧
      response.invoiceId = id ∧ B.ledger id = some response.entry ∧
      ∀ status, ShowInvoice.latest xs = some status → B.warrants id response.entry status := by
  obtain ⟨id, hl, -⟩ := h.routed v hv
  cases h.page v id hv hl he with
  | pending => cases hreceipt
  | rejected _ _ hnone _ =>
      rw [hnone] at hreceipt
      cases hreceipt
  | loaded response xs _ hloaded hid hledger hborne =>
      exact ⟨id, response, xs, hl, hloaded, hid, hledger, hborne⟩

/-- **What remains, by the books:** with what has arrived since, it is all of the amount, and it
is not more than the amount. -/
theorem remaining_of_receipt {d : Deployment} (h : doc.Truthful (books codec watched d))
    (he : doc.app.error = none) (hv : doc.page = some v) (hreceipt : v.receipt = some r)
    {remaining : Int64} (hremaining : v.page.digitalValueRemaining = some remaining) :
    ∃ id invoice, doc.location = .invoice id ∧ d.server.invoices id = some invoice ∧
      (id ∈ watched → 0 < invoice.digitalValue.toInt → ∃ encodedAddress,
        codec.decodeAddress id = .ok encodedAddress ∧ 0 < remaining.toInt ∧
          remaining.toInt ≤ invoice.digitalValue.toInt ∧
          invoice.digitalValue.toInt ≤ remaining.toInt +
            codec.received (codec.encodeAddress encodedAddress)
              (d.chain.drop (d.createdAt id))) := by
  obtain ⟨id, response, xs, hl, hloaded, -, hledger, hwarrants⟩ :=
    loaded_of_receipt h he hv hreceipt
  obtain ⟨qrCode, props, hrender⟩ := hloaded.shown.1 (hreceipt ▸ rfl)
  have hopen := ShowInvoice.status_of_show hrender
  -- what remains comes from the last status, and so does the status of the page
  rw [hloaded.remaining] at hremaining
  obtain ⟨status, hlatest, rfl⟩ := Option.map_eq_some_iff.1 hremaining
  have hlast := hloaded.status
  rw [hlatest] at hlast
  have hstatus : status.status = .unpaid ∨ status.status = .partiallyPaid :=
    hopen.imp hlast.symm.trans hlast.symm.trans
  have hn : status.status ≠ .expired := by
    rcases hstatus with hs | hs <;> simp [hs]
  refine ⟨id, response.entry, hl, hledger, fun hw hpos => ?_⟩
  obtain ⟨encodedAddress, hdecode, hborne⟩ := hwarrants status hlatest hw hn
  exact ⟨encodedAddress, hdecode, hborne.remaining hstatus hpos⟩

/-- **A receipt that is shown is in the ledger,** at the address in the location bar, with
these amounts and this expiry, whatever was lost, late or asked by others, in every run in
which no two derivations clash. -/
theorem shown_receipt (hinj : Set.InjOn childAddress (Set.Iio (2 ^ 31)))
    (hseg : ∀ i < 2 ^ 31, Segment (childAddress i))
    (hr : Run (Step Key b codec xpub childAddress ∅) (start ι xpub chain) ls w)
    (hi : w.client i = some doc) (he : doc.app.error = none) (hv : doc.page = some v)
    (hreceipt : v.receipt = some r) :
    ∃ id invoice, doc.location = .invoice id ∧ v.page.render = .showInvoice id v.page ∧
      w.server.server.invoices id = some invoice ∧ r.invoiceID = id ∧
      r.fiatValue = some invoice.fiatValue ∧ r.digitalValue = some invoice.digitalValue ∧
      r.expiry = some invoice.expiry := by
  have h := truthful_of_run hinj hseg hr hi
  obtain ⟨id, response, xs, hl, hloaded, hid, hledger, -⟩ := loaded_of_receipt h he hv hreceipt
  obtain ⟨qrCode, props, hrender⟩ := hloaded.shown.1 (hreceipt ▸ rfl)
  obtain ⟨hqr, rfl⟩ := ShowInvoice.render_show hrender
  have hcopy := hloaded.copies r hreceipt
  have haddress : v.page.invoiceID = id := hloaded.invoiceID.trans hid
  rw [hqr, haddress] at hrender
  exact ⟨id, response.entry, hl, hrender, hledger, hcopy.invoiceID.trans haddress,
    hcopy.fiatValue.trans hloaded.fiatValue, hcopy.digitalValue.trans hloaded.digitalValue,
    hcopy.expiry.trans hloaded.expiry⟩

/-- The theorem at the receipt of the new invoice, which shows 32 dollars and one bitcoin. -/
theorem shown_receipt_newInvoice :
    ∃ id invoice, (sentOn newPage).location = .invoice id ∧
      newPage.page.render = .showInvoice id newPage.page ∧
      received.server.server.invoices id = some invoice ∧ newReceipt.invoiceID = id ∧
      newReceipt.fiatValue = some invoice.fiatValue ∧
      newReceipt.digitalValue = some invoice.digitalValue ∧
      newReceipt.expiry = some invoice.expiry :=
  shown_receipt (i := ()) unaryAddress_injective.injOn (fun i _ => unaryAddress_segment i)
    received_run (by decide +kernel) rfl rfl (by decide +kernel)

/-- **An invoice that is shown as paid has been paid** since it was created, but for a
fiftieth, if it is watched: its address was unused then, no output lists it twice, and the
nodes its checks asked knew the chain. -/
theorem shown_paid (hinj : Set.InjOn childAddress (Set.Iio (2 ^ 31)))
    (hseg : ∀ i < 2 ^ 31, Segment (childAddress i)) (hvalid : ∀ tx ∈ chain, tx.Valid)
    (honce : ∀ id ∈ watched, ∀ vout ∈ outputs chain, codec.CountsOnce id vout)
    (hr : Run (Step Key b codec xpub childAddress watched) (start ι xpub chain) ls w)
    (hi : w.client i = some doc) (he : doc.app.error = none) (hv : doc.page = some v)
    (hpaid : v.page.render = .paid ∨ v.page.render = .overPaid) :
    ∃ id invoice, doc.location = .invoice id ∧ w.server.server.invoices id = some invoice ∧
      (id ∈ watched → 0 < invoice.digitalValue.toInt → invoice.digitalValue.toInt ≤ 2 ^ 53 →
        ∃ encodedAddress, codec.decodeAddress id = .ok encodedAddress ∧
          invoice.digitalValue.toInt - invoice.digitalValue.toInt / 50 ≤
            codec.received (codec.encodeAddress encodedAddress)
              (w.server.chain.drop (w.server.createdAt id))) := by
  have h := truthful_of_watched hinj hseg hvalid honce hr hi
  obtain ⟨id, hl, -⟩ := h.routed v hv
  have hstatus := ShowInvoice.status_of_render hpaid
  cases h.page v id hv hl he with
  | pending => rcases hstatus with hs | hs <;> cases hs
  | rejected _ _ _ hunpaid => rcases hstatus with hs | hs <;> rw [hunpaid] at hs <;> cases hs
  | loaded response xs _ hloaded hid hledger hborne =>
      refine ⟨id, response.entry, hl, hledger, fun hw hpos hmax => ?_⟩
      have hlast := hloaded.status
      cases hlatest : ShowInvoice.latest xs with
      | none =>
          rw [hlatest] at hlast
          rcases hstatus with hs | hs <;> rw [hlast] at hs <;> cases hs
      | some status =>
          rw [hlatest] at hlast
          have hset : status.Settled := hstatus.imp hlast.symm.trans hlast.symm.trans
          obtain ⟨encodedAddress, hdecode, hborne⟩ := hborne status hlatest hw hset.ne_expired
          exact ⟨encodedAddress, hdecode, hborne.settled hset hpos hmax⟩

/-- The theorem at the payment of one bitcoin, and the page that shows it as paid. -/
theorem shown_paid_oneBitcoin :
    ∃ id invoice, (sentOn paidPage).location = .invoice id ∧
      settled.server.server.invoices id = some invoice ∧
      (id ∈ ({"m"} : Set String) → 0 < invoice.digitalValue.toInt →
        invoice.digitalValue.toInt ≤ 2 ^ 53 →
        ∃ encodedAddress, plainCodec.decodeAddress id = .ok encodedAddress ∧
          invoice.digitalValue.toInt - invoice.digitalValue.toInt / 50 ≤
            plainCodec.received (plainCodec.encodeAddress encodedAddress)
              (settled.server.chain.drop (settled.server.createdAt id))) :=
  shown_paid (i := ()) unaryAddress_injective.injOn (fun i _ => unaryAddress_segment i) (by simp)
    (by simp [outputs]) settled_run (by decide +kernel) rfl rfl (Or.inl (by decide +kernel))

/-- **What a receipt says remains is enough,** however old the answer is, if the invoice is
watched.  It is no more than the amount, the number of the browser is exactly this one, and
with what has arrived since the invoice was created it makes up for all of the amount. -/
theorem shown_remaining (hinj : Set.InjOn childAddress (Set.Iio (2 ^ 31)))
    (hseg : ∀ i < 2 ^ 31, Segment (childAddress i)) (hvalid : ∀ tx ∈ chain, tx.Valid)
    (honce : ∀ id ∈ watched, ∀ vout ∈ outputs chain, codec.CountsOnce id vout)
    (hr : Run (Step Key b codec xpub childAddress watched) (start ι xpub chain) ls w)
    (hi : w.client i = some doc) (he : doc.app.error = none) (hv : doc.page = some v)
    (hreceipt : v.receipt = some r) {remaining : Int64}
    (hremaining : v.page.digitalValueRemaining = some remaining) :
    ∃ id invoice, doc.location = .invoice id ∧ w.server.server.invoices id = some invoice ∧
      (id ∈ watched → 0 < invoice.digitalValue.toInt → invoice.digitalValue.toInt ≤ 2 ^ 53 →
        ∃ encodedAddress, codec.decodeAddress id = .ok encodedAddress ∧
          Float64.ofRat remaining.toInt = .finite remaining.toInt ∧ 0 < remaining.toInt ∧
          remaining.toInt ≤ invoice.digitalValue.toInt ∧
          invoice.digitalValue.toInt ≤ remaining.toInt +
            codec.received (codec.encodeAddress encodedAddress)
              (w.server.chain.drop (w.server.createdAt id))) := by
  have h := truthful_of_watched hinj hseg hvalid honce hr hi
  obtain ⟨id, invoice, hl, hinvoice, hrest⟩ := remaining_of_receipt h he hv hreceipt hremaining
  refine ⟨id, invoice, hl, hinvoice, fun hw hpos hmax => ?_⟩
  obtain ⟨encodedAddress, hdecode, hleft, hle, henough⟩ := hrest hw hpos
  have hexact : Float64.ofRat remaining.toInt = .finite remaining.toInt :=
    Float64.ofRat_intCast (abs_le.2 ⟨by omega, by omega⟩)
  exact ⟨encodedAddress, hdecode, hexact, hleft, hle, henough⟩

/-- The theorem at the page that has been told of half of the bitcoin, and says the other half
remains. -/
theorem shown_remaining_halfBitcoin :
    ∃ id invoice, (sentOn halfPage).location = .invoice id ∧
      (sentDeployment halfBitcoin).server.invoices id = some invoice ∧
      (id ∈ ({"m"} : Set String) → 0 < invoice.digitalValue.toInt →
        invoice.digitalValue.toInt ≤ 2 ^ 53 →
        ∃ encodedAddress, plainCodec.decodeAddress id = .ok encodedAddress ∧
          Float64.ofRat (50000000 : Int64).toInt = .finite (50000000 : Int64).toInt ∧
          0 < (50000000 : Int64).toInt ∧
          (50000000 : Int64).toInt ≤ invoice.digitalValue.toInt ∧
          invoice.digitalValue.toInt ≤ (50000000 : Int64).toInt +
            plainCodec.received (plainCodec.encodeAddress encodedAddress)
              ((sentDeployment halfBitcoin).chain.drop
                ((sentDeployment halfBitcoin).createdAt id))) :=
  shown_remaining (i := ()) unaryAddress_injective.injOn (fun i _ => unaryAddress_segment i)
    (by simp) (by simp [outputs]) polled_halfBitcoin (by decide +kernel) rfl rfl
    (show halfPage.receipt = some newReceipt by decide +kernel) (by decide +kernel)

/-- **A document that was sent on is at an invoice that exists,** in every run in which no two
derivations clash: the server finds it there as it is now. -/
theorem redirected_exists (hinj : Set.InjOn childAddress (Set.Iio (2 ^ 31)))
    (hseg : ∀ i < 2 ^ 31, Segment (childAddress i))
    (hr : Run (Step Key b codec xpub childAddress ∅) (start ι xpub chain) ls w)
    (hi : w.client i = some doc) (he : doc.app.error = none) (hredirect : doc.app.redirect = true) :
    ∃ response, doc.view = .showInvoice response.invoiceId ∧
      getInvoice w.server.server response.invoiceId = .ok response := by
  have hsafe := run_safe hinj hseg (fun _ h => absurd h (Set.notMem_empty _))
    (fun _ h => absurd h (Set.notMem_empty _)) hr
  obtain ⟨id, hl, hledger⟩ := (truthful_of_run hinj hseg hr hi).redirected hredirect he
  obtain ⟨invoice, hinvoice⟩ := Option.ne_none_iff_exists'.1 hledger
  obtain ⟨rfl, -⟩ := hsafe.server.handled.ledger id invoice hinvoice
  exact ⟨⟨invoice.fiatValue, invoice.digitalValue, invoice.expiry, invoice.invoiceID⟩,
    Document.view_eq_showInvoice_iff.2 ⟨he, hl⟩, getInvoice_of_some hinvoice⟩

/-- The theorem at the document of the new invoice, which its form has sent on. -/
theorem redirected_exists_newInvoice :
    ∃ response, (sentOn newPage).view = .showInvoice response.invoiceId ∧
      getInvoice received.server.server response.invoiceId = .ok response :=
  redirected_exists (i := ()) unaryAddress_injective.injOn (fun i _ => unaryAddress_segment i)
    received_run (by decide +kernel) rfl rfl

end Shown

end Service
end BitcoinInvoice
