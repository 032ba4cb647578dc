/-
# The data of the invoice server

`server/server/api/models.go`, the `Server` of `api.go` and the messages of
`protobuf/invoice.proto`, with what the handlers ask of code outside the
repository: the price feed (`net/http`), key derivation (`hdkeychain`) and the
node (`BitcoinRPC`).  Each of these is a record of the answers it gives, and a
call carries the records it is answered by, so nothing is assumed of them here.

The ledger `Invoices` is a Go map.  Its entries are pointers, but no handler
writes through one, so it is modelled as a map of values.
-/

import BitcoinInvoice.Go.Outcome
import BitcoinInvoice.Go.Float64
import Mathlib.Logic.Function.Basic

namespace BitcoinInvoice

/-- `Invoice`, an entry of the ledger. -/
structure Invoice where
  digitalValue : Int64
  fiatValue : Int32
  expiry : Int64
  invoiceID : String
  deriving DecidableEq

/-- `InvoiceResponse`, the answer of `CreateInvoice` and `GetInvoice`. -/
structure InvoiceResponse where
  fiatValue : Int32
  digitalValue : Int64
  expiry : Int64
  invoiceId : String
  deriving DecidableEq

/-- The statuses `CheckInvoice` writes into its answer. -/
inductive Status where
  | expired
  | paid
  | unpaid
  | partiallyPaid
  | overPaid
  deriving DecidableEq

/-- The text of a status, as it goes over the wire. -/
def Status.text : Status → String
  | expired => "expired"
  | paid => "paid"
  | unpaid => "unpaid"
  | partiallyPaid => "partially_paid"
  | overPaid => "over_paid"

/-- `InvoiceCheckResponse`, the answer of `CheckInvoice`. -/
structure InvoiceCheckResponse where
  status : Status
  digitalValueRemaining : Int64
  deriving DecidableEq

/-- `Server`, but for `Bitcoin`: a call carries the node it is answered by. -/
structure Server where
  derivationIndex : UInt32
  xpub : String
  invoices : String → Option Invoice

/-- The state `main` serves from, for the extended public key `xpub`. -/
def Server.start (xpub : String) : Server where
  derivationIndex := 0
  xpub := xpub
  invoices := fun _ => none

/-- The node, as the handlers see it. -/
structure BitcoinRPC where
  getReceivedAmount : String → Outcome Int64
  isValidAddress : String → Bool

/-- A node that accepts every address and has received `amount` for it. -/
def BitcoinRPC.constant (amount : Int64) : BitcoinRPC where
  getReceivedAmount _ := .ok amount
  isValidAddress _ := true

/-- `hdkeychain`: parsing an extended key, deriving its child at an index, and
the address of a key on the test network, printed. -/
structure Keychain (Key : Type) where
  newKeyFromString : String → Except String Key
  child : Key → UInt32 → Except String Key
  address : Key → Except String String

/-- An HTTP answer: its status line, the characters of the complete body, the
part of them that arrives, and the error reading ended in, if any. -/
structure Response where
  status : String
  body : List Char
  delivered : List Char
  readErr : Option String
  delivers : delivered <+: body

/-- The answer broke off before the end of its body. -/
def Response.BrokeOff (resp : Response) : Prop := resp.delivered ≠ resp.body

/-- `ioutil.ReadAll(resp.Body)`. -/
def Response.readAll (resp : Response) : List Char × Option String := (resp.delivered, resp.readErr)

/-- `net/http`: building the request of `getPrice`, and the answer to a URL. -/
structure HttpClient where
  newRequest : Except String Unit
  clientDo : String → Except String Response

/-- A feed that answers every query with all of `body`. -/
def HttpClient.constant (body : List Char) : HttpClient where
  newRequest := .ok ()
  clientDo _ := .ok ⟨"200 OK", body, body, none, List.prefix_rfl⟩

/-- What one call of `CreateInvoice` is answered by: the price feed, the choice
of the implementation for a conversion to `int64` that does not fit, the clock,
and key derivation. -/
structure CreateEnv (Key : Type) where
  client : HttpClient
  convert : Float64 → Int64
  now : Time
  keychain : Keychain Key

end BitcoinInvoice
