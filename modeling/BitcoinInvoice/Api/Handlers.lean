/-
# The handlers

`CreateInvoice`, `CheckInvoice` and `GetInvoice` of `server/server/api/api.go`.
`CreateInvoice` is the only one that writes to the server: it takes and returns
the state explicitly, so what an error leaves behind is for the proofs to say.
`createInvoice_cases` says all a call can do: it issues one invoice, or it
returns an error and leaves the server as it was.

`CheckInvoice` returns a pointer that starts as nil, so its answer is an
`Option`, and it reads the ledger twice, the second time through a pointer.
-/

import BitcoinInvoice.Api.Price
import BitcoinInvoice.Api.Tolerance

namespace BitcoinInvoice

variable {Key : Type}

/-- The address of the child of `xpub` at `index`: what `deriveAddress` does
before it increments the index. -/
def deriveChild (keychain : Keychain Key) (xpub : String) (index : UInt32) :
    Except String String :=
  match keychain.newKeyFromString xpub with
  | .error _ => .error ("problem creating keychain for " ++ xpub)
  | .ok extKey =>
      match keychain.child extKey index with
      | .error _ => .error ("problem creating child for " ++ xpub ++ " at index " ++ toString index)
      | .ok extPubKey =>
          match keychain.address extPubKey with
          | .error _ =>
              .error ("problem creating address for " ++ xpub ++ " at index " ++ toString index)
          | .ok address => .ok address

/-- `deriveAddress`. -/
def deriveAddress (keychain : Keychain Key) (s : Server) : Except String String × Server :=
  match deriveChild keychain s.xpub s.derivationIndex with
  | .error e => (.error e, s)
  | .ok address => (.ok address, { s with derivationIndex := s.derivationIndex + 1 })

/-- `getExpiry`: fifteen minutes from `now`. -/
def getExpiry (now : Time) : Int64 := unix (now.ns + minute * 15)

/-- `createInvoiceResponseProtobuf`. -/
def createInvoiceResponseProtobuf (fiatValue : Int32) (digitalValue : Int64) (expiry : Int64)
    (invoiceID : String) : InvoiceResponse where
  fiatValue := fiatValue
  digitalValue := digitalValue
  expiry := expiry
  invoiceId := invoiceID

/-- `s.Invoices[address] = &Invoice{…}`. -/
def Server.store (s : Server) (address : String) (invoice : Invoice) : Server :=
  { s with invoices := Function.update s.invoices address (some invoice) }

/-- `CreateInvoice`. -/
def createInvoice (env : CreateEnv Key) (s : Server) (value : Int32) :
    Except String InvoiceResponse × Server :=
  if value ≤ 0 then (.error "invalid invoice value", s)
  else
    match getPrice env.client env.convert value with
    | .error e => (.error e, s)
    | .ok digitalValue =>
        let expiry := getExpiry env.now
        match deriveAddress env.keychain s with
        | (.error e, s) => (.error e, s)
        | (.ok address, s) =>
            (.ok (createInvoiceResponseProtobuf value digitalValue expiry address),
              s.store address
                { digitalValue := digitalValue, fiatValue := value, expiry := expiry,
                  invoiceID := address })

/-- `createInvoiceCheckResponseProtobuf`. -/
def createInvoiceCheckResponseProtobuf (status : Status) (amountToPay : Int64) :
    InvoiceCheckResponse where
  status := status
  digitalValueRemaining := amountToPay

/-- The chain of branches at the end of `CheckInvoice`, which has no `else`, for an
allowed interval of any size. -/
def branches (allowedInterval amountToPay amountPaid : Int64) : Option InvoiceCheckResponse :=
  if amountPaid ≤ amountToPay + allowedInterval ∧ amountPaid ≥ amountToPay - allowedInterval then
    some (createInvoiceCheckResponseProtobuf .paid 0)
  else if amountPaid = 0 then some (createInvoiceCheckResponseProtobuf .unpaid amountToPay)
  else if amountPaid < amountToPay - allowedInterval then
    some (createInvoiceCheckResponseProtobuf .partiallyPaid (amountToPay - amountPaid))
  else if amountPaid > amountToPay + allowedInterval then
    some (createInvoiceCheckResponseProtobuf .overPaid 0)
  else none

/-- `statusResponse`, where the node was asked: the chain with the interval the code
computes from the amount. -/
def statusResponse (amountToPay amountPaid : Int64) : Option InvoiceCheckResponse :=
  branches (allowedInterval amountToPay) amountToPay amountPaid

/-- **The chain needs no `else`.**  Some branch is taken for any two amounts, whatever the
interval is and however the edges `amountToPay ± allowedInterval` wrap: an amount that is
not below one edge and not above the other lies between them. -/
theorem branches_eq_some (allowedInterval amountToPay amountPaid : Int64) :
    ∃ r, branches allowedInterval amountToPay amountPaid = some r := by
  unfold branches
  generalize amountToPay - allowedInterval = low
  generalize amountToPay + allowedInterval = high
  simp only [ge_iff_le, gt_iff_lt, Int64.le_iff_toInt_le, Int64.lt_iff_toInt_lt]
  split_ifs
  · exact ⟨_, rfl⟩
  · exact ⟨_, rfl⟩
  · exact ⟨_, rfl⟩
  · exact ⟨_, rfl⟩
  · exfalso
    omega

/-- `CheckInvoice`. -/
def checkInvoice (bitcoin : BitcoinRPC) (now : Time) (s : Server) (invoiceId : String) :
    Outcome (Option InvoiceCheckResponse) :=
  if !bitcoin.isValidAddress invoiceId then .error ("could not invoice for " ++ invoiceId)
  else
    match s.invoices invoiceId with
    | none => .error ("could not invoice for " ++ invoiceId)
    | some invoice =>
        -- `s.Invoices[in.InvoiceId].Expiry` looks the invoice up again
        match s.invoices invoiceId with
        | none => .nilDereference
        | some again =>
            if unix now.ns > again.expiry then
              .ok (some (createInvoiceCheckResponseProtobuf .expired 0))
            else
              match bitcoin.getReceivedAmount invoiceId with
              | .ok amountPaid => .ok (statusResponse invoice.digitalValue amountPaid)
              | .error _ => .error ("could not check balance for " ++ invoiceId)
              | .fatal message => .fatal message
              | .nilDereference => .nilDereference

/-- `GetInvoice`. -/
def getInvoice (s : Server) (invoiceId : String) : Except String InvoiceResponse :=
  match s.invoices invoiceId with
  | none => .error ("cannot find invoice for " ++ invoiceId)
  | some invoice =>
      .ok { fiatValue := invoice.fiatValue, digitalValue := invoice.digitalValue,
            expiry := invoice.expiry, invoiceId := invoice.invoiceID }

/-! ### What a call of `CreateInvoice` can do -/

/-- The entry of the ledger a response goes with. -/
def InvoiceResponse.entry (r : InvoiceResponse) : Invoice where
  digitalValue := r.digitalValue
  fiatValue := r.fiatValue
  expiry := r.expiry
  invoiceID := r.invoiceId

/-- The server after it has issued the invoice of `r`. -/
def Server.issue (s : Server) (r : InvoiceResponse) : Server where
  derivationIndex := s.derivationIndex + 1
  xpub := s.xpub
  invoices := Function.update s.invoices r.invoiceId (some r.entry)

/-- The entry of a new invoice is in the ledger under its id, whatever was there before. -/
@[simp]
theorem Server.issue_invoices_self (s : Server) (r : InvoiceResponse) :
    (s.issue r).invoices r.invoiceId = some r.entry := by
  simp [Server.issue]

/-- A new invoice leaves the entries under other ids as they are. -/
theorem Server.issue_invoices_of_ne (s : Server) {r : InvoiceResponse} {id : String}
    (h : id ≠ r.invoiceId) : (s.issue r).invoices id = s.invoices id := by
  simp [Server.issue, h]

/-- The invoice of `r` comes from the price, the clock and the key derivation
this call was answered by. -/
structure Creates (env : CreateEnv Key) (s : Server) (value : Int32) (r : InvoiceResponse) :
    Prop where
  positive : 0 < value
  fiat : r.fiatValue = value
  price : getPrice env.client env.convert value = .ok r.digitalValue
  expiry : r.expiry = getExpiry env.now
  address : deriveChild env.keychain s.xpub s.derivationIndex = .ok r.invoiceId

/-- **A call of `CreateInvoice` issues one invoice, or changes nothing.** Its error paths all come
before the index is incremented, so a failed call leaves the server as it was. -/
theorem createInvoice_cases (env : CreateEnv Key) (s : Server) (value : Int32) :
    (∃ r, Creates env s value r ∧ createInvoice env s value = (.ok r, s.issue r)) ∨
      ∃ e, createInvoice env s value = (.error e, s) := by
  unfold createInvoice
  by_cases hv : value ≤ 0
  · exact Or.inr ⟨_, if_pos hv⟩
  rw [if_neg hv]
  cases hp : getPrice env.client env.convert value with
  | error e => exact Or.inr ⟨e, rfl⟩
  | ok digitalValue =>
      cases ha : deriveChild env.keychain s.xpub s.derivationIndex with
      | error e => exact Or.inr ⟨e, by simp [deriveAddress, ha]⟩
      | ok address =>
          refine Or.inl ⟨⟨value, digitalValue, getExpiry env.now, address⟩, ?_, ?_⟩
          · exact ⟨Int32.not_le.1 hv, rfl, hp, rfl, ha⟩
          · simp [deriveAddress, ha, Server.store, Server.issue, createInvoiceResponseProtobuf,
              InvoiceResponse.entry]

/-- A call that creates an invoice succeeds with it: the conditions of `Creates` are all that the
handler tests. -/
theorem createInvoice_of_creates {env : CreateEnv Key} {s : Server} {value : Int32}
    {r : InvoiceResponse} (h : Creates env s value r) :
    createInvoice env s value = (.ok r, s.issue r) := by
  obtain ⟨hv, rfl, hp, hx, ha⟩ := h
  unfold createInvoice
  rw [if_neg (Int32.not_le.2 hv), hp]
  simp [deriveAddress, ha, Server.store, Server.issue, createInvoiceResponseProtobuf,
    InvoiceResponse.entry, ← hx]

/-! ### What `CheckInvoice` and `GetInvoice` answer -/

/-- A check of an id that is not in the ledger is an error with that id in its text, whether the
address is valid or not. -/
theorem checkInvoice_of_not_issued {bitcoin : BitcoinRPC} {now : Time} {s : Server} {id : String}
    (h : s.invoices id = none) :
    checkInvoice bitcoin now s id = .error ("could not invoice for " ++ id) := by
  simp [checkInvoice, h]

/-- A check after the expiry answers `expired` with nothing remaining, and does not ask the
node. -/
theorem checkInvoice_of_expired {bitcoin : BitcoinRPC} {now : Time} {s : Server} {id : String}
    {invoice : Invoice} (hv : bitcoin.isValidAddress id = true) (h : s.invoices id = some invoice)
    (hx : invoice.expiry < unix now.ns) :
    checkInvoice bitcoin now s id = .ok (some (createInvoiceCheckResponseProtobuf .expired 0)) := by
  simp [checkInvoice, hv, h, hx]

/-- The node decides the answer for an invoice that is issued and unexpired: the total it reports
is compared to the amount, or its error is passed on. -/
theorem checkInvoice_of_unexpired {bitcoin : BitcoinRPC} {now : Time} {s : Server} {id : String}
    {invoice : Invoice} (hv : bitcoin.isValidAddress id = true) (h : s.invoices id = some invoice)
    (hx : unix now.ns ≤ invoice.expiry) :
    checkInvoice bitcoin now s id =
      match bitcoin.getReceivedAmount id with
      | .ok amountPaid => .ok (statusResponse invoice.digitalValue amountPaid)
      | .error _ => .error ("could not check balance for " ++ id)
      | .fatal message => .fatal message
      | .nilDereference => .nilDereference := by
  simp [checkInvoice, hv, h, Int64.not_lt.2 hx]

/-- A check before the expiry, of an address for which the node answers, gives the status of the
amount received. -/
theorem checkInvoice_of_received {bitcoin : BitcoinRPC} {now : Time} {s : Server} {id : String}
    {invoice : Invoice} {amountPaid : Int64} (hv : bitcoin.isValidAddress id = true)
    (h : s.invoices id = some invoice) (hx : unix now.ns ≤ invoice.expiry)
    (hr : bitcoin.getReceivedAmount id = .ok amountPaid) :
    checkInvoice bitcoin now s id = .ok (statusResponse invoice.digitalValue amountPaid) := by
  rw [checkInvoice_of_unexpired hv h hx, hr]

/-- What the node says about one address is all that a check of it depends on. -/
theorem checkInvoice_congr {bitcoin bitcoin' : BitcoinRPC} {id : String}
    (hv : bitcoin.isValidAddress id = bitcoin'.isValidAddress id)
    (hr : bitcoin.getReceivedAmount id = bitcoin'.getReceivedAmount id) (now : Time) (s : Server) :
    checkInvoice bitcoin now s id = checkInvoice bitcoin' now s id := by
  simp [checkInvoice, hv, hr]

/-- **Every answer of `CheckInvoice` is about an issued invoice:** it is `expired`
after the expiry, and up to it the status of the amount the node reports. -/
theorem checkInvoice_eq_ok {bitcoin : BitcoinRPC} {now : Time} {s : Server} {id : String}
    {r : Option InvoiceCheckResponse} (h : checkInvoice bitcoin now s id = .ok r) :
    ∃ invoice, s.invoices id = some invoice ∧
      ((invoice.expiry < unix now.ns ∧
          r = some (createInvoiceCheckResponseProtobuf .expired 0)) ∨
        (unix now.ns ≤ invoice.expiry ∧ ∃ amountPaid,
          bitcoin.getReceivedAmount id = .ok amountPaid ∧
            r = statusResponse invoice.digitalValue amountPaid)) := by
  have hv : bitcoin.isValidAddress id = true := by
    by_contra hv
    rw [Bool.not_eq_true] at hv
    simp [checkInvoice, hv] at h
  cases hi : s.invoices id with
  | none => simp [checkInvoice_of_not_issued hi] at h
  | some invoice =>
      refine ⟨invoice, rfl, ?_⟩
      by_cases hx : invoice.expiry < unix now.ns
      · rw [checkInvoice_of_expired hv hi hx] at h
        exact Or.inl ⟨hx, (Outcome.ok.inj h).symm⟩
      · rw [checkInvoice_of_unexpired hv hi (Int64.not_lt.1 hx)] at h
        cases hr : bitcoin.getReceivedAmount id <;> rw [hr] at h <;> cases h
        exact Or.inr ⟨Int64.not_lt.1 hx, _, rfl, rfl⟩

/-- `GetInvoice` answers with the entry of the ledger, which has all the fields of a response. -/
theorem getInvoice_of_some {s : Server} {r : InvoiceResponse} {id : String}
    (h : s.invoices id = some r.entry) : getInvoice s id = .ok r := by
  simp [getInvoice, h, InvoiceResponse.entry]

/-- What `GetInvoice` answers is in the ledger under the id it was asked for, with the same
amounts and expiry. -/
theorem some_of_getInvoice {s : Server} {r : InvoiceResponse} {id : String}
    (h : getInvoice s id = .ok r) : s.invoices id = some r.entry := by
  cases hi : s.invoices id with
  | none => simp [getInvoice, hi] at h
  | some invoice =>
      simp only [getInvoice, hi] at h
      obtain rfl := Except.ok.inj h
      rfl

end BitcoinInvoice
