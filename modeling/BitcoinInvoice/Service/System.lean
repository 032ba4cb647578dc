/-
# The service and its browsers

The deployment of the server and the documents of all browsers, with the messages between
them: calls overtake one another, are lost or fail, their handlers take turns on the one
server without a lock, money arrives in between, and any number of documents is open at any
time.  The server is one process throughout, which a crash or a restart would end.

What a run is assumed to do is in its guard.  No derivation clashes with another one
(`Separated`), always; and of the invoices in `watched` it is asked besides that their
addresses are unused when they are created, that no output lists one of them twice, and that
the node a check of theirs asks knows the chain (`Orderly`, `PaysOnce`).  Where `watched` is
empty nothing is asked of payments and nodes at all.

Every answer says something true of the server that gave it (`says_of_turn`), and what
happens later strikes nothing from the books (`invariant_turn`, `invariant_pay`).  So by the
rule for clients of one server the documents are truthful in every run (`run_safe`).
-/

import BitcoinInvoice.Api.Forward
import BitcoinInvoice.Deployment
import BitcoinInvoice.Service.Turns

namespace BitcoinInvoice

open Transition
open Network (Net Label Stable Safe Permits Alone turnLabels)

variable {Key Address ι : Type} {codec : Codec Address} {xpub : String} {childAddress : ℕ → String}
  {watched : Set String}

/-- What may arrive of a reply: the message, and of an error some text.  A nil message
cannot be sent, which is an error as well; a handler that ends the process sends nothing. -/
def Reply.Arrives : Reply → InvoiceClient.Answer → Prop
  | .created (.ok r), a | .got (.ok r), a => a = .invoice r
  | .checked (.ok (some r)), a => a = .checked r
  | .created (.error _), a | .got (.error _), a | .checked (.ok none), a | .checked (.error _), a =>
      ∃ message, a = .error message
  | .checked (.fatal _), _ | .checked .nilDereference, _ => False

/-- A status that is settled is not `expired`, so a check that gives it has asked the node. -/
theorem InvoiceCheckResponse.Settled.ne_expired {r : InvoiceCheckResponse} (h : r.Settled) :
    r.status ≠ .expired := by
  rcases h with h | h <;> simp [h]

/-- What a status says where `due` was asked for and `received` has arrived: a settled one
that this is enough but for a fiftieth, where the tolerance is exact, and one that is open
that what remains makes it enough. -/
structure InvoiceCheckResponse.BorneOut (due received : ℤ) (r : InvoiceCheckResponse) : Prop where
  settled : r.Settled → 0 < due → due ≤ 2 ^ 53 → due - due / 50 ≤ received
  remaining : r.status = .unpaid ∨ r.status = .partiallyPaid → 0 < due →
    0 < r.digitalValueRemaining.toInt ∧ r.digitalValueRemaining.toInt ≤ due ∧
      due ≤ r.digitalValueRemaining.toInt + received

/-- More money bears out what less did: both bounds on what has been received are lower
bounds, so a status stays borne out while further payments come in. -/
theorem InvoiceCheckResponse.BorneOut.mono {due received received' : ℤ} {r : InvoiceCheckResponse}
    (h : r.BorneOut due received) (hle : received ≤ received') : r.BorneOut due received' where
  settled hs hpos hmax := (h.settled hs hpos hmax).trans hle
  remaining ho hpos := by
    obtain ⟨hleft, hdue, henough⟩ := h.remaining ho hpos
    exact ⟨hleft, hdue, by omega⟩

/-- **The four branches** say what is so of the amount received: the settled ones lie above
the lower edge of the tolerance, and in the open ones what remains is the difference to the
amount due, which does not wrap. -/
theorem borneOut_of_statusResponse {amountToPay amountPaid : Int64} {received : ℤ}
    {r : InvoiceCheckResponse} (hr : statusResponse amountToPay amountPaid = some r)
    (h0 : 0 ≤ amountPaid.toInt) (hle : amountPaid.toInt ≤ received) :
    r.BorneOut amountToPay.toInt received := by
  have hbranch := branch_of_statusResponse hr
  refine ⟨fun hs hpos hmax => ?_, fun ho hpos => ?_⟩
  · have hlow := (settled_iff.1 ⟨r, hr, hs⟩).1
    have htol := allowedInterval_toInt hpos.le hmax
    rw [Int64.le_iff_toInt_le, Int64.toInt_sub_of_bounds (by omega) (by omega), htol] at hlow
    omega
  · have hlow := low_le hpos.le
    have hup := amountToPay.toInt_lt
    have hsub : (amountToPay - amountPaid).toInt = amountToPay.toInt - amountPaid.toInt :=
      Int64.toInt_sub_of_bounds (by have := amountPaid.toInt_lt; omega) (by omega)
    cases hbranch with
    | paid below above => rcases ho with ho | ho <;> cases ho
    | unpaid nothing off => exact ⟨hpos, le_rfl, le_add_of_nonneg_right (h0.trans hle)⟩
    | partiallyPaid some below =>
        simp only [hsub]
        omega
    | overPaid some below above => rcases ho with ho | ho <;> cases ho

/-- The output lists the address of the invoice at most once. -/
def Codec.CountsOnce (codec : Codec Address) (id : String) (vout : TxOut) : Prop :=
  ∀ encodedAddress, codec.decodeAddress id = .ok encodedAddress →
    (codec.addresses vout).count (codec.encodeAddress encodedAddress) ≤ 1

/-- The deployment after a turn of `j` has led to the server `s`.  The invoice is created when
its entry is stored. -/
def Deployment.after (d : Deployment) (j : Job) (s : Server) : Deployment where
  server := s
  chain := d.chain
  createdAt :=
    match j.stores with
    | some r => Function.update d.createdAt r.invoiceId d.chain.length
    | none => d.createdAt

/-- A turn that stores nothing leaves the marks: when an invoice was created is when its entry was
stored. -/
theorem Deployment.after_of_stores_eq_none {d : Deployment} {j : Job} (h : j.stores = none)
    (s : Server) : d.after j s = { d with server := s } := by
  rw [Deployment.after, h]

namespace Service

/-- The handlers of the deployment, whose replies are what arrives of them. -/
def handlers (Key : Type) (codec : Codec Address) :
    Network.Handlers Deployment InvoiceClient.Request Job (World Key Address)
      InvoiceClient.Answer where
  begins := Job.begins
  request := Job.request
  turn d j world out d' :=
    Sum.LiftRel Eq Reply.Arrives (j.turn codec world d.server).1 out ∧
      d' = d.after j (j.turn codec world d.server).2
  request_begins q := by cases q <;> rfl
  request_turn d j world j' d' h := by
    obtain ⟨hout, -⟩ := h
    cases hj : (j.turn codec world d.server).1 with
    | inl j'' =>
        rw [hj, Sum.liftRel_inl_inl] at hout
        exact hout ▸ Job.request_turn hj
    | inr reply =>
        rw [hj] at hout
        cases hout

/-- A valid transaction enters the chain. -/
def Pay (d : Deployment) (tx : MsgTx) (d' : Deployment) : Prop :=
  tx.Valid ∧ d' = { d with chain := d.chain ++ [tx] }

/-- What is asked of a turn of `j` beside the handlers `js`: it does not clash with them, the
address of a watched invoice is unused when the invoice is created, and the node knows the
chain when it is asked for one. -/
structure Orderly (Key : Type) (codec : Codec Address) (xpub : String) (childAddress : ℕ → String)
    (watched : Set String) (d : Deployment) (js : Multiset Job) (j : Job)
    (world : World Key Address) : Prop where
  separated : Separated xpub childAddress d.server js j world.env
  fresh : ∀ r, j.stores = some r → r.invoiceId ∈ watched → codec.Unused r.invoiceId d.chain
  honest : ∀ id ∈ watched, ∀ invoice, j = .checkInvoice id (.unexpired invoice) →
    world.search.Honest d.chain

/-- What is asked of a payment: none of its outputs lists a watched address twice. -/
def PaysOnce (codec : Codec Address) (watched : Set String) (_ : Deployment) (tx : MsgTx) : Prop :=
  ∀ id ∈ watched, ∀ vout ∈ tx.txOut, codec.CountsOnce id vout

/-- The documents, the deployment, and what is between them. -/
abbrev State (ι : Type) :=
  Net ι (Option Document) Deployment InvoiceClient.Request Job InvoiceClient.Answer

/-- What happens in the system. -/
abbrev Happening (Key Address ι : Type) :=
  Label ι Gesture InvoiceClient.Request Job (World Key Address) InvoiceClient.Answer String MsgTx

/-- One step of the system. -/
def Step [DecidableEq ι] (Key : Type) (b : Browser) (codec : Codec Address) (xpub : String)
    (childAddress : ℕ → String) (watched : Set String) :
    State ι → Happening Key Address ι → State ι → Prop :=
  Guarded (Permits (Orderly Key codec xpub childAddress watched) (PaysOnce codec watched))
    (Network.Step (Document.react b) (handlers Key codec) Pay)

/-- Nothing is loaded, and the server has just started. -/
def start (ι : Type) (xpub : String) (chain : List MsgTx) : State ι :=
  .start (fun _ => none) (Deployment.start xpub chain)

/-- What is true of the server and its handlers. -/
structure Invariant (codec : Codec Address) (xpub : String) (childAddress : ℕ → String)
    (watched : Set String) (d : Deployment) (js : Multiset Job) : Prop where
  handled : Handled xpub childAddress d.server js
  paidSince : ∀ id ∈ watched, PaidSince codec id d
  once : ∀ id ∈ watched, ∀ vout ∈ outputs d.chain, codec.CountsOnce id vout

/-- The books: a status of a watched invoice that is not `expired` is borne out by what its
address has received since the invoice was created. -/
def books (codec : Codec Address) (watched : Set String) (d : Deployment) : Books where
  ledger := d.server.invoices
  warrants id invoice status := id ∈ watched → status.status ≠ .expired →
    ∃ encodedAddress, codec.decodeAddress id = .ok encodedAddress ∧
      status.BorneOut invoice.digitalValue.toInt
        (codec.received (codec.encodeAddress encodedAddress) (d.chain.drop (d.createdAt id)))

variable {d d' : Deployment} {j : Job} {js : Multiset Job} {world : World Key Address}

/-- **A status is borne out** by what has arrived since the invoice was created, if the node
that was asked for it knows the chain: what it counts is a part of the chain, and what came
before the invoice is nothing. -/
theorem warrants_of_received (h : Invariant codec xpub childAddress watched d js)
    {id : String} {invoice : Invoice} (hi : d.server.invoices id = some invoice)
    {search : Search Address} (hs : id ∈ watched → search.Honest d.chain) {paid : Int64}
    (hpaid : getReceivedAmount codec search id = .ok paid) {r : InvoiceCheckResponse}
    (hr : statusResponse invoice.digitalValue paid = some r) :
    (books codec watched d).warrants id invoice r := by
  intro hw _
  have hsince := h.paidSince id hw
  obtain ⟨encodedAddress, hdecode⟩ := decodes_of_getReceivedAmount hpaid
  obtain ⟨txs, hsub, hint⟩ := exists_received hdecode (hs hw) hsince.valid
    (fun vout hv => h.once id hw vout hv encodedAddress hdecode) hpaid
  have hnonneg : 0 ≤ codec.received (codec.encodeAddress encodedAddress) txs :=
    Codec.received_nonneg fun tx htx => hsince.valid tx (hsub.subset htx)
  have hle : codec.received (codec.encodeAddress encodedAddress) txs ≤
      codec.received (codec.encodeAddress encodedAddress) d.chain :=
    Codec.received_le_of_sublist hsince.valid hsub
  refine ⟨encodedAddress, hdecode, ?_⟩
  rw [hsince.received_drop hi hdecode]
  exact borneOut_of_statusResponse hr (hint ▸ hnonneg) (hint ▸ hle)

/-- A check that replies has found its invoice in the ledger, and what it says is borne out. -/
theorem says_of_check (h : Invariant codec xpub childAddress watched d js) {id : String}
    {p : CheckPoint} (hs : (Job.checkInvoice id p).Sound childAddress d.server)
    (ho : Orderly Key codec xpub childAddress watched d js (.checkInvoice id p) world)
    {result : Outcome (Option InvoiceCheckResponse)}
    (hr : checkTurn (bitcoinrpc codec world.search) world.env.now d.server id p = .inr result)
    {a : InvoiceClient.Answer} (ha : (Reply.checked result).Arrives a) :
    InvoiceClient.Says (books codec watched d) (.checkInvoice id) a := by
  have herror : ∀ {m}, result = .error m → InvoiceClient.Says (books codec watched d)
      (.checkInvoice id) a := by
    rintro m rfl
    obtain ⟨message, rfl⟩ := ha
    trivial
  cases p with
  | start =>
      simp only [checkTurn] at hr
      split at hr
      · exact herror (Sum.inr.inj hr).symm
      · cases hi : d.server.invoices id with
        | none =>
            rw [hi] at hr
            exact herror (Sum.inr.inj hr).symm
        | some invoice =>
            rw [hi] at hr
            cases hr
  | found invoice =>
      have hi : d.server.invoices id = some invoice := hs
      simp only [checkTurn, hi] at hr
      split at hr
      · obtain rfl := Sum.inr.inj hr
        obtain rfl : a = .checked ⟨.expired, 0⟩ := ha
        exact ⟨invoice, hi, fun _ hn => absurd rfl hn⟩
      · cases hr
  | unexpired invoice =>
      have hi : d.server.invoices id = some invoice := hs
      have hget : (bitcoinrpc codec world.search).getReceivedAmount id =
          getReceivedAmount codec world.search id := rfl
      simp only [checkTurn, hget] at hr
      cases hpaid : getReceivedAmount codec world.search id with
      | ok paid =>
          rw [hpaid] at hr
          obtain rfl := Sum.inr.inj hr
          obtain ⟨r, hstatus⟩ := statusResponse_eq_some invoice.digitalValue paid
          rw [hstatus] at ha
          obtain rfl : a = .checked r := ha
          exact ⟨invoice, hi, warrants_of_received h hi
            (fun hw => ho.honest id hw invoice rfl) hpaid hstatus⟩
      | error m =>
          rw [hpaid] at hr
          exact herror (Sum.inr.inj hr).symm
      | fatal m | nilDereference =>
          rw [hpaid] at hr
          obtain rfl := Sum.inr.inj hr
          exact ha.elim

/-- **What is answered is true** of the server that answered: an invoice that was created or
looked up is in the ledger as it is there, and a status is borne out. -/
theorem says_of_turn (hseg : ∀ i < 2 ^ 31, Segment (childAddress i))
    (h : Invariant codec xpub childAddress watched d (j ::ₘ js))
    (ho : Orderly Key codec xpub childAddress watched d js j world) {reply : Reply}
    (hr : (j.turn codec world d.server).1 = .inr reply) {a : InvoiceClient.Answer}
    (ha : reply.Arrives a) : InvoiceClient.Says (books codec watched d) j.request a := by
  have hsound := h.handled.sound j (Multiset.mem_cons_self ..)
  cases j with
  | createInvoice value p =>
      cases Job.created_of_turn hr with
      | inl he =>
          obtain ⟨e, rfl⟩ := he
          obtain ⟨message, rfl⟩ := ha
          trivial
      | inr he =>
          rcases he with ⟨r, rfl, rfl⟩ | ⟨result, rfl, rfl⟩
          · obtain rfl : a = .invoice r := ha
            obtain ⟨hfiat, hi⟩ := hsound
            obtain ⟨-, k, hk, hid⟩ := h.handled.ledger _ _ hi
            exact ⟨hfiat, hid ▸ hseg k (hk.trans_le h.handled.bound), hi⟩
          · exact hsound.elim
  | checkInvoice id p =>
      change (checkTurn (bitcoinrpc codec world.search) world.env.now d.server id p).map
        (Job.checkInvoice id) Reply.checked = .inr reply at hr
      cases hc : checkTurn (bitcoinrpc codec world.search) world.env.now d.server id p with
      | inl p' =>
          rw [hc] at hr
          cases hr
      | inr result =>
          rw [hc] at hr
          obtain rfl := Sum.inr.inj hr
          exact says_of_check ⟨h.handled.tail, h.paidSince, h.once⟩ hsound ho hc ha
  | getInvoice id =>
      obtain rfl := Sum.inr.inj hr
      cases hg : getInvoice d.server id with
      | error m =>
          rw [hg] at ha
          obtain ⟨message, rfl⟩ := ha
          trivial
      | ok r =>
          rw [hg] at ha
          obtain rfl : a = .invoice r := ha
          have hi := some_of_getInvoice hg
          exact ⟨(h.handled.ledger _ _ hi).1, hi⟩

/-- **A turn keeps the invariant,** if it does not clash and creates no watched invoice at an
address that has been used, and it strikes nothing from the books. -/
theorem invariant_turn (hinj : Set.InjOn childAddress (Set.Iio (2 ^ 31)))
    (h : Invariant codec xpub childAddress watched d (j ::ₘ js))
    (ho : Orderly Key codec xpub childAddress watched d js j world) {out : Job ⊕ Reply}
    {s' : Server} (ht : j.turn codec world d.server = (out, s')) :
    Invariant codec xpub childAddress watched (d.after j s') (out.elim (· ::ₘ js) fun _ => js) ∧
      (books codec watched d).Extends (books codec watched (d.after j s')) := by
  have hcases := j.turn_cases codec world d.server
  rw [ht] at hcases
  obtain ⟨hhandled, hkept⟩ := h.handled.turn hinj ho.separated hcases
  -- the marks stay where they are, but for the invoice that is stored
  have hmarks : (∀ id ∈ watched, PaidSince codec id (d.after j s')) ∧
      ∀ id, d.server.invoices id ≠ none → (d.after j s').createdAt id = d.createdAt id := by
    have hquiet : j.stores = none → s'.invoices = d.server.invoices →
        (∀ id ∈ watched, PaidSince codec id (d.after j s')) ∧
          ∀ id, d.server.invoices id ≠ none → (d.after j s').createdAt id = d.createdAt id := by
      intro hj hs
      rw [Deployment.after_of_stores_eq_none hj]
      refine ⟨fun id hw => ?_, fun _ _ => rfl⟩
      have hsince := h.paidSince id hw
      exact ⟨hsince.valid, hsince.bound, fun invoice hi =>
        hsince.unused invoice ((congrFun hs id).symm.trans hi)⟩
    cases hcases with
    | reads _ _ hj _ _ _ => exact hquiet (Job.stores_eq_none hj) rfl
    | replies _ _ hj => exact hquiet (Job.stores_eq_none hj) rfl
    | derives value d x a _ => exact hquiet rfl rfl
    | increments value d x a => exact hquiet rfl rfl
    | stores value d x a =>
        refine ⟨fun id hw => (h.paidSince id hw).create ?_ ?_, fun id hi => ?_⟩
        · rintro rfl
          exact ho.fresh _ rfl hw
        · exact fun id' hid => Function.update_of_ne hid _ _
        · refine Function.update_of_ne ?_ _ _
          rintro rfl
          exact hi (h.handled.sound _ (Multiset.mem_cons_self ..)).2
  refine ⟨⟨hhandled, hmarks.1, h.once⟩, hkept, fun id invoice status hi hold hw hn => ?_⟩
  obtain ⟨encodedAddress, hdecode, hborne⟩ := hold hw hn
  refine ⟨encodedAddress, hdecode, ?_⟩
  show status.BorneOut _ (codec.received _ (d.chain.drop ((d.after j s').createdAt id)))
  rw [hmarks.2 id fun hnone => Option.some_ne_none invoice (hi.symm.trans hnone)]
  exact hborne

/-- A payment keeps the invariant, if it lists no watched address twice, and it strikes
nothing from the books: what has been received since can only grow. -/
theorem invariant_pay (h : Invariant codec xpub childAddress watched d js) {tx : MsgTx}
    (ho : PaysOnce codec watched d tx) (hp : Pay d tx d') :
    Invariant codec xpub childAddress watched d' js ∧
      (books codec watched d).Extends (books codec watched d') := by
  obtain ⟨hvalid, rfl⟩ := hp
  have hpaid : ∀ id ∈ watched, PaidSince codec id { d with chain := d.chain ++ [tx] } :=
    fun id hw => (h.paidSince id hw).pay hvalid
  refine ⟨⟨h.handled, hpaid, fun id hw vout hv => ?_⟩, fun _ _ hi => hi, ?_⟩
  · obtain ⟨tx', htx', hmem⟩ := List.mem_flatMap.1 hv
    rcases List.mem_append.1 htx' with hm | hm
    · exact h.once id hw vout (List.mem_flatMap.2 ⟨tx', hm, hmem⟩)
    · rw [List.mem_singleton.1 hm] at hmem
      exact ho id hw vout hmem
  · intro id invoice status hi hold hw hn
    obtain ⟨encodedAddress, hdecode, hborne⟩ := hold hw hn
    refine ⟨encodedAddress, hdecode, hborne.mono ?_⟩
    show _ ≤ codec.received _ ((d.chain ++ [tx]).drop (d.createdAt id))
    refine Codec.received_le_of_sublist (fun tx' htx' => ?_)
      ((List.sublist_append_left _ _).drop _)
    exact (hpaid id hw).valid tx' (List.mem_of_mem_drop htx')

/-- **The documents are truthful in every run:** the rule for clients of one server applies,
with the books as what the replies are about. -/
theorem stable (Key : Type) (hinj : Set.InjOn childAddress (Set.Iio (2 ^ 31)))
    (hseg : ∀ i < 2 ^ 31, Segment (childAddress i)) (b : Browser) (codec : Codec Address)
    (xpub : String) (watched : Set String) :
    Stable (Document.react b) (handlers Key codec) Pay
      (Orderly Key codec xpub childAddress watched) (PaysOnce codec watched)
      (Invariant codec xpub childAddress watched)
      (fun d d' => (books codec watched d).Extends (books codec watched d'))
      (fun q a d => InvoiceClient.Says (books codec watched d) q a) Document.AsksIf
      (fun k d => Document.TruthfulIf (books codec watched d) k) where
  begins d js q h := ⟨h.handled.begins q, h.paidSince, h.once⟩
  goesOn d js j world j' d' h ho hs := by
    obtain ⟨hout, rfl⟩ := hs
    cases hturn : j.turn codec world d.server with
    | mk out s' =>
        rw [hturn] at hout
        cases out with
        | inl j'' =>
            obtain rfl := Sum.liftRel_inl_inl.1 hout
            exact invariant_turn hinj h ho hturn
        | inr reply => cases hout
  returns d js j world a d' h ho hs := by
    obtain ⟨hout, rfl⟩ := hs
    cases hturn : j.turn codec world d.server with
    | mk out s' =>
        rw [hturn] at hout
        cases out with
        | inl j'' => cases hout
        | inr reply =>
            have ha : reply.Arrives a := Sum.liftRel_inr_inr.1 hout
            obtain ⟨hinv, hext⟩ := invariant_turn hinj h ho hturn
            have hsays := says_of_turn hseg h ho (congrArg Prod.fst hturn) ha
            exact ⟨hinv, hext, hsays.mono hext⟩
  background d js tx d' h ho hp := invariant_pay h ho hp
  fact d d' q a hext h := h.mono hext
  good d d' k hext h := by
    cases k with
    | none => trivial
    | some doc => exact Document.Truthful.mono hext h
  client d k x h hx := (Document.react_sound h hx).1
  keeps d k x q h hx := (Document.react_sound h hx).2.1 q
  sends d k x q h hx := (Document.react_sound h hx).2.2 q

/-- The invariant holds at the start, on any history of valid transactions whose outputs list
no watched address twice; where nothing is watched, on any history at all. -/
theorem invariant_start {chain : List MsgTx} (hvalid : ∀ id ∈ watched, ∀ tx ∈ chain, tx.Valid)
    (honce : ∀ id ∈ watched, ∀ vout ∈ outputs chain, codec.CountsOnce id vout) :
    Invariant codec xpub childAddress watched (Deployment.start xpub chain) 0 :=
  ⟨handled_start, fun id hw => paidSince_start (hvalid id hw), honce⟩

section Run

variable [DecidableEq ι] {b : Browser} {chain : List MsgTx} {w : State ι}
  {ls : List (Happening Key Address ι)} {i : ι} {doc : Document}

/-- The system is safe in every run, from an empty server on: what the documents have made of
their replies, however old these are, holds of the server as it is now. -/
theorem run_safe (hinj : Set.InjOn childAddress (Set.Iio (2 ^ 31)))
    (hseg : ∀ i < 2 ^ 31, Segment (childAddress i))
    (hvalid : ∀ id ∈ watched, ∀ tx ∈ chain, tx.Valid)
    (honce : ∀ id ∈ watched, ∀ vout ∈ outputs chain, codec.CountsOnce id vout)
    (hr : Run (Step Key b codec xpub childAddress watched) (start ι xpub chain) ls w) :
    Safe (handlers Key codec) (Invariant codec xpub childAddress watched)
      (fun q a d => InvoiceClient.Says (books codec watched d) q a) Document.AsksIf
      (fun k d => Document.TruthfulIf (books codec watched d) k) w := by
  refine (stable Key hinj hseg b codec xpub watched).run (Network.safe_start ?_ fun i => ?_) hr
  · exact invariant_start hvalid honce
  · trivial

end Run

/-! ### What can be served -/

section Serve

variable {id : String} {r : InvoiceResponse} {s' : Server} {j' : Job}

/-- The deployment that has issued an invoice. -/
def issuing (d : Deployment) (r : InvoiceResponse) : Deployment where
  server := d.server.issue r
  chain := d.chain
  createdAt := Function.update d.createdAt r.invoiceId d.chain.length

/-- The turns that issue an invoice: the price, the address, the increment, the entry and the
reply. -/
def createTurns (world : World Key Address) (value : Int32) (r : InvoiceResponse) :
    List (Job × World Key Address × (Job ⊕ InvoiceClient.Answer)) :=
  [(.createInvoice value .start, world,
      .inl (.createInvoice value (.priced r.digitalValue r.expiry))),
    (.createInvoice value (.priced r.digitalValue r.expiry), world,
      .inl (.createInvoice value (.derived r.digitalValue r.expiry r.invoiceId))),
    (.createInvoice value (.derived r.digitalValue r.expiry r.invoiceId), world,
      .inl (.createInvoice value (.incremented r.digitalValue r.expiry r.invoiceId))),
    (.createInvoice value (.incremented r.digitalValue r.expiry r.invoiceId), world,
      .inl (.createInvoice value (.stored r))),
    (.createInvoice value (.stored r), world, .inr (.invoice r))]

/-- The one turn that looks an invoice up. -/
def getTurns (world : World Key Address) (id : String) (r : InvoiceResponse) :
    List (Job × World Key Address × (Job ⊕ InvoiceClient.Answer)) :=
  [(.getInvoice id, world, .inr (.invoice r))]

/-- The turns of a check that asks the node. -/
def checkTurns (world : World Key Address) (id : String) (invoice : Invoice)
    (status : InvoiceCheckResponse) :
    List (Job × World Key Address × (Job ⊕ InvoiceClient.Answer)) :=
  [(.checkInvoice id .start, world, .inl (.checkInvoice id (.found invoice))),
    (.checkInvoice id (.found invoice), world, .inl (.checkInvoice id (.unexpired invoice))),
    (.checkInvoice id (.unexpired invoice), world, .inr (.checked status))]

/-- Nothing is asked of a turn that neither derives an address nor stores an entry nor asks
the node. -/
theorem orderly_of_quiet (hp : ∀ value d x, j ≠ .createInvoice value (.priced d x))
    (hs : j.stores = none) (hc : ∀ id invoice, j ≠ .checkInvoice id (.unexpired invoice)) :
    Orderly Key codec xpub childAddress watched d js j world where
  separated := ⟨fun value d x he => absurd he (hp value d x),
    fun value d x _ he => absurd he (hp value d x)⟩
  fresh r he := by
    rw [hs] at he
    cases he
  honest id _ invoice he := absurd he (hc id invoice)

/-- Of the derivation it is asked that it does not clash: no other handler has derived an address
and not incremented the index. -/
theorem orderly_derive {value : Int32} {x y : Int64}
    (hderives : world.env.keychain.Derives xpub childAddress) (hnone : ∀ j' ∈ js, ¬ j'.Pending) :
    Orderly Key codec xpub childAddress watched d js (.createInvoice value (.priced x y))
      world where
  separated := ⟨fun _ _ _ _ => hderives, fun _ _ _ _ _ _ => hnone⟩
  fresh r he := by cases he
  honest id _ invoice he := by cases he

/-- Of the entry it is asked that the address is unused, if it is watched. -/
theorem orderly_store {value : Int32} {x y : Int64} {address : String}
    (hfresh : address ∈ watched → codec.Unused address d.chain) :
    Orderly Key codec xpub childAddress watched d js
      (.createInvoice value (.incremented x y address)) world where
  separated := by
    refine ⟨fun _ _ _ he => ?_, fun _ _ _ _ he => ?_⟩
    · cases he
    · cases he
  fresh r he hw := by
    obtain rfl := Option.some.inj he
    exact hfresh hw
  honest id _ invoice he := by cases he

/-- Of the question to the node it is asked that it knows the chain, if the invoice is
watched. -/
theorem orderly_ask {invoice : Invoice} (hs : id ∈ watched → world.search.Honest d.chain) :
    Orderly Key codec xpub childAddress watched d js (.checkInvoice id (.unexpired invoice))
      world where
  separated := by
    refine ⟨fun _ _ _ he => ?_, fun _ _ _ _ he => ?_⟩
    · cases he
    · cases he
  fresh r he := by cases he
  honest id' hw invoice' he := by
    obtain ⟨rfl, -⟩ := Job.checkInvoice.inj he
    exact hs hw

/-- A turn that goes on, as one of the deployment, where the chain and the marks are carried
along. -/
theorem turn_inl (h : j.turn codec world d.server = (.inl j', s')) :
    (handlers Key codec).turn d j world (.inl j') (d.after j s') := by
  constructor
  · rw [h]
    exact .inl rfl
  · rw [h]

/-- A turn that replies, as one of the deployment, with what arrives of its reply. -/
theorem turn_inr {reply : Reply} {a : InvoiceClient.Answer}
    (h : j.turn codec world d.server = (.inr reply, s')) (ha : reply.Arrives a) :
    (handlers Key codec).turn d j world (.inr a) (d.after j s') := by
  constructor
  · rw [h]
    exact .inr ha
  · rw [h]

/-- **An invoice can be created** where the feed and the key derivation answer and no other
handler holds the next child; the turns of the other handlers may wait. -/
theorem alone_created {value : Int32} (hcreates : Creates world.env d.server value r)
    (hderives : world.env.keychain.Derives xpub childAddress) (hnone : ∀ j' ∈ js, ¬ j'.Pending)
    (hfresh : r.invoiceId ∈ watched → codec.Unused r.invoiceId d.chain) :
    Alone ((handlers Key codec).permitted (Orderly Key codec xpub childAddress watched) js) d
      (.createInvoice value .start) (createTurns world value r) (.invoice r) (issuing d r) := by
  have hr : createInvoiceResponseProtobuf value r.digitalValue r.expiry r.invoiceId = r := by
    rw [← hcreates.fiat]
    rfl
  have hprice : (Job.createInvoice value .start).turn codec world d.server =
      (.inl (.createInvoice value (.priced r.digitalValue r.expiry)), d.server) := by
    have hv : ¬ value ≤ 0 := Int32.not_le.2 hcreates.positive
    simp [Job.turn, Job.atPoint, advance, hv, hcreates.price, hcreates.expiry]
  have hderive : (Job.createInvoice value (.priced r.digitalValue r.expiry)).turn codec world
      d.server = (.inl (.createInvoice value (.derived r.digitalValue r.expiry r.invoiceId)),
        d.server) := by
    simp [Job.turn, Job.atPoint, advance, hcreates.address]
  set d₁ : Deployment :=
    { d with server := { d.server with derivationIndex := d.server.derivationIndex + 1 } } with hd₁
  have hstore : (Job.createInvoice value (.incremented r.digitalValue r.expiry r.invoiceId)).turn
      codec world d₁.server = (.inl (.createInvoice value (.stored r)), d.server.issue r) := by
    rw [← hr]
    rfl
  refine .goesOn d _ world _ d _ _ _ ⟨orderly_of_quiet (by simp) rfl (by simp), turn_inl hprice⟩ ?_
  refine .goesOn d _ world _ d _ _ _ ⟨orderly_derive hderives hnone, turn_inl hderive⟩ ?_
  refine .goesOn d _ world _ d₁ _ _ _ ⟨orderly_of_quiet (by simp) rfl (by simp), turn_inl rfl⟩ ?_
  refine .goesOn d₁ _ world _ (issuing d r) _ _ _ ⟨orderly_store hfresh, turn_inl hstore⟩ ?_
  exact .returns (issuing d r) _ world _ _
    ⟨orderly_of_quiet (by simp) rfl (by simp), turn_inr rfl rfl⟩

/-- **An invoice in the ledger can be had,** by one turn that leaves the deployment alone. -/
theorem alone_got (world : World Key Address) (h : getInvoice d.server id = .ok r) :
    Alone ((handlers Key codec).permitted (Orderly Key codec xpub childAddress watched) js) d
      (.getInvoice id) (getTurns world id r) (.invoice r) d := by
  have hturn : (Job.getInvoice id).turn codec world d.server = (.inr (.got (.ok r)), d.server) := by
    rw [Job.turn, h]
  exact .returns d _ world _ d ⟨orderly_of_quiet (by simp) rfl (by simp), turn_inr hturn rfl⟩

/-- **A status can be had** where the address decodes, the invoice has not expired, and the
node answers for the amount; the turns of the check leave the deployment alone. -/
theorem alone_checked {encodedAddress : Address}
    (hdecode : codec.decodeAddress id = .ok encodedAddress) {invoice : Invoice}
    (hi : d.server.invoices id = some invoice) (hx : unix world.env.now.ns ≤ invoice.expiry)
    (hs : id ∈ watched → world.search.Honest d.chain) {paid : Int64}
    (hpaid : getReceivedAmount codec world.search id = .ok paid) {status : InvoiceCheckResponse}
    (hstatus : statusResponse invoice.digitalValue paid = some status) :
    Alone ((handlers Key codec).permitted (Orderly Key codec xpub childAddress watched) js) d
      (.checkInvoice id .start) (checkTurns world id invoice status) (.checked status) d := by
  have hfound : (Job.checkInvoice id .start).turn codec world d.server =
      (.inl (.checkInvoice id (.found invoice)), d.server) := by
    have hv : (bitcoinrpc codec world.search).isValidAddress id = true := by
      simp [bitcoinrpc, isValidAddress, hdecode]
    simp [Job.turn, checkTurn, hv, hi]
  have hlive : (Job.checkInvoice id (.found invoice)).turn codec world d.server =
      (.inl (.checkInvoice id (.unexpired invoice)), d.server) := by
    simp [Job.turn, checkTurn, hi, Int64.not_lt.2 hx]
  have hasked : (Job.checkInvoice id (.unexpired invoice)).turn codec world d.server =
      (.inr (.checked (.ok (some status))), d.server) := by
    have hget : (bitcoinrpc codec world.search).getReceivedAmount id = .ok paid := hpaid
    simp [Job.turn, checkTurn, hget, hstatus]
  refine .goesOn d _ world _ d _ _ _ ⟨orderly_of_quiet (by simp) rfl (by simp), turn_inl hfound⟩ ?_
  refine .goesOn d _ world _ d _ _ _ ⟨orderly_of_quiet (by simp) rfl (by simp), turn_inl hlive⟩ ?_
  exact .returns d _ world _ d ⟨orderly_ask hs, turn_inr hasked rfl⟩

end Serve

/-! ### One invoice, from the form to the payment -/

/-- An address in unary is a segment of a path: it has a character, and every one is `m`. -/
theorem unaryAddress_segment (i : ℕ) : Segment (unaryAddress i) := by
  refine ⟨fun h => ?_, fun c hc => ?_⟩
  · have hlen := congrArg (fun s => s.toList.length) h
    simp [unaryAddress] at hlen
  · have hm : c = 'm' := by simpa [unaryAddress] using hc
    rw [hm]
    rfl

/-- The system with one document. -/
abbrev OneDocument := State Unit

/-- What happens to it. -/
abbrev Incident := Happening UInt32 String Unit

/-- One step of it, with addresses as unary numerals. -/
def OneStep (watched : Set String) : OneDocument → Incident → OneDocument → Prop :=
  Step UInt32 plainBrowser plainCodec "tpub" unaryAddress watched

/-- The document sees to it. -/
def OneDocument.input (w : OneDocument)
    (x : Network.Input Gesture InvoiceClient.Request InvoiceClient.Answer String) : OneDocument :=
  w.handle (Document.react plainBrowser) (handlers UInt32 plainCodec) () x

/-- The one request in flight is answered. -/
def OneDocument.exchange (w : OneDocument) (q : InvoiceClient.Request) (a : InvoiceClient.Answer)
    (d : Deployment) : OneDocument :=
  w.answered (Document.react plainBrowser) (handlers UInt32 plainCodec) () 0 q a d

/-- The labels of the two. -/
def OneDocument.label (w : OneDocument)
    (x : Network.Input Gesture InvoiceClient.Request InvoiceClient.Answer String) : Incident :=
  .input () x (Document.react plainBrowser (w.client ()) x).2

/-- **The one request in flight can be answered,** by turns that are permitted where there is
no other job. -/
theorem run_exchange {w : OneDocument} {j : Job}
    {ts : List (Job × World UInt32 String × (Job ⊕ InvoiceClient.Answer))}
    {a : InvoiceClient.Answer} (hj : w.jobs = {(some (), j)})
    (ha : Alone ((handlers UInt32 plainCodec).permitted
      (Orderly UInt32 plainCodec "tpub" unaryAddress watched) 0) w.server j ts a d') :
    Run (OneStep watched) w (turnLabels (some ()) ts ++ [w.label (.reply j.request a)])
      (w.exchange j.request a d') :=
  Network.run_answer w _ Pay (PaysOnce plainCodec watched) hj ha

/-- Gestures, one after the other. -/
def OneDocument.play (w : OneDocument) : List Gesture → List Incident × OneDocument
  | [] => ([], w)
  | g :: gs =>
      let (ls, w') := (w.input (.user g)).play gs
      (w.label (.user g) :: ls, w')

/-- Nothing is asked of gestures, so a user may do anything at any time. -/
theorem run_gestures (w : OneDocument) (gs : List Gesture) :
    Run (OneStep watched) w (w.play gs).1 (w.play gs).2 := by
  induction gs generalizing w with
  | nil => exact .nil w
  | cons g gs ih => exact .cons ⟨trivial, .user w () g⟩ (ih _)

/-- The form is loaded, filled in and submitted. -/
def submitForm : List Incident × OneDocument :=
  OneDocument.play (start Unit "tpub" []) [.load "/", .change "$32".toList, .submit]

/-- The invoice for the amount. -/
def newInvoice : InvoiceResponse := ⟨3200, 100000000, 900, "m"⟩

/-- A world in which one bitcoin is 32 dollars, and the node knows these transactions. -/
def newWorld (chain : List MsgTx) : World UInt32 String where
  env := unaryEnv "1".toList
  search := historySearch chain

/-- The invoice can be created first: the feed answers, and child 0 can be derived. -/
theorem newInvoice_creates :
    Creates (newWorld []).env (Server.start "tpub") 3200 newInvoice :=
  ⟨by decide, rfl, by decide +kernel, by decide +kernel, by decide +kernel⟩

/-- The server has issued it. -/
def issuedDeployment : Deployment := issuing (Deployment.start "tpub" []) newInvoice

/-- The ledger holds it, under the address of child 0, for one bitcoin and 32 dollars. -/
theorem issuedDeployment_invoice :
    issuedDeployment.server.invoices "m" = some ⟨100000000, 3200, 900, "m"⟩ :=
  Server.issue_invoices_self (Server.start "tpub") newInvoice

/-- It has issued it, and the document has been sent on to its page. -/
def redirected : OneDocument :=
  submitForm.2.exchange (.createInvoice 3200) (.invoice newInvoice) issuedDeployment

/-- The page has the invoice, and shows the receipt. -/
def received : OneDocument :=
  redirected.exchange (.getInvoice "m") (.invoice newInvoice) issuedDeployment

/-- The labels up to there. -/
def receivedLabels : List Incident :=
  submitForm.1 ++
    ((turnLabels (some ()) (createTurns (newWorld []) 3200 newInvoice) ++
        [submitForm.2.label (.reply (.createInvoice 3200) (.invoice newInvoice))]) ++
      (turnLabels (some ()) (getTurns (newWorld []) "m" newInvoice) ++
        [redirected.label (.reply (.getInvoice "m") (.invoice newInvoice))]))

/-- A customer fills in the form, and gets a receipt: at an empty server there is nothing that
could go wrong, whatever is watched. -/
theorem received_run : Run (OneStep watched) (start Unit "tpub" []) receivedLabels received := by
  have hform : Run (OneStep watched) (start Unit "tpub" []) submitForm.1 submitForm.2 :=
    run_gestures _ _
  have hcreate : Run (OneStep watched) submitForm.2 _ redirected :=
    run_exchange (w := submitForm.2) (by decide +kernel)
      (alone_created (d := Deployment.start "tpub" []) newInvoice_creates
        (unaryKeychain_derives "tpub") (by simp) fun _ _ _ => rfl)
  have hget : Run (OneStep watched) redirected _ received :=
    run_exchange (w := redirected) (by decide +kernel)
      (alone_got (d := issuedDeployment) (newWorld [])
        (getInvoice_of_some issuedDeployment_invoice))
  exact hform.append (hcreate.append hget)

/-- A transaction has been sent for it. -/
def sentDeployment (tx : MsgTx) : Deployment := { issuedDeployment with chain := [tx] }

/-- The service knows of it. -/
def sentService (tx : MsgTx) : OneDocument := { received with server := sentDeployment tx }

/-- Some transaction is sent for it, which the page has not been told of. -/
theorem sentService_run {tx : MsgTx} (hvalid : tx.Valid)
    (honce : PaysOnce plainCodec watched issuedDeployment tx) :
    Run (OneStep watched) (start Unit "tpub" []) (receivedLabels ++ [.background tx])
      (sentService tx) :=
  received_run.snoc ⟨honce, .background received tx (sentDeployment tx) ⟨hvalid, rfl⟩⟩

/-- So does the page. -/
def polled (tx : MsgTx) (status : InvoiceCheckResponse) : OneDocument :=
  (sentService tx).exchange (.checkInvoice "m") (.checked status) (sentDeployment tx)

/-- The labels up to there. -/
def polledLabels (tx : MsgTx) (status : InvoiceCheckResponse) : List Incident :=
  receivedLabels ++ [.background tx] ++
    (turnLabels (some ()) (checkTurns (newWorld [tx]) "m" newInvoice.entry status) ++
      [(sentService tx).label (.reply (.checkInvoice "m") (.checked status))])

/-- The first poll of the page brings the status, by a node that knows the transaction, and it is
what the amount received makes it. -/
theorem polled_run {tx : MsgTx} {p : Int64} {status : InvoiceCheckResponse} (hvalid : tx.Valid)
    (honce : PaysOnce plainCodec watched issuedDeployment tx)
    (hpaid : getReceivedAmount plainCodec (historySearch [tx]) "m" = .ok p)
    (hstatus : statusResponse 100000000 p = some status) :
    Run (OneStep watched) (start Unit "tpub" []) (polledLabels tx status) (polled tx status) := by
  have hjobs : (sentService tx).jobs = {(some (), .checkInvoice "m" .start)} := by
    show received.jobs = _
    decide +kernel
  have hx : unix (newWorld [tx]).env.now.ns ≤ 900 := by
    show unix (Time.ofSeconds 0).ns ≤ 900
    decide
  have hhonest : (newWorld [tx]).search.Honest (sentDeployment tx).chain :=
    historySearch_honest (by simp)
  have hpoll : Run (OneStep watched) (sentService tx) _ (polled tx status) :=
    run_exchange hjobs (alone_checked (d := sentDeployment tx) rfl
      issuedDeployment_invoice hx (fun _ => hhonest) hpaid hstatus)
  exact (sentService_run hvalid honce).append hpoll

/-- No output of the two transactions of the examples lists an address twice. -/
theorem plainCodec_paysOnce {tx : MsgTx}
    (h : ∀ vout ∈ tx.txOut, (plainCodec.addresses vout).Nodup) :
    PaysOnce plainCodec watched d tx := fun _ _ vout hv _ _ =>
  List.nodup_iff_count_le_one.1 (h vout hv) _

end Service
end BitcoinInvoice
