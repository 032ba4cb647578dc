/-
# A deployment over time

The server together with the chain, which outlives it: calls, payments that enter
the chain, and restarts of the process, in any order.  A restart runs `main` again,
so the counter and the ledger are those of the start, and the addresses are issued
from the first child on once more.

`GetReceivedAmount` has no lower bound in time, so whether an invoice can be
settled by money that was there before it rests on its address being unused when it
is issued (`Fresh`).  In a run that issues its address only while it is unused it
cannot, whatever happens to the other addresses (`settled_by_new_money`).  A call after
a restart is fresh only if nobody has paid the invoice that had the address before.
-/

import BitcoinInvoice.Bitcoin.History

namespace BitcoinInvoice

open Transition

variable {Key Address : Type} {codec : Codec Address} {xpub : String}

/-- The server and the chain.  `createdAt` is not part of either: it records how
many transactions the chain had when the invoice of an id was created. -/
structure Deployment where
  server : Server
  chain : List MsgTx
  createdAt : String → ℕ

/-- The process has just started, on a chain with a history of its own. -/
def Deployment.start (xpub : String) (chain : List MsgTx) : Deployment where
  server := Server.start xpub
  chain := chain
  createdAt := fun _ => 0

/-- What happens in a deployment. -/
inductive Action (Key : Type) where
  | call (e : Event Key)
  | pay (tx : MsgTx)
  | restart

/-- The record of `createdAt` after the call of `e`. -/
def Deployment.created (d : Deployment) (e : Event Key) : String → ℕ :=
  match e.reply.issued with
  | some r => Function.update d.createdAt r.invoiceId d.chain.length
  | none => d.createdAt

/-- A call of the server, a valid transaction at the end of the chain, or a restart. -/
inductive Deployment.Step (xpub : String) : Deployment → Action Key → Deployment → Prop
  | call (d : Deployment) (e : Event Key) (s' : Server) (h : BitcoinInvoice.Step d.server e s') :
      Step xpub d (.call e) { d with server := s', createdAt := d.created e }
  | pay (d : Deployment) (tx : MsgTx) (h : tx.Valid) :
      Step xpub d (.pay tx) { d with chain := d.chain ++ [tx] }
  | restart (d : Deployment) : Step xpub d .restart { d with server := Server.start xpub }

/-- The chain has paid nothing to the address. -/
def Codec.Unused (codec : Codec Address) (id : String) (chain : List MsgTx) : Prop :=
  ∀ encodedAddress, codec.decodeAddress id = .ok encodedAddress →
    codec.received (codec.encodeAddress encodedAddress) chain = 0

/-- A call that creates the invoice `id` creates it while the chain has paid nothing to
the address.  Nothing is asked of the other invoices. -/
def Fresh (codec : Codec Address) (id : String) (d : Deployment) (action : Action Key) : Prop :=
  ∀ e env value r, action = .call e → e.call = .createInvoice env value →
    Creates env d.server value r → r.invoiceId = id → codec.Unused id d.chain

/-- The invariant: what the chain has paid to the invoice `id` it paid after its creation. -/
structure PaidSince (codec : Codec Address) (id : String) (d : Deployment) : Prop where
  valid : ∀ tx ∈ d.chain, tx.Valid
  bound : d.createdAt id ≤ d.chain.length
  unused : ∀ invoice, d.server.invoices id = some invoice →
    codec.Unused id (d.chain.take (d.createdAt id))

/-- What an invoice has received in the whole history of the chain, it has received since
it was created: the part of the chain before that has paid it nothing. -/
theorem PaidSince.received_drop {d : Deployment} {id : String} (h : PaidSince codec id d)
    {invoice : Invoice} (hi : d.server.invoices id = some invoice) {encodedAddress : Address}
    (hdecode : codec.decodeAddress id = .ok encodedAddress) :
    codec.received (codec.encodeAddress encodedAddress) (d.chain.drop (d.createdAt id)) =
      codec.received (codec.encodeAddress encodedAddress) d.chain := by
  have hsplit := codec.received_append (codec.encodeAddress encodedAddress)
    (d.chain.take (d.createdAt id)) (d.chain.drop (d.createdAt id))
  rw [List.take_append_drop, h.unused invoice hi encodedAddress hdecode, zero_add] at hsplit
  exact hsplit.symm

/-- The invariant holds of a process that has just started, on a chain with any history
of valid transactions: there is no invoice yet that could have been paid. -/
theorem paidSince_start {id : String} {chain : List MsgTx} (h : ∀ tx ∈ chain, tx.Valid) :
    PaidSince codec id (Deployment.start xpub chain) where
  valid := h
  bound := Nat.zero_le _
  unused _ hi := by simp [Deployment.start, Server.start] at hi

/-- An invoice is created, and its mark is set to the end of the chain.  Its own address is
unused at this point; the entries and the marks of the other invoices are as they were. -/
theorem PaidSince.create {d : Deployment} {id : String} (h : PaidSince codec id d)
    {server : Server} {address : String} (hfresh : address = id → codec.Unused id d.chain)
    (hkept : ∀ id', id' ≠ address → server.invoices id' = d.server.invoices id') :
    PaidSince codec id
      { d with
        server := server
        createdAt := Function.update d.createdAt address d.chain.length } := by
  refine ⟨h.valid, ?_, fun invoice hi => ?_⟩
  · show Function.update d.createdAt address d.chain.length id ≤ d.chain.length
    rcases eq_or_ne id address with rfl | hid
    · rw [Function.update_self]
    · rw [Function.update_of_ne hid]
      exact h.bound
  · show codec.Unused id (d.chain.take (Function.update d.createdAt address d.chain.length id))
    rcases eq_or_ne id address with rfl | hid
    · rw [Function.update_self, List.take_length]
      exact hfresh rfl
    · rw [Function.update_of_ne hid]
      exact h.unused invoice ((hkept id hid).symm.trans hi)

/-- A transaction enters the chain, which is behind every mark, so it counts for every invoice
there is. -/
theorem PaidSince.pay {d : Deployment} {id : String} (h : PaidSince codec id d) {tx : MsgTx}
    (htx : tx.Valid) : PaidSince codec id { d with chain := d.chain ++ [tx] } := by
  refine ⟨fun tx' htx' => ?_, ?_, fun invoice hi => ?_⟩
  · rcases List.mem_append.1 htx' with hm | hm
    · exact h.valid tx' hm
    · rw [List.mem_singleton.1 hm]
      exact htx
  · have := h.bound
    show d.createdAt id ≤ (d.chain ++ [tx]).length
    rw [List.length_append, List.length_singleton]
    omega
  · show codec.Unused id ((d.chain ++ [tx]).take (d.createdAt id))
    rw [List.take_append_of_le_length h.bound]
    exact h.unused invoice hi

/-- **What one action preserves.**  A call that creates the invoice sets its mark to the
end of the chain, which is fresh; any other call leaves both the entry and the mark, and a
payment is put behind the mark. -/
theorem PaidSince.step {d d' : Deployment} {id : String} {action : Action Key}
    (h : PaidSince codec id d) (hf : Fresh codec id d action)
    (hs : Deployment.Step xpub d action d') : PaidSince codec id d' := by
  cases hs with
  | call e s' hstep =>
      rcases hstep.cases with ⟨env, value, r, rfl, hc, rfl⟩ | ⟨hn, rfl⟩
      · exact h.create (fun hid => hf _ env value r rfl rfl hc hid) fun id' hid =>
          Server.issue_invoices_of_ne _ hid
      · have hcreated : d.created e = d.createdAt := by
          unfold Deployment.created
          rw [hn]
        rw [hcreated]
        exact h
  | pay tx htx => exact h.pay htx
  | restart =>
      refine ⟨h.valid, h.bound, fun invoice hi => ?_⟩
      simp [Server.start] at hi

/-- The node answers with at most 100 transactions, all of the chain. -/
def Search.Honest (search : Search Address) (chain : List MsgTx) : Prop :=
  ∀ encodedAddress, (foundTransactions (search encodedAddress 0 100)).Sublist chain ∧
    (foundTransactions (search encodedAddress 0 100)).length ≤ 100

/-- An amount that is returned is what some of the chain has paid to the address: the node answers
with a part of it, and the loops add up what is there. -/
theorem exists_received {search : Search Address} {chain : List MsgTx} {address : String}
    {encodedAddress : Address} {paid : Int64}
    (h : codec.decodeAddress address = .ok encodedAddress) (hs : search.Honest chain)
    (hvalid : ∀ tx ∈ chain, tx.Valid)
    (honce : ∀ vout ∈ outputs chain,
      (codec.addresses vout).count (codec.encodeAddress encodedAddress) ≤ 1)
    (hp : getReceivedAmount codec search address = .ok paid) :
    ∃ txs, txs.Sublist chain ∧
      paid.toInt = codec.received (codec.encodeAddress encodedAddress) txs := by
  obtain ⟨hsub, hlen⟩ := hs encodedAddress
  have hparses := parses_of_getReceivedAmount h hp
  obtain ⟨paid', hp', hint⟩ := getReceivedAmount_of_valid h rfl
    (fun tx htx => hvalid tx (hsub.subset htx)) hlen
    (fun vout hv => ⟨hparses vout hv, honce vout ((hsub.flatMap _).subset hv)⟩)
  obtain rfl := Outcome.ok.inj (hp.symm.trans hp')
  exact ⟨_, hsub, hint⟩

/-- It is at most what the chain has paid, as the transactions the node has left out take nothing
away. -/
theorem getReceivedAmount_le {search : Search Address} {chain : List MsgTx} {address : String}
    {encodedAddress : Address} {paid : Int64}
    (h : codec.decodeAddress address = .ok encodedAddress) (hs : search.Honest chain)
    (hvalid : ∀ tx ∈ chain, tx.Valid)
    (honce : ∀ vout ∈ outputs chain,
      (codec.addresses vout).count (codec.encodeAddress encodedAddress) ≤ 1)
    (hp : getReceivedAmount codec search address = .ok paid) :
    paid.toInt ≤ codec.received (codec.encodeAddress encodedAddress) chain := by
  obtain ⟨txs, hsub, hpaid⟩ := exists_received h hs hvalid honce hp
  rw [hpaid]
  exact Codec.received_le_of_sublist hvalid hsub

/-- **A new invoice is not settled by old money, in a run that issues it fresh.**
Whenever a check says paid or over-paid, at least the amount less a fiftieth was
paid to the address since the invoice was created, where no output lists the
address twice and the tolerance of the code is not more than a fiftieth, as it is for
every amount up to `2^53` (`allowedInterval_toInt`). -/
theorem settled_by_new_money {actions : List (Action Key)} {chain : List MsgTx} {d : Deployment}
    {id : String} (hchain : ∀ tx ∈ chain, tx.Valid)
    (h : Run (Guarded (Fresh codec id) (Deployment.Step xpub)) (Deployment.start xpub chain)
      actions d)
    {search : Search Address} (hs : search.Honest d.chain) {now : Time}
    {invoice : Invoice} (hi : d.server.invoices id = some invoice)
    {encodedAddress : Address} (hdecode : codec.decodeAddress id = .ok encodedAddress)
    (honce : ∀ vout ∈ outputs d.chain,
      (codec.addresses vout).count (codec.encodeAddress encodedAddress) ≤ 1)
    (hpos : 0 < invoice.digitalValue.toInt)
    (htol : (allowedInterval invoice.digitalValue).toInt ≤ invoice.digitalValue.toInt / 50)
    {r : InvoiceCheckResponse}
    (hcheck : checkInvoice (bitcoinrpc codec search) now d.server id = .ok (some r))
    (hr : r.Settled) :
    invoice.digitalValue.toInt - invoice.digitalValue.toInt / 50 ≤
      codec.received (codec.encodeAddress encodedAddress) (d.chain.drop (d.createdAt id)) := by
  have hinv : PaidSince codec id d :=
    h.invariant (fun _ _ _ hd hstep => hd.step hstep.1 hstep.2) (paidSince_start hchain)
  obtain ⟨invoice', hi', hcases⟩ := checkInvoice_eq_ok hcheck
  obtain rfl := Option.some.inj (hi.symm.trans hi')
  rcases hcases with ⟨-, he⟩ | ⟨-, paid, hpaid, he⟩
  · obtain rfl := Option.some.inj he
    exact absurd hr (by decide)
  · have hlow := (settled_iff.1 ⟨r, he.symm, hr⟩).1
    have hle := getReceivedAmount_le hdecode hs hinv.valid honce hpaid
    -- the chain up to the creation paid nothing
    have hold := hinv.unused invoice hi encodedAddress hdecode
    have hsplit := codec.received_append (codec.encodeAddress encodedAddress)
      (d.chain.take (d.createdAt id)) (d.chain.drop (d.createdAt id))
    rw [List.take_append_drop] at hsplit
    have hnonneg := allowedInterval_nonneg hpos.le
    have hup := invoice.digitalValue.toInt_lt
    rw [Int64.le_iff_toInt_le, Int64.toInt_sub_of_bounds (by omega) (by omega)] at hlow
    omega

/-- An invoice for one bitcoin, at the first address. -/
def firstInvoice : Event UInt32 :=
  ⟨.createInvoice (unaryEnv "1".toList) 3200, .created (.ok ⟨3200, 100000000, 900, "m"⟩)⟩

/-- The server after `firstInvoice`. -/
def issuedServer : Server := ((Server.start "tpub").serve firstInvoice.call).2

/-- The call of `firstInvoice` is a step from a server that has just started. -/
theorem firstInvoice_step : Step (Server.start "tpub") firstInvoice issuedServer :=
  ⟨Prod.ext (by decide +kernel) rfl, trivial⟩

/-- The invoice for one bitcoin is in the ledger, at the first address. -/
theorem issuedServer_invoice :
    issuedServer.invoices "m" = some ⟨100000000, 3200, 900, "m"⟩ := by
  decide +kernel

/-- One bitcoin, to the first address. -/
def oneBitcoin : MsgTx := ⟨[⟨100000000, [0]⟩]⟩

/-- A payment of one bitcoin is a valid transaction. -/
theorem oneBitcoin_valid : oneBitcoin.Valid := ⟨by decide, by decide⟩

/-- The node of a history of at most a hundred transactions knows it in full, and no more. -/
theorem historySearch_honest {chain : List MsgTx} (h : chain.length ≤ 100) :
    (historySearch chain : Search Address).Honest chain := by
  intro encodedAddress
  have hfound : foundTransactions ((historySearch chain : Search Address) encodedAddress 0 100) =
      chain := by
    show (chain.drop 0).take 100 = chain
    rw [List.drop_zero, List.take_of_length_le h]
  rw [hfound]
  exact ⟨List.Sublist.refl chain, h⟩

/-- The invoice has been issued and paid. -/
def paidDeployment : Deployment where
  server := issuedServer
  chain := [oneBitcoin]
  createdAt := Function.update (fun _ => 0) "m" 0

/-- The invoice is issued while its address is unused, and paid afterwards: a run in which
everything is fresh. -/
theorem paidDeployment_run :
    Run (Guarded (Fresh plainCodec "m") (Deployment.Step "tpub")) (Deployment.start "tpub" [])
      [.call firstInvoice, .pay oneBitcoin] paidDeployment := by
  refine .cons ⟨?_, .call _ _ _ firstInvoice_step⟩
    (.cons ⟨?_, .pay _ _ oneBitcoin_valid⟩ (.nil _))
  · intro e env value r _ _ _ _ encodedAddress _
    rfl
  · intro e env value r he
    cases he

/-- The theorem at the invoice for one bitcoin, which was paid with one bitcoin after it was
created. -/
theorem settled_by_new_money_paidDeployment :
    (100000000 : Int64).toInt - (100000000 : Int64).toInt / 50 ≤
      plainCodec.received "m" (paidDeployment.chain.drop (paidDeployment.createdAt "m")) := by
  have honce : ∀ vout ∈ outputs paidDeployment.chain,
      (plainCodec.addresses vout).count "m" ≤ 1 := by
    decide +kernel
  have hcheck : checkInvoice (bitcoinrpc plainCodec (historySearch paidDeployment.chain))
      (.ofSeconds 0) paidDeployment.server "m" = .ok (some ⟨.paid, 0⟩) := by
    decide +kernel
  exact settled_by_new_money (by simp) paidDeployment_run (historySearch_honest (by decide))
    issuedServer_invoice rfl honce (by decide)
    (allowedInterval_toInt (by decide) (by decide)).le hcheck (by decide)

/-- The server has been restarted since, and has issued the address again. -/
def reissuedDeployment : Deployment where
  server := issuedServer
  chain := [oneBitcoin]
  createdAt := Function.update (Function.update (fun _ => 0) "m" 0) "m" 1

/-- The new invoice is paid at once, by the payment for the old one: the restarted process has
issued the first address again. -/
theorem reissuedDeployment_settled :
    Run (Deployment.Step "tpub") (Deployment.start "tpub" [])
        [.call firstInvoice, .pay oneBitcoin, .restart, .call firstInvoice] reissuedDeployment ∧
      (historySearch reissuedDeployment.chain : Search String).Honest reissuedDeployment.chain ∧
      reissuedDeployment.server.invoices "m" = some ⟨100000000, 3200, 900, "m"⟩ ∧
      checkInvoice (bitcoinrpc plainCodec (historySearch reissuedDeployment.chain))
        (.ofSeconds 0) reissuedDeployment.server "m" =
          .ok (some ⟨.paid, 0⟩) ∧
      plainCodec.received "m"
        (reissuedDeployment.chain.drop (reissuedDeployment.createdAt "m")) = 0 := by
  refine ⟨?_, historySearch_honest (by decide), issuedServer_invoice, by decide +kernel, rfl⟩
  exact .cons (.call _ _ _ firstInvoice_step) (.cons (.pay _ _ oneBitcoin_valid)
    (.cons (.restart _) (.cons (.call _ _ _ firstInvoice_step) (.nil _))))

end BitcoinInvoice
