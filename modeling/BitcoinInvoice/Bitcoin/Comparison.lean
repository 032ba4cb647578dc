/-
# Two answers of the node, compared

`GetReceivedAmount` sees nothing of the node but one list of transactions
(`getReceivedAmount_answering`), and of that list the values and scripts of the
outputs.  Its loops are a sum with an early return, and both of its errors have
the same text, so neither the order of the transactions nor that of the outputs
in them matters, and the outcome of two lists together is the sum of theirs, or an
error (`getReceivedAmount_order`).

An output that pays somebody else adds nothing, if its script parses.  If it does
not, the early return makes an error of the whole answer, the payments to the
address included: foreign outputs leave the outcome alone exactly where their
script parses, or the answer is an error anyway (`foreign_output_iff`).
-/

import BitcoinInvoice.Bitcoin.History

namespace BitcoinInvoice

open Transition

variable {Address : Type} {codec : Codec Address} {address : String} {encodedAddress : Address}

/-- A node that answers every search with `transactions`. -/
def answering (transactions : List MsgTx) : Search Address := fun _ _ _ => .ok transactions

/-- One list of transactions is all that is seen of the node, so two nodes that answer the same
list give the same amount. -/
theorem getReceivedAmount_answering (h : codec.decodeAddress address = .ok encodedAddress)
    (search : Search Address) :
    getReceivedAmount codec search address =
      getReceivedAmount codec (answering (foundTransactions (search encodedAddress 0 100)))
        address := by
  rw [getReceivedAmount_eq h, getReceivedAmount_eq h]
  rfl

/-- Over a node that answers with these transactions, the amount is the total of what their
outputs are credited with, or the first error among them. -/
theorem getReceivedAmount_answering_eq (h : codec.decodeAddress address = .ok encodedAddress)
    (transactions : List MsgTx) :
    getReceivedAmount codec (answering transactions) address =
      .ofExcept (Accumulate.total (codec.credit (codec.encodeAddress encodedAddress))
        (outputs transactions)) :=
  getReceivedAmount_eq h

/-! ### The order of the answer -/

/-- The same transactions in another order, with their outputs in another order. -/
def Reorders (xs ys : List MsgTx) : Prop :=
  ∃ zs, xs.Perm zs ∧ List.Forall₂ (fun tx tx' => tx.txOut.Perm tx'.txOut) zs ys

/-- Transactions in another order, with their outputs in another order, have the same outputs but
for the order. -/
theorem Reorders.outputs {xs ys : List MsgTx} (h : Reorders xs ys) :
    (outputs xs).Perm (outputs ys) := by
  obtain ⟨zs, hperm, hall⟩ := h
  refine (hperm.flatMap_right _).trans ?_
  clear hperm
  induction hall with
  | nil => exact .nil
  | cons htx _ ih => exact htx.append ih

/-- **What an address has received does not depend on the order of the answer,**
amount or error.  On two lists together the outcome is an error exactly if it is
one on either, and otherwise the wrapped sum of the two amounts. -/
theorem getReceivedAmount_order (codec : Codec Address) (address : String) (xs ys : List MsgTx) :
    (Reorders xs ys → getReceivedAmount codec (answering xs) address =
      getReceivedAmount codec (answering ys) address) ∧
    ((∃ e, getReceivedAmount codec (answering (xs ++ ys)) address = .error e) ↔
      (∃ e, getReceivedAmount codec (answering xs) address = .error e) ∨
        ∃ e, getReceivedAmount codec (answering ys) address = .error e) ∧
    ∀ p q, getReceivedAmount codec (answering xs) address = .ok p →
      getReceivedAmount codec (answering ys) address = .ok q →
        getReceivedAmount codec (answering (xs ++ ys)) address = .ok (p + q) := by
  cases h : codec.decodeAddress address with
  | error e => simp [getReceivedAmount, h]
  | ok encodedAddress =>
      simp only [getReceivedAmount_answering_eq h]
      have happend : outputs (xs ++ ys) = outputs xs ++ outputs ys := List.flatMap_append
      simp only [happend, Outcome.ofExcept_eq_error_iff, Outcome.ofExcept_eq_ok_iff]
      refine ⟨fun hxy => ?_, Accumulate.total_append_isError_iff,
        fun _ _ => Accumulate.total_append_eq_ok⟩
      rw [Accumulate.total_perm (fun _ _ => Codec.credit_eq_error) hxy.outputs]

/-! ### Outputs to somebody else -/

/-- An output that parses and does not list the address adds nothing, so it may as well not be
there. -/
theorem Codec.credit_of_not_mem {vout : TxOut} (hp : codec.Parses vout)
    (hf : address ∉ codec.addresses vout) : codec.credit address vout = .ok 0 := by
  obtain ⟨addy, haddy⟩ := hp
  unfold Codec.credit
  rw [haddy, List.count_eq_zero.2 hf, zero_nsmul]

/-- What a list with an output put into it comes to: the output may as well come first. -/
theorem total_insert (address : String) (before after : List MsgTx) (vouts vouts' : List TxOut)
    (foreign : TxOut) :
    Accumulate.total (codec.credit address)
        (outputs (before ++ ⟨vouts ++ foreign :: vouts'⟩ :: after)) =
      Accumulate.total (codec.credit address)
        (foreign :: outputs (before ++ ⟨vouts ++ vouts'⟩ :: after)) := by
  refine Accumulate.total_perm (fun _ _ => Codec.credit_eq_error) ?_
  have hperm : (outputs before ++ vouts ++ foreign :: (vouts' ++ outputs after)).Perm
      (foreign :: (outputs before ++ vouts ++ (vouts' ++ outputs after))) := List.perm_middle
  simpa [outputs] using hperm

section Inserted

variable {before after : List MsgTx} {vouts vouts' : List TxOut} {foreign : TxOut}

/-- An output put anywhere into the answer makes the difference that it would make in front of
all others, since a total does not depend on the order. -/
theorem getReceivedAmount_inserted (h : codec.decodeAddress address = .ok encodedAddress) :
    getReceivedAmount codec (answering (before ++ ⟨vouts ++ foreign :: vouts'⟩ :: after)) address =
      .ofExcept (Accumulate.total (codec.credit (codec.encodeAddress encodedAddress))
        (foreign :: outputs (before ++ ⟨vouts ++ vouts'⟩ :: after))) := by
  rw [getReceivedAmount_answering_eq h, total_insert]

/-- A foreign output changes nothing if its script parses, or if the answer is an error
without it. -/
theorem getReceivedAmount_inserted_eq (h : codec.decodeAddress address = .ok encodedAddress)
    (hf : codec.encodeAddress encodedAddress ∉ codec.addresses foreign)
    (hcond : codec.Parses foreign ∨
      ∃ vout ∈ outputs (before ++ ⟨vouts ++ vouts'⟩ :: after), ¬ codec.Parses vout) :
    getReceivedAmount codec (answering (before ++ ⟨vouts ++ foreign :: vouts'⟩ :: after)) address =
      getReceivedAmount codec (answering (before ++ ⟨vouts ++ vouts'⟩ :: after)) address := by
  rw [getReceivedAmount_inserted h]
  by_cases hp : codec.Parses foreign
  · rw [Accumulate.total_cons_of_zero (Codec.credit_of_not_mem hp hf),
      getReceivedAmount_answering_eq h]
  · obtain ⟨e, he⟩ := Codec.credit_isError_iff.2 hp
    have herr : getReceivedAmount codec (answering (before ++ ⟨vouts ++ vouts'⟩ :: after)) address =
        .error "could not get balance" :=
      (getReceivedAmount_eq_error_iff h).2 (hcond.resolve_left hp)
    rw [herr, Accumulate.total_cons_of_error he, Codec.credit_eq_error he, Outcome.ofExcept_error]

/-- If its script is the only one that does not parse, it makes an error of an amount. -/
theorem getReceivedAmount_inserted_error (h : codec.decodeAddress address = .ok encodedAddress)
    (hcond : ¬ (codec.Parses foreign ∨
      ∃ vout ∈ outputs (before ++ ⟨vouts ++ vouts'⟩ :: after), ¬ codec.Parses vout)) :
    (∃ e, getReceivedAmount codec
        (answering (before ++ ⟨vouts ++ foreign :: vouts'⟩ :: after)) address = .error e) ∧
      ∃ paid, getReceivedAmount codec (answering (before ++ ⟨vouts ++ vouts'⟩ :: after)) address =
        .ok paid := by
  obtain ⟨hp, hall⟩ := not_or.1 hcond
  obtain ⟨e, he⟩ := Codec.credit_isError_iff.2 hp
  refine ⟨⟨e, ?_⟩, getReceivedAmount_of_parses h fun vout hvout => ?_⟩
  · rw [getReceivedAmount_inserted h, Accumulate.total_cons_of_error he, Outcome.ofExcept_error]
  · by_contra hn
    exact hall ⟨vout, hvout, hn⟩

end Inserted

/-- **Outputs to somebody else leave the outcome alone exactly where their script
parses, or some script of the answer does not parse anyway.**  The same goes for the
checks of an unexpired invoice. -/
theorem foreign_output_iff (h : codec.decodeAddress address = .ok encodedAddress)
    (before after : List MsgTx) (vouts vouts' : List TxOut) {foreign : TxOut}
    (hf : codec.encodeAddress encodedAddress ∉ codec.addresses foreign) :
    (getReceivedAmount codec (answering (before ++ ⟨vouts ++ foreign :: vouts'⟩ :: after))
          address =
        getReceivedAmount codec (answering (before ++ ⟨vouts ++ vouts'⟩ :: after)) address ↔
      codec.Parses foreign ∨
        ∃ vout ∈ outputs (before ++ ⟨vouts ++ vouts'⟩ :: after), ¬ codec.Parses vout) ∧
    ∀ s now invoice, s.invoices address = some invoice → unix now.ns ≤ invoice.expiry →
      (checkInvoice (bitcoinrpc codec
            (answering (before ++ ⟨vouts ++ foreign :: vouts'⟩ :: after))) now s address =
          checkInvoice (bitcoinrpc codec (answering (before ++ ⟨vouts ++ vouts'⟩ :: after)))
            now s address ↔
        codec.Parses foreign ∨
          ∃ vout ∈ outputs (before ++ ⟨vouts ++ vouts'⟩ :: after), ¬ codec.Parses vout) := by
  have hv : ∀ txs, (bitcoinrpc codec (answering txs)).isValidAddress address = true := by
    simp [bitcoinrpc, isValidAddress, h]
  by_cases hcond : codec.Parses foreign ∨
      ∃ vout ∈ outputs (before ++ ⟨vouts ++ vouts'⟩ :: after), ¬ codec.Parses vout
  · have hsame := getReceivedAmount_inserted_eq h hf hcond
    exact ⟨iff_of_true hsame hcond, fun s now invoice _ _ =>
      iff_of_true (checkInvoice_congr ((hv _).trans (hv _).symm) hsame now s) hcond⟩
  · obtain ⟨⟨e, herror⟩, paid, hpaid⟩ := getReceivedAmount_inserted_error h hcond
    refine ⟨iff_of_false (by simp [herror, hpaid]) hcond, fun s now invoice hi hx =>
      iff_of_false ?_ hcond⟩
    rw [checkInvoice_of_unexpired (hv _) hi hx, checkInvoice_of_unexpired (hv _) hi hx]
    simp [bitcoinrpc, herror, hpaid]

/-- Scripts as in `plainCodec`, but the byte 255 makes one malformed. -/
def strictCodec : Codec String where
  decodeAddress address := .ok address
  encodeAddress address := address
  extractPkScriptAddrs script :=
    if 255 ∈ script then .error "malformed script" else plainCodec.extractPkScriptAddrs script

/-- A payment of one bitcoin to `m`, and one beside which the payer put an output of
their own. -/
def payment : List MsgTx := [⟨[⟨100000000, [0]⟩]⟩]

def spoiltPayment : List MsgTx := [⟨[⟨100000000, [0]⟩, ⟨0, [255]⟩]⟩]

/-- The theorem at a payment of one bitcoin, beside which the payer put an output whose script
does not parse. -/
theorem foreign_output_iff_spoiltPayment :
    (getReceivedAmount strictCodec (answering spoiltPayment) "m" =
        getReceivedAmount strictCodec (answering payment) "m" ↔
      strictCodec.Parses ⟨0, [255]⟩ ∨ ∃ vout ∈ outputs payment, ¬ strictCodec.Parses vout) ∧
    ∀ s now invoice, s.invoices "m" = some invoice → unix now.ns ≤ invoice.expiry →
      (checkInvoice (bitcoinrpc strictCodec (answering spoiltPayment)) now s "m" =
          checkInvoice (bitcoinrpc strictCodec (answering payment)) now s "m" ↔
        strictCodec.Parses ⟨0, [255]⟩ ∨
          ∃ vout ∈ outputs payment, ¬ strictCodec.Parses vout) := by
  have hf : "m" ∉ strictCodec.addresses ⟨0, [255]⟩ := by decide
  exact foreign_output_iff rfl [] [] [⟨100000000, [0]⟩] [] hf

/-- A payment in full is an error, for an output that has nothing to do with it. -/
theorem spoiltPayment_not_counted :
    Run Step (Server.start "tpub") ((Server.start "tpub").play ledgerCalls).1
        ((Server.start "tpub").play ledgerCalls).2 ∧
      "m" ∉ strictCodec.addresses ⟨0, [255]⟩ ∧
      getReceivedAmount strictCodec (answering payment) "m" = .ok 100000000 ∧
      getReceivedAmount strictCodec (answering spoiltPayment) "m" =
        .error "could not get balance" ∧
      checkInvoice (bitcoinrpc strictCodec (answering payment)) (.ofSeconds 0)
          ((Server.start "tpub").play ledgerCalls).2 "m" = .ok (some ⟨.paid, 0⟩) ∧
      checkInvoice (bitcoinrpc strictCodec (answering spoiltPayment)) (.ofSeconds 0)
          ((Server.start "tpub").play ledgerCalls).2 "m" =
        .error "could not check balance for m" :=
  ⟨ledgerCalls_run, by decide, by decide +kernel, by decide +kernel, by decide +kernel,
    by decide +kernel⟩

end BitcoinInvoice
