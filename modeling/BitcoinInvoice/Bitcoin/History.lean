/-
# What the node answers, and what is made of it

`GetReceivedAmount` asks once, for the first 100 transactions.  Where the node
serves the history of an address page by page, the amount it returns is that of
the whole history exactly when the transactions behind the first 100 pay nothing
to the address (`getReceivedAmount_eq_received_iff`); what comes later is never
seen (`getReceivedAmount_append`).

And it does not look at the error of the search.  A search that failed is an
empty list of transactions, so the amount is 0, and `CheckInvoice` answers with
the status of an address that has received nothing
(`failed_search_is_a_status`).
-/

import BitcoinInvoice.Api.Ledger
import BitcoinInvoice.Api.Settlement
import BitcoinInvoice.Bitcoin.Rpc

namespace BitcoinInvoice

open Transition

variable {Address : Type} {codec : Codec Address} {search : Search Address} {address : String}
  {encodedAddress : Address}

/-- The node serves `history` page by page, an empty page perhaps as the answer
that there are no transactions. -/
def Search.Serves (search : Search Address) (encodedAddress : Address) (history : List MsgTx) :
    Prop :=
  ∀ skip count, search encodedAddress skip count = .ok ((history.drop skip).take count) ∨
    (history.drop skip).take count = [] ∧
      search encodedAddress skip count = .error .noTransactions

/-- Of a history that a node serves, the one page that is asked for has the first hundred
transactions. -/
theorem Search.Serves.found {history : List MsgTx} (h : search.Serves encodedAddress history) :
    foundTransactions (search encodedAddress 0 100) = history.take 100 := by
  rcases h 0 100 with hok | ⟨hnil, herr⟩
  · rw [hok]
    rfl
  · rw [herr]
    exact hnil.symm

/-- The script parses, and lists at most one address. -/
def Codec.ListsAtMostOne (codec : Codec Address) (vout : TxOut) : Prop :=
  ∃ addy, codec.extractPkScriptAddrs vout.pkScript = .ok addy ∧ addy.length ≤ 1

/-- An output that lists at most one address lists none of them twice, which is so of all the
common kinds of scripts. -/
theorem Codec.ListsAtMostOne.listsOnce {vout : TxOut} (h : codec.ListsAtMostOne vout) :
    codec.ListsOnce address vout := by
  obtain ⟨addy, haddy, hlen⟩ := h
  refine ⟨⟨addy, haddy⟩, ?_⟩
  unfold Codec.addresses
  rw [haddy]
  refine List.count_le_length.trans ?_
  rw [List.length_map]
  exact hlen

/-- **All payments are counted exactly where the first 100 transactions make them
all,** up to multiples of `2^64` and in a total that fits `int64`. -/
theorem getReceivedAmount_eq_received_iff
    (h : codec.decodeAddress address = .ok encodedAddress) {history : List MsgTx}
    (hs : search.Serves encodedAddress history)
    (hone : ∀ vout ∈ outputs history, codec.ListsAtMostOne vout) :
    ∃ paid, getReceivedAmount codec search address = .ok paid ∧
      (paid.toInt = codec.received (codec.encodeAddress encodedAddress) history ↔
        (-2 ^ 63 ≤ codec.received (codec.encodeAddress encodedAddress) history ∧
            codec.received (codec.encodeAddress encodedAddress) history < 2 ^ 63) ∧
          2 ^ 64 ∣ codec.received (codec.encodeAddress encodedAddress) (history.drop 100)) := by
  have hsub : ∀ vout ∈ outputs (foundTransactions (search encodedAddress 0 100)),
      codec.ListsOnce (codec.encodeAddress encodedAddress) vout := by
    intro vout hv
    rw [hs.found] at hv
    exact (hone vout (((List.take_sublist 100 history).flatMap _).subset hv)).listsOnce
  obtain ⟨paid, hpaid, hint⟩ := getReceivedAmount_toInt h hsub
  refine ⟨paid, hpaid, ?_⟩
  have hsplit := codec.received_append (codec.encodeAddress encodedAddress) (history.take 100)
    (history.drop 100)
  rw [List.take_append_drop] at hsplit
  rw [hint, hs.found, hsplit]
  exact Int64.bmod_eq_add_iff

/-- **Behind 100 transactions the amount stands still,** whatever is paid: the node is asked for
one page, and the first hundred fill it. -/
theorem getReceivedAmount_append {search' : Search Address} {history later : List MsgTx}
    (h : codec.decodeAddress address = .ok encodedAddress)
    (hs : search.Serves encodedAddress history)
    (hs' : search'.Serves encodedAddress (history ++ later)) (hlen : 100 ≤ history.length) :
    getReceivedAmount codec search' address = getReceivedAmount codec search address := by
  rw [getReceivedAmount_eq h, getReceivedAmount_eq h, hs.found, hs'.found,
    List.take_append_of_le_length hlen]

/-- A node that serves `history` for every address. -/
def historySearch (history : List MsgTx) : Search Address :=
  fun _ skip count => .ok ((history.drop skip).take count)

/-- The node of a history serves it, for every address: it answers each page with what there
is. -/
theorem historySearch_serves (history : List MsgTx) (encodedAddress : Address) :
    (historySearch history).Serves encodedAddress history :=
  fun _ _ => Or.inl rfl

/-- Scripts that spell out the addresses they list, a byte each. -/
def plainCodec : Codec String where
  decodeAddress address := .ok address
  encodeAddress address := address
  extractPkScriptAddrs script := .ok (script.map fun b => unaryAddress b.toNat)

/-- A hundred payments of a satoshi to `m`, and one more. -/
def manyPayments : List MsgTx := List.replicate 101 ⟨[⟨1, [0]⟩]⟩

/-- Every one of the many payments is to one address. -/
theorem manyPayments_listsAtMostOne :
    ∀ vout ∈ outputs manyPayments, plainCodec.ListsAtMostOne vout := by
  intro vout hv
  obtain ⟨tx, htx, hmem⟩ := List.mem_flatMap.1 hv
  rw [List.eq_of_mem_replicate htx, List.mem_singleton] at hmem
  subst hmem
  exact ⟨[unaryAddress 0], rfl, le_rfl⟩

/-- The theorem at a hundred payments and one more, of which the last is not counted. -/
theorem getReceivedAmount_eq_received_iff_manyPayments :
    ∃ paid, getReceivedAmount plainCodec (historySearch manyPayments) "m" = .ok paid ∧
      (paid.toInt = plainCodec.received "m" manyPayments ↔
        (-2 ^ 63 ≤ plainCodec.received "m" manyPayments ∧
            plainCodec.received "m" manyPayments < 2 ^ 63) ∧
          2 ^ 64 ∣ plainCodec.received "m" (manyPayments.drop 100)) :=
  getReceivedAmount_eq_received_iff rfl (historySearch_serves _ _) manyPayments_listsAtMostOne

/-- The payment behind the first hundred is not counted, although the node has it and would serve
it if asked for more. -/
theorem manyPayments_not_counted :
    (historySearch manyPayments).Serves "m" manyPayments ∧
      (∀ vout ∈ outputs manyPayments, plainCodec.ListsAtMostOne vout) ∧
      getReceivedAmount plainCodec (historySearch manyPayments) "m" = .ok 100 ∧
      plainCodec.received "m" manyPayments = 101 :=
  ⟨historySearch_serves _ _, manyPayments_listsAtMostOne, by decide +kernel, by decide +kernel⟩

/-! ### Searches that fail -/

/-- **A failed search is never reported.**  `GetReceivedAmount` returns no error,
and for an address that decodes it returns 0; `CheckInvoice` makes a status of it
for every issued and unexpired invoice. -/
theorem failed_search_is_a_status {s : Server} {id : String} {invoice : Invoice} {now : Time}
    {message : String} (hi : s.invoices id = some invoice) (hx : unix now.ns ≤ invoice.expiry)
    (hf : ∀ encodedAddress, codec.decodeAddress id = .ok encodedAddress →
      search encodedAddress 0 100 = .error (.failure message)) :
    (∀ m, getReceivedAmount codec search id ≠ .error m) ∧
      ∀ encodedAddress, codec.decodeAddress id = .ok encodedAddress →
        getReceivedAmount codec search id = .ok 0 ∧
          ∃ r, checkInvoice (bitcoinrpc codec search) now s id = .ok (some r) := by
  have hzero : ∀ encodedAddress, codec.decodeAddress id = .ok encodedAddress →
      getReceivedAmount codec search id = .ok 0 := by
    intro encodedAddress h
    rw [getReceivedAmount_eq h, hf encodedAddress h]
    rfl
  constructor
  · intro m hm
    cases h : codec.decodeAddress id with
    | error e => simp [getReceivedAmount, h] at hm
    | ok encodedAddress =>
        rw [hzero encodedAddress h] at hm
        cases hm
  · intro encodedAddress h
    refine ⟨hzero encodedAddress h, ?_⟩
    have hv : (bitcoinrpc codec search).isValidAddress id = true := by
      simp [bitcoinrpc, isValidAddress, h]
    obtain ⟨r, hr⟩ := statusResponse_eq_some invoice.digitalValue 0
    exact ⟨r, by rw [checkInvoice_of_received hv hi hx (hzero encodedAddress h), hr]⟩

/-- The node cannot be reached. -/
def lostSearch : Search Address := fun _ _ _ => .error (.failure "connection lost")

/-- The theorem at the first invoice of `ledgerCalls`, checked over a node that cannot be reached:
the answer is zero, and no error. -/
theorem failed_search_is_a_status_lostSearch :
    (∀ m, getReceivedAmount plainCodec lostSearch "m" ≠ .error m) ∧
      ∀ encodedAddress, plainCodec.decodeAddress "m" = .ok encodedAddress →
        getReceivedAmount plainCodec lostSearch "m" = .ok 0 ∧
          ∃ r, checkInvoice (bitcoinrpc plainCodec lostSearch) (.ofSeconds 0)
            ((Server.start "tpub").play ledgerCalls).2 "m" = .ok (some r) :=
  failed_search_is_a_status ledgerCalls_first (by decide) fun _ _ => rfl

/-- An invoice that has been paid is reported unpaid when the node cannot be reached, and paid by
the same server when it can. -/
theorem lostSearch_unpaid :
    Run Step (Server.start "tpub") ((Server.start "tpub").play ledgerCalls).1
        ((Server.start "tpub").play ledgerCalls).2 ∧
      checkInvoice (bitcoinrpc plainCodec (historySearch [⟨[⟨100000000, [0]⟩]⟩]))
        (.ofSeconds 0) ((Server.start "tpub").play ledgerCalls).2 "m" =
          .ok (some ⟨.paid, 0⟩) ∧
      getReceivedAmount plainCodec lostSearch "m" = .ok 0 ∧
      checkInvoice (bitcoinrpc plainCodec lostSearch)
        (.ofSeconds 0) ((Server.start "tpub").play ledgerCalls).2 "m" =
          .ok (some ⟨.unpaid, 100000000⟩) :=
  ⟨ledgerCalls_run, by decide +kernel, by decide +kernel, by decide +kernel⟩

end BitcoinInvoice
