/-
# What an address has received

`GetReceivedAmount` and `IsValidAddress` of `server/server/bitcoin/rpc.go`, over
the two libraries they call.  `Codec` has the functions of `btcutil` and
`txscript`, which are pure; the answers of the node to `SearchRawTransactions`
are a parameter of their own, so that they can change from call to call.

`received` is what the outputs of a list of transactions pay to an address, as an
integer.  The two loops of the code add up the same values, in `int64`, over what
the node answered; where every output lists the address at most once, the result
is that sum modulo `2^64` (`getReceivedAmount_toInt`), and where the
transactions are `Valid` it is the sum itself (`getReceivedAmount_of_valid`).
-/

import BitcoinInvoice.Api.Models
import BitcoinInvoice.Library.Accumulate
import BitcoinInvoice.Library.Int64Sum
import Mathlib.Data.List.Count
import Mathlib.Data.List.Flatten
import Mathlib.Tactic.Linarith

namespace BitcoinInvoice

variable {Address : Type}

/-- `wire.TxOut`. -/
structure TxOut where
  value : Int64
  pkScript : List UInt8
  deriving DecidableEq

/-- `wire.MsgTx`, of which the loops read the outputs. -/
structure MsgTx where
  txOut : List TxOut
  deriving DecidableEq

/-- How `SearchRawTransactions` fails: the node knows of no transactions of the
address, or something else went wrong. -/
inductive SearchError where
  | noTransactions
  | failure (message : String)
  deriving DecidableEq

/-- `btcutil.DecodeAddress`, `EncodeAddress`, and the addresses of
`txscript.ExtractPkScriptAddrs`, on the test network. -/
structure Codec (Address : Type) where
  decodeAddress : String → Except String Address
  encodeAddress : Address → String
  extractPkScriptAddrs : List UInt8 → Except String (List Address)

/-- `SearchRawTransactions(address, skip, count, …)` of the client. -/
abbrev Search (Address : Type) := Address → ℕ → ℕ → Except SearchError (List MsgTx)

/-- The transactions of an answer.  An error comes with a nil slice, and nobody
looks at it. -/
def foundTransactions : Except SearchError (List MsgTx) → List MsgTx
  | .ok transactions => transactions
  | .error _ => []

/-- The body of the loop over the outputs. -/
def addOutput (codec : Codec Address) (encodedAddress : Address) (paid : Int64) (vout : TxOut) :
    Except String Int64 :=
  match codec.extractPkScriptAddrs vout.pkScript with
  | .error _ => .error "could not get balance"
  | .ok addy =>
      .ok (addy.foldl (fun paid a =>
        if codec.encodeAddress a = codec.encodeAddress encodedAddress then paid + vout.value
        else paid) paid)

/-- `GetReceivedAmount`. -/
def getReceivedAmount (codec : Codec Address) (search : Search Address) (address : String) :
    Outcome Int64 :=
  match codec.decodeAddress address with
  | .error e => .fatal ("could not decode address " ++ address ++ " : " ++ e)
  | .ok encodedAddress =>
      -- the `err` of the search is shadowed in the loop, and never read
      let transactions := foundTransactions (search encodedAddress 0 100)
      .ofExcept (transactions.foldlM
        (fun paid tx => tx.txOut.foldlM (addOutput codec encodedAddress) paid) 0)

/-- `IsValidAddress`. -/
def isValidAddress (codec : Codec Address) (address : String) : Bool :=
  match codec.decodeAddress address with
  | .error _ => false
  | .ok _ => true

/-- `Bitcoinrpc`, as the handlers see it. -/
def bitcoinrpc (codec : Codec Address) (search : Search Address) : BitcoinRPC where
  getReceivedAmount := getReceivedAmount codec search
  isValidAddress := isValidAddress codec

/-! ### The loops as sums -/

/-- The addresses an output lists, printed. -/
def Codec.addresses (codec : Codec Address) (vout : TxOut) : List String :=
  match codec.extractPkScriptAddrs vout.pkScript with
  | .error _ => []
  | .ok addy => addy.map codec.encodeAddress

/-- The script of an output parses. -/
def Codec.Parses (codec : Codec Address) (vout : TxOut) : Prop :=
  ∃ addy, codec.extractPkScriptAddrs vout.pkScript = .ok addy

/-- What the loops add for an output. -/
def Codec.credit (codec : Codec Address) (address : String) (vout : TxOut) :
    Except String Int64 :=
  match codec.extractPkScriptAddrs vout.pkScript with
  | .error _ => .error "could not get balance"
  | .ok _ => .ok ((codec.addresses vout).count address • vout.value)

/-- The loops fail on the scripts that do not parse, and on no others: adding a value
cannot fail. -/
theorem Codec.credit_isError_iff {codec : Codec Address} {address : String} {vout : TxOut} :
    (∃ e, codec.credit address vout = .error e) ↔ ¬ codec.Parses vout := by
  unfold Codec.credit Codec.Parses
  cases codec.extractPkScriptAddrs vout.pkScript <;> simp

/-- The loops fail with one message, so it does not matter which script was the first that did not
parse. -/
theorem Codec.credit_eq_error {codec : Codec Address} {address e : String} {vout : TxOut}
    (h : codec.credit address vout = .error e) : e = "could not get balance" := by
  unfold Codec.credit at h
  cases hx : codec.extractPkScriptAddrs vout.pkScript with
  | error _ =>
      rw [hx] at h
      exact (Except.error.inj h).symm
  | ok _ =>
      rw [hx] at h
      cases h

/-- The innermost loop adds the value once for every listing of the address, so it adds a
multiple. -/
theorem foldl_addValue (codec : Codec Address) (address : String) (value paid : Int64)
    (addy : List Address) :
    addy.foldl (fun paid a =>
        if codec.encodeAddress a = address then paid + value else paid) paid =
      paid + (addy.map codec.encodeAddress).count address • value := by
  induction addy generalizing paid with
  | nil => simp
  | cons a addy ih =>
      rw [List.foldl_cons, ih, List.map_cons, List.count_cons]
      by_cases ha : codec.encodeAddress a = address
      · simp only [ha, if_true, beq_self_eq_true]
        rw [succ_nsmul', add_assoc]
      · simp [ha]

/-- One pass through the loop over the outputs adds what the output is credited with, or stops at
its error. -/
theorem addOutput_eq (codec : Codec Address) (encodedAddress : Address) (paid : Int64)
    (vout : TxOut) :
    addOutput codec encodedAddress paid vout =
      (codec.credit (codec.encodeAddress encodedAddress) vout).map (paid + ·) := by
  unfold addOutput Codec.credit Codec.addresses
  cases codec.extractPkScriptAddrs vout.pkScript with
  | error e => rfl
  | ok addy => exact congrArg Except.ok (foldl_addValue codec _ vout.value paid addy)

/-- The outputs of a list of transactions. -/
def outputs (transactions : List MsgTx) : List TxOut := transactions.flatMap (·.txOut)

/-- **The two loops are one sum**, over the outputs of what the node answered, in order, with the
first error instead if there is one. -/
theorem getReceivedAmount_eq {codec : Codec Address} {search : Search Address} {address : String}
    {encodedAddress : Address} (h : codec.decodeAddress address = .ok encodedAddress) :
    getReceivedAmount codec search address =
      .ofExcept (Accumulate.total (codec.credit (codec.encodeAddress encodedAddress))
        (outputs (foundTransactions (search encodedAddress 0 100)))) := by
  have hinner : ∀ (paid : Int64) (tx : MsgTx),
      tx.txOut.foldlM (addOutput codec encodedAddress) paid =
        (Accumulate.total (codec.credit (codec.encodeAddress encodedAddress)) tx.txOut).map
          (paid + ·) :=
    fun paid tx => Accumulate.foldlM_add (addOutput_eq codec encodedAddress) tx.txOut paid
  have hzero : ∀ e : Except String Int64, e.map (0 + ·) = e := by
    intro e
    cases e <;> simp [Except.map]
  unfold getReceivedAmount
  simp only [h, Accumulate.foldlM_add hinner, outputs, Accumulate.total_flatMap, hzero]

/-- **The outcome is an error exactly where some script the loops meet does not
parse**, and its text is always the same. -/
theorem getReceivedAmount_eq_error_iff {codec : Codec Address} {search : Search Address}
    {address : String} {encodedAddress : Address}
    (h : codec.decodeAddress address = .ok encodedAddress) :
    getReceivedAmount codec search address = .error "could not get balance" ↔
      ∃ vout ∈ outputs (foundTransactions (search encodedAddress 0 100)), ¬ codec.Parses vout := by
  rw [getReceivedAmount_eq h, Outcome.ofExcept_eq_error_iff]
  constructor
  · intro he
    obtain ⟨vout, hv, hx⟩ := Accumulate.exists_of_total_eq_error he
    exact ⟨vout, hv, Codec.credit_isError_iff.1 ⟨_, hx⟩⟩
  · rintro ⟨vout, hv, hn⟩
    obtain ⟨e, he⟩ := Accumulate.total_isError_iff.2 ⟨vout, hv, Codec.credit_isError_iff.2 hn⟩
    obtain ⟨vout', -, hx⟩ := Accumulate.exists_of_total_eq_error he
    rw [he, Codec.credit_eq_error hx]

/-- An amount is returned only for an address: what does not decode is an error before the node is
asked. -/
theorem decodes_of_getReceivedAmount {codec : Codec Address} {search : Search Address}
    {address : String} {paid : Int64} (hp : getReceivedAmount codec search address = .ok paid) :
    ∃ encodedAddress, codec.decodeAddress address = .ok encodedAddress := by
  cases h : codec.decodeAddress address with
  | error e => simp [getReceivedAmount, h] at hp
  | ok encodedAddress => exact ⟨encodedAddress, rfl⟩

/-- An amount is returned only if every script the loops meet parses. -/
theorem parses_of_getReceivedAmount {codec : Codec Address} {search : Search Address}
    {address : String} {encodedAddress : Address} {paid : Int64}
    (h : codec.decodeAddress address = .ok encodedAddress)
    (hp : getReceivedAmount codec search address = .ok paid) :
    ∀ vout ∈ outputs (foundTransactions (search encodedAddress 0 100)), codec.Parses vout := by
  intro vout hv
  by_contra hn
  rw [(getReceivedAmount_eq_error_iff h).2 ⟨vout, hv, hn⟩] at hp
  cases hp

/-- Where every script the loops meet parses, an amount is returned. -/
theorem getReceivedAmount_of_parses {codec : Codec Address} {search : Search Address}
    {address : String} {encodedAddress : Address}
    (h : codec.decodeAddress address = .ok encodedAddress)
    (hp : ∀ vout ∈ outputs (foundTransactions (search encodedAddress 0 100)), codec.Parses vout) :
    ∃ paid, getReceivedAmount codec search address = .ok paid := by
  rw [getReceivedAmount_eq h]
  cases ht : Accumulate.total (codec.credit (codec.encodeAddress encodedAddress))
      (outputs (foundTransactions (search encodedAddress 0 100))) with
  | ok paid => exact ⟨paid, rfl⟩
  | error e =>
      obtain ⟨vout, hv, hx⟩ := Accumulate.exists_of_total_eq_error ht
      exact absurd (hp vout hv) (Codec.credit_isError_iff.1 ⟨e, hx⟩)

/-- What outputs pay to an address: the values of those that list it. -/
def Codec.paid (codec : Codec Address) (address : String) (vouts : List TxOut) : ℤ :=
  ((vouts.filter fun vout => address ∈ codec.addresses vout).map fun vout => vout.value.toInt).sum

/-- What a list of transactions pays to an address. -/
def Codec.received (codec : Codec Address) (address : String) (transactions : List MsgTx) : ℤ :=
  codec.paid address (outputs transactions)

/-- The script parses, and lists the address at most once. -/
def Codec.ListsOnce (codec : Codec Address) (address : String) (vout : TxOut) : Prop :=
  codec.Parses vout ∧ (codec.addresses vout).count address ≤ 1

/-- An output that parses and lists no address twice is credited with its value where it lists
the address, and with nothing elsewhere. -/
theorem Codec.ListsOnce.credit {codec : Codec Address} {address : String} {vout : TxOut}
    (h : codec.ListsOnce address vout) :
    codec.credit address vout =
      .ok (if address ∈ codec.addresses vout then vout.value else 0) := by
  obtain ⟨⟨addy, haddy⟩, hcount⟩ := h
  unfold Codec.credit
  rw [haddy]
  by_cases hmem : address ∈ codec.addresses vout
  · have hone : (codec.addresses vout).count address = 1 := by
      have := List.count_pos_iff.2 hmem
      omega
    rw [hone, one_nsmul, if_pos hmem]
  · simp [List.count_eq_zero.2 hmem, hmem]

/-- The values of the outputs that list the address, zero for the others, add up to what the
outputs pay to it. -/
theorem sum_ite_toInt (codec : Codec Address) (address : String) (vouts : List TxOut) :
    ((vouts.map fun vout =>
      if address ∈ codec.addresses vout then vout.value else 0).map Int64.toInt).sum =
        codec.paid address vouts := by
  unfold Codec.paid
  induction vouts with
  | nil => rfl
  | cons vout vouts ih =>
      by_cases hmem : address ∈ codec.addresses vout
      · simp [hmem, ← ih]
      · simp [hmem, ← ih]

/-- **What `GetReceivedAmount` returns** is what the answer of the node pays to the address,
modulo `2^64`, where no output lists the address twice. -/
theorem getReceivedAmount_toInt {codec : Codec Address} {search : Search Address}
    {address : String} {encodedAddress : Address}
    (h : codec.decodeAddress address = .ok encodedAddress)
    (honce : ∀ vout ∈ outputs (foundTransactions (search encodedAddress 0 100)),
      codec.ListsOnce (codec.encodeAddress encodedAddress) vout) :
    ∃ paid, getReceivedAmount codec search address = .ok paid ∧
      paid.toInt = (codec.received (codec.encodeAddress encodedAddress)
        (foundTransactions (search encodedAddress 0 100))).bmod (2 ^ 64) := by
  have htotal := Accumulate.total_eq_ok fun vout hv => (honce vout hv).credit
  refine ⟨_, by rw [getReceivedAmount_eq h, htotal]; rfl, ?_⟩
  rw [Int64.toInt_sum, sum_ite_toInt]
  rfl

/-! ### Valid transactions -/

/-- What consensus asks of the outputs of a transaction: no negative values, and
no more than the 21 million coins in total. -/
structure MsgTx.Valid (tx : MsgTx) : Prop where
  nonneg : ∀ vout ∈ tx.txOut, 0 ≤ vout.value.toInt
  total : (tx.txOut.map fun vout => vout.value.toInt).sum ≤ 21 * 10 ^ 14

variable {codec : Codec Address} {address : String} {transactions : List MsgTx}

/-- No output of a valid transaction has a negative value, which is half of what the consensus
asks of it. -/
theorem outputs_nonneg (h : ∀ tx ∈ transactions, tx.Valid) :
    ∀ vout ∈ outputs transactions, 0 ≤ vout.value.toInt := by
  intro vout hv
  obtain ⟨tx, htx, hmem⟩ := List.mem_flatMap.1 hv
  exact (h tx htx).nonneg vout hmem

/-- What is received in two parts of a history is what is received in each, taken together. -/
theorem Codec.received_append (codec : Codec Address) (address : String) (txs txs' : List MsgTx) :
    codec.received address (txs ++ txs') =
      codec.received address txs + codec.received address txs' := by
  simp [received, paid, outputs]

/-- A history of valid transactions takes nothing away from an address, so a total that grows with
the chain never falls. -/
theorem Codec.received_nonneg (h : ∀ tx ∈ transactions, tx.Valid) :
    0 ≤ codec.received address transactions := by
  refine List.sum_nonneg fun v hv => ?_
  obtain ⟨vout, hvout, rfl⟩ := List.mem_map.1 hv
  exact outputs_nonneg h vout (List.mem_of_mem_filter hvout)

/-- Fewer transactions pay less: a node that knows only some of the chain reports no more than
there is. -/
theorem Codec.received_le_of_sublist {txs : List MsgTx} (h : ∀ tx ∈ transactions, tx.Valid)
    (hsub : txs.Sublist transactions) :
    codec.received address txs ≤ codec.received address transactions := by
  have hflat : (outputs txs).Sublist (outputs transactions) := hsub.flatMap _
  refine List.Sublist.sum_le_sum ((hflat.filter _).map _) fun v hv => ?_
  obtain ⟨vout, hvout, rfl⟩ := List.mem_map.1 hv
  exact outputs_nonneg h vout (List.mem_of_mem_filter hvout)

/-- All that transactions pay out. -/
def totalValue (transactions : List MsgTx) : ℤ :=
  ((outputs transactions).map fun vout => vout.value.toInt).sum

/-- An address has received no more than all outputs together are worth. -/
theorem Codec.received_le_totalValue (h : ∀ vout ∈ outputs transactions, 0 ≤ vout.value.toInt) :
    codec.received address transactions ≤ totalValue transactions := by
  refine List.Sublist.sum_le_sum (List.filter_sublist.map _) fun v hv => ?_
  obtain ⟨vout, hvout, rfl⟩ := List.mem_map.1 hv
  exact h vout hvout

/-- Each valid transaction pays at most all the coins there are, so a history is bounded by its
length. -/
theorem totalValue_le (h : ∀ tx ∈ transactions, tx.Valid) :
    totalValue transactions ≤ transactions.length * (21 * 10 ^ 14) := by
  induction transactions with
  | nil => simp [totalValue, outputs]
  | cons tx txs ih =>
      have htx := (h tx (List.mem_cons_self ..)).total
      have hrest := ih fun tx' htx' => h tx' (List.mem_cons_of_mem _ htx')
      have hsplit : totalValue (tx :: txs) =
          (tx.txOut.map fun vout => vout.value.toInt).sum + totalValue txs := by
        simp [totalValue, outputs]
      rw [hsplit, List.length_cons]
      push_cast
      linarith

/-- **A hundred valid transactions do not overflow:** what `GetReceivedAmount`
returns is what they pay to the address. -/
theorem getReceivedAmount_of_valid {search : Search Address} {encodedAddress : Address}
    (h : codec.decodeAddress address = .ok encodedAddress)
    (hfound : foundTransactions (search encodedAddress 0 100) = transactions)
    (hvalid : ∀ tx ∈ transactions, tx.Valid) (hlen : transactions.length ≤ 100)
    (honce : ∀ vout ∈ outputs transactions,
      codec.ListsOnce (codec.encodeAddress encodedAddress) vout) :
    ∃ paid, getReceivedAmount codec search address = .ok paid ∧
      paid.toInt = codec.received (codec.encodeAddress encodedAddress) transactions := by
  subst hfound
  obtain ⟨paid, hpaid, hint⟩ := getReceivedAmount_toInt h honce
  refine ⟨paid, hpaid, hint.trans ?_⟩
  have htotal := totalValue_le hvalid
  have hle : codec.received (codec.encodeAddress encodedAddress) _ ≤ _ :=
    Codec.received_le_totalValue (outputs_nonneg hvalid)
  have hnonneg : 0 ≤ codec.received (codec.encodeAddress encodedAddress) _ :=
    Codec.received_nonneg hvalid
  exact Int.bmod_eq_of_le (by omega) (by omega)

end BitcoinInvoice
