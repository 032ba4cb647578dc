/-
# Outputs that list an address twice

The innermost loop of `GetReceivedAmount` runs over the addresses of an output and
adds the value of the output for each that matches; nothing leaves it after the
first match.  `ExtractPkScriptAddrs` does not remove repeated keys, so an output may
list an address any number of times, and its value is counted as often
(`getReceivedAmount_counted`).  The amount is what the outputs pay, each taken once,
exactly where the repetitions are worth nothing (`counted_once_iff`).
-/

import BitcoinInvoice.Bitcoin.History

namespace BitcoinInvoice

open Transition

variable {Address : Type} {codec : Codec Address} {search : Search Address} {address : String}
  {encodedAddress : Address}

/-- The values of outputs, each as often as it lists the address. -/
def Codec.counted (codec : Codec Address) (address : String) (vouts : List TxOut) : ℤ :=
  (vouts.map fun vout => (codec.addresses vout).count address * vout.value.toInt).sum

/-- What the listings behind the first of each output are worth. -/
def Codec.repeated (codec : Codec Address) (address : String) (vouts : List TxOut) : ℤ :=
  (vouts.map fun vout =>
    ((codec.addresses vout).count address - 1 : ℕ) * vout.value.toInt).sum

/-- A listing is the first of its output, or repeated: what is counted is what was paid, and once
more for every further listing. -/
theorem Codec.counted_eq (codec : Codec Address) (address : String) (vouts : List TxOut) :
    codec.counted address vouts = codec.paid address vouts + codec.repeated address vouts := by
  unfold counted paid repeated
  induction vouts with
  | nil => rfl
  | cons vout vouts ih =>
      by_cases hmem : address ∈ codec.addresses vout
      · obtain ⟨n, hn⟩ : ∃ n, (codec.addresses vout).count address = n + 1 :=
          Nat.exists_eq_succ_of_ne_zero (List.count_pos_iff.2 hmem).ne'
        simp only [List.map_cons, List.sum_cons, List.filter_cons, hmem, decide_true, if_true, ih,
          hn, Nat.add_sub_cancel]
        push_cast
        ring
      · simp only [List.map_cons, List.sum_cons, List.filter_cons, hmem, decide_false,
          Bool.false_eq_true, if_false, ih, List.count_eq_zero.2 hmem, Nat.zero_sub]
        ring

/-- **What the three loops return:** every output counts as often as it lists the
address, modulo `2^64`. -/
theorem getReceivedAmount_counted (h : codec.decodeAddress address = .ok encodedAddress)
    (hp : ∀ vout ∈ outputs (foundTransactions (search encodedAddress 0 100)), codec.Parses vout) :
    ∃ paid, getReceivedAmount codec search address = .ok paid ∧
      paid.toInt = (codec.counted (codec.encodeAddress encodedAddress)
        (outputs (foundTransactions (search encodedAddress 0 100)))).bmod (2 ^ 64) := by
  have hcredit : ∀ vout ∈ outputs (foundTransactions (search encodedAddress 0 100)),
      codec.credit (codec.encodeAddress encodedAddress) vout =
        .ok ((codec.addresses vout).count (codec.encodeAddress encodedAddress) • vout.value) := by
    intro vout hv
    obtain ⟨addy, haddy⟩ := hp vout hv
    rw [Codec.credit, haddy]
  refine ⟨_, by rw [getReceivedAmount_eq h, Accumulate.total_eq_ok hcredit]; rfl, ?_⟩
  exact Int64.toInt_sum_nsmul _ _ _

/-- **Each output is counted once exactly where the repeated listings are worth
nothing,** up to multiples of `2^64` and in a total that fits `int64`.  With no
negative values the amount is then within what the transactions pay out. -/
theorem counted_once_iff (h : codec.decodeAddress address = .ok encodedAddress)
    {transactions : List MsgTx}
    (hfound : foundTransactions (search encodedAddress 0 100) = transactions)
    (hp : ∀ vout ∈ outputs transactions, codec.Parses vout) :
    ∃ paid, getReceivedAmount codec search address = .ok paid ∧
      ((paid.toInt = codec.received (codec.encodeAddress encodedAddress) transactions ∧
          ((∀ vout ∈ outputs transactions, 0 ≤ vout.value.toInt) →
            paid.toInt ≤ totalValue transactions)) ↔
        (-2 ^ 63 ≤ codec.received (codec.encodeAddress encodedAddress) transactions ∧
            codec.received (codec.encodeAddress encodedAddress) transactions < 2 ^ 63) ∧
          2 ^ 64 ∣ codec.repeated (codec.encodeAddress encodedAddress) (outputs transactions)) := by
  subst hfound
  obtain ⟨paid, hpaid, hint⟩ := getReceivedAmount_counted h hp
  refine ⟨paid, hpaid, ?_⟩
  set repeated := codec.repeated (codec.encodeAddress encodedAddress)
    (outputs (foundTransactions (search encodedAddress 0 100)))
  have hiff := Int64.bmod_eq_add_iff
    (a := codec.received (codec.encodeAddress encodedAddress)
      (foundTransactions (search encodedAddress 0 100)) + repeated) (b := -repeated)
  rw [add_neg_cancel_right, dvd_neg] at hiff
  rw [hint, Codec.counted_eq, ← hiff]
  constructor
  · rintro ⟨heq, -⟩
    exact heq
  · intro heq
    refine ⟨heq, fun hnonneg => ?_⟩
    exact heq.le.trans (Codec.received_le_totalValue hnonneg)

/-- A payment of a satoshi to a script that has the key of `m` twice. -/
def doubledPayment : List MsgTx := [⟨[⟨1, [0, 0]⟩]⟩]

/-- The theorem at one satoshi paid to a script that has the key of the address twice. -/
theorem counted_once_iff_doubledPayment :
    ∃ paid, getReceivedAmount plainCodec (historySearch doubledPayment) "m" = .ok paid ∧
      ((paid.toInt = plainCodec.received "m" doubledPayment ∧
          ((∀ vout ∈ outputs doubledPayment, 0 ≤ vout.value.toInt) →
            paid.toInt ≤ totalValue doubledPayment)) ↔
        (-2 ^ 63 ≤ plainCodec.received "m" doubledPayment ∧
            plainCodec.received "m" doubledPayment < 2 ^ 63) ∧
          2 ^ 64 ∣ plainCodec.repeated "m" (outputs doubledPayment)) :=
  counted_once_iff rfl rfl fun _ _ => ⟨_, rfl⟩

/-- The satoshi is counted twice, and there is only one: its script lists the address twice, as a
multisignature script may. -/
theorem doubledPayment_counted_twice :
    (∀ vout ∈ outputs doubledPayment, plainCodec.Parses vout ∧ 0 ≤ vout.value.toInt) ∧
      getReceivedAmount plainCodec (historySearch doubledPayment) "m" = .ok 2 ∧
      plainCodec.received "m" doubledPayment = 1 ∧ totalValue doubledPayment = 1 := by
  refine ⟨?_, by decide +kernel, by decide +kernel, by decide +kernel⟩
  intro vout hv
  obtain rfl : vout = _ := List.mem_singleton.1 hv
  exact ⟨⟨_, rfl⟩, by decide⟩

end BitcoinInvoice
