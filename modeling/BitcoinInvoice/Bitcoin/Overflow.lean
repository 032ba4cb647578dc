/-
# The accumulator, step by step

`GetReceivedAmount` keeps the amount in one `int64` while three loops run over the
transactions, their outputs and the addresses these list.  `Scan` is the state of
the loops, and `ScanStep` one turn of one of them, labelled with the amount after it;
the labels of a run are the intermediate amounts, up to the return or to the script
that does not parse.  The loops are these runs (`getReceivedAmount_eq_ok_iff_run`).

What is still to come bounds what has been added (`Scan.Bounded`): a hundred
transactions of at most 21 million coins each, every output listing at most twenty
addresses, come to `42 · 10^17` at most, a little under half of `2^63`.  So no
addition wraps and the amount never falls, and neither do the sums and
differences wrap that `CheckInvoice` compares it by (`received_total_in_range`).
-/

import BitcoinInvoice.Bitcoin.History

namespace BitcoinInvoice

open Transition

variable {Address : Type} {codec : Codec Address} {search : Search Address} {address : String}
  {encodedAddress : Address} {transactions : List MsgTx}

/-- The state of the loops: the amount, the addresses of the current output that are
left and its value, the outputs of the current transaction that are left, and the
transactions that are left. -/
structure Scan (Address : Type) where
  paid : Int64
  addy : List Address
  value : Int64
  vouts : List TxOut
  transactions : List MsgTx

def Scan.start (Address : Type) (transactions : List MsgTx) : Scan Address :=
  ⟨0, [], 0, [], transactions⟩

/-- The loops are over. -/
structure Scan.Done (s : Scan Address) : Prop where
  addy : s.addy = []
  vouts : s.vouts = []
  transactions : s.transactions = []

/-- One turn of a loop, with the amount after it.  At an output whose script does not
parse there is none: the function returns. -/
inductive ScanStep (codec : Codec Address) (encodedAddress : Address) :
    Scan Address → Int64 → Scan Address → Prop
  | address (paid : Int64) (a : Address) (addy : List Address) (value : Int64)
      (vouts : List TxOut) (txs : List MsgTx) (paid' : Int64)
      (h : paid' = if codec.encodeAddress a = codec.encodeAddress encodedAddress then paid + value
        else paid) :
      ScanStep codec encodedAddress ⟨paid, a :: addy, value, vouts, txs⟩ paid'
        ⟨paid', addy, value, vouts, txs⟩
  | output (paid value : Int64) (vout : TxOut) (addy : List Address) (vouts : List TxOut)
      (txs : List MsgTx) (h : codec.extractPkScriptAddrs vout.pkScript = .ok addy) :
      ScanStep codec encodedAddress ⟨paid, [], value, vout :: vouts, txs⟩ paid
        ⟨paid, addy, vout.value, vouts, txs⟩
  | transaction (paid value : Int64) (tx : MsgTx) (txs : List MsgTx) :
      ScanStep codec encodedAddress ⟨paid, [], value, [], tx :: txs⟩ paid
        ⟨paid, [], value, tx.txOut, txs⟩

/-! ### The loops are runs -/

/-- What the function returns from a state of its loops. -/
def Scan.result (codec : Codec Address) (encodedAddress : Address) (s : Scan Address) :
    Except String Int64 :=
  (s.vouts.foldlM (addOutput codec encodedAddress)
    (s.addy.foldl (fun paid a =>
      if codec.encodeAddress a = codec.encodeAddress encodedAddress then paid + s.value
      else paid) s.paid)).bind
    (s.transactions.foldlM fun paid tx => tx.txOut.foldlM (addOutput codec encodedAddress) paid)

/-- A turn of a loop leaves the result alone: what the loops return from here on is what they
return behind the turn. -/
theorem ScanStep.result_eq {s s' : Scan Address} {paid : Int64}
    (h : ScanStep codec encodedAddress s paid s') :
    s.result codec encodedAddress = s'.result codec encodedAddress := by
  cases h with
  | address paid a addy value vouts txs paid' h => simp [Scan.result, h]
  | output paid value vout addy vouts txs h =>
      simp [Scan.result, List.foldlM_cons, addOutput, h, bind, Except.bind]
  | transaction paid value tx txs =>
      simp [Scan.result, List.foldlM_cons, bind, Except.bind, pure, Except.pure]

/-- The turns through the addresses of an output, each of which adds its value if it is the one
that is looked for. -/
theorem run_addresses (addy : List Address) (paid value : Int64) (vouts : List TxOut)
    (txs : List MsgTx) :
    ∃ values, Run (ScanStep codec encodedAddress) ⟨paid, addy, value, vouts, txs⟩ values
      ⟨addy.foldl (fun paid a =>
        if codec.encodeAddress a = codec.encodeAddress encodedAddress then paid + value
        else paid) paid, [], value, vouts, txs⟩ := by
  induction addy generalizing paid with
  | nil => exact ⟨[], .nil _⟩
  | cons a addy ih =>
      obtain ⟨values, hrun⟩ := ih (if codec.encodeAddress a = codec.encodeAddress encodedAddress
        then paid + value else paid)
      exact ⟨_ :: values, .cons (.address paid a addy value vouts txs _ rfl) hrun⟩

/-- The turns through the outputs of a transaction, by induction on them: each is parsed, and then
its addresses are gone through. -/
theorem run_outputs {vouts : List TxOut} {paid paid' : Int64} (value : Int64) (txs : List MsgTx)
    (h : vouts.foldlM (addOutput codec encodedAddress) paid = .ok paid') :
    ∃ values value', Run (ScanStep codec encodedAddress) ⟨paid, [], value, vouts, txs⟩ values
      ⟨paid', [], value', [], txs⟩ := by
  induction vouts generalizing paid value with
  | nil =>
      obtain rfl := Except.ok.inj h
      exact ⟨[], value, .nil _⟩
  | cons vout vouts ih =>
      rw [List.foldlM_cons] at h
      cases hx : codec.extractPkScriptAddrs vout.pkScript with
      | error e => simp [addOutput, hx, bind, Except.bind] at h
      | ok addy =>
          simp only [addOutput, hx, bind, Except.bind] at h
          obtain ⟨values, value', hrest⟩ := ih vout.value h
          obtain ⟨values₁, hfirst⟩ := run_addresses addy paid vout.value vouts txs
          exact ⟨_, value', .cons (.output paid value vout addy vouts txs hx)
            (hfirst.append hrest)⟩

/-- The turns through the transactions, by induction on them, which are those of all their outputs
in order. -/
theorem run_transactions {txs : List MsgTx} {paid paid' : Int64} (value : Int64)
    (h : txs.foldlM (fun paid tx => tx.txOut.foldlM (addOutput codec encodedAddress) paid) paid =
      .ok paid') :
    ∃ values value', Run (ScanStep codec encodedAddress) ⟨paid, [], value, [], txs⟩ values
      ⟨paid', [], value', [], []⟩ := by
  induction txs generalizing paid value with
  | nil =>
      obtain rfl := Except.ok.inj h
      exact ⟨[], value, .nil _⟩
  | cons tx txs ih =>
      rw [List.foldlM_cons] at h
      cases hx : tx.txOut.foldlM (addOutput codec encodedAddress) paid with
      | error e => simp [hx, bind, Except.bind] at h
      | ok paid₁ =>
          simp only [hx, bind, Except.bind] at h
          obtain ⟨values₁, value₁, hfirst⟩ := run_outputs value txs hx
          obtain ⟨values, value', hrest⟩ := ih value₁ h
          exact ⟨_, value', .cons (.transaction paid value tx txs) (hfirst.append hrest)⟩

/-- **The loops return an amount exactly where a run comes to their end with it.** So what holds
at every turn of every run holds of every intermediate value of `amountPaid`. -/
theorem getReceivedAmount_eq_ok_iff_run (h : codec.decodeAddress address = .ok encodedAddress)
    {paid : Int64} :
    getReceivedAmount codec search address = .ok paid ↔
      ∃ values t, Run (ScanStep codec encodedAddress)
        (.start Address (foundTransactions (search encodedAddress 0 100))) values t ∧
          t.Done ∧ t.paid = paid := by
  have hstart : getReceivedAmount codec search address = .ofExcept
      ((Scan.start Address (foundTransactions (search encodedAddress 0 100))).result codec
        encodedAddress) := by
    simp [getReceivedAmount, h, Scan.result, Scan.start, Except.bind, pure, Except.pure]
  constructor
  · intro hp
    simp only [getReceivedAmount, h, Outcome.ofExcept_eq_ok_iff] at hp
    obtain ⟨values, value', hrun⟩ := run_transactions 0 hp
    exact ⟨values, _, hrun, ⟨rfl, rfl, rfl⟩, rfl⟩
  · rintro ⟨values, t, hrun, hdone, rfl⟩
    have hresult : (Scan.start Address (foundTransactions (search encodedAddress 0 100))).result
        codec encodedAddress = t.result codec encodedAddress :=
      (hrun.invariant (I := fun s => (Scan.start Address
        (foundTransactions (search encodedAddress 0 100))).result codec encodedAddress =
          s.result codec encodedAddress) (fun _ _ _ hs hstep => hs.trans hstep.result_eq) rfl)
    rw [hstart, hresult, Scan.result, hdone.addy, hdone.vouts, hdone.transactions]
    rfl

/-! ### What is still to come -/

/-- The outputs whose turn has not come yet. -/
def Scan.remaining (s : Scan Address) : List TxOut := s.vouts ++ outputs s.transactions

/-- The most that can still be added: the value of the current output for each of its
addresses that are left, and twenty times the values of the outputs that remain. -/
def Scan.pending (s : Scan Address) : ℤ :=
  s.addy.length * s.value.toInt + 20 * (s.remaining.map fun vout => vout.value.toInt).sum

/-- An output with a value that is not negative, and at most twenty addresses. -/
structure Codec.Small (codec : Codec Address) (vout : TxOut) : Prop where
  nonneg : 0 ≤ vout.value.toInt
  short : ∀ addy, codec.extractPkScriptAddrs vout.pkScript = .ok addy → addy.length ≤ 20

/-- **The invariant of the loops:** what has been added and what is still to come are
at most `42 · 10^17`. -/
structure Scan.Bounded (codec : Codec Address) (s : Scan Address) : Prop where
  paid : 0 ≤ s.paid.toInt
  value : 0 ≤ s.value.toInt
  small : ∀ vout ∈ s.remaining, codec.Small vout
  total : s.paid.toInt + s.pending ≤ 42 * 10 ^ 17

/-- What a scan has still to add is not negative, if neither the output it is at nor one that
is still to come has a negative value. -/
theorem Scan.pending_nonneg {s : Scan Address} (hv : 0 ≤ s.value.toInt)
    (hs : ∀ vout ∈ s.remaining, codec.Small vout) : 0 ≤ s.pending := by
  have hsum : 0 ≤ (s.remaining.map fun vout => vout.value.toInt).sum := by
    refine List.sum_nonneg fun v hv => ?_
    obtain ⟨vout, hvout, rfl⟩ := List.mem_map.1 hv
    exact (hs vout hvout).nonneg
  have haddy : 0 ≤ (s.addy.length : ℤ) * s.value.toInt := mul_nonneg (Int.natCast_nonneg _) hv
  unfold Scan.pending
  omega

/-- An address that is left stands for one more value of its output, whether or not it will be
added. -/
theorem Scan.pending_cons (paid paid' value : Int64) (a : Address) (addy : List Address)
    (vouts : List TxOut) (txs : List MsgTx) :
    (Scan.mk paid (a :: addy) value vouts txs).pending =
      value.toInt + (Scan.mk paid' addy value vouts txs).pending := by
  simp only [Scan.pending, Scan.remaining, List.length_cons]
  push_cast
  ring

/-- The amount at any turn is far below `2^63`: with what is still pending it stays within the
bound the loops started from. -/
theorem Scan.Bounded.paid_le {s : Scan Address} (h : s.Bounded codec) :
    s.paid.toInt ≤ 42 * 10 ^ 17 := by
  have := Scan.pending_nonneg h.value h.small
  have := h.total
  omega

/-- A scan of at most a hundred valid transactions, whose outputs list at most twenty addresses,
is bounded at its start: even if it counted every listing it would stay below `2^62`. -/
theorem bounded_start (hlen : transactions.length ≤ 100) (hvalid : ∀ tx ∈ transactions, tx.Valid)
    (hshort : ∀ vout ∈ outputs transactions, ∀ addy,
      codec.extractPkScriptAddrs vout.pkScript = .ok addy → addy.length ≤ 20) :
    (Scan.start Address transactions).Bounded codec where
  paid := le_rfl
  value := le_rfl
  small vout hv := ⟨outputs_nonneg hvalid vout hv, hshort vout hv⟩
  total := by
    have htotal := totalValue_le hvalid
    have hpending : (Scan.start Address transactions).pending = 20 * totalValue transactions := by
      simp [Scan.pending, Scan.start, Scan.remaining, totalValue]
    rw [hpending]
    show 0 + 20 * totalValue transactions ≤ 42 * 10 ^ 17
    omega

/-- **The next addition does not wrap,** since the value it adds is still pending, and what is
paid and pending together is bounded. -/
theorem Scan.Bounded.toInt_add {s : Scan Address} (h : s.Bounded codec) (hne : s.addy ≠ []) :
    (s.paid + s.value).toInt = s.paid.toInt + s.value.toInt ∧
      s.paid.toInt + s.value.toInt ≤ 42 * 10 ^ 17 := by
  obtain ⟨paid, _ | ⟨a, addy⟩, value, vouts, txs⟩ := s
  · exact absurd rfl hne
  have hrest : 0 ≤ (Scan.mk paid addy value vouts txs).pending :=
    Scan.pending_nonneg h.value h.small
  have htotal : paid.toInt + (Scan.mk paid (a :: addy) value vouts txs).pending ≤ 42 * 10 ^ 17 :=
    h.total
  rw [Scan.pending_cons paid paid] at htotal
  have hpaid : 0 ≤ paid.toInt := h.paid
  have hvalue : 0 ≤ value.toInt := h.value
  show (paid + value).toInt = paid.toInt + value.toInt ∧ paid.toInt + value.toInt ≤ 42 * 10 ^ 17
  refine ⟨?_, by omega⟩
  rw [Int64.toInt_add]
  exact Int.bmod_eq_of_le (by omega) (by omega)

/-- **A turn keeps the invariant**, and the amount does not fall: what it adds it takes from what
is pending. -/
theorem Scan.Bounded.step {s s' : Scan Address} {amount : Int64} (h : s.Bounded codec)
    (hs : ScanStep codec encodedAddress s amount s') :
    s'.Bounded codec ∧ s'.paid = amount ∧ s.paid.toInt ≤ amount.toInt := by
  cases hs with
  | address paid a addy value vouts txs _ hp =>
      have hadd : (paid + value).toInt = paid.toInt + value.toInt :=
        (h.toInt_add (List.cons_ne_nil a addy)).1
      have htotal : paid.toInt + (Scan.mk paid (a :: addy) value vouts txs).pending ≤
        42 * 10 ^ 17 := h.total
      rw [Scan.pending_cons paid amount] at htotal
      have hvalue : 0 ≤ value.toInt := h.value
      have hpaid : 0 ≤ paid.toInt := h.paid
      have hgrow : paid.toInt ≤ amount.toInt ∧ amount.toInt ≤ paid.toInt + value.toInt := by
        rw [hp]
        split_ifs
        · rw [hadd]
          omega
        · omega
      refine ⟨⟨?_, h.value, h.small, ?_⟩, rfl, hgrow.1⟩
      · show 0 ≤ amount.toInt
        omega
      · show amount.toInt + _ ≤ _
        omega
  | output _ value vout addy vouts txs hx =>
      have hout : codec.Small vout := h.small vout (List.mem_cons_self ..)
      refine ⟨⟨h.paid, hout.nonneg, fun v hv => h.small v (List.mem_cons_of_mem _ hv), ?_⟩, rfl,
        le_rfl⟩
      have hlen : (addy.length : ℤ) * vout.value.toInt ≤ 20 * vout.value.toInt :=
        mul_le_mul_of_nonneg_right (by exact_mod_cast hout.short addy hx) hout.nonneg
      have htotal := h.total
      simp only [Scan.pending, Scan.remaining, List.length_nil, List.cons_append, List.map_cons,
        List.sum_cons, Nat.cast_zero, zero_mul, zero_add] at htotal ⊢
      omega
  | transaction _ value tx txs =>
      have hremaining : (Scan.mk amount [] value tx.txOut txs : Scan Address).remaining =
          (Scan.mk amount [] value [] (tx :: txs) : Scan Address).remaining := by
        simp [Scan.remaining, outputs]
      refine ⟨⟨h.paid, h.value, ?_, ?_⟩, rfl, le_rfl⟩
      · rw [hremaining]
        exact h.small
      · rw [Scan.pending, hremaining]
        exact h.total

/-- **A run keeps the invariant**, and its amounts never fall, by induction on the turns from the
start of the loops. -/
theorem Scan.Bounded.run {s t : Scan Address} {values : List Int64} (h : s.Bounded codec)
    (hr : Run (ScanStep codec encodedAddress) s values t) :
    t.Bounded codec ∧ (∀ v ∈ values, s.paid.toInt ≤ v.toInt ∧ v.toInt ≤ t.paid.toInt) ∧
      (values.map Int64.toInt).Pairwise (· ≤ ·) ∧ s.paid.toInt ≤ t.paid.toInt := by
  induction hr with
  | nil s => exact ⟨h, by simp, by simp, le_rfl⟩
  | @cons s s' t amount values hs _ ih =>
      obtain ⟨h', hpaid, hle⟩ := h.step hs
      obtain ⟨ht, hvalues, hmono, hlast⟩ := ih h'
      rw [hpaid] at hvalues hlast
      refine ⟨ht, ?_, ?_, hle.trans hlast⟩
      · intro v hv
        rcases List.mem_cons.1 hv with rfl | hv
        · exact ⟨hle, hlast⟩
        · exact ⟨hle.trans (hvalues v hv).1, (hvalues v hv).2⟩
      · rw [List.map_cons, List.pairwise_cons]
        refine ⟨fun n hn => ?_, hmono⟩
        obtain ⟨v, hv, rfl⟩ := List.mem_map.1 hn
        exact (hvalues v hv).1

/-! ### Nothing leaves the range -/

/-- The sums and differences of `CheckInvoice` are those of the integers. -/
structure InRange (amountToPay amountPaid : Int64) : Prop where
  above : (amountToPay + allowedInterval amountToPay).toInt =
    amountToPay.toInt + (allowedInterval amountToPay).toInt
  below : (amountToPay - allowedInterval amountToPay).toInt =
    amountToPay.toInt - (allowedInterval amountToPay).toInt
  remaining : (amountToPay - amountPaid).toInt = amountToPay.toInt - amountPaid.toInt

/-- For an amount due of at most all coins, the edges of the tolerance and the difference to what
was received stay in range, if what was received is not negative. -/
theorem inRange_of_nonneg {amountToPay amountPaid : Int64} (h0 : 0 < amountToPay.toInt)
    (h1 : amountToPay.toInt ≤ 21 * 10 ^ 14) (hp : 0 ≤ amountPaid.toInt) :
    InRange amountToPay amountPaid := by
  have hlow := allowedInterval_nonneg h0.le
  have hlt := allowedInterval_lt h0
  have hup := amountPaid.toInt_lt
  refine ⟨?_, Int64.toInt_sub_of_bounds (by omega) (by omega),
    Int64.toInt_sub_of_bounds (by omega) (by omega)⟩
  rw [Int64.toInt_add]
  exact Int.bmod_eq_of_le (by omega) (by omega)

/-- **The received total cannot overflow.**  An amount is returned exactly where a run of
the loops comes to their end with it.  For up to a hundred valid transactions
whose outputs list at most twenty addresses each, the amounts at the turns of the
loops start from zero, never fall and stay below half of `2^63`; the next addition
is always that of the integers; and the amount returned, like those in between, can
be compared with any invoice without leaving `int64`. -/
theorem received_total_in_range (h : codec.decodeAddress address = .ok encodedAddress)
    (hfound : foundTransactions (search encodedAddress 0 100) = transactions)
    (hlen : transactions.length ≤ 100) (hvalid : ∀ tx ∈ transactions, tx.Valid)
    (hshort : ∀ vout ∈ outputs transactions, ∀ addy,
      codec.extractPkScriptAddrs vout.pkScript = .ok addy → addy.length ≤ 20) :
    (∀ paid, getReceivedAmount codec search address = .ok paid ↔
      ∃ values t, Run (ScanStep codec encodedAddress) (.start Address transactions) values t ∧
        t.Done ∧ t.paid = paid) ∧
    (∀ values t, Run (ScanStep codec encodedAddress) (.start Address transactions) values t →
      ((0 :: values).map Int64.toInt).Pairwise (· ≤ ·) ∧
        (∀ v ∈ t.paid :: values, 0 ≤ v.toInt ∧ v.toInt < 2 ^ 62) ∧
        (t.addy ≠ [] → (t.paid + t.value).toInt = t.paid.toInt + t.value.toInt) ∧
        ∀ amountToPay : Int64, 0 < amountToPay.toInt → amountToPay.toInt ≤ 21 * 10 ^ 14 →
          InRange amountToPay t.paid) ∧
    ∀ paid, getReceivedAmount codec search address = .ok paid →
      0 ≤ paid.toInt ∧ paid.toInt < 2 ^ 62 ∧
        ∀ amountToPay : Int64, 0 < amountToPay.toInt → amountToPay.toInt ≤ 21 * 10 ^ 14 →
          InRange amountToPay paid := by
  subst hfound
  have hstart : (Scan.start Address (foundTransactions (search encodedAddress 0 100))).Bounded
      codec := bounded_start hlen hvalid hshort
  refine ⟨fun paid => getReceivedAmount_eq_ok_iff_run h, ?_, ?_⟩
  · intro values t hr
    obtain ⟨ht, hvalues, hmono, -⟩ := hstart.run hr
    have hle := ht.paid_le
    refine ⟨?_, ?_, fun hne => (ht.toInt_add hne).1, fun d h0 h1 => inRange_of_nonneg h0 h1 ht.paid⟩
    · rw [List.map_cons, List.pairwise_cons]
      refine ⟨fun n hn => ?_, hmono⟩
      obtain ⟨v, hv, rfl⟩ := List.mem_map.1 hn
      exact (hvalues v hv).1
    · intro v hv
      rcases List.mem_cons.1 hv with rfl | hv
      · exact ⟨ht.paid, by omega⟩
      · have hv0 : 0 ≤ v.toInt := (hvalues v hv).1
        have hv1 := (hvalues v hv).2
        exact ⟨hv0, by omega⟩
  · intro paid hp
    obtain ⟨values, t, hr, -, rfl⟩ := (getReceivedAmount_eq_ok_iff_run h).1 hp
    have ht := (hstart.run hr).1
    have hle := ht.paid_le
    exact ⟨ht.paid, by omega, fun d h0 h1 => inRange_of_nonneg h0 h1 ht.paid⟩

/-- A full page of payments to `m` by scripts that have its key twice. -/
def fullPage : List MsgTx := List.replicate 100 ⟨[⟨100000000, [0, 0]⟩]⟩

/-- Every transaction of the full page pays one bitcoin, which is a valid amount. -/
theorem fullPage_valid : ∀ tx ∈ fullPage, tx.Valid := by
  intro tx htx
  rw [List.eq_of_mem_replicate htx]
  exact ⟨by decide, by decide⟩

/-- No output of the full page lists more than two addresses. -/
theorem fullPage_short : ∀ vout ∈ outputs fullPage, ∀ addy,
    plainCodec.extractPkScriptAddrs vout.pkScript = .ok addy → addy.length ≤ 20 := by
  intro vout hv addy haddy
  obtain ⟨tx, htx, hmem⟩ := List.mem_flatMap.1 hv
  rw [List.eq_of_mem_replicate htx, List.mem_singleton] at hmem
  subst hmem
  rw [← Except.ok.inj haddy]
  decide

/-- The theorem at a full page of payments, each of which is counted twice. -/
theorem received_total_in_range_fullPage :
    (∀ paid, getReceivedAmount plainCodec (historySearch fullPage) "m" = .ok paid ↔
      ∃ values t, Run (ScanStep plainCodec "m") (.start String fullPage) values t ∧
        t.Done ∧ t.paid = paid) ∧
    (∀ values t, Run (ScanStep plainCodec "m") (.start String fullPage) values t →
      ((0 :: values).map Int64.toInt).Pairwise (· ≤ ·) ∧
        (∀ v ∈ t.paid :: values, 0 ≤ v.toInt ∧ v.toInt < 2 ^ 62) ∧
        (t.addy ≠ [] → (t.paid + t.value).toInt = t.paid.toInt + t.value.toInt) ∧
        ∀ amountToPay : Int64, 0 < amountToPay.toInt → amountToPay.toInt ≤ 21 * 10 ^ 14 →
          InRange amountToPay t.paid) ∧
    ∀ paid, getReceivedAmount plainCodec (historySearch fullPage) "m" = .ok paid →
      0 ≤ paid.toInt ∧ paid.toInt < 2 ^ 62 ∧
        ∀ amountToPay : Int64, 0 < amountToPay.toInt → amountToPay.toInt ≤ 21 * 10 ^ 14 →
          InRange amountToPay paid :=
  received_total_in_range rfl rfl (by decide) fullPage_valid fullPage_short

end BitcoinInvoice
