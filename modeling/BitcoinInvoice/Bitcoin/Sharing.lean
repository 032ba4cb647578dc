/-
# Outputs that list two addresses

The loop over the addresses of an output takes no notice of the class of its
script or of how many signatures spend it, so the value of a bare multisig output
is credited to every address it lists.  The amounts of two invoices then add up to
what the history pays, less what lists neither of them, and once more what lists
both (`received_add_received`).  Over a history whose outputs parse and list no
address twice, no output settles two invoices exactly when none that has a value
lists both addresses (`no_output_credited_twice_iff`).
-/

import BitcoinInvoice.Bitcoin.History

namespace BitcoinInvoice

open Transition

variable {Key Address : Type} {codec : Codec Address} {search : Search Address}
  {xpub a b : String} {childAddress : ℕ → String} {chain : List MsgTx}

/-- An output of `tx` lists the address. -/
def Codec.Names (codec : Codec Address) (address : String) (tx : MsgTx) : Prop :=
  ∃ vout ∈ tx.txOut, address ∈ codec.addresses vout

/-- The node serves, for an address, those transactions of the chain that it
relates to it, and these include all that name it. -/
def Search.Indexes (search : Search Address) (codec : Codec Address) (encodedAddress : Address)
    (chain : List MsgTx) : Prop :=
  ∃ keep : MsgTx → Bool,
    (∀ tx ∈ chain, codec.Names (codec.encodeAddress encodedAddress) tx → keep tx = true) ∧
      search.Serves encodedAddress (chain.filter keep)

/-- Transactions that do not name the address pay nothing to it, so a node may leave them out of
its answer. -/
theorem Codec.received_filter {keep : MsgTx → Bool} {address : String}
    (h : ∀ tx ∈ chain, codec.Names address tx → keep tx = true) :
    codec.received address (chain.filter keep) = codec.received address chain := by
  induction chain with
  | nil => rfl
  | cons tx txs ih =>
      have hrest := ih fun tx' htx' => h tx' (List.mem_cons_of_mem _ htx')
      rw [show tx :: txs = [tx] ++ txs from rfl, List.filter_append, received_append,
        received_append, hrest]
      by_cases hk : keep tx = true
      · rw [List.filter_cons_of_pos hk, List.filter_nil]
      · have hnone : codec.received address [tx] = 0 := by
          have hnil : (outputs [tx]).filter (fun vout => address ∈ codec.addresses vout) = [] := by
            refine List.filter_eq_nil_iff.2 fun vout hv hmem => hk ?_
            refine h tx (List.mem_cons_self ..) ⟨vout, ?_, of_decide_eq_true hmem⟩
            simpa [outputs] using hv
          unfold received paid
          rw [hnil]
          rfl
        rw [List.filter_cons_of_neg hk, List.filter_nil, hnone]
        rfl

/-- Every output parses and lists no address twice. -/
def Codec.ListsDistinct (codec : Codec Address) (vout : TxOut) : Prop :=
  codec.Parses vout ∧ (codec.addresses vout).Nodup

/-- An output that lists no address twice lists this one at most once. -/
theorem Codec.ListsDistinct.listsOnce {vout : TxOut} {address : String}
    (h : codec.ListsDistinct vout) : codec.ListsOnce address vout :=
  ⟨h.1, List.nodup_iff_count_le_one.1 h.2 address⟩

/-- A short history is reported in full: up to a hundred transactions that name the address fit on
the one page the node is asked for. -/
theorem getReceivedAmount_of_indexes {encodedAddress : Address} {address : String}
    (h : codec.decodeAddress address = .ok encodedAddress)
    (hi : search.Indexes codec encodedAddress chain) (hlen : chain.length ≤ 100)
    (hvalid : ∀ tx ∈ chain, tx.Valid) (hlist : ∀ vout ∈ outputs chain, codec.ListsDistinct vout) :
    ∃ paid, getReceivedAmount codec search address = .ok paid ∧
      paid.toInt = codec.received (codec.encodeAddress encodedAddress) chain := by
  obtain ⟨keep, hkeep, hserves⟩ := hi
  have hsub : (chain.filter keep).Sublist chain := List.filter_sublist
  have hshort : (chain.filter keep).length ≤ 100 := hsub.length_le.trans hlen
  have hfound : foundTransactions (search encodedAddress 0 100) = chain.filter keep := by
    rw [hserves.found, List.take_of_length_le hshort]
  obtain ⟨paid, hpaid, hint⟩ := getReceivedAmount_of_valid h hfound
    (fun tx htx => hvalid tx (hsub.subset htx)) hshort
    (fun vout hv => (hlist vout ((hsub.flatMap _).subset hv)).listsOnce)
  exact ⟨paid, hpaid, hint.trans (Codec.received_filter hkeep)⟩

/-- The values of the outputs that list both addresses. -/
def Codec.shared (codec : Codec Address) (a b : String) (chain : List MsgTx) : ℤ :=
  (((outputs chain).filter fun vout => a ∈ codec.addresses vout ∧ b ∈ codec.addresses vout).map
    fun vout => vout.value.toInt).sum

/-- The values of the outputs that list neither address. -/
def Codec.elsewhere (codec : Codec Address) (a b : String) (chain : List MsgTx) : ℤ :=
  (((outputs chain).filter fun vout => a ∉ codec.addresses vout ∧ b ∉ codec.addresses vout).map
    fun vout => vout.value.toInt).sum

/-- **The two amounts count shared outputs twice** and the others at most once: an identity over
any list of outputs, by induction, with no condition. -/
theorem Codec.received_add_received (codec : Codec Address) (a b : String) (chain : List MsgTx) :
    codec.received a chain + codec.received b chain + codec.elsewhere a b chain =
      totalValue chain + codec.shared a b chain := by
  unfold received paid elsewhere totalValue shared
  induction outputs chain with
  | nil => rfl
  | cons vout vouts ih =>
      by_cases ha : a ∈ codec.addresses vout <;> by_cases hb : b ∈ codec.addresses vout <;>
        simp only [ha, hb, List.filter_cons, decide_true, decide_false, and_self, and_true,
          and_false, not_true, not_false_eq_true, if_true, if_false, Bool.false_eq_true,
          List.map_cons, List.sum_cons] <;>
        omega

/-- The values of the outputs that list neither address are not negative, so they add up to
nothing negative. -/
theorem Codec.elsewhere_nonneg (h : ∀ tx ∈ chain, tx.Valid) : 0 ≤ codec.elsewhere a b chain := by
  refine List.sum_nonneg fun v hv => ?_
  obtain ⟨vout, hvout, rfl⟩ := List.mem_map.1 hv
  exact outputs_nonneg h vout (List.mem_of_mem_filter hvout)

/-- Where no output with a value lists both addresses, nothing is shared, and no coin is credited
to two invoices. -/
theorem Codec.shared_eq_zero (hvalid : ∀ tx ∈ chain, tx.Valid)
    (h : ∀ vout ∈ outputs chain, 0 < vout.value.toInt →
      ¬ (a ∈ codec.addresses vout ∧ b ∈ codec.addresses vout)) : codec.shared a b chain = 0 := by
  refine List.sum_eq_zero fun v hv => ?_
  obtain ⟨vout, hvout, rfl⟩ := List.mem_map.1 hv
  obtain ⟨hmem, hboth⟩ := List.mem_filter.1 hvout
  have hnonneg := outputs_nonneg hvalid vout hmem
  have hnotpos : ¬ 0 < vout.value.toInt := fun hpos => h vout hmem hpos (of_decide_eq_true hboth)
  omega

/-- The loops credit the value of the output, and it has one. -/
def Codec.Credits (codec : Codec Address) (address : String) (vout : TxOut) : Prop :=
  ∃ v, codec.credit address vout = .ok v ∧ 0 < v.toInt

/-- An output that lists no address twice is credited to an address, with a value, exactly where
it lists it and has one. -/
theorem Codec.ListsDistinct.credits_iff {vout : TxOut} {address : String}
    (h : codec.ListsDistinct vout) :
    codec.Credits address vout ↔ address ∈ codec.addresses vout ∧ 0 < vout.value.toInt := by
  unfold Codec.Credits
  rw [h.listsOnce.credit]
  by_cases hmem : address ∈ codec.addresses vout
  · simp [hmem]
  · simp [hmem]

/-- The address of an issued invoice decodes, and what it received is reported in full. -/
theorem getReceivedAmount_of_issued (hinj : Set.InjOn childAddress (Set.Iio (2 ^ 31)))
    {tr : List (Event Key)} {s : Server} (h : Run Step (Server.start xpub) tr s)
    (hd : ∀ e ∈ tr, e.Derives xpub childAddress)
    (hcodec : ∀ i < 2 ^ 31, ∃ encodedAddress,
      codec.decodeAddress (childAddress i) = .ok encodedAddress ∧
        codec.encodeAddress encodedAddress = childAddress i)
    (ha : s.invoices a ≠ none) (hlen : chain.length ≤ 100)
    (hvalid : ∀ tx ∈ chain, tx.Valid) (hlist : ∀ vout ∈ outputs chain, codec.ListsDistinct vout)
    (hindex : ∀ encodedAddress, search.Indexes codec encodedAddress chain) :
    ∃ paid, getReceivedAmount codec search a = .ok paid ∧
      paid.toInt = codec.received a chain := by
  have ht := (run_tracks hinj h hd).2
  obtain ⟨i, hi, rfl⟩ := ht.invoices_ne_none_iff.1 ha
  have hbound := ht.bound
  rw [← ht.index] at hbound
  obtain ⟨encodedAddress, hdecode, hencode⟩ := hcodec i (by omega)
  rw [← hencode] at hdecode ⊢
  exact getReceivedAmount_of_indexes hdecode (hindex encodedAddress) hlen hvalid hlist

/-- **No output settles two invoices, exactly where none lists both addresses.**
For any two addresses issued in a run, and any valid history of at most 100
transactions that the node indexes, the amounts of both are returned; they stay
within what the history pays, with no output credited to both, exactly when no
output that has a value lists both.  For the bound alone it is enough, and needed,
that shared outputs are worth no more than those that list neither address. -/
theorem no_output_credited_twice_iff (hinj : Set.InjOn childAddress (Set.Iio (2 ^ 31)))
    {tr : List (Event Key)} {s : Server} (h : Run Step (Server.start xpub) tr s)
    (hd : ∀ e ∈ tr, e.Derives xpub childAddress)
    (hcodec : ∀ i < 2 ^ 31, ∃ encodedAddress,
      codec.decodeAddress (childAddress i) = .ok encodedAddress ∧
        codec.encodeAddress encodedAddress = childAddress i)
    (ha : s.invoices a ≠ none) (hb : s.invoices b ≠ none) (hlen : chain.length ≤ 100)
    (hvalid : ∀ tx ∈ chain, tx.Valid) (hlist : ∀ vout ∈ outputs chain, codec.ListsDistinct vout)
    (hindex : ∀ encodedAddress, search.Indexes codec encodedAddress chain) :
    ∃ p q, getReceivedAmount codec search a = .ok p ∧ getReceivedAmount codec search b = .ok q ∧
      ((p.toInt + q.toInt ≤ totalValue chain ∧
          ∀ vout ∈ outputs chain, ¬ (codec.Credits a vout ∧ codec.Credits b vout)) ↔
        ∀ vout ∈ outputs chain, 0 < vout.value.toInt →
          ¬ (a ∈ codec.addresses vout ∧ b ∈ codec.addresses vout)) ∧
      (p.toInt + q.toInt ≤ totalValue chain ↔
        codec.shared a b chain ≤ codec.elsewhere a b chain) := by
  obtain ⟨p, hp, hpi⟩ :=
    getReceivedAmount_of_issued hinj h hd hcodec ha hlen hvalid hlist hindex
  obtain ⟨q, hq, hqi⟩ :=
    getReceivedAmount_of_issued hinj h hd hcodec hb hlen hvalid hlist hindex
  have hsum := codec.received_add_received a b chain
  have helse : 0 ≤ codec.elsewhere a b chain := Codec.elsewhere_nonneg hvalid
  refine ⟨p, q, hp, hq, ⟨?_, fun hnone => ⟨?_, ?_⟩⟩, by rw [hpi, hqi]; omega⟩
  · rintro ⟨-, hsingle⟩ vout hv hpos ⟨hma, hmb⟩
    have hd := hlist vout hv
    exact hsingle vout hv ⟨hd.credits_iff.2 ⟨hma, hpos⟩, hd.credits_iff.2 ⟨hmb, hpos⟩⟩
  · have hshared : codec.shared a b chain = 0 := Codec.shared_eq_zero hvalid hnone
    rw [hpi, hqi]
    omega
  · rintro vout hv ⟨hca, hcb⟩
    have hd := hlist vout hv
    obtain ⟨hma, hpos⟩ := hd.credits_iff.1 hca
    exact hnone vout hv hpos ⟨hma, (hd.credits_iff.1 hcb).1⟩

/-- One bitcoin, to a bare multisig script that lists `m` and `mm`. -/
def multisigChain : List MsgTx := [⟨[⟨100000000, [0, 1]⟩]⟩]

/-- The one transaction of the chain pays one bitcoin, which is a valid amount. -/
theorem multisigChain_valid : ∀ tx ∈ multisigChain, tx.Valid := by
  intro tx htx
  obtain rfl := List.mem_singleton.1 htx
  exact ⟨by decide, by decide⟩

/-- The output lists both addresses once. -/
theorem multisigChain_listsDistinct :
    ∀ vout ∈ outputs multisigChain, plainCodec.ListsDistinct vout := by
  intro vout hv
  obtain rfl := List.mem_singleton.1 hv
  exact ⟨⟨_, rfl⟩, by decide⟩

/-- The node of a history relates all of it to every address, which includes all that names
it. -/
theorem historySearch_indexes (codec : Codec Address) (chain : List MsgTx)
    (encodedAddress : Address) : (historySearch chain).Indexes codec encodedAddress chain := by
  refine ⟨fun _ => true, fun _ _ _ => rfl, ?_⟩
  rw [List.filter_true]
  exact historySearch_serves chain encodedAddress

/-- The theorem at one bitcoin paid to a script that lists the addresses of both invoices. -/
theorem no_output_credited_twice_iff_multisigChain :
    ∃ p q, getReceivedAmount plainCodec (historySearch multisigChain) "m" = .ok p ∧
      getReceivedAmount plainCodec (historySearch multisigChain) "mm" = .ok q ∧
      ((p.toInt + q.toInt ≤ totalValue multisigChain ∧
          ∀ vout ∈ outputs multisigChain,
            ¬ (plainCodec.Credits "m" vout ∧ plainCodec.Credits "mm" vout)) ↔
        ∀ vout ∈ outputs multisigChain, 0 < vout.value.toInt →
          ¬ ("m" ∈ plainCodec.addresses vout ∧ "mm" ∈ plainCodec.addresses vout)) ∧
      (p.toInt + q.toInt ≤ totalValue multisigChain ↔
        plainCodec.shared "m" "mm" multisigChain ≤ plainCodec.elsewhere "m" "mm" multisigChain) :=
  no_output_credited_twice_iff unaryAddress_injective.injOn ledgerCalls_run (ledgerCalls_derives _)
    (fun _ _ => ⟨_, rfl, rfl⟩) (by rw [ledgerCalls_first]; simp) (by decide +kernel) (by decide)
    multisigChain_valid multisigChain_listsDistinct (historySearch_indexes _ _)

/-- One bitcoin pays both invoices a bitcoin each: it was sent to a script that lists both
addresses. -/
theorem multisigChain_credited_twice :
    Run Step (Server.start "tpub") ((Server.start "tpub").play ledgerCalls).1
        ((Server.start "tpub").play ledgerCalls).2 ∧
      ((Server.start "tpub").play ledgerCalls).2.invoices "m" =
        some ⟨100000000, 3200, 900, "m"⟩ ∧
      ((Server.start "tpub").play ledgerCalls).2.invoices "mm" =
        some ⟨50000000, 1600, 900, "mm"⟩ ∧
      (∀ tx ∈ multisigChain, tx.Valid) ∧
      (∀ vout ∈ outputs multisigChain, plainCodec.ListsDistinct vout) ∧
      (∀ encodedAddress,
        (historySearch multisigChain).Indexes plainCodec encodedAddress multisigChain) ∧
      getReceivedAmount plainCodec (historySearch multisigChain) "m" = .ok 100000000 ∧
      getReceivedAmount plainCodec (historySearch multisigChain) "mm" = .ok 100000000 ∧
      totalValue multisigChain = 100000000 :=
  ⟨ledgerCalls_run, ledgerCalls_first, by decide +kernel, multisigChain_valid,
    multisigChain_listsDistinct, historySearch_indexes _ _, by decide +kernel, by decide +kernel,
    by decide +kernel⟩

end BitcoinInvoice
