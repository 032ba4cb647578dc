/-
# Paid, unpaid and expired

What `CheckInvoice` says of an invoice, over whole runs.  An answer is `Settled`
when it is `paid` or `over_paid`; `settled_iff` says for which amounts the chain
of branches comes to that.

Two things can go wrong.  The paid band is tested before the zero amount, so an
invoice for nothing is paid by nothing; the price feed decides whether there is
one, since `getPrice` does not ask for a positive amount.  Every invoice of a run
is for at least a satoshi, and unpaid while nothing arrived, exactly when no call
of the run was `Underpriced` (`positiveLedger_iff`).  And the expiry is tested
before the node is asked, so an invoice that was paid is reported expired later
on.  Up to the expiry it stays settled (`settled_until_expiry`).
-/

import BitcoinInvoice.Api.Ledger
import BitcoinInvoice.Library.Int64Sum

namespace BitcoinInvoice

open Transition

variable {Key : Type} {xpub : String} {childAddress : ℕ → String}

/-- `paid` or `over_paid`. -/
def InvoiceCheckResponse.Settled (r : InvoiceCheckResponse) : Prop :=
  r.status = .paid ∨ r.status = .overPaid

instance (r : InvoiceCheckResponse) : Decidable r.Settled := by
  unfold InvoiceCheckResponse.Settled
  infer_instance

/-- A check that has asked the node always has an answer for it: with the interval that
the code computes, too, the chain of branches has no `else` and needs none. -/
theorem statusResponse_eq_some (amountToPay amountPaid : Int64) :
    ∃ r, statusResponse amountToPay amountPaid = some r :=
  branches_eq_some _ _ _

/-- The order of the statuses: how far an invoice is paid, and `expired` after all that. -/
def Status.rank : Status → ℕ
  | unpaid => 0
  | partiallyPaid => 1
  | paid => 2
  | overPaid => 3
  | expired => 4

/-- The branches, told apart by where the amount lies between the edges of the band. -/
inductive Branch (low high : ℤ) (amountToPay amountPaid : Int64) : InvoiceCheckResponse → Prop
  | paid (below : low ≤ amountPaid.toInt) (above : amountPaid.toInt ≤ high) :
      Branch low high amountToPay amountPaid ⟨.paid, 0⟩
  | unpaid (nothing : amountPaid.toInt = 0) (off : ¬ (low ≤ 0 ∧ 0 ≤ high)) :
      Branch low high amountToPay amountPaid ⟨.unpaid, amountToPay⟩
  | partiallyPaid (some : amountPaid.toInt ≠ 0) (below : amountPaid.toInt < low) :
      Branch low high amountToPay amountPaid ⟨.partiallyPaid, amountToPay - amountPaid⟩
  | overPaid (some : amountPaid.toInt ≠ 0) (below : low ≤ amountPaid.toInt)
      (above : high < amountPaid.toInt) :
      Branch low high amountToPay amountPaid ⟨.overPaid, 0⟩

/-- **The chain of branches takes the branch of its edges,** which are those the code
computes: for an amount near the ends of `int64` they have wrapped. -/
theorem branch_of_statusResponse {amountToPay amountPaid : Int64} {r : InvoiceCheckResponse}
    (h : statusResponse amountToPay amountPaid = some r) :
    Branch (amountToPay - allowedInterval amountToPay).toInt
      (amountToPay + allowedInterval amountToPay).toInt amountToPay amountPaid r := by
  unfold statusResponse branches at h
  simp only [ge_iff_le, gt_iff_lt, Int64.le_iff_toInt_le, Int64.lt_iff_toInt_lt, ← Int64.toInt_inj,
    Int64.toInt_zero] at h
  split_ifs at h with hband hzero hless hmore
  · obtain rfl := Option.some.inj h
    exact .paid hband.2 hband.1
  · obtain rfl := Option.some.inj h
    exact .unpaid hzero fun hoff => hband ⟨hzero ▸ hoff.2, hzero ▸ hoff.1⟩
  · obtain rfl := Option.some.inj h
    exact .partiallyPaid hzero hless
  · obtain rfl := Option.some.inj h
    exact .overPaid hzero (not_lt.1 hless) hmore

namespace Branch

variable {low high : ℤ} {amountToPay p q : Int64} {r r' : InvoiceCheckResponse}

/-- With more money an invoice does not go back in the order of the statuses, wherever the
edges of the band are: each branch begins where the one before it ends. -/
theorem rank_mono (h : Branch low high amountToPay p r) (h' : Branch low high amountToPay q r')
    (h0 : 0 ≤ p.toInt) (hle : p.toInt ≤ q.toInt) : r.status.rank ≤ r'.status.rank := by
  cases h <;> cases h' <;> simp only [Status.rank] <;> omega

/-- An answer to an amount received comes before `expired`, which is the last status of an
invoice whatever was paid for it. -/
theorem rank_le (h : Branch low high amountToPay p r) : r.status.rank ≤ Status.expired.rank := by
  cases h <;> simp [Status.rank]

/-- With more money no more remains to be paid, where the lower edge of the band is at most
the amount due: below it every satoshi that arrives is one that no longer remains. -/
theorem remaining_anti (h : Branch low high amountToPay p r)
    (h' : Branch low high amountToPay q r') (hlow : low ≤ amountToPay.toInt)
    (h0 : 0 ≤ p.toInt) (hle : p.toInt ≤ q.toInt) (hdue : 0 ≤ amountToPay.toInt) :
    r'.digitalValueRemaining.toInt ≤ r.digitalValueRemaining.toInt := by
  have hup := amountToPay.toInt_lt
  have hq := q.toInt_lt
  have hsub : (amountToPay - p).toInt = amountToPay.toInt - p.toInt :=
    Int64.toInt_sub_of_bounds (by omega) (by omega)
  have hsub' : (amountToPay - q).toInt = amountToPay.toInt - q.toInt :=
    Int64.toInt_sub_of_bounds (by omega) (by omega)
  cases h <;> cases h' <;> simp only [hsub, hsub', Int64.toInt_zero] <;> omega

/-- What remains to be paid is never negative, where the amount due is not: the difference
is reported only below the lower edge, so below the amount. -/
theorem remaining_nonneg (h : Branch low high amountToPay p r)
    (hlow : low ≤ amountToPay.toInt) (h0 : 0 ≤ p.toInt) (hdue : 0 ≤ amountToPay.toInt) :
    0 ≤ r.digitalValueRemaining.toInt := by
  have hup := amountToPay.toInt_lt
  have hp := p.toInt_lt
  have hsub : (amountToPay - p).toInt = amountToPay.toInt - p.toInt :=
    Int64.toInt_sub_of_bounds (by omega) (by omega)
  cases h <;> simp only [hsub, Int64.toInt_zero] <;> omega

end Branch

/-- **The amounts that settle an invoice:** from the lower edge of the band on,
but zero only inside the band.  Nothing is assumed of the amounts, and the edges
wrap as the code computes them. -/
theorem settled_iff {amountToPay amountPaid : Int64} :
    (∃ r, statusResponse amountToPay amountPaid = some r ∧ r.Settled) ↔
      amountToPay - allowedInterval amountToPay ≤ amountPaid ∧
        (amountPaid ≤ amountToPay + allowedInterval amountToPay ∨ amountPaid ≠ 0) := by
  unfold statusResponse branches
  generalize amountToPay - allowedInterval amountToPay = low
  generalize amountToPay + allowedInterval amountToPay = high
  simp only [ge_iff_le, gt_iff_lt, Int64.le_iff_toInt_le, Int64.lt_iff_toInt_lt]
  split_ifs with h1 h2 h3 h4
  · simp [createInvoiceCheckResponseProtobuf, InvoiceCheckResponse.Settled, h1]
  · subst h2
    simp only [createInvoiceCheckResponseProtobuf, InvoiceCheckResponse.Settled,
      Option.some.injEq, exists_eq_left', reduceCtorEq, or_self, ne_eq, not_true, or_false,
      false_iff]
    exact fun h => h1 ⟨h.2, h.1⟩
  · simp only [createInvoiceCheckResponseProtobuf, InvoiceCheckResponse.Settled,
      Option.some.injEq, exists_eq_left', reduceCtorEq, or_self, false_iff]
    omega
  · simp only [createInvoiceCheckResponseProtobuf, InvoiceCheckResponse.Settled,
      Option.some.injEq, exists_eq_left', or_true, true_iff]
    exact ⟨by omega, Or.inr h2⟩
  · exfalso
    omega

/-- More money does not unsettle an invoice: what is settled lies above the lower edge of the
tolerance, and zero, which the lowest branch is about, can only be the smaller of two amounts. -/
theorem Settled.mono {amountToPay p q : Int64} (h0 : 0 ≤ p) (hle : p ≤ q)
    (h : ∃ r, statusResponse amountToPay p = some r ∧ r.Settled) :
    ∃ r, statusResponse amountToPay q = some r ∧ r.Settled := by
  rw [settled_iff] at h ⊢
  refine ⟨Int64.le_trans h.1 hle, ?_⟩
  by_cases hq : q = 0
  · have hp : p = 0 := Int64.le_antisymm (hq ▸ hle) h0
    rw [hp] at h
    rw [hq]
    exact h.2
  · exact Or.inr hq

/-- A positive amount of which nothing arrived is unpaid: its tolerance is less than all of it, so
nothing is not within it. -/
theorem statusResponse_zero {amountToPay : Int64} (h : 0 < amountToPay) :
    statusResponse amountToPay 0 =
      some (createInvoiceCheckResponseProtobuf .unpaid amountToPay) := by
  have hpos : 0 < amountToPay.toInt := by
    rw [Int64.lt_iff_toInt_lt] at h
    exact h
  have hlow := allowedInterval_nonneg hpos.le
  have hlt := allowedInterval_lt hpos
  have hup := amountToPay.toInt_lt
  have hedge : ¬ (0 : Int64) ≥ amountToPay - allowedInterval amountToPay := by
    rw [ge_iff_le, Int64.le_iff_toInt_le, Int64.toInt_sub_of_bounds (by omega) (by omega),
      Int64.toInt_zero]
    omega
  unfold statusResponse branches
  rw [if_neg fun hband => hedge hband.2, if_pos rfl]

/-! ### Nothing received -/

/-- The answers of the feed that the call of `e` accepts are finite and fit `int64`. -/
def Event.FiniteQuote (e : Event Key) : Prop :=
  ∀ env value resp f, e.call = .createInvoice env value →
    env.client.clientDo (priceURL value) = .ok resp → resp.status = "200 OK" →
      Float64.parseFloat resp.delivered = some f → ∃ x, f = .finite x ∧ Fits x

/-- The answer to the call of `e` is less than `1 - 2^-54` satoshis. -/
def Underpriced (s : Server) (e : Event Key) : Prop :=
  Answered (fun resp => ∃ x, Float64.parseFloat resp.delivered = some (.finite x) ∧
    x * 10 ^ 8 < 1 - 1 / 2 ^ 54) s e

/-- Every invoice is for a positive amount, and unpaid while nothing arrived. -/
structure PositiveLedger (s : Server) : Prop where
  positive : ∀ id invoice, s.invoices id = some invoice → 0 < invoice.digitalValue
  unpaid : ∀ id invoice bitcoin now, s.invoices id = some invoice →
    bitcoin.isValidAddress id = true → unix now.ns ≤ invoice.expiry →
      bitcoin.getReceivedAmount id = .ok 0 →
        checkInvoice bitcoin now s id =
          .ok (some (createInvoiceCheckResponseProtobuf .unpaid invoice.digitalValue))

/-- Positive amounts are enough: each of them asks for something, and an unpaid one is reported as
such. -/
theorem PositiveLedger.of_positive {s : Server}
    (h : ∀ id invoice, s.invoices id = some invoice → 0 < invoice.digitalValue) :
    PositiveLedger s where
  positive := h
  unpaid id invoice bitcoin now hi hv hx hr := by
    rw [checkInvoice_of_received hv hi hx hr, statusResponse_zero (h id invoice hi)]

/-- The amount of an invoice that was issued is positive exactly when its call
was not underpriced. -/
theorem Creates.positive_iff {env : CreateEnv Key} {s : Server} {value : Int32}
    {r : InvoiceResponse} {e : Event Key} (h : Creates env s value r)
    (he : e.call = .createInvoice env value) (hf : e.FiniteQuote) :
    0 < r.digitalValue ↔ ¬ Underpriced s e := by
  obtain ⟨-, resp, hresp, hstatus, hq⟩ := getPrice_eq_ok_iff.1 h.price
  obtain ⟨f, hparse, hd⟩ := Option.map_eq_some_iff.1 hq
  obtain ⟨x, rfl, hx⟩ := hf env value resp f he hresp hstatus hparse
  rw [← hd, satoshis_pos_iff hx, ← not_lt, not_iff_not]
  constructor
  · intro hlt
    exact h.answered he hresp hstatus ⟨x, hparse, hlt⟩
  · rintro ⟨env', value', hcall, -, -, ⟨resp', hresp', -, x', hparse', hlt⟩, -⟩
    obtain ⟨rfl, rfl⟩ := Call.createInvoice.inj (he.symm.trans hcall)
    obtain rfl := Except.ok.inj (hresp.symm.trans hresp')
    obtain rfl := Float64.finite.inj (Option.some.inj (hparse.symm.trans hparse'))
    exact hlt

/-- **An invoice that has received nothing is unpaid in every state of a run,
exactly when no call of the run was underpriced.** -/
theorem positiveLedger_iff {tr : List (Event Key)} {s : Server}
    (h : Run Step (Server.start xpub) tr s) (hf : ∀ e ∈ tr, e.FiniteQuote) :
    (∀ tr₁ tr₂ t, tr = tr₁ ++ tr₂ → Run Step (Server.start xpub) tr₁ t → PositiveLedger t) ↔
      ∀ tr₁ e tr₂ t, tr = tr₁ ++ e :: tr₂ → Run Step (Server.start xpub) tr₁ t →
        ¬ Underpriced t e := by
  constructor
  · rintro hp tr₁ e tr₂ t rfl ht hu
    obtain ⟨u, hstep⟩ := run_step h ht
    obtain ⟨env, value, r, hcall, hc⟩ := Answered.creates (fun _ hx => by
      obtain ⟨x, hparse, -⟩ := hx
      simp [hparse]) hu
    have hserve := hstep.serve
    rw [hcall, Server.serve, createInvoice_of_creates hc] at hserve
    obtain ⟨-, rfl⟩ := Prod.mk.inj hserve
    have hpos := (hp (tr₁ ++ [e]) tr₂ _ (by simp) (ht.snoc hstep)).positive _ _
      (Server.issue_invoices_self t r)
    exact (hc.positive_iff hcall (hf _ (by simp))).1 hpos hu
  · rintro hu tr₁ tr₂ t rfl ht
    refine .of_positive fun id invoice hi => ?_
    obtain ⟨ks, env, value, r, ls, u, rfl, hks, hc, rfl⟩ := run_creates ht hi
    have hfe := hf ⟨.createInvoice env value, .created (.ok r)⟩ (by simp)
    exact (hc.positive_iff rfl hfe).2 (hu ks _ (ls ++ tr₂) u (by simp) hks)

/-- A feed that prices everything at nothing. -/
def zeroCalls : List (Call UInt32) := [.createInvoice (unaryEnv "0".toList) 3200]

/-- Playing `zeroCalls` is a run from a server that has just started. -/
theorem zeroCalls_run :
    Run Step (Server.start "tpub") ((Server.start "tpub").play zeroCalls).1
      ((Server.start "tpub").play zeroCalls).2 :=
  run_play _ _ (by decide +kernel)

/-- The feed of `zeroCalls` answers with a number, which is zero. -/
theorem zeroCalls_finiteQuote :
    ∀ e ∈ ((Server.start "tpub").play zeroCalls).1, e.FiniteQuote := by
  intro e he env value resp f hcall hresp _ hparse
  obtain rfl : e = ⟨_, _⟩ := List.mem_singleton.1 he
  obtain ⟨rfl, rfl⟩ := Call.createInvoice.inj hcall
  obtain rfl := Except.ok.inj hresp
  refine ⟨0, Option.some.inj (hparse.symm.trans ?_), ?_⟩ <;> decide +kernel

/-- The theorem at `zeroCalls`, where a quote of zero makes an invoice for nothing, which is paid
before anybody has paid. -/
theorem positiveLedger_iff_zeroCalls :
    (∀ tr₁ tr₂ t, ((Server.start "tpub").play zeroCalls).1 = tr₁ ++ tr₂ →
        Run Step (Server.start "tpub") tr₁ t → PositiveLedger t) ↔
      ∀ tr₁ e tr₂ t, ((Server.start "tpub").play zeroCalls).1 = tr₁ ++ e :: tr₂ →
        Run Step (Server.start "tpub") tr₁ t → ¬ Underpriced t e :=
  positiveLedger_iff zeroCalls_run zeroCalls_finiteQuote

/-- An invoice for 32 dollars is issued for 0 satoshis, and it is paid although
nothing arrived. -/
theorem zeroCalls_not_positiveLedger :
    Run Step (Server.start "tpub") ((Server.start "tpub").play zeroCalls).1
        ((Server.start "tpub").play zeroCalls).2 ∧
      (∀ e ∈ ((Server.start "tpub").play zeroCalls).1, e.FiniteQuote) ∧
      ((Server.start "tpub").play zeroCalls).2.invoices "m" = some ⟨0, 3200, 900, "m"⟩ ∧
      checkInvoice (.constant 0) (.ofSeconds 0)
          ((Server.start "tpub").play zeroCalls).2 "m" = .ok (some ⟨.paid, 0⟩) ∧
      ¬ PositiveLedger ((Server.start "tpub").play zeroCalls).2 := by
  have hi : ((Server.start "tpub").play zeroCalls).2.invoices "m" = some ⟨0, 3200, 900, "m"⟩ := by
    decide +kernel
  refine ⟨zeroCalls_run, zeroCalls_finiteQuote, hi, by decide +kernel, fun hp => ?_⟩
  exact absurd (hp.positive _ _ hi) (by decide)

/-! ### Settled stays settled, up to the expiry -/

/-- What the clock shows during a call. -/
def Event.clock (e : Event Key) : Option Time :=
  match e.call with
  | .createInvoice env _ => some env.now
  | .checkInvoice _ now _ => some now
  | .getInvoice _ => none

/-- What the node has to say about `id` in a call that checks it. -/
def Event.total (id : String) (e : Event Key) : Option (Outcome Int64) :=
  match e.call with
  | .checkInvoice bitcoin _ id' => if id' = id then some (bitcoin.getReceivedAmount id) else none
  | .createInvoice _ _ | .getInvoice _ => none

/-- A run in which the clock never goes back, the node answers every query, and the
total it reports for an address starts from zero and never decreases. -/
structure Steady (tr : List (Event Key)) : Prop where
  clock : ((tr.filterMap Event.clock).map (·.ns)).Pairwise (· ≤ ·)
  totals : ∀ id, ∃ ps : List Int64, tr.filterMap (Event.total id) = ps.map .ok ∧
    (0 :: ps).Pairwise (· ≤ ·)

/-- The totals of two checks of one address: the later one reports no less than the earlier one
did. -/
theorem Steady.le {tr₁ tr₂ tr₃ : List (Event Key)} {e₁ e₂ : Event Key} {id : String}
    {out₁ out₂ : Outcome Int64} (h : Steady (tr₁ ++ e₁ :: (tr₂ ++ e₂ :: tr₃)))
    (h₁ : e₁.total id = some out₁) (h₂ : e₂.total id = some out₂) :
    ∃ p q, out₁ = .ok p ∧ out₂ = .ok q ∧ 0 ≤ p ∧ p ≤ q := by
  obtain ⟨ps, hps, hle⟩ := h.totals id
  have hsub : [out₁, out₂].Sublist (ps.map .ok) := by
    rw [← hps]
    simp only [List.filterMap_append, List.filterMap_cons, h₁, h₂]
    refine List.Sublist.trans ?_ (List.sublist_append_right _ _)
    refine List.Sublist.cons_cons _ (List.Sublist.trans ?_ (List.sublist_append_right _ _))
    exact List.Sublist.cons_cons _ (List.nil_sublist _)
  obtain ⟨qs, hqs, heq⟩ := List.sublist_map_iff.1 hsub
  match qs, heq with
  | [p, q], heq =>
      simp only [List.map_cons, List.map_nil, List.cons.injEq, and_true] at heq
      have hpq := hle.sublist (List.Sublist.cons_cons 0 hqs)
      simp only [List.pairwise_cons, List.mem_cons, forall_eq_or_imp] at hpq
      exact ⟨p, q, heq.1, heq.2, hpq.1.1, hpq.2.1.1⟩

/-- **Settled stays settled up to the expiry.**  In a steady run, a check that comes
after one that reported the invoice paid or over-paid reports it paid or over-paid
again, but expired once the expiry is over. -/
theorem settled_until_expiry (hinj : Set.InjOn childAddress (Set.Iio (2 ^ 31)))
    {tr : List (Event Key)} {s : Server} (h : Run Step (Server.start xpub) tr s)
    (hd : ∀ e ∈ tr, e.Derives xpub childAddress) (hs : Steady tr) {tr₁ tr₂ tr₃ : List (Event Key)}
    {bitcoin₁ bitcoin₂ : BitcoinRPC} {now₁ now₂ : Time} {id : String}
    {r₁ r₂ : InvoiceCheckResponse}
    (htr : tr = tr₁ ++ ⟨.checkInvoice bitcoin₁ now₁ id, .checked (.ok (some r₁))⟩ ::
      (tr₂ ++ ⟨.checkInvoice bitcoin₂ now₂ id, .checked (.ok (some r₂))⟩ :: tr₃))
    (h₁ : r₁.Settled) :
    ∃ invoice, s.invoices id = some invoice ∧
      if invoice.expiry < unix now₂.ns then r₂.status = .expired else r₂.Settled := by
  subst htr
  obtain ⟨t₁, t₁', hrun₁, hstep₁, hrest⟩ := h.split
  obtain ⟨t₂, t₂', hrun₂, hstep₂, -⟩ := hrest.split
  obtain ⟨hr₁, rfl⟩ := hstep₁.of_checkInvoice
  obtain ⟨hr₂, rfl⟩ := hstep₂.of_checkInvoice
  obtain ⟨invoice, hi, hcases₁⟩ := checkInvoice_eq_ok (Reply.checked.inj hr₁).symm
  obtain ⟨again, hagain, hcases₂⟩ := checkInvoice_eq_ok (Reply.checked.inj hr₂).symm
  -- the entry the second check reads is the one the first check read
  have hi₂ : t₂'.invoices id = some invoice :=
    invoices_persist hinj hrun₁ (hrun₁.append (.cons hstep₁ hrun₂))
      (fun e he => hd e (List.mem_append.2 ((List.mem_append.1 he).imp_right fun he => by
        rw [← List.cons_append]
        exact List.mem_append_left _ he))) hi
  obtain rfl := Option.some.inj (hi₂.symm.trans hagain)
  refine ⟨invoice, invoices_persist hinj hrun₁ h hd hi, ?_⟩
  obtain ⟨p, q, hp, hq, h0, hle⟩ := hs.le (if_pos rfl) (if_pos rfl)
  rcases hcases₁ with ⟨-, he⟩ | ⟨-, p', hp', he⟩
  · obtain rfl := Option.some.inj he
    exact absurd h₁ (by decide)
  · obtain rfl := Outcome.ok.inj (hp'.symm.trans hp)
    rcases hcases₂ with ⟨hx, he₂⟩ | ⟨hx, q', hq', he₂⟩
    · rw [if_pos hx, Option.some.inj he₂]
      rfl
    · obtain rfl := Outcome.ok.inj (hq'.symm.trans hq)
      obtain ⟨r, hr, hsettled⟩ := Settled.mono h0 hle ⟨r₁, he.symm, h₁⟩
      rw [if_neg (Int64.not_lt.2 hx), Option.some.inj (he₂.trans hr)]
      exact hsettled

/-- An invoice paid in full, and checked before and after its expiry. -/
def expiredCalls : List (Call UInt32) :=
  [.createInvoice (unaryEnv "1".toList) 3200,
    .checkInvoice (.constant 100000000) (.ofSeconds 0) "m",
    .checkInvoice (.constant 100000000) (.ofSeconds 901) "m"]

/-- Playing `expiredCalls` is a run from a server that has just started. -/
theorem expiredCalls_run :
    Run Step (Server.start "tpub") ((Server.start "tpub").play expiredCalls).1
      ((Server.start "tpub").play expiredCalls).2 :=
  run_play _ _ (by decide +kernel)

/-- The calls of `expiredCalls` are answered by the key derivation of the examples. -/
theorem expiredCalls_derives :
    ∀ e ∈ ((Server.start "tpub").play expiredCalls).1, e.Derives "tpub" unaryAddress := by
  simp [expiredCalls, Server.play, Event.Derives, unaryEnv, unaryKeychain_derives]

/-- The calls of `expiredCalls` are steady: the clock does not go back, and the total that the
node reports does not shrink. -/
theorem expiredCalls_steady : Steady ((Server.start "tpub").play expiredCalls).1 where
  clock := by decide +kernel
  totals id := by
    by_cases hid : "m" = id
    · subst hid
      exact ⟨[100000000, 100000000], by decide +kernel, by decide⟩
    · exact ⟨[], by simp [expiredCalls, Server.play, Event.total, hid], by decide⟩

/-- The invoice of `expiredCalls` is created, checked in time and found paid, and checked once
more when it has expired. -/
theorem expiredCalls_replies :
    ((Server.start "tpub").play expiredCalls).1.map (·.reply) =
      [.created (.ok ⟨3200, 100000000, 900, "m"⟩), .checked (.ok (some ⟨.paid, 0⟩)),
        .checked (.ok (some ⟨.expired, 0⟩))] := by
  decide +kernel

/-- The theorem at `expiredCalls`, whose second check comes a second after the expiry. -/
theorem settled_until_expiry_expiredCalls :
    ∃ invoice, ((Server.start "tpub").play expiredCalls).2.invoices "m" = some invoice ∧
      if invoice.expiry < unix (Time.ofSeconds 901).ns then
        (⟨.expired, 0⟩ : InvoiceCheckResponse).status = .expired
      else (⟨.expired, 0⟩ : InvoiceCheckResponse).Settled := by
  have htr : ((Server.start "tpub").play expiredCalls).1 =
      [⟨.createInvoice (unaryEnv "1".toList) 3200, .created (.ok ⟨3200, 100000000, 900, "m"⟩)⟩] ++
        ⟨.checkInvoice (.constant 100000000) (.ofSeconds 0) "m",
          .checked (.ok (some ⟨.paid, 0⟩))⟩ ::
        ([] ++ ⟨.checkInvoice (.constant 100000000) (.ofSeconds 901) "m",
          .checked (.ok (some ⟨.expired, 0⟩))⟩ :: []) := by
    rw [Server.play_eq_zipWith, expiredCalls_replies]
    rfl
  exact settled_until_expiry unaryAddress_injective.injOn expiredCalls_run expiredCalls_derives
    expiredCalls_steady htr (by decide)

/-- The invoice is reported paid, and expired later on, although nothing was taken back: the
expiry is tested before the money. -/
theorem expiredCalls_unsettled :
    Run Step (Server.start "tpub") ((Server.start "tpub").play expiredCalls).1
        ((Server.start "tpub").play expiredCalls).2 ∧
      Steady ((Server.start "tpub").play expiredCalls).1 ∧
      ((Server.start "tpub").play expiredCalls).1 = expiredCalls.zipWith Event.mk
        [.created (.ok ⟨3200, 100000000, 900, "m"⟩), .checked (.ok (some ⟨.paid, 0⟩)),
          .checked (.ok (some ⟨.expired, 0⟩))] := by
  refine ⟨expiredCalls_run, expiredCalls_steady, ?_⟩
  rw [Server.play_eq_zipWith, expiredCalls_replies]

end BitcoinInvoice
