/-
# A status only moves forward

Where the clock of the checks of one invoice does not go back, and the totals the node
reports to them are not negative and do not shrink, their answers go through the statuses
in one order: unpaid, partially paid, paid, over-paid, expired.  Some may be left out, and
none comes back once another has taken its place (`statuses_forward`).  Nothing is asked of
the amount due for that, which may be negative, or so large that the edges of the tolerance
wrap, and nothing of the other calls of the run, nor of a query that fails.  What remains to
be paid does not grow either, where the amount due is not negative.
-/

import BitcoinInvoice.Api.Window

namespace BitcoinInvoice

open Transition

variable {Key : Type} {xpub : String} {childAddress : ℕ → String} {id : String}

/-- The answer of a check of `id`. -/
def Event.status (id : String) (e : Event Key) : Option InvoiceCheckResponse :=
  match e.call, e.reply with
  | .checkInvoice _ _ id', .checked (.ok answer) => if id' = id then answer else none
  | .checkInvoice _ _ _, .checked (.error _) | .checkInvoice _ _ _, .checked (.fatal _)
  | .checkInvoice _ _ _, .checked .nilDereference | .checkInvoice _ _ _, .created _
  | .checkInvoice _ _ _, .got _ | .createInvoice _ _, _ | .getInvoice _, _ => none

/-- Only a check that was answered with a status has one. -/
theorem Event.of_status {e : Event Key} {r : InvoiceCheckResponse} (h : e.status id = some r) :
    ∃ bitcoin now, e = ⟨.checkInvoice bitcoin now id, .checked (.ok (some r))⟩ := by
  obtain ⟨call, reply⟩ := e
  cases call with
  | checkInvoice bitcoin now id' =>
      cases reply with
      | checked result =>
          cases result with
          | ok answer =>
              obtain ⟨rfl, rfl⟩ := Option.ite_none_right_eq_some.1 h
              exact ⟨bitcoin, now, rfl⟩
          | error m | fatal m | nilDereference => cases h
      | created result | got result => cases h
  | createInvoice env value | getInvoice id' => cases h

/-- The lower edge of an amount that is not negative is at most the amount, even where the
tolerance is so large that the difference wraps. -/
theorem low_le {amountToPay : Int64} (hdue : 0 ≤ amountToPay.toInt) :
    (amountToPay - allowedInterval amountToPay).toInt ≤ amountToPay.toInt := by
  have hnonneg := allowedInterval_nonneg hdue
  have hup := amountToPay.toInt_lt
  have hlt := (allowedInterval amountToPay).toInt_lt
  rw [Int64.toInt_sub_of_bounds (by omega) (by omega)]
  omega

/-- The clock of a check of `id`. -/
def Event.checkedAt (id : String) (e : Event Key) : Option Time :=
  match e.call with
  | .checkInvoice _ now id' => if id' = id then some now else none
  | .createInvoice _ _ | .getInvoice _ => none

/-- The total that the node has for a check of `id`, where it does not fail. -/
def Event.reported (id : String) (e : Event Key) : Option Int64 :=
  match e.call with
  | .checkInvoice bitcoin _ id' =>
      if id' = id then
        match bitcoin.getReceivedAmount id with
        | .ok paid => some paid
        | .error _ | .fatal _ | .nilDereference => none
      else none
  | .createInvoice _ _ | .getInvoice _ => none

/-- The clock does not go back from one check of `id` to the next, and the totals reported
to these checks start from zero and do not shrink.  A query may fail. -/
structure SteadyAt (id : String) (tr : List (Event Key)) : Prop where
  clock : (tr.filterMap (Event.checkedAt id)).Pairwise fun now now' => now.ns ≤ now'.ns
  totals : (0 :: tr.filterMap (Event.reported id)).Pairwise (· ≤ ·)

/-- What two members of a list have, in this order, is related as the list says. -/
theorem rel_of_sublist {α β : Type} {R : β → β → Prop} {f : α → Option β} {l : List α} {a b : α}
    {c d : β} (h : (l.filterMap f).Pairwise R) (hsub : [a, b].Sublist l) (hc : f a = some c)
    (hd : f b = some d) : R c d := by
  have hpair := (List.pairwise_filterMap.1 h).sublist hsub
  exact (List.pairwise_cons.1 hpair).1 b (List.mem_singleton_self b) c hc d hd

/-- `r'` comes after `r`, where `amountToPay` is due. -/
structure Follows (amountToPay : Int64) (r r' : InvoiceCheckResponse) : Prop where
  rank : r.status.rank ≤ r'.status.rank
  remaining : 0 ≤ amountToPay.toInt →
    r'.digitalValueRemaining.toInt ≤ r.digitalValueRemaining.toInt

/-- **Two checks of one entry,** of which the second is later and sees no less: the second answer
is the same status or one further on, by cases of the branches both have taken. -/
theorem follows_of_check {bitcoin bitcoin' : BitcoinRPC} {now now' : Time} {s s' : Server}
    {invoice : Invoice} {r r' : InvoiceCheckResponse} (hi : s.invoices id = some invoice)
    (hi' : s'.invoices id = some invoice) (hr : checkInvoice bitcoin now s id = .ok (some r))
    (hr' : checkInvoice bitcoin' now' s' id = .ok (some r')) (hclock : now.ns ≤ now'.ns)
    (hnonneg : ∀ p, bitcoin.getReceivedAmount id = .ok p → 0 ≤ p)
    (htotal : ∀ p q, bitcoin.getReceivedAmount id = .ok p →
      bitcoin'.getReceivedAmount id = .ok q → p ≤ q) : Follows invoice.digitalValue r r' := by
  obtain ⟨first, hfirst, hcases⟩ := checkInvoice_eq_ok hr
  obtain ⟨second, hsecond, hcases'⟩ := checkInvoice_eq_ok hr'
  obtain rfl := Option.some.inj (hfirst.symm.trans hi)
  obtain rfl := Option.some.inj (hsecond.symm.trans hi')
  rcases hcases with ⟨hx, he⟩ | ⟨hx, p, hp, he⟩
  · -- the first answer is `expired`, and so is the second
    rcases hcases' with ⟨-, he'⟩ | ⟨hx', -⟩
    · obtain rfl := Option.some.inj he
      obtain rfl := Option.some.inj he'
      exact ⟨le_rfl, fun _ => le_rfl⟩
    · rw [Int64.lt_iff_toInt_lt, Time.unix_toInt] at hx
      rw [Int64.le_iff_toInt_le, Time.unix_toInt] at hx'
      omega
  · have h0 := hnonneg p hp
    rw [Int64.le_iff_toInt_le] at h0
    have hbranch := branch_of_statusResponse he.symm
    rcases hcases' with ⟨-, he'⟩ | ⟨-, q, hq, he'⟩
    · obtain rfl := Option.some.inj he'
      exact ⟨hbranch.rank_le, fun hdue => hbranch.remaining_nonneg (low_le hdue) h0 hdue⟩
    · have hle := htotal p q hp hq
      rw [Int64.le_iff_toInt_le] at hle
      have hbranch' := branch_of_statusResponse he'.symm
      exact ⟨hbranch.rank_mono hbranch' h0 hle,
        fun hdue => hbranch.remaining_anti hbranch' (low_le hdue) h0 hle hdue⟩

/-- A check that was answered read the entry of the end: what is in the ledger once is not
replaced in a run. -/
theorem entry_of_check (hinj : Set.InjOn childAddress (Set.Iio (2 ^ 31)))
    {tr₁ tr₂ : List (Event Key)} {bitcoin : BitcoinRPC} {now : Time} {r : InvoiceCheckResponse}
    {s : Server} {invoice : Invoice}
    (h : Run Step (Server.start xpub)
      (tr₁ ++ ⟨.checkInvoice bitcoin now id, .checked (.ok (some r))⟩ :: tr₂) s)
    (hd : ∀ e ∈ tr₁ ++ ⟨.checkInvoice bitcoin now id, .checked (.ok (some r))⟩ :: tr₂,
      e.Derives xpub childAddress) (hi : s.invoices id = some invoice) :
    ∃ t, t.invoices id = some invoice ∧ checkInvoice bitcoin now t id = .ok (some r) := by
  obtain ⟨t, t', hrun, hstep, -⟩ := h.split
  have hcheck := Reply.checked.inj hstep.of_checkInvoice.1
  obtain ⟨again, hagain, -⟩ := checkInvoice_eq_ok hcheck.symm
  obtain rfl := Option.some.inj ((invoices_persist hinj hrun h hd hagain).symm.trans hi)
  exact ⟨t, hagain, hcheck.symm⟩

/-- Two members of a list, in this order, with what lies before, between and behind them. -/
theorem exists_split_of_sublist {α : Type} {a b : α} {l : List α} (h : [a, b].Sublist l) :
    ∃ l₁ l₂ l₃, l = l₁ ++ a :: (l₂ ++ b :: l₃) := by
  obtain ⟨l₁, l', rfl, ha, hb⟩ := List.cons_sublist_iff.1 h
  obtain ⟨l₂, l₃, rfl⟩ := List.append_of_mem ha
  obtain ⟨l₄, l₅, rfl⟩ := List.append_of_mem (List.singleton_sublist.1 hb)
  exact ⟨l₂, l₃ ++ l₄, l₅, by simp⟩

/-- **A status only moves forward, and what remains does not grow.**  The answers to the
checks of an invoice follow one another in every run in which the clock and the totals of
these checks do. -/
theorem statuses_forward (hinj : Set.InjOn childAddress (Set.Iio (2 ^ 31)))
    {tr : List (Event Key)} {s : Server} (h : Run Step (Server.start xpub) tr s)
    (hd : ∀ e ∈ tr, e.Derives xpub childAddress) (hs : SteadyAt id tr) {invoice : Invoice}
    (hi : s.invoices id = some invoice) :
    (tr.filterMap (Event.status id)).Pairwise (Follows invoice.digitalValue) := by
  rw [List.pairwise_filterMap, List.pairwise_iff_forall_sublist]
  intro e₁ e₂ hsub r₁ hr₁ r₂ hr₂
  obtain ⟨bitcoin₁, now₁, rfl⟩ := Event.of_status hr₁
  obtain ⟨bitcoin₂, now₂, rfl⟩ := Event.of_status hr₂
  have hclock := rel_of_sublist hs.clock hsub (if_pos rfl) (if_pos rfl)
  have hreported : ∀ (bitcoin : BitcoinRPC) (now : Time) (r : InvoiceCheckResponse) (p : Int64),
      bitcoin.getReceivedAmount id = .ok p →
        (⟨.checkInvoice bitcoin now id, .checked (.ok (some r))⟩ : Event Key).reported id =
          some p := by
    intro bitcoin now r p hp
    simp [Event.reported, hp]
  have hnonneg : ∀ p, bitcoin₁.getReceivedAmount id = .ok p → 0 ≤ p := fun p hp =>
    (List.pairwise_cons.1 hs.totals).1 p (List.mem_filterMap.2 ⟨_, hsub.subset (by simp),
      hreported bitcoin₁ now₁ r₁ p hp⟩)
  have htotal : ∀ p q, bitcoin₁.getReceivedAmount id = .ok p →
      bitcoin₂.getReceivedAmount id = .ok q → p ≤ q := fun p q hp hq =>
    rel_of_sublist (List.pairwise_cons.1 hs.totals).2 hsub (hreported bitcoin₁ now₁ r₁ p hp)
      (hreported bitcoin₂ now₂ r₂ q hq)
  obtain ⟨tr₁, tr₂, tr₃, rfl⟩ := exists_split_of_sublist hsub
  obtain ⟨t₁, hi₁, hcheck₁⟩ := entry_of_check hinj h hd hi
  have hsplit : tr₁ ++ ⟨.checkInvoice bitcoin₁ now₁ id, .checked (.ok (some r₁))⟩ ::
      (tr₂ ++ ⟨.checkInvoice bitcoin₂ now₂ id, .checked (.ok (some r₂))⟩ :: tr₃) =
      (tr₁ ++ ⟨.checkInvoice bitcoin₁ now₁ id, .checked (.ok (some r₁))⟩ :: tr₂) ++
        ⟨.checkInvoice bitcoin₂ now₂ id, .checked (.ok (some r₂))⟩ :: tr₃ := by
    simp
  obtain ⟨t₂, hi₂, hcheck₂⟩ := entry_of_check hinj (hsplit ▸ h) (hsplit ▸ hd) hi
  exact follows_of_check hi₁ hi₂ hcheck₁ hcheck₂ hclock hnonneg htotal

/-- The invoice of `expiredCalls` is for one bitcoin, at the first address, and expires after 900
seconds. -/
theorem expiredCalls_entry :
    ((Server.start "tpub").play expiredCalls).2.invoices "m" =
      some ⟨100000000, 3200, 900, "m"⟩ := by
  decide +kernel

/-- The calls of `expiredCalls` are steady at their invoice: the clock goes on, and the one total
that the node reports is not negative. -/
theorem expiredCalls_steadyAt : SteadyAt "m" ((Server.start "tpub").play expiredCalls).1 where
  clock := by decide +kernel
  totals := by decide +kernel

/-- The theorem at two calls of which one finds the invoice paid, and the other one finds it
expired. -/
theorem statuses_forward_expiredCalls :
    (((Server.start "tpub").play expiredCalls).1.filterMap (Event.status "m")).Pairwise
      (Follows 100000000) :=
  statuses_forward unaryAddress_injective.injOn expiredCalls_run expiredCalls_derives
    expiredCalls_steadyAt expiredCalls_entry

example : ((Server.start "tpub").play expiredCalls).1.filterMap (Event.status "m") =
    [⟨.paid, 0⟩, ⟨.expired, 0⟩] := by
  decide +kernel

end BitcoinInvoice
