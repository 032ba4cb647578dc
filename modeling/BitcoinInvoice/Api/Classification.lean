/-
# Which amounts get which status

The branches of `CheckInvoice` overlap, and their order matters: the paid band
comes before the zero amount.  For an amount due `D` of up to `2^53` satoshis the
tolerance is `D / 50` rounded down, and the four answers are told apart by an exact
proportion (`statusResponse_cases`): paid where `50 |P - D| ≤ D`, unpaid where
`P = 0`, and otherwise partially paid or over-paid by the side `P` is on.

From that list of cases come the laws a customer relies on: with more money the
status never falls and what remains never grows, and paying exactly what remains
settles the invoice.  An over-paid invoice has nothing remaining, and stays
over-paid.
-/

import BitcoinInvoice.Api.Settlement

namespace BitcoinInvoice

open Transition

variable {amountToPay amountPaid : Int64}

/-- The tolerance in exact arithmetic: two hundredths of the amount, truncated. -/
def exactInterval (amountToPay : Int64) : Int64 :=
  Int64.ofInt (Float64.trunc (amountToPay.toInt * (2 / 100)))

/-- **Where `float64` is exact enough:** up to `2^53` satoshis the tolerance of the
code is the exact one. -/
theorem allowedInterval_eq_exactInterval (h0 : 0 ≤ amountToPay.toInt)
    (h1 : amountToPay.toInt ≤ 2 ^ 53) :
    allowedInterval amountToPay = exactInterval amountToPay := by
  have hq : (0 : ℚ) ≤ amountToPay.toInt * (2 / 100) :=
    mul_nonneg (by exact_mod_cast h0) (by norm_num)
  have hfloor : ⌊(amountToPay.toInt : ℚ) * (2 / 100)⌋ = amountToPay.toInt / 50 := by
    rw [show (amountToPay.toInt : ℚ) * (2 / 100) = amountToPay.toInt / (50 : ℕ) by
      push_cast
      ring, Rat.floor_intCast_div_natCast]
    rfl
  rw [← Int64.toInt_inj, allowedInterval_toInt h0 h1, exactInterval, Float64.trunc_of_nonneg hq,
    hfloor, Int64.toInt_ofInt_of_le (by omega) (by omega)]

/-- The reference: the branches with the edges of exact arithmetic, a fiftieth of the
amount below it and above it. -/
def Answers (amountToPay amountPaid : Int64) : InvoiceCheckResponse → Prop :=
  Branch (amountToPay.toInt - amountToPay.toInt / 50) (amountToPay.toInt + amountToPay.toInt / 50)
    amountToPay amountPaid

/-- **The chain of branches answers by the exact proportion.**  Up to `2^53` satoshis the
edges that the code computes are those of exact arithmetic. -/
theorem statusResponse_answers (h0 : 0 < amountToPay.toInt) (h1 : amountToPay.toInt ≤ 2 ^ 53) :
    ∃ r, statusResponse amountToPay amountPaid = some r ∧ Answers amountToPay amountPaid r := by
  have htol := allowedInterval_toInt h0.le h1
  have hlow : (amountToPay - allowedInterval amountToPay).toInt =
      amountToPay.toInt - amountToPay.toInt / 50 := by
    rw [Int64.toInt_sub_of_bounds (by omega) (by omega), htol]
  have hhigh : (amountToPay + allowedInterval amountToPay).toInt =
      amountToPay.toInt + amountToPay.toInt / 50 := by
    rw [Int64.toInt_add, htol]
    exact Int.bmod_eq_of_le (by omega) (by omega)
  obtain ⟨r, hr⟩ := statusResponse_eq_some amountToPay amountPaid
  have hbranch := branch_of_statusResponse hr
  rw [hlow, hhigh] at hbranch
  exact ⟨r, hr, hbranch⟩

namespace Answers

variable {p q : Int64} {r r' : InvoiceCheckResponse}

/-- An answer is `paid` exactly where the amount received is within a fiftieth of the amount due,
on either side: the edges of the answers are exact, so nothing is lost to rounding. -/
theorem paid_iff (h0 : 0 < amountToPay.toInt) (h : Answers amountToPay p r) :
    r = ⟨.paid, 0⟩ ↔ 50 * |p.toInt - amountToPay.toInt| ≤ amountToPay.toInt := by
  have habs : 50 * |p.toInt - amountToPay.toInt| ≤ amountToPay.toInt ↔
      amountToPay.toInt - p.toInt ≤ amountToPay.toInt / 50 ∧
        p.toInt - amountToPay.toInt ≤ amountToPay.toInt / 50 := by
    rcases abs_cases (p.toInt - amountToPay.toInt) with ⟨he, hs⟩ | ⟨he, hs⟩
    · rw [he]
      omega
    · rw [he]
      omega
  rw [habs]
  cases h with
  | paid below above => exact iff_of_true rfl ⟨by omega, by omega⟩
  | unpaid nothing off => exact iff_of_false (by simp) (by omega)
  | partiallyPaid some below => exact iff_of_false (by simp) (by omega)
  | overPaid some below above => exact iff_of_false (by simp) (by omega)

/-- An answer is `unpaid` exactly where nothing was received, since an amount due that is
positive puts zero below the lower edge. -/
theorem unpaid_iff (h0 : 0 < amountToPay.toInt) (h : Answers amountToPay p r) :
    r = ⟨.unpaid, amountToPay⟩ ↔ p = 0 := by
  rw [← Int64.toInt_inj, Int64.toInt_zero]
  cases h with
  | paid below above => exact iff_of_false (by simp) (by omega)
  | unpaid nothing off => exact iff_of_true rfl nothing
  | partiallyPaid some below => exact iff_of_false (by simp) some
  | overPaid some below above => exact iff_of_false (by simp) some

/-- An answer is `partially_paid` exactly where something was received that falls short of the
amount due by more than a fiftieth of it, and it says by how much. -/
theorem partiallyPaid_iff (hp : 0 ≤ p.toInt) (h : Answers amountToPay p r) :
    r = ⟨.partiallyPaid, amountToPay - p⟩ ↔
      0 < p.toInt ∧ amountToPay.toInt < 50 * (amountToPay.toInt - p.toInt) := by
  cases h with
  | paid below above => exact iff_of_false (by simp) (by omega)
  | unpaid nothing off => exact iff_of_false (by simp) (by omega)
  | partiallyPaid some below => exact iff_of_true rfl (by omega)
  | overPaid some below above => exact iff_of_false (by simp) (by omega)

/-- An answer is `over_paid` exactly where what was received exceeds the amount due by more than
a fiftieth of it. -/
theorem overPaid_iff (h0 : 0 < amountToPay.toInt) (h : Answers amountToPay p r) :
    r = ⟨.overPaid, 0⟩ ↔ amountToPay.toInt < 50 * (p.toInt - amountToPay.toInt) := by
  cases h with
  | paid below above => exact iff_of_false (by simp) (by omega)
  | unpaid nothing off => exact iff_of_false (by simp) (by omega)
  | partiallyPaid some below => exact iff_of_false (by simp) (by omega)
  | overPaid some below above => exact iff_of_true rfl (by omega)

/-- Paying what remains brings the total to the amount due, or changes nothing
because it is paid. -/
theorem top_up (h : Answers amountToPay p r) (hn : r.status ≠ .overPaid) :
    p + r.digitalValueRemaining = amountToPay ∨
      p + r.digitalValueRemaining = p ∧ r = ⟨.paid, 0⟩ := by
  cases h with
  | paid => exact Or.inr ⟨Int64.add_zero p, rfl⟩
  | unpaid nothing off =>
      have hzero : p = 0 := Int64.toInt_inj.1 nothing
      exact Or.inl (by simp [hzero])
  | partiallyPaid =>
      refine Or.inl ?_
      rw [Int64.add_comm]
      exact Int64.sub_add_cancel _ _
  | overPaid => exact absurd rfl hn

/-- An answer with the status `over_paid` says that nothing remains: the status is that of one
branch only. -/
theorem eq_of_overPaid (h : Answers amountToPay p r) (ho : r.status = .overPaid) :
    r = ⟨.overPaid, 0⟩ := by
  cases h with
  | overPaid => rfl
  | paid | unpaid | partiallyPaid => cases ho

/-- The four answers there are, with what each says remains to be paid; no other one is given,
whatever was received. -/
theorem cases_eq (h : Answers amountToPay p r) :
    r = ⟨.paid, 0⟩ ∨ r = ⟨.unpaid, amountToPay⟩ ∨ r = ⟨.partiallyPaid, amountToPay - p⟩ ∨
      r = ⟨.overPaid, 0⟩ := by
  cases h <;> simp

end Answers

/-- The answers for the amounts received, where `amountToPay` is due. -/
structure Classifies (amountToPay : Int64) (answer : Int64 → InvoiceCheckResponse) : Prop where
  one : ∀ p, 0 ≤ p.toInt → answer p = ⟨.paid, 0⟩ ∨ answer p = ⟨.unpaid, amountToPay⟩ ∨
    answer p = ⟨.partiallyPaid, amountToPay - p⟩ ∨ answer p = ⟨.overPaid, 0⟩
  paid : ∀ p, 0 ≤ p.toInt →
    (answer p = ⟨.paid, 0⟩ ↔ 50 * |p.toInt - amountToPay.toInt| ≤ amountToPay.toInt)
  unpaid : ∀ p, 0 ≤ p.toInt → (answer p = ⟨.unpaid, amountToPay⟩ ↔ p = 0)
  partiallyPaid : ∀ p, 0 ≤ p.toInt → (answer p = ⟨.partiallyPaid, amountToPay - p⟩ ↔
    0 < p.toInt ∧ amountToPay.toInt < 50 * (amountToPay.toInt - p.toInt))
  overPaid : ∀ p, 0 ≤ p.toInt →
    (answer p = ⟨.overPaid, 0⟩ ↔ amountToPay.toInt < 50 * (p.toInt - amountToPay.toInt))
  rank_mono : ∀ p q, 0 ≤ p.toInt → p.toInt ≤ q.toInt →
    (answer p).status.rank ≤ (answer q).status.rank
  remaining_anti : ∀ p q, 0 ≤ p.toInt → p.toInt ≤ q.toInt →
    (answer q).digitalValueRemaining.toInt ≤ (answer p).digitalValueRemaining.toInt
  top_up : ∀ p, 0 ≤ p.toInt → (answer p).status ≠ .overPaid →
    answer (p + (answer p).digitalValueRemaining) = ⟨.paid, 0⟩
  top_up_overPaid : ∀ p, 0 ≤ p.toInt → (answer p).status = .overPaid →
    answer (p + (answer p).digitalValueRemaining) = ⟨.overPaid, 0⟩

/-- The laws follow from the reference: each of them compares two amounts received, and the
branches those fall into. -/
theorem classifies_of_answers {answer : Int64 → InvoiceCheckResponse} (h0 : 0 < amountToPay.toInt)
    (h : ∀ p, 0 ≤ p.toInt → Answers amountToPay p (answer p)) :
    Classifies amountToPay answer where
  one p hp := (h p hp).cases_eq
  paid p hp := (h p hp).paid_iff h0
  unpaid p hp := (h p hp).unpaid_iff h0
  partiallyPaid p hp := (h p hp).partiallyPaid_iff hp
  overPaid p hp := (h p hp).overPaid_iff h0
  rank_mono p q hp hle := Branch.rank_mono (h p hp) (h q (by omega)) hp hle
  remaining_anti p q hp hle :=
    Branch.remaining_anti (h p hp) (h q (by omega)) (by omega) hp hle h0.le
  top_up p hp hn := by
    rcases (h p hp).top_up hn with hdue | ⟨hsame, hpaid⟩
    · rw [hdue, (h amountToPay h0.le).paid_iff h0]
      simp [h0.le]
    · rw [hsame, hpaid]
  top_up_overPaid p hp ho := by
    have hover := (h p hp).eq_of_overPaid ho
    rw [hover]
    show answer (p + 0) = _
    rw [Int64.add_zero, hover]

/-- **Exact payment classification.**  For an issued and unexpired invoice of up to
`2^53` satoshis `CheckInvoice` answers by the exact proportion of the amount
received, which is what the tolerance of the code comes to there.  And for any two
amounts, with the tolerance in `float64` or exact and its edges wrapped, some branch
is taken. -/
theorem checkInvoice_classifies {s : Server} {id : String} {invoice : Invoice}
    (hi : s.invoices id = some invoice) (h0 : 0 < invoice.digitalValue.toInt)
    (h1 : invoice.digitalValue.toInt ≤ 21 * 10 ^ 14) :
    allowedInterval invoice.digitalValue = exactInterval invoice.digitalValue ∧
    (∃ answer, Classifies invoice.digitalValue answer ∧
      ∀ bitcoin now amountPaid, bitcoin.isValidAddress id = true →
        unix now.ns ≤ invoice.expiry → bitcoin.getReceivedAmount id = .ok amountPaid →
          checkInvoice bitcoin now s id = .ok (some (answer amountPaid))) ∧
    ∀ amountToPay amountPaid : Int64, (∃ r, statusResponse amountToPay amountPaid = some r) ∧
      ∃ r, branches (exactInterval amountToPay) amountToPay amountPaid = some r := by
  have h2 : invoice.digitalValue.toInt ≤ 2 ^ 53 := h1.trans (by norm_num)
  refine ⟨allowedInterval_eq_exactInterval h0.le h2, ?_,
    fun d p => ⟨statusResponse_eq_some d p, branches_eq_some _ d p⟩⟩
  choose answer hanswer using statusResponse_eq_some invoice.digitalValue
  refine ⟨answer, classifies_of_answers h0 fun p hp => ?_, ?_⟩
  · obtain ⟨r, hr, ha⟩ := statusResponse_answers h0 h2
    rw [hanswer p] at hr
    exact Option.some.inj hr ▸ ha
  · intro bitcoin now p hv hx hr
    rw [checkInvoice_of_received hv hi hx hr, hanswer p]

/-- The theorem at the first invoice of `ledgerCalls`, for one bitcoin at the first address,
whatever the node answers and whenever it is asked before the expiry. -/
theorem checkInvoice_classifies_ledgerCalls :
    allowedInterval 100000000 = exactInterval 100000000 ∧
    (∃ answer, Classifies 100000000 answer ∧
      ∀ bitcoin now amountPaid, bitcoin.isValidAddress "m" = true →
        unix now.ns ≤ 900 → bitcoin.getReceivedAmount "m" = .ok amountPaid →
          checkInvoice bitcoin now ((Server.start "tpub").play ledgerCalls).2 "m" =
            .ok (some (answer amountPaid))) ∧
    ∀ amountToPay amountPaid : Int64, (∃ r, statusResponse amountToPay amountPaid = some r) ∧
      ∃ r, branches (exactInterval amountToPay) amountToPay amountPaid = some r := by
  have h := checkInvoice_classifies ledgerCalls_first (by decide) (by decide)
  exact h

/-- An over-paid invoice has nothing remaining, and nothing on top leaves it over-paid, so paying
what remains does not always end in `paid`. -/
theorem ledgerCalls_overPaid :
    Run Step (Server.start "tpub") ((Server.start "tpub").play ledgerCalls).1
        ((Server.start "tpub").play ledgerCalls).2 ∧
      checkInvoice (.constant 200000000) (.ofSeconds 0)
          ((Server.start "tpub").play ledgerCalls).2 "m" = .ok (some ⟨.overPaid, 0⟩) ∧
      checkInvoice (.constant (200000000 + 0)) (.ofSeconds 0)
          ((Server.start "tpub").play ledgerCalls).2 "m" ≠ .ok (some ⟨.paid, 0⟩) :=
  ⟨ledgerCalls_run, by decide +kernel, by decide +kernel⟩

end BitcoinInvoice
