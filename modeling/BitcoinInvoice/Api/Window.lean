/-
# The payment window

`getExpiry` adds fifteen minutes to a clock in nanoseconds and keeps the whole
seconds; `CheckInvoice` cuts its own clock to whole seconds and reports an invoice
expired when these are strictly greater (`expired_iff`).  So the window is open for
900 seconds, to the nanosecond, and closed from 901 seconds on; in the second
between, it closes when the clock reaches the next whole one.

Nothing changes the expiry of an entry, so where the clock does not go back an
invoice that has been reported expired stays so, whatever else happens in the run
(`payment_window`).
-/

import BitcoinInvoice.Api.Settlement

namespace BitcoinInvoice

open Transition

variable {Key : Type} {xpub : String} {childAddress : ℕ → String}

/-- The reply of a check that reports the invoice expired. -/
def Reply.ReportsExpired (reply : Reply) : Prop :=
  ∃ r, reply = .checked (.ok (some r)) ∧ r.status = .expired

/-- The expiry is 900 seconds after the second in which the invoice is created; the fraction of
the second is dropped first. -/
theorem getExpiry_toInt (now : Time) : (getExpiry now).toInt = now.ns / 10 ^ 9 + 900 := by
  have hlow := now.lower
  have hupp := now.upper
  rw [getExpiry, minute, unix_toInt (by omega) (by omega)]
  omega

/-- **When an invoice created at `created` has expired at `now`:** both are truncated to seconds,
so it is open for more than 900 seconds and at most 901. -/
theorem expired_iff {created now : Time} :
    getExpiry created < unix now.ns ↔ created.ns / 10 ^ 9 + 900 < now.ns / 10 ^ 9 := by
  rw [Int64.lt_iff_toInt_lt, getExpiry_toInt, Time.unix_toInt]

/-- Only an amount of an invoice that is not expired becomes a status, and that status
is not `expired`. -/
theorem status_ne_expired {amountToPay amountPaid : Int64} {r : InvoiceCheckResponse}
    (h : statusResponse amountToPay amountPaid = some r) : r.status ≠ .expired := by
  unfold statusResponse branches at h
  split_ifs at h <;> cases h <;> exact Status.noConfusion

/-- An invoice issued in a run is in the ledger at its end, whatever was issued after it, since
every invoice has an address of its own. -/
theorem entry_of_issued (hinj : Set.InjOn childAddress (Set.Iio (2 ^ 31)))
    {tr₁ tr₂ : List (Event Key)} {e : Event Key} {s : Server} {r : InvoiceResponse}
    (h : Run Step (Server.start xpub) (tr₁ ++ e :: tr₂) s)
    (hd : ∀ e' ∈ tr₁ ++ e :: tr₂, e'.Derives xpub childAddress) (he : e.reply.issued = some r) :
    s.invoices r.invoiceId = some r.entry := by
  obtain ⟨t, t', hrun, hstep, -⟩ := h.split
  obtain ⟨env, value, -, -, rfl⟩ := hstep.of_issued he
  have happend : tr₁ ++ e :: tr₂ = (tr₁ ++ [e]) ++ tr₂ := by simp
  rw [happend] at h hd
  exact invoices_persist hinj (hrun.snoc hstep) h hd (Server.issue_invoices_self t r)

/-- The clocks of two events of a run, of which one comes first: the clock does not go back
between them. -/
theorem clock_le {tr₁ tr₂ tr₃ : List (Event Key)} {e₁ e₂ : Event Key} {now₁ now₂ : Time}
    (h : (((tr₁ ++ e₁ :: (tr₂ ++ e₂ :: tr₃)).filterMap Event.clock).map (·.ns)).Pairwise (· ≤ ·))
    (h₁ : e₁.clock = some now₁) (h₂ : e₂.clock = some now₂) : now₁.ns ≤ now₂.ns := by
  simp only [List.filterMap_append, List.filterMap_cons, h₁, h₂, List.map_append,
    List.map_cons] at h
  have hlater := (List.pairwise_append.1 h).2.1
  exact (List.pairwise_cons.1 hlater).1 _ (by simp)

/-- **A check that reports an invoice expired** read the entry it has at the end of the
run, and its expiry was over. -/
theorem of_reportsExpired (hinj : Set.InjOn childAddress (Set.Iio (2 ^ 31)))
    {tr₁ tr₂ : List (Event Key)} {bitcoin : BitcoinRPC} {now : Time} {id : String} {reply : Reply}
    {s : Server} {invoice : Invoice}
    (h : Run Step (Server.start xpub) (tr₁ ++ ⟨.checkInvoice bitcoin now id, reply⟩ :: tr₂) s)
    (hd : ∀ e ∈ tr₁ ++ ⟨.checkInvoice bitcoin now id, reply⟩ :: tr₂, e.Derives xpub childAddress)
    (hi : s.invoices id = some invoice) (hx : reply.ReportsExpired) :
    invoice.expiry < unix now.ns ∧
      ∃ t, Run Step (Server.start xpub) tr₁ t ∧ t.invoices id = some invoice := by
  obtain ⟨t, t', hrun, hstep, -⟩ := h.split
  obtain ⟨rfl, rfl⟩ := hstep.of_checkInvoice
  obtain ⟨r, hr, hs⟩ := hx
  obtain ⟨again, hagain, hcases⟩ := checkInvoice_eq_ok (Reply.checked.inj hr)
  obtain rfl := Option.some.inj ((invoices_persist hinj hrun h hd hagain).symm.trans hi)
  refine ⟨?_, _, hrun, hagain⟩
  rcases hcases with ⟨hlt, -⟩ | ⟨-, p, -, hp⟩
  · exact hlt
  · exact absurd hs (status_ne_expired hp.symm)

/-- **A check of an entry whose expiry is over** reports the invoice expired, before it asks the
node anything, however much was paid. -/
theorem reportsExpired_of_lt {tr₁ tr₂ : List (Event Key)} {bitcoin : BitcoinRPC} {now : Time}
    {id : String} {reply : Reply} {s t : Server} {invoice : Invoice}
    (h : Run Step (Server.start xpub) (tr₁ ++ ⟨.checkInvoice bitcoin now id, reply⟩ :: tr₂) s)
    (ht : Run Step (Server.start xpub) tr₁ t) (hi : t.invoices id = some invoice)
    (hv : bitcoin.isValidAddress id = true) (hx : invoice.expiry < unix now.ns) :
    reply.ReportsExpired := by
  obtain ⟨t', hstep⟩ := run_step h ht
  rw [hstep.of_checkInvoice.1]
  exact ⟨_, by rw [checkInvoice_of_expired hv hi hx], rfl⟩

/-- The expiry of an issued invoice is the one its creation set, and no later call extends it. -/
theorem expiry_of_issued {before later : List (Event Key)} {env : CreateEnv Key} {value : Int32}
    {r : InvoiceResponse} {s : Server}
    (h : Run Step (Server.start xpub)
      (before ++ ⟨.createInvoice env value, .created (.ok r)⟩ :: later) s) :
    r.entry.expiry = getExpiry env.now := by
  obtain ⟨t, t', -, hstep, -⟩ := h.split
  obtain ⟨env', value', he, hc, -⟩ := hstep.of_issued rfl
  obtain ⟨rfl, rfl⟩ := Call.createInvoice.inj (Event.mk.inj he).1
  exact hc.expiry

/-- **Expiry is final:** the entry stays, and the clock does not go back, so a check that comes
after one that found the invoice expired finds it expired as well. -/
theorem reportsExpired_again (hinj : Set.InjOn childAddress (Set.Iio (2 ^ 31)))
    {tr₁ tr₂ tr₃ : List (Event Key)} {bitcoin₁ bitcoin₂ : BitcoinRPC} {now₁ now₂ : Time}
    {id : String} {reply₁ reply₂ : Reply} {s : Server} {invoice : Invoice}
    (h : Run Step (Server.start xpub) (tr₁ ++ ⟨.checkInvoice bitcoin₁ now₁ id, reply₁⟩ ::
      (tr₂ ++ ⟨.checkInvoice bitcoin₂ now₂ id, reply₂⟩ :: tr₃)) s)
    (hd : ∀ e ∈ tr₁ ++ ⟨.checkInvoice bitcoin₁ now₁ id, reply₁⟩ ::
      (tr₂ ++ ⟨.checkInvoice bitcoin₂ now₂ id, reply₂⟩ :: tr₃), e.Derives xpub childAddress)
    (hle : now₁.ns ≤ now₂.ns) (hi : s.invoices id = some invoice)
    (hv : bitcoin₂.isValidAddress id = true) (hx : reply₁.ReportsExpired) :
    reply₂.ReportsExpired := by
  obtain ⟨hlt, t₁, hrun₁, hi₁⟩ := of_reportsExpired hinj h hd hi hx
  rw [← List.cons_append, ← List.append_assoc] at h hd
  obtain ⟨t₂, t₂', hrun₂, -, -⟩ := h.split
  have hi₂ := invoices_persist hinj hrun₁ hrun₂ (fun e he => hd e (List.mem_append_left _ he)) hi₁
  refine reportsExpired_of_lt h hrun₂ hi₂ hv ?_
  rw [Int64.lt_iff_toInt_lt, Time.unix_toInt] at hlt ⊢
  omega

/-- What the checks of the invoice `id`, created at the instant `created`, say of its
expiry in the run `tr`, of which `later` is the part after the creation. -/
structure Window (tr later : List (Event Key)) (id : String) (created : Time) : Prop where
  opened : ∀ bitcoin now reply, ⟨.checkInvoice bitcoin now id, reply⟩ ∈ tr →
    now.ns ≤ created.ns + 900 * 10 ^ 9 → ¬ reply.ReportsExpired
  closed : ∀ bitcoin now reply, ⟨.checkInvoice bitcoin now id, reply⟩ ∈ later →
    created.ns + 901 * 10 ^ 9 ≤ now.ns → reply.ReportsExpired
  final : ∀ tr₁ tr₂ tr₃ bitcoin₁ now₁ reply₁ bitcoin₂ now₂ reply₂,
    tr = tr₁ ++ ⟨.checkInvoice bitcoin₁ now₁ id, reply₁⟩ ::
      (tr₂ ++ ⟨.checkInvoice bitcoin₂ now₂ id, reply₂⟩ :: tr₃) →
    reply₁.ReportsExpired → reply₂.ReportsExpired

/-- **The payment window is fifteen minutes, and expiry is final.**  In a run whose
clock does not go back, no check within 900 seconds of the creation of an invoice
reports it expired, every check from 901 seconds on does, and so does every check
after one that did. -/
theorem payment_window (hinj : Set.InjOn childAddress (Set.Iio (2 ^ 31)))
    {tr later : List (Event Key)} {s : Server} (h : Run Step (Server.start xpub) tr s)
    (hd : ∀ e ∈ tr, e.Derives xpub childAddress)
    (hclock : ((tr.filterMap Event.clock).map (·.ns)).Pairwise (· ≤ ·))
    {before : List (Event Key)} {env : CreateEnv Key} {value : Int32} {r : InvoiceResponse}
    (htr : tr = before ++ ⟨.createInvoice env value, .created (.ok r)⟩ :: later)
    (hv : ∀ bitcoin now reply, (⟨.checkInvoice bitcoin now r.invoiceId, reply⟩ : Event Key) ∈ tr →
      bitcoin.isValidAddress r.invoiceId = true) :
    Window tr later r.invoiceId env.now := by
  have hfinal : s.invoices r.invoiceId = some r.entry := by
    rw [htr] at h hd
    exact entry_of_issued hinj h hd rfl
  have hexpiry : r.entry.expiry = getExpiry env.now := expiry_of_issued (htr ▸ h)
  refine ⟨?_, ?_, ?_⟩
  · intro bitcoin now reply hmem hle hx
    obtain ⟨tr₁, tr₂, rfl⟩ := List.append_of_mem hmem
    have hlt := (of_reportsExpired hinj h hd hfinal hx).1
    rw [hexpiry, expired_iff] at hlt
    omega
  · intro bitcoin now reply hmem hle
    obtain ⟨mid, rest, rfl⟩ := List.append_of_mem hmem
    rw [← List.cons_append, ← List.append_assoc] at htr
    subst htr
    obtain ⟨t, t', hrun, -, -⟩ := h.split
    have hi := entry_of_issued hinj hrun (fun e he => hd e (List.mem_append_left _ he)) rfl
    have hvalid := hv bitcoin now reply (List.mem_append_right _ (List.mem_cons_self ..))
    refine reportsExpired_of_lt h hrun hi hvalid ?_
    rw [hexpiry, expired_iff]
    omega
  · rintro tr₁ tr₂ tr₃ bitcoin₁ now₁ reply₁ bitcoin₂ now₂ reply₂ rfl hx₁
    exact reportsExpired_again hinj h hd (clock_le hclock rfl rfl) hfinal
      (hv bitcoin₂ now₂ reply₂ (by simp)) hx₁

/-- The window of the invoice, in the run that pays it and checks it too late. -/
theorem payment_window_expiredCalls :
    Window ((Server.start "tpub").play expiredCalls).1
      (((Server.start "tpub").play expiredCalls).1.drop 1) "m" (.ofSeconds 0) := by
  have htr : ((Server.start "tpub").play expiredCalls).1 =
      [] ++ ⟨.createInvoice (unaryEnv "1".toList) 3200,
        .created (.ok ⟨3200, 100000000, 900, "m"⟩)⟩ ::
          ((Server.start "tpub").play expiredCalls).1.drop 1 := by
    rw [Server.play_eq_zipWith, expiredCalls_replies]
    rfl
  refine payment_window unaryAddress_injective.injOn expiredCalls_run expiredCalls_derives
    expiredCalls_steady.clock htr fun bitcoin now reply hmem => ?_
  rw [Server.play_eq_zipWith, expiredCalls_replies] at hmem
  simp only [expiredCalls, List.zipWith_cons_cons, List.zipWith_nil_left, List.mem_cons,
    Event.mk.injEq, reduceCtorEq, false_and, false_or, Call.checkInvoice.injEq,
    List.not_mem_nil, or_false] at hmem
  rcases hmem with ⟨⟨rfl, -⟩, -⟩ | ⟨⟨rfl, -⟩, -⟩
  · rfl
  · rfl

end BitcoinInvoice
