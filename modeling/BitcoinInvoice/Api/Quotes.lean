/-
# Where the amounts of the ledger come from

`getPrice` drops the error of `ioutil.ReadAll`, so an answer that breaks off is
parsed as far as it came, and a prefix of a number is mostly a number.  The
amounts of the ledger are those of complete answers to the queries of their own
values, and every other answer makes `CreateInvoice` fail, exactly when the run
has no call that is `Misquoted`: one that reaches the price feed, gets a 200
answer that breaks off behind a number, and then derives an address
(`wholeQuotes_iff`).
-/

import BitcoinInvoice.Api.Derivation

namespace BitcoinInvoice

open Transition

variable {Key : Type} {xpub : String}

/-- `resp` is a complete answer with status 200 whose body is a number. -/
structure Response.Whole (resp : Response) : Prop where
  status : resp.status = "200 OK"
  complete : ¬ resp.BrokeOff
  parses : Float64.parseFloat resp.body ≠ none

/-- The amount of `invoice` is that of a complete answer to the query of its own
value, given to the call of `e`. -/
def Event.Quotes (e : Event Key) (invoice : Invoice) : Prop :=
  ∃ env, e.call = .createInvoice env invoice.fiatValue ∧
    ∃ resp, env.client.clientDo (priceURL invoice.fiatValue) = .ok resp ∧
      resp.status = "200 OK" ∧ quote env.convert resp.body = some invoice.digitalValue

/-- The answer to the call of `e` breaks off behind a number. -/
def Misquoted (s : Server) (e : Event Key) : Prop :=
  Answered (fun resp => resp.BrokeOff ∧ Float64.parseFloat resp.delivered ≠ none) s e

/-- Every amount of the ledger `s` comes from a complete answer, and every call of
the run whose answer is anything else fails and stores nothing. -/
structure WholeQuotes (xpub : String) (tr : List (Event Key)) (s : Server) : Prop where
  ledger : ∀ id invoice, s.invoices id = some invoice → ∃ e ∈ tr, e.Quotes invoice
  refuses : ∀ tr₁ e tr₂ t t', tr = tr₁ ++ e :: tr₂ → Run Step (Server.start xpub) tr₁ t →
    Step t e t' → ∀ env value, e.call = .createInvoice env value →
      (∀ resp, env.client.clientDo (priceURL value) = .ok resp → ¬ resp.Whole) →
        (∃ m, e.reply = .created (.error m)) ∧ t' = t

/-- A call that issues an invoice and is not misquoted had a complete answer: the body was read to
its end, and the amount is that of the whole number. -/
theorem Creates.whole {env : CreateEnv Key} {s : Server} {value : Int32} {r : InvoiceResponse}
    {e : Event Key} (h : Creates env s value r) (he : e.call = .createInvoice env value)
    (hm : ¬ Misquoted s e) :
    ∃ resp, env.client.clientDo (priceURL value) = .ok resp ∧ resp.Whole ∧
      quote env.convert resp.body = some r.digitalValue := by
  obtain ⟨-, resp, hresp, hstatus, hq⟩ := getPrice_eq_ok_iff.1 h.price
  have hparse : Float64.parseFloat resp.delivered ≠ none := by
    intro hn
    rw [quote, hn] at hq
    cases hq
  have hwhole : ¬ resp.BrokeOff := fun hb => hm (h.answered he hresp hstatus ⟨hb, hparse⟩)
  have hbody : resp.delivered = resp.body := not_not.1 hwhole
  rw [hbody] at hq hparse
  exact ⟨resp, hresp, ⟨hstatus, hwhole, hparse⟩, hq⟩

/-- **Every stored amount comes from a complete quote for its own value, exactly
in the runs without a misquoted call.** -/
theorem wholeQuotes_iff {tr : List (Event Key)} {s : Server}
    (h : Run Step (Server.start xpub) tr s) :
    WholeQuotes xpub tr s ↔
      ∀ tr₁ e tr₂ t, tr = tr₁ ++ e :: tr₂ → Run Step (Server.start xpub) tr₁ t →
        ¬ Misquoted t e := by
  constructor
  · rintro hw tr₁ e tr₂ t rfl ht hm
    obtain ⟨u, hstep⟩ := run_step h ht
    obtain ⟨env', value', r, hcall', hc⟩ := Answered.creates (fun _ hp => hp.2) hm
    obtain ⟨env, value, hcall, -, -, ⟨resp, hresp, -, hbroke, -⟩, -⟩ := hm
    obtain ⟨rfl, rfl⟩ := Call.createInvoice.inj (hcall.symm.trans hcall')
    obtain ⟨⟨m, he⟩, -⟩ := hw.refuses tr₁ e tr₂ t u rfl ht hstep env value hcall fun resp' hresp' =>
      fun hwhole => by
        obtain rfl := Except.ok.inj (hresp.symm.trans hresp')
        exact hwhole.complete hbroke
    have hserve := hstep.serve
    rw [hcall, he, Server.serve, createInvoice_of_creates hc] at hserve
    cases hserve
  · intro hm
    refine ⟨fun id invoice hi => ?_, ?_⟩
    · obtain ⟨tr₁, env, value, r, tr₂, t, rfl, ht, hc, rfl⟩ := run_creates h hi
      obtain ⟨resp, hresp, hwhole, hq⟩ := hc.whole rfl (hm tr₁ _ tr₂ t rfl ht)
      obtain rfl : r.entry.fiatValue = value := hc.fiat
      exact ⟨_, List.mem_append_cons_self, env, rfl, resp, hresp, hwhole.status, hq⟩
    · rintro tr₁ e tr₂ t t' rfl ht hstep env value hcall hbad
      rcases hstep.cases with ⟨env', value', r, rfl, hc, -⟩ | ⟨hn, rfl⟩
      · obtain ⟨resp, hresp, hwhole, -⟩ := hc.whole rfl (hm tr₁ _ tr₂ t rfl ht)
        obtain ⟨rfl, rfl⟩ := Call.createInvoice.inj hcall
        exact absurd hwhole (hbad resp hresp)
      · obtain ⟨call, reply⟩ := e
        obtain rfl : call = .createInvoice env value := hcall
        exact ⟨hstep.error_of_createInvoice hn, rfl⟩

/-- A feed whose answer is `10` bitcoins and breaks off behind the `1`. -/
def brokenClient : HttpClient where
  newRequest := .ok ()
  clientDo _ := .ok ⟨"200 OK", "10".toList, "1".toList, some "unexpected EOF", by decide⟩

/-- One invoice, priced by `brokenClient`. -/
def brokenCalls : List (Call UInt32) :=
  [.createInvoice { unaryEnv [] with client := brokenClient } 3200]

/-- Playing `brokenCalls` is a run from a server that has just started. -/
theorem brokenCalls_run :
    Run Step (Server.start "tpub") ((Server.start "tpub").play brokenCalls).1
      ((Server.start "tpub").play brokenCalls).2 :=
  run_play _ _ (by decide +kernel)

/-- The theorem at `brokenCalls`, where a body breaks off behind its first digits and these are
taken for the price. -/
theorem wholeQuotes_iff_brokenCalls :
    WholeQuotes "tpub" ((Server.start "tpub").play brokenCalls).1
        ((Server.start "tpub").play brokenCalls).2 ↔
      ∀ tr₁ e tr₂ t, ((Server.start "tpub").play brokenCalls).1 = tr₁ ++ e :: tr₂ →
        Run Step (Server.start "tpub") tr₁ t → ¬ Misquoted t e :=
  wholeQuotes_iff brokenCalls_run

/-- A tenth of the price is stored: the answer broke off, and no error was
returned. -/
theorem brokenCalls_not_wholeQuotes :
    Run Step (Server.start "tpub") ((Server.start "tpub").play brokenCalls).1
        ((Server.start "tpub").play brokenCalls).2 ∧
      ((Server.start "tpub").play brokenCalls).2.invoices "m" =
        some ⟨100000000, 3200, 900, "m"⟩ ∧
      ¬ WholeQuotes "tpub" ((Server.start "tpub").play brokenCalls).1
        ((Server.start "tpub").play brokenCalls).2 := by
  have hi : ((Server.start "tpub").play brokenCalls).2.invoices "m" =
      some ⟨100000000, 3200, 900, "m"⟩ := by decide +kernel
  refine ⟨brokenCalls_run, hi, fun hw => ?_⟩
  obtain ⟨e, he, env, hcall, resp, hresp, -, hq⟩ := hw.ledger _ _ hi
  obtain rfl : e = ⟨_, _⟩ := List.mem_singleton.1 he
  obtain ⟨rfl, -⟩ := Call.createInvoice.inj hcall
  obtain rfl := Except.ok.inj hresp
  revert hq
  decide +kernel

end BitcoinInvoice
