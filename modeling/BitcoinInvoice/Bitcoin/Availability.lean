/-
# No request stops the server

`GetReceivedAmount` ends the process when its address does not decode
(`log.Fatalf`), and `CheckInvoice` calls it with a string from outside.  What
stands between the two is `IsValidAddress`, in the other package: it decodes the
same string with the same function, so `CheckInvoice` never reaches the fatal
branch (`getReceivedAmount_of_isValidAddress`).  The ledger is read twice, and
dereferenced the second time, but in one call both reads agree; and the chain of
branches always makes an answer.  So every call of every run ends in an error or
in a response that is not nil (`every_call_answers`), and the process lives on.
-/

import BitcoinInvoice.Bitcoin.History

namespace BitcoinInvoice

open Transition

variable {Key Address : Type} {codec : Codec Address}

/-- An error, or a response that is not nil. -/
def Reply.Answers : Reply → Prop
  | .created _ | .got _ => True
  | .checked (.error _) => True
  | .checked (.ok response) => response ≠ none
  | .checked (.fatal _) | .checked .nilDereference => False

/-- The node of the call is reached through `GetReceivedAmount` and
`IsValidAddress`, over one `codec` and whatever the search answers. -/
def Call.OverRpc (codec : Codec Address) (call : Call Key) : Prop :=
  match call with
  | .checkInvoice bitcoin _ _ => ∃ search, bitcoin = bitcoinrpc codec search
  | .createInvoice _ _ | .getInvoice _ => True

/-- A reply that answers its call has come back to its caller, with a value or an error, and the
process goes on. -/
theorem Reply.Answers.returns {reply : Reply} (h : reply.Answers) : reply.Returns := by
  match reply, h with
  | .created _, _ => trivial
  | .got _, _ => trivial
  | .checked (.error _), _ => trivial
  | .checked (.ok _), _ => trivial

/-- **The guard covers the fatal branch:** a string that `IsValidAddress` accepts
does not end the process in `GetReceivedAmount`. -/
theorem getReceivedAmount_of_isValidAddress (search : Search Address) {address : String}
    (h : isValidAddress codec address = true) :
    (∃ paid, getReceivedAmount codec search address = .ok paid) ∨
      ∃ e, getReceivedAmount codec search address = .error e := by
  cases hd : codec.decodeAddress address with
  | error e => simp [isValidAddress, hd] at h
  | ok encodedAddress =>
      rw [getReceivedAmount_eq hd]
      cases Accumulate.total (codec.credit (codec.encodeAddress encodedAddress))
          (outputs (foundTransactions (search encodedAddress 0 100))) with
      | error e => exact Or.inr ⟨e, rfl⟩
      | ok paid => exact Or.inl ⟨paid, rfl⟩

/-- `CheckInvoice` answers every string, in every state of the server: an id that is no address or
not in the ledger is an error, and the node's failures are none of its own. -/
theorem checkInvoice_answers (codec : Codec Address) (search : Search Address) (s : Server)
    (now : Time) (id : String) :
    (Reply.checked (checkInvoice (bitcoinrpc codec search) now s id)).Answers := by
  cases hv : (bitcoinrpc codec search).isValidAddress id with
  | false =>
      rw [show checkInvoice (bitcoinrpc codec search) now s id =
        .error ("could not invoice for " ++ id) by simp [checkInvoice, hv]]
      trivial
  | true =>
      cases hi : s.invoices id with
      | none =>
          rw [checkInvoice_of_not_issued hi]
          trivial
      | some invoice =>
          by_cases hx : invoice.expiry < unix now.ns
          · rw [checkInvoice_of_expired hv hi hx]
            exact Option.some_ne_none _
          · rw [checkInvoice_of_unexpired hv hi (Int64.not_lt.1 hx)]
            rcases getReceivedAmount_of_isValidAddress search hv with ⟨paid, hr⟩ | ⟨e, hr⟩
            · obtain ⟨r, hstatus⟩ := statusResponse_eq_some invoice.digitalValue paid
              rw [show (bitcoinrpc codec search).getReceivedAmount id = .ok paid from hr]
              show statusResponse invoice.digitalValue paid ≠ none
              rw [hstatus]
              exact Option.some_ne_none r
            · rw [show (bitcoinrpc codec search).getReceivedAmount id = .error e from hr]
              trivial

/-- One call, in any state, is answered: by the three handlers, none of which ends the process. -/
theorem serve_answers {call : Call Key} (s : Server) (h : call.OverRpc codec) :
    (s.serve call).1.Answers := by
  cases call with
  | createInvoice env value => trivial
  | checkInvoice bitcoin now id =>
      obtain ⟨search, rfl⟩ := h
      exact checkInvoice_answers codec search s now id
  | getInvoice id => trivial

/-- **No client request can stop the server.**  Whatever calls are made one after
the other, with whatever arguments, and whatever the price feed, key derivation and
the node answer: every call is answered, with an error or a response, and the calls
make a run to their end. -/
theorem every_call_answers {xpub : String} {calls : List (Call Key)}
    (h : ∀ call ∈ calls, call.OverRpc codec) :
    Run Step (Server.start xpub) ((Server.start xpub).play calls).1
        ((Server.start xpub).play calls).2 ∧
      ∀ e ∈ ((Server.start xpub).play calls).1, e.reply.Answers := by
  have hall : ∀ s : Server, ∀ e ∈ (s.play calls).1, e.reply.Answers := by
    induction calls with
    | nil =>
        intro s e he
        cases he
    | cons call calls ih =>
        intro s e he
        rcases List.mem_cons.1 he with rfl | he
        · exact serve_answers s (h call (List.mem_cons_self ..))
        · exact ih (fun c hc => h c (List.mem_cons_of_mem _ hc)) _ e he
  exact ⟨run_play _ _ fun e he => (hall _ e he).returns, hall _⟩

/-- A check that the node answers, and a check and a lookup of an id that nobody has issued. -/
def rpcCalls : List (Call UInt32) :=
  [.createInvoice (unaryEnv "1".toList) 3200,
    .checkInvoice (bitcoinrpc plainCodec (historySearch manyPayments)) (.ofSeconds 0) "m",
    .checkInvoice (bitcoinrpc plainCodec lostSearch) (.ofSeconds 1) "n", .getInvoice "n"]

/-- The theorem at `rpcCalls`, which end in two calls for an id that nobody has issued. -/
theorem every_call_answers_rpcCalls :
    Run Step (Server.start "tpub") ((Server.start "tpub").play rpcCalls).1
        ((Server.start "tpub").play rpcCalls).2 ∧
      ∀ e ∈ ((Server.start "tpub").play rpcCalls).1, e.reply.Answers := by
  have h : ∀ call ∈ rpcCalls, call.OverRpc plainCodec := by simp [rpcCalls, Call.OverRpc]
  exact every_call_answers h

end BitcoinInvoice
