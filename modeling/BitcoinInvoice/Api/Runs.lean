/-
# Runs of the server

Calls that do not overlap: each is answered before the next one comes.  An
`Event` is a call with its reply, and `Step s e s'` says that the server `s`
answers the call of `e` with the reply of `e` and is `s'` afterwards.  A call
that exits the process or panics has no step: it ends the run.

Every call carries the answers of the price feed, the clock, key derivation and
the node it meets, so the theorems about all runs are about all of these.
`Step.cases` says what a step can do to the server: issue one invoice, or
nothing.  So every entry of the ledger goes back to a call of the run
(`run_creates`), and what its amount is worth is a question about the answer of
the price feed to that call (`Answered`).
-/

import BitcoinInvoice.Api.Handlers
import BitcoinInvoice.Library.Run

namespace BitcoinInvoice

variable {Key : Type}

/-- A call, with what it is answered by. -/
inductive Call (Key : Type) where
  | createInvoice (env : CreateEnv Key) (value : Int32)
  | checkInvoice (bitcoin : BitcoinRPC) (now : Time) (invoiceId : String)
  | getInvoice (invoiceId : String)

/-- What the handler of a call comes to. -/
inductive Reply where
  | created (result : Except String InvoiceResponse)
  | checked (result : Outcome (Option InvoiceCheckResponse))
  | got (result : Except String InvoiceResponse)
  deriving DecidableEq

/-- The handler comes back to its caller. -/
def Reply.Returns : Reply → Prop
  | created _ | got _ => True
  | checked result => result.Returns

instance (reply : Reply) : Decidable reply.Returns :=
  match reply with
  | .created _ | .got _ => isTrue trivial
  | .checked result => inferInstanceAs (Decidable result.Returns)

/-- The handler of a call. -/
def Server.serve (s : Server) : Call Key → Reply × Server
  | .createInvoice env value =>
      let (result, s) := createInvoice env s value
      (.created result, s)
  | .checkInvoice bitcoin now invoiceId => (.checked (checkInvoice bitcoin now s invoiceId), s)
  | .getInvoice invoiceId => (.got (getInvoice s invoiceId), s)

/-- A call and its reply. -/
structure Event (Key : Type) where
  call : Call Key
  reply : Reply

/-- `s` answers the call of `e` with the reply of `e`. -/
def Step (s : Server) (e : Event Key) (s' : Server) : Prop :=
  s.serve e.call = (e.reply, s') ∧ e.reply.Returns

/-- The response of a successful `CreateInvoice`. -/
def Reply.issued : Reply → Option InvoiceResponse
  | created (.ok r) => some r
  | created (.error _) | checked _ | got _ => none

/-- The responses of the successful `CreateInvoice` calls of a run, in order. -/
def issued (tr : List (Event Key)) : List InvoiceResponse := tr.filterMap fun e => e.reply.issued

/-- The invoices of two parts of a run are those of the first, and those of the second behind
them. -/
@[simp]
theorem issued_append (tr tr' : List (Event Key)) : issued (tr ++ tr') = issued tr ++ issued tr' :=
  List.filterMap_append

/-- The invoices of one event: the one in its reply, if the reply has one. -/
theorem issued_singleton (e : Event Key) : issued [e] = e.reply.issued.toList := by
  cases h : e.reply.issued <;> simp [issued, h]

/-- A reply was given by the handler of its call, which is all that a step says of it: a step has
no other cause. -/
theorem Step.serve {s s' : Server} {e : Event Key} (h : Step s e s') :
    s.serve e.call = (e.reply, s') := h.1

/-- A call is answered in one way: the reply and the next state are functions of
the call and the state. -/
theorem run_unique {s t t' : Server} {tr : List (Event Key)} (h : Transition.Run Step s tr t)
    (h' : Transition.Run Step s tr t') : t = t' := by
  induction h with
  | nil => exact Transition.run_nil_iff.1 h'
  | cons hs _ ih =>
      obtain ⟨u, hu, hrest⟩ := Transition.run_cons_iff.1 h'
      obtain rfl := (Prod.mk.inj (hs.serve.symm.trans hu.serve)).2
      exact ih hrest

/-- **What a step can do to the server:** issue one invoice, or nothing. Every invariant of the
ledger is proved over these two cases, and only the first changes anything. -/
theorem Step.cases {s s' : Server} {e : Event Key} (h : Step s e s') :
    (∃ env value r, e = ⟨.createInvoice env value, .created (.ok r)⟩ ∧ Creates env s value r ∧
        s' = s.issue r) ∨
      (e.reply.issued = none ∧ s' = s) := by
  obtain ⟨call, reply⟩ := e
  have hs := h.serve
  cases call with
  | createInvoice env value =>
      rcases createInvoice_cases env s value with ⟨r, hr, hc⟩ | ⟨m, hc⟩
      · simp only [Server.serve, hc, Prod.mk.injEq] at hs
        obtain ⟨rfl, rfl⟩ := hs
        exact Or.inl ⟨env, value, r, rfl, hr, rfl⟩
      · simp only [Server.serve, hc, Prod.mk.injEq] at hs
        obtain ⟨rfl, rfl⟩ := hs
        exact Or.inr ⟨rfl, rfl⟩
  | checkInvoice bitcoin now id =>
      simp only [Server.serve, Prod.mk.injEq] at hs
      obtain ⟨rfl, rfl⟩ := hs
      exact Or.inr ⟨rfl, rfl⟩
  | getInvoice id =>
      simp only [Server.serve, Prod.mk.injEq] at hs
      obtain ⟨rfl, rfl⟩ := hs
      exact Or.inr ⟨rfl, rfl⟩

/-- A `CreateInvoice` that issued nothing returned an error: there is no third outcome in which
the caller is left without either. -/
theorem Step.error_of_createInvoice {s s' : Server} {env : CreateEnv Key} {value : Int32}
    {reply : Reply} (h : Step s ⟨.createInvoice env value, reply⟩ s') (hn : reply.issued = none) :
    ∃ m, reply = .created (.error m) := by
  have hs := h.serve
  rcases createInvoice_cases env s value with ⟨r, -, hc⟩ | ⟨m, hc⟩
  · simp only [Server.serve, hc, Prod.mk.injEq] at hs
    obtain ⟨rfl, -⟩ := hs
    cases hn
  · simp only [Server.serve, hc, Prod.mk.injEq] at hs
    exact ⟨m, hs.1.symm⟩

/-- A step of `CheckInvoice` leaves the server alone, whatever it answers, so checks can be passed
over wherever only the ledger matters. -/
theorem Step.of_checkInvoice {s s' : Server} {bitcoin : BitcoinRPC} {now : Time} {id : String}
    {reply : Reply} (h : Step s (⟨.checkInvoice bitcoin now id, reply⟩ : Event Key) s') :
    reply = .checked (checkInvoice bitcoin now s id) ∧ s' = s := by
  have hs := h.serve
  simp only [Server.serve, Prod.mk.injEq] at hs
  exact ⟨hs.1.symm, hs.2.symm⟩

/-- The call of a step that issued an invoice was a `CreateInvoice`, and everything it needed to
go well went well. -/
theorem Step.of_issued {s s' : Server} {e : Event Key} {r : InvoiceResponse} (h : Step s e s')
    (hr : e.reply.issued = some r) :
    ∃ env value, e = ⟨.createInvoice env value, .created (.ok r)⟩ ∧ Creates env s value r ∧
      s' = s.issue r := by
  rcases h.cases with ⟨env, value, r', rfl, hc, hs⟩ | ⟨hn, -⟩
  · obtain rfl : r' = r := by simpa [Reply.issued] using hr
    exact ⟨env, value, rfl, hc, hs⟩
  · rw [hn] at hr
    cases hr

/-- **Every entry of the ledger was issued in the run**, with its own id as key. -/
theorem run_provenance {xpub : String} {tr : List (Event Key)} {s : Server}
    (h : Transition.Run Step (Server.start xpub) tr s) {id : String} {invoice : Invoice}
    (hi : s.invoices id = some invoice) :
    ∃ r ∈ issued tr, r.invoiceId = id ∧ invoice = r.entry := by
  refine h.history (I := fun tr s => ∀ id invoice, s.invoices id = some invoice →
    ∃ r ∈ issued tr, r.invoiceId = id ∧ invoice = r.entry) ?_ ?_ id invoice hi
  · intro id invoice hi
    simp [Server.start] at hi
  · intro ks t e t' _ ih hstep id invoice hi
    rcases hstep.cases with ⟨env, value, r, rfl, -, rfl⟩ | ⟨hn, rfl⟩
    · by_cases hid : id = r.invoiceId
      · subst hid
        rw [Server.issue_invoices_self] at hi
        exact ⟨r, by simp [issued, Reply.issued], rfl, (Option.some.inj hi).symm⟩
      · rw [Server.issue_invoices_of_ne _ hid] at hi
        obtain ⟨r', hr', hk, he⟩ := ih id invoice hi
        exact ⟨r', by simp [hr'], hk, he⟩
    · obtain ⟨r', hr', hk, he⟩ := ih id invoice hi
      exact ⟨r', by simp [hr'], hk, he⟩

/-- The call that created an entry, and the state it came to: the entries of a server that started
empty all come from a call of the run. -/
theorem run_creates {xpub : String} {tr : List (Event Key)} {s : Server}
    (h : Transition.Run Step (Server.start xpub) tr s) {id : String} {invoice : Invoice}
    (hi : s.invoices id = some invoice) :
    ∃ tr₁ env value r tr₂ t, tr = tr₁ ++ ⟨.createInvoice env value, .created (.ok r)⟩ :: tr₂ ∧
      Transition.Run Step (Server.start xpub) tr₁ t ∧ Creates env t value r ∧
      invoice = r.entry := by
  obtain ⟨r, hr, -, he⟩ := run_provenance h hi
  obtain ⟨e, hmem, hre⟩ := List.mem_filterMap.1 hr
  obtain ⟨tr₁, tr₂, t, t', htr, ht, hstep, -⟩ := h.exists_step hmem
  obtain ⟨env, value, rfl, hc, -⟩ := hstep.of_issued hre
  exact ⟨tr₁, env, value, r, tr₂, t, htr, ht, hc, he⟩

/-- The step a run takes in a state that its first events lead to: states are determined by the
events, so the two ways to get there agree. -/
theorem run_step {s t u : Server} {tr₁ tr₂ : List (Event Key)} {e : Event Key}
    (h : Transition.Run Step s (tr₁ ++ e :: tr₂) u) (ht : Transition.Run Step s tr₁ t) :
    ∃ t', Step t e t' := by
  obtain ⟨v, v', hv, hstep, -⟩ := h.split
  obtain rfl := run_unique ht hv
  exact ⟨v', hstep⟩

/-- The call of `e`, made to `s`, reaches the price feed, gets a 200 answer with
the property `P`, and derives an address. -/
def Answered (P : Response → Prop) (s : Server) (e : Event Key) : Prop :=
  ∃ env value, e.call = .createInvoice env value ∧ 0 < value ∧
    (∃ u, env.client.newRequest = .ok u) ∧
    (∃ resp, env.client.clientDo (priceURL value) = .ok resp ∧ resp.status = "200 OK" ∧ P resp) ∧
    ∃ address, deriveChild env.keychain s.xpub s.derivationIndex = .ok address

/-- A call that is answered with a number issues an invoice: the address can be derived, and the
amount is positive. -/
theorem Answered.creates {P : Response → Prop} {s : Server} {e : Event Key}
    (hP : ∀ resp, P resp → Float64.parseFloat resp.delivered ≠ none) (h : Answered P s e) :
    ∃ env value r, e.call = .createInvoice env value ∧ Creates env s value r := by
  obtain ⟨env, value, hcall, hv, hu, ⟨resp, hresp, hstatus, hp⟩, address, ha⟩ := h
  obtain ⟨f, hf⟩ := Option.ne_none_iff_exists'.1 (hP resp hp)
  have hq : quote env.convert resp.delivered = some (satoshis env.convert f) := by
    rw [quote, hf]
    rfl
  exact ⟨env, value, ⟨value, satoshis env.convert f, getExpiry env.now, address⟩, hcall, hv, rfl,
    getPrice_eq_ok_iff.2 ⟨hu, resp, hresp, hstatus, hq⟩, rfl, ha⟩

/-- A call that issues an invoice was answered: the response was there, and its body is a
number. -/
theorem Creates.answered {P : Response → Prop} {env : CreateEnv Key} {s : Server} {value : Int32}
    {r : InvoiceResponse} {e : Event Key} (h : Creates env s value r)
    (he : e.call = .createInvoice env value) {resp : Response}
    (hresp : env.client.clientDo (priceURL value) = .ok resp) (hstatus : resp.status = "200 OK")
    (hP : P resp) : Answered P s e :=
  ⟨env, value, he, h.positive, (getPrice_eq_ok_iff.1 h.price).1, ⟨resp, hresp, hstatus, hP⟩, _,
    h.address⟩

/-- Answer a list of calls one after the other. -/
def Server.play (s : Server) : List (Call Key) → List (Event Key) × Server
  | [] => ([], s)
  | call :: calls =>
      let (reply, s) := s.serve call
      let (tr, s) := s.play calls
      (⟨call, reply⟩ :: tr, s)

/-- The events of a play are its calls with their replies, one for one and in this order. -/
theorem Server.play_eq_zipWith (s : Server) (calls : List (Call Key)) :
    (s.play calls).1 = calls.zipWith Event.mk ((s.play calls).1.map (·.reply)) := by
  induction calls generalizing s with
  | nil => rfl
  | cons call calls ih => exact congrArg _ (ih _)

/-- Calls that all come back make a run; a call that ends the process has no place in one. -/
theorem run_play (s : Server) (calls : List (Call Key))
    (h : ∀ e ∈ (s.play calls).1, e.reply.Returns) :
    Transition.Run Step s (s.play calls).1 (s.play calls).2 := by
  induction calls generalizing s with
  | nil => exact .nil s
  | cons call calls ih =>
      refine .cons ⟨rfl, h _ (List.mem_cons_self ..)⟩ (ih _ fun e he => h e ?_)
      exact List.mem_cons_of_mem _ he

end BitcoinInvoice
