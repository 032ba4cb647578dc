/-
# The server is an append-only ledger

Seen from outside, the calls of the server are operations on an append-only log
of the invoices it has issued (`AppendLog`): a successful `CreateInvoice` appends
one with a fresh id, `GetInvoice` finds the one entry of its id or reports that
there is none, everything else leaves the log alone (`Event.op`).  `Tracks` ties
the log to the server: the counter is the length of the log, the ids are the
addresses of the children `0, 1, 2, …`, and the map holds the entries of the log
and nothing else.  It is a simulation (`step_tracks`), so it holds after every
run (`run_tracks`).

The counter is a `uint32`.  What keeps it from wrapping is `hdkeychain`: from
index `2^31` on no child can be derived, so every call fails there and the
counter stays.
-/

import BitcoinInvoice.Api.Derivation
import BitcoinInvoice.Library.AppendLog

namespace BitcoinInvoice

open Transition

variable {Key : Type} {xpub : String} {childAddress : ℕ → String}

/-- The operation of a call on the log of issued invoices. -/
def Event.op (e : Event Key) : AppendLog.Op String InvoiceResponse :=
  match e.reply with
  | .created (.ok r) => .append r
  | .created (.error _) | .checked _ => .quiet
  | .got result =>
      match e.call with
      | .getInvoice id =>
          match result with
          | .ok r => .found id r
          | .error _ => .missing id
      | .createInvoice _ _ | .checkInvoice _ _ _ => .quiet

/-- The server holds the invoices of `log` and has derived that many children. -/
structure Tracks (xpub : String) (childAddress : ℕ → String) (log : List InvoiceResponse)
    (s : Server) : Prop where
  xpub : s.xpub = xpub
  index : s.derivationIndex.toNat = log.length
  bound : log.length ≤ 2 ^ 31
  ids : log.map (·.invoiceId) = (List.range log.length).map childAddress
  invoices : ∀ id invoice, s.invoices id = some invoice ↔
    ∃ r ∈ log, r.invoiceId = id ∧ invoice = r.entry

/-- A server that has just started tracks the empty log: its index is zero and its ledger holds
nothing. -/
theorem tracks_start : Tracks xpub childAddress [] (Server.start xpub) where
  xpub := rfl
  index := rfl
  bound := by simp
  ids := rfl
  invoices := by simp [Server.start]

variable {log : List InvoiceResponse} {s s' : Server}

/-- The ids in the log are the addresses of the first children, one for each invoice that was
issued. -/
theorem Tracks.mem_ids_iff (h : Tracks xpub childAddress log s) {id : String} :
    id ∈ log.map (·.invoiceId) ↔ ∃ j < log.length, childAddress j = id := by
  rw [h.ids]
  simp

/-- The invoice at position `j` of the log has the address of child `j`: the log is in the order
of the derivation. -/
theorem Tracks.getElem_invoiceId (h : Tracks xpub childAddress log s) {j : ℕ}
    (hj : j < log.length) : log[j].invoiceId = childAddress j := by
  have hget := congrArg (fun ids => ids[j]?) h.ids
  simpa [hj] using hget

/-- An id that is not in the log is not in the ledger either, and the other way round. -/
theorem Tracks.invoices_eq_none_iff (h : Tracks xpub childAddress log s) {id : String} :
    s.invoices id = none ↔ id ∉ log.map (·.invoiceId) := by
  rw [Option.eq_none_iff_forall_ne_some]
  simp only [ne_eq, h.invoices, not_exists, not_and, List.mem_map]
  constructor
  · intro hn r hr hid
    exact hn _ r hr hid rfl
  · intro hn invoice r hr hid _
    exact hn r hr hid

/-- The ids of the ledger are the addresses of the children below the index, no more and
no fewer. -/
theorem Tracks.invoices_ne_none_iff (h : Tracks xpub childAddress log s) {id : String} :
    s.invoices id ≠ none ↔ ∃ j < s.derivationIndex.toNat, childAddress j = id := by
  rw [ne_eq, h.invoices_eq_none_iff, not_not, h.mem_ids_iff, h.index]

/-- The next child's address is in no entry of the log, because all of them are addresses of other
children. -/
theorem Tracks.fresh (h : Tracks xpub childAddress log s)
    (hinj : Set.InjOn childAddress (Set.Iio (2 ^ 31))) (hlt : log.length < 2 ^ 31) :
    childAddress log.length ∉ log.map (·.invoiceId) := by
  rw [h.mem_ids_iff]
  rintro ⟨j, hj, he⟩
  have := hinj (Set.mem_Iio.2 (by omega)) (Set.mem_Iio.2 hlt) he
  omega

/-- Issuing the invoice of the next child appends it to the log, and the ledger has one entry
more, under a new id. -/
theorem Tracks.issue (h : Tracks xpub childAddress log s)
    (hinj : Set.InjOn childAddress (Set.Iio (2 ^ 31))) (hlt : log.length < 2 ^ 31)
    {r : InvoiceResponse} (hr : r.invoiceId = childAddress log.length) :
    Tracks xpub childAddress (log ++ [r]) (s.issue r) where
  xpub := h.xpub
  index := by
    have hi := h.index
    simp only [Server.issue, UInt32.toNat_add, UInt32.toNat_one, List.length_append,
      List.length_singleton]
    omega
  bound := by
    rw [List.length_append, List.length_singleton]
    omega
  ids := by simp [List.range_succ, h.ids, hr]
  invoices id invoice := by
    have hfresh := h.fresh hinj hlt
    by_cases hid : id = r.invoiceId
    · subst hid
      rw [Server.issue_invoices_self]
      constructor
      · intro he
        exact ⟨r, by simp, rfl, (Option.some.inj he).symm⟩
      · rintro ⟨r', hr', hk, rfl⟩
        rcases List.mem_append.1 hr' with hm | hm
        · rw [hr] at hk
          exact absurd (List.mem_map.2 ⟨r', hm, hk⟩) hfresh
        · rw [List.mem_singleton.1 hm]
    · rw [Server.issue_invoices_of_ne _ hid, h.invoices]
      constructor
      · rintro ⟨r', hr', hk⟩
        exact ⟨r', by simp [hr'], hk⟩
      · rintro ⟨r', hr', hk, he⟩
        rcases List.mem_append.1 hr' with hm | hm
        · exact ⟨r', hm, hk, he⟩
        · rw [List.mem_singleton.1 hm] at hk
          exact absurd hk.symm hid

/-- `GetInvoice` answers with the entry of the log that has the id, and there is at most one. -/
theorem Tracks.getInvoice_eq_ok_iff (h : Tracks xpub childAddress log s) {id : String}
    {r : InvoiceResponse} :
    getInvoice s id = .ok r ↔ r ∈ log ∧ r.invoiceId = id := by
  constructor
  · intro hg
    cases hi : s.invoices id with
    | none => simp [getInvoice, hi] at hg
    | some invoice =>
        obtain ⟨r', hr', hk, rfl⟩ := (h.invoices id invoice).1 hi
        obtain rfl := Except.ok.inj ((getInvoice_of_some hi).symm.trans hg)
        exact ⟨hr', hk⟩
  · rintro ⟨hr, hk⟩
    exact getInvoice_of_some ((h.invoices id r.entry).2 ⟨r, hr, hk, rfl⟩)

/-- **One call of the server is one operation on the log:** an append, a lookup or nothing. This
is the step of the refinement, by the two cases of what a step can do. -/
theorem step_tracks (hinj : Set.InjOn childAddress (Set.Iio (2 ^ 31))) {e : Event Key}
    (h : Tracks xpub childAddress log s) (hs : Step s e s') (hd : e.Derives xpub childAddress) :
    ∃ log', AppendLog.Step InvoiceResponse.invoiceId log e.op log' ∧
      Tracks xpub childAddress log' s' := by
  obtain ⟨call, reply⟩ := e
  cases call with
  | createInvoice env value =>
      rcases hs.cases with ⟨env', value', r, he, hc, rfl⟩ | ⟨hn, rfl⟩
      · obtain ⟨hcall, rfl⟩ := Event.mk.inj he
        obtain ⟨rfl, rfl⟩ := Call.createInvoice.inj hcall
        have ha := hc.address
        rw [h.xpub] at ha
        obtain ⟨hlt, hid⟩ := deriveChild_eq_ok hd ha
        rw [h.index] at hlt hid
        refine ⟨log ++ [r], .append log r ?_, h.issue hinj hlt hid⟩
        rw [hid]
        exact h.fresh hinj hlt
      · refine ⟨log, ?_, h⟩
        match reply, hn with
        | .created (.error _), _ => exact .quiet log
        | .checked _, _ => exact .quiet log
        | .got _, _ => exact .quiet log
  | checkInvoice bitcoin now id =>
      obtain ⟨rfl, rfl⟩ := hs.of_checkInvoice
      exact ⟨log, .quiet log, h⟩
  | getInvoice id =>
      have hserve := hs.serve
      simp only [Server.serve, Prod.mk.injEq] at hserve
      obtain ⟨rfl, rfl⟩ := hserve
      refine ⟨log, ?_, h⟩
      cases hg : getInvoice s id with
      | ok r =>
          obtain ⟨hr, rfl⟩ := h.getInvoice_eq_ok_iff.1 hg
          exact .found log r hr
      | error m =>
          refine .missing log id fun hid => ?_
          obtain ⟨r, hr, hk⟩ := List.mem_map.1 hid
          rw [h.getInvoice_eq_ok_iff.2 ⟨hr, hk⟩] at hg
          cases hg

/-- What one event appends to the log is the invoice it has issued, if it has issued one. -/
theorem appended_singleton_op (e : Event Key) :
    AppendLog.appended [e.op] = e.reply.issued.toList := by
  obtain ⟨call, reply⟩ := e
  cases reply with
  | created result => cases result <;> rfl
  | checked => rfl
  | got result => cases call <;> cases result <;> rfl

/-- What the events of a run append to the log is the invoices they have issued, in this
order. -/
theorem appended_op (tr : List (Event Key)) :
    AppendLog.appended (tr.map Event.op) = issued tr := by
  induction tr with
  | nil => rfl
  | cons e tr ih =>
      rw [List.map_cons, AppendLog.appended_cons, ih, show e :: tr = [e] ++ tr from rfl,
        issued_append, issued_singleton, appended_singleton_op]

/-- **The server refines the append-only ledger:** every run is a run of the log
that its successful `CreateInvoice` calls append to, and the server tracks it. -/
theorem run_tracks (hinj : Set.InjOn childAddress (Set.Iio (2 ^ 31))) {tr : List (Event Key)}
    (h : Run Step (Server.start xpub) tr s) (hd : ∀ e ∈ tr, e.Derives xpub childAddress) :
    Run (AppendLog.Step InvoiceResponse.invoiceId) [] (tr.map Event.op) (issued tr) ∧
      Tracks xpub childAddress (issued tr) s := by
  have hsim : ∀ (s : Server) (e : Event Key) (t : Server) (log : List InvoiceResponse),
      Tracks xpub childAddress log s → Guarded (fun _ e => e.Derives xpub childAddress) Step s e t →
        ∃ log', AppendLog.Step InvoiceResponse.invoiceId log e.op log' ∧
          Tracks xpub childAddress log' t :=
    fun s e t log ht hs => step_tracks hinj ht hs.2 hs.1
  obtain ⟨log, hr, ht⟩ := (h.guarded hd).simulate hsim tracks_start
  have hr := hr.relabel
  have hlog := AppendLog.run_eq hr
  rw [appended_op, List.nil_append] at hlog
  exact hlog ▸ ⟨hr, ht⟩

/-- **Entries are never changed:** what the ledger holds after a run it holds
after every longer one. -/
theorem invoices_persist (hinj : Set.InjOn childAddress (Set.Iio (2 ^ 31)))
    {tr₁ tr₂ : List (Event Key)} (h₁ : Run Step (Server.start xpub) tr₁ s)
    (h₂ : Run Step (Server.start xpub) (tr₁ ++ tr₂) s')
    (hd : ∀ e ∈ tr₁ ++ tr₂, e.Derives xpub childAddress) {id : String} {invoice : Invoice}
    (hi : s.invoices id = some invoice) : s'.invoices id = some invoice := by
  have ht₁ := (run_tracks hinj h₁ fun e he => hd e (List.mem_append_left _ he)).2
  have ht₂ := (run_tracks hinj h₂ hd).2
  obtain ⟨r, hr, hk, he⟩ := (ht₁.invoices id invoice).1 hi
  refine (ht₂.invoices id invoice).2 ⟨r, ?_, hk, he⟩
  rw [issued_append]
  exact List.mem_append_left _ hr

/-- The counter of a server counts the invoices of its run. -/
structure CountsIssued (childAddress : ℕ → String) (tr : List (Event Key)) (s : Server) : Prop where
  index : s.derivationIndex.toNat = (issued tr).length
  bound : s.derivationIndex.toNat ≤ 2 ^ 31
  address : ∀ j (hj : j < (issued tr).length), (issued tr)[j].invoiceId = childAddress j
  keys : ∀ id, s.invoices id ≠ none ↔ ∃ j < s.derivationIndex.toNat, childAddress j = id
  distinct : ((issued tr).map (·.invoiceId)).Nodup

/-- **No address is issued twice, and the index does not wrap.**  After any run
from the state of `main`, the index is the number of invoices issued and at most
`2^31`, the `j`-th invoice is at the address of child `j`, and the ids of the
ledger are the addresses of the children below the index. -/
theorem derivationIndex_counts (hinj : Set.InjOn childAddress (Set.Iio (2 ^ 31)))
    {tr : List (Event Key)} (h : Run Step (Server.start xpub) tr s)
    (hd : ∀ e ∈ tr, e.Derives xpub childAddress) : CountsIssued childAddress tr s := by
  obtain ⟨hr, ht⟩ := run_tracks hinj h hd
  exact ⟨ht.index, ht.index ▸ ht.bound, fun j hj => ht.getElem_invoiceId hj,
    fun id => ht.invoices_ne_none_iff, AppendLog.run_nodup hr List.nodup_nil⟩

/-- Two invoices and a lookup, with a call in between that fails for its value. -/
def ledgerCalls : List (Call UInt32) :=
  [.createInvoice (unaryEnv "1".toList) 3200, .createInvoice (unaryEnv "1".toList) 0,
    .getInvoice (unaryAddress 0), .createInvoice (unaryEnv "0.5".toList) 1600]

/-- The calls of `ledgerCalls` are answered by the key derivation of the examples, with any
extended key. -/
theorem ledgerCalls_derives (xpub : String) :
    ∀ e ∈ ((Server.start xpub).play ledgerCalls).1, e.Derives xpub unaryAddress := by
  simp [ledgerCalls, Server.play, Event.Derives, unaryEnv, unaryKeychain_derives]

/-- Playing `ledgerCalls` is a run from a server that has just started. -/
theorem ledgerCalls_run :
    Run Step (Server.start "tpub") ((Server.start "tpub").play ledgerCalls).1
      ((Server.start "tpub").play ledgerCalls).2 :=
  run_play _ _ (by decide +kernel)

/-- The first invoice of `ledgerCalls` is in the ledger at the end, for one bitcoin at the first
address. -/
theorem ledgerCalls_first :
    ((Server.start "tpub").play ledgerCalls).2.invoices "m" =
      some ⟨100000000, 3200, 900, "m"⟩ := by
  decide +kernel

/-- The theorem at `ledgerCalls`, which issue two invoices. -/
theorem derivationIndex_counts_ledgerCalls :
    CountsIssued unaryAddress ((Server.start "tpub").play ledgerCalls).1
      ((Server.start "tpub").play ledgerCalls).2 :=
  derivationIndex_counts unaryAddress_injective.injOn ledgerCalls_run (ledgerCalls_derives _)

/-- A server, after a run, as a ledger. -/
structure IsLedger (tr : List (Event Key)) (s : Server) : Prop where
  refines : Run (AppendLog.Step InvoiceResponse.invoiceId) [] (tr.map Event.op) (issued tr)
  createInvoice_error : ∀ (env : CreateEnv Key) value m,
    (createInvoice env s value).1 = .error m → (createInvoice env s value).2 = s
  checkInvoice_frame : ∀ bitcoin now id, (s.serve (.checkInvoice bitcoin now id : Call Key)).2 = s
  getInvoice_frame : ∀ id, (s.serve (.getInvoice id : Call Key)).2 = s
  getInvoice_iff : ∀ id, (∃ r, getInvoice s id = .ok r) ↔ ∃ r ∈ issued tr, r.invoiceId = id
  getInvoice_eq : ∀ r ∈ issued tr, getInvoice s r.invoiceId = .ok r
  checkInvoice_error : ∀ id, (∀ r ∈ issued tr, r.invoiceId ≠ id) →
    ∀ bitcoin now, ∃ m, checkInvoice bitcoin now s id = .error m

/-- **The server is an append-only ledger with atomic operations.**  After any run
a `CreateInvoice` that fails, at whatever step, changes nothing, nor do the other
calls; `GetInvoice` finds exactly the ids issued in the run, with the response
their `CreateInvoice` gave; and `CheckInvoice` refuses all other ids. -/
theorem run_isLedger (hinj : Set.InjOn childAddress (Set.Iio (2 ^ 31))) {tr : List (Event Key)}
    (h : Run Step (Server.start xpub) tr s) (hd : ∀ e ∈ tr, e.Derives xpub childAddress) :
    IsLedger tr s := by
  obtain ⟨hr, ht⟩ := run_tracks hinj h hd
  refine ⟨hr, fun env value m hm => ?_, fun _ _ _ => rfl, fun _ => rfl, fun id => ?_,
    fun r hr => ht.getInvoice_eq_ok_iff.2 ⟨hr, rfl⟩, fun id hid bitcoin now => ?_⟩
  · rcases createInvoice_cases env s value with ⟨r, -, hc⟩ | ⟨e, hc⟩ <;> rw [hc] at hm ⊢
    cases hm
  · simp only [ht.getInvoice_eq_ok_iff]
  · refine ⟨_, checkInvoice_of_not_issued (ht.invoices_eq_none_iff.2 fun hm => ?_)⟩
    obtain ⟨r, hr, hk⟩ := List.mem_map.1 hm
    exact hid r hr hk

/-- The theorem at `ledgerCalls`, which look an invoice up between the two that they issue. -/
theorem run_isLedger_ledgerCalls :
    IsLedger ((Server.start "tpub").play ledgerCalls).1
      ((Server.start "tpub").play ledgerCalls).2 :=
  run_isLedger unaryAddress_injective.injOn ledgerCalls_run (ledgerCalls_derives _)

end BitcoinInvoice
