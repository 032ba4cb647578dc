/-
# What the ledger comes from

Nothing is created that was not asked for, nor twice: the ledger holds the invoices whose
entries the turns of the handlers have stored, one under each address, and their amounts are
among those the documents submitted, each as often at most (`ledger_le_submitted`).  What is
lost is lost, and what has failed for its document may have been created all the same.

Where two derivations clash one entry takes the place of another, so this too is about the
runs in which none do.
-/

import BitcoinInvoice.Service.System
import Mathlib.Data.Multiset.OrderedMonoid

namespace BitcoinInvoice

open Transition
open Network (Net Label Stable sent spent)

variable {Key Address ι : Type} {codec : Codec Address} {xpub : String} {childAddress : ℕ → String}
  {d d' : Deployment}

namespace Service

/-- The amount of a request for an invoice. -/
def amount : InvoiceClient.Request → Option Int32
  | .createInvoice value => some value
  | .checkInvoice _ | .getInvoice _ => none

/-- The invoice whose entry is stored. -/
def stored : Happening Key Address ι → Option InvoiceResponse
  | .turn _ j _ _ => j.stores
  | .input _ _ _ | .background _ => none

/-- The invoices created, in the order of their entries. -/
def created (ls : List (Happening Key Address ι)) : List InvoiceResponse := ls.filterMap stored

/-- What is created in two parts of a run is what the one creates, followed by what the other
does. -/
@[simp]
theorem created_append (ls ls' : List (Happening Key Address ι)) :
    created (ls ++ ls') = created ls ++ created ls' :=
  List.filterMap_append

/-- The amount a turn spends: that of the entry it stores, if it stores one. -/
def spends (j : Job) (_ : Job ⊕ InvoiceClient.Answer) : Multiset Int32 :=
  match j.stores with
  | some r => {r.fiatValue}
  | none => 0

/-- A turn spends no more than its job loses: the amount of a request goes with its job, up to
the turn that stores the entry. -/
theorem spends_le {j : Job} {world : World Key Address} {out : Job ⊕ InvoiceClient.Answer}
    (h : (handlers Key codec).turn d j world out d') :
    spends j out + out.elim Job.amount (fun _ => 0) ≤ j.amount := by
  obtain ⟨hout, -⟩ := h
  have hcases := j.turn_cases codec world d.server
  generalize (j.turn codec world d.server).1 = out' at hout hcases
  generalize (j.turn codec world d.server).2 = s' at hcases
  cases hout with
  | inl he =>
      subst he
      cases hcases with
      | reads _ j' hj _ ha _ =>
          rw [spends, Job.stores_eq_none hj, zero_add]
          exact ha.le
      | derives value d x a _ => exact (zero_add _).le
      | increments value d x a => exact (zero_add _).le
      | stores value d x a => exact (add_zero _).le
  | inr ha =>
      cases hcases with
      | replies _ _ hj =>
          rw [spends, Job.stores_eq_none hj, zero_add]
          exact Multiset.zero_le _

section Ledger

variable [DecidableEq ι] {b : Browser} {chain : List MsgTx} {w w' : State ι}
  {ls : List (Happening Key Address ι)}

/-- **The handlers keep their invariant in every run** in which no two derivations clash: by
the rule for clients of one server, of clients of which nothing is asked. -/
theorem run_handled (hinj : Set.InjOn childAddress (Set.Iio (2 ^ 31)))
    (hr : Run (Step Key b codec xpub childAddress ∅) (start ι xpub chain) ls w) :
    Handled xpub childAddress w.server.server (w.jobs.map Prod.snd) := by
  have hturn : ∀ {d d' : Deployment} {js : Multiset Job} {j : Job} {world : World Key Address}
      {out : Job ⊕ InvoiceClient.Answer}, Handled xpub childAddress d.server (j ::ₘ js) →
      Orderly Key codec xpub childAddress ∅ d js j world →
      (handlers Key codec).turn d j world out d' →
      Handled xpub childAddress d'.server (out.elim (· ::ₘ js) fun _ => js) := by
    rintro d d' js j world out h ho ⟨hout, rfl⟩
    have hkeeps := (h.turn hinj ho.separated (j.turn_cases codec world d.server)).1
    generalize (j.turn codec world d.server).1 = out' at hout hkeeps
    cases hout with
    | inl he =>
        subst he
        exact hkeeps
    | inr ha => exact hkeeps
  have hst : Stable (Document.react b) (handlers Key codec) Pay
      (Orderly Key codec xpub childAddress ∅) (PaysOnce codec ∅)
      (fun d js => Handled xpub childAddress d.server js) (fun _ _ => True) (fun _ _ _ => True)
      (fun _ _ => True) (fun _ _ => True) :=
    { begins := fun _ _ q h => h.begins q
      goesOn := fun _ _ _ _ _ _ h ho hs => ⟨hturn h ho hs, trivial⟩
      returns := fun _ _ _ _ _ _ h ho hs => ⟨hturn h ho hs, trivial, trivial⟩
      background := by
        rintro d js tx d' h - ⟨-, rfl⟩
        exact ⟨h, trivial⟩
      fact := fun _ _ _ _ _ _ => trivial
      good := fun _ _ _ _ _ => trivial
      client := fun _ _ _ _ _ => trivial
      keeps := fun _ _ _ _ _ _ _ => trivial
      sends := fun _ _ _ _ _ _ _ => trivial }
  exact (hst.run (Network.safe_start handled_start fun _ => trivial) hr).server

/-- The ledger holds the invoices that were created, one under each address. -/
structure Created (ls : List (Happening Key Address ι)) (w : State ι) : Prop where
  nodup : ((created ls).map (·.invoiceId)).Nodup
  ledger : ∀ id invoice, w.server.server.invoices id = some invoice ↔
    ∃ r ∈ created ls, r.invoiceId = id ∧ r.entry = invoice

omit [DecidableEq ι] in
/-- What stores nothing leaves the ledger as it is, so it holds what was created before and
nothing else. -/
theorem Created.of_stored_eq_none (h : Created ls w) {l : Happening Key Address ι}
    (hl : stored l = none) (hw : w'.server.server.invoices = w.server.server.invoices) :
    Created (ls ++ [l]) w' := by
  have hcreated : created (ls ++ [l]) = created ls := by
    rw [created_append, created, created, List.filterMap_cons_none hl, List.filterMap_nil,
      List.append_nil]
  constructor
  · rw [hcreated]
    exact h.nodup
  · rw [hcreated, hw]
    exact h.ledger

omit [DecidableEq ι] in
/-- What stores an entry, under an address that is free, adds it to both: to what was created and
to the ledger. -/
theorem Created.store (h : Created ls w) {l : Happening Key Address ι} {r : InvoiceResponse}
    (hl : stored l = some r) (hfree : w.server.server.invoices r.invoiceId = none)
    (hw : w'.server.server.invoices =
      Function.update w.server.server.invoices r.invoiceId (some r.entry)) :
    Created (ls ++ [l]) w' := by
  have hcreated : created (ls ++ [l]) = created ls ++ [r] := by
    rw [created_append, created, created, List.filterMap_cons_some hl, List.filterMap_nil]
  have hnew : ∀ r' ∈ created ls, r'.invoiceId ≠ r.invoiceId := by
    intro r' hr' he
    have hsome := (h.ledger r'.invoiceId r'.entry).2 ⟨r', hr', rfl, rfl⟩
    rw [he, hfree] at hsome
    cases hsome
  constructor
  · rw [hcreated, List.map_append, List.nodup_append]
    refine ⟨h.nodup, List.nodup_singleton _, fun a ha c hc => ?_⟩
    obtain ⟨r', hr', rfl⟩ := List.mem_map.1 ha
    rw [List.mem_singleton.1 hc]
    exact hnew r' hr'
  · intro id invoice
    rw [hcreated, hw]
    rcases eq_or_ne id r.invoiceId with rfl | hid
    · rw [Function.update_self]
      constructor
      · intro he
        exact ⟨r, List.mem_append_right _ (List.mem_singleton_self r), rfl, Option.some.inj he⟩
      · rintro ⟨r', hr', hid, rfl⟩
        rcases List.mem_append.1 hr' with hm | hm
        · exact absurd hid (hnew r' hm)
        · rw [List.mem_singleton.1 hm]
    · rw [Function.update_of_ne hid, h.ledger]
      refine exists_congr fun r' => and_congr_left fun ⟨hid', _⟩ => ?_
      rw [List.mem_append, List.mem_singleton]
      refine ⟨Or.inl, fun hm => hm.resolve_right fun he => hid ?_⟩
      rw [← hid', he]

/-- **What one step preserves.**  Only a turn that stores touches the ledger, and it finds the
address it stores under free. -/
theorem Created.step (hw : Handled xpub childAddress w.server.server (w.jobs.map Prod.snd))
    (h : Created ls w) {l : Happening Key Address ι}
    (hs : Step Key b codec xpub childAddress ∅ w l w') : Created (ls ++ [l]) w' := by
  obtain ⟨-, hs⟩ := hs
  have hturn : ∀ {i j world out d' rest}, w.jobs = (i, j) ::ₘ rest →
      (handlers Key codec).turn w.server j world out d' → ∀ {w' : State ι}, w'.server = d' →
      Created (ls ++ [(.turn i j world out : Happening Key Address ι)]) w' := by
    rintro i j world out d' rest hj ⟨-, rfl⟩ w' hw'
    have hsound := hw.sound j (by rw [hj, Multiset.map_cons]; exact Multiset.mem_cons_self ..)
    have hcases := j.turn_cases codec world w.server.server
    have hserver : w'.server.server = (j.turn codec world w.server.server).2 := by rw [hw']; rfl
    generalize (j.turn codec world w.server.server).1 = out' at hcases
    rw [← hserver] at hcases
    generalize hs' : w'.server.server = s' at hcases
    cases hcases with
    | reads _ _ hj' => exact h.of_stored_eq_none (Job.stores_eq_none hj') (by rw [hs'])
    | replies _ _ hj' => exact h.of_stored_eq_none (Job.stores_eq_none hj') (by rw [hs'])
    | derives value d x a _ => exact h.of_stored_eq_none rfl (by rw [hs'])
    | increments value d x a => exact h.of_stored_eq_none rfl (by rw [hs'])
    | stores value d x a => exact h.store rfl hsound.2 (by rw [hs']; rfl)
  cases hs with
  | goesOn i j j' world rest d' hj ht => exact hturn hj ht rfl
  | returns i j world a rest d' hj ht => exact hturn hj ht rfl
  | background tx d' hp =>
      obtain ⟨-, rfl⟩ := hp
      exact h.of_stored_eq_none rfl rfl
  | user i g => exact h.of_stored_eq_none rfl rfl
  | reply i q a rest hr => exact h.of_stored_eq_none rfl rfl
  | lostRequest i j m rest hj => exact h.of_stored_eq_none rfl rfl
  | lostReply i q a m rest hr => exact h.of_stored_eq_none rfl rfl

omit [DecidableEq ι] in
/-- What the turns of a run spend is the amounts of the invoices they create, with multiplicity;
no other turn spends anything. -/
theorem spent_spends (ls : List (Happening Key Address ι)) :
    spent spends ls = ↑((created ls).map (·.fiatValue)) := by
  induction ls with
  | nil => rfl
  | cons l ls ih =>
      have hcons : spent spends (l :: ls) = spent spends [l] + spent spends ls := by
        rw [← Network.spent_append]
        rfl
      have hone : spent spends [l] = ↑((created [l]).map (·.fiatValue)) := by
        cases l with
        | turn i j world out =>
            cases hj : j.stores <;> simp [spent, spends, created, stored, hj]
        | input i x qs => rfl
        | background tx => rfl
      rw [hcons, ih, hone, show l :: ls = [l] ++ ls from rfl, created_append, List.map_append,
        ← Multiset.coe_add]

/-- What a request is worth when it comes in is the amount it asks for, which only a request for a
new invoice does. -/
theorem sum_amount_begins (qs : Multiset InvoiceClient.Request) :
    (qs.map fun q => (Job.begins q).amount).sum = qs.filterMap amount := by
  induction qs using Multiset.induction_on with
  | empty => rfl
  | cons q qs ih =>
      rw [Multiset.map_cons, Multiset.sum_cons, ih]
      cases q with
      | createInvoice value =>
          rw [Multiset.filterMap_cons_some amount _ _ rfl]
          rfl
      | checkInvoice id =>
          rw [Multiset.filterMap_cons_none _ _ rfl]
          exact zero_add _
      | getInvoice id =>
          rw [Multiset.filterMap_cons_none _ _ rfl]
          exact zero_add _

/-- **Nothing is created that was not asked for, nor twice,** in every run in which no two
derivations clash.  The ledger holds the invoices whose entries were stored, one under each
address, and their amounts are among those the documents submitted, each as often at most. -/
theorem ledger_le_submitted (hinj : Set.InjOn childAddress (Set.Iio (2 ^ 31)))
    (hr : Run (Step Key b codec xpub childAddress ∅) (start ι xpub chain) ls w) :
    ((created ls).map (·.invoiceId)).Nodup ∧
      (∀ id invoice, w.server.server.invoices id = some invoice ↔
        ∃ r ∈ created ls, r.invoiceId = id ∧ r.entry = invoice) ∧
      (↑((created ls).map (·.fiatValue)) : Multiset Int32) ≤ (sent ls).filterMap amount := by
  have h : Created ls w :=
    hr.history (I := Created) ⟨List.nodup_nil, by simp [start, Net.start, Deployment.start,
      Server.start, created]⟩ fun _ _ _ _ hks h hs => h.step (run_handled hinj hks) hs
  have hsteps : Run (Network.Step (Document.react b) (handlers Key codec) Pay) (start ι xpub chain)
      ls w :=
    hr.mono fun _ _ _ hs => hs.2
  have hworth : ∀ j : Job, 0 ≤ j.amount := fun j => Multiset.zero_le _
  refine ⟨h.nodup, h.ledger, ?_⟩
  calc (↑((created ls).map (·.fiatValue)) : Multiset Int32)
      = spent spends ls := (spent_spends ls).symm
    _ ≤ ((sent ls).map fun q => (Job.begins q).amount).sum :=
        Network.run_spent (fun _ _ _ _ _ ht => spends_le ht) hworth hsteps
    _ = (sent ls).filterMap amount := sum_amount_begins _

/-- The theorem at the one invoice of the customer: 32 dollars were submitted, and they are in the
ledger once. -/
theorem ledger_le_submitted_newInvoice :
    ((created receivedLabels).map (·.invoiceId)).Nodup ∧
      (∀ id invoice, received.server.server.invoices id = some invoice ↔
        ∃ r ∈ created receivedLabels, r.invoiceId = id ∧ r.entry = invoice) ∧
      (↑((created receivedLabels).map (·.fiatValue)) : Multiset Int32) ≤
        (sent receivedLabels).filterMap amount :=
  ledger_le_submitted unaryAddress_injective.injOn received_run

end Ledger

end Service
end BitcoinInvoice
