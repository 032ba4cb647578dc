/-
# Requests in flight together, one after the other

Where no schedule clashes, a server that runs any number of `CreateInvoice` requests
at once does nothing that a server answering them one by one could not have done.  A
request counts as answered from the step at which its result is fixed: the increment
of the index, or the step that fails (`Point.outcome`).  In the order of these steps
the calls, with the results the requests return, are a run of the sequential server, and
a request that has returned before another one starts comes first.  With a clash there
is no such order (`linearizable_iff`).

`Linearized` is the invariant.  The sequential server `t` is ahead of the concurrent
one: it has stored the entries of the requests that have incremented the index and
have not stored theirs yet.
-/

import BitcoinInvoice.Api.Interleaving
import Mathlib.Data.List.Pairwise

namespace BitcoinInvoice

open Transition

variable {Key : Type} {ι : Type} {xpub : String} {childAddress : ℕ → String}

/-- The response of a request that has incremented the index. -/
def Request.response (r : Request Key) (digitalValue expiry : Int64) (address : String) :
    InvoiceResponse :=
  createInvoiceResponseProtobuf r.value digitalValue expiry address

/-- The result of a request, once it is fixed. -/
def Point.outcome (r : Request Key) : Point → Option (Except String InvoiceResponse)
  | start | priced _ _ | derived _ _ _ => none
  | incremented digitalValue expiry address => some (.ok (r.response digitalValue expiry address))
  | stored response => some (.ok response)
  | returned result => some result

/-- The call of a request, with its result as the reply. -/
def Request.event (r : Request Key) (result : Except String InvoiceResponse) : Event Key :=
  ⟨.createInvoice r.env r.value, .created result⟩

/-- The request has a positive value, and these are its price and its expiry. -/
structure Request.Priced (r : Request Key) (digitalValue expiry : Int64) : Prop where
  positive : 0 < r.value
  price : getPrice r.env.client r.env.convert r.value = .ok digitalValue
  expiry : expiry = getExpiry r.env.now

/-- The sequential server answers a call with the result of `createInvoice`, in a single step. -/
theorem Request.step (r : Request Key) (s : Server) :
    Step s (r.event (createInvoice r.env s r.value).1) (createInvoice r.env s r.value).2 :=
  ⟨rfl, trivial⟩

/-- A request that has its price, at a server whose next child can be derived, creates the
invoice of its response there, by one call. -/
theorem Request.Priced.creates {r : Request Key} {digitalValue expiry : Int64} {s : Server}
    {address : String} (h : r.Priced digitalValue expiry)
    (ha : deriveChild r.env.keychain s.xpub s.derivationIndex = .ok address) :
    Creates r.env s r.value (r.response digitalValue expiry address) :=
  ⟨h.positive, rfl, h.price, h.expiry, ha⟩

/-- A request that fails at the derivation fails with the same error alone. -/
theorem Request.Priced.createInvoice_error {r : Request Key} {digitalValue expiry : Int64}
    {s : Server} {e : String} (h : r.Priced digitalValue expiry)
    (he : deriveChild r.env.keychain s.xpub s.derivationIndex = .error e) :
    createInvoice r.env s r.value = (.error e, s) := by
  unfold createInvoice
  rw [if_neg (Int32.not_le.2 h.positive), h.price]
  simp [deriveAddress, he]

/-- What a request knows before its result is fixed: its price, and then the address of
the next child. -/
def Request.Sound (r : Request Key) (s : Server) : Point → Prop
  | .priced d x => r.Priced d x
  | .derived d x a => r.Priced d x ∧ deriveChild r.env.keychain s.xpub s.derivationIndex = .ok a
  | .start | .incremented _ _ _ | .stored _ | .returned _ => True

/-- The entry that the request is about to store is there already. -/
def Request.Ahead (r : Request Key) (t : Server) : Point → Prop
  | .incremented d x a => t.invoices a = some (r.response d x a).entry
  | .start | .priced _ _ | .derived _ _ _ | .stored _ | .returned _ => True

/-- **The invariant.**  The requests whose result is fixed, in the order `done`, are a
run of the sequential server from `s` to `t`, and `t` differs from the server `w` only
in the entries that are still to be stored. -/
structure Linearized (req : ι → Request Key) (s : Server) (w : System ι)
    (done : List (ι × Except String InvoiceResponse)) (t : Server) : Prop where
  run : Run Step s (done.map fun p => (req p.1).event p.2) t
  nodup : (done.map Prod.fst).Nodup
  mem : ∀ i result, (i, result) ∈ done ↔ (w.point i).outcome (req i) = some result
  xpub : t.xpub = w.server.xpub
  index : t.derivationIndex = w.server.derivationIndex
  sound : ∀ i, (req i).Sound w.server (w.point i)
  ahead : ∀ i, (req i).Ahead t (w.point i)
  level : ∀ id, (∀ i d x, w.point i ≠ .incremented d x id) →
    t.invoices id = w.server.invoices id

/-- Before any turn the empty sequence of calls is a linearization, and the server it leads to is
the one there is. -/
theorem linearized_start (req : ι → Request Key) (s : Server) :
    Linearized req s (System.start s) [] s where
  run := .nil s
  nodup := List.nodup_nil
  mem i result := by simp [System.start, Point.outcome]
  xpub := rfl
  index := rfl
  sound _ := trivial
  ahead _ := trivial
  level _ _ := rfl

/-- Only a pending request knows anything of the server that a step of another one could take
away: the index it has read and not incremented. -/
theorem Request.Sound.of_not_pending {r : Request Key} {s s' : Server} {p : Point}
    (h : r.Sound s p) (hp : ¬ p.Pending) : r.Sound s' p := by
  cases p with
  | derived d x a => exact absurd ⟨d, x, a, rfl⟩ hp
  | priced => exact h
  | start | incremented | stored | returned => trivial

variable {req : ι → Request Key} {s t : Server} {w : System ι} {i : ι}
  {done : List (ι × Except String InvoiceResponse)}

/-- A request whose result is open is in no place of the order yet, so it can be put at
its end. -/
theorem Linearized.not_mem (h : Linearized req s w done t)
    (ho : (w.point i).outcome (req i) = none) : i ∉ done.map Prod.fst := by
  intro hi
  obtain ⟨⟨j, result⟩, hmem, rfl⟩ := List.mem_map.1 hi
  rw [(h.mem j result).1 hmem] at ho
  cases ho

/-- The order with one more request at its end has no request twice, as its result was open
before. -/
theorem Linearized.nodup_snoc (h : Linearized req s w done t)
    (ho : (w.point i).outcome (req i) = none) (result : Except String InvoiceResponse) :
    ((done ++ [(i, result)]).map Prod.fst).Nodup := by
  rw [List.map_append, List.map_singleton]
  exact h.nodup.append (List.nodup_singleton i)
    (List.disjoint_singleton.2 (h.not_mem ho))

/-- The run with the call of one more request at its end: the sequential server answers it in the
state the order has led to. -/
theorem Linearized.run_snoc (h : Linearized req s w done t) (i : ι) :
    Run Step s ((done ++ [(i, (createInvoice (req i).env t (req i).value).1)]).map
      fun p => (req p.1).event p.2) (createInvoice (req i).env t (req i).value).2 := by
  rw [List.map_append, List.map_singleton]
  exact h.run.snoc ((req i).step t)

/-- Where no request is under way, the two servers are the same: the index and the ledger differ
only by what pending requests still have to do. -/
theorem Linearized.server_eq (h : Linearized req s w done t)
    (hall : ∀ i, w.point i = .start ∨ ∃ result, w.point i = .returned result) : t = w.server := by
  have hinvoices : t.invoices = w.server.invoices := by
    funext id
    refine h.level id fun i d x hi => ?_
    rcases hall i with hp | ⟨result, hp⟩ <;> rw [hp] at hi <;> cases hi
  have hx := h.xpub
  have hi := h.index
  cases t
  cases hserver : w.server
  simp_all

/-- The invoices of the order, as the sequential server issues them, are the results that are no
errors. -/
theorem issued_events (req : ι → Request Key) (done : List (ι × Except String InvoiceResponse)) :
    issued (done.map fun p => (req p.1).event p.2) = done.filterMap fun p => p.2.toOption := by
  induction done with
  | nil => rfl
  | cons p done ih =>
      obtain ⟨i, result⟩ := p
      cases result with
      | error e => exact ih
      | ok r => exact congrArg (r :: ·) ih

variable [DecidableEq ι]

/-- What holds of the new point of one request and of the points of all others. -/
theorem System.forall_point_move {P : ι → Point → Prop} {q : Point × Server} (hi : P i q.1)
    (hother : ∀ j ≠ i, P j (w.point j)) (j : ι) : P j ((w.move i q).point j) := by
  rcases eq_or_ne j i with rfl | hj
  · rw [move_point_self]
    exact hi
  · rw [move_point_of_ne q hj]
    exact hother j hj

/-- A step that leaves the result of its request as it is leaves the order in correspondence with
the results that are fixed. -/
theorem Linearized.mem_of_quiet (h : Linearized req s w done t) {q : Point × Server}
    (ho : q.1.outcome (req i) = (w.point i).outcome (req i)) (j : ι)
    (result : Except String InvoiceResponse) :
    (j, result) ∈ done ↔ ((w.move i q).point j).outcome (req j) = some result := by
  rw [h.mem]
  rcases eq_or_ne j i with rfl | hj
  · rw [System.move_point_self, ho]
  · rw [System.move_point_of_ne q hj]

/-- A step that fixes the result of its request puts it at the end of the order, and no other
result changes. -/
theorem Linearized.mem_of_settling (h : Linearized req s w done t) {q : Point × Server}
    {result : Except String InvoiceResponse} (ho : (w.point i).outcome (req i) = none)
    (hq : q.1.outcome (req i) = some result) (j : ι) (result' : Except String InvoiceResponse) :
    (j, result') ∈ done ++ [(i, result)] ↔
      ((w.move i q).point j).outcome (req j) = some result' := by
  rw [List.mem_append, List.mem_singleton, h.mem]
  rcases eq_or_ne j i with rfl | hj
  · rw [System.move_point_self, ho, hq]
    simp [eq_comm]
  · rw [System.move_point_of_ne q hj]
    simp [hj]

/-- What is not about to be stored after the step of `i` was not before, but for the
address of `i`. -/
theorem System.not_incremented_of_move {q : Point × Server} {id : String}
    (hi : ∀ d x, w.point i ≠ .incremented d x id)
    (h : ∀ j d x, (w.move i q).point j ≠ .incremented d x id) (j : ι) (d x : Int64) :
    w.point j ≠ .incremented d x id := by
  rcases eq_or_ne j i with rfl | hj
  · exact hi d x
  · intro hp
    exact h j d x ((System.move_point_of_ne q hj).trans hp)

/-- A step that reads, or returns what was fixed, moves neither server, so the order is as
it was. -/
theorem Linearized.quiet (h : Linearized req s w done t) {p : Point}
    (ho : p.outcome (req i) = (w.point i).outcome (req i))
    (hn : ∀ d x a, w.point i ≠ .incremented d x a) (hsound : (req i).Sound w.server p)
    (hahead : (req i).Ahead t p) : Linearized req s (w.move i (p, w.server)) done t where
  run := h.run
  nodup := h.nodup
  mem := h.mem_of_quiet ho
  xpub := h.xpub
  index := h.index
  sound := System.forall_point_move (P := fun j p => (req j).Sound w.server p) hsound
    fun j _ => h.sound j
  ahead := System.forall_point_move (P := fun j p => (req j).Ahead t p) hahead
    fun j _ => h.ahead j
  level id hid := h.level id (System.not_incremented_of_move (fun d x => hn d x id) hid)

/-- A step that fails, as the sequential server does in the state it is in, puts the request at
the end of the order with this error. -/
theorem Linearized.fail (h : Linearized req s w done t) {e : String}
    (ho : (w.point i).outcome (req i) = none)
    (hc : createInvoice (req i).env t (req i).value = (.error e, t)) :
    Linearized req s (w.move i (.returned (.error e), w.server)) (done ++ [(i, .error e)]) t where
  run := by
    have hrun := h.run_snoc i
    rw [hc] at hrun
    exact hrun
  nodup := h.nodup_snoc ho _
  mem := h.mem_of_settling ho rfl
  xpub := h.xpub
  index := h.index
  sound := System.forall_point_move (P := fun j p => (req j).Sound w.server p) trivial
    fun j _ => h.sound j
  ahead := System.forall_point_move (P := fun j p => (req j).Ahead t p) trivial
    fun j _ => h.ahead j
  level id hid := by
    refine h.level id (System.not_incremented_of_move (fun d x hp => ?_) hid)
    rw [hp] at ho
    cases ho

/-- The increment of the index: here the sequential server issues the invoice, entry and all. The
concurrent one stores the entry later, and what is still to be stored is accounted for. -/
theorem Linearized.increment (h : Linearized req s w done t) (hap : Apart xpub childAddress s w)
    {d x : Int64} {a : String} (hi : w.point i = .derived d x a) :
    Linearized req s (w.move i (.incremented d x a,
        { w.server with derivationIndex := w.server.derivationIndex + 1 }))
      (done ++ [(i, .ok ((req i).response d x a))]) (t.issue ((req i).response d x a)) := by
  have hknown := h.sound i
  rw [hi] at hknown
  obtain ⟨hpriced, hchild⟩ := hknown
  rw [← h.xpub, ← h.index] at hchild
  have ho : (w.point i).outcome (req i) = none := by rw [hi]; rfl
  have hpending : (w.point i).Pending := ⟨d, x, a, hi⟩
  have hcreate := createInvoice_of_creates (hpriced.creates hchild)
  constructor
  case run =>
    have hrun := h.run_snoc i
    rw [hcreate] at hrun
    exact hrun
  case nodup => exact h.nodup_snoc ho _
  case mem => exact h.mem_of_settling ho rfl
  case xpub => exact h.xpub
  case index => exact congrArg (· + 1) h.index
  case sound =>
    -- the index moves, and no other request is pending
    refine System.forall_point_move (P := fun j p => (req j).Sound _ p) trivial fun j hj => ?_
    exact (h.sound j).of_not_pending fun hp => hj (hap.single hp hpending)
  case ahead =>
    refine System.forall_point_move (P := fun j p => (req j).Ahead _ p)
      (t.issue_invoices_self _) fun j hj => ?_
    have hahead := h.ahead j
    cases hp : w.point j with
    | incremented d' x' b =>
        rw [hp] at hahead
        have hne : b ≠ a := by
          rintro rfl
          exact hj (hap.distinct j i b (by rw [hp]; rfl) (by rw [hi]; rfl))
        exact (t.issue_invoices_of_ne hne).trans hahead
    | start | priced | derived | stored | returned => trivial
  case level =>
    intro id hid
    have hne : id ≠ a := by
      rintro rfl
      exact hid i d x (System.move_point_self _)
    refine (t.issue_invoices_of_ne hne).trans
      (h.level id (System.not_incremented_of_move (fun d' x' hp => ?_) hid))
    rw [hi] at hp
    cases hp

/-- The entry of a request, which the sequential server has stored before, under the same address
and with the same amounts. -/
theorem Linearized.store (h : Linearized req s w done t) {d x : Int64} {a : String}
    (hi : w.point i = .incremented d x a) :
    Linearized req s (w.move i (.stored ((req i).response d x a),
      w.server.store a ((req i).response d x a).entry)) done t where
  run := h.run
  nodup := h.nodup
  mem := h.mem_of_quiet (by rw [hi]; rfl)
  xpub := h.xpub
  index := h.index
  sound := System.forall_point_move (P := fun j p => (req j).Sound w.server p) trivial
    fun j _ => h.sound j
  ahead := System.forall_point_move (P := fun j p => (req j).Ahead t p) trivial
    fun j _ => h.ahead j
  level id hid := by
    show t.invoices id = Function.update w.server.invoices a _ id
    rcases eq_or_ne id a with rfl | hne
    · rw [Function.update_self]
      have hahead := h.ahead i
      rw [hi] at hahead
      exact hahead
    · rw [Function.update_of_ne hne]
      refine h.level id (System.not_incremented_of_move (fun d' x' hp => ?_) hid)
      rw [hi] at hp
      cases hp
      exact hne rfl

/-- **One step fixes the result of the request whose turn it is, or none.** A request is
linearized at the increment of the index if it succeeds, and at the step that fails if it does
not. -/
theorem Linearized.step (h : Linearized req s w done t) (hap : Apart xpub childAddress s w)
    {w' : System ι} (hs : System.Step req w i w') :
    ∃ done' t', Linearized req s w' done' t' ∧
      (done' = done ∨ ∃ result, done' = done ++ [(i, result)]) := by
  unfold System.Step at hs
  have hsound := h.sound i
  cases hp : w.point i with
  | start =>
      have ho : (w.point i).outcome (req i) = none := by rw [hp]; rfl
      have hn : ∀ d x a, w.point i ≠ .incremented d x a := by simp [hp]
      by_cases hv : (req i).value ≤ 0
      · simp only [hp, advance, if_pos hv] at hs
        rw [hs]
        refine ⟨_, t, h.fail ho ?_, Or.inr ⟨_, rfl⟩⟩
        exact if_pos hv
      · cases hq : getPrice (req i).env.client (req i).env.convert (req i).value with
        | error e =>
            simp only [hp, advance, if_neg hv, hq] at hs
            rw [hs]
            refine ⟨_, t, h.fail ho ?_, Or.inr ⟨_, rfl⟩⟩
            simp [createInvoice, hv, hq]
        | ok d =>
            simp only [hp, advance, if_neg hv, hq] at hs
            rw [hs]
            exact ⟨done, t, h.quiet ho.symm hn ⟨Int32.not_le.1 hv, hq, rfl⟩ trivial, Or.inl rfl⟩
  | priced d x =>
      rw [hp] at hsound
      have ho : (w.point i).outcome (req i) = none := by rw [hp]; rfl
      have hn : ∀ d x a, w.point i ≠ .incremented d x a := by simp [hp]
      cases ha : deriveChild (req i).env.keychain w.server.xpub w.server.derivationIndex with
      | error e =>
          simp only [hp, advance, ha] at hs
          rw [hs]
          rw [← h.xpub, ← h.index] at ha
          exact ⟨_, t, h.fail ho (Request.Priced.createInvoice_error hsound ha), Or.inr ⟨_, rfl⟩⟩
      | ok a =>
          simp only [hp, advance, ha] at hs
          rw [hs]
          exact ⟨done, t, h.quiet ho.symm hn ⟨hsound, ha⟩ trivial, Or.inl rfl⟩
  | derived d x a =>
      simp only [hp, advance] at hs
      rw [hs]
      exact ⟨_, _, h.increment hap hp, Or.inr ⟨_, rfl⟩⟩
  | incremented d x a =>
      simp only [hp, advance] at hs
      rw [hs]
      exact ⟨done, t, h.store hp, Or.inl rfl⟩
  | stored r =>
      simp only [hp, advance] at hs
      rw [hs]
      exact ⟨done, t, h.quiet (by rw [hp]; rfl) (by simp [hp]) trivial trivial, Or.inl rfl⟩
  | returned result =>
      simp only [hp, advance] at hs
      rw [hs]
      exact ⟨done, t, h.quiet (by rw [hp]) (by simp [hp]) trivial trivial, Or.inl rfl⟩

/-- A request that has returned does not come back: its turns are over, and those of the others do
not concern it. -/
theorem System.Step.returned {w' : System ι} {j : ι} {result : Except String InvoiceResponse}
    (hj : w.point j = .returned result) (hs : System.Step req w i w') :
    w'.point j = .returned result := by
  rw [System.Step] at hs
  rcases eq_or_ne j i with rfl | hji
  · rw [hs, move_point_self, hj]
    rfl
  · rw [hs, move_point_of_ne _ hji, hj]

/-- A request that had returned when another one had not started comes before it. -/
def RealTime (req : ι → Request Key) (s : Server) (sched order : List ι) : Prop :=
  ∀ before after v, sched = before ++ after → Run (System.Step req) (System.start s) before v →
    ∀ i j result, v.point i = .returned result → v.point j = .start → j ∈ order →
      [i, j].Sublist order

/-- One more turn keeps real time: a call that takes its place now stands behind all calls that
had returned before its request came in. -/
theorem RealTime.snoc {sched : List ι} {w' : System ι}
    {done' : List (ι × Except String InvoiceResponse)} {t' : Server}
    (hr : RealTime req s sched (done.map Prod.fst)) (h : Linearized req s w done t)
    (hw : Run (System.Step req) (System.start s) sched w) (hs : System.Step req w i w')
    (h' : Linearized req s w' done' t')
    (hdone : done' = done ∨ ∃ result, done' = done ++ [(i, result)]) :
    RealTime req s (sched ++ [i]) (done'.map Prod.fst) := by
  intro before after v hsplit hv j k result hj hk hmem
  have hdet : ∀ (u : System ι) (l : ι) u' u'', System.Step req u l u' → System.Step req u l u'' →
      u' = u'' := fun _ _ _ _ hu hu' => hu.trans hu'.symm
  rcases after.eq_nil_or_concat with rfl | ⟨after, l, rfl⟩
  · -- the request that has not started is not in the order
    rw [List.append_nil] at hsplit
    obtain rfl := Run.unique hdet (hsplit ▸ hw.snoc hs) hv
    exact absurd hmem (h'.not_mem (by rw [hk]; rfl))
  · rw [List.concat_eq_append, ← List.append_assoc, List.append_singleton_inj] at hsplit
    obtain ⟨rfl, rfl⟩ := hsplit
    obtain ⟨v', hv', hrest⟩ := run_append_iff.1 hw
    obtain rfl := Run.unique hdet hv hv'
    have hjw : w.point j = .returned result :=
      hrest.invariant (I := fun u => u.point j = .returned result)
        (fun _ _ _ hu hstep => hstep.returned hu) hj
    have hjdone : j ∈ done.map Prod.fst :=
      List.mem_map.2 ⟨(j, result), (h.mem j result).2 (by rw [hjw]; rfl), rfl⟩
    rcases hdone with rfl | ⟨result', rfl⟩
    · exact hr before after v rfl hv j k result hj hk hmem
    · rw [List.map_append, List.map_singleton] at hmem ⊢
      rcases List.mem_append.1 hmem with hk' | hk'
      · exact (hr before after v rfl hv j k result hj hk hk').trans (List.sublist_append_left ..)
      · rw [List.mem_singleton.1 hk']
        exact (List.singleton_sublist.2 hjdone).append (List.Sublist.refl [i])

/-- The requests, one after the other: each once, with the result it returned, in an
order that real time allows. -/
structure Linearization (req : ι → Request Key) (s : Server) (sched : List ι) (w : System ι)
    (done : List (ι × Except String InvoiceResponse)) : Prop where
  once : (done.map Prod.fst).Nodup
  results : ∀ i result, (i, result) ∈ done ↔ w.point i = .returned result
  run : Run Step s (done.map fun p => (req p.1).event p.2) w.server
  realTime : RealTime req s sched (done.map Prod.fst)

/-- No two requests of an order have one address, because a sequential server gives every invoice
the address of another child. -/
theorem Linearization.distinct (hinj : Set.InjOn childAddress (Set.Iio (2 ^ 31)))
    {tr : List (Event Key)} (h : Run BitcoinInvoice.Step (Server.start xpub) tr s)
    (htr : ∀ e ∈ tr, e.Derives xpub childAddress)
    (hd : ∀ i, (req i).env.keychain.Derives xpub childAddress) {sched : List ι}
    (hl : Linearization req s sched w done) {i j : ι} {r r' : InvoiceResponse} (hij : i ≠ j)
    (hi : w.point i = .returned (.ok r)) (hj : w.point j = .returned (.ok r')) :
    r.invoiceId ≠ r'.invoiceId := by
  have hderives : ∀ e ∈ tr ++ done.map fun p => (req p.1).event p.2,
      e.Derives xpub childAddress := by
    intro e he
    rcases List.mem_append.1 he with he | he
    · exact htr e he
    · obtain ⟨p, -, rfl⟩ := List.mem_map.1 he
      exact hd p.1
  have hnodup := AppendLog.run_nodup (run_tracks hinj (h.append hl.run) hderives).1 List.nodup_nil
  rw [issued_append, List.map_append, issued_events, List.map_filterMap] at hnodup
  have hpairs := List.pairwise_filterMap.1 (List.nodup_append.1 hnodup).2.1
  have hsymm : Std.Symm fun p p' : ι × Except String InvoiceResponse =>
      ∀ id, p.2.toOption.map (·.invoiceId) = some id →
        ∀ id', p'.2.toOption.map (·.invoiceId) = some id' → id ≠ id' :=
    ⟨fun _ _ hp id hid id' hid' => (hp id' hid' id hid).symm⟩
  have hne : ((i, .ok r) : ι × Except String InvoiceResponse) ≠ (j, .ok r') :=
    fun he => hij (congrArg Prod.fst he)
  exact hpairs.forall ((hl.results i _).2 hi) ((hl.results j _).2 hj) hne _ rfl _ rfl

/-- **Concurrent requests are answered as if one by one exactly without clashes.**  From
any state a run of calls has reached, take a schedule of any number of requests that
have all returned or not started.  If no step clashes, the schedule does what the calls
do one after the other in some order: the results are the same and so is the server,
and a request that returned before another one started comes before it.  If a step
clashes, no order does. -/
theorem linearizable_iff (hinj : Set.InjOn childAddress (Set.Iio (2 ^ 31)))
    {tr : List (Event Key)} (h : Run BitcoinInvoice.Step (Server.start xpub) tr s)
    (htr : ∀ e ∈ tr, e.Derives xpub childAddress)
    (hd : ∀ i, (req i).env.keychain.Derives xpub childAddress) {sched : List ι}
    (hw : Run (System.Step req) (System.start s) sched w)
    (hall : ∀ i, w.point i = .start ∨ ∃ result, w.point i = .returned result) :
    (∃ done, Linearization req s sched w done) ↔ ClashFree req s sched w := by
  have ht := (run_tracks hinj h htr).2
  have hstart : Apart xpub childAddress s (System.start s : System ι) :=
    apart_start ht.xpub (ht.index ▸ ht.bound)
  have hstep : ∀ (v : System ι) i v', Apart xpub childAddress s v →
      Guarded (fun v i => ¬ Clash req v i) (System.Step req) v i v' →
        Apart xpub childAddress s v' :=
    fun _ _ _ hap hs => hap.step (fun _ => ht.invoices_ne_none_iff.1) hinj hd hs.1 hs.2
  constructor
  · rintro ⟨done, hl⟩
    rcases hw.guarded_or_first with hg | ⟨before, i, after, v, v', rfl, hb, hc, hs, ha⟩
    · exact hg
    · -- after a clash two requests hold one address, and keep it
      obtain ⟨j, a, hij, hi, hj⟩ := (not_not.1 hc).shared (hb.invariant hstep hstart) hd hs
      have hi := ha.invariant (I := fun v => (v.point i).address = some a)
        (fun _ _ _ hv hs => hs.address hv) hi
      have hj := ha.invariant (I := fun v => (v.point j).address = some a)
        (fun _ _ _ hv hs => hs.address hv) hj
      rcases hall i with hpi | ⟨ri, hpi⟩ <;> rw [hpi] at hi
      · cases hi
      rcases hall j with hpj | ⟨rj, hpj⟩ <;> rw [hpj] at hj
      · cases hj
      match ri, rj with
      | .ok r, .ok r' =>
          have he : r.invoiceId = r'.invoiceId := Option.some.inj (hi.trans hj.symm)
          exact absurd he (hl.distinct hinj h htr hd hij hpi hpj)
  · intro hg
    obtain ⟨-, done, t, hlin, hreal⟩ : Apart xpub childAddress s w ∧ ∃ done t,
        Linearized req s w done t ∧ RealTime req s sched (done.map Prod.fst) := by
      refine hg.history (I := fun ls v => Apart xpub childAddress s v ∧ ∃ done t,
        Linearized req s v done t ∧ RealTime req s ls (done.map Prod.fst)) ?_ ?_
      · refine ⟨hstart, [], s, linearized_start req s, ?_⟩
        intro _ _ _ _ _ _ _ _ _ _ hmem
        cases hmem
      · intro ks v i v' hrun ⟨hap, done, t, hlin, hreal⟩ hs
        obtain ⟨done', t', hlin', hdone⟩ := hlin.step hap hs.2
        exact ⟨hstep v i v' hap hs, done', t', hlin',
          hreal.snoc hlin (hrun.mono fun _ _ _ hg => hg.2) hs.2 hlin' hdone⟩
    refine ⟨done, hlin.nodup, fun i result => ?_, hlin.server_eq hall ▸ hlin.run, hreal⟩
    rw [hlin.mem]
    rcases hall i with hp | ⟨result', hp⟩ <;> simp [hp, Point.outcome]

/-- Both requests of `patientSchedule` have returned, the second after waiting for the first. -/
theorem patientSchedule_returned (i : Bool) :
    ∃ result, (System.play twoRequests (Server.start "tpub") patientSchedule).point i =
      .returned result := by
  cases i
  · exact ⟨.ok ⟨3200, 100000000, 900, "m"⟩, by decide +kernel⟩
  · exact ⟨.ok ⟨6400, 200000000, 900, "mm"⟩, by decide +kernel⟩

/-- The theorem at two requests of which the second waits for the first to increment the
index. -/
theorem linearizable_iff_patientSchedule :
    (∃ done, Linearization twoRequests (Server.start "tpub") patientSchedule
        (System.play twoRequests (Server.start "tpub") patientSchedule) done) ↔
      ClashFree twoRequests (Server.start "tpub") patientSchedule
        (System.play twoRequests (Server.start "tpub") patientSchedule) :=
  linearizable_iff unaryAddress_injective.injOn (.nil _) (fun _ he => absurd he List.not_mem_nil)
    (fun i => by cases i <;> exact unaryKeychain_derives _) (run_systemPlay ..)
    fun i => Or.inr (patientSchedule_returned i)

end BitcoinInvoice
