/-
# Requests in flight together

gRPC runs every request in a goroutine of its own, and `Server` has no lock.
Here any number of `CreateInvoice` requests, one for each `i : ι`, are in flight
on one server, and a schedule says whose turn it is.  A request goes through the
`Point`s of `CreateInvoice` one atomic step at a time: the price, the read of
`DerivationIndex` with the derivation of its child, the increment, the entry, the
return.  Alone, its five steps are the call (`advance_alone`).

The read and the increment of the index are two steps.  A request that derives
an address while another has derived one and not yet incremented gets the same
address: a `Clash`.  A schedule without clashes keeps all the requests apart, and
a schedule that runs every request to its end and keeps them apart has none
(`separate_iff_no_clash`).
-/

import BitcoinInvoice.Api.Ledger

namespace BitcoinInvoice

open Transition

variable {Key : Type} {ι : Type} {xpub : String} {childAddress : ℕ → String}

/-- Where a request is, with the local variables it has there. -/
inductive Point where
  | start
  | priced (digitalValue expiry : Int64)
  | derived (digitalValue expiry : Int64) (address : String)
  | incremented (digitalValue expiry : Int64) (address : String)
  | stored (response : InvoiceResponse)
  | returned (result : Except String InvoiceResponse)
  deriving DecidableEq

/-- The next step of a request. -/
def advance (env : CreateEnv Key) (value : Int32) : Point → Server → Point × Server
  | .start, s =>
      if value ≤ 0 then (.returned (.error "invalid invoice value"), s)
      else
        match getPrice env.client env.convert value with
        | .error e => (.returned (.error e), s)
        | .ok digitalValue => (.priced digitalValue (getExpiry env.now), s)
  | .priced digitalValue expiry, s =>
      match deriveChild env.keychain s.xpub s.derivationIndex with
      | .error e => (.returned (.error e), s)
      | .ok address => (.derived digitalValue expiry address, s)
  | .derived digitalValue expiry address, s =>
      (.incremented digitalValue expiry address,
        { s with derivationIndex := s.derivationIndex + 1 })
  | .incremented digitalValue expiry address, s =>
      (.stored (createInvoiceResponseProtobuf value digitalValue expiry address),
        s.store address
          { digitalValue := digitalValue, fiatValue := value, expiry := expiry,
            invoiceID := address })
  | .stored response, s => (.returned (.ok response), s)
  | .returned result, s => (.returned result, s)

/-- **Alone, a request is a call of `CreateInvoice`:** five steps, of which it may need fewer,
lead to the result and the server of the one call. -/
theorem advance_alone (env : CreateEnv Key) (value : Int32) (s : Server) :
    (fun q : Point × Server => advance env value q.1 q.2)^[5] (.start, s) =
      (.returned (createInvoice env s value).1, (createInvoice env s value).2) := by
  show advance env value (advance env value (advance env value (advance env value
    (advance env value .start s).1 (advance env value .start s).2).1 _).1 _).1 _ = _
  unfold createInvoice
  by_cases hv : value ≤ 0
  · simp [advance, hv]
  · cases hp : getPrice env.client env.convert value with
    | error e => simp [advance, hv, hp]
    | ok digitalValue =>
        cases ha : deriveChild env.keychain s.xpub s.derivationIndex with
        | error e => simp [advance, hv, hp, ha, deriveAddress]
        | ok address => simp [advance, hv, hp, ha, deriveAddress]

/-- The address a request holds, from its derivation on. -/
def Point.address : Point → Option String
  | start | priced _ _ | returned (.error _) => none
  | derived _ _ address | incremented _ _ address => some address
  | stored response | returned (.ok response) => some response.invoiceId

/-- The response whose entry a request has stored. -/
def Point.recorded : Point → Option InvoiceResponse
  | start | priced _ _ | derived _ _ _ | incremented _ _ _ | returned (.error _) => none
  | stored response | returned (.ok response) => some response

/-- The request has derived an address and has not incremented the index. -/
def Point.Pending (p : Point) : Prop :=
  ∃ digitalValue expiry address, p = .derived digitalValue expiry address

/-- **What one step of a request can do:** nothing to the server, derive an
address, increment the index, or store an entry. -/
theorem advance_cases (env : CreateEnv Key) (value : Int32) (p : Point) (s : Server) :
    (∃ p', advance env value p s = (p', s) ∧ ¬ p.Pending ∧ ¬ p'.Pending ∧
        p'.address = p.address ∧ p'.recorded = p.recorded) ∨
      (∃ d x a, p = .priced d x ∧ deriveChild env.keychain s.xpub s.derivationIndex = .ok a ∧
        advance env value p s = (.derived d x a, s)) ∨
      (∃ d x a, p = .derived d x a ∧
        advance env value p s =
          (.incremented d x a, { s with derivationIndex := s.derivationIndex + 1 })) ∨
      ∃ d x r, p = .incremented d x r.invoiceId ∧
        advance env value p s = (.stored r, s.store r.invoiceId r.entry) := by
  cases p with
  | start =>
      refine Or.inl ?_
      by_cases hv : value ≤ 0
      · exact ⟨_, by simp [advance, hv]; rfl,
          by simp [Point.Pending, Point.address, Point.recorded]⟩
      · cases hp : getPrice env.client env.convert value with
        | error e =>
            exact ⟨_, by simp [advance, hv, hp]; rfl,
              by simp [Point.Pending, Point.address, Point.recorded]⟩
        | ok digitalValue =>
            exact ⟨_, by simp [advance, hv, hp]; rfl,
              by simp [Point.Pending, Point.address, Point.recorded]⟩
  | priced d x =>
      cases ha : deriveChild env.keychain s.xpub s.derivationIndex with
      | error e =>
          exact Or.inl ⟨.returned (.error e), by simp [advance, ha],
            by simp [Point.Pending, Point.address, Point.recorded]⟩
      | ok a => exact Or.inr (Or.inl ⟨d, x, a, rfl, rfl, by simp [advance, ha]⟩)
  | derived d x a => exact Or.inr (Or.inr (Or.inl ⟨d, x, a, rfl, rfl⟩))
  | incremented d x a =>
      exact Or.inr (Or.inr (Or.inr ⟨d, x, createInvoiceResponseProtobuf value d x a, rfl, rfl⟩))
  | stored r =>
      exact Or.inl ⟨.returned (.ok r), rfl, by simp [Point.Pending, Point.address, Point.recorded]⟩
  | returned result =>
      exact Or.inl ⟨.returned result, rfl, by simp [Point.Pending]⟩

/-! ### Any number of requests -/

/-- A call of `CreateInvoice`, before it starts. -/
structure Request (Key : Type) where
  env : CreateEnv Key
  value : Int32

/-- The server, and where the requests are. -/
structure System (ι : Type) where
  server : Server
  point : ι → Point

/-- All requests have just come in. -/
def System.start (s : Server) : System ι where
  server := s
  point := fun _ => .start

/-- Request `i` moves to `q.1`, and the server to `q.2`. -/
def System.move [DecidableEq ι] (w : System ι) (i : ι) (q : Point × Server) : System ι where
  server := q.2
  point := Function.update w.point i q.1

/-- One step of the system; the label says whose turn it is. -/
def System.Step [DecidableEq ι] (req : ι → Request Key) (w : System ι) (i : ι) (w' : System ι) :
    Prop :=
  w' = w.move i (advance (req i).env (req i).value (w.point i) w.server)

/-- Request `i` is about to derive an address while another request has derived
one and has not incremented the index. -/
def Clash (req : ι → Request Key) (w : System ι) (i : ι) : Prop :=
  (∃ digitalValue expiry, w.point i = .priced digitalValue expiry) ∧
    (∃ address,
      deriveChild (req i).env.keychain w.server.xpub w.server.derivationIndex = .ok address) ∧
    ∃ j, (w.point j).Pending

/-- A schedule that takes all requests from the start on `s` to `w`, without a clash. -/
def ClashFree [DecidableEq ι] (req : ι → Request Key) (s : Server) (sched : List ι)
    (w : System ι) : Prop :=
  Run (Guarded (fun v i => ¬ Clash req v i) (System.Step req)) (System.start s) sched w

/-- The requests are apart: no two share an id, the entry of each that has
returned is the one of its response, and the earlier entries are still there. -/
structure Separate (s : Server) (w : System ι) : Prop where
  distinct : ∀ i j r r', i ≠ j → w.point i = .returned (.ok r) → w.point j = .returned (.ok r') →
    r.invoiceId ≠ r'.invoiceId
  entries : ∀ i r, w.point i = .returned (.ok r) → w.server.invoices r.invoiceId = some r.entry
  kept : ∀ id invoice, s.invoices id = some invoice → w.server.invoices id = some invoice

/-- The invariant of a schedule without clashes.  A pending request holds the
address of the next child, all others hold addresses of earlier children, derived
since `s`, and no address is held twice. -/
structure Apart (xpub : String) (childAddress : ℕ → String) (s : Server) (w : System ι) :
    Prop where
  xpub : w.server.xpub = xpub
  bound : w.server.derivationIndex.toNat ≤ 2 ^ 31
  grown : s.derivationIndex.toNat ≤ w.server.derivationIndex.toNat
  pending : ∀ i a, (w.point i).Pending → (w.point i).address = some a →
    w.server.derivationIndex.toNat < 2 ^ 31 ∧ a = childAddress w.server.derivationIndex.toNat
  past : ∀ i a, ¬ (w.point i).Pending → (w.point i).address = some a →
    ∃ k, s.derivationIndex.toNat ≤ k ∧ k < w.server.derivationIndex.toNat ∧ a = childAddress k
  distinct : ∀ i j a, (w.point i).address = some a → (w.point j).address = some a → i = j
  recorded : ∀ i r, (w.point i).recorded = some r →
    w.server.invoices r.invoiceId = some r.entry
  kept : ∀ id invoice, s.invoices id = some invoice → w.server.invoices id = some invoice

/-- The invariant holds when all requests have just come in, on any server with the extended key
and an index in range: none of them holds an address yet. -/
theorem apart_start {s : Server} (hx : s.xpub = xpub)
    (hb : s.derivationIndex.toNat ≤ 2 ^ 31) :
    Apart xpub childAddress s (System.start s : System ι) where
  xpub := hx
  bound := hb
  grown := le_rfl
  pending := by simp [System.start, Point.Pending]
  past := by simp [System.start, Point.address]
  distinct := by simp [System.start, Point.address]
  recorded := by simp [System.start, Point.recorded]
  kept := fun _ _ hi => hi

/-- A request that waits to increment the index holds an address, the one of the child at this
index. -/
theorem Point.Pending.address_ne_none {p : Point} (h : p.Pending) : p.address ≠ none := by
  obtain ⟨d, x, a, rfl⟩ := h
  simp [Point.address]

/-- A request that has stored an entry holds the address under which it has stored it. -/
theorem Point.address_of_recorded {p : Point} {r : InvoiceResponse} (h : p.recorded = some r) :
    p.address = some r.invoiceId := by
  unfold Point.recorded at h
  split at h <;> simp_all [Point.address]

variable {s : Server} {w : System ι} {i : ι}

/-- At most one request is pending: two would hold the address of the same child, and the requests
are apart. -/
theorem Apart.single (h : Apart xpub childAddress s w) {j : ι} (hi : (w.point i).Pending)
    (hj : (w.point j).Pending) : i = j := by
  obtain ⟨a, ha⟩ := Option.ne_none_iff_exists'.1 hi.address_ne_none
  obtain ⟨b, hb⟩ := Option.ne_none_iff_exists'.1 hj.address_ne_none
  have hab : a = b := (h.pending i a hi ha).2.trans (h.pending j b hj hb).2.symm
  exact h.distinct i j a ha (hab ▸ hb)

/-- The invariant of the schedules without clashes says that the requests are apart: two that
have returned hold addresses of their own, with their own entries. -/
theorem Apart.separate (h : Apart xpub childAddress s w) : Separate s w where
  distinct i j r r' hij hi hj he := by
    have ha : (w.point i).address = some r.invoiceId := by rw [hi]; rfl
    have hb : (w.point j).address = some r.invoiceId := by rw [hj, he]; rfl
    exact hij (h.distinct i j _ ha hb)
  entries i r hi := h.recorded i r (by rw [hi]; rfl)
  kept := h.kept

variable [DecidableEq ι]

/-- The request whose turn it is has moved to where its step leads. -/
@[simp]
theorem System.move_point_self (q : Point × Server) : (w.move i q).point i = q.1 :=
  Function.update_self ..

/-- The other requests are where they were: a turn moves one request, and of the others only the
server they share. -/
theorem System.move_point_of_ne (q : Point × Server) {j : ι} (h : j ≠ i) :
    (w.move i q).point j = w.point j :=
  Function.update_of_ne h ..

/-- What a step does not change of the request that takes it, it changes of none. -/
theorem System.apply_move_point {β : Type} (f : Point → β) {q : Point × Server}
    (h : f q.1 = f (w.point i)) (j : ι) : f ((w.move i q).point j) = f (w.point j) := by
  rcases eq_or_ne j i with rfl | hj
  · rw [move_point_self, h]
  · rw [move_point_of_ne q hj]

/-- A step that reads, or returns, changes neither the server nor the addresses that are held, so
the requests stay apart. -/
theorem Apart.quiet (h : Apart xpub childAddress s w) {p : Point} (hn : ¬ (w.point i).Pending)
    (hn' : ¬ p.Pending) (ha : p.address = (w.point i).address)
    (hr : p.recorded = (w.point i).recorded) :
    Apart xpub childAddress s (w.move i (p, w.server)) := by
  have hpend := System.apply_move_point (q := (p, w.server)) Point.Pending
    (propext (iff_of_false hn' hn))
  have haddr := System.apply_move_point (q := (p, w.server)) Point.address ha
  have hrec := System.apply_move_point (q := (p, w.server)) Point.recorded hr
  refine ⟨h.xpub, h.bound, h.grown, ?_, ?_, ?_, ?_, h.kept⟩
  · simp only [hpend, haddr]
    exact h.pending
  · simp only [hpend, haddr]
    exact h.past
  · simp only [haddr]
    exact h.distinct
  · simp only [hrec]
    exact h.recorded

/-- The derivation of the next child's address, while no request is pending: the addresses that
others hold are those of older children. -/
theorem Apart.derive (h : Apart xpub childAddress s w)
    (hinj : Set.InjOn childAddress (Set.Iio (2 ^ 31)))
    (hlt : w.server.derivationIndex.toNat < 2 ^ 31) (hnone : ∀ j, ¬ (w.point j).Pending)
    {d x : Int64} {a : String} (ha : a = childAddress w.server.derivationIndex.toNat) :
    Apart xpub childAddress s (w.move i (.derived d x a, w.server)) := by
  -- a request that held the address already would hold that of an earlier child
  have hfresh : ∀ j, (w.point j).address ≠ some a := by
    intro j hj
    obtain ⟨k, -, hk, he⟩ := h.past j a (hnone j) hj
    have := hinj (Set.mem_Iio.2 hlt) (Set.mem_Iio.2 (by omega)) (ha.symm.trans he)
    omega
  refine ⟨h.xpub, h.bound, h.grown, fun j b hj hb => ?_, fun j b hj hb => ?_,
    fun j k b hj hk => ?_, fun j r hj => ?_, h.kept⟩
  · rcases eq_or_ne j i with rfl | hji
    · rw [System.move_point_self] at hb
      exact ⟨hlt, (Option.some.inj hb).symm.trans ha⟩
    · rw [System.move_point_of_ne _ hji] at hj
      exact absurd hj (hnone j)
  · rcases eq_or_ne j i with rfl | hji
    · rw [System.move_point_self] at hj
      exact absurd ⟨d, x, a, rfl⟩ hj
    · rw [System.move_point_of_ne _ hji] at hj hb
      exact h.past j b hj hb
  · rcases eq_or_ne j i with rfl | hji <;> rcases eq_or_ne k j with rfl | hkj
    · rfl
    · rw [System.move_point_self] at hj
      rw [System.move_point_of_ne _ hkj, ← Option.some.inj hj] at hk
      exact absurd hk (hfresh k)
    · rfl
    · rcases eq_or_ne k i with rfl | hki
      · rw [System.move_point_self] at hk
        rw [System.move_point_of_ne _ hji, ← Option.some.inj hk] at hj
        exact absurd hj (hfresh j)
      · rw [System.move_point_of_ne _ hji] at hj
        rw [System.move_point_of_ne _ hki] at hk
        exact h.distinct j k b hj hk
  · rcases eq_or_ne j i with rfl | hji
    · rw [System.move_point_self] at hj
      cases hj
    · rw [System.move_point_of_ne _ hji] at hj
      exact h.recorded j r hj

/-- The increment of the index, by the one request that is pending. From here on its address is
that of a child below the index. -/
theorem Apart.increment (h : Apart xpub childAddress s w) {d x : Int64} {a : String}
    (hi : w.point i = .derived d x a) :
    Apart xpub childAddress s (w.move i (.incremented d x a,
      { w.server with derivationIndex := w.server.derivationIndex + 1 })) := by
  have hpending : (w.point i).Pending := ⟨d, x, a, hi⟩
  set q : Point × Server := (.incremented d x a,
    { w.server with derivationIndex := w.server.derivationIndex + 1 }) with hq
  have haddr := System.apply_move_point (q := q) Point.address
    (show _ = (w.point i).address by rw [hi]; rfl)
  have hrec := System.apply_move_point (q := q) Point.recorded
    (show _ = (w.point i).recorded by rw [hi]; rfl)
  obtain ⟨hlt, ha⟩ := h.pending i a hpending (by rw [hi]; rfl)
  have hindex : (w.server.derivationIndex + 1).toNat = w.server.derivationIndex.toNat + 1 := by
    rw [UInt32.toNat_add, UInt32.toNat_one]
    omega
  refine ⟨h.xpub, ?_, ?_, fun j b hj _ => ?_, fun j b _ hb => ?_, ?_, ?_, h.kept⟩
  · show (w.server.derivationIndex + 1).toNat ≤ 2 ^ 31
    omega
  · show _ ≤ (w.server.derivationIndex + 1).toNat
    have := h.grown
    omega
  · rcases eq_or_ne j i with rfl | hji
    · rw [System.move_point_self] at hj
      obtain ⟨d', x', a', hp⟩ := hj
      cases hp
    · rw [System.move_point_of_ne _ hji] at hj
      exact absurd (h.single hj hpending) hji
  · show ∃ k, _ ∧ k < (w.server.derivationIndex + 1).toNat ∧ _
    rw [haddr] at hb
    rcases eq_or_ne j i with rfl | hji
    · rw [hi] at hb
      exact ⟨_, h.grown, by omega, (Option.some.inj hb).symm.trans ha⟩
    · obtain ⟨k, hk, hk', he⟩ := h.past j b (fun hj => hji (h.single hj hpending)) hb
      exact ⟨k, hk, by omega, he⟩
  · simp only [haddr]
    exact h.distinct
  · simp only [hrec]
    exact h.recorded

/-- The entry of a request goes under an address that no other request holds, so it overwrites the
entry of none. -/
theorem Apart.store (h : Apart xpub childAddress s w)
    (hkeys : ∀ id, s.invoices id ≠ none → ∃ k < s.derivationIndex.toNat, childAddress k = id)
    (hinj : Set.InjOn childAddress (Set.Iio (2 ^ 31))) {d x : Int64} {r : InvoiceResponse}
    (hi : w.point i = .incremented d x r.invoiceId) :
    Apart xpub childAddress s (w.move i (.stored r, w.server.store r.invoiceId r.entry)) := by
  have hn : ¬ (w.point i).Pending := by simp [hi, Point.Pending]
  set q : Point × Server := (.stored r, w.server.store r.invoiceId r.entry) with hq
  have hpend := System.apply_move_point (q := q) Point.Pending
    (propext (iff_of_false (by simp [hq, Point.Pending]) hn))
  have haddr := System.apply_move_point (q := q) Point.address
    (show _ = (w.point i).address by rw [hi]; rfl)
  have hai : (w.point i).address = some r.invoiceId := by rw [hi]; rfl
  have hother : ∀ id ≠ r.invoiceId,
      (w.server.store r.invoiceId r.entry).invoices id = w.server.invoices id :=
    fun id hid => Function.update_of_ne hid _ _
  refine ⟨h.xpub, h.bound, h.grown, ?_, ?_, ?_, fun j r' hj => ?_, fun id invoice he => ?_⟩
  · simp only [hpend, haddr]
    exact h.pending
  · simp only [hpend, haddr]
    exact h.past
  · simp only [haddr]
    exact h.distinct
  · rcases eq_or_ne j i with rfl | hji
    · rw [System.move_point_self] at hj
      obtain rfl : r = r' := Option.some.inj hj
      exact Function.update_self ..
    · rw [System.move_point_of_ne _ hji] at hj
      have hne : r'.invoiceId ≠ r.invoiceId := fun he =>
        hji (h.distinct j i r.invoiceId (he ▸ Point.address_of_recorded hj) hai)
      exact (hother _ hne).trans (h.recorded j r' hj)
  · -- the entries of `s` are at earlier children than the address of the request
    have hne : id ≠ r.invoiceId := by
      rintro rfl
      obtain ⟨k, hk, hke⟩ := hkeys r.invoiceId (by simp [he])
      obtain ⟨m, hm, hm', hme⟩ := h.past i _ hn hai
      have hb := h.bound
      have := hinj (Set.mem_Iio.2 (by omega)) (Set.mem_Iio.2 (by omega)) (hke.trans hme)
      omega
    exact (hother _ hne).trans (h.kept id invoice he)

variable {req : ι → Request Key} {w' : System ι}

/-- **A step that does not clash keeps the requests apart,** by cases of what a step can be; only
the derivation needs the condition. -/
theorem Apart.step (h : Apart xpub childAddress s w)
    (hkeys : ∀ id, s.invoices id ≠ none → ∃ k < s.derivationIndex.toNat, childAddress k = id)
    (hinj : Set.InjOn childAddress (Set.Iio (2 ^ 31)))
    (hd : ∀ i, (req i).env.keychain.Derives xpub childAddress) (hc : ¬ Clash req w i)
    (hs : System.Step req w i w') : Apart xpub childAddress s w' := by
  unfold System.Step at hs
  rcases advance_cases (req i).env (req i).value (w.point i) w.server with
    ⟨p, he, hn, hn', ha, hr⟩ | ⟨d, x, a, hi, ha, he⟩ | ⟨d, x, a, hi, he⟩ | ⟨d, x, r, hi, he⟩ <;>
    rw [hs, he]
  · exact h.quiet hn hn' ha hr
  · obtain ⟨hlt, haddr⟩ := deriveChild_eq_ok (hd i) (h.xpub ▸ ha)
    exact h.derive hinj hlt (fun j hj => hc ⟨⟨d, x, hi⟩, ⟨a, ha⟩, j, hj⟩) haddr
  · exact h.increment hi
  · exact h.store hkeys hinj hi

/-- After a clash two requests hold one address: the index is as the first one read it, so the
second derives the same child. -/
theorem Clash.shared (h : Apart xpub childAddress s w)
    (hd : ∀ i, (req i).env.keychain.Derives xpub childAddress) (hc : Clash req w i)
    (hs : System.Step req w i w') :
    ∃ j a, i ≠ j ∧ (w'.point i).address = some a ∧ (w'.point j).address = some a := by
  obtain ⟨⟨d, x, hi⟩, ⟨a, ha⟩, j, hj⟩ := hc
  have hij : j ≠ i := by
    rintro rfl
    rw [hi] at hj
    obtain ⟨d', x', a', hp⟩ := hj
    cases hp
  obtain ⟨b, hb⟩ := Option.ne_none_iff_exists'.1 hj.address_ne_none
  have hab : a = b :=
    (deriveChild_eq_ok (hd i) (h.xpub ▸ ha)).2.trans (h.pending j b hj hb).2.symm
  rw [System.Step, hi] at hs
  refine ⟨j, a, hij.symm, ?_, ?_⟩
  · rw [hs, System.move_point_self, advance, ha]
    rfl
  · rw [hs, System.move_point_of_ne _ hij, hb, hab]

/-- A request keeps its address from its derivation to its end, whoever else takes turns in
between. -/
theorem System.Step.address {j : ι} {a : String} (ha : (w.point j).address = some a)
    (hs : System.Step req w i w') : (w'.point j).address = some a := by
  rw [System.Step] at hs
  rcases eq_or_ne j i with rfl | hji
  · rw [hs, move_point_self]
    rcases advance_cases (req j).env (req j).value (w.point j) w.server with
      ⟨p, he, -, -, hp, -⟩ | ⟨d, x, b, hp, -, -⟩ | ⟨d, x, b, hp, he⟩ | ⟨d, x, r, hp, he⟩
    · rw [he, hp, ha]
    · rw [hp] at ha
      cases ha
    · rw [hp] at ha
      rw [he, ← ha]
      rfl
    · rw [hp] at ha
      rw [he, ← ha]
      rfl
  · rw [hs, move_point_of_ne _ hji, ha]

/-- **Concurrent requests stay apart exactly without clashes.**  From any state a
run of calls has reached, a schedule of any number of requests in which no step
clashes keeps them apart in every state; and one that runs every request to its
end and keeps them apart has no step that clashes. -/
theorem separate_iff_no_clash (hinj : Set.InjOn childAddress (Set.Iio (2 ^ 31)))
    {tr : List (Event Key)} (h : Run BitcoinInvoice.Step (Server.start xpub) tr s)
    (htr : ∀ e ∈ tr, e.Derives xpub childAddress)
    (hd : ∀ i, (req i).env.keychain.Derives xpub childAddress) {sched : List ι}
    (hw : Run (System.Step req) (System.start s) sched w) :
    (ClashFree req s sched w → Separate s w) ∧
      ((∀ i, ∃ result, w.point i = .returned result) →
        (Separate s w ↔ ClashFree req s sched w)) := by
  have ht := (run_tracks hinj h htr).2
  have hapart : ∀ {sched w}, ClashFree req s sched w → Apart xpub childAddress s w := fun hg =>
    hg.invariant (fun _ _ _ ha hs => ha.step (fun _ => ht.invoices_ne_none_iff.1) hinj hd hs.1 hs.2)
      (apart_start ht.xpub (ht.index ▸ ht.bound))
  have hfree : ClashFree req s sched w → Separate s w := fun hg => (hapart hg).separate
  refine ⟨hfree, fun hall => ⟨fun hsep => ?_, hfree⟩⟩
  rcases hw.guarded_or_first with hg | ⟨before, i, after, v, v', rfl, hb, hc, hs, ha⟩
  · exact hg
  · obtain ⟨j, a, hij, hi, hj⟩ := (not_not.1 hc).shared (hapart hb) hd hs
    have hi := ha.invariant (I := fun v => (v.point i).address = some a)
      (fun _ _ _ hv hs => hs.address hv) hi
    have hj := ha.invariant (I := fun v => (v.point j).address = some a)
      (fun _ _ _ hv hs => hs.address hv) hj
    obtain ⟨ri, hri⟩ := hall i
    obtain ⟨rj, hrj⟩ := hall j
    rw [hri] at hi
    rw [hrj] at hj
    match ri, rj with
    | .ok r, .ok r' =>
        have he : r.invoiceId = r'.invoiceId := Option.some.inj (hi.trans hj.symm)
        exact absurd he (hsep.distinct i j r r' hij hri hrj)

/-- The system after a schedule. -/
def System.play (req : ι → Request Key) (s : Server) (sched : List ι) : System ι :=
  sched.foldl (fun w i => w.move i (advance (req i).env (req i).value (w.point i) w.server))
    (System.start s)

/-- Playing a schedule is a run of the system, turn by turn. -/
theorem run_systemPlay (req : ι → Request Key) (s : Server) (sched : List ι) :
    Run (System.Step req) (System.start s) sched (System.play req s sched) :=
  run_foldl _ _ _

/-- Two customers, one paying 32 dollars and the other 64. -/
def twoRequests : Bool → Request UInt32
  | false => ⟨unaryEnv "1".toList, 3200⟩
  | true => ⟨unaryEnv "2".toList, 6400⟩

/-- The second request derives its address after the first has incremented. -/
def patientSchedule : List Bool :=
  [false, true, false, false, true, true, false, true, false, true]

/-- Both derive an address before either increments. -/
def racingSchedule : List Bool :=
  [false, true, false, true, false, true, false, true, false, true]

/-- The theorem at two requests of which the second waits for the first to increment the
index. -/
theorem separate_iff_no_clash_patientSchedule :
    (ClashFree twoRequests (Server.start "tpub") patientSchedule
        (System.play twoRequests (Server.start "tpub") patientSchedule) →
      Separate (Server.start "tpub")
        (System.play twoRequests (Server.start "tpub") patientSchedule)) ∧
    ((∀ i, ∃ result, (System.play twoRequests (Server.start "tpub") patientSchedule).point i =
        .returned result) →
      (Separate (Server.start "tpub")
          (System.play twoRequests (Server.start "tpub") patientSchedule) ↔
        ClashFree twoRequests (Server.start "tpub") patientSchedule
          (System.play twoRequests (Server.start "tpub") patientSchedule))) :=
  separate_iff_no_clash unaryAddress_injective.injOn (.nil _)
    (fun _ he => absurd he List.not_mem_nil)
    (fun i => by cases i <;> exact unaryKeychain_derives _) (run_systemPlay ..)

/-- Both customers get the address `m`, and the entry of the first is lost: the two derivations
come before either increment. -/
theorem racingSchedule_not_separate :
    Run (System.Step twoRequests) (System.start (Server.start "tpub")) racingSchedule
        (System.play twoRequests (Server.start "tpub") racingSchedule) ∧
      (System.play twoRequests (Server.start "tpub") racingSchedule).point false =
        .returned (.ok ⟨3200, 100000000, 900, "m"⟩) ∧
      (System.play twoRequests (Server.start "tpub") racingSchedule).point true =
        .returned (.ok ⟨6400, 200000000, 900, "m"⟩) ∧
      (System.play twoRequests (Server.start "tpub") racingSchedule).server.invoices "m" =
        some ⟨200000000, 6400, 900, "m"⟩ ∧
      ¬ Separate (Server.start "tpub")
        (System.play twoRequests (Server.start "tpub") racingSchedule) := by
  refine ⟨run_systemPlay .., by decide +kernel, by decide +kernel, by decide +kernel, fun hs => ?_⟩
  exact hs.distinct false true ⟨3200, 100000000, 900, "m"⟩ ⟨6400, 200000000, 900, "m"⟩ (by decide)
    (by decide +kernel) (by decide +kernel) rfl

end BitcoinInvoice
