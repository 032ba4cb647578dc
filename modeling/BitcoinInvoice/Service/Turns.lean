/-
# The handlers, turn by turn

Every request runs in a goroutine of its own, on one server without a lock.  A handler at
work is a `Job`, and its turns are atomic: those of `CreateInvoice` are the steps of
`advance`, `CheckInvoice` reads the ledger, reads it again through the clock, and asks the
node, and `GetInvoice` reads once.  What the turns of other handlers do in between is up to
them.  Alone, the turns of a job are the call (`turns_alone`).

`turn_cases` says all that a turn can do to the server, and `Handled` is what holds of the
server and all its jobs: the ledger holds children below the index, and no two jobs hold one
address.  Every turn keeps it but one, the derivation of an address while another job holds
the next child.
-/

import BitcoinInvoice.Api.Interleaving
import BitcoinInvoice.Bitcoin.Rpc
import BitcoinInvoice.Client.Document

namespace BitcoinInvoice

variable {Key Address : Type} {codec : Codec Address} {xpub : String} {childAddress : ℕ → String}

/-- What a turn is answered by: the price feed, the clock and the key derivation, and the
node. -/
structure World (Key Address : Type) where
  env : CreateEnv Key
  search : Search Address

/-- Where a `CheckInvoice` is, with the entry it has read. -/
inductive CheckPoint where
  | start
  | found (invoice : Invoice)
  | unexpired (invoice : Invoice)
  deriving DecidableEq

/-- The next turn of a `CheckInvoice`. -/
def checkTurn (bitcoin : BitcoinRPC) (now : Time) (s : Server) (invoiceId : String) :
    CheckPoint → CheckPoint ⊕ Outcome (Option InvoiceCheckResponse)
  | .start =>
      if !bitcoin.isValidAddress invoiceId then
        .inr (.error ("could not invoice for " ++ invoiceId))
      else
        match s.invoices invoiceId with
        | none => .inr (.error ("could not invoice for " ++ invoiceId))
        | some invoice => .inl (.found invoice)
  | .found invoice =>
      match s.invoices invoiceId with
      | none => .inr .nilDereference
      | some again =>
          if unix now.ns > again.expiry then
            .inr (.ok (some (createInvoiceCheckResponseProtobuf .expired 0)))
          else .inl (.unexpired invoice)
  | .unexpired invoice =>
      match bitcoin.getReceivedAmount invoiceId with
      | .ok amountPaid => .inr (.ok (statusResponse invoice.digitalValue amountPaid))
      | .error _ => .inr (.error ("could not check balance for " ++ invoiceId))
      | .fatal message => .inr (.fatal message)
      | .nilDereference => .inr .nilDereference

/-- A handler at work. -/
inductive Job where
  | createInvoice (value : Int32) (p : Point)
  | checkInvoice (invoiceId : String) (p : CheckPoint)
  | getInvoice (invoiceId : String)
  deriving DecidableEq

namespace Job

/-- The handler of a request. -/
def begins : InvoiceClient.Request → Job
  | .createInvoice value => .createInvoice value .start
  | .checkInvoice invoiceId => .checkInvoice invoiceId .start
  | .getInvoice invoiceId => .getInvoice invoiceId

/-- The request of a handler. -/
def request : Job → InvoiceClient.Request
  | .createInvoice value _ => .createInvoice value
  | .checkInvoice invoiceId _ => .checkInvoice invoiceId
  | .getInvoice invoiceId => .getInvoice invoiceId

/-- A `CreateInvoice` at a point, with the server there: it is at work, or has come to its
reply. -/
def atPoint (value : Int32) : Point × Server → (Job ⊕ Reply) × Server
  | (.returned result, s) => (.inr (.created result), s)
  | (p, s) => (.inl (.createInvoice value p), s)

/-- The next turn of a handler: it goes on, or comes to its reply. -/
def turn (codec : Codec Address) (world : World Key Address) (s : Server) :
    Job → (Job ⊕ Reply) × Server
  | .createInvoice value p => atPoint value (advance world.env value p s)
  | .checkInvoice invoiceId p =>
      ((checkTurn (bitcoinrpc codec world.search) world.env.now s invoiceId p).map
        (.checkInvoice invoiceId) .checked, s)
  | .getInvoice invoiceId => (.inr (.got (BitcoinInvoice.getInvoice s invoiceId)), s)

end Job

/-- The call of a request, answered by one world throughout. -/
def InvoiceClient.Request.call (codec : Codec Address) (world : World Key Address) :
    InvoiceClient.Request → Call Key
  | .createInvoice value => .createInvoice world.env value
  | .checkInvoice invoiceId =>
      .checkInvoice (bitcoinrpc codec world.search) world.env.now invoiceId
  | .getInvoice invoiceId => .getInvoice invoiceId

/-- The next turn of a handler that nobody else comes between. -/
def Job.next (codec : Codec Address) (world : World Key Address) :
    (Job ⊕ Reply) × Server → (Job ⊕ Reply) × Server
  | (.inl j, s) => j.turn codec world s
  | (.inr reply, s) => (.inr reply, s)

/-- The turns of a `CreateInvoice` follow the points of `advance`, at its end too, where both
stay. -/
theorem Job.semiconj_atPoint (codec : Codec Address) (world : World Key Address) (value : Int32) :
    Function.Semiconj (Job.atPoint value)
      (fun q : Point × Server => advance world.env value q.1 q.2) (Job.next codec world) := by
  rintro ⟨p, s⟩
  cases p <;> rfl

/-- **Alone, the turns of a handler are its call,** with the same reply and the same server
afterwards: five are enough for every one of the three. -/
theorem Job.turns_alone (codec : Codec Address) (world : World Key Address) (s : Server)
    (q : InvoiceClient.Request) :
    (Job.next codec world)^[5] (.inl (Job.begins q), s) =
      (.inr (s.serve (q.call codec world)).1, (s.serve (q.call codec world)).2) := by
  cases q with
  | createInvoice value =>
      have hturns := (Job.semiconj_atPoint codec world value).iterate_right 5 (.start, s)
      rw [advance_alone] at hturns
      exact hturns.symm
  | checkInvoice id =>
      set bitcoin := bitcoinrpc codec world.search with hbitcoin
      show _ = (Sum.inr (Reply.checked (BitcoinInvoice.checkInvoice bitcoin world.env.now s id)), s)
      unfold BitcoinInvoice.checkInvoice
      simp only [Function.iterate_succ, Function.iterate_zero, Function.comp_apply, id_eq]
      cases hv : bitcoin.isValidAddress id with
      | false => simp [begins, next, turn, checkTurn, ← hbitcoin, hv]
      | true =>
          cases hi : s.invoices id with
          | none => simp [begins, next, turn, checkTurn, ← hbitcoin, hv, hi]
          | some invoice =>
              by_cases hx : unix world.env.now.ns > invoice.expiry
              · simp [begins, next, turn, checkTurn, ← hbitcoin, hv, hi, hx]
              · cases hr : bitcoin.getReceivedAmount id <;>
                  simp [begins, next, turn, checkTurn, ← hbitcoin, hv, hi, hx, hr]
  | getInvoice id => rfl

/-- A turn that leads to another one is still about the same request, so its last one replies to
what was asked. -/
theorem Job.request_turn {world : World Key Address} {s : Server} {j j' : Job}
    (h : (j.turn codec world s).1 = .inl j') : j'.request = j.request := by
  cases j with
  | createInvoice value p =>
      change (atPoint value (advance world.env value p s)).1 = .inl j' at h
      unfold atPoint at h
      split at h
      · cases h
      · obtain rfl := Sum.inl.inj h
        rfl
  | checkInvoice id p =>
      change (checkTurn (bitcoinrpc codec world.search) world.env.now s id p).map
        (Job.checkInvoice id) Reply.checked = .inl j' at h
      cases hc : checkTurn (bitcoinrpc codec world.search) world.env.now s id p with
      | inl p' =>
          rw [hc] at h
          obtain rfl := Sum.inl.inj h
          rfl
      | inr result =>
          rw [hc] at h
          cases h
  | getInvoice id => cases h

/-- A `CreateInvoice` that replies gives an error, or the invoice whose entry it has stored in the
turn before; nothing else can be its last point. -/
theorem Job.created_of_turn {world : World Key Address} {s : Server} {value : Int32} {p : Point}
    {reply : Reply} (h : ((Job.createInvoice value p).turn codec world s).1 = .inr reply) :
    (∃ e, reply = .created (.error e)) ∨ (∃ r, p = .stored r ∧ reply = .created (.ok r)) ∨
      ∃ result, p = .returned result ∧ reply = .created result := by
  cases p with
  | start =>
      by_cases hv : value ≤ 0
      · exact Or.inl ⟨_, by simpa [turn, atPoint, advance, hv] using h.symm⟩
      · cases hp : getPrice world.env.client world.env.convert value with
        | error e => exact Or.inl ⟨e, by simpa [turn, atPoint, advance, hv, hp] using h.symm⟩
        | ok d => simp [turn, atPoint, advance, hv, hp] at h
  | priced d x =>
      cases ha : deriveChild world.env.keychain s.xpub s.derivationIndex with
      | error e => exact Or.inl ⟨e, by simpa [turn, atPoint, advance, ha] using h.symm⟩
      | ok a => simp [turn, atPoint, advance, ha] at h
  | derived d x a => cases h
  | incremented d x a => cases h
  | stored r => exact Or.inr (Or.inl ⟨r, rfl, (Sum.inr.inj h).symm⟩)
  | returned result => exact Or.inr (Or.inr ⟨result, rfl, (Sum.inr.inj h).symm⟩)

/-! ### What one turn can do -/

namespace Job

/-- The address a handler has derived and not stored an entry for. -/
def reserved : Job → Option String
  | .createInvoice _ (.derived _ _ address) | .createInvoice _ (.incremented _ _ address) =>
      some address
  | .createInvoice _ .start | .createInvoice _ (.priced _ _) | .createInvoice _ (.stored _)
  | .createInvoice _ (.returned _) | .checkInvoice _ _ | .getInvoice _ => none

/-- The invoice a handler is about to store an entry for. -/
def stores : Job → Option InvoiceResponse
  | .createInvoice value (.incremented d x address) =>
      some (createInvoiceResponseProtobuf value d x address)
  | .createInvoice _ .start | .createInvoice _ (.priced _ _) | .createInvoice _ (.derived _ _ _)
  | .createInvoice _ (.stored _) | .createInvoice _ (.returned _) | .checkInvoice _ _
  | .getInvoice _ => none

/-- The amount that a handler was asked to create an invoice for, and has not yet. -/
def amount : Job → Multiset Int32
  | .createInvoice value .start | .createInvoice value (.priced _ _)
  | .createInvoice value (.derived _ _ _) | .createInvoice value (.incremented _ _ _) => {value}
  | .createInvoice _ (.stored _) | .createInvoice _ (.returned _) | .checkInvoice _ _
  | .getInvoice _ => 0

/-- A handler that holds no address is not about to store anything: the entry is written under the
address that was derived two turns before. -/
theorem stores_eq_none {j : Job} (h : j.reserved = none) : j.stores = none := by
  cases j with
  | createInvoice value p => cases p <;> first | rfl | cases h
  | checkInvoice id p | getInvoice id => rfl

/-- The handler has derived an address and has not incremented the index. -/
def Pending : Job → Prop
  | .createInvoice _ p => p.Pending
  | .checkInvoice _ _ | .getInvoice _ => False

/-- What a handler may rely on in the server `s`. -/
def Sound (childAddress : ℕ → String) (s : Server) : Job → Prop
  | .createInvoice _ (.derived _ _ address) =>
      s.derivationIndex.toNat < 2 ^ 31 ∧ address = childAddress s.derivationIndex.toNat
  | .createInvoice _ (.incremented _ _ address) =>
      (∃ k < s.derivationIndex.toNat, address = childAddress k) ∧ s.invoices address = none
  | .createInvoice value (.stored r) =>
      r.fiatValue = value ∧ s.invoices r.invoiceId = some r.entry
  | .createInvoice _ (.returned _) => False
  | .checkInvoice id (.found invoice) | .checkInvoice id (.unexpired invoice) =>
      s.invoices id = some invoice
  | .createInvoice _ .start | .createInvoice _ (.priced _ _) | .checkInvoice _ .start
  | .getInvoice _ => True

/-- What a turn of a handler can be, with the server behind it. -/
inductive Turns (env : CreateEnv Key) (s : Server) : Job → Job ⊕ Reply → Server → Prop
  | reads (j j' : Job) (hj : j.reserved = none) (hj' : j'.reserved = none)
      (ha : j'.amount = j.amount)
      (h : ∀ childAddress, j.Sound childAddress s → j'.Sound childAddress s) :
      Turns env s j (.inl j') s
  | replies (j : Job) (reply : Reply) (hj : j.reserved = none) : Turns env s j (.inr reply) s
  | derives (value : Int32) (d x : Int64) (a : String)
      (h : deriveChild env.keychain s.xpub s.derivationIndex = .ok a) :
      Turns env s (.createInvoice value (.priced d x))
        (.inl (.createInvoice value (.derived d x a))) s
  | increments (value : Int32) (d x : Int64) (a : String) :
      Turns env s (.createInvoice value (.derived d x a))
        (.inl (.createInvoice value (.incremented d x a)))
        { s with derivationIndex := s.derivationIndex + 1 }
  | stores (value : Int32) (d x : Int64) (a : String) :
      Turns env s (.createInvoice value (.incremented d x a))
        (.inl (.createInvoice value (.stored (createInvoiceResponseProtobuf value d x a))))
        (s.store a (createInvoiceResponseProtobuf value d x a).entry)

/-- **What one turn can do:** read, or reply, and leave the server alone, or be one of the
three turns of `CreateInvoice` between which another handler can come. -/
theorem turn_cases (codec : Codec Address) (world : World Key Address) (s : Server) (j : Job) :
    j.Turns world.env s (j.turn codec world s).1 (j.turn codec world s).2 := by
  cases j with
  | createInvoice value p =>
      cases p with
      | start =>
          by_cases hv : value ≤ 0
          · simpa [turn, atPoint, advance, hv] using Turns.replies _ _ rfl
          · cases hp : getPrice world.env.client world.env.convert value with
            | error e => simpa [turn, atPoint, advance, hv, hp] using Turns.replies _ _ rfl
            | ok d =>
                have hturn : ((createInvoice value .start).turn codec world s) =
                    (.inl (.createInvoice value (.priced d (getExpiry world.env.now))), s) := by
                  simp [turn, atPoint, advance, hv, hp]
                rw [hturn]
                exact .reads _ _ rfl rfl rfl fun _ _ => trivial
      | priced d x =>
          cases ha : deriveChild world.env.keychain s.xpub s.derivationIndex with
          | error e => simpa [turn, atPoint, advance, ha] using Turns.replies _ _ rfl
          | ok a => simpa [turn, atPoint, advance, ha] using Turns.derives value d x a ha
      | derived d x a => exact .increments value d x a
      | incremented d x a => exact .stores value d x a
      | stored r => exact .replies _ _ rfl
      | returned result => exact .replies _ _ rfl
  | checkInvoice id p =>
      set bitcoin := bitcoinrpc codec world.search with hbitcoin
      cases p with
      | start =>
          cases hv : bitcoin.isValidAddress id with
          | false => simpa [turn, checkTurn, ← hbitcoin, hv] using Turns.replies _ _ rfl
          | true =>
              cases hi : s.invoices id with
              | none => simpa [turn, checkTurn, ← hbitcoin, hv, hi] using Turns.replies _ _ rfl
              | some invoice =>
                  have hturn : ((checkInvoice id .start).turn codec world s) =
                      (.inl (.checkInvoice id (.found invoice)), s) := by
                    simp [turn, checkTurn, ← hbitcoin, hv, hi]
                  rw [hturn]
                  exact .reads _ _ rfl rfl rfl fun _ _ => hi
      | found invoice =>
          cases hi : s.invoices id with
          | none => simpa [turn, checkTurn, hi] using Turns.replies _ _ rfl
          | some again =>
              by_cases hx : unix world.env.now.ns > again.expiry
              · simpa [turn, checkTurn, hi, hx] using Turns.replies _ _ rfl
              · have hturn : ((checkInvoice id (.found invoice)).turn codec world s) =
                    (.inl (.checkInvoice id (.unexpired invoice)), s) := by
                  simp [turn, checkTurn, hi, hx]
                rw [hturn]
                exact .reads _ _ rfl rfl rfl fun _ h => h
      | unexpired invoice =>
          cases hr : bitcoin.getReceivedAmount id <;>
            simpa [turn, checkTurn, ← hbitcoin, hr] using Turns.replies _ _ rfl
  | getInvoice id => exact .replies _ _ rfl

end Job

/-! ### The server and its handlers -/

/-- What is asked of a turn: the key derivation gives addresses of its own, and the turn
derives none while another handler has derived one and not incremented the index. -/
structure Separated (xpub : String) (childAddress : ℕ → String) (s : Server) (js : Multiset Job)
    (j : Job) (env : CreateEnv Key) : Prop where
  derives : ∀ value d x, j = .createInvoice value (.priced d x) →
    env.keychain.Derives xpub childAddress
  noClash : ∀ value d x address, j = .createInvoice value (.priced d x) →
    deriveChild env.keychain s.xpub s.derivationIndex = .ok address → ∀ j' ∈ js, ¬ j'.Pending

/-- **The invariant of the server and its handlers.**  The ledger holds children below the
index, each under its own address; every handler finds what it relies on; and no two hold one
address that neither has stored. -/
structure Handled (xpub : String) (childAddress : ℕ → String) (s : Server) (js : Multiset Job) :
    Prop where
  xpub : s.xpub = xpub
  bound : s.derivationIndex.toNat ≤ 2 ^ 31
  ledger : ∀ id invoice, s.invoices id = some invoice →
    invoice.invoiceID = id ∧ ∃ k < s.derivationIndex.toNat, id = childAddress k
  sound : ∀ j ∈ js, j.Sound childAddress s
  apart : (js.filterMap Job.reserved).Nodup

/-- The server has just started, and no request has come in: the ledger is empty, the index is
zero, and there is nothing a handler could rely on. -/
theorem handled_start : Handled xpub childAddress (Server.start xpub) 0 where
  xpub := rfl
  bound := by simp [Server.start]
  ledger := by simp [Server.start]
  sound := by simp
  apart := by simp

/-- A handler goes on relying on the server where its entries stay, the address it holds stays
free, and the index stays where it waits to increment it. -/
theorem Job.Sound.mono {j : Job} {s s' : Server} (h : j.Sound childAddress s)
    (hindex : s.derivationIndex.toNat ≤ s'.derivationIndex.toNat)
    (hpending : j.Pending → s'.derivationIndex = s.derivationIndex)
    (hkept : ∀ id invoice, s.invoices id = some invoice → s'.invoices id = some invoice)
    (hfree : ∀ a, j.reserved = some a → s.invoices a = none → s'.invoices a = none) :
    j.Sound childAddress s' := by
  cases j with
  | createInvoice value p =>
      cases p with
      | start | priced => trivial
      | derived d x a =>
          have heq : s'.derivationIndex = s.derivationIndex := hpending ⟨d, x, a, rfl⟩
          unfold Job.Sound
          rw [heq]
          exact h
      | incremented d x a =>
          obtain ⟨⟨k, hk, ha⟩, hnone⟩ := h
          exact ⟨⟨k, hk.trans_le hindex, ha⟩, hfree a rfl hnone⟩
      | stored r => exact ⟨h.1, hkept _ _ h.2⟩
      | returned result => exact h
  | checkInvoice id p =>
      cases p with
      | start => trivial
      | found invoice | unexpired invoice => exact hkept _ _ h
  | getInvoice id => trivial

namespace Handled

variable {s s' : Server} {js : Multiset Job} {j j' : Job} {value : Int32} {d x : Int64} {a : String}

/-- A handler joins the others, if it finds what it relies on and the address it holds, if any, is
held by none of them. -/
theorem cons (h : Handled xpub childAddress s js) (hs : j.Sound childAddress s)
    (hr : ∀ a, j.reserved = some a → a ∉ js.filterMap Job.reserved) :
    Handled xpub childAddress s (j ::ₘ js) where
  xpub := h.xpub
  bound := h.bound
  ledger := h.ledger
  sound := Multiset.forall_mem_cons.2 ⟨hs, h.sound⟩
  apart := by
    cases ha : j.reserved with
    | none =>
        rw [Multiset.filterMap_cons_none _ _ ha]
        exact h.apart
    | some a =>
        rw [Multiset.filterMap_cons_some _ _ _ ha, Multiset.nodup_cons]
        exact ⟨hr a ha, h.apart⟩

/-- A handler has come to its end, or is set aside to look at the others: what they rely on does
not depend on it. -/
theorem tail (h : Handled xpub childAddress s (j ::ₘ js)) : Handled xpub childAddress s js where
  xpub := h.xpub
  bound := h.bound
  ledger := h.ledger
  sound j' hj' := h.sound j' (Multiset.mem_cons_of_mem hj')
  apart := Multiset.nodup_of_le
    (Multiset.filterMap_le_filterMap _ (Multiset.le_cons_self js j)) h.apart

/-- A request comes in, and its handler holds nothing yet, so the invariant asks nothing of it. -/
theorem begins (h : Handled xpub childAddress s js) (q : InvoiceClient.Request) :
    Handled xpub childAddress s (Job.begins q ::ₘ js) := by
  cases q <;> exact h.cons trivial fun a ha => by cases ha

/-- The address that a handler holds is held by no other: the invariant keeps the list of them
free of repetitions. -/
theorem notMem_reserved (h : Handled xpub childAddress s (j ::ₘ js)) (ha : j.reserved = some a) :
    a ∉ js.filterMap Job.reserved := by
  have hnodup := h.apart
  rw [Multiset.filterMap_cons_some _ _ _ ha, Multiset.nodup_cons] at hnodup
  exact hnodup.1

/-- An address below the index is not that of the next child, because the derivation gives
distinct addresses to distinct indices below 2^31. -/
theorem ne_next (hinj : Set.InjOn childAddress (Set.Iio (2 ^ 31)))
    (hlt : s.derivationIndex.toNat < 2 ^ 31) {k : ℕ} (hk : k < s.derivationIndex.toNat) :
    childAddress k ≠ childAddress s.derivationIndex.toNat := fun he => by
  have := hinj (Set.mem_Iio.2 (by omega)) (Set.mem_Iio.2 hlt) he
  omega

/-- **A derivation,** while no other handler holds the next child. A handler that holds an address
has derived it at this index, which the guard excludes, or has incremented the index behind it,
and then it is the address of an older child. -/
theorem derive (hinj : Set.InjOn childAddress (Set.Iio (2 ^ 31)))
    (h : Handled xpub childAddress s (j ::ₘ js)) (hlt : s.derivationIndex.toNat < 2 ^ 31)
    (hnone : ∀ j' ∈ js, ¬ j'.Pending) :
    Handled xpub childAddress s
      (.createInvoice value (.derived d x (childAddress s.derivationIndex.toNat)) ::ₘ js) := by
  refine h.tail.cons ⟨hlt, rfl⟩ fun b hb hmem => ?_
  obtain rfl := Option.some.inj hb
  obtain ⟨j', hj', hr⟩ := (Multiset.mem_filterMap _ _).1 hmem
  have hs := h.tail.sound j' hj'
  -- a handler that holds an address has derived it or incremented the index behind it
  match j', hr with
  | .createInvoice _ (.derived d' x' _), _ => exact hnone _ hj' ⟨d', x', _, rfl⟩
  | .createInvoice _ (.incremented _ _ _), rfl =>
      obtain ⟨⟨k, hk, he⟩, -⟩ := hs
      exact ne_next hinj hlt hk he.symm

/-- **The increment,** by the one handler that holds the next child. The child becomes one below
the index, its address is still free in the ledger, and no other handler was waiting to increment
this index. -/
theorem increment (hinj : Set.InjOn childAddress (Set.Iio (2 ^ 31)))
    (h : Handled xpub childAddress s (.createInvoice value (.derived d x a) ::ₘ js)) :
    Handled xpub childAddress { s with derivationIndex := s.derivationIndex + 1 }
      (.createInvoice value (.incremented d x a) ::ₘ js) := by
  obtain ⟨hlt, ha⟩ := h.sound _ (Multiset.mem_cons_self ..)
  have hother := h.notMem_reserved rfl
  have hindex : (s.derivationIndex + 1).toNat = s.derivationIndex.toNat + 1 := by
    rw [UInt32.toNat_add, UInt32.toNat_one]
    omega
  have hfree : s.invoices a = none := by
    rw [Option.eq_none_iff_forall_ne_some]
    intro invoice hi
    obtain ⟨-, k, hk, he⟩ := h.ledger a invoice hi
    exact ne_next hinj hlt hk (he.symm.trans ha)
  have htail :
      Handled xpub childAddress { s with derivationIndex := s.derivationIndex + 1 } js := by
    refine ⟨h.xpub, by rw [hindex]; omega, fun id invoice hi => ?_, fun j' hj' => ?_, h.tail.apart⟩
    · obtain ⟨hid, k, hk, he⟩ := h.ledger id invoice hi
      exact ⟨hid, k, by rw [hindex]; omega, he⟩
    · have hs := h.tail.sound j' hj'
      refine hs.mono (by rw [hindex]; omega) (fun hp => ?_) (fun _ _ hi => hi) fun _ _ hn => hn
      -- another handler that holds the next child would hold the same address
      match j', hp with
      | .createInvoice _ (.derived d' x' b), _ =>
          refine absurd ((Multiset.mem_filterMap _ _).2 ⟨_, hj', ?_⟩) hother
          exact congrArg some (hs.2.trans ha.symm)
  refine htail.cons ⟨⟨s.derivationIndex.toNat, by rw [hindex]; omega, ha⟩, hfree⟩ fun b hb => ?_
  obtain rfl := Option.some.inj hb
  exact hother

/-- **The entry,** under an address that is free and that no other handler holds: no entry is
overwritten, and those that the other handlers have found are as they were. -/
theorem store (h : Handled xpub childAddress s (.createInvoice value (.incremented d x a) ::ₘ js)) :
    Handled xpub childAddress (s.store a (createInvoiceResponseProtobuf value d x a).entry)
      (.createInvoice value (.stored (createInvoiceResponseProtobuf value d x a)) ::ₘ js) := by
  set r := createInvoiceResponseProtobuf value d x a with hr
  obtain ⟨⟨k, hk, ha⟩, hfree⟩ := h.sound _ (Multiset.mem_cons_self ..)
  have hself : (s.store a r.entry).invoices a = some r.entry := Function.update_self ..
  have hkept : ∀ id, id ≠ a → (s.store a r.entry).invoices id = s.invoices id := fun id hid =>
    Function.update_of_ne hid _ _
  have htail : Handled xpub childAddress (s.store a r.entry) js := by
    refine ⟨h.xpub, h.bound, fun id invoice hi => ?_, fun j' hj' => ?_, h.tail.apart⟩
    · rcases eq_or_ne id a with rfl | hid
      · obtain rfl := Option.some.inj (hself.symm.trans hi)
        exact ⟨rfl, k, hk, ha⟩
      · exact h.ledger id invoice ((hkept id hid).symm.trans hi)
    · refine (h.tail.sound j' hj').mono le_rfl (fun _ => rfl) (fun id invoice hi => ?_)
        fun b hb hn => ?_
      · rw [hkept id fun he => by rw [he, hfree] at hi; cases hi]
        exact hi
      · rw [hkept b fun he => h.notMem_reserved rfl
          ((Multiset.mem_filterMap _ _).2 ⟨j', hj', he ▸ hb⟩)]
        exact hn
  exact htail.cons ⟨rfl, hself⟩ fun b hb => by cases hb

/-- **Every turn keeps the invariant,** if it does not clash, and no turn takes an entry out
of the ledger.  What a turn does to an entry it does when it stores it. -/
theorem turn (hinj : Set.InjOn childAddress (Set.Iio (2 ^ 31))) {env : CreateEnv Key}
    (h : Handled xpub childAddress s (j ::ₘ js))
    (hsep : Separated xpub childAddress s js j env) {out : Job ⊕ Reply}
    (ht : j.Turns env s out s') :
    Handled xpub childAddress s' (out.elim (· ::ₘ js) fun _ => js) ∧
      ∀ id invoice, s.invoices id = some invoice → s'.invoices id = some invoice := by
  cases ht with
  | reads _ j' hj hj' _ hs =>
      refine ⟨h.tail.cons (hs _ (h.sound _ (Multiset.mem_cons_self ..))) fun a ha => ?_,
        fun _ _ hi => hi⟩
      rw [hj'] at ha
      cases ha
  | replies _ reply hj => exact ⟨h.tail, fun _ _ hi => hi⟩
  | derives value d x a ha =>
      have hderived := ha
      rw [h.xpub] at hderived
      obtain ⟨hlt, rfl⟩ := deriveChild_eq_ok (hsep.derives value d x rfl) hderived
      exact ⟨h.derive hinj hlt (hsep.noClash value d x _ rfl ha), fun _ _ hi => hi⟩
  | increments value d x a => exact ⟨h.increment hinj, fun _ _ hi => hi⟩
  | stores value d x a =>
      obtain ⟨-, hfree⟩ := h.sound _ (Multiset.mem_cons_self ..)
      refine ⟨h.store, fun id invoice hi => ?_⟩
      have hid : id ≠ a := fun he => by
        rw [he, hfree] at hi
        cases hi
      exact (Function.update_of_ne hid _ _).trans hi

end Handled

end BitcoinInvoice
