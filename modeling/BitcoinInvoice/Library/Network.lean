/-
# Clients that call one server over a network

Clients are machines that react to what happens to them and send requests as they do.
The server is a state that its handlers share: a request that comes in is a job, the jobs
take turns, in any order and without a lock, and the last turn of a job is its reply.
Messages overtake one another.  A call may fail at any time: the client is told so, and the
server may still come to the request, whose reply then goes nowhere.

`Stable` is the rule for the clients.  What the server says in a reply is a fact about
the state it was in; if the turns go on only in ways that keep such facts true, then
whatever a client makes of the replies it got holds in the state the server is in now,
however old the replies are (`Stable.run`).  What a turn may be assumed to find, among the
other jobs and in its environment, is a guard on the runs (`Permits`).

A job that is left alone answers at once (`run_alone`, `run_exchange`).  And nothing is spent
twice: what the turns of a run spend is no more than what its requests were worth
(`run_spent`).
-/

import BitcoinInvoice.Library.Run
import Mathlib.Algebra.BigOperators.Group.Multiset.Basic
import Mathlib.Algebra.Order.BigOperators.Group.Multiset

namespace Network

open Transition

variable {ι κ σ U Q J E R M B : Type*}

/-- What a client reacts to: its user, the reply to a request of its own, or the news
that a request failed. -/
inductive Input (U Q R M : Type*) where
  | user (u : U)
  | reply (q : Q) (r : R)
  | failure (q : Q) (m : M)

/-- The handlers of the server.  A turn of a job leads to another job for the same request,
or to the reply. -/
structure Handlers (σ Q J E R : Type*) where
  begins : Q → J
  request : J → Q
  turn : σ → J → E → J ⊕ R → σ → Prop
  request_begins : ∀ q, request (begins q) = q
  request_turn : ∀ s j e j' s', turn s j e (.inl j') s' → request j' = request j

/-- The clients, the server, the jobs and the replies in flight.  A job or a reply whose call
has failed has no client any more. -/
structure Net (ι κ σ Q J R : Type*) where
  client : ι → κ
  server : σ
  jobs : Multiset (Option ι × J)
  replies : Multiset (Option ι × Q × R)

/-- The start: no message is in flight. -/
def Net.start (client : ι → κ) (server : σ) : Net ι κ σ Q J R where
  client := client
  server := server
  jobs := 0
  replies := 0

/-- What happens.  The labels of a client say what it sent, and those of a job what its turn
came to. -/
inductive Label (ι U Q J E R M B : Type*) where
  | input (i : ι) (x : Input U Q R M) (sent : List Q)
  | turn (i : Option ι) (j : J) (e : E) (out : J ⊕ R)
  | background (b : B)

/-- Client `i` reacts to `x`. -/
def Net.handle [DecidableEq ι] (react : κ → Input U Q R M → κ × List Q)
    (handlers : Handlers σ Q J E R) (w : Net ι κ σ Q J R) (i : ι) (x : Input U Q R M) :
    Net ι κ σ Q J R :=
  { w with
    client := Function.update w.client i (react (w.client i) x).1
    jobs := w.jobs + ((react (w.client i) x).2.map fun q => (some i, handlers.begins q) : List _) }

/-- One step of the system. -/
inductive Step [DecidableEq ι] (react : κ → Input U Q R M → κ × List Q)
    (handlers : Handlers σ Q J E R) (background : σ → B → σ → Prop) :
    Net ι κ σ Q J R → Label ι U Q J E R M B → Net ι κ σ Q J R → Prop
  | user (w : Net ι κ σ Q J R) (i : ι) (u : U) :
      Step react handlers background w (.input i (.user u) (react (w.client i) (.user u)).2)
        (w.handle react handlers i (.user u))
  | goesOn (w : Net ι κ σ Q J R) (i : Option ι) (j j' : J) (e : E) (rest : Multiset (Option ι × J))
      (s' : σ) (hj : w.jobs = (i, j) ::ₘ rest) (h : handlers.turn w.server j e (.inl j') s') :
      Step react handlers background w (.turn i j e (.inl j'))
        { w with server := s', jobs := (i, j') ::ₘ rest }
  | returns (w : Net ι κ σ Q J R) (i : Option ι) (j : J) (e : E) (r : R)
      (rest : Multiset (Option ι × J)) (s' : σ) (hj : w.jobs = (i, j) ::ₘ rest)
      (h : handlers.turn w.server j e (.inr r) s') :
      Step react handlers background w (.turn i j e (.inr r))
        { w with server := s', jobs := rest, replies := (i, handlers.request j, r) ::ₘ w.replies }
  | reply (w : Net ι κ σ Q J R) (i : ι) (q : Q) (r : R) (rest : Multiset (Option ι × Q × R))
      (hr : w.replies = (some i, q, r) ::ₘ rest) :
      Step react handlers background w
        (.input i (.reply q r) (react (w.client i) (.reply q r)).2)
        ({ w with replies := rest }.handle react handlers i (.reply q r))
  | lostRequest (w : Net ι κ σ Q J R) (i : ι) (j : J) (m : M) (rest : Multiset (Option ι × J))
      (hj : w.jobs = (some i, j) ::ₘ rest) :
      Step react handlers background w
        (.input i (.failure (handlers.request j) m)
          (react (w.client i) (.failure (handlers.request j) m)).2)
        ({ w with jobs := (none, j) ::ₘ rest }.handle react handlers i
          (.failure (handlers.request j) m))
  | lostReply (w : Net ι κ σ Q J R) (i : ι) (q : Q) (r : R) (m : M)
      (rest : Multiset (Option ι × Q × R)) (hr : w.replies = (some i, q, r) ::ₘ rest) :
      Step react handlers background w
        (.input i (.failure q m) (react (w.client i) (.failure q m)).2)
        ({ w with replies := rest }.handle react handlers i (.failure q m))
  | background (w : Net ι κ σ Q J R) (b : B) (s' : σ) (h : background w.server b s') :
      Step react handlers background w (.background b) { w with server := s' }

/-- The guard of a run: each turn meets `turns`, which may look at the other jobs, and what
happens in the background meets `events`. -/
def Permits (turns : σ → Multiset J → J → E → Prop) (events : σ → B → Prop)
    (w : Net ι κ σ Q J R) : Label ι U Q J E R M B → Prop
  | .turn i j e _ => ∀ rest, w.jobs = (i, j) ::ₘ rest → turns w.server (rest.map Prod.snd) j e
  | .background b => events w.server b
  | .input _ _ _ => True

variable {react : κ → Input U Q R M → κ × List Q} {handlers : Handlers σ Q J E R}
  {background : σ → B → σ → Prop} {turns : σ → Multiset J → J → E → Prop} {events : σ → B → Prop}

/-- A guard that asks for more permits less, so a run under it is one under a guard that asks
for less. -/
theorem Permits.mono {turns' : σ → Multiset J → J → E → Prop} {events' : σ → B → Prop}
    (ht : ∀ s js j e, turns s js j e → turns' s js j e) (he : ∀ s b, events s b → events' s b)
    {w : Net ι κ σ Q J R} {l : Label ι U Q J E R M B} (h : Permits turns events w l) :
    Permits turns' events' w l := by
  cases l with
  | input i x sent => trivial
  | turn i j e out => exact fun rest hj => ht _ _ _ _ (h rest hj)
  | background b => exact he _ _ h

section Handle

variable [DecidableEq ι] (w : Net ι κ σ Q J R) (i : ι) (x : Input U Q R M)

/-- The server does not notice what a client reacts to, until a job takes a turn. -/
@[simp]
theorem Net.handle_server : (w.handle react handlers i x).server = w.server := rfl

/-- The replies in flight are as they were: what a client sends becomes a job. -/
@[simp]
theorem Net.handle_replies : (w.handle react handlers i x).replies = w.replies := rfl

/-- The client that reacts is in the state its reaction leads to, whatever it has sent besides. -/
@[simp]
theorem Net.handle_client_self :
    (w.handle react handlers i x).client i = (react (w.client i) x).1 :=
  Function.update_self ..

/-- The other clients do not notice that one of them reacts: what it sends goes to the server, not
to them. -/
theorem Net.handle_client_of_ne {j : ι} (h : j ≠ i) :
    (w.handle react handlers i x).client j = w.client j :=
  Function.update_of_ne h ..

end Handle

/-! ### What the replies say stays true -/

/-- What a client may take for granted of an input: a request of its own is behind it, and
a reply says something true of the state `s` of the server. -/
def Fair (Fact : Q → R → σ → Prop) (Asks : κ → Q → Prop) (k : κ) (s : σ) : Input U Q R M → Prop
  | .user _ => True
  | .reply q r => Asks k q ∧ Fact q r s
  | .failure q _ => Asks k q

/-- `Extends s s'` is how the server may go on.  Each turn of a job does, and what happens in
the background, and both keep the invariant `I` of the server and its jobs, which a new job
keeps as well.  What a reply says of the state it was given in (`Fact`), and what a client
has made of its replies (`Good`), holds of every state that goes on from there.  A client
that has sent a request stays one that may have (`Asks`). -/
structure Stable (react : κ → Input U Q R M → κ × List Q) (handlers : Handlers σ Q J E R)
    (background : σ → B → σ → Prop) (turns : σ → Multiset J → J → E → Prop) (events : σ → B → Prop)
    (I : σ → Multiset J → Prop) (Extends : σ → σ → Prop) (Fact : Q → R → σ → Prop)
    (Asks : κ → Q → Prop) (Good : κ → σ → Prop) : Prop where
  begins : ∀ s js q, I s js → I s (handlers.begins q ::ₘ js)
  goesOn : ∀ s js j e j' s', I s (j ::ₘ js) → turns s js j e → handlers.turn s j e (.inl j') s' →
    I s' (j' ::ₘ js) ∧ Extends s s'
  returns : ∀ s js j e r s', I s (j ::ₘ js) → turns s js j e → handlers.turn s j e (.inr r) s' →
    I s' js ∧ Extends s s' ∧ Fact (handlers.request j) r s'
  background : ∀ s js b s', I s js → events s b → background s b s' → I s' js ∧ Extends s s'
  fact : ∀ s s' q r, Extends s s' → Fact q r s → Fact q r s'
  good : ∀ s s' k, Extends s s' → Good k s → Good k s'
  client : ∀ s k x, Good k s → Fair Fact Asks k s x → Good (react k x).1 s
  keeps : ∀ s k x q, Good k s → Fair Fact Asks k s x → Asks k q → Asks (react k x).1 q
  sends : ∀ s k x q, Good k s → Fair Fact Asks k s x → q ∈ (react k x).2 → Asks (react k x).1 q

/-- The invariant of the system. -/
structure Safe (handlers : Handlers σ Q J E R) (I : σ → Multiset J → Prop)
    (Fact : Q → R → σ → Prop) (Asks : κ → Q → Prop) (Good : κ → σ → Prop) (w : Net ι κ σ Q J R) :
    Prop where
  server : I w.server (w.jobs.map Prod.snd)
  jobs : ∀ i j, (some i, j) ∈ w.jobs → Asks (w.client i) (handlers.request j)
  replies : ∀ i q r, (some i, q, r) ∈ w.replies → Asks (w.client i) q
  facts : ∀ i q r, (i, q, r) ∈ w.replies → Fact q r w.server
  clients : ∀ i, Good (w.client i) w.server

section Stable

variable {I : σ → Multiset J → Prop} {Extends : σ → σ → Prop} {Fact : Q → R → σ → Prop}
  {Asks : κ → Q → Prop} {Good : κ → σ → Prop} {w w' : Net ι κ σ Q J R}

/-- At the start nothing has been asked or said, so the invariant is that of the server, and
what the clients have come to without any reply. -/
theorem safe_start {client : ι → κ} {server : σ} (hI : I server 0)
    (hG : ∀ i, Good (client i) server) :
    Safe handlers I Fact Asks Good (Net.start client server : Net ι κ σ Q J R) where
  server := hI
  jobs _ _ hj := absurd hj (Multiset.notMem_zero _)
  replies _ _ _ hr := absurd hr (Multiset.notMem_zero _)
  facts _ _ _ hr := absurd hr (Multiset.notMem_zero _)
  clients := hG

/-- The server goes on, with other jobs for requests that were there before. The replies in flight
and what the clients have made of theirs stay true, because the new state extends the old one. -/
theorem Safe.extend (h : Safe handlers I Fact Asks Good w)
    (hst : Stable react handlers background turns events I Extends Fact Asks Good) {s' : σ}
    {jobs : Multiset (Option ι × J)} (hI : I s' (jobs.map Prod.snd)) (hs : Extends w.server s')
    (hj : ∀ i j, (some i, j) ∈ jobs → ∃ j', (some i, j') ∈ w.jobs ∧
      handlers.request j' = handlers.request j) :
    Safe handlers I Fact Asks Good { w with server := s', jobs := jobs } where
  server := hI
  jobs i j hm := by
    obtain ⟨j', hm', hq⟩ := hj i j hm
    exact hq ▸ h.jobs i j' hm'
  replies := h.replies
  facts i q r hr := hst.fact _ _ _ _ hs (h.facts i q r hr)
  clients i := hst.good _ _ _ hs (h.clients i)

/-- Replies may be lost, and jobs may lose their clients: a job without a client still takes its
turns, so the invariant of the server needs it, but nobody waits for it. -/
theorem Safe.drop (h : Safe handlers I Fact Asks Good w) {jobs : Multiset (Option ι × J)}
    {replies : Multiset (Option ι × Q × R)} (hI : jobs.map Prod.snd = w.jobs.map Prod.snd)
    (hj : ∀ i j, (some i, j) ∈ jobs → (some i, j) ∈ w.jobs) (hr : replies ≤ w.replies) :
    Safe handlers I Fact Asks Good { w with jobs := jobs, replies := replies } where
  server := hI ▸ h.server
  jobs i j hm := h.jobs i j (hj i j hm)
  replies i q r hm := h.replies i q r (Multiset.mem_of_le hr hm)
  facts i q r hm := h.facts i q r (Multiset.mem_of_le hr hm)
  clients := h.clients

/-- New jobs keep the invariant of the server, one after the other: a client may send several
requests in one reaction, and each of them begins a job. -/
theorem Stable.begin_all
    (hst : Stable react handlers background turns events I Extends Fact Asks Good) {s : σ}
    {js : Multiset J} (h : I s js) (qs : List Q) :
    I s (js + (qs.map handlers.begins : List J)) := by
  induction qs with
  | nil => simpa using h
  | cons q qs ih =>
      rw [List.map_cons, ← Multiset.cons_coe, Multiset.add_cons]
      exact hst.begins _ _ q ih

variable [DecidableEq ι]

/-- A client reacts: what it sends it may ask, and what the others have asked and made of
their replies is as it was. -/
theorem Safe.handle (h : Safe handlers I Fact Asks Good w)
    (hst : Stable react handlers background turns events I Extends Fact Asks Good) {i : ι}
    {x : Input U Q R M} (hx : Fair Fact Asks (w.client i) w.server x) :
    Safe handlers I Fact Asks Good (w.handle react handlers i x) := by
  have hkeeps : ∀ j q, Asks (w.client j) q → Asks ((w.handle react handlers i x).client j) q := by
    intro j q hq
    rcases eq_or_ne j i with rfl | hj
    · rw [Net.handle_client_self]
      exact hst.keeps _ _ _ q (h.clients j) hx hq
    · rw [Net.handle_client_of_ne _ _ _ hj]
      exact hq
  refine ⟨?_, fun k j hj => ?_, fun j q r hr => hkeeps j q (h.replies j q r hr), h.facts,
    fun j => ?_⟩
  · have hall := hst.begin_all h.server (react (w.client i) x).2
    rw [Net.handle, Multiset.map_add, Multiset.map_coe, List.map_map]
    exact hall
  · rcases Multiset.mem_add.1 hj with hj | hj
    · exact hkeeps k _ (h.jobs k j hj)
    · obtain ⟨q, hq, he⟩ := List.mem_map.1 (Multiset.mem_coe.1 hj)
      obtain ⟨hik, rfl⟩ := Prod.mk.inj he
      obtain rfl := Option.some.inj hik
      rw [Net.handle_client_self, handlers.request_begins]
      exact hst.sends _ _ _ q (h.clients i) hx hq
  · rcases eq_or_ne j i with rfl | hj
    · rw [Net.handle_client_self]
      exact hst.client _ _ _ (h.clients j) hx
    · rw [Net.handle_client_of_ne _ _ _ hj]
      exact h.clients j

/-- **What one step preserves.** A client reacts to its user, to a reply or to a failure, and is
told nothing that is not true of the server as it is; a job takes its turn, and the server goes on
in a way that keeps all that was said. -/
theorem Stable.step (hst : Stable react handlers background turns events I Extends Fact Asks Good)
    (h : Safe handlers I Fact Asks Good w) {l : Label ι U Q J E R M B}
    (hs : Guarded (Permits turns events) (Step react handlers background) w l w') :
    Safe handlers I Fact Asks Good w' := by
  obtain ⟨hp, hs⟩ := hs
  cases hs with
  | user i u => exact h.handle hst trivial
  | goesOn i j j' e rest s' hj hturn =>
      have hI := h.server
      rw [hj, Multiset.map_cons] at hI
      obtain ⟨hI', he⟩ := hst.goesOn _ _ _ _ _ _ hI (hp rest hj) hturn
      refine h.extend hst (by rwa [Multiset.map_cons]) he fun k j'' hm => ?_
      rcases Multiset.mem_cons.1 hm with hm | hm
      · obtain ⟨rfl, rfl⟩ := Prod.mk.inj hm
        exact ⟨j, hj ▸ Multiset.mem_cons_self .., (handlers.request_turn _ _ _ _ _ hturn).symm⟩
      · exact ⟨j'', hj ▸ Multiset.mem_cons_of_mem hm, rfl⟩
  | returns i j e r rest s' hj hturn =>
      have hI := h.server
      rw [hj, Multiset.map_cons] at hI
      obtain ⟨hI', he, hf⟩ := hst.returns _ _ _ _ _ _ hI (hp rest hj) hturn
      have hext : Safe handlers I Fact Asks Good { w with server := s', jobs := rest } :=
        h.extend hst hI' he fun k j' hm => ⟨j', hj ▸ Multiset.mem_cons_of_mem hm, rfl⟩
      refine ⟨hext.server, hext.jobs, fun k q r' hm => ?_, fun k q r' hm => ?_, hext.clients⟩
      · rcases Multiset.mem_cons.1 hm with he | hm
        · simp only [Prod.mk.injEq] at he
          obtain ⟨rfl, rfl, rfl⟩ := he
          exact h.jobs k j (hj ▸ Multiset.mem_cons_self ..)
        · exact h.replies k q r' hm
      · rcases Multiset.mem_cons.1 hm with he | hm
        · simp only [Prod.mk.injEq] at he
          obtain ⟨rfl, rfl, rfl⟩ := he
          exact hf
        · exact hext.facts k q r' hm
  | reply i q r rest hr =>
      have hmem : (some i, q, r) ∈ w.replies := hr ▸ Multiset.mem_cons_self ..
      have hrest : Safe handlers I Fact Asks Good { w with replies := rest } :=
        h.drop rfl (fun _ _ hj => hj) (hr ▸ Multiset.le_cons_self rest _)
      exact hrest.handle hst ⟨h.replies i q r hmem, h.facts _ q r hmem⟩
  | lostRequest i j m rest hj =>
      have hrest : Safe handlers I Fact Asks Good { w with jobs := (none, j) ::ₘ rest } := by
        refine h.drop ?_ (fun k j' hm => ?_) le_rfl
        · rw [hj, Multiset.map_cons, Multiset.map_cons]
        · rcases Multiset.mem_cons.1 hm with he | hm
          · cases he
          · rw [hj]
            exact Multiset.mem_cons_of_mem hm
      exact hrest.handle hst (h.jobs i j (hj ▸ Multiset.mem_cons_self ..))
  | lostReply i q r m rest hr =>
      have hrest : Safe handlers I Fact Asks Good { w with replies := rest } :=
        h.drop rfl (fun _ _ hj => hj) (hr ▸ Multiset.le_cons_self rest _)
      exact hrest.handle hst (h.replies i q r (hr ▸ Multiset.mem_cons_self ..))
  | background b s' hb =>
      obtain ⟨hI, he⟩ := hst.background _ _ _ _ h.server hp hb
      exact h.extend hst hI he fun k j hm => ⟨j, hm, rfl⟩

/-- **What the clients make of old replies holds of the server as it is now,** in every run whose
turns and events keep to the guard, from a state that is safe: by induction on the run, each step
preserves the invariant. -/
theorem Stable.run (hst : Stable react handlers background turns events I Extends Fact Asks Good)
    (h : Safe handlers I Fact Asks Good w) {ls : List (Label ι U Q J E R M B)}
    (hr : Run (Guarded (Permits turns events) (Step react handlers background)) w ls w') :
    Safe handlers I Fact Asks Good w' :=
  hr.invariant (fun _ _ _ hs hstep => hst.step hs hstep) h

end Stable

/-! ### A job that is left alone -/

/-- The turns of a job that no other job comes between, from the state `s` to its reply. -/
inductive Alone (turn : σ → J → E → J ⊕ R → σ → Prop) :
    σ → J → List (J × E × (J ⊕ R)) → R → σ → Prop
  | returns (s : σ) (j : J) (e : E) (r : R) (s' : σ) (h : turn s j e (.inr r) s') :
      Alone turn s j [(j, e, .inr r)] r s'
  | goesOn (s : σ) (j : J) (e : E) (j' : J) (s' : σ) (ts : List (J × E × (J ⊕ R))) (r : R) (s'' : σ)
      (h : turn s j e (.inl j') s') (hs : Alone turn s' j' ts r s'') :
      Alone turn s j ((j, e, .inl j') :: ts) r s''

/-- The labels of the turns, of a job of client `i`. -/
def turnLabels (i : Option ι) (ts : List (J × E × (J ⊕ R))) : List (Label ι U Q J E R M B) :=
  ts.map fun t => .turn i t.1 t.2.1 t.2.2

section Alone

variable [DecidableEq ι] (w : Net ι κ σ Q J R) {i : Option ι} {j : J}
  {rest : Multiset (Option ι × J)} {ts : List (J × E × (J ⊕ R))} {r : R} {s' : σ}

/-- The handlers' turns, as far as the guard permits them beside the jobs `js`. -/
def Handlers.permitted (handlers : Handlers σ Q J E R) (turns : σ → Multiset J → J → E → Prop)
    (js : Multiset J) (s : σ) (j : J) (e : E) (out : J ⊕ R) (s' : σ) : Prop :=
  turns s js j e ∧ handlers.turn s j e out s'

/-- **A job that is left alone comes to its reply,** beside any other jobs, which are as they
were afterwards, as are the clients and the replies in flight. -/
theorem run_alone (react : κ → Input U Q R M → κ × List Q) (background : σ → B → σ → Prop)
    (events : σ → B → Prop) (hj : w.jobs = (i, j) ::ₘ rest)
    (ha : Alone (handlers.permitted turns (rest.map Prod.snd)) w.server j ts r s') :
    Run (Guarded (Permits turns events) (Step react handlers background)) w (turnLabels i ts)
      { w with
        server := s'
        jobs := rest
        replies := (i, handlers.request j, r) ::ₘ w.replies } := by
  obtain ⟨client, server, jobs, replies⟩ := w
  obtain rfl : jobs = (i, j) ::ₘ rest := hj
  have hpermits : ∀ (s : σ) (j : J) (e : E) (out : J ⊕ R), turns s (rest.map Prod.snd) j e →
      Permits (U := U) (M := M) turns events
        (⟨client, s, (i, j) ::ₘ rest, replies⟩ : Net ι κ σ Q J R) (.turn i j e out) := by
    intro s j e out ht rest' hrest
    rw [← Multiset.cons_inj_right (i, j) |>.1 hrest]
    exact ht
  change Alone _ server j ts r s' at ha
  induction ha with
  | returns s j e r s' h =>
      exact .cons ⟨hpermits s j e _ h.1, .returns _ i j e r rest s' rfl h.2⟩ (.nil _)
  | goesOn s j e j' s' ts r s'' h _ ih =>
      have hrest := ih
      rw [handlers.request_turn _ _ _ _ _ h.2] at hrest
      exact .cons ⟨hpermits s j e _ h.1, .goesOn _ i j j' e rest s' rfl h.2⟩ hrest

variable {i : ι} {u : U} {q : Q}

/-- A reply that has come at once, and the client has got. -/
def Net.answered (react : κ → Input U Q R M → κ × List Q) (handlers : Handlers σ Q J E R)
    (w : Net ι κ σ Q J R) (i : ι) (rest : Multiset (Option ι × J)) (q : Q) (r : R) (s' : σ) :
    Net ι κ σ Q J R :=
  { w with server := s', jobs := rest }.handle react handlers i (.reply q r)

/-- **A request in flight can be answered,** whatever else is: its job takes its turns, and
the reply arrives. -/
theorem run_answer (react : κ → Input U Q R M → κ × List Q) (background : σ → B → σ → Prop)
    (events : σ → B → Prop) (hj : w.jobs = (some i, j) ::ₘ rest)
    (ha : Alone (handlers.permitted turns (rest.map Prod.snd)) w.server j ts r s') :
    Run (Guarded (Permits turns events) (Step react handlers background)) w
      (turnLabels (some i) ts ++ [.input i (.reply (handlers.request j) r)
        (react (w.client i) (.reply (handlers.request j) r)).2])
      (w.answered react handlers i rest (handlers.request j) r s') := by
  have hturns := run_alone w react background events hj ha
  set w' : Net ι κ σ Q J R := ⟨w.client, s', rest, (some i, handlers.request j, r) ::ₘ w.replies⟩
  exact hturns.snoc ⟨trivial, .reply w' i (handlers.request j) r w.replies rfl⟩

/-- **The way of a request:** a client sends it, its job takes its turns, and the reply
arrives. -/
theorem run_exchange (background : σ → B → σ → Prop) (events : σ → B → Prop)
    (hsent : (react (w.client i) (.user u)).2 = [q])
    (ha : Alone (handlers.permitted turns (w.jobs.map Prod.snd)) w.server (handlers.begins q) ts r
      s') :
    Run (Guarded (Permits turns events) (Step react handlers background)) w
      (.input i (.user u) [q] :: (turnLabels (some i) ts ++ [.input i (.reply q r)
        (react (react (w.client i) (.user u)).1 (.reply q r)).2]))
      ((w.handle react handlers i (.user u)).answered react handlers i w.jobs q r s') := by
  have huser : Step react handlers background w (.input i (.user u) [q])
      (w.handle react handlers i (.user u)) :=
    hsent ▸ .user w i u
  have hjobs : (w.handle react handlers i (.user u)).jobs =
      (some i, handlers.begins q) ::ₘ w.jobs := by
    rw [Net.handle, hsent]
    exact Multiset.add_comm _ _
  have hrun := run_answer (w.handle react handlers i (.user u)) react background events hjobs ha
  rw [handlers.request_begins, Net.handle_client_self] at hrun
  exact .cons ⟨trivial, huser⟩ hrun

end Alone

/-! ### Nothing is spent twice -/

/-- The requests sent. -/
def sent (ls : List (Label ι U Q J E R M B)) : Multiset Q :=
  ↑(ls.flatMap fun l =>
    match l with
    | .input _ _ qs => qs
    | .turn _ _ _ _ | .background _ => [])

/-- The requests sent in two parts of a run are those of the one and those of the other, counted
with multiplicity. -/
@[simp]
theorem sent_append (ls ls' : List (Label ι U Q J E R M B)) :
    sent (ls ++ ls') = sent ls + sent ls' := by
  simp [sent]

section Spent

variable {μ : Type*} [AddCommMonoid μ] [PartialOrder μ] [IsOrderedAddMonoid μ] {worth : J → μ}
  {spends : J → J ⊕ R → μ}

/-- What the turns have spent. -/
def spent (spends : J → J ⊕ R → μ) (ls : List (Label ι U Q J E R M B)) : μ :=
  (ls.map fun l =>
    match l with
    | .turn _ j _ out => spends j out
    | .input _ _ _ | .background _ => 0).sum

/-- What has been spent, and what the jobs are still worth, is no more than what the requests
were worth when they were sent. -/
def Balanced (handlers : Handlers σ Q J E R) (worth : J → μ) (spends : J → J ⊕ R → μ)
    (ls : List (Label ι U Q J E R M B)) (w : Net ι κ σ Q J R) : Prop :=
  spent spends ls + (w.jobs.map fun p => worth p.2).sum ≤
    ((sent ls).map fun q => worth (handlers.begins q)).sum

omit [PartialOrder μ] [IsOrderedAddMonoid μ] in
/-- What is spent in two parts of a run is what the one spends and what the other does. -/
@[simp]
theorem spent_append (ls ls' : List (Label ι U Q J E R M B)) :
    spent spends (ls ++ ls') = spent spends ls + spent spends ls' := by
  simp [spent]

variable [DecidableEq ι] {ls : List (Label ι U Q J E R M B)} {w w' : Net ι κ σ Q J R}

/-- What a client sends is worth as much as the jobs it begins, so the balance is as before
whatever a client reacts to. -/
theorem Balanced.handle (h : Balanced handlers worth spends ls w) (i : ι) (x : Input U Q R M) :
    Balanced handlers worth spends (ls ++ [.input i x (react (w.client i) x).2])
      (w.handle react handlers i x) := by
  have hsent : sent [(.input i x (react (w.client i) x).2 : Label ι U Q J E R M B)] =
      ↑(react (w.client i) x).2 := by simp [sent]
  have hspent :
      spent spends [(.input i x (react (w.client i) x).2 : Label ι U Q J E R M B)] = 0 := by
    simp [spent]
  rw [Balanced] at h ⊢
  rw [sent_append, spent_append, hsent, hspent, add_zero, Net.handle, Multiset.map_add,
    Multiset.sum_add, Multiset.map_add, Multiset.sum_add, ← add_assoc]
  refine add_le_add h (le_of_eq ?_)
  rw [Multiset.map_coe, Multiset.map_coe, List.map_map]
  rfl

/-- **What one step preserves,** if a turn spends no more than its job loses by it. Requests that
fail keep their jobs, replies that are lost were worth nothing any more, and what happens in the
background spends nothing. -/
theorem Balanced.step
    (hturn : ∀ s j e out s', handlers.turn s j e out s' →
      spends j out + out.elim worth (fun _ => 0) ≤ worth j)
    (h : Balanced handlers worth spends ls w) {l : Label ι U Q J E R M B}
    (hs : Step react handlers background w l w') :
    Balanced handlers worth spends (ls ++ [l]) w' := by
  have hother : ∀ (l : Label ι U Q J E R M B) (w' : Net ι κ σ Q J R), sent [l] = 0 →
      spent spends [l] + (w'.jobs.map fun p => worth p.2).sum ≤
        (w.jobs.map fun p => worth p.2).sum → Balanced handlers worth spends (ls ++ [l]) w' := by
    intro l w' hsent hle
    have hzero : sent ls + sent [l] = sent ls := by rw [hsent, add_zero]
    rw [Balanced, sent_append, hzero, spent_append, add_assoc]
    exact (add_le_add_right hle _).trans h
  cases hs with
  | user i u => exact h.handle i (.user u)
  | goesOn i j j' e rest s' hj ht =>
      refine hother _ _ rfl ?_
      have hle := hturn _ _ _ _ _ ht
      rw [hj, Multiset.map_cons, Multiset.sum_cons, Multiset.map_cons, Multiset.sum_cons,
        ← add_assoc]
      exact add_le_add_left (by simpa [spent] using hle) _
  | returns i j e r rest s' hj ht =>
      refine hother _ _ rfl ?_
      have hle := hturn _ _ _ _ _ ht
      rw [hj, Multiset.map_cons, Multiset.sum_cons]
      exact add_le_add_left (by simpa [spent] using hle) _
  | reply i q r rest hr => exact Balanced.handle (w := { w with replies := rest }) h i (.reply q r)
  | lostRequest i j m rest hj =>
      refine Balanced.handle (w := { w with jobs := (none, j) ::ₘ rest }) ?_ i
        (.failure (handlers.request j) m)
      rw [Balanced, hj] at h
      rw [Balanced]
      simpa only [Multiset.map_cons] using h
  | lostReply i q r m rest hr =>
      exact Balanced.handle (w := { w with replies := rest }) h i (.failure q m)
  | background b s' hb => exact hother _ _ rfl (by simp [spent])

/-- **Nothing is spent that was not sent, nor twice.** What the turns of a run have spent is at
most the worth of the requests that were sent in it, with multiplicity, because what is left of
the jobs is never less than nothing. -/
theorem run_spent {client : ι → κ} {server : σ}
    (hturn : ∀ s j e out s', handlers.turn s j e out s' →
      spends j out + out.elim worth (fun _ => 0) ≤ worth j)
    (hpos : ∀ j, 0 ≤ worth j)
    (hr : Run (Step react handlers background) (Net.start client server) ls w) :
    spent spends ls ≤ ((sent ls).map fun q => worth (handlers.begins q)).sum := by
  have h : Balanced handlers worth spends ls w :=
    hr.history (I := Balanced handlers worth spends)
      (by simp [Balanced, sent, spent, Net.start]) fun _ _ _ _ _ h hs => h.step hturn hs
  refine le_trans ?_ h
  refine le_add_of_nonneg_right (Multiset.sum_nonneg fun x hx => ?_)
  obtain ⟨p, -, rfl⟩ := Multiset.mem_map.1 hx
  exact hpos p.2

end Spent

end Network
