/-
# Child indices that cannot be used

`hdkeychain` documents that a child index may be unusable, and that the caller is to
go on to the next.  `deriveAddress` increments the index only after a derivation that
succeeded, so at the first unusable index it stays, and every later call fails there:
calls that meet a working price feed take the indices while they are usable
(`issued_play`), where the documentation has them filtered.  The two agree on the
first `n` addresses exactly where all indices below `n` are usable (`skips_iff`).
-/

import BitcoinInvoice.Api.Derivation
import Mathlib.Data.Finset.Insert
import Mathlib.Data.List.TakeWhile

namespace BitcoinInvoice

open Transition

variable {Key : Type} {xpub : String} {childAddress : ℕ → String} {unusable : Finset ℕ}

/-- The index is not hardened, and a child can be derived there. -/
def Usable (unusable : Finset ℕ) (i : ℕ) : Prop := i < 2 ^ 31 ∧ i ∉ unusable

instance decidableUsable (unusable : Finset ℕ) (i : ℕ) : Decidable (Usable unusable i) := by
  unfold Usable
  infer_instance

/-- The usable indices, in order. -/
def usableIndices (unusable : Finset ℕ) : List ℕ :=
  (List.range (2 ^ 31)).filter fun i => Usable unusable i

/-- `hdkeychain`, for a public key `xpub` that parses, where exactly the indices that
are unusable or hardened have no child. -/
structure Keychain.DerivesBut (keychain : Keychain Key) (xpub : String)
    (childAddress : ℕ → String) (unusable : Finset ℕ) : Prop where
  key : ∃ key, keychain.newKeyFromString xpub = .ok key
  none : ∀ key (i : UInt32), keychain.newKeyFromString xpub = .ok key →
    ¬ Usable unusable i.toNat → ∃ e, keychain.child key i = .error e
  some : ∀ key (i : UInt32), keychain.newKeyFromString xpub = .ok key →
    Usable unusable i.toNat → ∃ childKey, keychain.child key i = .ok childKey ∧
      keychain.address childKey = .ok (childAddress i.toNat)

/-- A child that is not unusable and not hardened is derived, and its address is the one at its
index. -/
theorem Keychain.DerivesBut.deriveChild_eq_ok {keychain : Keychain Key} {i : UInt32}
    (h : keychain.DerivesBut xpub childAddress unusable) (hi : Usable unusable i.toNat) :
    deriveChild keychain xpub i = .ok (childAddress i.toNat) := by
  obtain ⟨key, hkey⟩ := h.key
  obtain ⟨childKey, hchild, haddress⟩ := h.some key i hkey hi
  simp [deriveChild, hkey, hchild, haddress]

/-- A child that is unusable or hardened is an error, of whatever text; the handler passes it on
before it touches the index. -/
theorem Keychain.DerivesBut.deriveChild_eq_error {keychain : Keychain Key} {i : UInt32}
    (h : keychain.DerivesBut xpub childAddress unusable) (hi : ¬ Usable unusable i.toNat) :
    ∃ e, deriveChild keychain xpub i = .error e := by
  obtain ⟨key, hkey⟩ := h.key
  obtain ⟨e, hchild⟩ := h.none key i hkey hi
  exact ⟨_, by simp [deriveChild, hkey, hchild]; rfl⟩

/-- A call of `CreateInvoice` for a positive value, with a working price feed. -/
structure Working (xpub : String) (childAddress : ℕ → String) (unusable : Finset ℕ)
    (call : CreateEnv Key × Int32) : Prop where
  positive : 0 < call.2
  price : ∃ digitalValue, getPrice call.1.client call.1.convert call.2 = .ok digitalValue
  keychain : call.1.keychain.DerivesBut xpub childAddress unusable

/-- A working call at a usable index issues an invoice at its address, and the index moves on by
one. -/
theorem Working.creates {call : CreateEnv Key × Int32}
    (h : Working xpub childAddress unusable call) {s : Server} (hx : s.xpub = xpub)
    (hi : Usable unusable s.derivationIndex.toNat) :
    ∃ r, createInvoice call.1 s call.2 = (.ok r, s.issue r) ∧
      r.invoiceId = childAddress s.derivationIndex.toNat := by
  obtain ⟨digitalValue, hprice⟩ := h.price
  have hchild := h.keychain.deriveChild_eq_ok hi
  rw [← hx] at hchild
  exact ⟨⟨call.2, digitalValue, getExpiry call.1.now, _⟩,
    createInvoice_of_creates ⟨h.positive, rfl, hprice, rfl, hchild⟩, rfl⟩

/-- At an unusable index it fails, and the index stays, so the next call fails at the same child
again. -/
theorem Working.fails {call : CreateEnv Key × Int32}
    (h : Working xpub childAddress unusable call) {s : Server} (hx : s.xpub = xpub)
    (hi : ¬ Usable unusable s.derivationIndex.toNat) :
    ∃ e, createInvoice call.1 s call.2 = (.error e, s) := by
  rcases createInvoice_cases call.1 s call.2 with ⟨r, hc, -⟩ | he
  · obtain ⟨e, hchild⟩ := h.keychain.deriveChild_eq_error hi
    rw [← hx, hc.address] at hchild
    cases hchild
  · exact he

/-- `CreateInvoice` calls, as calls of the server. -/
def createCalls (calls : List (CreateEnv Key × Int32)) : List (Call Key) :=
  calls.map fun call => .createInvoice call.1 call.2

/-- Nothing is taken of a range whose first number is not to be taken, however long it is. -/
theorem takeWhile_range'_of_not {p : ℕ → Bool} {k : ℕ} (h : p k = false) (m : ℕ) :
    (List.range' k m).takeWhile p = [] := by
  cases m with
  | zero => rfl
  | succ m => rw [List.range'_succ, List.takeWhile_cons_of_neg (by simp [h])]

/-- **What consecutive calls issue:** the addresses from the current index on, up to
the first that is unusable. -/
theorem issued_play {calls : List (CreateEnv Key × Int32)}
    (hw : ∀ call ∈ calls, Working xpub childAddress unusable call) {s : Server}
    (hx : s.xpub = xpub) :
    (issued (s.play (createCalls calls)).1).map (·.invoiceId) =
      ((List.range' s.derivationIndex.toNat calls.length).takeWhile
        fun i => Usable unusable i).map childAddress := by
  induction calls generalizing s with
  | nil => rfl
  | cons call calls ih =>
      have hcall := hw call (List.mem_cons_self ..)
      have hrest := fun c hc => hw c (List.mem_cons_of_mem _ hc)
      show (issued (⟨.createInvoice call.1 call.2, (s.serve (.createInvoice call.1 call.2)).1⟩ ::
        ((s.serve (.createInvoice call.1 call.2)).2.play (createCalls calls)).1)).map _ = _
      rw [List.length_cons, List.range'_succ]
      by_cases hi : Usable unusable s.derivationIndex.toNat
      · obtain ⟨r, hcreate, hid⟩ := hcall.creates hx hi
        have hserve : s.serve (.createInvoice call.1 call.2) = (.created (.ok r), s.issue r) := by
          simp only [Server.serve, hcreate]
        have hnext : (s.issue r).derivationIndex.toNat = s.derivationIndex.toNat + 1 := by
          have := hi.1
          simp only [Server.issue, UInt32.toNat_add, UInt32.toNat_one]
          omega
        have hih := ih hrest (s := s.issue r) hx
        rw [hnext] at hih
        rw [hserve, List.takeWhile_cons_of_pos (by simpa using hi), List.map_cons, ← hih, ← hid]
        rfl
      · obtain ⟨e, hcreate⟩ := hcall.fails hx hi
        have hserve : s.serve (.createInvoice call.1 call.2) = (.created (.error e), s) := by
          simp only [Server.serve, hcreate]
        have hnil : ∀ m, (List.range' s.derivationIndex.toNat m).takeWhile
            (fun i => Usable unusable i) = [] :=
          takeWhile_range'_of_not (decide_eq_false hi)
        have hih := ih hrest hx
        rw [hnil] at hih
        rw [hserve, List.takeWhile_cons_of_neg (by simpa using hi)]
        exact hih

/-- From the first state on, the calls take the indices while they are usable, one each, and none
after the first unusable one. -/
theorem issued_play_start {calls : List (CreateEnv Key × Int32)}
    (hw : ∀ call ∈ calls, Working xpub childAddress unusable call) :
    (issued ((Server.start xpub).play (createCalls calls)).1).map (·.invoiceId) =
      ((List.range calls.length).takeWhile fun i => Usable unusable i).map childAddress := by
  rw [issued_play hw rfl, List.range_eq_range']
  rfl

/-- The same of the first `m` calls of a sequence that never ends, from which the first `n`
invoices are taken. -/
theorem issued_play_range {calls : ℕ → CreateEnv Key × Int32}
    (hw : ∀ i, Working xpub childAddress unusable (calls i)) (m : ℕ) :
    (issued ((Server.start xpub).play (createCalls ((List.range m).map calls))).1).map
        (·.invoiceId) =
      ((List.range m).takeWhile fun i => Usable unusable i).map childAddress := by
  have hw' : ∀ call ∈ (List.range m).map calls, Working xpub childAddress unusable call := by
    intro call hcall
    obtain ⟨i, -, rfl⟩ := List.mem_map.1 hcall
    exact hw i
  rw [issued_play_start hw', List.length_map, List.length_range]

/-- The numbers taken while `p` holds all have it, and are the first. -/
theorem of_le_length_takeWhile_range {p : ℕ → Bool} {n m : ℕ}
    (h : n ≤ ((List.range m).takeWhile p).length) : ∀ i < n, p i = true := by
  intro i hi
  have hlt : i < ((List.range m).takeWhile p).length := hi.trans_le h
  have hget : ((List.range m).takeWhile p)[i] = i := by
    rw [(List.takeWhile_prefix p).getElem hlt, List.getElem_range]
  have hmem := List.mem_takeWhile_imp (List.getElem_mem hlt)
  rwa [hget] at hmem

/-- Where the first `n` numbers all pass a filter, they are the first `n` that pass it. -/
theorem take_filter_range {p : ℕ → Bool} {n m : ℕ} (hnm : n ≤ m) (h : ∀ i < n, p i = true) :
    ((List.range m).filter p).take n = List.range n := by
  have hself : (List.range n).filter p = List.range n :=
    List.filter_eq_self.2 fun i hi => h i (List.mem_range.1 hi)
  obtain ⟨k, rfl⟩ := Nat.exists_eq_add_of_le hnm
  rw [List.range_add, List.filter_append, hself, List.take_left' List.length_range]

/-- **The first `n` usable indices are the ones issued exactly where no index below
`n` is unusable.**  `calls` are the working calls made one after the other; some number
of them would have to succeed `n` times, with the addresses of the first `n` usable
indices in order. -/
theorem skips_iff {calls : ℕ → CreateEnv Key × Int32} {n : ℕ}
    (hw : ∀ i, Working xpub childAddress unusable (calls i))
    (hn : n ≤ (usableIndices unusable).length) :
    (∃ m, (issued ((Server.start xpub).play (createCalls ((List.range m).map calls))).1).map
        (·.invoiceId) = ((usableIndices unusable).take n).map childAddress) ↔
      ∀ i < n, i ∉ unusable := by
  have hbound : n ≤ 2 ^ 31 := by
    refine hn.trans ((List.length_filter_le _ _).trans ?_)
    rw [List.length_range]
  constructor
  · rintro ⟨m, hm⟩ i hi
    rw [issued_play_range hw] at hm
    have hlen := congrArg List.length hm
    rw [List.length_map, List.length_map, List.length_take, Nat.min_eq_left hn] at hlen
    have husable := of_le_length_takeWhile_range hlen.ge i hi
    exact (of_decide_eq_true husable).2
  · intro h
    have husable : ∀ i < n, decide (Usable unusable i) = true := fun i hi =>
      decide_eq_true ⟨hi.trans_le hbound, h i hi⟩
    refine ⟨n, ?_⟩
    have hall : (List.range n).takeWhile (fun i => decide (Usable unusable i)) = List.range n :=
      List.takeWhile_eq_self_iff.2 fun i hi => husable i (List.mem_range.1 hi)
    rw [issued_play_range hw, hall, usableIndices, take_filter_range hbound husable]

/-- A keychain as `unaryKeychain`, but with no child at index 1. -/
def gapKeychain : Keychain UInt32 where
  newKeyFromString _ := .ok 0
  child _ i :=
    if i = 1 then .error "the extended key at this index is invalid"
    else unaryKeychain.child 0 i
  address key := unaryKeychain.address key

/-- The key derivation with a gap derives every child but the one at index 1. -/
theorem gapKeychain_derivesBut (xpub : String) :
    gapKeychain.DerivesBut xpub unaryAddress {1} where
  key := ⟨0, rfl⟩
  none key i _ hi := by
    by_cases h1 : i = 1
    · exact ⟨_, if_pos h1⟩
    · have hbig : ¬ i.toNat < 2 ^ 31 := by
        intro hlt
        refine hi ⟨hlt, fun hmem => h1 ?_⟩
        exact UInt32.toNat_inj.1 (Finset.mem_singleton.1 hmem)
      exact ⟨_, (if_neg h1).trans (if_neg hbig)⟩
  some key i _ hi := by
    have h1 : i ≠ 1 := by
      rintro rfl
      exact hi.2 (by decide)
    exact ⟨i, (if_neg h1).trans (if_pos hi.1), rfl⟩

/-- A call for 32 dollars, priced at one bitcoin. -/
def gapCall : CreateEnv UInt32 × Int32 :=
  ({ unaryEnv "1".toList with keychain := gapKeychain }, 3200)

/-- Of the call with a gap everything works but the unusable child: the price is positive and the
feed answers. -/
theorem gapCall_working : Working "tpub" unaryAddress {1} gapCall where
  positive := by decide
  price := ⟨100000000, by decide +kernel⟩
  keychain := gapKeychain_derivesBut "tpub"

/-- The first two usable indices are 0 and 2, with the gap between them. -/
theorem usableIndices_gap : (usableIndices {1}).take 2 = [0, 2] := by
  have hlow : (List.range 3).filter (fun i => decide (Usable {1} i)) = [0, 2] := by decide
  have hsplit : 2 ^ 31 = 3 + 2147483645 := by decide
  rw [usableIndices, hsplit, List.range_add, List.filter_append, hlow]
  exact List.take_left' rfl

/-- The theorem at the gap: the server does not come to a second invoice, however often it is
asked. -/
theorem skips_iff_gapCall :
    (∃ m, (issued ((Server.start "tpub").play
        (createCalls ((List.range m).map fun _ => gapCall))).1).map (·.invoiceId) =
          ((usableIndices {1}).take 2).map unaryAddress) ↔
      ∀ i < 2, i ∉ ({1} : Finset ℕ) := by
  have hn : 2 ≤ (usableIndices {1}).length := by
    have hlen := congrArg List.length usableIndices_gap
    rw [List.length_take, List.length_cons, List.length_singleton] at hlen
    omega
  exact skips_iff (fun _ => gapCall_working) hn

/-- **Stuck at the gap:** however many calls follow, only the first succeeds, and the
address of index 2 is never issued. -/
theorem gapCall_stuck :
    Working "tpub" unaryAddress {1} gapCall ∧ (usableIndices {1}).take 2 = [0, 2] ∧
      ∀ m, (issued ((Server.start "tpub").play
        (createCalls ((List.range m).map fun _ => gapCall))).1).map (·.invoiceId) ≠
          [unaryAddress 0, unaryAddress 2] := by
  refine ⟨gapCall_working, usableIndices_gap, fun m hm => ?_⟩
  rw [issued_play_range fun _ => gapCall_working] at hm
  have hlen := congrArg List.length hm
  rw [List.length_map] at hlen
  have husable := of_le_length_takeWhile_range hlen.ge 1 (by decide)
  exact absurd husable (by decide)

end BitcoinInvoice
