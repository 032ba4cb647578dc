/-
# What is assumed of `hdkeychain`

`Keychain.Derives` states two documented facts about an extended public key: its
hardened children, those from index `2^31` on, cannot be derived, and the child
at an index is always the same key, so its address is a function `childAddress`
of the index.  Nothing says that a derivation succeeds: it may fail at any index
and any time.  That distinct children have distinct addresses is a further
hypothesis on `childAddress`, on the indices below `2^31`.

The assumptions are consistent: `unaryKeychain` meets them
(`unaryKeychain_derives`, `unaryAddress_injective`).
-/

import BitcoinInvoice.Api.Runs
import Mathlib.Data.Set.Function

namespace BitcoinInvoice

variable {Key : Type}

/-- `hdkeychain`, for the public key `xpub` whose child at `i` has the address
`childAddress i`. -/
structure Keychain.Derives (keychain : Keychain Key) (xpub : String) (childAddress : ℕ → String) :
    Prop where
  hardened : ∀ key (i : UInt32), keychain.newKeyFromString xpub = .ok key → 2 ^ 31 ≤ i.toNat →
    ∃ e, keychain.child key i = .error e
  address : ∀ key (i : UInt32) childKey a, keychain.newKeyFromString xpub = .ok key →
    keychain.child key i = .ok childKey → keychain.address childKey = .ok a →
      a = childAddress i.toNat

/-- A derivation that succeeds is at an index that is not hardened, and gives
the address of the child there. -/
theorem deriveChild_eq_ok {keychain : Keychain Key} {xpub : String} {childAddress : ℕ → String}
    (hd : keychain.Derives xpub childAddress) {i : UInt32} {address : String}
    (h : deriveChild keychain xpub i = .ok address) :
    i.toNat < 2 ^ 31 ∧ address = childAddress i.toNat := by
  unfold deriveChild at h
  cases hk : keychain.newKeyFromString xpub with
  | error e => simp [hk] at h
  | ok key =>
      cases hc : keychain.child key i with
      | error e => simp [hk, hc] at h
      | ok childKey =>
          cases ha : keychain.address childKey with
          | error e => simp [hk, hc, ha] at h
          | ok a =>
              obtain rfl : a = address := by simpa [hk, hc, ha] using h
              refine ⟨?_, hd.address key i childKey a hk hc ha⟩
              by_contra hi
              obtain ⟨e, he⟩ := hd.hardened key i hk (not_lt.1 hi)
              rw [he] at hc
              cases hc

/-- The call of an event is answered by a keychain that derives `childAddress`
from `xpub`. -/
def Event.Derives (xpub : String) (childAddress : ℕ → String) (e : Event Key) : Prop :=
  match e.call with
  | .createInvoice env _ => env.keychain.Derives xpub childAddress
  | .checkInvoice _ _ _ | .getInvoice _ => True

/-- Addresses as unary numerals. -/
def unaryAddress (i : ℕ) : String := String.ofList (List.replicate (i + 1) 'm')

/-- No two children have one address in unary: the addresses are of different lengths. -/
theorem unaryAddress_injective : Function.Injective unaryAddress := by
  intro i j h
  simpa [unaryAddress] using congrArg (fun a => a.toList.length) h

/-- A keychain whose keys are indices. -/
def unaryKeychain : Keychain UInt32 where
  newKeyFromString _ := .ok 0
  child _ i :=
    if i.toNat < 2 ^ 31 then .ok i else .error "cannot derive a hardened key from a public key"
  address key := .ok (unaryAddress key.toNat)

/-- The key derivation of the examples derives the addresses in unary, and refuses the hardened
children as the library does. -/
theorem unaryKeychain_derives (xpub : String) : unaryKeychain.Derives xpub unaryAddress where
  hardened _ i _ hi := ⟨_, if_neg (not_lt.2 hi)⟩
  address _ i childKey a _ hc ha := by
    simp only [unaryKeychain] at hc ha
    split_ifs at hc
    obtain rfl := Except.ok.inj hc
    exact (Except.ok.inj ha).symm

/-- A call of `CreateInvoice` at the epoch, priced by a feed that answers `body`. -/
def unaryEnv (body : List Char) : CreateEnv UInt32 where
  client := HttpClient.constant body
  convert _ := 0
  now := .ofSeconds 0
  keychain := unaryKeychain

end BitcoinInvoice
