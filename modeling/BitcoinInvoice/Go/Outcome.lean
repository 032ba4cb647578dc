/-
# What a Go call comes to, and the clock

A Go function returns a value or an error.  Two more things can happen in this
server: `log.Fatalf` ends the process, and reading a field of a nil pointer
panics.  `Outcome` has the four.

`time.Now()` is a `Time`, in nanoseconds since the Unix epoch.  Its seconds are
an `int64`; the clock is taken to be within `2^62` seconds of the epoch, so that
adding the fifteen minutes of an invoice does not leave the range.
-/

import Mathlib.Algebra.Ring.Int.Defs
import Mathlib.Algebra.Ring.Nat
import Mathlib.Order.Basic
import Mathlib.Data.Int.Order.Basic

namespace BitcoinInvoice

/-- A value, an error, an exit of the process, or a nil pointer panic. -/
inductive Outcome (α : Type) where
  | ok (value : α)
  | error (message : String)
  | fatal (message : String)
  | nilDereference
  deriving DecidableEq

namespace Outcome

variable {α : Type}

/-- The call comes back to its caller: the process lives on. -/
def Returns : Outcome α → Prop
  | ok _ | error _ => True
  | fatal _ | nilDereference => False

instance (o : Outcome α) : Decidable o.Returns :=
  match o with
  | ok _ | error _ => isTrue trivial
  | fatal _ | nilDereference => isFalse id

def ofExcept : Except String α → Outcome α
  | .ok value => ok value
  | .error message => error message

/-- A value that is returned without an error is the outcome, so a pure function is a call that
comes back. -/
@[simp]
theorem ofExcept_ok (value : α) : ofExcept (.ok value) = ok value := rfl

/-- An error that is returned is the outcome, with its text, which the caller gets to see. -/
@[simp]
theorem ofExcept_error (message : String) :
    ofExcept (.error message : Except String α) = error message := rfl

/-- What returns no error and what comes back with a value are the same: no other outcome is made
of a returned pair. -/
@[simp]
theorem ofExcept_eq_ok_iff {e : Except String α} {value : α} :
    ofExcept e = ok value ↔ e = .ok value := by
  cases e <;> simp

/-- What returns an error comes back with this error, and with nothing that ends the process. -/
@[simp]
theorem ofExcept_eq_error_iff {e : Except String α} {message : String} :
    ofExcept e = error message ↔ e = .error message := by
  cases e <;> simp

end Outcome

/-- A reading of `time.Now().UTC()`, in nanoseconds since the Unix epoch. -/
structure Time where
  ns : ℤ
  lower : -2 ^ 62 * 10 ^ 9 ≤ ns
  upper : ns < 2 ^ 62 * 10 ^ 9

/-- A clock that shows `n` seconds after the epoch. -/
def Time.ofSeconds (n : UInt32) : Time where
  ns := n.toNat * 10 ^ 9
  lower := by omega
  upper := by
    have := n.toNat_lt
    omega

/-- `time.Minute`, in nanoseconds. -/
def minute : ℤ := 60 * 10 ^ 9

/-- `Time.Unix`: the whole seconds of an instant given in nanoseconds. -/
def unix (ns : ℤ) : Int64 := Int64.ofInt (ns / 10 ^ 9)

/-- The seconds of an instant are its nanoseconds divided by a billion and rounded down, while
they fit into 64 bits. -/
theorem unix_toInt {ns : ℤ} (lower : -2 ^ 63 * 10 ^ 9 ≤ ns) (upper : ns < 2 ^ 63 * 10 ^ 9) :
    (unix ns).toInt = ns / 10 ^ 9 := by
  unfold unix
  exact Int64.toInt_ofInt_of_le (by omega) (by omega)

/-- The seconds of a `Time` always fit, so no instant of the clock wraps, before or after the
epoch. -/
@[simp]
theorem Time.unix_toInt (t : Time) : (unix t.ns).toInt = t.ns / 10 ^ 9 := by
  have := t.lower
  have := t.upper
  exact BitcoinInvoice.unix_toInt (by omega) (by omega)

end BitcoinInvoice
