/-
# An append-only log with unique keys

The abstract behaviour of a store whose entries are written once: the state is
the list of entries in the order they were appended, `append` takes an entry
whose key is not in the log yet, and the lookup of a key finds the entry that has
it or reports that there is none.  After a run the log is what it was before,
followed by what the run appended (`run_eq`), and its keys are still distinct
(`run_nodup`).
-/

import BitcoinInvoice.Library.Run
import Mathlib.Data.List.Nodup

namespace AppendLog

variable {κ ν : Type*} (key : ν → κ)

/-- What an operation does to the log. -/
inductive Op (κ ν : Type*) where
  | append (v : ν)
  | found (k : κ) (v : ν)
  | missing (k : κ)
  | quiet

/-- `Step key log op log'`: the operation `op` may take `log` to `log'`. -/
inductive Step : List ν → Op κ ν → List ν → Prop
  | append (log : List ν) (v : ν) (h : key v ∉ log.map key) : Step log (.append v) (log ++ [v])
  | found (log : List ν) (v : ν) (h : v ∈ log) : Step log (.found (key v) v) log
  | missing (log : List ν) (k : κ) (h : k ∉ log.map key) : Step log (.missing k) log
  | quiet (log : List ν) : Step log .quiet log

/-- The entries a list of operations appends. -/
def appended : List (Op κ ν) → List ν
  | [] => []
  | .append v :: ops => v :: appended ops
  | .found _ _ :: ops | .missing _ :: ops | .quiet :: ops => appended ops

variable {key} {log log' : List ν}

/-- One operation leaves the log with what it has appended behind it, which may be nothing. -/
theorem Step.eq_append {op : Op κ ν} (h : Step key log op log') : log' = log ++ appended [op] := by
  cases h <;> simp [appended]

/-- One operation keeps the keys apart, since it appends under a new key only. -/
theorem Step.nodup {op : Op κ ν} (h : Step key log op log') (hn : (log.map key).Nodup) :
    (log'.map key).Nodup := by
  cases h with
  | append v hv =>
      rw [List.map_append, List.nodup_append]
      refine ⟨hn, List.nodup_singleton _, fun a ha b hb => ?_⟩
      obtain rfl : b = key v := by simpa using hb
      rintro rfl
      exact hv ha
  | found | missing | quiet => exact hn

/-- What the operations append is what the first appends, and what the others append behind it, in
this order. -/
theorem appended_cons (op : Op κ ν) (ops : List (Op κ ν)) :
    appended (op :: ops) = appended [op] ++ appended ops := by
  cases op <;> rfl

/-- **The log of a run is what the run appended,** behind what was there before: nothing is taken
out, changed or moved. -/
theorem run_eq {ops : List (Op κ ν)} (h : Transition.Run (Step key) log ops log') :
    log' = log ++ appended ops := by
  induction h with
  | nil => simp [appended]
  | cons hs _ ih =>
      rw [ih, hs.eq_append, List.append_assoc, ← appended_cons]

/-- **The keys of a log stay distinct** in every run, so a key is looked up in one entry
at most. -/
theorem run_nodup {ops : List (Op κ ν)} (h : Transition.Run (Step key) log ops log')
    (hn : (log.map key).Nodup) : (log'.map key).Nodup :=
  h.invariant (I := fun log => (log.map key).Nodup) (fun _ _ _ hn hs => hs.nodup hn) hn

end AppendLog
