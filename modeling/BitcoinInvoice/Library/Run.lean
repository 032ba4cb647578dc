/-
# Runs of a labelled transition system

A system is a relation `step s l t`: in state `s` the label `l` may lead to `t`.
`Run step s ls t` takes the labels `ls` one by one.  The file has what the
proofs about whole runs need: runs split and join at any point
(`run_append_iff`), an invariant of one step is an invariant of every run
(`Run.invariant`), a property of the labels taken so far is proved one label at
a time (`Run.history`), what holds of every label may be assumed at each step
(`Run.guarded`), a run that breaks a guard has a first step that does
(`Run.guarded_or_first`), and a simulation of single steps is a simulation of
runs (`Run.simulate`).
-/

import Mathlib.Data.List.Induction

namespace Transition

variable {σ τ ι : Type*} {step : σ → ι → σ → Prop}

/-- `Run step s ls t`: from `s`, the labels `ls` lead to `t`. -/
inductive Run (step : σ → ι → σ → Prop) : σ → List ι → σ → Prop
  | nil (s : σ) : Run step s [] s
  | cons {s t u : σ} {l : ι} {ls : List ι} (h : step s l t) (hs : Run step t ls u) :
      Run step s (l :: ls) u

/-- A run without labels stays where it is. -/
@[simp]
theorem run_nil_iff {s t : σ} : Run step s [] t ↔ s = t := by
  constructor
  · rintro ⟨⟩
    rfl
  · rintro rfl
    exact .nil s

/-- A run begins with a step of its first label, and goes on with the others from there. -/
theorem run_cons_iff {s u : σ} {l : ι} {ls : List ι} :
    Run step s (l :: ls) u ↔ ∃ t, step s l t ∧ Run step t ls u := by
  constructor
  · rintro ⟨⟩
    exact ⟨_, ‹_›, ‹_›⟩
  · rintro ⟨t, h, hs⟩
    exact .cons h hs

/-- A run of `ls ++ ms` is a run of `ls` followed by one of `ms`, through a state in between. -/
theorem run_append_iff {s u : σ} {ls ms : List ι} :
    Run step s (ls ++ ms) u ↔ ∃ t, Run step s ls t ∧ Run step t ms u := by
  induction ls generalizing s with
  | nil => simp
  | cons l ls ih =>
      simp only [List.cons_append, run_cons_iff, ih]
      constructor
      · rintro ⟨t, h, v, hs, hv⟩
        exact ⟨v, ⟨t, h, hs⟩, hv⟩
      · rintro ⟨v, ⟨t, h, hs⟩, hv⟩
        exact ⟨t, h, v, hs, hv⟩

/-- Two runs, of which the second begins where the first ends, are one run of the labels
of both. -/
theorem Run.append {s t u : σ} {ls ms : List ι} (h : Run step s ls t) (h' : Run step t ms u) :
    Run step s (ls ++ ms) u :=
  run_append_iff.2 ⟨t, h, h'⟩

/-- A run may be extended at its end. -/
theorem Run.snoc {s t u : σ} {ls : List ι} {l : ι} (h : Run step s ls t) (hl : step t l u) :
    Run step s (ls ++ [l]) u :=
  h.append (.cons hl (.nil u))

/-- The step a run takes behind `before`, with the runs that lead to it and on from it. -/
theorem Run.split {s u : σ} {before after : List ι} {l : ι}
    (h : Run step s (before ++ l :: after) u) :
    ∃ t t', Run step s before t ∧ step t l t' ∧ Run step t' after u := by
  obtain ⟨t, hb, ha⟩ := run_append_iff.1 h
  obtain ⟨t', hs, ha⟩ := run_cons_iff.1 ha
  exact ⟨t, t', hb, hs, ha⟩

/-- Every label of a run is taken somewhere in it, with a run before and a run behind. -/
theorem Run.exists_step {s u : σ} {ls : List ι} {l : ι} (h : Run step s ls u) (hl : l ∈ ls) :
    ∃ before after t t', ls = before ++ l :: after ∧ Run step s before t ∧ step t l t' ∧
      Run step t' after u := by
  obtain ⟨before, after, rfl⟩ := List.append_of_mem hl
  obtain ⟨t, t', hb, hs, ha⟩ := h.split
  exact ⟨before, after, t, t', rfl, hb, hs, ha⟩

/-- **What one step preserves, a run preserves,** by induction on the run. Every safety result is
a use of this rule, with an invariant and a step lemma. -/
theorem Run.invariant {I : σ → Prop} (hI : ∀ s l t, I s → step s l t → I t) {s u : σ}
    {ls : List ι} (h : Run step s ls u) (hs : I s) : I u := by
  induction h with
  | nil => exact hs
  | cons hl _ ih => exact ih (hI _ _ _ hs hl)

/-- **Induction on the labels taken so far.**  `I ls t` relates a state to the
labels that led to it. -/
theorem Run.history {I : List ι → σ → Prop} {s u : σ} {ls : List ι} (h : Run step s ls u)
    (h0 : I [] s)
    (hstep : ∀ ks t l t', Run step s ks t → I ks t → step t l t' → I (ks ++ [l]) t') : I ls u := by
  induction ls using List.reverseRecOn generalizing u with
  | nil =>
      obtain rfl := run_nil_iff.1 h
      exact h0
  | append_singleton ks l ih =>
      obtain ⟨t, hk, hu⟩ := run_append_iff.1 h
      obtain ⟨t', hl, ht⟩ := run_cons_iff.1 hu
      obtain rfl := run_nil_iff.1 ht
      exact hstep ks t l t' hk (ih hk) hl

/-- The labels of a run determine where it ends, if a label determines where a step ends. -/
theorem Run.unique (hdet : ∀ s l t t', step s l t → step s l t' → t = t') {s u u' : σ}
    {ls : List ι} (h : Run step s ls u) (h' : Run step s ls u') : u = u' := by
  induction h with
  | nil => exact run_nil_iff.1 h'
  | cons hl _ ih =>
      obtain ⟨t', hl', hrest⟩ := run_cons_iff.1 h'
      obtain rfl := hdet _ _ _ _ hl hl'
      exact ih hrest

/-- The steps that meet `guard`. -/
def Guarded (guard : σ → ι → Prop) (step : σ → ι → σ → Prop) (s : σ) (l : ι) (t : σ) : Prop :=
  guard s l ∧ step s l t

/-- A run of steps that are all steps of another system is a run of that system. -/
theorem Run.mono {step' : σ → ι → σ → Prop} (hle : ∀ s l t, step s l t → step' s l t) {s u : σ}
    {ls : List ι} (h : Run step s ls u) : Run step' s ls u := by
  induction h with
  | nil s => exact .nil s
  | cons hl _ ih => exact .cons (hle _ _ _ hl) ih

/-- What holds of every label of a run guards its steps, so it may be used at each of them. -/
theorem Run.guarded {P : ι → Prop} {s u : σ} {ls : List ι} (h : Run step s ls u)
    (hP : ∀ l ∈ ls, P l) : Run (Guarded (fun _ l => P l) step) s ls u := by
  induction h with
  | nil s => exact .nil s
  | cons hl _ ih =>
      exact .cons ⟨hP _ (List.mem_cons_self ..), hl⟩
        (ih fun l hl => hP l (List.mem_cons_of_mem _ hl))

/-- A run meets the guard at every step, or there is a first step that does not. -/
theorem Run.guarded_or_first {guard : σ → ι → Prop} {s u : σ} {ls : List ι} (h : Run step s ls u) :
    Run (Guarded guard step) s ls u ∨
      ∃ before l after t t', ls = before ++ l :: after ∧ Run (Guarded guard step) s before t ∧
        ¬ guard t l ∧ step t l t' ∧ Run step t' after u := by
  induction h with
  | nil s => exact Or.inl (.nil s)
  | @cons s t u l ls hl hrest ih =>
      by_cases hg : guard s l
      · rcases ih with hr | ⟨before, m, after, v, v', rfl, hb, hn, hm, ha⟩
        · exact Or.inl (.cons ⟨hg, hl⟩ hr)
        · exact Or.inr ⟨l :: before, m, after, v, v', rfl, .cons ⟨hg, hl⟩ hb, hn, hm, ha⟩
      · exact Or.inr ⟨[], l, ls, s, t, rfl, .nil s, hg, hl, hrest⟩

/-- **A forward simulation of steps is one of runs.**  Where `R` relates the
states of two systems and every step of the first is matched by a step of the
second with the same label, every run of the first is a run of the second. -/
theorem Run.simulate {step' : τ → ι → τ → Prop} {R : σ → τ → Prop}
    (hR : ∀ s l t s', R s s' → step s l t → ∃ t', step' s' l t' ∧ R t t') {s u : σ}
    {ls : List ι} (h : Run step s ls u) {s' : τ} (hs : R s s') :
    ∃ u', Run step' s' ls u' ∧ R u u' := by
  induction h generalizing s' with
  | nil => exact ⟨s', .nil s', hs⟩
  | cons hl _ ih =>
      obtain ⟨t', hl', ht⟩ := hR _ _ _ _ hs hl
      obtain ⟨u', hr, hu⟩ := ih ht
      exact ⟨u', .cons hl' hr, hu⟩

/-- Labels may be renamed. -/
theorem Run.relabel {κ : Type*} {step' : σ → κ → σ → Prop} {f : ι → κ} {s u : σ} {ls : List ι}
    (h : Run (fun s l t => step' s (f l) t) s ls u) : Run step' s (ls.map f) u := by
  induction h with
  | nil s => exact .nil s
  | cons hl _ ih => exact .cons hl ih

/-- A machine that computes its next state runs by folding its labels, and in no other way. -/
theorem run_foldl (f : σ → ι → σ) (s : σ) (ls : List ι) :
    Run (fun s l t => t = f s l) s ls (ls.foldl f s) := by
  induction ls generalizing s with
  | nil => exact .nil s
  | cons l ls ih => exact .cons rfl (ih (f s l))

end Transition
