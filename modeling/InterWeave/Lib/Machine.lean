import Mathlib

/-!
Machines that take one input at a time and may emit an output. An invariant can
mention a summary of the outputs so far, kept by a fold beside the run.
-/

namespace Machine

variable {σ ι ω γ : Type}

def run (step : σ → ι → σ × Option ω) : σ → List ι → σ × List ω
  | state, [] => (state, [])
  | state, input :: rest =>
    let (next, output) := step state input
    let (final, outputs) := run step next rest
    (final, output.toList ++ outputs)

variable {step : σ → ι → σ × Option ω}

@[simp]
theorem run_nil (state : σ) : run step state [] = (state, []) := rfl

theorem run_cons (state : σ) (input : ι) (rest : List ι) :
    run step state (input :: rest) =
      ((run step (step state input).1 rest).1,
        (step state input).2.toList ++ (run step (step state input).1 rest).2) := rfl

theorem run_invariant (inv : σ → Prop)
    (preserved : ∀ state input, inv state → inv (step state input).1) (start : inv state)
    (inputs : List ι) :
    inv (run step state inputs).1 := by
  induction inputs generalizing state with
  | nil => exact start
  | cons input rest ih => exact ih (preserved state input start)

/-- The rule for an invariant beside a summary of the outputs: a step may use that its
input is admissible and that the summary it leads to is still allowed. -/
theorem run_summarised (inv : σ → γ → Prop) (track : γ → ω → γ) (allowed : γ → Prop)
    (admissible : ι → Prop)
    (preserved : ∀ state input summary, inv state summary → admissible input →
      allowed ((step state input).2.elim summary (track summary)) →
      inv (step state input).1 ((step state input).2.elim summary (track summary)))
    (start : inv state summary) (inputsOk : ∀ input ∈ inputs, admissible input)
    (always : ∀ seen ∈ (run step state inputs).2.inits, allowed (seen.foldl track summary)) :
    inv (run step state inputs).1 ((run step state inputs).2.foldl track summary) := by
  induction inputs generalizing state summary with
  | nil => exact start
  | cons input rest ih =>
    rw [run_cons]
    have here : admissible input := inputsOk input List.mem_cons_self
    have later : ∀ other ∈ rest, admissible other :=
      fun other member => inputsOk other (List.mem_cons_of_mem input member)
    rw [run_cons] at always
    cases emitted : (step state input).2 with
    | none =>
      simp only [emitted, Option.toList_none, List.nil_append] at always ⊢
      have next := preserved state input summary start here
      simp only [emitted, Option.elim_none] at next
      exact ih (next (always [] (by simp))) later always
    | some output =>
      simp only [emitted, Option.toList_some, List.singleton_append] at always ⊢
      have next := preserved state input summary start here
      simp only [emitted, Option.elim_some] at next
      refine ih (next (always [output] (by simp))) later fun seen member => ?_
      exact always (output :: seen) (by simpa using member)

end Machine
