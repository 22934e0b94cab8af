import Mathlib

/-!
# Machines that scan a sequence

A machine takes one symbol at a time, may emit something at each, and has no step for a symbol it
does not accept. Scanning a sequence is scanning its parts one after the other.
-/

namespace Hnatsd.Misc

variable {σ β γ : Type} {step : σ → β → Option (σ × Option γ)}

/-- From `s` the machine accepts the symbols, emits `out` and ends in another state. -/
inductive Scans (step : σ → β → Option (σ × Option γ)) : σ → List β → List γ → σ → Prop where
  | nil (s : σ) : Scans step s [] [] s
  | cons {s s' t : σ} {b : β} {bs : List β} {emitted : Option γ} {out : List γ}
      (stepped : step s b = some (s', emitted)) (rest : Scans step s' bs out t) :
      Scans step s (b :: bs) (emitted.toList ++ out) t

namespace Scans

theorem single {s t : σ} {b : β} {emitted : Option γ} (stepped : step s b = some (t, emitted)) :
    Scans step s [b] emitted.toList t := by
  simpa using cons stepped (nil t)

theorem append {s t u : σ} {xs ys : List β} {out out' : List γ} (first : Scans step s xs out t)
    (second : Scans step t ys out' u) : Scans step s (xs ++ ys) (out ++ out') u := by
  induction first with
  | nil s => exact second
  | cons stepped _ ih =>
    rw [List.cons_append, List.append_assoc]
    exact cons stepped (ih second)

theorem nil_inv {s t : σ} {out : List γ} (scans : Scans step s [] out t) : out = [] ∧ t = s := by
  cases scans
  exact ⟨rfl, rfl⟩

theorem cons_inv {s t : σ} {b : β} {bs : List β} {out : List γ}
    (scans : Scans step s (b :: bs) out t) :
    ∃ s' emitted rest, step s b = some (s', emitted) ∧ out = emitted.toList ++ rest ∧
      Scans step s' bs rest t := by
  cases scans with
  | cons stepped rest => exact ⟨_, _, _, stepped, rfl, rest⟩

/-- Where the machine is after a first part. -/
theorem append_inv {s u : σ} {xs ys : List β} {out : List γ}
    (scans : Scans step s (xs ++ ys) out u) :
    ∃ t first second, out = first ++ second ∧ Scans step s xs first t ∧
      Scans step t ys second u := by
  induction xs generalizing s out with
  | nil => exact ⟨s, [], out, rfl, nil s, scans⟩
  | cons x xs ih =>
    obtain ⟨s', emitted, rest, stepped, rfl, scansRest⟩ := scans.cons_inv
    obtain ⟨t, first, second, rfl, scansXs, scansYs⟩ := ih scansRest
    exact ⟨t, emitted.toList ++ first, second, by rw [List.append_assoc],
      cons stepped scansXs, scansYs⟩

end Scans

end Hnatsd.Misc
