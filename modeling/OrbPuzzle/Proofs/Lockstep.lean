import Mathlib.Data.List.Forall2
import OrbPuzzle.Proofs.Faults

/-!
# Results in lockstep

To compare two games that are played side by side, one operation at a time is carried out on both,
and the two results are compared. `Follows lag R` says how the second result may differ from the
first when the second game is `lag` ticks ahead of the first on the clock: both operations have
results, related by `R`, or both run out of counts; a game that is ahead may also run out of ticks
alone.

`Follows.bind` takes chains of steps apart, and `follows_runAll` lifts a comparison of single calls
to whole runs.
-/

namespace OrbPuzzle

/-- How the result of an operation compares with that of the same operation on a state that is `lag`
ticks ahead. -/
inductive Follows {α β : Type} (lag : Nat) (R : α → β → Prop) :
    Except Fault α → Except Fault β → Prop where
  | ok {a : α} {b : β} (related : R a b) : Follows lag R (.ok a) (.ok b)
  /-- Both run out of counts. -/
  | both : Follows lag R (.error .sumTooLarge) (.error .sumTooLarge)
  /-- The one that is ahead runs out of ticks. -/
  | ahead {x : Except Fault α} (pos : 0 < lag) : Follows lag R x (.error .sumTooLarge)

variable {lag : Nat}

section Chains

variable {α β γ δ : Type} {R : α → β → Prop} {S : γ → δ → Prop} {x : Except Fault α}
  {y : Except Fault β} {f : α → Except Fault γ} {g : β → Except Fault δ}

/-- Chains of two steps follow each other if their steps do. The second steps may use what is known
of the first results. -/
theorem Follows.bind (h : Follows lag R x y)
    (next : ∀ a b, x = .ok a → y = .ok b → R a b → Follows lag S (f a) (g b)) :
    Follows lag S (x >>= f) (y >>= g) := by
  cases h with
  | ok related => exact next _ _ rfl rfl related
  | both => exact .both
  | ahead pos => exact .ahead pos

theorem Follows.mono {R' : α → β → Prop} (h : Follows lag R x y)
    (himp : ∀ a b, R a b → R' a b) : Follows lag R' x y := by
  cases h with
  | ok related => exact .ok (himp _ _ related)
  | both => exact .both
  | ahead pos => exact .ahead pos

end Chains

/-! ## Counts -/

/-- Sums of ticks, the second of them ahead. -/
theorem follows_add (n k : Nat) :
    Follows lag (fun a b => a = n + k ∧ b = a + lag) (Count.add n k) (Count.add (n + lag) k) := by
  unfold Count.add
  by_cases hsecond : n + lag + k < Count.limit
  · have hfirst : n + k < Count.limit := by omega
    rw [if_pos hfirst, if_pos hsecond]
    exact .ok ⟨rfl, by omega⟩
  · rw [if_neg hsecond]
    rcases Nat.eq_zero_or_pos lag with rfl | hpos
    · have hfirst : ¬ n + k < Count.limit := hsecond
      rw [if_neg hfirst]
      exact .both
    · exact .ahead hpos

/-- Sums of counts that both games have in common. -/
theorem follows_add_same (n k : Nat) :
    Follows lag (fun a b => a = n + k ∧ b = a) (Count.add n k) (Count.add n k) := by
  unfold Count.add
  split
  · exact .ok ⟨rfl, rfl⟩
  · exact .both

/-! ## Runs -/

section Runs

universe u

variable {σ τ ρ π : Type} {ι : Type u} {R : σ → τ → Prop} {T : ρ → π → Prop}
  {perform : σ → ι → Except Fault ρ} {after : ρ → σ} {perform' : τ → ι → Except Fault π}
  {after' : π → τ}

/-- If every call on two related states gives records that follow each other, with related states
after them, then so does every run. -/
theorem follows_runAll
    (hperform : ∀ s t call, R s t → Follows lag T (perform s call) (perform' t call))
    (hafter : ∀ record record', T record record' → R (after record) (after' record'))
    {s : σ} {t : τ} (h : R s t) (calls : List ι) :
    Follows lag (fun r r' => List.Forall₂ T r.1 r'.1 ∧ R r.2 r'.2)
      (runAll perform after s calls) (runAll perform' after' t calls) := by
  induction calls generalizing s t with
  | nil => exact .ok ⟨.nil, h⟩
  | cons call rest ih =>
    refine (hperform s t call h).bind ?_
    intro record record' _ _ hrecord
    refine (ih (hafter record record' hrecord)).bind ?_
    rintro ⟨records, final⟩ ⟨records', final'⟩ _ _ ⟨hrecords, hfinal⟩
    exact .ok ⟨.cons hrecord hrecords, hfinal⟩

end Runs

end OrbPuzzle
