import Mathlib.Data.Nat.Init
import Mathlib.Tactic.TypeStar

/-!
# Loops that only end from inside

A round of the loop goes on with a new state or returns a result. A loop returns when a bounded
quantity becomes smaller in every round that goes on, and never when an invariant lets every round
go on.
-/

namespace OpenDiamond.Lib.Loops

variable {σ ρ : Type*} (round : σ → σ ⊕ ρ)

/-- The result within so many rounds, `none` when the loop still runs. -/
def loop : ℕ → σ → Option ρ
  | 0, _ => none
  | rounds + 1, s =>
    match round s with
    | .inl next => loop rounds next
    | .inr result => some result

/-- The loop returns a result. -/
def Returns (s : σ) (result : ρ) : Prop := ∃ rounds, loop round rounds s = some result

/-- The loop never returns. -/
def Endless (s : σ) : Prop := ∀ rounds, loop round rounds s = none

variable {round}

theorem loop_succ_of_inl {s next : σ} (h : round s = .inl next) (rounds : ℕ) :
    loop round (rounds + 1) s = loop round rounds next := by
  rw [loop, h]

theorem loop_succ_of_inr {s : σ} {result : ρ} (h : round s = .inr result) (rounds : ℕ) :
    loop round (rounds + 1) s = some result := by
  rw [loop, h]

theorem Returns.of_inr {s : σ} {result : ρ} (h : round s = .inr result) : Returns round s result :=
  ⟨1, loop_succ_of_inr h 0⟩

theorem Returns.of_inl {s next : σ} {result : ρ} (h : round s = .inl next)
    (hnext : Returns round next result) : Returns round s result := by
  obtain ⟨rounds, hrounds⟩ := hnext
  exact ⟨rounds + 1, (loop_succ_of_inl h rounds).trans hrounds⟩

theorem Endless.not_returns {s : σ} (h : Endless round s) (result : ρ) : ¬Returns round s result := by
  rintro ⟨rounds, hrounds⟩
  cases (h rounds).symm.trans hrounds

/-- A loop goes on forever when every round keeps an invariant and goes on. -/
theorem endless_of_invariant {I : σ → Prop}
    (hround : ∀ s, I s → ∃ next, round s = .inl next ∧ I next) {s : σ} (hs : I s) :
    Endless round s := by
  intro rounds
  induction rounds generalizing s with
  | zero => rfl
  | succ rounds ih =>
    obtain ⟨next, hnext, hinvariant⟩ := hround s hs
    rw [loop_succ_of_inl hnext]
    exact ih hinvariant

/-- A loop returns when every round that goes on keeps an invariant and makes a quantity smaller;
the result is what a last round makes of the invariant. -/
theorem returns_of_variant {I : σ → Prop} {result : ρ} (quantity : σ → ℕ)
    (hround : ∀ s, I s → round s = .inr result ∨
      ∃ next, round s = .inl next ∧ I next ∧ quantity next < quantity s) {s : σ} (hs : I s) :
    Returns round s result := by
  induction hn : quantity s using Nat.strongRecOn generalizing s with
  | ind n ih =>
    rcases hround s hs with hlast | ⟨next, hnext, hinvariant, hsmaller⟩
    · exact Returns.of_inr hlast
    · exact Returns.of_inl hnext (ih _ (hn ▸ hsmaller) hinvariant rfl)

end OpenDiamond.Lib.Loops
