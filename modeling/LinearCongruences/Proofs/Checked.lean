import Mathlib
import LinearCongruences.Checked

/-! Checked computation opened up: when a run of bounded steps returns a value, and what a loop
over positions keeps. A fault anywhere ends a run, so a run that returns has stayed in range. -/
namespace LinearCongruences.Checked

variable {α β σ : Type}

@[simp] theorem ok_bind (a : α) (f : α → Checked β) : (Except.ok a >>= f) = f a := rfl

@[simp] theorem error_bind (e : Fault) (f : α → Checked β) :
    ((Except.error e : Checked α) >>= f) = .error e := rfl

@[simp] theorem pure_eq_ok (a : α) : (pure a : Checked α) = .ok a := rfl

theorem bind_eq_ok {ε : Type} {x : Except ε α} {f : α → Except ε β} {b : β} :
    x >>= f = .ok b ↔ ∃ a, x = .ok a ∧ f a = .ok b := by
  cases x with
  | error e => exact ⟨nofun, nofun⟩
  | ok a => exact ⟨fun same => ⟨a, rfl, same⟩, fun ⟨_, same, found⟩ => Except.ok.inj same ▸ found⟩

/-! The single operations, where they do not fault. -/

theorem below_eq {bound n : Nat} (h : n < bound) : below bound n = .ok n := if_pos h

theorem within_eq {bound : Nat} {z : Int} (low : -(bound : Int) ≤ z) (high : z < bound) :
    within bound z = .ok z := if_pos ⟨low, high⟩

theorem minus_eq {a b : Nat} (h : b ≤ a) : minus a b = .ok (a - b) := if_pos h

theorem quotient_eq {a b : Nat} (h : b ≠ 0) : quotient a b = .ok (a / b) := if_neg h

theorem remainder_eq {a b : Nat} (h : b ≠ 0) : remainder a b = .ok (a % b) := if_neg h

theorem signedRemainder_eq {a : Int} {b : Nat} (h : b ≠ 0) :
    signedRemainder a b = .ok (a.tmod b) := if_neg h

theorem get_eq {xs : Array α} {i : Nat} (h : i < xs.size) : get xs i = .ok xs[i] := dif_pos h

theorem set_eq {xs : Array α} {i : Nat} (h : i < xs.size) (x : α) :
    set xs i x = .ok (xs.set i x) := dif_pos h

theorem suffix_eq {xs : List α} {i : Nat} (h : i ≤ xs.length) : suffix xs i = .ok (xs.drop i) :=
  if_pos h

theorem require_eq {p : Prop} [Decidable p] (h : p) (fault : Fault) :
    require p fault = .ok () := if_pos h

/-! Loops over the positions below a bound. -/

theorem foldlM_range_succ (f : σ → Nat → Checked σ) (s : σ) (n : Nat) :
    (List.range (n + 1)).foldlM f s = ((List.range n).foldlM f s >>= fun s' => f s' n) := by
  rw [List.range_succ, List.foldlM_append]
  simp only [List.foldlM_cons, List.foldlM_nil, bind_pure]

/-- An invariant `P` that each step establishes anew for the next position holds when the loop
ends. A step may use that its state is the one the loop has reached. -/
theorem foldlM_range (f : σ → Nat → Checked σ) (s : σ) (n : Nat) (P : Nat → σ → Prop)
    (start : P 0 s)
    (step : ∀ k < n, ∀ s', (List.range k).foldlM f s = .ok s' → P k s' →
      ∃ s'', f s' k = .ok s'' ∧ P (k + 1) s'') :
    ∃ s', (List.range n).foldlM f s = .ok s' ∧ P n s' := by
  induction n with
  | zero => exact ⟨s, rfl, start⟩
  | succ n ih =>
    obtain ⟨s', reached, inv⟩ := ih fun k hk => step k (Nat.lt_succ_of_lt hk)
    obtain ⟨s'', next, inv'⟩ := step n (Nat.lt_succ_self n) s' reached inv
    refine ⟨s'', ?_, inv'⟩
    rw [foldlM_range_succ, reached, ok_bind, next]

/-- What each step keeps holds when a loop that returns has ended. -/
theorem foldlM_invariant {f : σ → α → Checked σ} {P : σ → Prop}
    (keeps : ∀ s x s', P s → f s x = .ok s' → P s') {xs : List α} {s s' : σ} (start : P s)
    (run : xs.foldlM f s = .ok s') : P s' := by
  induction xs generalizing s with
  | nil =>
    cases run
    exact start
  | cons x rest ih =>
    rw [List.foldlM_cons] at run
    obtain ⟨s₁, step, rest⟩ := bind_eq_ok.mp run
    exact ih (keeps s x s₁ start step) rest

end LinearCongruences.Checked
