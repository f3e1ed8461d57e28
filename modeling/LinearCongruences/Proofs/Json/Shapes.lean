import LinearCongruences.Json.Shape
import LinearCongruences.Proofs.Json.Documents

/-! The parts that documents are made of: each is read back in the shape it was written in, and
takes no more room than it needs. -/
namespace LinearCongruences.Json.Value

variable {α : Type} {n room : Nat} {z : Int}

def SignedWord (z : Int) : Prop := -(signedWordBound : Int) ≤ z ∧ z < signedWordBound

instance (z : Int) : Decidable (SignedWord z) := inferInstanceAs (Decidable (_ ∧ _))

theorem fits_text (s : String) : (Value.text s).Fits room := .scalar trivial

theorem fits_natural (word : n < wordBound) : (natural n).Fits room :=
  .scalar ⟨by omega, by omega⟩

theorem fits_integer (word : SignedWord z) : (integer z).Fits room := by
  have bounds : signedWordBound < wordBound := by decide
  exact .scalar ⟨word.1, by have := word.2; omega⟩

theorem fits_list {toValue : α → Value} {xs : List α} (fits : ∀ x ∈ xs, (toValue x).Fits room) :
    (Value.array (xs.map toValue)).Fits (room + 1) := by
  refine .array fun item member => ?_
  obtain ⟨x, inside, rfl⟩ := List.mem_map.mp member
  exact fits x inside

theorem fits_naturals {ns : List Nat} (words : ∀ n ∈ ns, n < wordBound) :
    (naturals ns).Fits (room + 1) :=
  fits_list fun n inside => fits_natural (words n inside)

theorem natural?_natural (word : n < wordBound) : natural? (natural n) = some n := by
  have low : (0 : Int) ≤ n := Int.natCast_nonneg n
  have high : (n : Int) < wordBound := by omega
  simp [natural?, natural, high]

theorem integer?_integer (word : SignedWord z) : integer? (integer z) = some z := by
  obtain ⟨low, high⟩ := word
  simp [integer?, Checked.signedWord?, Checked.within, low, high, Except.toOption]

theorem list?_map {item? : Value → Option α} {toValue : α → Value} {xs : List α}
    (read : ∀ x ∈ xs, item? (toValue x) = some x) :
    list? item? (.array (xs.map toValue)) = some xs := by
  rw [list?]
  induction xs with
  | nil => rfl
  | cons x rest ih =>
    rw [List.map_cons, List.mapM_cons, read x List.mem_cons_self,
      ih fun y inside => read y (List.mem_cons_of_mem x inside)]
    rfl

theorem list?_naturals {ns : List Nat} (words : ∀ n ∈ ns, n < wordBound) :
    list? natural? (naturals ns) = some ns :=
  list?_map fun n inside => natural?_natural (words n inside)

end LinearCongruences.Json.Value
