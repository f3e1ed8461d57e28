import Mathlib
import LinearCongruences.Proofs.Checked
import LinearCongruences.Proofs.Json.Documents

/-! A document has no more parts than its text has characters. Each token takes a character at
least, and adds at most one part to what has been read. -/
namespace LinearCongruences.Json

namespace Draft

mutual

/-- The number of scalars and containers, and of problems in the place of a value. -/
def size : Draft → Nat
  | .scalar _ => 1
  | .array items _ => sizes items + 1
  | .object members _ => memberSizes members + 1
  | .broken _ => 1

def sizes : List Draft → Nat
  | [] => 0
  | d :: rest => d.size + sizes rest

def memberSizes : List (String × Draft) → Nat
  | [] => 0
  | (_, d) :: rest => d.size + memberSizes rest

end

theorem size_pos (d : Draft) : 0 < d.size := by
  cases d <;> simp [size]

theorem sizes_eq_sum (items : List Draft) : sizes items = (items.map size).sum := by
  induction items with
  | nil => rfl
  | cons d rest ih => rw [sizes, ih, List.map_cons, List.sum_cons]

theorem memberSizes_eq_sum (members : List (String × Draft)) :
    memberSizes members = (members.map fun m => m.2.size).sum := by
  induction members with
  | nil => rfl
  | cons m rest ih => rw [memberSizes, ih, List.map_cons, List.sum_cons]

theorem sizes_reverse (items : List Draft) : sizes items.reverse = sizes items := by
  rw [sizes_eq_sum, sizes_eq_sum, List.map_reverse, List.sum_reverse]

theorem memberSizes_reverse (members : List (String × Draft)) :
    memberSizes members.reverse = memberSizes members := by
  rw [memberSizes_eq_sum, memberSizes_eq_sum, List.map_reverse, List.sum_reverse]

theorem length_le_sizes (items : List Draft) : items.length ≤ sizes items := by
  induction items with
  | nil => exact Nat.le_refl _
  | cons d rest ih =>
    have := d.size_pos
    rw [List.length_cons, sizes]
    omega

mutual

/-- A draft that has a value is the draft of this value. -/
theorem eq_draft : (d : Draft) → (v : Value) → d.value = .ok v → d = v.draft
  | .scalar s, v, read => by
    cases read
    rfl
  | .array items stop, v, read => by
    rw [value] at read
    obtain ⟨values, inside, read⟩ := Checked.bind_eq_ok.mp read
    obtain ⟨values', unbroken, same⟩ := Checked.bind_eq_ok.mp read
    cases same
    cases stop with
    | some problem => cases unbroken
    | none =>
      cases unbroken
      rw [Value.draft, ← eq_drafts items values inside]
  | .object members stop, v, read => by
    rw [value] at read
    obtain ⟨values, inside, read⟩ := Checked.bind_eq_ok.mp read
    obtain ⟨values', unbroken, same⟩ := Checked.bind_eq_ok.mp read
    cases same
    cases stop with
    | some problem => cases unbroken
    | none =>
      cases unbroken
      rw [Value.draft, ← eq_memberDrafts members values inside]
  | .broken problem, v, read => by cases read

theorem eq_drafts : (items : List Draft) → (values : List Value) →
    valueItems items = .ok values → items = Value.drafts values
  | [], values, read => by
    cases read
    rfl
  | d :: rest, values, read => by
    rw [valueItems] at read
    obtain ⟨v, first, read⟩ := Checked.bind_eq_ok.mp read
    obtain ⟨vs, others, same⟩ := Checked.bind_eq_ok.mp read
    cases same
    rw [Value.drafts, ← eq_draft d v first, ← eq_drafts rest vs others]

theorem eq_memberDrafts : (members : List (String × Draft)) → (values : List (String × Value)) →
    valueMembers members = .ok values → members = Value.memberDrafts values
  | [], values, read => by
    cases read
    rfl
  | (key, d) :: rest, values, read => by
    rw [valueMembers] at read
    obtain ⟨v, first, read⟩ := Checked.bind_eq_ok.mp read
    obtain ⟨vs, others, same⟩ := Checked.bind_eq_ok.mp read
    cases same
    rw [Value.memberDrafts, ← eq_draft d v first, ← eq_memberDrafts rest vs others]

end

end Draft

/-! What has been read so far. -/

def Frame.size : Frame → Nat
  | .array items => Draft.sizes items + 1
  | .object members => Draft.memberSizes members + 1
  | .member members _ => Draft.memberSizes members + 1

theorem Frame.size_add (frame : Frame) (d : Draft) : (frame.add d).size ≤ frame.size + d.size := by
  cases frame with
  | array items =>
    simp only [add, size, Draft.sizes]
    omega
  | object members => exact Nat.le_add_right _ _
  | member members key =>
    simp only [add, size, Draft.memberSizes]
    omega

theorem Frame.size_close (frame : Frame) (stop : Option Problem) :
    (frame.close stop).size = frame.size := by
  cases frame <;> simp [close, size, Draft.size, Draft.sizes_reverse, Draft.memberSizes_reverse]

namespace Progress

def sizes (frames : List Frame) : Nat := (frames.map Frame.size).sum

def size : Progress → Nat
  | .reading _ frames => sizes frames
  | .finished root _ => root.size

variable {frame : Frame} {frames : List Frame} {place : Place} {problem : Problem} {token : Token}

theorem sizes_cons : sizes (frame :: frames) = frame.size + sizes frames := rfl

theorem size_deliver (d : Draft) (frames : List Frame) :
    (deliver d frames).size ≤ d.size + sizes frames := by
  cases frames with
  | nil => exact Nat.le_add_right _ _
  | cons frame frames =>
    have := frame.size_add d
    simp only [deliver, size, sizes_cons]
    omega

theorem size_abandon (problem : Problem) (d : Draft) (frames : List Frame) :
    (abandon problem d frames).size ≤ d.size + sizes frames := by
  induction frames generalizing d with
  | nil => exact Nat.le_add_right _ _
  | cons frame frames ih =>
    have closed := ih ((frame.add d).close (some problem))
    rw [Frame.size_close] at closed
    have := frame.size_add d
    rw [abandon, sizes_cons]
    omega

/-- A reading that ends has the problem as its last part. -/
theorem size_fail : (fail problem place frames).size ≤ sizes frames + 1 := by
  unfold fail
  split
  case h_4 =>
    -- here a value was due, and the problem is counted in its place
    have := size_abandon problem (.broken problem) frames
    simp only [size, Draft.size] at this ⊢
    omega
  all_goals
    rename_i frame frames
    have := size_abandon problem (frame.close (some problem)) frames
    rw [Frame.size_close] at this
    simp only [size, sizes_cons]
    omega

theorem size_enter {next : Place} (empty : frame.size = 1) :
    (enter place frame next frames).size ≤ sizes frames + 1 := by
  unfold enter
  split
  · rw [size, sizes_cons, empty, Nat.add_comm]
  · exact size_fail

theorem size_leave : (leave frames).size ≤ sizes frames + 1 := by
  cases frames with
  | nil =>
    rw [leave]
    exact size_fail
  | cons frame frames =>
    have := size_deliver (frame.close none) frames
    rw [Frame.size_close] at this
    rw [leave, sizes_cons]
    omega

theorem size_takeValue : (takeValue place frames token).size ≤ sizes frames + 1 := by
  unfold takeValue
  split
  · rw [Nat.add_comm]
    exact size_deliver _ _
  · exact size_enter rfl
  · exact size_enter rfl
  · exact size_fail
  · exact size_fail

theorem size_takeKey : (takeKey place frames token).size ≤ sizes frames + 1 := by
  unfold takeKey
  split
  · exact Nat.le_succ _
  · exact size_fail
  · exact size_fail

theorem size_takeSeparator : (takeSeparator frames token).size ≤ sizes frames + 1 := by
  unfold takeSeparator
  split
  · exact Nat.le_succ _
  · exact Nat.le_succ _
  · exact size_leave
  · exact size_leave
  · exact size_fail

theorem size_step (p : Progress) (token : Token) : (p.step token).size ≤ p.size + 1 := by
  cases p with
  | finished root after => exact Nat.le_succ _
  | reading place frames =>
    cases place with
    | value => exact size_takeValue
    | firstItem =>
      rw [step]
      split
      · exact size_leave
      · exact size_takeValue
    | firstKey =>
      rw [step]
      split
      · exact size_leave
      · exact size_takeKey
    | key => exact size_takeKey
    | colon =>
      rw [step]
      split
      · exact Nat.le_succ _
      · exact size_fail
    | separator => exact size_takeSeparator

theorem size_foldl_step (p : Progress) (tokens : List Token) :
    (tokens.foldl step p).size ≤ p.size + tokens.length := by
  induction tokens generalizing p with
  | nil => exact Nat.le_refl _
  | cons token rest ih =>
    have first := size_step p token
    have others := ih (p.step token)
    rw [List.foldl_cons, List.length_cons]
    omega

theorem size_stop (p : Progress) : p.stop.size ≤ p.size + 1 := by
  cases p with
  | reading place frames => exact size_fail
  | finished root after => exact Nat.le_succ _

end Progress

theorem Token.length_all (cs : List Char) : (all cs).length ≤ cs.length := by
  fun_induction all cs with
  | case1 => exact Nat.le_refl _
  | case2 c cs blank ih => exact Nat.le_succ_of_le ih
  | case3 c cs solid token rest first shorter ih =>
    rw [List.length_cons, List.length_cons]
    exact Nat.succ_le_succ (Nat.le_trans ih shorter)

theorem Document.size_ofText (text : String) :
    (ofText text).root.size ≤ text.toList.length + 1 := by
  have read := Progress.size_foldl_step Progress.start (Token.all text.toList)
  have stopped := Progress.size_stop ((Token.all text.toList).foldl Progress.step Progress.start)
  have tokens := Token.length_all text.toList
  have start : Progress.start.size = 0 := rfl
  rw [ofText, ofChars, ofTokens]
  split
  · rename_i root after found
    rw [found] at stopped
    change root.size ≤ _ at stopped
    change root.size ≤ _
    omega
  · simp only [Draft.size]
    omega

/-! The parts of a value. -/

namespace Value

variable {v : Value}

theorem size_item {items : List Value} (inside : v ∈ items) :
    v.draft.size < (Value.array items).draft.size := by
  rw [draft, Draft.size, drafts_eq_map, Draft.sizes_eq_sum, List.map_map]
  have := List.single_le_sum (fun _ _ => Nat.zero_le _) _
    (List.mem_map_of_mem (f := Draft.size ∘ draft) inside)
  exact Nat.lt_succ_of_le this

theorem size_member {key : String} {members : List (String × Value)}
    (inside : (key, v) ∈ members) : v.draft.size < (Value.object members).draft.size := by
  rw [draft, Draft.size]
  apply Nat.lt_succ_of_le
  induction members with
  | nil => cases inside
  | cons m rest ih =>
    obtain ⟨k, w⟩ := m
    rw [memberDrafts, Draft.memberSizes]
    rcases List.mem_cons.mp inside with same | later
    · cases same
      exact Nat.le_add_right _ _
    · exact Nat.le_add_left_of_le (ih later)

theorem length_items {items : List Value} : items.length < (Value.array items).draft.size := by
  have := Draft.length_le_sizes (drafts items)
  rw [drafts_eq_map, List.length_map] at this
  rw [draft, Draft.size, drafts_eq_map]
  exact Nat.lt_succ_of_le this

end Value

end LinearCongruences.Json
