import LinearCongruences.Json.Draft
import LinearCongruences.Proofs.Json.Scalars

/-! A document that has been written is read back as it was, in either layout. The reader takes the
tokens of a value from any place where a value may stand, and hands its draft on. -/
namespace LinearCongruences.Json

mutual

/-- The draft of a document that was read without a problem. -/
def Value.draft : Value → Draft
  | .scalar v => .scalar v
  | .array items => .array (Value.drafts items) none
  | .object members => .object (Value.memberDrafts members) none

def Value.drafts : List Value → List Draft
  | [] => []
  | item :: rest => item.draft :: Value.drafts rest

def Value.memberDrafts : List (String × Value) → List (String × Draft)
  | [] => []
  | (key, member) :: rest => (key, member.draft) :: Value.memberDrafts rest

end

namespace Value

theorem drafts_eq_map (items : List Value) : drafts items = items.map draft := by
  induction items with
  | nil => rfl
  | cons item rest ih => rw [drafts, ih, List.map_cons]

mutual

theorem value_draft : (v : Value) → v.draft.value = .ok v
  | .scalar v => rfl
  | .array items => by
    rw [draft, Draft.value, value_drafts items]
    rfl
  | .object members => by
    rw [draft, Draft.value, value_memberDrafts members]
    rfl

theorem value_drafts : (items : List Value) → Draft.valueItems (drafts items) = .ok items
  | [] => rfl
  | item :: rest => by
    rw [drafts, Draft.valueItems, value_draft item, value_drafts rest]
    rfl

theorem value_memberDrafts :
    (members : List (String × Value)) → Draft.valueMembers (memberDrafts members) = .ok members
  | [] => rfl
  | (key, member) :: rest => by
    rw [memberDrafts, Draft.valueMembers, value_draft member, value_memberDrafts rest]
    rfl

end

end Value

def Scalar.Whole : Scalar → Prop
  | .number (.integer z) => Number.Whole z
  | .number (.decimal ..) => False
  | _ => True

/-- All numbers are whole, and at most `room` containers stand within each other. -/
inductive Value.Fits : Nat → Value → Prop where
  | scalar {room : Nat} {v : Scalar} : v.Whole → Fits room (.scalar v)
  | array {room : Nat} {items : List Value} :
      (∀ item ∈ items, Fits room item) → Fits (room + 1) (.array items)
  | object {room : Nat} {members : List (String × Value)} :
      (∀ m ∈ members, Fits room m.2) → Fits (room + 1) (.object members)

variable {rest : List Char}

/-! The tokens of what has been written. -/

namespace Token

variable {c : Char} {cs : List Char} {token : Token}

theorem all_blank (blank : isBlank c) (cs : List Char) : all (c :: cs) = all cs := by
  rw [all, if_pos blank]

theorem all_start (solid : isBlank c = false) (first : start c cs = (token, rest)) :
    all (c :: cs) = token :: all rest := by
  rw [all, if_neg (by simp [solid])]
  split
  rename_i found
  cases first.symm.trans found
  rfl

theorem all_mark (marked : mark c = some token) (cs : List Char) :
    all (c :: cs) = token :: all cs := by
  refine all_start ?_ (by rw [start, marked])
  unfold mark at marked
  split at marked <;> first | rfl | cases marked

theorem all_newline (layout : Layout) (depth : Nat) (cs : List Char) :
    all (layout.newline depth ++ cs) = all cs := by
  cases layout with
  | compact => rfl
  | pretty =>
    rw [Layout.newline, List.cons_append, all_blank (by decide)]
    induction 2 * depth with
    | zero => rfl
    | succ count ih => rw [List.replicate_succ, List.cons_append, all_blank (by decide), ih]

theorem all_colon (layout : Layout) (cs : List Char) :
    all (layout.colon ++ cs) = .colon :: all cs := by
  cases layout with
  | compact => exact all_mark rfl cs
  | pretty => exact (all_mark rfl (' ' :: cs)).trans (congrArg _ (all_blank rfl cs))

theorem all_text (s : String) (cs : List Char) :
    all (Text.write s ++ cs) = .scalar (.text s) :: all cs := by
  refine all_start rfl ?_
  have found := Text.read_write [] s.toList cs
  simp only [List.reverse_nil, List.nil_append, String.ofList_toList] at found
  simp [start, mark, found, ofScan]

theorem all_integer {z : Int} (whole : Number.Whole z) (ends : Ends rest) :
    all (Number.write (.integer z) ++ rest) = .scalar (.number (.integer z)) :: all rest := by
  obtain ⟨c, cs, shown, first⟩ := Number.write_head z
  have found := Number.read_write whole ends
  rw [shown, List.cons_append] at found ⊢
  exact all_start (solid_number first) (by rw [start_number first, found]; rfl)

theorem all_scalar {v : Scalar} (whole : v.Whole) (ends : Ends rest) :
    all (Layout.writeScalar v ++ rest) = .scalar v :: all rest := by
  cases v with
  | null => exact all_start rfl rfl
  | bool value => cases value <;> exact all_start rfl rfl
  | text s => exact all_text s rest
  | number n =>
    cases n with
    | integer z => exact all_integer whole ends
    | decimal negative significand exponent => cases whole

end Token

/-! An entry of a container is followed by a mark, if need be on a line of its own. -/

theorem ends_newline (layout : Layout) (depth : Nat) (ends : Ends rest) :
    Ends (layout.newline depth ++ rest) := by
  cases layout with
  | compact => exact ends
  | pretty => exact Or.inr (Or.inr (Or.inr rfl))

theorem ends_items (layout : Layout) (depth outer : Nat) (items : List Value) (rest : List Char) :
    Ends (layout.writeItems depth items ++ (layout.newline outer ++ ']' :: rest)) := by
  cases items with
  | nil => exact ends_newline layout outer (Or.inr (Or.inl rfl))
  | cons item others => exact Or.inl rfl

theorem ends_members (layout : Layout) (depth outer : Nat) (members : List (String × Value))
    (rest : List Char) :
    Ends (layout.writeMembers depth members ++ (layout.newline outer ++ '\x7d' :: rest)) := by
  cases members with
  | nil => exact ends_newline layout outer (Or.inr (Or.inr (Or.inl rfl)))
  | cons member others => exact Or.inl rfl

namespace Progress

/-- Where the reading of a text leads. -/
def through (p : Progress) (cs : List Char) : Progress := (Token.all cs).foldl step p

variable {layout : Layout} {depth room : Nat} {frames : List Frame}

theorem through_newline (p : Progress) (layout : Layout) (depth : Nat) (cs : List Char) :
    p.through (layout.newline depth ++ cs) = p.through cs := by
  rw [through, Token.all_newline, through]

theorem through_mark {c : Char} {token : Token} (p : Progress) (marked : Token.mark c = some token)
    (cs : List Char) : p.through (c :: cs) = (p.step token).through cs := by
  rw [through, Token.all_mark marked, List.foldl_cons, through]

/-- The reader takes the value where one may stand, also as the first item of an array. -/
def Takes (layout : Layout) (room : Nat) (v : Value) : Prop :=
  ∀ depth place frames rest, place = .value ∨ place = .firstItem →
    frames.length + room ≤ maxDepth → Ends rest →
    (reading place frames).through (layout.write depth v ++ rest) =
      (deliver v.draft frames).through rest

theorem takes_scalar {v : Scalar} (whole : v.Whole) : Takes layout room (.scalar v) := by
  intro depth place frames rest expected _ ends
  rw [Layout.write, through, Token.all_scalar whole ends, List.foldl_cons]
  rcases expected with rfl | rfl <;> rfl

theorem step_openArray {place : Place} (expected : place = .value ∨ place = .firstItem)
    (space : frames.length < maxDepth) :
    step (.reading place frames) .openArray = .reading .firstItem (.array [] :: frames) := by
  rcases expected with rfl | rfl <;> simp [step, takeValue, enter, space]

theorem step_openObject {place : Place} (expected : place = .value ∨ place = .firstItem)
    (space : frames.length < maxDepth) :
    step (.reading place frames) .openObject = .reading .firstKey (.object [] :: frames) := by
  rcases expected with rfl | rfl <;> simp [step, takeValue, enter, space]

theorem through_items {items : List Value} (takes : ∀ item ∈ items, Takes layout room item)
    (space : frames.length + (room + 1) ≤ maxDepth) (done : List Draft) (outer : Nat) :
    (reading .separator (.array done :: frames)).through
        (layout.writeItems depth items ++ (layout.newline outer ++ ']' :: rest)) =
      (deliver (.array (done.reverse ++ Value.drafts items) none) frames).through rest := by
  induction items generalizing done with
  | nil =>
    rw [Layout.writeItems, List.nil_append, through_newline, through_mark _ rfl, Value.drafts,
      List.append_nil]
    rfl
  | cons item others ih =>
    -- the comma leads back to a place for a value, and the item joins those done
    simp only [Layout.writeItems, List.cons_append, List.append_assoc]
    rw [through_mark _ rfl, through_newline]
    have next := takes item (by simp) depth .value (.array done :: frames) _ (Or.inl rfl)
      (by simp; omega) (ends_items layout depth outer others rest)
    refine next.trans ?_
    rw [deliver, Frame.add, ih (fun i member => takes i (by simp [member]))]
    simp [Value.drafts]

theorem through_member (depth : Nat) {member : Value} (takes : Takes layout room member)
    (space : frames.length + (room + 1) ≤ maxDepth) {place : Place}
    (expected : place = .firstKey ∨ place = .key) (key : String) (done : List (String × Draft))
    (ends : Ends rest) :
    (reading place (.object done :: frames)).through
        (Text.write key ++ (layout.colon ++ (layout.write depth member ++ rest))) =
      (reading .separator (.object ((key, member.draft) :: done) :: frames)).through rest := by
  rw [through, Token.all_text, List.foldl_cons, Token.all_colon, List.foldl_cons]
  have next := takes depth .value (.member done key :: frames) rest (Or.inl rfl) (by simp; omega)
    ends
  rw [deliver, Frame.add] at next
  rw [← next]
  rcases expected with rfl | rfl <;> rfl

theorem through_members {members : List (String × Value)}
    (takes : ∀ m ∈ members, Takes layout room m.2)
    (space : frames.length + (room + 1) ≤ maxDepth) (done : List (String × Draft)) (outer : Nat) :
    (reading .separator (.object done :: frames)).through
        (layout.writeMembers depth members ++ (layout.newline outer ++ '\x7d' :: rest)) =
      (deliver (.object (done.reverse ++ Value.memberDrafts members) none) frames).through
        rest := by
  induction members generalizing done with
  | nil =>
    rw [Layout.writeMembers, List.nil_append, through_newline, through_mark _ rfl,
      Value.memberDrafts, List.append_nil]
    rfl
  | cons entry others ih =>
    obtain ⟨key, member⟩ := entry
    simp only [Layout.writeMembers, List.cons_append, List.append_assoc]
    rw [through_mark _ rfl, through_newline]
    have next := through_member depth (takes (key, member) (by simp)) space
      (Or.inr rfl) key done (ends_members layout depth outer others rest)
    refine next.trans ?_
    rw [ih (fun m inside => takes m (by simp [inside]))]
    simp [Value.memberDrafts]

theorem takes_array {items : List Value} (takes : ∀ item ∈ items, Takes layout room item) :
    Takes layout (room + 1) (.array items) := by
  intro depth place frames rest expected space ends
  cases items with
  | nil =>
    rw [Layout.write, List.cons_append, through_mark _ rfl, step_openArray expected (by omega),
      List.singleton_append, through_mark _ rfl]
    rfl
  | cons item others =>
    simp only [Layout.write, List.cons_append, List.append_assoc]
    rw [through_mark _ rfl, step_openArray expected (by omega), through_newline]
    have first := takes item (by simp) (depth + 1) .firstItem (.array [] :: frames) _ (Or.inr rfl)
      (by simp; omega) (ends_items layout (depth + 1) depth others rest)
    refine first.trans ?_
    rw [deliver, Frame.add, through_items (fun i member => takes i (by simp [member])) space]
    rfl

theorem takes_object {members : List (String × Value)}
    (takes : ∀ m ∈ members, Takes layout room m.2) :
    Takes layout (room + 1) (.object members) := by
  intro depth place frames rest expected space ends
  cases members with
  | nil =>
    rw [Layout.write, List.cons_append, through_mark _ rfl, step_openObject expected (by omega),
      List.singleton_append, through_mark _ rfl]
    rfl
  | cons entry others =>
    obtain ⟨key, member⟩ := entry
    simp only [Layout.write, List.cons_append, List.append_assoc]
    rw [through_mark _ rfl, step_openObject expected (by omega), through_newline]
    have first := through_member (depth + 1) (takes (key, member) (by simp)) space
      (Or.inl rfl) key [] (ends_members layout (depth + 1) depth others rest)
    refine first.trans ?_
    rw [through_members (fun m inside => takes m (by simp [inside])) space]
    rfl

theorem takes (layout : Layout) {room : Nat} {v : Value} (fits : v.Fits room) :
    Takes layout room v := by
  -- a member has one room less than its container, and stands in one frame more
  induction fits with
  | scalar whole => exact takes_scalar whole
  | array _ ih => exact takes_array ih
  | object _ ih => exact takes_object ih

end Progress

theorem Document.ofText_render (layout : Layout) {v : Value} (fits : v.Fits Progress.maxDepth) :
    Document.ofText (layout.render v) = ⟨v.draft, none⟩ := by
  have whole := Progress.takes layout fits 0 .value [] [] (Or.inl rfl)
    (Nat.zero_add _ ▸ Nat.le_refl _) trivial
  rw [List.append_nil, Progress.through] at whole
  rw [ofText, Layout.render, String.toList_ofList, ofChars, ofTokens, Progress.start, whole,
    Progress.through, Token.all]
  rfl

end LinearCongruences.Json
