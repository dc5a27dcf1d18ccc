import SpanForest.Span

namespace SpanForest

/-!
# Stores grow

A committed span stays as it is while further spans are committed. Which of two
spans is compared with the other does not matter to whether they are equivalent.
-/

/-- Comparing two numbers the other way round turns the answer round. -/
theorem compare_unpacked_swap (left right : Float.Model.UnpackedFloat) :
    left.compare right = (right.compare left).map Ordering.swap := by
  have turned : ∀ (exponent other : Int) (mantissa share : Nat),
      (compare exponent other).then (compare mantissa share) =
        ((compare other exponent).then (compare share mantissa)).swap := by
    intro exponent other mantissa share
    rw [Ordering.swap_then, ← Std.OrientedCmp.eq_swap,
      ← Std.OrientedCmp.eq_swap]
  cases left with
  | notANumber => cases right <;> rfl
  | infinity sign =>
      cases right with
      | infinity other => cases sign <;> cases other <;> rfl
      | finite other => cases sign <;> cases other <;> rfl
      | _ => cases sign <;> rfl
  | zero sign =>
      cases right with
      | infinity other => cases other <;> rfl
      | finite other => cases other <;> rfl
      | _ => rfl
  | finite sign mantissa exponent =>
      cases right with
      | infinity other => cases sign <;> cases other <;> rfl
      | finite other share power =>
          cases sign <;> cases other
          case positive.positive =>
            exact congrArg some (turned exponent power mantissa share)
          case negative.negative =>
            exact congrArg (some ·.swap) (turned exponent power mantissa share)
          all_goals rfl
      | _ => cases sign <;> rfl

theorem float_beq_comm (left right : Float) :
    (left == right) = (right == left) := by
  change (left.toModel.unpack.compare right.toModel.unpack == some .eq) =
    (right.toModel.unpack.compare left.toModel.unpack == some .eq)
  rw [compare_unpacked_swap]
  rcases right.toModel.unpack.compare left.toModel.unpack with _ | ⟨⟨⟩⟩ <;> rfl

/-- Equivalence of spans is symmetric. -/
theorem Span.equivalent_comm (left right : Span) :
    left.equivalent right = right.equivalent left := by
  unfold Span.equivalent
  rw [float_beq_comm left.weight, @BEq.comm _ _ _ left.start,
    @BEq.comm _ _ _ left.stop, @BEq.comm _ _ _ left.symbol,
    @BEq.comm _ _ _ left.head, @BEq.comm _ _ _ left.features]

namespace SpanStore

variable {store first second third : SpanStore}

/-- A store that holds at least the spans of another, under the same numbers. -/
def Extends (before after : SpanStore) : Prop :=
  ∀ (id : Nat) (span : Span), before.get? id = some span → after.get? id = some span

theorem Extends.refl (store : SpanStore) : store.Extends store :=
  fun _ _ stored => stored

theorem Extends.trans
    (early : first.Extends second)
    (late : second.Extends third) :
    first.Extends third :=
  fun id span stored => late id span (early id span stored)

theorem get?_of_lt
    {id : Nat}
    (inside : id < store.size) :
    store.get? id = some (store.get id) := by
  rw [get?, get, Array.getD_eq_getD_getElem?,
    Array.getElem?_eq_getElem inside]
  rfl

theorem lt_of_get?
    {id : Nat}
    {span : Span}
    (stored : store.get? id = some span) :
    id < store.size :=
  (Array.getElem?_eq_some_iff.mp stored).1

theorem get_of_get?
    {id : Nat}
    {span : Span}
    (stored : store.get? id = some span) :
    store.get id = span := by
  have known := get?_of_lt (lt_of_get? stored)
  exact Option.some.inj (known.symm.trans stored)

/-- A committed span keeps its number and its content. -/
theorem Extends.get
    (extended : first.Extends second)
    {id : Nat}
    (inside : id < first.size) :
    id < second.size ∧ second.get id = first.get id := by
  have stored := extended id _ (get?_of_lt inside)
  exact ⟨lt_of_get? stored, get_of_get? stored⟩

/-- The span as it is committed. -/
def committed (store : SpanStore) (span : Span) : Span :=
  { span with
    id := store.nextId
    head := if span.head = span.id then store.nextId else span.head }

/-- A span that already has the next number is committed as it is. -/
theorem committed_eq
    {span : Span}
    (isNext : span.id = store.nextId) :
    store.committed span = span := by
  obtain ⟨id, _, _, _, _, _, head, _, _⟩ := span
  simp only at isNext
  subst isNext
  simp only [committed]
  split
  · rename_i same
    rw [same]
  · rfl

theorem size_push (span : Span) :
    (store.push span).2.size = store.size + 1 :=
  Array.size_push _

theorem get?_push (span : Span) :
    (store.push span).2.get? store.nextId = some (store.committed span) :=
  Array.getElem?_push_size

theorem extends_push (span : Span) :
    store.Extends (store.push span).2 := by
  intro id other stored
  have inside := lt_of_get? stored
  simp only [get?, push] at stored ⊢
  rw [Array.getElem?_push_lt inside]
  rwa [Array.getElem?_eq_getElem inside] at stored

theorem get_push (span : Span) :
    (store.push span).2.get store.nextId = store.committed span :=
  get_of_get? (get?_push span)

/-- Following one more head is to follow heads from the head of the span. -/
theorem nthHead?_succ
    {id : Nat}
    (inside : id < store.size)
    (count : Nat) :
    store.nthHead? id (count + 1) = store.nthHead? (store.get id).head count := by
  rw [nthHead?, get?_of_lt inside]
  rfl

end SpanStore

end SpanForest
