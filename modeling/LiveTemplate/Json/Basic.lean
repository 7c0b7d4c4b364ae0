import LiveTemplate.Number.Basic
import LiveTemplate.Text.Table

/-!
# JSON Values

Plain structured data: scalars, arrays and objects.

The members of an object are a table, so two objects with the same members are the
same value.

## Main definitions

* `Json`: A structured value.
* `Json.equal`: Equality, with zero of either sign as one number.
* `Json.same`: Equality for writes, where an integer can equal a float.
* `Json.beq`: Being one and the same value, which is decided by it.
-/

namespace LiveTemplate

/-- A structured value. -/
inductive Json where
  /-- The absent value. -/
  | null
  /-- A truth value. -/
  | bool (b : Bool)
  /-- A number. -/
  | number (n : Number)
  /-- A text. -/
  | string (s : String)
  /-- Values in order. -/
  | array (items : List Json)
  /-- Values under keys, in the order of the keys. -/
  | object (members : List (String × Json))
  deriving Inhabited

namespace Json

mutual

/-- Equality of values. Zero equals negative zero, and an integer no float. -/
def equal : Json → Json → Bool
  | null, null => true
  | bool a, bool b => a == b
  | number a, number b => a.equal b
  | string a, string b => a == b
  | array as, array bs => equalItems as bs
  | object as, object bs => equalMembers as bs
  | _, _ => false

/-- Equality of arrays, place by place. -/
def equalItems : List Json → List Json → Bool
  | [], [] => true
  | a :: as, b :: bs => equal a b && equalItems as bs
  | _, _ => false

/-- Equality of members, place by place. -/
def equalMembers : List (String × Json) → List (String × Json) → Bool
  | [], [] => true
  | (k, a) :: as, (l, b) :: bs => k == l && equal a b && equalMembers as bs
  | _, _ => false

end

/-- Equality for writes. Two numbers are the same by value, whichever kind they are. -/
def same : Json → Json → Bool
  | number a, number b => a.same b
  | a, b => a.equal b

/-! ### Being one and the same value -/

mutual

/-- The values are one and the same. Zero and negative zero are told apart. -/
def beq : Json → Json → Bool
  | null, null => true
  | bool a, bool b => a == b
  | number a, number b => a == b
  | string a, string b => a == b
  | array as, array bs => beqItems as bs
  | object as, object bs => beqMembers as bs
  | _, _ => false

/-- The same, place by place. -/
def beqItems : List Json → List Json → Bool
  | [], [] => true
  | a :: as, b :: bs => beq a b && beqItems as bs
  | _, _ => false

/-- The same, member by member. -/
def beqMembers : List (String × Json) → List (String × Json) → Bool
  | [], [] => true
  | (k, a) :: as, (l, b) :: bs => k == l && beq a b && beqMembers as bs
  | _, _ => false

end

mutual

theorem beq_iff (a b : Json) : a.beq b = true ↔ a = b := by
  cases a with
  | array as =>
      cases b with
      | array bs => rw [beq, beqItems_iff as bs, array.injEq]
      | _ => simp only [beq, Bool.false_eq_true, reduceCtorEq]
  | object as =>
      cases b with
      | object bs => rw [beq, beqMembers_iff as bs, object.injEq]
      | _ => simp only [beq, Bool.false_eq_true, reduceCtorEq]
  | _ =>
      cases b with
      | _ => simp only [beq, beq_iff_eq, Bool.false_eq_true, reduceCtorEq, bool.injEq,
          number.injEq, string.injEq]

theorem beqItems_iff (as bs : List Json) : beqItems as bs = true ↔ as = bs := by
  cases as with
  | nil =>
      cases bs with
      | nil => simp only [beqItems]
      | cons b bs => simp only [beqItems, Bool.false_eq_true, reduceCtorEq]
  | cons a as =>
      cases bs with
      | nil => simp only [beqItems, Bool.false_eq_true, reduceCtorEq]
      | cons b bs =>
          rw [beqItems, Bool.and_eq_true, beq_iff a b, beqItems_iff as bs, List.cons.injEq]

theorem beqMembers_iff (as bs : List (String × Json)) : beqMembers as bs = true ↔ as = bs := by
  cases as with
  | nil =>
      cases bs with
      | nil => simp only [beqMembers]
      | cons b bs => simp only [beqMembers, Bool.false_eq_true, reduceCtorEq]
  | cons a as =>
      rcases a with ⟨k, a⟩
      cases bs with
      | nil => simp only [beqMembers, Bool.false_eq_true, reduceCtorEq]
      | cons b bs =>
          rcases b with ⟨l, b⟩
          rw [beqMembers, Bool.and_eq_true, Bool.and_eq_true, beq_iff_eq, beq_iff a b,
            beqMembers_iff as bs, List.cons.injEq, Prod.mk.injEq]

end

instance : DecidableEq Json := fun a b =>
  decidable_of_iff (a.beq b = true) (beq_iff a b)

end Json

end LiveTemplate
