/-!
# Searching Text

The three ways in which the library takes a text apart: off a marker at its start,
around the first occurrence of a marker, and at every occurrence of a separator.
The first two come with the equation that puts the parts back together.

Texts are measured in UTF-8 bytes where a format limits the size of something: a
character reference may be at most so many bytes long, whatever it is made of.

## Main definitions

* `afterMarker?`: What follows a marker at the start of a text.
* `cutAt?`: The parts before and after the first occurrence of a marker.
* `segments`: The parts between separators. There is always a first one.
* `utf8Length`: The number of bytes that a text takes in UTF-8.

## Theorems

* `afterMarker?_eq_some_iff`: The marker and the rest are the text.
* `append_of_cutAt?`: The two parts with the marker between them are the text.
-/

namespace LiveTemplate

namespace Text

/-- What follows `marker` at the start of the text. -/
def afterMarker? : (marker : List Char) → List Char → Option (List Char)
  | [], s => some s
  | _ :: _, [] => none
  | m :: ms, c :: cs => if m = c then afterMarker? ms cs else none

/-- The texts before and after the first occurrence of `marker`. -/
def cutAt? (marker : List Char) : List Char → Option (List Char × List Char)
  | [] => (afterMarker? marker []).map ([], ·)
  | c :: cs =>
    match afterMarker? marker (c :: cs) with
    | some rest => some ([], rest)
    | none => (cutAt? marker cs).map fun (before, after) => (c :: before, after)

/-- The text cut at each `separator`: the first segment and the ones after it. -/
def segments (separator : Char) : List Char → List Char × List (List Char)
  | [] => ([], [])
  | c :: cs =>
    let (first, others) := segments separator cs
    if c = separator then ([], first :: others) else (c :: first, others)

/-- `segments` on strings. -/
def segmentsOf (separator : Char) (s : String) : String × List String :=
  let (first, others) := segments separator s.toList
  (String.ofList first, others.map String.ofList)

/-- Size of the text in UTF-8. -/
def utf8Length : List Char → Nat
  | [] => 0
  | c :: cs => c.utf8Size + utf8Length cs

theorem utf8Length_append (s t : List Char) :
    utf8Length (s ++ t) = utf8Length s + utf8Length t := by
  induction s with
  | nil => rw [List.nil_append, utf8Length, Nat.zero_add]
  | cons c s ih => rw [List.cons_append, utf8Length, utf8Length, ih, Nat.add_assoc]

theorem afterMarker?_eq_some_iff {marker s rest : List Char} :
    afterMarker? marker s = some rest ↔ marker ++ rest = s := by
  induction marker generalizing s with
  | nil =>
      simp only [afterMarker?, Option.some.injEq, List.nil_append]
      exact eq_comm
  | cons m ms ih =>
      cases s with
      | nil => simp only [afterMarker?, List.cons_append, reduceCtorEq]
      | cons c cs =>
          simp only [afterMarker?, List.cons_append, List.cons.injEq]
          by_cases h : m = c
          · simp only [h, if_true, ih, true_and]
          · simp only [h, if_false, reduceCtorEq, false_and]

theorem append_of_cutAt? {marker s before after : List Char}
    (h : cutAt? marker s = some (before, after)) : before ++ marker ++ after = s := by
  induction s generalizing before with
  | nil =>
      simp only [cutAt?, Option.map_eq_some_iff, Prod.mk.injEq] at h
      obtain ⟨rest, hrest, rfl, rfl⟩ := h
      exact afterMarker?_eq_some_iff.mp hrest
  | cons c cs ih =>
      simp only [cutAt?] at h
      split at h
      · next rest hrest =>
          injection h with h
          injection h with hb ha
          rw [← hb, ← ha]
          exact afterMarker?_eq_some_iff.mp hrest
      · simp only [Option.map_eq_some_iff, Prod.exists, Prod.mk.injEq] at h
        obtain ⟨b, a, hcut, rfl, rfl⟩ := h
        rw [← ih hcut, List.cons_append, List.cons_append]

end Text

end LiveTemplate
