import LiveTemplate.Markup.Fragment
import LiveTemplate.Proofs.Markup.Scanning

/-!
# Nesting Written Tokens

The forest that the tokens of a forest describe is that forest.

The tokens of a tree leave the open elements as they were, with the finished tree in
the innermost of them. This is what lets equal tags be nested in each other: between
an element's tags nothing stays open, so its closing tag finds it innermost.

## Theorems

* `foldl_add_tokensAll`: The tokens of a forest attach its trees one after the other.
* `parse_writeAll`: Reading undoes writing.
-/

namespace LiveTemplate

namespace Markup

namespace Nesting

/-- Attaches the trees of a forest one after the other. -/
def attachAll (ts : List Tree) (n : Nesting) : Nesting :=
  ts.foldl (fun n t => n.attach t) n

theorem attachAll_cons (t : Tree) (ts : List Tree) (n : Nesting) :
    attachAll (t :: ts) n = attachAll ts (n.attach t) :=
  rfl

/-- Trees inside an open element become its last children. -/
theorem attachAll_opened (ts : List Tree) (e : OpenElement) (es : List OpenElement)
    (roots : List Tree) (strays : List String) :
    attachAll ts ⟨e :: es, roots, strays⟩ =
      ⟨{ e with children := ts.reverse ++ e.children } :: es, roots, strays⟩ := by
  induction ts generalizing e with
  | nil => rfl
  | cons t ts ih =>
      rw [attachAll_cons, attach, ih, List.reverse_cons, List.append_assoc, List.singleton_append]

/-- Trees at top level become the last roots. -/
theorem attachAll_roots (ts roots : List Tree) (strays : List String) :
    attachAll ts ⟨[], roots, strays⟩ = ⟨[], ts.reverse ++ roots, strays⟩ := by
  induction ts generalizing roots with
  | nil => rfl
  | cons t ts ih =>
      rw [attachAll_cons, attach, ih, List.reverse_cons, List.append_assoc, List.singleton_append]

/-- The closing tag of the innermost open element finishes it. -/
theorem add_closing_innermost (tag : String) (attributes : Attributes) (children : List Tree)
    (n : Nesting) :
    add { n with opened := ⟨tag, attributes, children⟩ :: n.opened } (.closing tag) =
      n.attach (.element tag attributes children.reverse) := by
  have hfind : (⟨tag, attributes, children⟩ :: n.opened).findIdx? (·.tag == tag) = some 0 := by
    rw [List.findIdx?_cons, if_pos (beq_self_eq_true tag)]
  simp only [add, hfind, closeMany, close]

/-- The tokens of a forest attach its trees one after the other. -/
theorem foldl_add_tokensAll {ts : List Tree} (h : Tree.WritableAll ts) (n : Nesting) :
    (Tree.tokensAll ts).foldl add n = attachAll ts n := by
  induction ts using Tree.forestInduction generalizing n with
  | nil => rfl
  | text content ts ih => exact ih h.2 (n.attach (.text content))
  | comment content ts ih => exact ih h.2 (n.attach (.comment content))
  | element tag attributes children ts ihc ih =>
      rcases h with ⟨⟨_, _, hvoid, hchildren⟩, hts⟩
      rw [attachAll_cons, Tree.tokensAll, List.foldl_append, ← ih hts]
      congr 1
      cases hv : isVoid tag with
      | true =>
          simp only [Tree.tokens, hv, if_true, List.foldl_cons, List.foldl_nil, add,
            Bool.or_true, hvoid hv]
      | false =>
          have hopened : n.add (.opening tag attributes false) =
              { n with opened := ⟨tag, attributes, []⟩ :: n.opened } := by
            simp only [add, hv, Bool.or_self, Bool.false_eq_true, if_false]
          have hclosed := add_closing_innermost tag attributes children.reverse n
          rw [List.reverse_reverse] at hclosed
          simp only [Tree.tokens, hv, Bool.false_eq_true, if_false, List.foldl_cons,
            List.foldl_append, List.foldl_nil]
          rw [hopened, ihc hchildren, attachAll_opened, List.append_nil, hclosed]

end Nesting

/-- Reading undoes writing. -/
theorem parse_writeAll {spell : Spelling} (hs : spell.Faithful) {ts : List Tree}
    (hw : Tree.WritableAll ts) (hsep : Tree.SeparatedAll ts) :
    Fragment.parse (String.ofList (Tree.writeAll spell ts)) = ⟨ts, []⟩ := by
  have htokens := Tree.tokens_writeAll hs hw hsep (Or.inl rfl : Halts [])
  rw [List.append_nil, tokens_nil, List.append_nil] at htokens
  simp only [Fragment.parse, String.toList_ofList, htokens, Nesting.foldl_add_tokensAll hw,
    Nesting.attachAll_roots, Nesting.forest, Nesting.closeMany, List.length_nil, List.append_nil,
    List.reverse_reverse, List.reverse_nil]

end Markup

end LiveTemplate
