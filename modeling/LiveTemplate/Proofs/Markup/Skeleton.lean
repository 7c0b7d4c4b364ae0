import LiveTemplate.Markup.Template
import LiveTemplate.Proofs.Markup.Image

/-!
# Skeletons

What a forest is like apart from its texts.

If the texts of a forest come from anywhere, it need not be one that can be told from what
is written for it. A text may be empty, two of them may stand side by side, and where a void
tag has a text beneath it nothing is written for the text at all. What cannot happen is that
a text is taken for anything but a text, so whatever reading makes of the forest, its
elements and comments are what they were.

Reading is thereby known to the last text. `pruned` leaves out what is not written, and of
the rest `joined` makes what is read.

## Main definitions

* `Tree.skeleton`, `Tree.skeletonAll`: Elements and comments, without texts.
* `Tree.pruned`, `Tree.prunedAll`: The part of a forest that is written.

## Theorems

* `skeletonAll_joinedAll`: Merging texts keeps the skeleton.
* `parse_writeAll_of_skeleton`: What is read of a forest with any texts.
* `template_write`: A written element is a template with the same skeleton.
-/

namespace LiveTemplate

namespace Markup

namespace Tree

mutual

/-- What is left of a tree without its texts. Nothing is left of a text. -/
def skeleton : Tree → List Tree
  | text _ => []
  | comment content => [comment content]
  | element tag attributes children => [element tag attributes (skeletonAll children)]

/-- What is left of a forest without its texts. -/
def skeletonAll : List Tree → List Tree
  | [] => []
  | t :: ts => skeleton t ++ skeletonAll ts

end

theorem skeletonAll_append (ts us : List Tree) :
    skeletonAll (ts ++ us) = skeletonAll ts ++ skeletonAll us := by
  induction ts with
  | nil => rfl
  | cons t ts ih => rw [List.cons_append, skeletonAll, skeletonAll, ih, List.append_assoc]

theorem skeletonAll_singleton (t : Tree) : skeletonAll [t] = skeleton t :=
  List.append_nil _

theorem skeletonAll_joinCons (t : Tree) (ts : List Tree) :
    skeletonAll (joinCons t ts) = skeleton t ++ skeletonAll ts := by
  unfold joinCons
  split
  · rfl
  · rfl

/-- Merging texts keeps the skeleton. -/
theorem skeletonAll_joinedAll (ts : List Tree) : skeletonAll (joinedAll ts) = skeletonAll ts := by
  induction ts using forestInduction with
  | nil => rfl
  | text content ts ih => rw [joinedAll, skeletonAll_joinCons, joined, ih, skeletonAll]
  | comment content ts ih => rw [joinedAll, skeletonAll_joinCons, joined, ih, skeletonAll]
  | element tag attributes children ts ihc ih =>
      rw [joinedAll, skeletonAll_joinCons, joined, ih, skeletonAll, skeleton, skeleton, ihc]

theorem writableAll_append {ts us : List Tree} :
    WritableAll (ts ++ us) ↔ WritableAll ts ∧ WritableAll us := by
  rw [writableAll_iff, writableAll_iff, writableAll_iff, List.forall_mem_append]

mutual

/-- The part of a tree that is written: no empty text, and nothing beneath a void tag. -/
def pruned : Tree → List Tree
  | text content => if content = "" then [] else [text content]
  | comment content => [comment content]
  | element tag attributes children =>
    [element tag attributes (if isVoid tag then [] else prunedAll children)]

/-- The part of a forest that is written. -/
def prunedAll : List Tree → List Tree
  | [] => []
  | t :: ts => pruned t ++ prunedAll ts

end

/-- The rest of a forest is not written. -/
theorem writeAll_prunedAll (spell : Spelling) (ts : List Tree) :
    writeAll spell (prunedAll ts) = writeAll spell ts := by
  induction ts using forestInduction with
  | nil => rfl
  | text content ts ih =>
      rw [prunedAll, writeAll_append, ih, writeAll, pruned]
      split
      · next hempty => rw [hempty, write, String.toList_empty, escape, List.flatMap_nil, writeAll]
      · rw [writeAll, writeAll, List.append_nil]
  | comment content ts ih =>
      rw [prunedAll, writeAll_append, ih, writeAll, pruned, writeAll, writeAll, List.append_nil]
  | element tag attributes children ts ihc ih =>
      rw [prunedAll, writeAll_append, ih, writeAll, pruned, writeAll, writeAll, List.append_nil,
        write, write]
      split
      · rfl
      · rw [ihc]

/-- If nothing but texts stands beneath void tags, then nothing else is left out. -/
theorem skeletonAll_prunedAll {ts : List Tree} (h : WritableAll (skeletonAll ts)) :
    skeletonAll (prunedAll ts) = skeletonAll ts := by
  induction ts using forestInduction with
  | nil => rfl
  | text content ts ih =>
      rw [prunedAll, skeletonAll_append, ih h, pruned]
      split
      · rfl
      · rfl
  | comment content ts ih =>
      rw [prunedAll, skeletonAll_append, ih h.2, pruned, skeletonAll_singleton, skeletonAll]
  | element tag attributes children ts ihc ih =>
      rcases h with ⟨⟨_, _, hvoid, hchildren⟩, hts⟩
      rw [prunedAll, skeletonAll_append, ih hts, pruned, skeletonAll_singleton, skeletonAll,
        skeleton, skeleton]
      split
      · next hv => rw [hvoid hv, skeletonAll]
      · rw [ihc hchildren]

/-- The part that is written can be read back if the skeleton can. -/
theorem writableAll_prunedAll {ts : List Tree} (h : WritableAll (skeletonAll ts)) :
    WritableAll (prunedAll ts) := by
  induction ts using forestInduction with
  | nil => exact trivial
  | text content ts ih =>
      rw [prunedAll, writableAll_append, pruned]
      refine ⟨?_, ih h⟩
      split
      · exact trivial
      · next hne => exact ⟨hne, trivial⟩
  | comment content ts ih => exact ⟨h.1, ih h.2⟩
  | element tag attributes children ts ihc ih =>
      rcases h with ⟨⟨htag, hattributes, _, hchildren⟩, hts⟩
      refine ⟨⟨htag, hattributes, fun hv => if_pos hv, ?_⟩, ih hts⟩
      split
      · exact trivial
      · exact ihc hchildren

end Tree

section Reading

variable {spell : Spelling} {ts : List Tree}

/-- What is read of a forest whose texts are anything: the texts that are empty or beneath void
    tags are gone, and of those that stand side by side there is one. -/
theorem parse_writeAll_of_skeleton (hs : spell.Faithful)
    (h : Tree.WritableAll (Tree.skeletonAll ts)) :
    parse (String.ofList (Tree.writeAll spell ts)) = Tree.joinedAll (Tree.prunedAll ts) := by
  rw [← Tree.writeAll_prunedAll, ← Tree.writeAll_joinedAll]
  exact congrArg Fragment.forest (parse_writeAll hs
    (Tree.writableAll_joinedAll (Tree.writableAll_prunedAll h)) (Tree.separatedAll_joinedAll _))

/-- A written element is a template with the same skeleton, whatever its texts are. -/
theorem template_write (hs : spell.Faithful) {tag : String} {attributes : Attributes}
    {children : List Tree} (h : Tree.WritableAll (Tree.element tag attributes children).skeleton) :
    ∃ t, template (String.ofList (Tree.writeAll spell [.element tag attributes children])) =
        .ok t ∧
      t.skeleton = (Tree.element tag attributes children).skeleton := by
  rw [← Tree.skeletonAll_singleton] at h
  refine ⟨.element tag attributes
    (Tree.joinedAll (if isVoid tag then [] else Tree.prunedAll children)), ?_, ?_⟩
  · rw [template, parse_writeAll_of_skeleton hs h]
    rfl
  · have hkept := Tree.skeletonAll_prunedAll h
    rw [← Tree.skeletonAll_joinedAll, Tree.skeletonAll_singleton] at hkept
    rw [← hkept]
    exact (Tree.skeletonAll_singleton _).symm

/-- The root of a template can be read back. -/
theorem writable_template {markup : String} {tree : Tree} (h : template markup = .ok tree) :
    tree.Writable ∧ ∃ tag attributes children, tree = .element tag attributes children := by
  unfold template rootElement at h
  split at h
  · exact absurd h nofun
  · next t hroots =>
      have hmem : t ∈ (parse markup).filter Tree.isSignificant := by
        rw [hroots]
        exact List.mem_singleton_self t
      split at h
      · next helement =>
          rw [Except.ok.injEq] at h
          subst h
          refine ⟨Tree.writableAll_iff.mp (writableAll_parse markup) t
            (List.mem_filter.mp hmem).1, ?_⟩
          cases t with
          | element tag attributes children => exact ⟨tag, attributes, children, rfl⟩
          | text content => exact absurd helement Bool.false_ne_true
          | comment content => exact absurd helement Bool.false_ne_true
      · exact absurd h nofun
  · exact absurd h nofun

end Reading

end Markup

end LiveTemplate
