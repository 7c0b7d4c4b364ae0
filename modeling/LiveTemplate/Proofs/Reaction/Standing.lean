import LiveTemplate.Proofs.Reaction.Happening
import LiveTemplate.Proofs.View.Linking
import LiveTemplate.Proofs.View.Showing

/-!
# Where Nodes Stand While Things Happen

Whatever happens to a view that shows values as texts, the way up from a node stays.

An event on its way up reads the link of a node only after the listeners there have run, and
they may have changed half of the view by then. But all that they can change is what stands
beneath elements that show a text, and that is texts only. So the way up from any other
node is still there: none of the nodes on it, from its parent on, is an element that shows
a text. The way stays alive as long as its end is held on to.

Whatever is in the view was there before, or is one of these texts. Nodes keep their
attributes, and texts have none.

## Main definitions

* `World.Captioned`: A view in which values are shown as texts.
* `World.Route`: The way up from a node, which no event changes.
* `World.InView`: A node stands somewhere beneath the root of a view.

## Theorems

* `Happens.redraws`: An event puts a text at a node, or changes no place of any node.
* `Happens.route`: The way up from a node stays.
* `Happens.inView`: Nodes that come into the view are texts.
-/

namespace LiveTemplate

open Relation (ReflTransGen)

variable {ν τ : Type} {l : Licence τ} {w w' : ClientWorld ν τ}

namespace World

/-- Values are shown as texts, not as markup. An element that shows one has nothing but texts
    beneath it. -/
structure Captioned (w : ClientWorld ν τ) : Prop extends World.Linked w where
  /-- No value is shown as markup. -/
  plain : ∀ s n, ¬w.Renders s (.markup n)
  /-- Nothing but texts is beneath a node at which a text is shown. -/
  captions : ∀ s r, w.Renders s r → r.aspect ≠ .field →
    ∀ c ∈ (w.node r.target).children, (w.node c).kind.isText = true

/-- A value has been entered into a form field, or shown as a text. -/
theorem redraws_render (hlinked : w.Linked) {r : Rendering} (hr : ∀ n, r ≠ .markup n)
    (shown : String) :
    r.aspect = .field ∧ w.SameShape (w.render r shown) ∨
      r.aspect ≠ .field ∧ w.Retexted (w.render r shown) r.target := by
  cases r with
  | interpolated n i => exact .inr ⟨nofun, retexted_setText hlinked n _⟩
  | text n => exact .inr ⟨nofun, retexted_setText hlinked n shown⟩
  | markup n => exact absurd rfl (hr n)
  | field n =>
      refine .inl ⟨rfl, size_nodes_updateNode w n _, fun m => ?_, fun m => ?_⟩
      · exact ⟨(w.parts_setValue n shown m).1, (w.parts_setValue n shown m).2.1⟩
      · have hparent : ((w.updateNode n fun node =>
            { node with value := shown, edited := true }).node m).parent = (w.node m).parent := by
          apply node_updateNode_congr Node.parent
          exact fun _ => rfl
        exact ⟨(w.parts_setValue n shown m).2.2.1, hparent⟩

/-- A text has been put at a node of such a view. -/
theorem Captioned.retexted (h : w.Captioned) {n : NodeId} (hn : w.Retexted w' n)
    (hrenders : ∀ s r, w'.Renders s r → w.Renders s r) : w'.Captioned where
  toLinked := hn.linked h.toLinked
  plain s m hs := h.plain s m (hrenders s _ hs)
  captions s r hs hr c hc := by
    by_cases hrn : r.target = n
    · rw [hrn] at hc
      exact (hn.new c (hn.beneath c hc).1).1
    · rw [hn.children _ (.inl hrn)] at hc
      exact hn.texts c (h.captions s r (hrenders s r hs) hr c hc)

/-- No node has got another place, and whoever shows a text now does so where there are only
    texts. -/
theorem Captioned.sameShape (h : w.Captioned) (hsame : w.SameShape w')
    (hrenders : ∀ s r, w'.Renders s r → w.Renders s r ∨ (∀ m, r ≠ .markup m) ∧
      (r.aspect ≠ .field → ∀ c ∈ (w.node r.target).children, (w.node c).kind.isText = true)) :
    w'.Captioned where
  toLinked := h.toLinked.sameShape hsame
  plain s m hs := by
    rcases hrenders s _ hs with hbefore | hnew
    · exact h.plain s m hbefore
    · exact hnew.1 m rfl
  captions s r hs hr c hc := by
    rw [(hsame.place _).1] at hc
    rw [(hsame.content c).1]
    rcases hrenders s r hs with hbefore | hnew
    · exact h.captions s r hbefore hr c hc
    · exact hnew.2 hr c hc

/-- No event adds a watcher that shows something. -/
theorem Happens.renders_iff (h : w.Happens l w') {s : SubscriberId} {r : Rendering} :
    w'.Renders s r ↔ w.Renders s r := by
  rcases h.joined with hsame | ⟨root, path, name, _, _, hadded⟩
  · rw [Renders, Renders, subscriber?_of_subscribers hsame]
  · have hs : w'.subscriber? s = if s.index = w.subscribers.size then
        some (.watcher ⟨root, path, .call (.watching ⟨w.subscribers.size⟩ name)⟩)
        else w.subscriber? s := by
      rw [subscriber?, hadded, Heap.get?_add, ← subscriber?]
    rw [Renders, Renders, hs]
    split
    · next hnew =>
        rw [subscriber?_eq_none hnew]
        constructor
        · rintro ⟨wt, hwt, heffect⟩
          injection hwt with hwt
          injection hwt with hwt
          rw [← hwt] at heffect
          cases heffect
        · rintro ⟨wt, hwt, _⟩
          cases hwt
    · exact Iff.rfl

/-- An event puts a text at a node where a watcher shows one, or changes no place of any node. -/
theorem Happens.redraws (h : w.Happens l w') (hview : w.Captioned) :
    w.SameShape w' ∨
      ∃ s r, w.Renders s r ∧ r.aspect ≠ .field ∧ w.Retexted w' r.target := by
  cases h with
  | observe value => exact .inl (.of_nodes (extends_observeValue value w).1.nodes)
  | @watch root path name _ _ =>
      rw [watch_eq]
      exact .inl (.of_nodes
        (dependAll_frame (some ⟨w.subscribers.size⟩) (w.pathFields root path) _).1)
  | @follow s wt hs => exact .inl (.of_nodes (w.readPath_frame (some s) wt.root wt.path).1)
  | assign value _ => exact .inl (.of_nodes (extends_observeValue value w).1.nodes)
  | @«show» s wt r hs heffect shown =>
      have hr : ∀ n, r ≠ .markup n := by
        rintro n rfl
        exact hview.plain s n ⟨wt, hs, heffect⟩
      rcases redraws_render hview.toLinked hr shown with ⟨_, hsame⟩ | ⟨haspect, htext⟩
      · exact .inl hsame
      · exact .inr ⟨s, r, ⟨wt, hs, heffect⟩, haspect, htext⟩
  | enter n text =>
      rcases redraws_render hview.toLinked (r := .field n) nofun text with
        ⟨_, hsame⟩ | ⟨haspect, _⟩
      · exact .inl hsame
      · exact absurd rfl haspect
  | pin | note | remember | share => exact .inl (.of_nodes rfl)

theorem Happens.captioned (h : w.Happens l w') (hview : w.Captioned) : w'.Captioned := by
  rcases h.redraws hview with hsame | ⟨s, r, _, _, htext⟩
  · exact hview.sameShape hsame fun s r hs => .inl (h.renders_iff.mp hs)
  · exact hview.retexted htext fun s r hs => h.renders_iff.mp hs

/-- Nodes stay, and keep their attributes. -/
theorem Happens.attributes (h : w.Happens l w') (hview : w.Captioned) {m : NodeId}
    (hm : m.index < w.nodes.size) :
    m.index < w'.nodes.size ∧ (w'.node m).attributes = (w.node m).attributes := by
  rcases h.redraws hview with hsame | ⟨s, r, _, _, htext⟩
  · exact ⟨hsame.size ▸ hm, (hsame.content m).2⟩
  · exact ⟨Nat.lt_of_lt_of_le hm htext.grown, (htext.kept m hm).2⟩

/-! ### The way up -/

/-- The node stands somewhere beneath the root of a view, or is the root. -/
def InView (w : ClientWorld ν τ) (root n : NodeId) : Prop :=
  ReflTransGen (fun p c => c ∈ (w.node p).children) root n

/-- Nodes that are listed by the next one each, up to the root of a view, are in the view. -/
theorem inView_of_isChain {root : NodeId} {ns : List NodeId}
    (hpath : ns.IsChain fun c p => c ∈ (w.node p).children) (hlast : ns.getLast? = some root) :
    ∀ m ∈ ns, w.InView root m := by
  induction ns with
  | nil => exact fun m hm => absurd hm List.not_mem_nil
  | cons n above ih =>
      cases above with
      | nil =>
          rw [List.getLast?_singleton, Option.some.injEq] at hlast
          subst hlast
          exact List.forall_mem_singleton.mpr .refl
      | cons p above =>
          rw [List.isChain_cons_cons] at hpath
          rw [List.getLast?_cons_cons] at hlast
          have habove := ih hpath.2 hlast
          exact List.forall_mem_cons.mpr
            ⟨(habove p List.mem_cons_self).tail hpath.1, habove⟩

/-- The way up from a node to one that stands by itself. None of the nodes above the first one
    shows a text. -/
inductive Route (w : ClientWorld ν τ) : List NodeId → Prop
  /-- The end of the way. -/
  | top {n : NodeId} (hlt : n.index < w.nodes.size) (halone : (w.node n).parent = none) :
      Route w [n]
  /-- A step up. -/
  | up {c p : NodeId} {above : List NodeId} (hlisted : c ∈ (w.node p).children)
      (hparent : (w.node c).parent = some p)
      (hfree : ∀ s r, w.Renders s r → r.aspect ≠ .field → r.target ≠ p)
      (hrest : Route w (p :: above)) : Route w (c :: p :: above)

namespace Route

variable {n : NodeId} {ns above : List NodeId}

theorem lt (h : w.Route ns) : ∀ m ∈ ns, m.index < w.nodes.size := by
  induction h with
  | top hlt _ => exact List.forall_mem_singleton.mpr hlt
  | up _ hparent _ _ ih => exact List.forall_mem_cons.mpr ⟨lt_of_parent hparent, ih⟩

/-- The way up from a node in a view that is no text. Where such a node is listed no text is
    shown. -/
theorem of_isChain (h : w.Captioned) {root : NodeId} (hroot : root.index < w.nodes.size)
    (halone : (w.node root).parent = none)
    (hpath : (n :: above).IsChain fun c p => c ∈ (w.node p).children)
    (hlast : (n :: above).getLast? = some root) (hn : (w.node n).kind.isText = false) :
    w.Route (n :: above) := by
  induction above generalizing n with
  | nil =>
      rw [List.getLast?_singleton, Option.some.injEq] at hlast
      subst hlast
      exact .top hroot halone
  | cons p above ih =>
      rw [List.isChain_cons_cons] at hpath
      rw [List.getLast?_cons_cons] at hlast
      refine .up hpath.1 (h.listed p n hpath.1) ?_
        (ih hpath.2 hlast (h.tidy.isText_eq_false hpath.1))
      rintro s r hs hr rfl
      rw [h.captions s r hs hr n hpath.1] at hn
      exact absurd hn nofun

/-- A node on the way is alive if the end of the way is. -/
theorem alive (h : w.Route (n :: above)) {root : NodeId}
    (hlast : (n :: above).getLast? = some root) (hroot : w.alive (.node root) = true) :
    w.alive (.node n) = true := by
  generalize hns : n :: above = ns at h hlast
  induction h generalizing n above with
  | top _ _ =>
      rw [List.getLast?_singleton, Option.some.injEq] at hlast
      injection hns with hn _
      rw [hn, hlast]
      exact hroot
  | @up c p above' hlisted hparent _ hrest ih =>
      injection hns with hn _
      subst hn
      rw [List.getLast?_cons_cons] at hlast
      have hp := ih rfl hlast
      refine alive_of_owned (mem_handles_node.mpr (hrest.lt p List.mem_cons_self)) hp ?_
      exact List.mem_map_of_mem hlisted

/-- Each node on the way lists the one before it. -/
theorem isChain (h : w.Route ns) : ns.IsChain fun c p => c ∈ (w.node p).children := by
  induction h with
  | top _ _ => exact .singleton _
  | up hlisted _ _ _ ih => exact .cons_cons hlisted ih

/-- The next node on the way is the parent, as long as the end of the way is alive. -/
theorem parent?_eq (h : w.Route (n :: above)) {root : NodeId}
    (hlast : (n :: above).getLast? = some root) (hroot : w.alive (.node root) = true) :
    w.parent? n = above.head? := by
  cases h with
  | top _ halone => rw [parent?, halone, Option.filter_none, List.head?_nil]
  | up _ hparent _ hrest =>
      rw [List.getLast?_cons_cons] at hlast
      rw [parent?, hparent, Option.filter_some, if_pos (hrest.alive hlast hroot), List.head?_cons]

/-- The rest of the way. -/
theorem tail {p : NodeId} (h : w.Route (n :: p :: above)) : w.Route (p :: above) := by
  cases h with
  | up _ _ _ hrest => exact hrest

end Route

/-- No event changes the way up. -/
theorem Happens.route (h : w.Happens l w') (hview : w.Captioned) {ns : List NodeId}
    (hroute : w.Route ns) : w'.Route ns := by
  induction hroute with
  | @top n hlt halone =>
      refine .top (h.attributes hview hlt).1 ?_
      rcases h.redraws hview with hsame | ⟨s, r, _, _, htext⟩
      · exact (hsame.place n).2.trans halone
      · exact htext.alone n hlt halone
  | @up c p above hlisted hparent hfree _ ih =>
      have hkept : (w'.node p).children = (w.node p).children ∧
          (w'.node c).parent = some p := by
        rcases h.redraws hview with hsame | ⟨s, r, hs, hr, htext⟩
        · exact ⟨(hsame.place p).1, (hsame.place c).2.trans hparent⟩
        · have hp := Ne.symm (hfree s r hs hr)
          exact ⟨htext.children p (.inl hp), htext.parent c p hparent hp⟩
      exact .up (hkept.1 ▸ hlisted) hkept.2 (fun s r hs => hfree s r (h.renders_iff.mp hs)) ih

/-- Whatever is in the view after an event was there before, or is a new text. -/
theorem Happens.inView (h : w.Happens l w') (hview : w.Captioned) {root m : NodeId}
    (hm : w'.InView root m) :
    w.InView root m ∨ w.nodes.size ≤ m.index ∧ (w'.node m).kind.isText = true := by
  rcases h.redraws hview with hsame | ⟨s, r, _, _, htext⟩
  · refine .inl (ReflTransGen.mono (fun p c hc => ?_) root m hm)
    rwa [(hsame.place p).1] at hc
  · induction hm with
    | refl => exact .inl .refl
    | @tail p c hp hc ih =>
        rcases ih with hbefore | ⟨hnew, _⟩
        · rcases htext.mem_children hc with hlisted | hfresh
          · exact .inl (hbefore.tail hlisted)
          · exact .inr ⟨hfresh, (htext.new c hfresh).1⟩
        · rw [(htext.new p hnew).2.1] at hc
          exact absurd hc List.not_mem_nil

end World

end LiveTemplate
