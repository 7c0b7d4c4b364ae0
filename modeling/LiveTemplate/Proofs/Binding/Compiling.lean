import LiveTemplate.Proofs.Binding.Attaching

/-!
# Compiling a Template

What bringing a template to life leaves behind.

The nodes of a planted template are counted in document order, so a node and all that
is beneath it fill the places from its own to the one of its next neighbour. Compiling
them binds nodes in these places, or nodes that are new, and leaves the others alone.
Since a node's neighbours fill other places, each node is visited once, and that is
what counts: a text gets one binding at most, and an element gets at most one for each
of its directives.

A directive that puts markup beneath its element takes the place of the children that
the element had. Then it is the new nodes that are visited next, and they fill the new
places in document order, too.

A form field listens for input as soon as its binding is complete. Between the two
steps its watcher is not heard yet.

## Main definitions

* `World.Crowd`: At most so many watchers change one aspect of a node.
* `Directive.Kind.aspect?`, `Node.room`: How many watchers a node may get.
* `Template.Stage`: The invariant of compiling.
* `World.Apart`: Nodes outside some places have been left alone.
* `Template.Working`: The invariant of the directives of one element.

## Theorems

* `Stage.attach`, `Stage.listen`: What single steps keep.
* `working_applyDirective`: What one directive does.
* `compileNode_apart`: What compiling a node and everything beneath it does.
-/

namespace LiveTemplate

open Markup

variable {ν τ : Type} {w w' w₁ w₂ : ClientWorld ν τ}

namespace World

/-! ### Counting watchers -/

/-- At most so many watchers change this aspect of the node. -/
def Crowd (w : ClientWorld ν τ) (n : NodeId) (a : Aspect) (k : Nat) : Prop :=
  ∀ l : List SubscriberId, l.Nodup →
    (∀ s ∈ l, ∃ r, w.Renders s r ∧ r.aspect = a ∧ r.target = n) → l.length ≤ k

namespace Crowd

variable {n : NodeId} {a : Aspect} {j k : Nat}

theorem mono (h : w.Crowd n a j) (hjk : j ≤ k) : w.Crowd n a k :=
  fun l hl hs => Nat.le_trans (h l hl hs) hjk

theorem of_quiet (h : w.Quiet n) : w.Crowd n a k := by
  intro l _ hs
  cases l with
  | nil => exact Nat.zero_le k
  | cons s l =>
      rcases hs s List.mem_cons_self with ⟨r, hr, _, htarget⟩
      exact absurd htarget (h s r hr)

/-- Where there is room for one watcher only, there is no other one. -/
theorem sole (h : w.Crowd n a 1) {s : SubscriberId} {r : Rendering} (hs : w.Renders s r)
    (haspect : r.aspect = a) (htarget : r.target = n) : w.Sole s r := by
  intro t r' ht haspect' htarget'
  by_contra hne
  have hpair := h [t, s] (List.nodup_cons.mpr
    ⟨fun hmem => hne (List.mem_singleton.mp hmem), List.nodup_cons.mpr
      ⟨List.not_mem_nil, List.nodup_nil⟩⟩) (by
    intro u hu
    rcases List.mem_cons.mp hu with rfl | hu
    · exact ⟨r', ht, haspect'.trans haspect, htarget'.trans htarget⟩
    · rw [List.mem_singleton.mp hu]
      exact ⟨r, hs, haspect, htarget⟩)
  exact absurd hpair (Nat.not_le_of_lt (Nat.lt_succ_self 1))

/-- One watcher more. -/
theorem attach {t : Template (Code ν)} {key : String} {r : Rendering} (h : w.Crowd n a k)
    (hatt : t.Attached key r w w') :
    w'.Crowd n a (if n = r.target ∧ a = r.aspect then k + 1 else k) := by
  intro l hl hs
  have hold : ∀ s ∈ l, s ≠ ⟨w.subscribers.size⟩ →
      ∃ r', w.Renders s r' ∧ r'.aspect = a ∧ r'.target = n := by
    intro s hmem hne
    rcases hs s hmem with ⟨r', ⟨wt, hwt, heffect⟩, hparts⟩
    rcases hatt.renderers.mp hwt with hwt | ⟨hnew, _⟩
    · exact ⟨r', ⟨wt, hwt, heffect⟩, hparts⟩
    · exact absurd hnew hne
  by_cases hmem : (⟨w.subscribers.size⟩ : SubscriberId) ∈ l
  · rcases hs _ hmem with ⟨r', ⟨wt, hwt, heffect⟩, haspect, htarget⟩
    have hr : r' = r := by
      rcases hatt.renderers.mp hwt with hwt | ⟨_, rfl⟩
      · exact absurd (lt_of_subscriber? hwt) (Nat.lt_irrefl _)
      · injection heffect with heffect
        exact heffect.symm
    subst hr
    have hrest := h (l.erase ⟨w.subscribers.size⟩) (hl.erase _) fun s hmem' => by
      rcases (hl.mem_erase_iff).mp hmem' with ⟨hne, hin⟩
      exact hold s hin hne
    rw [List.length_erase_of_mem hmem] at hrest
    rw [if_pos ⟨htarget.symm, haspect.symm⟩]
    omega
  · have hall := h l hl fun s hin => hold s hin fun heq => hmem (heq ▸ hin)
    split
    · exact Nat.le_succ_of_le hall
    · exact hall

end Crowd

end World

/-- What a directive changes about its element by showing a value. -/
def Directive.Kind.aspect? : Directive.Kind → Option Aspect
  | text => some .beneath
  | html => some .beneath
  | model => some .field
  | on _ _ => none
  | unknown _ => none

theorem Directive.Kind.ne_own_of_aspect? {kind : Directive.Kind} {a : Aspect}
    (h : kind.aspect? = some a) : a ≠ .own := by
  rintro rfl
  cases kind with
  | _ => exact absurd h (by simp only [aspect?, Option.some.injEq, reduceCtorEq,
      not_false_eq_true])

/-- How many of the directives change an aspect. -/
def aspectCount (a : Aspect) (ds : List Directive) : Nat :=
  ds.countP fun d => d.kind.aspect? == some a

theorem aspectCount_cons {a b : Aspect} {d : Directive} (h : d.kind.aspect? = some b)
    (ds : List Directive) :
    aspectCount a (d :: ds) = aspectCount a ds + if a = b then 1 else 0 := by
  rw [aspectCount, List.countP_cons, ← aspectCount, h]
  by_cases ha : a = b
  · rw [if_pos ha, ha, beq_self_eq_true, if_pos rfl]
  · have hne : (some b == some a) = false := by
      rw [beq_eq_false_iff_ne]
      exact fun heq => ha (Option.some.inj heq).symm
    rw [if_neg ha, hne, if_neg Bool.false_ne_true]

/-- How many watchers may change an aspect of the node: one for the expression of a text, and
    one for each directive. -/
def Node.room {κ : Type} (markers : Markers) (node : Node κ) : Aspect → Nat
  | .own => 1
  | .beneath => aspectCount .beneath (directivesOf markers node.attributes)
  | .field => aspectCount .field (directivesOf markers node.attributes)

theorem Node.room_congr {κ : Type} {markers : Markers} {a b : Node κ}
    (h : a.attributes = b.attributes) (aspect : Aspect) :
    a.room markers aspect = b.room markers aspect := by
  cases aspect with
  | own => rfl
  | beneath => rw [room, room, h]
  | field => rw [room, room, h]

namespace Template

variable {t : Template (Code ν)} {key : String} {r : Rendering} {unheard : List SubscriberId}

/-! ### Stages -/

/-- The template has been compiled in part. -/
structure Stage (t : Template (Code ν)) (unheard : List SubscriberId) (w : ClientWorld ν τ) :
    Prop where
  /-- There is the data. -/
  data : t.data.index < w.objects.size
  /-- Everybody is up to date. -/
  kept : Kept (Display.growing ν τ t.markers) [] [] (t.held w)
  /-- Bindings show values of the data. -/
  rooted : ∀ {s wt r}, w.subscriber? s = some (.watcher wt) → wt.effect = .render r →
    wt.root = t.data
  /-- What is entered into form fields is written back. -/
  heard : ∀ {s wt n}, s ∉ unheard → w.subscriber? s = some (.watcher wt) →
    wt.effect = .render (.field n) →
    ("input", Listener.writeBack wt.root wt.path) ∈ (w.node n).listeners
  /-- No node has more watchers than it may have. -/
  counted : ∀ n a, w.Crowd n a ((w.node n).room t.markers a)

namespace Stage

/-- A place behind the last node is quiet. -/
theorem quiet_of_size_le (h : t.Stage unheard w) {n : NodeId} (hn : w.nodes.size ≤ n.index) :
    w.Quiet n := by
  rintro s r hs rfl
  exact absurd (h.kept.sound s r hs).1 (Nat.not_lt_of_le hn)

/-- One binding more. Its watcher may not be heard yet. -/
theorem attach (h : t.Stage [] w) (hatt : t.Attached key r w w') {k : Nat}
    (hlt : r.target.index < w.nodes.size) (hcrowd : w.Crowd r.target r.aspect k)
    (hroom : k < (w.node r.target).room t.markers r.aspect) :
    t.Stage [⟨w.subscribers.size⟩] w' := by
  have hattributes : ∀ n : NodeId, n.index < w.nodes.size →
      (w'.node n).attributes = (w.node n).attributes := by
    intro n hn
    by_cases hne : n = r.target
    · rw [hne]
      exact hatt.redrawn.self.1
    · exact Node.attributes_of_loose (hatt.redrawn.others n hn hne)
  refine ⟨?_, hatt.kept, ?_, ?_, ?_⟩
  · exact Nat.lt_of_lt_of_le h.data hatt.unwritten.grown
  · intro s wt r' hwt heffect
    rcases hatt.renderers.mp hwt with hwt | ⟨_, rfl⟩
    · exact h.rooted hwt heffect
    · rfl
  · intro s wt n hs hwt heffect
    rcases hatt.renderers.mp hwt with hwt | ⟨hnew, _⟩
    · have hheard := h.heard List.not_mem_nil hwt heffect
      by_cases hne : n = r.target
      · rw [hne, hatt.redrawn.self.2, ← hne]
        exact hheard
      · have hn := (h.kept.sound s (.field n) ⟨wt, hwt, heffect⟩).1
        rw [Node.listeners_of_loose (hatt.redrawn.others n hn hne)]
        exact hheard
    · exact absurd (List.mem_singleton.mpr hnew) hs
  · intro n a
    by_cases hn : n.index < w.nodes.size
    · rw [Node.room_congr (hattributes n hn)]
      by_cases hsame : n = r.target ∧ a = r.aspect
      · rcases hsame with ⟨rfl, rfl⟩
        have hmore := hcrowd.attach hatt
        rw [if_pos ⟨rfl, rfl⟩] at hmore
        exact hmore.mono hroom
      · have hmore := (h.counted n a).attach hatt
        rw [if_neg hsame] at hmore
        exact hmore
    · have hne : ¬(n = r.target ∧ a = r.aspect) := by
        rintro ⟨rfl, _⟩
        exact hn hlt
      have hnone := (World.Crowd.of_quiet (a := a) (k := 0)
        (h.quiet_of_size_le (Nat.le_of_not_lt hn))).attach hatt
      rw [if_neg hne] at hnone
      exact hnone.mono (Nat.zero_le _)

/-- A watcher that is heard, or does not act on a form field. -/
theorem hear {s : SubscriberId} (h : t.Stage [s] w)
    (hs : ∀ wt n, w.subscriber? s = some (.watcher wt) → wt.effect = .render (.field n) →
      ("input", Listener.writeBack wt.root wt.path) ∈ (w.node n).listeners) : t.Stage [] w where
  data := h.data
  kept := h.kept
  rooted := h.rooted
  heard {u wt n} _ hu heffect := by
    by_cases hus : u = s
    · subst hus
      exact hs wt n hu heffect
    · exact h.heard (fun hmem => hus (List.mem_singleton.mp hmem)) hu heffect
  counted := h.counted

end Stage

/-- A listener more changes nothing else about any node. -/
theorem parts_listen (w : ClientWorld ν τ) (n : NodeId) (kind : String)
    (listener : Listener (Code ν)) (m : NodeId) :
    ((w.listen n kind listener).node m).kind = (w.node m).kind ∧
      ((w.listen n kind listener).node m).attributes = (w.node m).attributes ∧
      ((w.listen n kind listener).node m).children = (w.node m).children ∧
      ((w.listen n kind listener).node m).value = (w.node m).value ∧
      (w.node m).listeners ⊆ ((w.listen n kind listener).node m).listeners := by
  rw [World.listen, World.node_updateNode]
  split
  · exact ⟨rfl, rfl, rfl, rfl, List.subset_append_left _ _⟩
  · exact ⟨rfl, rfl, rfl, rfl, List.Subset.refl _⟩

theorem size_listen (w : ClientWorld ν τ) (n : NodeId) (kind : String)
    (listener : Listener (Code ν)) : (w.listen n kind listener).nodes.size = w.nodes.size :=
  World.size_nodes_updateNode w n _

/-- One listener more. -/
theorem Stage.listen (h : t.Stage unheard w) (n : NodeId) (kind : String)
    (listener : Listener (Code ν)) : t.Stage unheard (w.listen n kind listener) := by
  have hsize := size_listen w n kind listener
  refine ⟨h.data, ?_, h.rooted, ?_, ?_⟩
  · refine h.kept.of_objects rfl rfl rfl (fun o _ hrooted => World.alive_of_rooted hrooted) ?_ ?_
    · intro s wt d _ _ _ hd
      refine hd.imp rfl fun r _ hshows value hvalue hsole => ?_
      have hholds : (t.held w).Holds _ _ r value.display := hshows value hvalue hsole
      refine hholds.frame (Nat.le_of_eq hsize.symm) ?_ ?_ ?_ ?_
      · exact fun _ => (parts_listen w n kind listener r.target).1
      · exact fun _ => (parts_listen w n kind listener r.target).2.2.2.1
      · exact fun _ => (parts_listen w n kind listener r.target).2.2.1
      · intro c _ _ hquiet hplain
        rcases parts_listen w n kind listener c with ⟨hkind, hattributes, hchildren, _, _⟩
        exact ⟨⟨hquiet, (Node.isPlain_congr hkind hattributes).mpr hplain⟩, hkind,
          hattributes, hchildren⟩
    · intro s r hs
      have hplaced := h.kept.sound s r hs
      have hkind : ((t.held (w.listen n kind listener)).node r.target).kind =
          ((t.held w).node r.target).kind := (parts_listen w n kind listener r.target).1
      have hsize' : (t.held (w.listen n kind listener)).nodes.size = (t.held w).nodes.size := hsize
      rw [hkind, hsize']
      exact hplaced
  · intro s wt m hs hwt heffect
    exact (parts_listen w n kind listener m).2.2.2.2 (h.heard hs hwt heffect)
  · intro m a
    rw [Node.room_congr (parts_listen w n kind listener m).2.1]
    exact h.counted m a

end Template

namespace World

/-! ### Places -/

/-- Nodes outside some places have been left alone. -/
structure Apart (w : ClientWorld ν τ) (start stop : Nat) (w' : ClientWorld ν τ) : Prop where
  /-- There may be more nodes. -/
  grown : w.nodes.size ≤ w'.nodes.size
  /-- The nodes elsewhere are as they were. -/
  others : ∀ m : NodeId, m.index < w.nodes.size → m.index < start ∨ stop ≤ m.index →
    (w'.node m).loose = (w.node m).loose
  /-- The ones that were quiet still are. -/
  quiet : ∀ m : NodeId, m.index < w.nodes.size → m.index < start ∨ stop ≤ m.index →
    w.Quiet m → w'.Quiet m

namespace Apart

variable {start stop start₁ stop₁ start₂ stop₂ : Nat}

theorem refl (w : ClientWorld ν τ) (start stop : Nat) : w.Apart start stop w :=
  ⟨Nat.le_refl _, fun _ _ _ => rfl, fun _ _ _ h => h⟩

/-- One change after the other, in places that may be different ones. -/
theorem trans (h₁ : w.Apart start₁ stop₁ w₁) (h₂ : w₁.Apart start₂ stop₂ w₂)
    (hplaces : ∀ m < w.nodes.size, m < start ∨ stop ≤ m →
      (m < start₁ ∨ stop₁ ≤ m) ∧ (m < start₂ ∨ stop₂ ≤ m)) : w.Apart start stop w₂ where
  grown := Nat.le_trans h₁.grown h₂.grown
  others m hm hout := by
    rcases hplaces m.index hm hout with ⟨hout₁, hout₂⟩
    rw [h₂.others m (Nat.lt_of_lt_of_le hm h₁.grown) hout₂, h₁.others m hm hout₁]
  quiet m hm hout hquiet := by
    rcases hplaces m.index hm hout with ⟨hout₁, hout₂⟩
    exact h₂.quiet m (Nat.lt_of_lt_of_le hm h₁.grown) hout₂ (h₁.quiet m hm hout₁ hquiet)

/-- A binding leaves all nodes but its own alone. -/
theorem attach {t : Template (Code ν)} {key : String} {r : Rendering}
    (hbound : t.Bound key r w w') : w.Apart r.target.index (r.target.index + 1) w' where
  grown := hbound.redrawn.grown
  others m hm hout := by
    refine hbound.redrawn.others m hm ?_
    rintro rfl
    omega
  quiet m _ hout hquiet := by
    rintro s r' ⟨wt, hwt, heffect⟩ htarget
    rcases hbound.renderers.mp hwt with hwt | ⟨_, rfl⟩
    · exact hquiet s r' ⟨wt, hwt, heffect⟩ htarget
    · injection heffect with heffect
      rw [heffect, htarget] at hout
      omega

/-- A listener changes its own node only. -/
theorem listen (w : ClientWorld ν τ) (n : NodeId) (kind : String)
    (listener : Listener (Code ν)) :
    w.Apart n.index (n.index + 1) (w.listen n kind listener) where
  grown := Nat.le_of_eq (size_nodes_updateNode w n _).symm
  others m _ hout := by
    have hne : n ≠ m := by
      rintro rfl
      omega
    rw [World.listen, node_updateNode_of_ne w _ hne]
  quiet _ _ _ hquiet := hquiet

/-- Nodes in other places fill them as before. -/
theorem spans {low high : Nat} {ns : List NodeId} (h : w.Apart start stop w')
    (hspans : w.Spans low ns high) (hsize : high ≤ w.nodes.size)
    (hout : ∀ m, low ≤ m → m < high → m < start ∨ stop ≤ m) : w'.Spans low ns high :=
  hspans.congr h.grown fun m hm hlt =>
    Node.children_of_loose (h.others m (Nat.lt_of_lt_of_le hlt hsize) (hout m.index hm hlt))

end Apart

end World

namespace Template

variable {t : Template (Code ν)} {key : String} {r : Rendering} {unheard : List SubscriberId}
  {n : NodeId} {rest : List Directive} {w₀ : ClientWorld ν τ}

/-! ### The directives of an element -/

/-- A node has the children that it had, or new ones that fill new places and are quiet. -/
def Renewed (w₀ w : ClientWorld ν τ) (n : NodeId) : Prop :=
  (w.node n).children = (w₀.node n).children ∨
    ∃ start stop, w₀.nodes.size ≤ start ∧ stop ≤ w.nodes.size ∧
      w.Spans start (w.node n).children stop ∧
      ∀ m : NodeId, start ≤ m.index → m.index < stop → w.Quiet m

/-- A change of the node that leaves its children. -/
theorem Renewed.keep (h : Renewed w₀ w n) (hlt : n.index < w₀.nodes.size)
    (hapart : w.Apart n.index (n.index + 1) w')
    (hsame : (w'.node n).children = (w.node n).children) : Renewed w₀ w' n := by
  rcases h with hold | ⟨start, stop, hstart, hstop, hspans, hquiet⟩
  · exact Or.inl (hsame.trans hold)
  · refine Or.inr ⟨start, stop, hstart, Nat.le_trans hstop hapart.grown, ?_, ?_⟩
    · rw [hsame]
      exact hapart.spans hspans hstop fun m hm _ => Or.inr (by omega)
    · intro m hm hlt'
      exact hapart.quiet m (Nat.lt_of_lt_of_le hlt' hstop) (Or.inr (by omega)) (hquiet m hm hlt')

/-- A binding that puts something beneath its node, where it is quiet. -/
theorem Renewed.attach (h : t.Stage unheard w) (hatt : t.Attached key r w w')
    (hgrown : w₀.nodes.size ≤ w.nodes.size) (hlt : r.target.index < w.nodes.size)
    (hbeneath : r.aspect = .beneath) : Renewed w₀ w' r.target := by
  refine Or.inr ⟨w.nodes.size, w'.nodes.size, hgrown, Nat.le_refl _, hatt.spans hbeneath, ?_⟩
  rintro m hm _ s r' ⟨wt, hwt, heffect⟩ rfl
  rcases hatt.renderers.mp hwt with hwt | ⟨_, rfl⟩
  · exact h.quiet_of_size_le hm s r' ⟨wt, hwt, heffect⟩ rfl
  · injection heffect with heffect
    rw [← heffect] at hm
    exact absurd hlt (Nat.not_lt_of_le hm)

/-- Some directives of an element have taken effect, and there is room for the rest. -/
structure Working (t : Template (Code ν)) (unheard : List SubscriberId) (n : NodeId)
    (rest : List Directive) (w₀ w : ClientWorld ν τ) : Prop where
  /-- The template has been compiled in part. -/
  stage : t.Stage unheard w
  /-- The other nodes have been left alone. -/
  apart : w₀.Apart n.index (n.index + 1) w
  /-- There is the node. -/
  lt : n.index < w₀.nodes.size
  /-- It is an element. -/
  element : ∃ tag, (w.node n).kind = .element tag
  /-- It asks for something. -/
  asks : directivesOf t.markers (w.node n).attributes ≠ []
  /-- There is room for the rest. -/
  room : ∀ a, a ≠ .own → ∃ k, w.Crowd n a k ∧
    k + aspectCount a rest ≤ (w.node n).room t.markers a
  /-- Its children are the ones that it had, or new ones. -/
  children : Renewed w₀ w n

namespace Working

/-- A directive that shows nothing needs no room. -/
theorem skip {d : Directive} (h : Working t unheard n (d :: rest) w₀ w) :
    Working t unheard n rest w₀ w where
  stage := h.stage
  apart := h.apart
  lt := h.lt
  element := h.element
  asks := h.asks
  room a ha := by
    rcases h.room a ha with ⟨k, hcrowd, hroom⟩
    refine ⟨k, hcrowd, Nat.le_trans (Nat.add_le_add_left ?_ k) hroom⟩
    exact List.Sublist.countP_le (List.sublist_cons_self d rest)
  children := h.children

/-- A directive that shows a value has got its binding. -/
theorem attach {d : Directive} (h : Working t [] n (d :: rest) w₀ w)
    (hatt : t.Attached key r w w') (htarget : r.target = n)
    (haspect : d.kind.aspect? = some r.aspect) (hown : r.aspect ≠ .own) :
    Working t [⟨w.subscribers.size⟩] n rest w₀ w' := by
  subst htarget
  have hlt := Nat.lt_of_lt_of_le h.lt h.apart.grown
  have hredrawn := hatt.redrawn
  have hapart := World.Apart.attach hatt.toBound
  refine ⟨?_, ?_, h.lt, ?_, ?_, ?_, ?_⟩
  · rcases h.room r.aspect hown with ⟨k, hcrowd, hroom⟩
    rw [aspectCount_cons haspect, if_pos rfl] at hroom
    exact h.stage.attach hatt hlt hcrowd (by omega)
  · exact h.apart.trans hapart fun m _ hout => ⟨hout, hout⟩
  · rw [hredrawn.own hown]
    exact h.element
  · rw [hredrawn.self.1]
    exact h.asks
  · intro a ha
    rcases h.room a ha with ⟨k, hcrowd, hroom⟩
    have hmore := hcrowd.attach hatt
    rw [aspectCount_cons haspect] at hroom
    rw [Node.room_congr hredrawn.self.1]
    by_cases hsame : a = r.aspect
    · rw [if_pos ⟨rfl, hsame⟩] at hmore
      rw [if_pos hsame] at hroom
      exact ⟨k + 1, hmore, by omega⟩
    · rw [if_neg fun hand => hsame hand.2] at hmore
      rw [if_neg hsame] at hroom
      exact ⟨k, hmore, hroom⟩
  · by_cases hbeneath : r.aspect = .beneath
    · exact Renewed.attach h.stage hatt h.apart.grown hlt hbeneath
    · exact h.children.keep h.lt hapart (hredrawn.beneath hbeneath)

/-- A listener more at the element. -/
theorem listen (h : Working t unheard n rest w₀ w) (kind : String)
    (listener : Listener (Code ν)) :
    Working t unheard n rest w₀ (w.listen n kind listener) := by
  have hapart := World.Apart.listen w n kind listener
  rcases parts_listen w n kind listener n with ⟨hkind, hattributes, hchildren, _, _⟩
  refine ⟨h.stage.listen n kind listener, ?_, h.lt, ?_, ?_, ?_, ?_⟩
  · exact h.apart.trans hapart fun m _ hout => ⟨hout, hout⟩
  · rw [hkind]
    exact h.element
  · rw [hattributes]
    exact h.asks
  · intro a ha
    rw [Node.room_congr hattributes]
    exact h.room a ha
  · exact h.children.keep h.lt hapart hchildren

/-- A watcher that is heard, or does not act on a form field. -/
theorem hear {s : SubscriberId} (h : Working t [s] n rest w₀ w)
    (hs : ∀ wt m, w.subscriber? s = some (.watcher wt) → wt.effect = .render (.field m) →
      ("input", Listener.writeBack wt.root wt.path) ∈ (w.node m).listeners) :
    Working t [] n rest w₀ w where
  stage := h.stage.hear hs
  apart := h.apart
  lt := h.lt
  element := h.element
  asks := h.asks
  room := h.room
  children := h.children

end Working

/-- A binding of an element, when it is the turn of a directive. -/
theorem attached_of_working {d : Directive} {description : String} {u : Unit}
    (h : Working t [] n (d :: rest) w₀ w) (htarget : r.target = n) (hown : r.aspect ≠ .own)
    (hrun : (t.bindValue description key r).run w = some (.ok u, w')) :
    t.Attached key r w w' := by
  subst htarget
  rcases h.element with ⟨tag, htag⟩
  refine attached_bindValue h.stage.kept h.stage.data (Nat.lt_of_lt_of_le h.lt h.apart.grown)
    (Or.inr ⟨tag, htag, hown⟩) ?_ hrun
  exact fun hplain => h.asks (hplain.element tag htag)

/-- The watcher of a binding that has just been added. -/
theorem Attached.watcher_eq (hatt : t.Attached key r w w') {wt : Watcher (Code ν)}
    (hwt : w'.subscriber? ⟨w.subscribers.size⟩ = some (.watcher wt)) :
    wt = ⟨t.data, key, .render r⟩ := by
  rcases hatt.renderers.mp hwt with hold | ⟨_, hnew⟩
  · exact absurd (World.lt_of_subscriber? hold) (Nat.lt_irrefl _)
  · exact hnew

/-- Showing a value by a directive of an element, not in a form field. -/
theorem working_bindValue {d : Directive} {u : Unit} (h : Working t [] n (d :: rest) w₀ w)
    (htarget : r.target = n) (haspect : d.kind.aspect? = some r.aspect)
    (hrun : (t.bindValue d.name d.expression r).run w = some (.ok u, w')) :
    t.Attached d.expression r w w' ∧ Working t [⟨w.subscribers.size⟩] n rest w₀ w' := by
  have hown := Directive.Kind.ne_own_of_aspect? haspect
  have hatt := attached_of_working h htarget hown hrun
  exact ⟨hatt, h.attach hatt htarget haspect hown⟩

/-- A directive for a form field shows a value there and listens for input. -/
theorem working_bindField {d : Directive} {u : Unit} (h : Working t [] n (d :: rest) w₀ w)
    (hkind : d.kind = .model)
    (hrun : (t.bindValue d.name d.expression (.field n)).run w = some (.ok u, w')) :
    Working t [] n rest w₀ (w'.listen n "input" (.writeBack t.data d.expression)) := by
  have haspect : d.kind.aspect? = some (Rendering.field n).aspect := by rw [hkind]; rfl
  rcases working_bindValue h rfl haspect hrun with ⟨hatt, hworking⟩
  refine (hworking.listen "input" (.writeBack t.data d.expression)).hear
    fun wt m hwt heffect => ?_
  -- The watcher is the new one, and its form field listens now.
  have hnew := hatt.watcher_eq hwt
  rw [hnew] at heffect ⊢
  injection heffect with heffect
  injection heffect with hm
  have hlt : m.index < w'.nodes.size := by
    rw [← hm]
    exact Nat.lt_of_lt_of_le h.lt hworking.apart.grown
  rw [hm, World.listen, World.node_updateNode, if_pos ⟨rfl, hlt⟩]
  exact List.mem_append_right _ List.mem_cons_self

/-- A directive that puts something beneath its element shows a value there. -/
theorem working_bindBeneath {d : Directive} {u : Unit} (h : Working t [] n (d :: rest) w₀ w)
    (htarget : r.target = n) (hr : r.aspect = .beneath) (haspect : d.kind.aspect? = some .beneath)
    (hrun : (t.bindValue d.name d.expression r).run w = some (.ok u, w')) :
    Working t [] n rest w₀ w' := by
  rcases working_bindValue h htarget (haspect.trans (congrArg some hr.symm)) hrun with
    ⟨hatt, hworking⟩
  refine hworking.hear fun wt m hwt heffect => ?_
  rw [hatt.watcher_eq hwt] at heffect
  injection heffect with heffect
  rw [heffect] at hr
  exact absurd hr (by simp only [Rendering.aspect, reduceCtorEq, not_false_eq_true])

/-- What one directive of an element does. -/
theorem working_applyDirective {d : Directive} {stats stats' : CompileStats}
    (h : Working t [] n (d :: rest) w₀ w)
    (hrun : (t.applyDirective n stats d).run w = some (.ok stats', w')) :
    Working t [] n rest w₀ w' := by
  rcases applyDirective_run_cases hrun with
    ⟨_, ⟨hkind, rfl⟩ | ⟨hkind, rfl⟩, hbind⟩ | ⟨hkind, u, hbind, rfl⟩ |
      ⟨event, modifiers, method, _, _, rfl⟩ | ⟨_, rfl⟩
  · exact working_bindBeneath h rfl rfl (by rw [hkind]; rfl) hbind
  · exact working_bindBeneath h rfl rfl (by rw [hkind]; rfl) hbind
  · exact working_bindField h hkind hbind
  · exact h.skip.listen event (.handle t.data method modifiers)
  · exact h.skip

/-- All directives of an element take effect, one after the other. -/
theorem working_foldlM {ds : List Directive} {stats stats' : CompileStats}
    (h : Working t [] n ds w₀ w)
    (hrun : (ds.foldlM (t.applyDirective n) stats).run w = some (.ok stats', w')) :
    Working t [] n [] w₀ w' := by
  induction ds generalizing stats w with
  | nil =>
      rw [List.foldlM_nil, pure_run_eq_some_iff] at hrun
      rcases hrun with ⟨_, rfl⟩
      exact h
  | cons d ds ih =>
      rw [foldlM_cons_run_eq_some_iff] at hrun
      rcases hrun with ⟨stats₁, v, hfirst, hrest⟩
      exact ih (working_applyDirective h hfirst) hrest

/-! ### Nodes -/

/-- A node has been visited. -/
structure Visited (t : Template (Code ν)) (n : NodeId) (w₀ w : ClientWorld ν τ) : Prop where
  /-- The template has been compiled in part. -/
  stage : t.Stage [] w
  /-- The other nodes have been left alone. -/
  apart : w₀.Apart n.index (n.index + 1) w
  /-- Its children are the ones that it had, or new ones. -/
  children : Renewed w₀ w n

theorem Visited.refl (h : t.Stage [] w) : t.Visited n w w :=
  ⟨h, World.Apart.refl w _ _, Or.inl rfl⟩

/-- A text takes effect if it has an expression. -/
theorem visited_bindText {content : String} {stats stats' : CompileStats} (h : t.Stage [] w)
    (hlt : n.index < w.nodes.size) (hquiet : w.Quiet n) (hkind : (w.node n).kind = .text content)
    (hrun : (t.bindText n content stats).run w = some (.ok stats', w')) : t.Visited n w w' := by
  cases hfind : Interpolation.find? t.markers content with
  | none =>
      rcases (bindText_of_none hfind).mp hrun with ⟨_, rfl⟩
      exact Visited.refl h
  | some i =>
      have hbind := ((bindText_run_iff hfind).mp hrun).1
      have hnot : ¬(w.node n).IsPlain t.markers := by
        intro hplain
        rw [hplain.text content hkind] at hfind
        exact absurd hfind (by simp only [reduceCtorEq, not_false_eq_true])
      have hatt : t.Attached i.key (.interpolated n i) w w' :=
        attached_bindValue h.kept h.data hlt (Or.inl ⟨content, hkind, rfl⟩) hnot hbind
      refine ⟨(h.attach (k := 0) hatt hlt (World.Crowd.of_quiet hquiet) ?_).hear ?_,
        World.Apart.attach hatt.toBound, Or.inl ?_⟩
      · exact Nat.zero_lt_one
      · intro wt m hwt heffect
        rw [hatt.watcher_eq hwt] at heffect
        exact absurd heffect (by
          simp only [Effect.render.injEq, reduceCtorEq, not_false_eq_true])
      · exact hatt.redrawn.beneath (by
          simp only [Rendering.aspect, ne_eq, reduceCtorEq, not_false_eq_true])

/-- All directives of an element take effect. -/
theorem visited_applyDirectives {tag : String} {stats stats' : CompileStats} (h : t.Stage [] w)
    (hlt : n.index < w.nodes.size) (hquiet : w.Quiet n) (hkind : (w.node n).kind = .element tag)
    (hrun : ((directivesOf t.markers (w.node n).attributes).foldlM (t.applyDirective n) stats).run
      w = some (.ok stats', w')) : t.Visited n w w' := by
  by_cases hasks : directivesOf t.markers (w.node n).attributes = []
  · rw [hasks, List.foldlM_nil, pure_run_eq_some_iff] at hrun
    rcases hrun with ⟨_, rfl⟩
    exact Visited.refl h
  · have hstart : Working t [] n (directivesOf t.markers (w.node n).attributes) w w := by
      refine ⟨h, World.Apart.refl w _ _, hlt, ⟨tag, hkind⟩, hasks, ?_, Or.inl rfl⟩
      intro a ha
      refine ⟨0, World.Crowd.of_quiet hquiet, ?_⟩
      rw [Nat.zero_add]
      cases a with
      | own => exact absurd rfl ha
      | beneath => exact Nat.le_refl _
      | field => exact Nat.le_refl _
    have hdone := working_foldlM hstart hrun
    exact ⟨hdone.stage, hdone.apart, hdone.children⟩

/-- What a node says itself takes effect. -/
theorem visited_compileSelf {stats stats' : CompileStats} (h : t.Stage [] w)
    (hlt : n.index < w.nodes.size) (hquiet : w.Quiet n)
    (hrun : (t.compileSelf n stats).run w = some (.ok stats', w')) : t.Visited n w w' := by
  rcases compileSelf_run_cases hrun with
    ⟨content, hkind, hbind⟩ | ⟨_, _, _, rfl⟩ | ⟨tag, hkind, hdirectives⟩
  · exact visited_bindText h hlt hquiet hkind hbind
  · exact Visited.refl h
  · exact visited_applyDirectives h hlt hquiet hkind hdirectives

/-- Nodes that fill places are visited one after the other, with what is beneath them. -/
theorem apart_foldlM {visit : CompileStats → NodeId → Work (Code ν) (Journal τ) CompileStats}
    (hvisit : ∀ {m : NodeId} {high : Nat} {u u' : ClientWorld ν τ} {stats stats'}, t.Stage [] u →
      u.Spans m.index [m] high → high ≤ u.nodes.size →
      (∀ c : NodeId, m.index ≤ c.index → c.index < high → u.Quiet c) →
      (visit stats m).run u = some (.ok stats', u') →
      t.Stage [] u' ∧ u.Apart m.index high u')
    {ns : List NodeId} {low high : Nat} {stats stats' : CompileStats} (h : t.Stage [] w)
    (hspans : w.Spans low ns high) (hsize : high ≤ w.nodes.size)
    (hquiet : ∀ c : NodeId, low ≤ c.index → c.index < high → w.Quiet c)
    (hrun : (ns.foldlM visit stats).run w = some (.ok stats', w')) :
    t.Stage [] w' ∧ w.Apart low high w' := by
  induction ns generalizing low stats w with
  | nil =>
      rw [List.foldlM_nil, pure_run_eq_some_iff] at hrun
      rcases hrun with ⟨_, rfl⟩
      exact ⟨h, World.Apart.refl w _ _⟩
  | cons n ns ih =>
      rw [foldlM_cons_run_eq_some_iff] at hrun
      rcases hrun with ⟨stats₁, v, hfirst, hrest⟩
      cases hspans with
      | @cons _ middle _ _ hlt hbeneath hafter =>
          have hlow := hbeneath.le
          have hhigh := hafter.le
          have hone : w.Spans low [⟨low⟩] middle := .cons hlt hbeneath .nil
          rcases hvisit h hone (by omega) (fun c hc hcm => hquiet c hc (by omega)) hfirst with
            ⟨hstage, hapart⟩
          have hothers := ih hstage
            (hapart.spans hafter hsize fun m hm _ => Or.inr hm) (Nat.le_trans hsize hapart.grown)
            (fun c hc hcm => hapart.quiet c (by omega) (Or.inr hc) (hquiet c (by omega) hcm))
            hrest
          refine ⟨hothers.1, hapart.trans hothers.2 fun m _ hout => ?_⟩
          dsimp only
          omega

/-- Compiling a node and everything beneath it leaves all other nodes alone. -/
theorem compileNode_apart {depth high : Nat} {stats stats' : CompileStats} (h : t.Stage [] w)
    (hspans : w.Spans n.index [n] high) (hsize : high ≤ w.nodes.size)
    (hquiet : ∀ c : NodeId, n.index ≤ c.index → c.index < high → w.Quiet c)
    (hrun : (t.compileNode depth stats n).run w = some (.ok stats', w')) :
    t.Stage [] w' ∧ w.Apart n.index high w' := by
  induction depth generalizing n high stats stats' w w' with
  | zero =>
      rcases compileNode_run_iff.mp hrun with ⟨_, _, _, hdepth, _⟩
      exact absurd hdepth (Nat.succ_ne_zero _).symm
  | succ depth ih =>
      rcases compileNode_run_iff.mp hrun with ⟨_, stats₁, v, hdepth, hself, hchildren⟩
      injection hdepth with hdepth
      subst hdepth
      cases hspans with
      | @cons _ middle _ _ hlt hbeneath hafter =>
          cases hafter with
          | nil =>
              have hlow := hbeneath.le
              have hvisited := visited_compileSelf h hlt
                (hquiet n (Nat.le_refl _) (by omega)) hself
              rcases hvisited.children with hsame | ⟨start, stop, hstart, hstop, hnew, hnewQuiet⟩
              · have hold : v.Spans (n.index + 1) (v.node n).children high := by
                  rw [hsame]
                  exact hvisited.apart.spans hbeneath hsize fun m hm _ => Or.inr hm
                have hrest := apart_foldlM ih hvisited.stage hold
                  (Nat.le_trans hsize hvisited.apart.grown)
                  (fun c hc hcm => hvisited.apart.quiet c (by omega) (Or.inr hc)
                    (hquiet c (by omega) hcm)) hchildren
                refine ⟨hrest.1, hvisited.apart.trans hrest.2 fun m _ hout => ?_⟩
                omega
              · -- The children are new, so visiting them leaves all old nodes alone.
                have hrest := apart_foldlM ih hvisited.stage hnew hstop hnewQuiet hchildren
                refine ⟨hrest.1, hvisited.apart.trans hrest.2 fun m hm hout => ?_⟩
                omega

end Template

end LiveTemplate
