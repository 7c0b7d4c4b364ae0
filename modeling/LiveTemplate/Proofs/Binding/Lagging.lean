import LiveTemplate.Proofs.Binding.Rebuilding
import LiveTemplate.Proofs.Binding.Wording
import LiveTemplate.Proofs.Reaction.Firing

/-!
# Texts Behind Objects

What a text shows for an object, and for how long.

A watcher is registered with the fields on its way, and not with those inside of the
value that it leads to. For a plain value there is nothing inside. But a text can show
an object, as its plain form, and then a write inside of it changes what the text should
show without anybody being told. From then on the text is behind, until something is
written to a beginning of its path.

So what a text shows can be told from the writes alone: it is what the value looked like
after the last write to a beginning of its path that changed something, or in the
beginning. The text is right for sure if no write has gone inside.

## Main definitions

* `Json.retell`: What a write does to the data, and to what a text shows.
* `World.Minded`: Only watchers that show values are there, each where it belongs.
* `World.Tells`: A text shows something for a watcher, and for nobody else.

## Theorems

* `refresh_draws`: What updating a watcher does that shows its value.
* `setPath_refreshes`: Whom a write updates.
* `Tells.refreshAll`: After an update a text is right if its watcher was told.
* `Tells.setPath`: A write tells those whose paths begin with it.
* `texts_of_writes`: What texts show after any writes.
* `lagging_text`: A text that is behind.
-/

namespace LiveTemplate

open World

/-! ### Plain data -/

namespace Json

/-- What is in another place is not changed, unless one place is inside of the other one. -/
theorem at?_replaceAt {target path : List String} (h : ¬target <+: path) (h' : ¬path <+: target)
    (v j : Json) : (replaceAt v target j).at? path = j.at? path := by
  induction target generalizing path j with
  | nil => exact absurd List.nil_prefix h
  | cons key target ih =>
      cases path with
      | nil => exact absurd List.nil_prefix h'
      | cons segment path =>
          cases j with
          | object members =>
              rw [replaceAt, at?, at?, Table.find?_update]
              by_cases hkey : key = segment
              · subst hkey
                have htail := ih (fun hp => h (List.cons_prefix_cons.mpr ⟨rfl, hp⟩))
                  fun hp => h' (List.cons_prefix_cons.mpr ⟨rfl, hp⟩)
                rw [if_pos rfl]
                cases Table.find? key members with
                | none => rfl
                | some inner => simp only [Option.map_some, htail]
              · rw [if_neg hkey]
          | _ => rfl

/-- A write changes something at its path, or nothing. -/
theorem assign_cases (path : List String) (v j : Json) :
    (assign path v j).1 ≠ some true ∧ (assign path v j).2 = j ∨
      assign path v j = (some true, replaceAt v path j) := by
  unfold assign
  split
  · exact Or.inl ⟨nofun, rfl⟩
  · split
    · exact Or.inl ⟨by simp only [ne_eq, Option.some.injEq, Bool.false_eq_true, not_false_eq_true],
        rfl⟩
    · exact Or.inr rfl

/-- What the value at a path looks like, if there is one. -/
def news (path : List String) (j : Json) : Option String :=
  (j.at? path).map display

/-- What a write does to the data, and to what a text shows for a path of it. The text follows
    if the write changes something and goes to a beginning of the path. -/
def retell (path : List String) (told : Json × String) (set : String × Json) : Json × String :=
  let after := assign (segmentsOfPath set.1) set.2 told.1
  (after.2, if after.1 = some true ∧ segmentsOfPath set.1 <+: path then
    (after.2.news path).getD told.2 else told.2)

/-- The text shows the value, if there is one. -/
def Current (path : List String) (told : Json × String) : Prop :=
  ∀ x, told.1.at? path = some x → told.2 = x.display

/-- A text stays right if the write does not go inside of its value. -/
theorem Current.retell {path : List String} {told : Json × String} {set : String × Json}
    (h : Current path told)
    (hset : path <+: segmentsOfPath set.1 → segmentsOfPath set.1 <+: path) :
    Current path (retell path told set) := by
  intro x hx
  unfold Json.retell at hx ⊢
  dsimp only at hx ⊢
  rcases assign_cases (segmentsOfPath set.1) set.2 told.1 with ⟨hdone, hsame⟩ | hchanged
  · rw [hsame] at hx
    rw [if_neg fun hnews => hdone hnews.1]
    exact h x hx
  · rw [hchanged] at hx ⊢
    by_cases hprefix : segmentsOfPath set.1 <+: path
    · rw [if_pos ⟨rfl, hprefix⟩, news, hx]
      rfl
    · rw [if_neg fun hnews => hprefix hnews.2]
      rw [at?_replaceAt hprefix fun hinside => hprefix (hset hinside)] at hx
      exact h x hx

theorem Current.foldl {path : List String} {told : Json × String} {sets : List (String × Json)}
    (h : Current path told)
    (hsets : ∀ set ∈ sets, path <+: segmentsOfPath set.1 → segmentsOfPath set.1 <+: path) :
    Current path (sets.foldl (Json.retell path) told) := by
  induction sets generalizing told with
  | nil => exact h
  | cons set sets ih =>
      rw [List.forall_mem_cons] at hsets
      exact ih (h.retell hsets.1) hsets.2

end Json

variable {ν τ : Type} {w w' v : ClientWorld ν τ} {root : ObjectId} {j : Json}
  {host : Host (Code ν) (Journal τ)} {late : List SubscriberId} {s s' : SubscriberId}
  {key : String} {n : NodeId} {i : Interpolation} {shown : String} {u : Unit}

/-! ### Updates -/

/-- Whoever shows values only calls nobody. -/
theorem Host.logs_draws (host : Host (Code ν) (Journal τ)) :
    host.Logs (fun _ => ([] : List (Code ν))) Subscriber.Draws where
  notice _ _ := rfl
  changed hkind _ := by
    rcases hkind with ⟨_, _, _, hwatcher⟩
    exact absurd hwatcher (by simp only [Subscriber.watcher.injEq, Watcher.mk.injEq, reduceCtorEq,
      and_false, not_false_eq_true])
  updated hkind _ := by
    rcases hkind with ⟨_, _, _, hwatcher⟩
    exact absurd hwatcher nofun

/-- Where there is nobody nothing happens. -/
theorem Host.refresh_none (hs : w.subscriber? s = none)
    (hrun : host.refresh s w = some (u, w')) : w' = w := by
  rcases Host.refresh_cases hrun with ⟨_, rfl⟩ | ⟨wt, hs', _⟩ | ⟨c, _, hs', _⟩
  · rfl
  · cases hs.symm.trans hs'
  · cases hs.symm.trans hs'

/-- Updating a watcher that shows its value: it is shown, if there is one and the object is
    there. -/
theorem Host.refresh_draws {o : ObjectId} {path : String} {r : Rendering}
    (hs : w.subscriber? s = some (.watcher ⟨o, path, .render r⟩))
    (hrun : host.refresh s w = some (u, w')) :
    (w.SameView w' ∧ (w.alive (.object o) = true → w.pathValue? o path = none)) ∨
      ∃ d shown v, w.pathValue? o path = some d ∧ w.display? d = some shown ∧ w.SameView v ∧
        (v.render r shown).SameView w' := by
  -- Following the path anew changes neither values nor the view.
  have hfollowed : ∀ {found v}, World.readPath { w with pins := [.object o] ++ w.pins } (some s) o
      path = (found, v) → found.toOption = w.pathValue? o path ∧ v.nodes = w.nodes ∧
        v.subscribers = w.subscribers ∧ v.objects.size = w.objects.size ∧ w.Unwritten v := by
    intro found v hread
    have hfound := (World.readPath_spec { w with pins := [.object o] ++ w.pins } (some s) o path).2
    have hframe := World.readPath_frame { w with pins := [.object o] ++ w.pins } (some s) o path
    have hunwritten :=
      World.unwritten_readPath { w with pins := [.object o] ++ w.pins } (some s) o path
    have hway := (w.path_pins ([.object o] ++ w.pins) o path).1
    rw [hway] at hfound
    rw [hread] at hfound hframe hunwritten
    rcases hframe with ⟨hnodes, hsubscribers, _, hsize⟩
    exact ⟨hfound, hnodes, hsubscribers, hsize, hunwritten.grown, hunwritten.values⟩
  rcases Host.refresh_cases hrun with ⟨hs', _⟩ | ⟨wt, hs', hrun⟩ | ⟨c, _, hs', _⟩
  · cases hs.symm.trans hs'
  · cases hs.symm.trans hs'
    rcases Host.refreshWatcher_cases hrun with ⟨hgone, rfl⟩ |
      ⟨_, ⟨e, v, hread, rfl⟩ | ⟨d, v, v', hread, hperform, rfl⟩⟩
    · exact Or.inl ⟨.of_subscribers rfl rfl, fun halive => absurd (hgone.symm.trans halive) nofun⟩
    · rcases hfollowed hread with ⟨hfound, hnodes, hsubscribers, _⟩
      exact Or.inl ⟨.of_subscribers hnodes hsubscribers, fun _ => hfound.symm⟩
    · rcases hfollowed hread with ⟨hfound, hnodes, hsubscribers, hsize, hunwritten⟩
      rcases Host.perform_render_iff.mp hperform with ⟨shown, hshown, rfl⟩
      refine Or.inr ⟨d, shown, { v with pins := d.owned ++ v.pins }, hfound.symm, ?_,
        .of_subscribers hnodes hsubscribers, .of_subscribers rfl rfl⟩
      have hsame : w.Unwritten { v with pins := d.owned ++ v.pins } :=
        ⟨hunwritten.grown, hunwritten.values⟩
      exact (hsame.display?_eq hsize d).symm.trans hshown
  · cases hs.symm.trans hs'

namespace World

/-- Only watchers are there that show values, at nodes of the right kinds. Those of the object
    are registered where they belong, unless they are late. The object stands for plain data. -/
structure Minded (w : ClientWorld ν τ) (root : ObjectId) (j : Json) (late : List SubscriberId) :
    Prop where
  /-- The object stands for plain data, and everybody shows a value. -/
  mirrors : w.Mirrors Subscriber.Draws root j
  /-- The watchers on the object are registered where they belong. -/
  attends : w.Attends root late
  /-- Values are shown at nodes of the right kinds. -/
  placed : w.Placed

/-- A watcher on the object shows something in a text, and nobody else does. -/
structure Tells (w : ClientWorld ν τ) (root : ObjectId) (s : SubscriberId) (key : String)
    (n : NodeId) (i : Interpolation) (shown : String) : Prop where
  /-- It is a watcher on the object. -/
  watched : w.subscriber? s = some (.watcher ⟨root, key, .render (.interpolated n i)⟩)
  /-- Nobody else shows anything there. -/
  sole : w.Sole s (.interpolated n i)
  /-- The text is there. -/
  text : (w.node n).kind = .text (i.render shown)

/-- What is held on to meanwhile does not matter. -/
theorem Minded.pins (h : w.Minded root j late) (pins : List Handle) :
    Minded { w with pins := pins } root j late where
  mirrors := h.mirrors.of_unwritten (.of_objects rfl) (h.mirrors.staffed.of_objects rfl rfl)
  attends := h.attends.of_objects rfl rfl
  placed := h.placed

theorem Tells.pins (h : w.Tells root s key n i shown) (pins : List Handle) :
    Tells { w with pins := pins } root s key n i shown :=
  ⟨h.watched, h.sole, h.text⟩

/-- Equal views tell the same. -/
theorem Tells.of_sameView (h : w.Tells root s key n i shown) (hview : w.SameView w') :
    w'.Tells root s key n i shown where
  watched := (hview.renderers rfl).mpr h.watched
  sole := h.sole.of_renders fun _ _ ht => hview.renders_iff.mp ht
  text := by
    rw [hview.node]
    exact h.text

/-- A text after something has been shown, there or elsewhere. -/
theorem Tells.render (h : w.Tells root s key n i shown) (hplaced : w.Placed) {r : Rendering}
    (hs : w.Renders s' r) (text : String) :
    (w.render r text).Tells root s key n i (if s' = s then text else shown) where
  watched := (subscriber?_render w r text s).trans h.watched
  sole := h.sole.of_renders fun t r' ht => by
    rcases ht with ⟨wt, ht, heffect⟩
    exact ⟨wt, (subscriber?_render w r text t).symm.trans ht, heffect⟩
  text := by
    have hthere := hplaced s _ ⟨_, h.watched, rfl⟩
    have hright := hplaced s' r hs
    split
    · next hself =>
        subst hself
        rcases hs with ⟨wt, hs, heffect⟩
        rw [h.watched, Option.some.injEq, Subscriber.watcher.injEq] at hs
        subst hs
        rw [Effect.render.injEq] at heffect
        subst heffect
        exact own_render hthere.1 hthere.2 text
    · next hother =>
        have hkind := (redrawn_render hright.1 hright.2 text).kind_eq hthere.1
          fun htarget hown => hother (h.sole s' r hs hown htarget)
        exact hkind.trans h.text

/-- Updating a subscriber. It is not late any more. -/
theorem Minded.refresh (h : w.Minded root j (s :: late)) (hpin : .object root ∈ w.pins)
    (hrun : host.refresh s w = some (u, w')) : w'.Minded root j late where
  mirrors := by
    rcases Host.quiet_refresh host.observes_draws h.mirrors.staffed s with
      ⟨_, v, hquiet, hunwritten, hstaffed⟩
    rw [hrun, Option.some.injEq, Prod.mk.injEq] at hquiet
    rw [← hquiet.2] at hunwritten hstaffed
    exact h.mirrors.of_unwritten hunwritten hstaffed
  attends :=
    (host.logs_draws.refresh_passes h.mirrors.staffed.kinds hrun).2.2 root late hpin h.attends
  placed := by
    cases hs : w.subscriber? s with
    | none =>
        rw [Host.refresh_none hs hrun]
        exact h.placed
    | some subscriber =>
        rcases h.mirrors.staffed.kinds s subscriber hs with ⟨o, path, r, rfl⟩
        rcases Host.refresh_draws hs hrun with ⟨hview, _⟩ | ⟨_, shown, v, _, _, hview, hrendered⟩
        · exact hview.placed h.placed
        · have hright := hview.placed h.placed s r
            (hview.renders_iff.mpr ⟨_, hs, rfl⟩)
          exact hrendered.placed (placed_render (hview.placed h.placed) hright.1 hright.2 shown)

/-- What the object has at a path is what the plain data has there. -/
theorem Minded.news_eq (h : w.Minded root j late) (key : String) :
    (w.pathValue? root key).bind w.display? = j.news (segmentsOfPath key) := by
  rw [Json.news, pathValue?]
  rcases h.mirrors.follow_at? (segmentsOfPath key) with
    ⟨hnone, hat⟩ | ⟨d, x, within, hd, hx, hwithin, _⟩
  · rw [hnone, hat]
    rfl
  · rw [hd, hx, Option.bind_some, display?, hwithin.snapshot?_eq]

/-- A text after a subscriber has been updated: if it is its own, then it shows the value. -/
theorem Tells.refresh (htells : w.Tells root s key n i shown) (h : w.Minded root j late)
    (hpin : .object root ∈ w.pins) (hrun : host.refresh s' w = some (u, w')) :
    w'.Tells root s key n i
      (if s' = s then (j.news (segmentsOfPath key)).getD shown else shown) := by
  cases hs : w.subscriber? s' with
  | none =>
      have hother : s' ≠ s := by
        rintro rfl
        exact absurd (hs.symm.trans htells.watched) nofun
      rw [if_neg hother, Host.refresh_none hs hrun]
      exact htells
  | some subscriber =>
      rcases h.mirrors.staffed.kinds s' subscriber hs with ⟨o, path, r, rfl⟩
      rcases Host.refresh_draws hs hrun with ⟨hview, hnone⟩ |
        ⟨d, text, v, hd, htext, hview, hrendered⟩
      · have hsame : (if s' = s then (j.news (segmentsOfPath key)).getD shown else shown) =
            shown := by
          split
          · next hself =>
              subst hself
              rw [htells.watched] at hs
              cases hs
              rw [← h.news_eq, hnone (alive_of_mem_pins hpin)]
              rfl
          · rfl
        rw [hsame]
        exact htells.of_sameView hview
      · have hafter := ((htells.of_sameView hview).render (hview.placed h.placed)
          (hview.renders_iff.mpr ⟨_, hs, rfl⟩) text).of_sameView hrendered
        have hsame : (if s' = s then (j.news (segmentsOfPath key)).getD shown else shown) =
            if s' = s then text else shown := by
          split
          · next hself =>
              subst hself
              rw [htells.watched] at hs
              cases hs
              rw [← h.news_eq, hd, Option.bind_some, htext, Option.getD_some]
          · rfl
        rw [hsame]
        exact hafter

/-- Updating subscribers one after the other. A text shows the value if its watcher is one of
    them. -/
theorem Tells.refreshAll (htells : w.Tells root s key n i shown) (h : w.Minded root j late)
    (hpin : .object root ∈ w.pins) (hrun : host.refreshAll late w = some (u, w')) :
    w'.Minded root j [] ∧ w'.Tells root s key n i
      (if s ∈ late then (j.news (segmentsOfPath key)).getD shown else shown) := by
  induction late generalizing w shown with
  | nil =>
      rw [Host.refreshAll_nil_iff] at hrun
      subst hrun
      rw [if_neg List.not_mem_nil]
      exact ⟨h, htells⟩
  | cons t rest ih =>
      rcases Host.refreshAll_cons_iff.mp hrun with ⟨v, hfirst, hrest⟩
      have hheld := h.pins ((t :: rest).map .subscriber ++ w.pins)
      have hpin' := List.mem_append_right ((t :: rest).map Handle.subscriber) hpin
      have hminded := (hheld.refresh hpin' hfirst).pins w.pins
      have htold := ((htells.pins _).refresh hheld hpin' hfirst).pins w.pins
      rcases ih htold hminded hpin hrest with ⟨hafter, hall⟩
      refine ⟨hafter, ?_⟩
      have hsame : ∀ news : Option String,
          (if s ∈ rest then news.getD (if t = s then news.getD shown else shown)
            else if t = s then news.getD shown else shown) =
            if s ∈ t :: rest then news.getD shown else shown := by
        intro news
        simp only [List.mem_cons, eq_comm (a := s)]
        by_cases hts : t = s
        · cases news <;> simp only [hts, if_true, true_or, Option.getD_none, Option.getD_some,
            ite_self]
        · simp only [hts, if_false, false_or]
      rw [← hsame]
      exact hall

end World

/-! ### Writes -/

/-- A write does nothing, or puts something in the place of a value and updates those who are
    registered there. -/
theorem Host.setPath_refreshes {path : String} {d : Data} {result : Except BindingError Bool}
    (hrun : host.setPath root path d w = some (result, w')) :
    result ≠ .ok true ∧ w' = w ∨
      result = .ok true ∧ ∃ init field o p v, segmentsOfPath path = init ++ [field] ∧
        field.isEmpty = false ∧ w.follow init (.object root) = some (.object o) ∧
        w.property? o field = some p ∧
        host.refreshAll p.registry.subscribers { w.updateProperty o field fun p =>
          { p with value := d } with pins := [.object o] ++ w.pins } = some ((), v) ∧
        w' = { v with pins := w.pins } := by
  rcases Host.setPath_cases hrun with ⟨e, _, rfl, rfl⟩ |
    ⟨o, field, answer, v, hresolve, hset, rfl, rfl⟩
  · exact Or.inl ⟨nofun, rfl⟩
  · rcases w.resolve_cases root path with ⟨e, hresolve', _⟩ |
      ⟨init, field', o', hsegments, hresolve', hfield, hfollow⟩
    · cases hresolve.symm.trans hresolve'
    · cases hresolve.symm.trans hresolve'
      rcases Host.setProperty_cases hset with ⟨_, rfl, rfl⟩ |
        ⟨p, hp, ⟨_, rfl, rfl⟩ | ⟨_, rfl, hnotify⟩⟩
      · exact Or.inl ⟨nofun, rfl⟩
      · exact Or.inl ⟨nofun, rfl⟩
      · rw [Host.notify_iff_refreshAll] at hnotify
        exact Or.inr ⟨rfl, init, field, o, p, v, hsegments, hfield, hfollow, hp, hnotify, rfl⟩

namespace World

/-- A write of a value that is nowhere in the data yet. A text follows if the write changes
    something and goes to a beginning of its path. -/
theorem Tells.setPath {path : String} {d : Data} {x : Json} {fresh : List ObjectId}
    {result : Except BindingError Bool} (htells : w.Tells root s key n i shown)
    (h : w.Minded root j []) (hpin : .object root ∈ w.pins) (hd : w.Stands d x fresh)
    (hfresh : fresh.Nodup)
    (hapart : ∀ j ids, w.Stands (.object root) j ids → ∀ a ∈ fresh, a ∉ ids)
    (hblank : ∀ a ∈ fresh, ∀ k q, w.property? a k = some q → q.registry = {})
    (hrun : host.setPath root path d w = some (result, w')) :
    let told := Json.retell (segmentsOfPath key) (j, shown) (path, x)
    w'.Minded root told.1 [] ∧ w'.Tells root s key n i told.2 := by
  rcases h.mirrors.tree with ⟨ids, hstands, hnodup⟩
  have hdone : result.toOption = (Json.assign (segmentsOfPath path) x j).1 := by
    rcases Host.setPath_mirrors host.observes_draws h.mirrors.staffed hstands hnodup hd hfresh
      (hapart j ids hstands) path with ⟨result', v, hset, hdone, _⟩
    rw [hrun, Option.some.injEq, Prod.mk.injEq] at hset
    rw [hset.1, hdone]
  unfold Json.retell
  dsimp only
  rcases Host.setPath_refreshes hrun with ⟨hresult, rfl⟩ |
    ⟨rfl, init, field, o, p, v, hsegments, hfield, hfollow, hp, hrefresh, rfl⟩
  · have hnot : (Json.assign (segmentsOfPath path) x j).1 ≠ some true := by
      rw [← hdone]
      rcases result with e | changed
      · exact nofun
      · exact fun hchanged => hresult (congrArg Except.ok (Option.some.inj hchanged))
    rw [if_neg fun hnews => hnot hnews.1]
    rcases Json.assign_cases (segmentsOfPath path) x j with ⟨_, hsame⟩ | hchanged
    · rw [hsame]
      exact ⟨h, htells⟩
    · exact absurd (congrArg Prod.fst hchanged) hnot
  · have hassign : Json.assign (segmentsOfPath path) x j =
        (some true, Json.replaceAt x (segmentsOfPath path) j) := by
      rcases Json.assign_cases (segmentsOfPath path) x j with ⟨hnot, _⟩ | hchanged
      · exact absurd hdone.symm hnot
      · exact hchanged
    have hview : w.SameView (w.updateProperty o field fun p => { p with value := d }) :=
      .of_subscribers rfl rfl
    have hwritten : Minded (w.updateProperty o field fun p => { p with value := d }) root
        (Json.replaceAt x (segmentsOfPath path) j) p.registry.subscribers := by
      refine ⟨?_, h.attends.write hfollow hp hd hfresh hapart hblank, hview.placed h.placed⟩
      rw [hsegments]
      exact mirrors_write h.mirrors.staffed hstands hnodup hd hfresh (hapart j ids hstands) hfollow
        hp
    have hafter := ((htells.of_sameView hview).pins ([.object o] ++ w.pins)).refreshAll
      (hwritten.pins _) (List.mem_append_right _ hpin) hrefresh
    -- Those who are registered with the field are those whose paths begin with it.
    have hwho : s ∈ p.registry.subscribers ↔ segmentsOfPath path <+: segmentsOfPath key := by
      rw [hsegments]
      exact h.attends.contains_iff_prefix hfield hfollow hp htells.watched
    rw [hassign]
    refine ⟨hafter.1.pins w.pins, ?_⟩
    simp only [true_and, ← hwho]
    exact hafter.2.pins w.pins

/-- Observing a value changes nothing for anybody. -/
theorem Minded.observe (h : w.Minded root j []) (x : Json) :
    (observeValue x w).2.Minded root j [] where
  mirrors := by
    have hextends := (extends_observeValue x w).1
    exact h.mirrors.of_unwritten (.of_extends hextends)
      (h.mirrors.staffed.of_unwritten (.of_extends hextends) hextends.subscribers)
  attends := by
    have hglance : Glance (fun _ => ([] : List (Code ν))) Subscriber.Draws w (observeValue x w).2 :=
      .observe w x
    exact (hglance.passes fun _ _ => rfl).1.attends root [] h.attends
  placed := by
    have hextends := (extends_observeValue x w).1
    exact (SameView.of_subscribers hextends.nodes hextends.subscribers).placed h.placed

end World

namespace Move

variable {app : App (Code ν)}

/-- What a text shows after a write. -/
theorem tells_of_set {path : String} {x : Json} (htells : w.Tells app.data s key n i shown)
    (h : w.Minded app.data j [])
    (hrun : (set path (.literal (.json x))).run host app w = some (u, w')) :
    let told := Json.retell (segmentsOfPath key) (j, shown) (path, x)
    w'.Minded app.data told.1 [] ∧ w'.Tells app.data s key n i told.2 := by
  have hobtain : (Source.literal (.json x)).obtain w = some (observeValue x w) := rfl
  rw [run, Run.bind_of_eq_some hobtain] at hrun
  simp only [Host.setData, Run.bind_eq_some_iff, Run.pure_eq_some_iff] at hrun
  rcases hrun with ⟨result, v, hset, _, rfl⟩
  rcases Run.pinned_eq_some_iff.mp hset with ⟨v', hinner, rfl⟩
  have hextends := (extends_observeValue x w).1
  rcases stands_observeValue x w with ⟨fresh, hd, hfresh, hnew⟩
  have hminded := (h.observe x).pins (app.pins ++ (observeValue x w).2.pins)
  have htold := (htells.of_sameView (.of_subscribers hextends.nodes hextends.subscribers)).pins
    (app.pins ++ (observeValue x w).2.pins)
  -- What has been observed is nowhere in the data, and nobody is registered with it.
  rcases h.mirrors.tree with ⟨ids, hstands, _⟩
  have hbefore := hstands.of_unwritten (.of_extends hextends)
  have hapart : ∀ j ids, (observeValue x w).2.Stands (.object app.data) j ids →
      ∀ a ∈ fresh, a ∉ ids := by
    intro j' ids' hstands' a ha hmem
    rw [(Denotes.functional hstands' hbefore).2] at hmem
    exact Nat.not_lt_of_le (hnew a ha) (Denotes.lt_size hstands a hmem)
  have hafter := htold.setPath hminded (List.mem_append_left _ (mem_pins_iff.mpr rfl))
    (hd.of_unwritten (.of_objects rfl)) hfresh
    (fun j' ids' hstands' => hapart j' ids' (hstands'.of_unwritten (.of_objects rfl)))
    (fun a ha k q => hextends.blank a k q (hnew a ha)) hinner
  exact ⟨hafter.1.pins _, hafter.2.pins _⟩

/-- What a text shows after any writes. -/
theorem tells_of_writes {sets : List (String × Json)} (htells : w.Tells app.data s key n i shown)
    (h : w.Minded app.data j []) (hrun : runAll host app (writes sets) w = some (u, w')) :
    let told := sets.foldl (Json.retell (segmentsOfPath key)) (j, shown)
    w'.Minded app.data told.1 [] ∧ w'.Tells app.data s key n i told.2 := by
  induction sets generalizing w j shown with
  | nil =>
      rw [writes, List.map_nil, runAll, Run.pure_eq_some_iff] at hrun
      rcases hrun with ⟨_, rfl⟩
      exact ⟨h, htells⟩
  | cons set sets ih =>
      rw [writes, List.map_cons, runAll] at hrun
      rcases Run.bind_eq_some_iff.mp hrun with ⟨_, v, hset, hrest⟩
      rcases tells_of_set htells h hset with ⟨hminded, htold⟩
      exact ih htold hminded hrest

end Move

/-! ### Applications -/

section Build

variable {b : Blueprint (Code ν)} {levels : Nat} {app : App (Code ν)} {memory : τ}

/-- After an application has been built in the beginning, only its watchers are there. -/
theorem minded_of_start (hmount : b.mount = none)
    (hbuild : b.build levels (World.start ν memory) = some (.ok app, w)) :
    w.Minded app.data (b.data.getD (.object [])) [] := by
  have hworded := worded_of_start hmount hbuild
  rcases Blueprint.built_of_build hmount hbuild with ⟨u, v, hbuilt⟩
  rcases hworded.stands with ⟨ids, hstands⟩
  rcases hworded.attends.tree with ⟨_, ids', hstands', hnodup⟩
  rw [(Denotes.functional hstands' hstands).2] at hnodup
  have hdraws : ∀ {s subscriber}, w.subscriber? s = some subscriber →
      ∃ key r, subscriber = .watcher ⟨app.data, key, .render r⟩ := by
    intro s subscriber hs
    rcases hbuilt.subscriber?_cases hs with hbefore | ⟨_, hadded⟩
    · exact absurd ((subscriber?_start memory s).symm.trans hbefore) nofun
    · exact hadded
  refine ⟨⟨⟨ids, hstands, hnodup⟩, fun s subscriber hs => ?_, fun s o path r hs => ?_⟩,
    hworded.attends, (stage_build (kept_blank_start memory) hmount hbuild).kept.sound⟩
  · rcases hdraws hs with ⟨key, r, hwatcher⟩
    exact ⟨app.data, key, r, hwatcher⟩
  · rcases hdraws hs with ⟨key, r', hwatcher⟩
    rw [Subscriber.watcher.injEq, Watcher.mk.injEq] at hwatcher
    rw [hwatcher.1]
    exact ⟨_, ids, hstands⟩

/-- And each text shows what its value looks like. -/
theorem tells_of_start (hmount : b.mount = none)
    (hbuild : b.build levels (World.start ν memory) = some (.ok app, w))
    (hs : w.subscriber? s = some (.watcher ⟨app.data, key, .render (.interpolated n i)⟩)) :
    ∃ x, (b.data.getD (.object [])).at? (segmentsOfPath key) = some x ∧
      w.Tells app.data s key n i x.display := by
  have hsole := (stage_build (kept_blank_start memory) hmount hbuild).sole ⟨_, hs, rfl⟩ rfl
  rcases (worded_of_start hmount hbuild).words s key n i hs hsole with ⟨x, hx, htext⟩
  exact ⟨x, hx, hs, hsole, htext⟩

/-- What texts show after any writes into an application, whether plain values or objects. The
    writes come to an end. A text shows what its value looked like when last a write changed
    something at a beginning of its path, or else in the beginning. If no write has gone inside
    of the value, then this is what the value looks like now. -/
theorem texts_of_writes {w₁ : ClientWorld ν τ} (code : ν → Signal → Program ν τ)
    (patience depth : Nat) (hmount : b.mount = none)
    (hbuild : b.build levels (World.start ν memory) = some (.ok app, w₁))
    (sets : List (String × Json)) :
    ∃ w₂, Run.pinned app.pins (Move.runAll ((Program.behaviour code).host patience depth) app
        (writes sets)) w₁ = some ((), w₂) ∧
      ∀ s key n i, w₁.subscriber? s =
          some (.watcher ⟨app.data, key, .render (.interpolated n i)⟩) →
        ∃ x, (b.data.getD (.object [])).at? (segmentsOfPath key) = some x ∧
          let told := sets.foldl (Json.retell (segmentsOfPath key))
            (b.data.getD (.object []), x.display)
          w₂.snapshot? (.object app.data) = some told.1 ∧
          (w₂.node n).kind = .text (i.render told.2) ∧
          ((∀ set ∈ sets, segmentsOfPath key <+: segmentsOfPath set.1 →
              segmentsOfPath set.1 <+: segmentsOfPath key) →
            ∀ d shown, w₂.getPath app.data key = .ok d → w₂.display? d = some shown →
              (w₂.node n).kind = .text (i.render shown)) := by
  have hminded := minded_of_start hmount hbuild
  rcases exists_writes ((Program.behaviour code).host patience depth) hminded.mirrors sets with
    ⟨w₂, _, _, hsets, _⟩
  refine ⟨w₂, hsets, fun s key n i hs => ?_⟩
  rcases Run.pinned_eq_some_iff.mp hsets with ⟨v, hrun, rfl⟩
  rcases tells_of_start hmount hbuild hs with ⟨x, hx, htells⟩
  rcases Move.tells_of_writes (htells.pins _) (hminded.pins _) hrun with ⟨hafter, htold⟩
  rcases (hafter.pins w₁.pins).mirrors.tree with ⟨ids, hstands, _⟩
  refine ⟨x, hx, hstands.snapshot?_eq, htold.text, fun houtside d shown hd hshown => ?_⟩
  have hcurrent : Json.Current (segmentsOfPath key) (b.data.getD (.object []), x.display) := by
    intro x' hx'
    rw [hx, Option.some.injEq] at hx'
    rw [hx']
  rcases Template.display?_of_stands hstands hd with ⟨now, hnow, hdisplay⟩
  rw [hshown, Option.some.injEq] at hdisplay
  rw [hdisplay, ← hcurrent.foldl houtside now hnow]
  exact htold.text

end Build

/-- A user, in a text. -/
def profile : Blueprint (Code Unit) where
  data := some (.object [("user", .object [("name", .string "a")])])
  template := some "<p>\x7b\x7b user \x7d\x7d</p>"

/-- The application. -/
def profileApp : App (Code Unit) :=
  ⟨⟨1⟩, ⟨0⟩, []⟩

/-- There is nothing around the user. -/
def profileText : Interpolation :=
  ⟨"", "user", ""⟩

theorem isSome_profile : (profile.build 3 (World.start Unit ())).isSome = true := by
  decide +kernel

/-- The world with the user. -/
def profileWorld : ClientWorld Unit Unit :=
  ((profile.build 3 (World.start Unit ())).get isSome_profile).2

theorem build_profile :
    profile.build 3 (World.start Unit ()) = some (.ok profileApp, profileWorld) :=
  Run.eq_some_of_fst isSome_profile (by decide +kernel)

theorem subscriber?_profile : profileWorld.subscriber? ⟨0⟩ =
    some (.watcher ⟨profileApp.data, "user", .render (.interpolated ⟨1⟩ profileText)⟩) := by
  decide +kernel

/-- The name is written, then the user is replaced, and then the name is written again. The text
    follows the second write only. -/
theorem texts_of_writes_profile :
    profile.build 3 (World.start Unit ()) = some (.ok profileApp, profileWorld) ∧
      profile.mount = none ∧
      ∃ w, Run.pinned profileApp.pins (Move.runAll ((Program.behaviour silence).host 9 9) profileApp
          (writes [("user.name", .string "b"), ("user", .object [("name", .string "c")]),
            ("user.name", .string "d")])) profileWorld = some ((), w) ∧
        w.snapshot? (.object profileApp.data) =
          some (.object [("user", .object [("name", .string "d")])]) ∧
        (w.node ⟨1⟩).kind = .text "\x7b\"name\":\"c\"\x7d" := by
  rcases texts_of_writes silence 9 9 rfl build_profile [("user.name", .string "b"),
    ("user", .object [("name", .string "c")]), ("user.name", .string "d")] with ⟨w, hsets, htexts⟩
  rcases htexts ⟨0⟩ "user" ⟨1⟩ profileText subscriber?_profile with ⟨x, hx, hdata, htext, _⟩
  obtain rfl : x = .object [("name", .string "a")] := by
    have hvalue : Json.at? (segmentsOfPath "user") (profile.data.getD (.object [])) =
        some (.object [("name", .string "a")]) := by
      decide +kernel
    rw [hvalue, Option.some.injEq] at hx
    exact hx.symm
  refine ⟨build_profile, rfl, w, hsets, hdata.trans ?_, htext.trans ?_⟩
  · rfl
  · decide +kernel

/-- The name is written. -/
def rewritten : List (String × Json) :=
  [("user.name", .string "b")]

theorem isSome_rewritten : (Run.pinned profileApp.pins (Move.runAll
    ((Program.behaviour silence).host 9 9) profileApp (writes rewritten)) profileWorld).isSome =
      true := by
  decide +kernel

/-- The world in which the user has another name. -/
def rewrittenWorld : ClientWorld Unit Unit :=
  ((Run.pinned profileApp.pins (Move.runAll ((Program.behaviour silence).host 9 9) profileApp
    (writes rewritten)) profileWorld).get isSome_rewritten).2

/-- The user has another name, and the text is not the one of the user. -/
theorem lagging_text :
    profile.build 3 (World.start Unit ()) = some (.ok profileApp, profileWorld) ∧
      profileWorld.subscriber? ⟨0⟩ =
        some (.watcher ⟨profileApp.data, "user", .render (.interpolated ⟨1⟩ profileText)⟩) ∧
      Run.pinned profileApp.pins (Move.runAll ((Program.behaviour silence).host 9 9) profileApp
        (writes rewritten)) profileWorld = some ((), rewrittenWorld) ∧
      rewrittenWorld.getPath profileApp.data "user" = .ok (.object ⟨0⟩) ∧
      rewrittenWorld.display? (.object ⟨0⟩) = some "\x7b\"name\":\"b\"\x7d" ∧
      (rewrittenWorld.node ⟨1⟩).kind = .text "\x7b\"name\":\"a\"\x7d" ∧
      (rewrittenWorld.node ⟨1⟩).kind ≠
        .text (profileText.render "\x7b\"name\":\"b\"\x7d") := by
  have htext : (rewrittenWorld.node ⟨1⟩).kind = .text "\x7b\"name\":\"a\"\x7d" := by
    decide +kernel
  have hsets : Run.pinned profileApp.pins (Move.runAll ((Program.behaviour silence).host 9 9)
      profileApp (writes rewritten)) profileWorld = some ((), rewrittenWorld) :=
    Program.eq_some_get isSome_rewritten
  have hvalue : rewrittenWorld.getPath profileApp.data "user" = .ok (.object ⟨0⟩) := by
    decide +kernel
  have hdisplay : rewrittenWorld.display? (.object ⟨0⟩) =
      some "\x7b\"name\":\"b\"\x7d" := by
    decide +kernel
  refine ⟨build_profile, subscriber?_profile, hsets, hvalue, hdisplay, htext, fun h => ?_⟩
  rw [htext, NodeKind.text.injEq] at h
  exact absurd h (by decide +kernel)

end LiveTemplate
