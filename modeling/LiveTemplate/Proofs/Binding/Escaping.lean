import LiveTemplate.Proofs.Binding.Labelling
import LiveTemplate.Proofs.Binding.Rebuilding
import LiveTemplate.Proofs.View.Framing

/-!
# Values Are No Markup

What is written for a view shows nothing of the data but its texts.

If no directive of a template puts markup anywhere, then values get into the view as the
contents of texts only. Such a text may read like a tag, a comment or a reference. It may be
empty, it may stand beside another one, and it may even have been put beneath an element of a
void tag. None of this can be told from the elements and comments of what is written: reading
it again gives the skeleton of the view, and this is the skeleton of the template, less what
has given way to labels.

The skeleton that two applications have in common is one that neither data nor writes have a
part in. Once a view is complete it is known from the template, since a label is a text whatever
it reads, and from there on updates keep the frame of the view.

## Main definitions

* `World.Describes`: What a node reads as, and what is read of its markup, by their skeleton.

## Theorems

* `skeletonAll_presentedAll`: What values look like does not matter to the skeleton.
* `showsText_of_build`: A watcher shows its value as a text.
* `framed_of_writes`: After any writes the frame of the view is what it was.
* `describes_of_writes`: After any writes the skeleton is the one of the template.
* `skeleton_of_writes`: Data and writes do not matter to the skeleton.
-/

namespace LiveTemplate

open Markup

namespace Markup.Tree

theorem isText_of_mem_labels {markers : Markers} {look : String → String} {shown : String}
    {t : Tree} (ht : t ∈ labels markers look shown) : t.IsText := by
  unfold labels at ht
  split at ht
  · exact absurd ht List.not_mem_nil
  · exact ⟨_, List.mem_singleton.mp ht⟩

theorem skeletonAll_labels (markers : Markers) (look : String → String) (shown : String) :
    skeletonAll (labels markers look shown) = [] := by
  unfold labels
  split
  · rfl
  · rfl

/-- What values look like does not matter to the skeleton. -/
theorem skeletonAll_presentedAll (markers : Markers) (look look' : String → String)
    (ts : List Tree) :
    skeletonAll (presentedAll markers look ts) = skeletonAll (presentedAll markers look' ts) := by
  induction ts using forestInduction with
  | nil => rfl
  | text content ts ih =>
      rw [presentedAll, presentedAll, presented, presented, skeletonAll, skeletonAll, ih, skeleton,
        skeleton]
  | comment content ts ih =>
      rw [presentedAll, presentedAll, presented, presented, skeletonAll, skeletonAll, ih]
  | element tag attributes children ts ihc ih =>
      rw [presentedAll, presentedAll, presented, presented, skeletonAll, skeletonAll, ih, skeleton,
        skeleton]
      split
      · rw [ihc]
      · rw [skeletonAll_labels, skeletonAll_labels]

/-- What a template presents can be written, but for the texts in it. -/
theorem writableAll_presentedAll (markers : Markers) (look : String → String) {ts : List Tree}
    (h : WritableAll ts) : WritableAll (skeletonAll (presentedAll markers look ts)) := by
  induction ts using forestInduction with
  | nil => exact trivial
  | text content ts ih => exact ih h.2
  | comment content ts ih => exact ⟨h.1, ih h.2⟩
  | element tag attributes children ts ihc ih =>
      rcases h with ⟨⟨htag, hattributes, hvoid, hchildren⟩, hts⟩
      refine ⟨⟨htag, hattributes, fun hv => ?_, ?_⟩, ih hts⟩
      · rw [hvoid hv]
        split
        · rfl
        · exact skeletonAll_labels _ _ _
      · split
        · exact ihc hchildren
        · rw [skeletonAll_labels]
          exact trivial

theorem skeleton_presented (markers : Markers) (look look' : String → String) (t : Tree) :
    (presented markers look t).skeleton = (presented markers look' t).skeleton := by
  have hall := skeletonAll_presentedAll markers look look' [t]
  rwa [presentedAll, presentedAll, presentedAll, presentedAll, skeletonAll_singleton,
    skeletonAll_singleton] at hall

theorem writableAll_presented (markers : Markers) (look : String → String) {t : Tree}
    (h : Writable t) : WritableAll (presented markers look t).skeleton := by
  have hforest : WritableAll [t] := ⟨h, trivial⟩
  have hall := writableAll_presentedAll markers look hforest
  rwa [presentedAll, presentedAll, skeletonAll_singleton] at hall

-- What looks like tags is written as a text.
example : html [presented .standard (fun _ => "</p><b>") (.element "p" [("v-text", "a")] [])] =
    "<p v-text=\"a\">&lt;&#x2f;p&gt;&lt;b&gt;</p>" := by
  decide +kernel

end Markup.Tree

variable {ν τ : Type}

/-- The node can be read, its markup can be read again as a template, and neither has any other
    elements and comments than these. -/
def World.Describes {κ σ : Type} (w : World κ σ) (spell : Spelling) (n : NodeId)
    (elements : List Tree) : Prop :=
  ∃ live markup t, w.tree? n = some live ∧ live.skeleton = elements ∧
    w.written? spell [n] = some markup ∧ Markup.template markup = .ok t ∧ t.skeleton = elements

section Textual

variable {b : Blueprint (Code ν)} {tree : Tree} {app : App (Code ν)} {levels : Nat} {memory : τ}
  {v w : ClientWorld ν τ}

/-- Whoever subscribes while an application is built shows the value of a site. -/
theorem exists_site_of_compile {t : Template (Code ν)} {root : NodeId}
    (hcompile : (t.compile levels root).run v = some (.ok (), w)) {s : SubscriberId}
    {subscriber : Subscriber (Code ν)} (hs : w.subscriber? s = some subscriber) :
    v.subscriber? s = some subscriber ∨
      ∃ description key r, .value description key r ∈ t.sites levels v root ∧
        subscriber = .watcher ⟨t.data, key, .render r⟩ := by
  rcases Template.compile_eq_bindAll hcompile (Nat.le_refl levels) with ⟨_, _, _, hadds⟩
  refine (hadds.exists_site hs).imp_right ?_
  rintro ⟨description, key, r, hsite, hsubscriber⟩
  exact ⟨description, key, r, (List.takeWhile_subset _) hsite, hsubscriber⟩

/-- In a template without markup from values a site shows its value as a text, and where it puts
    one beneath an element, there is a label in the end. -/
theorem showsText_of_owns (h : b.IsTextual tree) {start stop : Nat} {root : NodeId}
    (hsown : v.Sown start [root] [tree] stop)
    (hlabelled : ∀ n ∈ (Tree.stopsAll b.markers start [tree]).map (·.1),
      (b.forData app.data).Labelled n v w)
    {description key : String} {r : Rendering}
    (howns : (b.forData app.data).Owns v ((Tree.stopsAll b.markers start [tree]).map (·.1))
      (.value description key r)) : w.ShowsText r := by
  intro hbeneath
  rcases howns with ⟨n, hn, hsite⟩ | ⟨_, _, n, i, hvalue⟩
  · rcases Template.exists_directive_of_mem_sitesAt hsite hbeneath with ⟨tag, d, hkind, hd, hr⟩
    rcases Directive.Kind.of_rendering? hr with ⟨_, haspect, _⟩
    rw [hbeneath] at haspect
    -- Another directive may have the last word, but it shows a text, too.
    rcases exists_filler? hd haspect with ⟨d', hd'⟩
    have hfiller : (v.node n).filler? b.markers = some d' :=
      (Node.filler?_of_element hkind).trans hd'
    have hbare : w.Bare n := ((hlabelled n hn).label d' hfiller).areTexts fun t ht =>
      Tree.isText_of_mem_labels ht
    rcases List.mem_map.mp hn with ⟨p, hp, rfl⟩
    have htext : d.kind = .text := by
      have hhead := (hsown.isHeadOf b.markers p hp).2
      cases htree : p.2 with
      | text content =>
          rw [htree, Node.IsHeadOf, hkind] at hhead
          cases hhead
      | comment content =>
          rw [htree, Node.IsHeadOf, hkind] at hhead
          cases hhead
      | element tag' attributes children =>
          rw [htree] at hhead
          rw [hhead.2] at hd
          exact h.kind_of_mem hp htree hd haspect
    rw [htext, Directive.Kind.rendering?, Option.some.injEq] at hr
    exact ⟨p.1, hr.symm, hbare⟩
  · rw [BindingSite.value.injEq] at hvalue
    rw [hvalue.2.2] at hbeneath
    cases hbeneath

/-- An application that has been built in the beginning: its view is complete, whoever watches
    shows a text, and nobody else is there. -/
theorem shows_of_start (h : b.IsTextual tree)
    (hbuild : b.build levels (World.start ν memory) = some (.ok app, w)) :
    (b.forData app.data).Stage [] w ∧ (∀ s r, w.Renders s r → w.ShowsText r) ∧
      w.Mirrors Subscriber.Draws app.data (b.data.getD (.object [])) := by
  rcases h.toured_of_build hbuild with ⟨u, v, hobserve, hplant, hcompile, htoured, _⟩
  have honly := (planted_plant hplant).1.rest
  have hnone : ∀ s, v.subscriber? s = none := fun s =>
    (subscriber?_of_observeRoot hobserve honly s).trans (subscriber?_start memory s)
  have hadded := fun s subscriber (hs : w.subscriber? s = some subscriber) =>
    exists_site_of_compile hcompile hs
  refine ⟨stage_build (kept_blank_start memory) h.mount hbuild, ?_, ?_⟩
  · rintro s r ⟨wt, hs, heffect⟩
    rcases hadded s _ hs with hs | ⟨description, key, r', hsite, hwatcher⟩
    · rw [hnone] at hs
      exact absurd hs.symm (Option.some_ne_none _)
    · rw [Subscriber.watcher.injEq] at hwatcher
      rw [hwatcher, Effect.render.injEq] at heffect
      subst heffect
      exact showsText_of_owns h (World.sown_plant hplant).2 htoured.labelled
        (htoured.owned _ hsite)
  · rcases Template.compile_eq_bindAll hcompile (Nat.le_refl levels) with ⟨_, _, heffect, _⟩
    have hunwritten : v.Unwritten w := by
      rw [heffect]
      exact (Template.unwritten_foldl _ v).1
    refine mirrors_of_added hnone (stands_of_observeRoot hobserve honly) hunwritten
      fun s subscriber hs => ?_
    rcases hadded s subscriber hs with hs | ⟨_, key, r, _, hwatcher⟩
    · exact Or.inl hs
    · exact Or.inr ⟨key, r, hwatcher⟩

/-- The display of a view that was complete, and has kept its frame since. -/
def Display.secured (v : ClientWorld ν τ) (markers : Markers) : Display ν τ :=
  framed v fun s r => ∀ wt, v.subscriber? s = some (.watcher wt) → v.FirstPlain markers wt r

/-- A view that has just been completed is secured. -/
theorem secured_of_stage {t : Template (Code ν)} (h : t.Stage [] v) :
    Kept (Display.secured v t.markers) [] [] (t.held v) := by
  have hkept := kept_of_stage h
  have hview : v.SameView (t.held v) := .of_subscribers rfl rfl
  exact hkept.redisplay (fun _ _ _ _ _ hshown => hshown)
    ⟨hkept.sound, (World.Framed.refl v).of_sameView hview⟩

/-- Any writes come to an end, and after them the frame of the view is what it was. -/
theorem framed_of_writes (code : ν → Signal → Program ν τ) (patience depth : Nat)
    (h : b.IsTextual tree) (hbuild : b.build levels (World.start ν memory) = some (.ok app, v))
    (sets : List (String × Json)) :
    ∃ w, Run.pinned app.pins (Move.runAll ((Program.behaviour code).host patience depth) app
        (writes sets)) v = some ((), w) ∧ v.Framed w := by
  rcases shows_of_start h hbuild with ⟨hstage, htext, hmirrors⟩
  rcases exists_writes ((Program.behaviour code).host patience depth) hmirrors sets with
    ⟨w, _, _, hsets, _⟩
  refine ⟨w, hsets, ?_⟩
  have hlawful : (Display.secured v b.markers).Lawful := Display.lawful_framed _ htext
  have hserves := Program.serves_host hlawful code patience depth
  rcases kept_of_pinned hlawful rfl (secured_of_stage hstage) (fun m hm _ _ _ hpin hkept hrun => by
    rcases List.mem_map.mp hm with ⟨set, _, rfl⟩
    exact Move.set_kept hserves hlawful hpin hkept hrun) hsets with ⟨w', rfl, hafter, _⟩
  exact hafter.sound.2.of_sameView (.of_subscribers rfl rfl)

/-- After any writes, what is written of the view has the elements and comments of the view, and
    these are known from the template. -/
theorem describes_of_writes (code : ν → Signal → Program ν τ) (patience depth : Nat)
    {spell : Spelling} (hs : spell.Faithful) (h : b.IsTextual tree)
    (hbuild : b.build levels (World.start ν memory) = some (.ok app, v))
    (sets : List (String × Json)) (look : String → String) :
    ∃ w, Run.pinned app.pins (Move.runAll ((Program.behaviour code).host patience depth) app
        (writes sets)) v = some ((), w) ∧
      w.Describes spell app.root (tree.presented b.markers look).skeleton := by
  rcases framed_of_writes code patience depth h hbuild sets with ⟨w, hsets, hframed⟩
  rcases h.standFor_of_build hbuild with ⟨_, hstand⟩
  rcases hstand.exists_tree? hframed with ⟨live, htrees, htree, hskeleton⟩
  rw [Tree.skeleton_presented _ _ look] at hskeleton
  rcases h.template with ⟨_, _, htemplate⟩
  rcases writable_template htemplate with ⟨hwritable, tag, attributes, children, rfl⟩
  have hroot := Tree.writableAll_presented b.markers look hwritable
  -- What stands for the template's root is an element, too.
  obtain ⟨children', rfl⟩ : ∃ children', live = .element tag attributes children' := by
    cases live with
    | text content => exact absurd hskeleton nofun
    | comment content => exact absurd hskeleton nofun
    | element tag' attributes' children' =>
        rw [Tree.presented, Tree.skeleton, Tree.skeleton, List.cons.injEq,
          Tree.element.injEq] at hskeleton
        exact ⟨children', by rw [hskeleton.1.1, hskeleton.1.2.1]⟩
  rw [← hskeleton] at hroot
  rcases template_write hs hroot with ⟨t, ht, hkept⟩
  refine ⟨w, hsets, _, _, t, htree, hskeleton, ?_, ht, hkept.trans hskeleton⟩
  rw [World.written?, htrees, Option.map_some]

/-- Data cannot put markup into a view. Any two applications that are built from the same template,
    in which no directive does so, come to the same elements and comments, whatever their data is
    and whatever is written into it: these are in their views, and these are read of what is
    written for the views. -/
theorem skeleton_of_writes (code : ν → Signal → Program ν τ) (patience depth : Nat)
    {spell : Spelling} (hs : spell.Faithful) (h : b.IsTextual tree) {data data' : Option Json}
    {app' : App (Code ν)} {levels' : Nat} {memory' : τ} {v' : ClientWorld ν τ}
    (hbuild : ({ b with data := data } : Blueprint (Code ν)).build levels
      (World.start ν memory) = some (.ok app, v))
    (hbuild' : ({ b with data := data' } : Blueprint (Code ν)).build levels'
      (World.start ν memory') = some (.ok app', v'))
    (sets sets' : List (String × Json)) :
    ∃ w w' elements,
      Run.pinned app.pins (Move.runAll ((Program.behaviour code).host patience depth) app
        (writes sets)) v = some ((), w) ∧
      Run.pinned app'.pins (Move.runAll ((Program.behaviour code).host patience depth) app'
        (writes sets')) v' = some ((), w') ∧
      w.Describes spell app.root elements ∧ w'.Describes spell app'.root elements := by
  have hfirst : ({ b with data := data } : Blueprint (Code ν)).IsTextual tree :=
    ⟨h.mount, h.template, h.text⟩
  have hsecond : ({ b with data := data' } : Blueprint (Code ν)).IsTextual tree :=
    ⟨h.mount, h.template, h.text⟩
  -- It does not matter what values look like, so they may look like anything.
  rcases describes_of_writes code patience depth hs hfirst hbuild sets id with ⟨w, hsets, hw⟩
  rcases describes_of_writes code patience depth hs hsecond hbuild' sets' id with
    ⟨w', hsets', hw'⟩
  exact ⟨w, w', _, hsets, hsets', hw, hw'⟩

end Textual

/-- A word that is shown in a text, as a label in place of an element, and at a line break. -/
def quotation : Blueprint (Code Unit) where
  template := some "<p><!--a-->\x7b\x7b word \x7d\x7d<b v-text=\"word\"><i></i></b><br v-text=\"word\"></p>"

/-- The template, read. -/
def quotationTree : Tree :=
  .element "p" [] [.comment "a", .text "\x7b\x7b word \x7d\x7d",
    .element "b" [("v-text", "word")] [.element "i" [] []],
    .element "br" [("v-text", "word")] []]

/-- The elements and comments that there are whatever the word is. -/
def quotationElements : List Tree :=
  [.element "p" [] [.comment "a", .element "b" [("v-text", "word")] [],
    .element "br" [("v-text", "word")] []]]

theorem isTextual_quotation : quotation.IsTextual quotationTree :=
  ⟨rfl, ⟨_, rfl, by decide +kernel⟩, by decide +kernel⟩

/-- The word as data. -/
def wording (word : String) : Json :=
  .object [("word", .string word)]

/-- The application, whatever the word is. -/
def quotationApp : App (Code Unit) :=
  ⟨⟨0⟩, ⟨0⟩, []⟩

/-- What looks like tags is written for the word. -/
def tagged : List (String × Json) :=
  [("word", .string "</b><i>")]

/-- What looks like the end of a comment is written, and something for which there is no place. -/
def commented : List (String × Json) :=
  [("word", .string "-->"), ("other", .string "<br>")]

theorem isSome_plain : (({ quotation with data := some (wording "plain") } :
    Blueprint (Code Unit)).build 3 (World.start Unit ())).isSome = true := by
  decide +kernel

theorem isSome_empty : (({ quotation with data := some (wording "") } :
    Blueprint (Code Unit)).build 3 (World.start Unit ())).isSome = true := by
  decide +kernel

/-- The world in which a word is shown. -/
def plainWorld : ClientWorld Unit Unit :=
  ((({ quotation with data := some (wording "plain") } : Blueprint (Code Unit)).build 3
    (World.start Unit ())).get isSome_plain).2

/-- The world in which an empty word is shown. -/
def emptyWorld : ClientWorld Unit Unit :=
  ((({ quotation with data := some (wording "") } : Blueprint (Code Unit)).build 3
    (World.start Unit ())).get isSome_empty).2

theorem isSome_tagged : (Run.pinned quotationApp.pins (Move.runAll
    ((Program.behaviour silence).host 9 9) quotationApp (writes tagged)) plainWorld).isSome =
      true := by
  decide +kernel

theorem isSome_commented : (Run.pinned quotationApp.pins (Move.runAll
    ((Program.behaviour silence).host 9 9) quotationApp (writes commented)) emptyWorld).isSome =
      true := by
  decide +kernel

/-- The world in which tags are shown. -/
def taggedWorld : ClientWorld Unit Unit :=
  ((Run.pinned quotationApp.pins (Move.runAll ((Program.behaviour silence).host 9 9) quotationApp
    (writes tagged)) plainWorld).get isSome_tagged).2

/-- The world in which the end of a comment is shown. -/
def commentedWorld : ClientWorld Unit Unit :=
  ((Run.pinned quotationApp.pins (Move.runAll ((Program.behaviour silence).host 9 9) quotationApp
    (writes commented)) emptyWorld).get isSome_commented).2

/-- What is in the view when tags are shown. -/
def taggedTree : Tree :=
  .element "p" [] [.comment "a", .text "</b><i>",
    .element "b" [("v-text", "word")] [.text "</b><i>"],
    .element "br" [("v-text", "word")] [.text "</b><i>"]]

theorem tree?_tagged : taggedWorld.tree? quotationApp.root = some taggedTree := by
  decide +kernel

theorem skeleton_of_writes_quotation :
    quotation.IsTextual quotationTree ∧
      ({ quotation with data := some (wording "plain") } : Blueprint (Code Unit)).build 3
        (World.start Unit ()) = some (.ok quotationApp, plainWorld) ∧
      ({ quotation with data := some (wording "") } : Blueprint (Code Unit)).build 3
        (World.start Unit ()) = some (.ok quotationApp, emptyWorld) ∧
      Run.pinned quotationApp.pins (Move.runAll ((Program.behaviour silence).host 9 9)
        quotationApp (writes tagged)) plainWorld = some ((), taggedWorld) ∧
      Run.pinned quotationApp.pins (Move.runAll ((Program.behaviour silence).host 9 9)
        quotationApp (writes commented)) emptyWorld = some ((), commentedWorld) ∧
      taggedWorld.Describes .standard quotationApp.root quotationElements ∧
      commentedWorld.Describes .standard quotationApp.root quotationElements := by
  have hplain : ({ quotation with data := some (wording "plain") } : Blueprint (Code Unit)).build 3
      (World.start Unit ()) = some (.ok quotationApp, plainWorld) :=
    Run.eq_some_of_fst isSome_plain (by decide +kernel)
  have hempty : ({ quotation with data := some (wording "") } : Blueprint (Code Unit)).build 3
      (World.start Unit ()) = some (.ok quotationApp, emptyWorld) :=
    Run.eq_some_of_fst isSome_empty (by decide +kernel)
  have htagged : Run.pinned quotationApp.pins (Move.runAll ((Program.behaviour silence).host 9 9)
      quotationApp (writes tagged)) plainWorld = some ((), taggedWorld) :=
    Program.eq_some_get isSome_tagged
  have hcommented : Run.pinned quotationApp.pins (Move.runAll
      ((Program.behaviour silence).host 9 9) quotationApp (writes commented)) emptyWorld =
        some ((), commentedWorld) :=
    Program.eq_some_get isSome_commented
  rcases skeleton_of_writes silence 9 9 faithful_standard isTextual_quotation hplain hempty tagged
    commented with ⟨w, w', elements, hrun, hrun', hw, hw'⟩
  rw [htagged, Option.some.injEq, Prod.mk.injEq] at hrun
  rw [hcommented, Option.some.injEq, Prod.mk.injEq] at hrun'
  rw [← hrun.2] at hw
  rw [← hrun'.2] at hw'
  obtain rfl : quotationElements = elements := by
    rcases hw with ⟨live, _, _, htree, hskeleton, _⟩
    rw [tree?_tagged, Option.some.injEq] at htree
    rw [← hskeleton, ← htree]
    rfl
  exact ⟨isTextual_quotation, hplain, hempty, htagged, hcommented, hw, hw'⟩

end LiveTemplate
