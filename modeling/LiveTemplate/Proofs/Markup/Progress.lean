import LiveTemplate.Markup.Fragment
import LiveTemplate.Proofs.Markup.Scanning
import Mathlib.Data.List.Infix
import Mathlib.Data.String.Basic

/-!
# Progress of Reading

Reading moves forward, at each step and by whole characters.

The recursions of `tokens` and `scanAttributes` end because what is left gets shorter. That
says nothing about where in the markup reading stands, and it does not count the attributes,
which are read by a loop inside the loop over the tokens. Here both loops are one machine, the
`Reader`, whose step reads a token or goes once round the attribute loop. Its position is a
`String.Pos` of the markup: a byte offset at a character boundary, at most the size of the
markup.

What a step leaves is a suffix of what it found, hence stands at a position again
(`exists_following`). A step is strict with one exception: the round that ends a tag takes
nothing if the markup is over. The name that opened the tag pays for this round, being at
least one character behind the `<`, so that `Reader.work` falls at each step, and the number of
steps is bounded by the number of bytes.

## Main definitions

* `following`: The markup from a position on.
* `attributeRound`: Once round the attribute loop of an opening tag.
* `Reader`, `Reader.step`: The reading machine.
* `Reader.pending`: The tokens that are still to come.
* `Reader.work`: A bound for the steps that are still to come.

## Theorems

* `exists_following`: A suffix of the markup stands at a position.
* `scan?_suffix`: What a token leaves.
* `scanAttributes_eq_round`: The attributes of a tag are read round by round.
* `Reader.pending_of_step`, `Reader.work_of_step`: What one step keeps, and what it takes.
* `reading_advances`: Reading moves forward until the end of the markup.
-/

namespace LiveTemplate

namespace Markup

open Text

/-! ### Positions -/

/-- The markup from a position on. -/
def following {source : String} (p : source.Pos) : List Char :=
  (source.sliceFrom p).copy.toList

theorem following_startPos (source : String) : following source.startPos = source.toList := by
  rw [following, source.splits_startPos.copy_sliceFrom_eq]

theorem following_eq_nil_iff {source : String} {p : source.Pos} :
    following p = [] ↔ p = source.endPos := by
  rw [following, p.splits.eq_endPos_iff, String.toList_eq_nil_iff]

/-- A suffix of what follows a position follows one that is not before it. -/
theorem exists_following {source : String} {p : source.Pos} {s : List Char}
    (h : s <:+ following p) : ∃ q, p ≤ q ∧ s = following q := by
  obtain ⟨passed, hpassed⟩ := h
  have hsplit : (source.sliceFrom p).copy = String.ofList passed ++ String.ofList s := by
    rw [← String.ofList_append, hpassed, following, String.ofList_toList]
  have hp := p.splits
  rw [hsplit] at hp
  have hq := hp.splits_rotateRight
  refine ⟨hp.rotateRight, ?_, ?_⟩
  · exact (hp.le_iff_exists_eq_append hq).mpr ⟨_, rfl, rfl⟩
  · rw [following, hq.copy_sliceFrom_eq, String.toList_ofList]

/-- A position with less behind it is further on. -/
theorem lt_of_length_following {source : String} {p q : source.Pos} (hle : p ≤ q)
    (h : (following q).length < (following p).length) : p < q := by
  apply String.Pos.lt_of_le_of_ne hle
  rintro rfl
  exact Nat.lt_irrefl _ h

/-- A text has at least as many bytes as characters. -/
theorem length_toList_le (source : String) : source.toList.length ≤ source.utf8ByteSize := by
  have hchars : ∀ cs : List Char, cs.length ≤ String.utf8Len cs := by
    intro cs
    induction cs with
    | nil => exact Nat.zero_le _
    | cons c cs ih =>
        have := c.utf8Size_pos
        simp
        omega
  rw [← String.ofList_toList (s := source), String.utf8ByteSize_ofList, String.toList_ofList]
  exact hchars _

/-! ### What the parts of a tag leave -/

theorem skipBlanks_suffix (s : List Char) : skipBlanks s <:+ s :=
  List.dropWhile_suffix isBlank

theorem scanQuoted_suffix (quote : Char) (s : List Char) : (scanQuoted quote s).2 <:+ s :=
  (List.drop_suffix 1 _).trans (List.dropWhile_suffix _)

theorem scanValue_suffix (s : List Char) : (scanValue s).2 <:+ s := by
  unfold scanValue
  split
  · exact (scanQuoted_suffix _ _).trans (List.suffix_cons _ _)
  · exact (scanQuoted_suffix _ _).trans (List.suffix_cons _ _)
  · exact List.dropWhile_suffix _

theorem scanName_suffix (c : Char) (cs : List Char) : (scanName c cs).2 <:+ cs := by
  unfold scanName
  split
  · exact List.suffix_refl _
  · exact List.dropWhile_suffix _

theorem scanAssigned_suffix (s : List Char) : (scanAssigned s).2 <:+ s := by
  have hskip := skipBlanks_suffix s
  unfold scanAssigned
  split
  · next rest h =>
      rw [h] at hskip
      calc (scanValue (skipBlanks rest)).2
        _ <:+ skipBlanks rest := scanValue_suffix _
        _ <:+ rest := skipBlanks_suffix rest
        _ <:+ '=' :: rest := List.suffix_cons _ _
        _ <:+ s := hskip
  · exact hskip

theorem scanAttribute_suffix (c : Char) (cs : List Char) : (scanAttribute c cs).2 <:+ cs :=
  (scanAssigned_suffix _).trans (scanName_suffix c cs)

/-! ### The attribute loop -/

/-- Once round the attribute loop: the attributes found by then, whether the tag ended in `/>`
    if it ended, and what follows. -/
def attributeRound (found : Attributes) (s : List Char) :
    (Attributes × Option Bool) × List Char :=
  match skipBlanks s with
  | [] => ((found, some false), [])
  | '/' :: '>' :: rest => ((found, some true), rest)
  | '>' :: rest => ((found, some false), rest)
  | '/' :: rest => ((found, none), rest)
  | c :: rest =>
    let ((name, value), after) := scanAttribute c rest
    ((found.set name value, none), after)

/-- The attributes of a tag are read round by round. -/
theorem scanAttributes_eq_round (found : Attributes) (s : List Char) :
    scanAttributes found s =
      match attributeRound found s with
      | ((found', some closed), rest) => ((found', closed), rest)
      | ((found', none), rest) => scanAttributes found' rest := by
  rw [scanAttributes]
  unfold attributeRound
  split <;> simp_all

theorem attributeRound_suffix (found : Attributes) (s : List Char) :
    (attributeRound found s).2 <:+ s := by
  have hskip := skipBlanks_suffix s
  unfold attributeRound
  split
  · exact List.nil_suffix
  · next rest h =>
      rw [h] at hskip
      exact (List.suffix_append ['/', '>'] rest).trans hskip
  · next rest h =>
      rw [h] at hskip
      exact (List.suffix_cons '>' rest).trans hskip
  · next rest _ h =>
      rw [h] at hskip
      exact (List.suffix_cons '/' rest).trans hskip
  · next c rest _ _ _ h =>
      rw [h] at hskip
      exact ((scanAttribute_suffix c rest).trans (List.suffix_cons c rest)).trans hskip

/-- A round that does not end the tag takes something, be it a `/` or an attribute. -/
theorem length_attributeRound_lt (found : Attributes) (s : List Char) :
    (attributeRound found s).1.2 = none → (attributeRound found s).2.length < s.length := by
  have hskip := length_skipBlanks_le s
  unfold attributeRound
  split
  · simp
  · simp
  · simp
  · next rest _ h =>
      intro _
      simp only [h, List.length_cons] at hskip
      exact hskip
  · next c rest _ _ _ h =>
      intro _
      rw [h] at hskip
      exact Nat.lt_of_lt_of_le (length_scanAttribute_lt c rest) hskip

/-! ### What a token leaves -/

theorem scanAttributes_suffix (found : Attributes) (s : List Char) :
    (scanAttributes found s).2 <:+ s := by
  have hround := attributeRound_suffix found s
  have hlt := length_attributeRound_lt found s
  rw [scanAttributes_eq_round]
  split
  · next h =>
      rw [h] at hround
      exact hround
  · next found' rest h =>
      rw [h] at hround hlt
      have : rest.length < s.length := hlt rfl
      exact (scanAttributes_suffix found' rest).trans hround
termination_by s.length

theorem scanText_suffix (s : List Char) : (scanText s).2 <:+ s := by
  induction s with
  | nil => exact List.suffix_refl _
  | cons c cs ih =>
      rw [scanText]
      split
      · exact List.suffix_refl _
      · exact ih.trans (List.suffix_cons c cs)

theorem scanComment_suffix (s : List Char) : (scanComment s).2 <:+ s := by
  unfold scanComment
  cases h : cutAt? "-->".toList s with
  | none => exact List.nil_suffix
  | some parts => exact ⟨_, append_of_cutAt? h⟩

theorem scanClosing_suffix (s : List Char) : (scanClosing s).2 <:+ s :=
  (List.drop_suffix 1 _).trans (List.dropWhile_suffix _)

theorem scanOpening_suffix (s : List Char) : (scanOpening s).2 <:+ s :=
  (scanAttributes_suffix [] _).trans (List.dropWhile_suffix isTagChar)

theorem scanTag_suffix (s : List Char) : (scanTag s).2 <:+ s := by
  unfold scanTag
  split
  · next rest => exact (scanComment_suffix rest).trans (List.suffix_append ['!', '-', '-'] rest)
  · next rest => exact (scanClosing_suffix rest).trans (List.suffix_cons '/' rest)
  · exact scanOpening_suffix s

/-- What a token leaves is the end of what it was read from. -/
theorem scan?_suffix {s rest : List Char} {token : Token} (h : scan? s = some (token, rest)) :
    rest <:+ s := by
  cases s with
  | nil => cases h
  | cons c cs =>
      refine List.IsSuffix.trans ?_ (List.suffix_cons c cs)
      simp only [scan?] at h
      split at h
      · have := scanTag_suffix cs
        rw [Option.some.inj h] at this
        exact this
      · injection h with h
        injection h with _ h
        exact h ▸ scanText_suffix cs

/-- There is a token everywhere but at the end. -/
theorem scan?_eq_none_iff {s : List Char} : scan? s = none ↔ s = [] := by
  cases s with
  | nil => simp [scan?]
  | cons c cs =>
      simp only [scan?, reduceCtorEq, iff_false]
      split <;> simp

/-! ### The reading machine -/

/-- An opening tag begins here. -/
def startsOpening : List Char → Bool
  | '<' :: c :: _ => c.isAlpha
  | _ => false

theorem scan?_of_startsOpening {s : List Char} (h : startsOpening s = true) :
    scan? s = some (scanOpening s.tail) := by
  unfold startsOpening at h
  split at h
  · next c cs =>
      have hstarts := startsTag_of_isAlpha h cs
      rw [scan?, if_pos hstarts.1, hstarts.2, List.tail_cons]
  · cases h

/-- The `<` of an opening tag has a character of the name behind it. -/
theorem length_of_startsOpening {s : List Char} (h : startsOpening s = true) :
    (s.tail.dropWhile isTagChar).length + 2 ≤ s.length := by
  unfold startsOpening at h
  split at h
  · next c cs =>
      have hc : isTagChar c = true := by simp [isTagChar, Char.isAlphanum, h]
      have := (List.dropWhile_suffix (l := cs) isTagChar).length_le
      simp only [List.tail_cons, List.dropWhile_cons_of_pos hc, List.length_cons]
      omega
  · cases h

/-- How far reading has come. -/
structure Reader where
  /-- The opening tag whose attributes are being read, with the ones found so far. -/
  inside : Option (String × Attributes) := none
  /-- What is left of the markup. -/
  rest : List Char
  /-- The tokens read so far, last one first. -/
  read : List Token := []

namespace Reader

/-- Nothing has been read. -/
def start (source : String) : Reader :=
  { rest := source.toList }

/-- One step. Inside an opening tag this is a round of the attribute loop, elsewhere it is a
    token, or the name of an opening tag. Reading ends between two tokens. -/
def step (r : Reader) : Option Reader :=
  match r.inside with
  | some (tag, found) =>
    match attributeRound found r.rest with
    | ((found, none), rest) => some { r with inside := some (tag, found), rest }
    | ((found, some closed), rest) => some ⟨none, rest, .opening tag found closed :: r.read⟩
  | none =>
    if startsOpening r.rest then
      let name := r.rest.tail
      some { r with
        inside := some (tagName (name.takeWhile isTagChar), [])
        rest := name.dropWhile isTagChar }
    else
      (scan? r.rest).map fun (token, rest) => ⟨none, rest, token :: r.read⟩

/-- So many steps. -/
def run : Nat → Reader → Option Reader
  | 0, r => some r
  | k + 1, r => r.step.bind (run k)

/-- The tokens that are still to come. -/
def pending (r : Reader) : List Token :=
  match r.inside with
  | none => tokens r.rest
  | some (tag, found) =>
    let ((attributes, closed), rest) := scanAttributes found r.rest
    .opening tag attributes closed :: tokens rest

/-- A bound for the steps that are still to come. The end of a tag counts apart, as it may come
    with the end of the markup. -/
def work (r : Reader) : Nat :=
  r.rest.length + if r.inside.isSome then 1 else 0

/-- What a step can be. -/
inductive Moves : Reader → Reader → Prop
  /-- A token as a whole. -/
  | token {s s' : List Char} {read : List Token} {t : Token} (h : scan? s = some (t, s')) :
      Moves ⟨none, s, read⟩ ⟨none, s', t :: read⟩
  /-- The name of an opening tag. -/
  | opening {s : List Char} {read : List Token} (h : startsOpening s = true) :
      Moves ⟨none, s, read⟩
        ⟨some (tagName (s.tail.takeWhile isTagChar), []), s.tail.dropWhile isTagChar, read⟩
  /-- A round of the attribute loop that another one follows. -/
  | round {s s' : List Char} {read : List Token} {tag : String} {found found' : Attributes}
      (h : attributeRound found s = ((found', none), s')) :
      Moves ⟨some (tag, found), s, read⟩ ⟨some (tag, found'), s', read⟩
  /-- The round that ends the tag. -/
  | ending {s s' : List Char} {read : List Token} {tag : String} {found found' : Attributes}
      {closed : Bool} (h : attributeRound found s = ((found', some closed), s')) :
      Moves ⟨some (tag, found), s, read⟩ ⟨none, s', .opening tag found' closed :: read⟩

theorem moves_of_step {r r' : Reader} (h : r.step = some r') : Moves r r' := by
  rcases r with ⟨inside, s, read⟩
  cases inside with
  | some tagged =>
      rcases tagged with ⟨tag, found⟩
      simp only [step] at h
      split at h
      · next hround =>
          cases h
          exact .round hround
      · next hround =>
          cases h
          exact .ending hround
  | none =>
      simp only [step] at h
      split at h
      · next hopening =>
          cases h
          exact .opening hopening
      · rw [Option.map_eq_some_iff] at h
        obtain ⟨⟨token, rest⟩, hscan, rfl⟩ := h
        exact .token hscan

/-- Reading ends between two tokens at the end of the markup, and only there. -/
theorem step_eq_none_iff {r : Reader} : r.step = none ↔ r.inside = none ∧ r.rest = [] := by
  rcases r with ⟨inside, s, read⟩
  cases inside with
  | some tagged =>
      -- The attribute loop goes round at the end of the markup too, and ends the tag there.
      simp only [step, reduceCtorEq, false_and, iff_false]
      split <;> simp
  | none =>
      simp only [step, true_and]
      split
      · next hopening =>
          -- What starts a tag is not empty.
          have : s ≠ [] := by
            rintro rfl
            cases hopening
          simpa using this
      · rw [Option.map_eq_none_iff, scan?_eq_none_iff]

/-- A step takes from the front of the markup. -/
theorem Moves.suffix {r r' : Reader} (h : Moves r r') : r'.rest <:+ r.rest := by
  cases h with
  | token h => exact scan?_suffix h
  | opening h => exact (List.dropWhile_suffix _).trans (List.tail_suffix _)
  | @round s _ _ _ found _ h =>
      have := attributeRound_suffix found s
      rw [h] at this
      exact this
  | @ending s _ _ _ found _ _ h =>
      have := attributeRound_suffix found s
      rw [h] at this
      exact this

/-- A step takes something, unless it ends a tag. -/
theorem Moves.length_lt {r r' : Reader} (h : Moves r r') :
    r'.rest.length < r.rest.length ∨ r.inside ≠ none ∧ r'.inside = none := by
  cases h with
  | token h => exact .inl (length_scan?_lt h)
  | opening h =>
      have := length_of_startsOpening h
      simp only
      omega
  | @round s _ _ _ found _ h =>
      have := length_attributeRound_lt found s
      rw [h] at this
      exact .inl (this rfl)
  | ending h => simp

/-- A step does work. What follows a tag's name has lost the `<` as well as the name, hence
    there is something left for the end of the tag. -/
theorem Moves.work_lt {r r' : Reader} (h : Moves r r') : r'.work < r.work := by
  have hle := h.suffix.length_le
  have hlt := h.length_lt
  cases h with
  | token h => simpa [work] using hlt
  | opening h =>
      have := length_of_startsOpening h
      simp [work]
      omega
  | round h => simpa [work] using hlt
  | ending h =>
      simp [work] at hle ⊢
      omega

/-- What has been read and what is still to come make up the same tokens all the time. -/
theorem Moves.pending_eq {r r' : Reader} (h : Moves r r') :
    r'.read.reverse ++ r'.pending = r.read.reverse ++ r.pending := by
  cases h with
  | token h => simp [pending, tokens_of_scan? h]
  | opening h => simp [pending, tokens_of_scan? (scan?_of_startsOpening h)]
  | @round s _ _ _ found _ h => simp [pending, scanAttributes_eq_round found s, h]
  | @ending s _ _ _ found _ _ h => simp [pending, scanAttributes_eq_round found s, h]

/-- Reading comes to an end before its work is used up. -/
theorem exists_run (r : Reader) : ∃ k ≤ r.work, ∃ last, r.run k = some last ∧
    last.step = none ∧ last.read.reverse = r.read.reverse ++ r.pending := by
  cases hstep : r.step with
  | none =>
      have hend := step_eq_none_iff.mp hstep
      exact ⟨0, Nat.zero_le _, r, rfl, hstep, by simp [pending, hend, tokens_nil]⟩
  | some r' =>
      have hmoves := moves_of_step hstep
      have hlt := hmoves.work_lt
      obtain ⟨k, hk, last, hrun, hlast, hread⟩ := exists_run r'
      refine ⟨k + 1, by omega, last, ?_, hlast, hread.trans hmoves.pending_eq⟩
      rw [run, hstep, Option.bind_some, hrun]
termination_by r.work

end Reader

/-! ### Reading moves forward -/

/-- Reading moves forward until the end of the markup. At each position but the last one, the
    token that is read there ends at a later position. Each step of the two loops, wherever it
    starts, ends at a position that is not earlier, and at a later one unless it ends a tag;
    there is a step everywhere but between two tokens at the end. So reading a markup from its
    start comes to an end, in at most as many steps as the markup has bytes, with the tokens that
    make up what is parsed. -/
theorem reading_advances (source : String) :
    (∀ p : source.Pos, p ≠ source.endPos →
      ∃ token q, p < q ∧ scan? (following p) = some (token, following q)) ∧
    (∀ (r : Reader) (p : source.Pos), r.rest = following p →
      (r.step = none ↔ r.inside = none ∧ p = source.endPos) ∧
      ∀ r', r.step = some r' → ∃ q, p ≤ q ∧ r'.rest = following q ∧
        (p < q ∨ r.inside ≠ none ∧ r'.inside = none)) ∧
    (Reader.start source).rest = following source.startPos ∧
    ∃ k ≤ source.utf8ByteSize, ∃ last, (Reader.start source).run k = some last ∧
      last.step = none ∧ last.read.reverse = tokens source.toList ∧
      parse source = (last.read.reverse.foldl Nesting.add {}).forest := by
  refine ⟨?_, ?_, (following_startPos source).symm, ?_⟩
  · intro p hp
    cases hscan : scan? (following p) with
    | none => exact absurd (following_eq_nil_iff.mp (scan?_eq_none_iff.mp hscan)) hp
    | some found =>
        rcases found with ⟨token, rest⟩
        obtain ⟨q, hle, rfl⟩ := exists_following (scan?_suffix hscan)
        exact ⟨token, q, lt_of_length_following hle (length_scan?_lt hscan), rfl⟩
  · intro r p hr
    refine ⟨?_, ?_⟩
    · rw [Reader.step_eq_none_iff, hr, following_eq_nil_iff]
    · intro r' hstep
      have hmoves := Reader.moves_of_step hstep
      have hlt := hmoves.length_lt
      have hsuffix := hmoves.suffix
      rw [hr] at hsuffix hlt
      obtain ⟨q, hle, hq⟩ := exists_following hsuffix
      rw [hq] at hlt
      exact ⟨q, hle, hq, hlt.imp_left (lt_of_length_following hle)⟩
  · obtain ⟨k, hk, last, hrun, hlast, hread⟩ := (Reader.start source).exists_run
    have htokens : last.read.reverse = tokens source.toList := hread
    refine ⟨k, ?_, last, hrun, hlast, htokens, ?_⟩
    · exact Nat.le_trans hk (length_toList_le source)
    · rw [htokens]
      rfl

end Markup

end LiveTemplate
