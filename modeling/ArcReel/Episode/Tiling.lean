import ArcReel.Episode.Planner

/-! Stretches of text that cover the sources in order, and the part of the planner
that cuts them. -/

namespace ArcReel.Episode
open ArcReel.Lib

/-- The text `[start, stop)` of a source. -/
structure Span where
  rel : String
  start : Nat
  stop : Nat
  deriving DecidableEq, Repr

section Tiles

variable (sources : Sources)

/-- Planning goes on at an offset of a source after a position: at the position itself, or at
the start of a later source if everything between is blank. The first offset is the start of
the first source that is not blank. -/
def Continues : Option (String × Nat) → String → Nat → Prop
  | none, rel, start =>
      start = 0 ∧ ∃ before doc after, sources.docs = before ++ doc :: after ∧ doc.relPath = rel ∧
        (∀ other ∈ before, PyText.isBlank other.text = true) ∧ PyText.isBlank doc.text = false
  | some (prevRel, prevEnd), rel, start =>
      (rel = prevRel ∧ start = prevEnd) ∨
      (start = 0 ∧ ∃ before old between doc after,
        sources.docs = before ++ old :: (between ++ doc :: after) ∧ old.relPath = prevRel ∧
        doc.relPath = rel ∧ PyText.isBlank (old.text.drop prevEnd) = true ∧
        ∀ other ∈ between, PyText.isBlank other.text = true)

/-- The span is not empty and inside its source. -/
def Span.Inside (span : Span) : Prop :=
  span.start < span.stop ∧ ∃ doc ∈ sources.docs, doc.relPath = span.rel ∧
    span.stop ≤ doc.text.length

/-- The position after the spans. -/
def endOf (prev : Option (String × Nat)) (spans : List Span) : Option (String × Nat) :=
  (spans.getLast?.map fun span => (span.rel, span.stop)).or prev

def Tiles : Option (String × Nat) → List Span → Prop
  | _, [] => True
  | prev, span :: later =>
      Continues sources prev span.rel span.start ∧ span.Inside sources ∧
        Tiles (some (span.rel, span.stop)) later

variable {sources}

@[simp] theorem endOf_nil (prev : Option (String × Nat)) : endOf prev [] = prev := rfl

theorem endOf_cons (prev : Option (String × Nat)) (span : Span) (later : List Span) :
    endOf prev (span :: later) = endOf (some (span.rel, span.stop)) later := by
  unfold endOf
  cases later with
  | nil => rfl
  | cons next later => rfl

theorem tiles_append (prev : Option (String × Nat)) (first second : List Span) :
    Tiles sources prev (first ++ second) ↔
      Tiles sources prev first ∧ Tiles sources (endOf prev first) second := by
  induction first generalizing prev with
  | nil => simp [Tiles]
  | cons span first ih =>
    simp only [List.cons_append, Tiles, ih, endOf_cons, and_assoc]

theorem endOf_append (prev : Option (String × Nat)) (first second : List Span) :
    endOf prev (first ++ second) = endOf (endOf prev first) second := by
  induction first generalizing prev with
  | nil => rfl
  | cons span first ih => rw [List.cons_append, endOf_cons, endOf_cons, ih]

theorem tiles_take {prev : Option (String × Nat)} {spans : List Span}
    (tiles : Tiles sources prev spans) (count : Nat) : Tiles sources prev (spans.take count) := by
  rw [← List.take_append_drop count spans, tiles_append] at tiles
  exact tiles.1

end Tiles

/-! The candidates are told apart by their paths. -/

theorem split_unique {docs before before' after after' : List SourceDoc} {doc doc' : SourceDoc}
    (distinct : (docs.map SourceDoc.relPath).Nodup) (first : docs = before ++ doc :: after)
    (second : docs = before' ++ doc' :: after') (same : doc.relPath = doc'.relPath) :
    before = before' ∧ doc = doc' ∧ after = after' := by
  induction before generalizing docs before' with
  | nil =>
    cases before' with
    | nil =>
      rw [first] at second
      have parts := List.cons.inj second
      exact ⟨rfl, parts.1, parts.2⟩
    | cons head before' =>
      rw [first] at second
      have parts := List.cons.inj second
      rw [first, List.nil_append, List.map_cons, List.nodup_cons] at distinct
      apply absurd _ distinct.1
      rw [same]
      have later : after = before' ++ doc' :: after' := parts.2
      rw [later]
      exact List.mem_map_of_mem (List.mem_append.mpr (.inr (.head _)))
  | cons head before ih =>
    cases before' with
    | nil =>
      rw [second] at first
      have parts := List.cons.inj first
      rw [second, List.nil_append, List.map_cons, List.nodup_cons] at distinct
      apply absurd _ distinct.1
      rw [← same]
      have later : after' = before ++ doc :: after := parts.2
      rw [later]
      exact List.mem_map_of_mem (List.mem_append.mpr (.inr (.head _)))
    | cons head' before' =>
      subst first
      have parts := List.cons.inj second
      rw [List.cons_append, List.map_cons, List.nodup_cons] at distinct
      have deeper := ih distinct.2 rfl parts.2
      exact ⟨by rw [parts.1, deeper.1], deeper.2⟩

theorem sourcesFrom_eq_cons {rel : String} {docs later : List SourceDoc} {doc : SourceDoc}
    (found : sourcesFrom rel docs = doc :: later) :
    doc.relPath = rel ∧ ∃ before, docs = before ++ doc :: later := by
  induction docs with
  | nil => cases found
  | cons head docs ih =>
    simp only [sourcesFrom] at found
    split_ifs at found with here
    · have parts := List.cons.inj found
      rw [← parts.1, ← parts.2]
      exact ⟨here, [], rfl⟩
    · obtain ⟨named, before, split⟩ := ih found
      exact ⟨named, head :: before, by rw [split]; rfl⟩

theorem sourcesFrom_of_mem {rel : String} {docs : List SourceDoc} {doc : SourceDoc}
    (member : doc ∈ docs) (named : doc.relPath = rel) : sourcesFrom rel docs ≠ [] := by
  induction docs with
  | nil => cases member
  | cons head docs ih =>
    simp only [sourcesFrom]
    split_ifs with here
    · exact List.cons_ne_nil head docs
    · cases List.mem_cons.mp member with
      | inl same => exact absurd (same ▸ named) here
      | inr later => exact ih later

/-! The cuts of a window ascend. -/

section Boundaries

variable {rt : Runtime} {window : List Char}

/-- The numbers rise from the first bound to the last one, which they reach. -/
def Ascends : Nat → List Nat → Nat → Prop
  | lo, [], hi => lo = hi
  | lo, n :: later, hi => lo < n ∧ Ascends n later hi

theorem ascends_snoc {lo mid n : Nat} {ends : List Nat} (ascends : Ascends lo ends mid)
    (further : mid < n) : Ascends lo (ends ++ [n]) n := by
  induction ends generalizing lo with
  | nil =>
    have same : lo = mid := ascends
    exact ⟨by omega, rfl⟩
  | cons head ends ih => exact ⟨ascends.1, ih ascends.2⟩

theorem ascends_le {lo hi : Nat} {ends : List Nat} (ascends : Ascends lo ends hi) : lo ≤ hi := by
  induction ends generalizing lo with
  | nil => exact le_of_eq ascends
  | cons head ends ih =>
    have deeper := ih ascends.2
    have first := ascends.1
    omega

theorem ascends_getLast {lo hi last : Nat} {ends : List Nat} (ascends : Ascends lo ends hi)
    (found : ends.getLast? = some last) : last = hi := by
  induction ends generalizing lo with
  | nil => cases found
  | cons head ends ih =>
    cases ends with
    | nil => exact (Option.some.inj found).symm.trans ascends.2
    | cons next ends => exact ih ascends.2 found

theorem ascends_extend {lo hi further : Nat} {ends : List Nat} (ascends : Ascends lo ends hi)
    (some_ : ends ≠ []) (more : hi ≤ further) : Ascends lo (ends.dropLast ++ [further]) further := by
  induction ends generalizing lo with
  | nil => exact absurd rfl some_
  | cons head ends ih =>
    cases ends with
    | nil =>
      have first := ascends.1
      have last : head = hi := ascends.2
      exact ⟨by omega, rfl⟩
    | cons next ends => exact ⟨ascends.1, ih ascends.2 (List.cons_ne_nil next ends)⟩

theorem length_foldForMatch (text : List Char) : (foldForMatch text).length = text.length := by
  simp [foldForMatch]

theorem findAll_fits {haystack needle : List Char} {k : Nat}
    (found : k ∈ findAllOverlapping haystack needle) : k + needle.length ≤ haystack.length := by
  unfold findAllOverlapping at found
  split_ifs at found
  · cases found
  · have fits := PyText.occurrence_fits found
    omega

theorem locateAnchor_fits {anchor : List Char} {starts : List Nat} {length k : Nat} {folded : Bool}
    (located : locateAnchor rt window anchor = (starts, length, folded)) (found : k ∈ starts) :
    k + length ≤ window.length := by
  unfold locateAnchor at located
  cases exact_ : findAllOverlapping window anchor with
  | nil =>
    simp only [exact_, Prod.mk.injEq] at located
    obtain ⟨here, measured, -⟩ := located
    rw [← here] at found
    have fits := findAll_fits found
    rw [length_foldForMatch, length_foldForMatch, measured] at fits
    exact fits
  | cons head tail =>
    simp only [exact_, Prod.mk.injEq] at located
    obtain ⟨here, measured, -⟩ := located
    rw [← here, ← exact_] at found
    have fits := findAll_fits found
    rwa [measured] at fits

/-- What a scan without a reason has found. -/
structure Cut (window : List Char) (count : Nat) (scan : BoundaryScan) : Prop where
  ordered : scan.orderingValid = true
  ascends : Ascends 0 scan.ends scan.pos
  fits : scan.pos ≤ window.length
  length : scan.ends.length = count

theorem reject_reasons (scan : BoundaryScan) (reason : RejectReason) :
    (scan.reject reason).reasons ≠ [] := by
  simp [BoundaryScan.reject]

theorem scanDraft_cut {scan : BoundaryScan} {idx count : Nat} {draft : EpisodeDraft}
    (before : scan.reasons = [] → Cut window count scan)
    (clean : (scanDraft rt window scan idx draft).reasons = []) :
    Cut window (count + 1) (scanDraft rt window scan idx draft) := by
  unfold scanDraft at clean ⊢
  simp only at clean ⊢
  cases located : locateAnchor rt window draft.endAnchor with
  | mk starts rest =>
    obtain ⟨length, folded⟩ := rest
    simp only [located] at clean ⊢
    cases starts with
    | nil => exact absurd clean (reject_reasons scan _)
    | cons start others =>
      cases others with
      | cons second others => exact absurd clean (reject_reasons scan _)
      | nil =>
        simp only at clean ⊢
        split_ifs at clean ⊢ with behind
        · exact absurd clean (reject_reasons scan _)
        · have cut := before clean
          have fits := locateAnchor_fits located (.head _)
          rw [cut.ordered, Bool.true_and, decide_eq_true_eq, not_le] at behind
          exact ⟨cut.ordered, ascends_snoc cut.ascends behind, fits, by simp [cut.length]⟩

theorem scanDrafts_cut (drafts : List EpisodeDraft) :
    ∀ {scan : BoundaryScan} {idx count : Nat}, (scan.reasons = [] → Cut window count scan) →
      (scanDrafts rt window drafts idx scan).reasons = [] →
        Cut window (count + drafts.length) (scanDrafts rt window drafts idx scan) := by
  induction drafts with
  | nil => exact fun before clean => before clean
  | cons draft later ih =>
    intro scan idx count before clean
    have deeper := ih (fun here => scanDraft_cut before here) clean
    rw [List.length_cons, Nat.add_comm later.length 1, ← Nat.add_assoc]
    exact deeper

theorem snapTail_cut (snap : Bool) {ends : List Nat} {pos : Nat} (ascends : Ascends 0 ends pos)
    (fits : pos ≤ window.length) :
    ∃ last, Ascends 0 (snapTail window snap ends) last ∧ last ≤ window.length ∧
      (snapTail window snap ends).length = ends.length := by
  unfold snapTail
  cases found : ends.getLast? with
  | none => exact ⟨pos, ascends, fits, rfl⟩
  | some last =>
    have some_ : ends ≠ [] := by
      intro none_
      rw [none_] at found
      cases found
    have positive := List.length_pos_iff.mpr some_
    simp only
    split_ifs
    · refine ⟨window.length, ascends_extend ascends some_ fits, le_refl _, ?_⟩
      simp only [List.length_append, List.length_dropLast, List.length_singleton]
      omega
    · exact ⟨pos, ascends, fits, rfl⟩

/-- The ends of accepted drafts: one for each draft, rising inside the window. -/
theorem resolveBoundaries_spec {drafts : List EpisodeDraft} {snap : Bool} {ends : List Nat}
    (accepted : resolveBoundaries rt window drafts snap = .ok ends) :
    ends.length = drafts.length ∧ ∃ last, Ascends 0 ends last ∧ last ≤ window.length := by
  unfold resolveBoundaries at accepted
  simp only at accepted
  split_ifs at accepted with clean
  have cut : Cut window (0 + drafts.length) (scanDrafts rt window drafts 1 .start) :=
    scanDrafts_cut drafts (fun _ => ⟨rfl, rfl, Nat.zero_le _, rfl⟩) (List.isEmpty_iff.mp clean)
  obtain ⟨last, ascends, fits, length⟩ := snapTail_cut snap cut.ascends cut.fits
  rw [← Except.ok.inj accepted]
  refine ⟨?_, last, ascends, fits⟩
  rw [length, cut.length]
  omega

theorem requestValidatedDrafts_spec {snap : Bool} {maxEpisodes : Nat} {drafts : List EpisodeDraft}
    {ends : List Nat} (positive : 0 < maxEpisodes) (attempts : Nat) :
    ∀ answers, requestValidatedDrafts rt window snap maxEpisodes attempts answers =
      .ok (drafts, ends) →
        drafts ≠ [] ∧ ends.length = drafts.length ∧
          ∃ last, Ascends 0 ends last ∧ last ≤ window.length := by
  induction attempts with
  | zero =>
    intro answers accepted
    cases accepted
  | succ attempts ih =>
    intro answers accepted
    cases answers with
    | nil => cases accepted
    | cons answer later =>
      cases answer with
      | none => exact ih later accepted
      | some offered =>
        simp only [requestValidatedDrafts] at accepted
        split_ifs at accepted with refused
        · exact ih later accepted
        · cases resolved : resolveBoundaries rt window (offered.take maxEpisodes) snap with
          | error reasons =>
            rw [resolved] at accepted
            exact ih later accepted
          | ok found =>
            rw [resolved] at accepted
            have parts := Prod.mk.inj (Except.ok.inj accepted)
            rw [← parts.1, ← parts.2]
            refine ⟨?_, resolveBoundaries_spec resolved⟩
            rw [Bool.or_eq_true, not_or, List.isEmpty_iff] at refused
            intro none_
            cases List.take_eq_nil_iff.mp none_ with
            | inl zero => omega
            | inr empty => exact refused.1 empty

end Boundaries

/-! The start of a batch continues the ledger. -/

section Start

variable {sources : Sources}

theorem firstWithText_spec {rel rel' : String} {text text' : List Char} {start start' : Int}
    (later : List SourceDoc) (found : firstWithText rel text start later = some (rel', start', text')) :
    (rel' = rel ∧ start' = start ∧ text' = text ∧
      PyText.isBlank (PyText.sliceFrom text start) = false) ∨
    (PyText.isBlank (PyText.sliceFrom text start) = true ∧ start' = 0 ∧
      ∃ between doc after, later = between ++ doc :: after ∧
        (∀ other ∈ between, PyText.isBlank other.text = true) ∧
        PyText.isBlank doc.text = false ∧ doc.relPath = rel' ∧ doc.text = text') := by
  induction later generalizing rel text start with
  | nil =>
    simp only [firstWithText] at found
    split_ifs at found with blank
    have parts := Option.some.inj found
    simp only [Prod.mk.injEq] at parts
    exact .inl ⟨parts.1.symm, parts.2.1.symm, parts.2.2.symm, by simpa using blank⟩
  | cons next later ih =>
    simp only [firstWithText] at found
    split_ifs at found with blank
    · right
      cases ih found with
      | inl here =>
        have whole : PyText.sliceFrom next.text 0 = next.text := PyText.sliceFrom_of_nat next.text 0
        rw [whole] at here
        exact ⟨blank, here.2.1, [], next, later, rfl, by simp, here.2.2.2, here.1.symm,
          here.2.2.1.symm⟩
      | inr deeper =>
        have whole : PyText.sliceFrom next.text 0 = next.text := PyText.sliceFrom_of_nat next.text 0
        rw [whole] at deeper
        obtain ⟨empty, zero, between, doc, after, split, blanks, rest⟩ := deeper
        refine ⟨blank, zero, next :: between, doc, after, by rw [split]; rfl, ?_, rest⟩
        intro other member
        cases List.mem_cons.mp member with
        | inl same => rwa [same]
        | inr inside => exact blanks other inside
    · have parts := Option.some.inj found
      simp only [Prod.mk.injEq] at parts
      exact .inl ⟨parts.1.symm, parts.2.1.symm, parts.2.2.symm, by simpa using blank⟩

/-- Where planning starts after a position. -/
def startAfter (sources : Sources) : Option (String × Nat) → Option (String × Nat)
  | none => sources.docs.head?.map fun doc => (doc.relPath, 0)
  | some position => some position

/-- The search of a batch finds a place that continues the position, with its text. -/
theorem firstWithText_continues {prev : Option (String × Nat)} {rel rel' : String}
    {offset : Nat} {text text' : List Char} {start' : Int} {rt : Runtime}
    (begins : startAfter sources prev = some (rel, offset))
    (listed : sourcesFrom rel sources.docs ≠ []) (read : sourceText rt sources rel = .ok text)
    (found : firstWithText rel text offset (sourcesFrom rel sources.docs).tail =
      some (rel', start', text')) :
    ∃ start : Nat, start' = start ∧ Continues sources prev rel' start ∧
      ∃ doc ∈ sources.docs, doc.relPath = rel' ∧ doc.text = text' := by
  cases here : sourcesFrom rel sources.docs with
  | nil => exact absurd here listed
  | cons doc later =>
    obtain ⟨named, before, split⟩ := sourcesFrom_eq_cons here
    have owned : doc.text = text := by
      rw [sourceText, here] at read
      exact Except.ok.inj read
    rw [here, List.tail_cons] at found
    have member : doc ∈ sources.docs := by
      rw [split]
      exact List.mem_append.mpr (.inr (.head _))
    have first : prev = none → before = [] ∧ offset = 0 := by
      intro none_
      rw [none_] at begins
      obtain ⟨head, top, same⟩ := Option.map_eq_some_iff.mp begins
      obtain ⟨rest, whole⟩ := List.head?_eq_some_iff.mp top
      have names := Prod.mk.inj same
      have unique := split_unique sources.distinct split (whole.trans (List.nil_append _).symm)
        (named.trans names.1.symm)
      exact ⟨unique.1, names.2.symm⟩
    have after : ∀ position, prev = some position → position = (rel, offset) := by
      intro position given
      rw [given] at begins
      exact Option.some.inj begins
    cases firstWithText_spec later found with
    | inl same =>
      obtain ⟨sameRel, sameStart, sameText, text_⟩ := same
      refine ⟨offset, sameStart, ?_, doc, member, named.trans sameRel.symm, owned.trans sameText.symm⟩
      cases prev with
      | none =>
        obtain ⟨top, zero⟩ := first rfl
        rw [zero, Int.ofNat_zero] at text_
        have whole : PyText.sliceFrom text 0 = text := PyText.sliceFrom_of_nat text 0
        rw [whole, ← owned] at text_
        exact ⟨zero, before, doc, later, split, named.trans sameRel.symm, by simp [top], text_⟩
      | some position =>
        rw [after position rfl]
        exact .inl ⟨sameRel, rfl⟩
    | inr hopped =>
      obtain ⟨blank, zero, between, next, rest, beyond, blanks, text_, sameRel, sameText⟩ := hopped
      have inside : next ∈ sources.docs := by
        rw [split, beyond]
        simp
      refine ⟨0, zero, ?_, next, inside, sameRel, sameText⟩
      rw [PyText.sliceFrom_of_nat, ← owned] at blank
      cases prev with
      | none =>
        obtain ⟨top, none_⟩ := first rfl
        rw [none_, List.drop_zero] at blank
        refine ⟨rfl, doc :: between, next, rest, ?_, sameRel, ?_, text_⟩
        · rw [split, beyond, top]
          rfl
        · intro other listed
          cases List.mem_cons.mp listed with
          | inl same => rwa [same]
          | inr deeper => exact blanks other deeper
      | some position =>
        rw [after position rfl]
        exact .inr ⟨rfl, before, doc, between, next, rest, by rw [split, beyond], named, sameRel,
          blank, blanks⟩

/-- The spans that the ends of a batch cut, from the offset `p` of its start. -/
def cutSpans (rel : String) (start : Nat) : Nat → List Nat → List Span
  | _, [] => []
  | p, stop :: later => ⟨rel, start + p, start + stop⟩ :: cutSpans rel start stop later

theorem length_cutSpans (rel : String) (start p : Nat) (ends : List Nat) :
    (cutSpans rel start p ends).length = ends.length := by
  induction ends generalizing p with
  | nil => rfl
  | cons stop ends ih => rw [cutSpans, List.length_cons, ih, List.length_cons]

theorem endOf_cutSpans (prev : Option (String × Nat)) (rel : String) (start p : Nat)
    {ends : List Nat} (some_ : ends ≠ []) :
    endOf prev (cutSpans rel start p ends) = some (rel, start + ends.getLast?.getD 0) := by
  induction ends generalizing prev p with
  | nil => exact absurd rfl some_
  | cons stop ends ih =>
    rw [cutSpans, endOf_cons]
    cases ends with
    | nil => rfl
    | cons next ends =>
      rw [ih _ _ (List.cons_ne_nil next ends)]
      rfl

/-- Rising ends cut spans that tile the rest of their source. -/
theorem tiles_cutSpans {prev : Option (String × Nat)} {rel : String} {start p last : Nat}
    {ends : List Nat} {doc : SourceDoc} (member : doc ∈ sources.docs) (named : doc.relPath = rel)
    (continues : Continues sources prev rel (start + p)) (ascends : Ascends p ends last)
    (fits : start + last ≤ doc.text.length) : Tiles sources prev (cutSpans rel start p ends) := by
  induction ends generalizing prev p with
  | nil => trivial
  | cons stop ends ih =>
    have bounded := ascends_le ascends.2
    have rises := ascends.1
    have inside : Span.Inside sources ⟨rel, start + p, start + stop⟩ := by
      refine ⟨?_, doc, member, named, ?_⟩
      · change start + p < start + stop
        omega
      · change start + stop ≤ doc.text.length
        omega
    exact ⟨continues, inside, ih (.inl ⟨rfl, rfl⟩) ascends.2⟩

end Start

end ArcReel.Episode
