import Mathlib.Data.List.Chain
import ArcReel.Episode.Tiling

/-! Every cut of a window is the end of the one place where its anchor occurs. -/

namespace ArcReel.Episode
open ArcReel.Lib

/-- A needle with text occurs at a position; overlapping occurrences count. -/
def OccursAt (haystack needle : List Char) (k : Nat) : Prop :=
  needle ≠ [] ∧ needle <+: haystack.drop k

def OnlyAt (haystack needle : List Char) (k : Nat) : Prop :=
  OccursAt haystack needle k ∧ ∀ other, OccursAt haystack needle other → other = k

/-- The end of the only occurrence of an anchor: of the anchor itself or, if it does not occur,
of its normalized text up to the width of punctuation and blanks. -/
inductive AnchorEnd (rt : Runtime) (window anchor : List Char) : Nat → Prop
  | exact (k : Nat) (only : OnlyAt window anchor k) : AnchorEnd rt window anchor (k + anchor.length)
  | folded (k : Nat) (absent : ∀ other, ¬OccursAt window anchor other)
      (only : OnlyAt (foldForMatch window) (foldForMatch (normalizeSourceText rt anchor)) k) :
      AnchorEnd rt window anchor (k + (normalizeSourceText rt anchor).length)

/-- The pieces between the cuts. -/
def slices (window : List Char) : Nat → List Nat → List (List Char)
  | _, [] => []
  | start, stop :: later => (window.take stop).drop start :: slices window stop later

section Anchors

variable {rt : Runtime} {window anchor haystack needle : List Char}

theorem mem_findAll {k : Nat} : k ∈ findAllOverlapping haystack needle ↔ OccursAt haystack needle k := by
  unfold findAllOverlapping OccursAt
  split_ifs with empty
  · rw [List.isEmpty_iff] at empty
    simp [empty]
  · rw [List.isEmpty_iff] at empty
    rw [PyText.mem_occurrences, Nat.sub_zero]
    constructor
    · rintro ⟨-, -, starts⟩
      exact ⟨empty, starts⟩
    · rintro ⟨-, starts⟩
      refine ⟨Nat.zero_le k, ?_, starts⟩
      by_contra outside
      rw [List.drop_of_length_le (by omega)] at starts
      exact empty (List.prefix_nil.mp starts)

theorem findAll_eq_nil : findAllOverlapping haystack needle = [] ↔ ∀ k, ¬OccursAt haystack needle k := by
  rw [List.eq_nil_iff_forall_not_mem]
  exact forall_congr' fun k => not_congr mem_findAll

theorem findAll_eq_singleton {k : Nat} :
    findAllOverlapping haystack needle = [k] ↔ OnlyAt haystack needle k := by
  have distinct : (findAllOverlapping haystack needle).Nodup := by
    unfold findAllOverlapping
    split_ifs
    · exact List.nodup_nil
    · exact PyText.nodup_occurrences needle haystack 0
  constructor
  · intro single
    refine ⟨mem_findAll.mp (by rw [single]; exact List.mem_singleton_self k), ?_⟩
    intro other occurs
    rw [← mem_findAll, single, List.mem_singleton] at occurs
    exact occurs
  · rintro ⟨here, only⟩
    apply List.perm_singleton.mp
    apply (List.perm_ext_iff_of_nodup distinct (List.nodup_singleton k)).mpr
    intro other
    rw [mem_findAll, List.mem_singleton]
    exact ⟨only other, fun same => same ▸ here⟩

/-- The end of an anchor, as the loop computes it. -/
def anchorStop (rt : Runtime) (window anchor : List Char) : Option Nat :=
  match locateAnchor rt window anchor with
  | ([start], length, _) => some (start + length)
  | _ => none

theorem anchorStop_eq_some {stop : Nat} :
    anchorStop rt window anchor = some stop ↔ AnchorEnd rt window anchor stop := by
  unfold anchorStop locateAnchor
  cases found : findAllOverlapping window anchor with
  | nil =>
    have absent := findAll_eq_nil.mp found
    dsimp only
    constructor
    · intro here
      split at here
      next start length folded located =>
        simp only [Prod.mk.injEq] at located
        rw [← Option.some.inj here, ← located.2.1]
        exact .folded start absent (findAll_eq_singleton.mp located.1)
      next => cases here
    · intro ends
      cases ends with
      | exact k only => exact absurd only.1 (absent k)
      | folded k _ only => rw [findAll_eq_singleton.mpr only]
  | cons first others =>
    have occurs : OccursAt window anchor first := mem_findAll.mp (found ▸ List.mem_cons_self)
    dsimp only
    constructor
    · intro here
      split at here
      next start length folded located =>
        simp only [Prod.mk.injEq] at located
        rw [← Option.some.inj here, ← located.2.1]
        exact .exact start (findAll_eq_singleton.mp (found.trans located.1))
      next => cases here
    · intro ends
      cases ends with
      | exact k only =>
        have single := found.symm.trans (findAll_eq_singleton.mpr only)
        rw [single]
      | folded k absent only => exact absurd occurs (absent first)

theorem anchorEnd_unique {stop other : Nat} (first : AnchorEnd rt window anchor stop)
    (second : AnchorEnd rt window anchor other) : stop = other := by
  rw [← anchorStop_eq_some] at first second
  exact Option.some.inj (first.symm.trans second)

theorem anchorEnd_bounds {stop : Nat} (ends : AnchorEnd rt window anchor stop) :
    0 < stop ∧ stop ≤ window.length := by
  cases ends with
  | exact k only =>
    have length := List.length_pos_iff.mpr only.1.1
    have fits := findAll_fits (mem_findAll.mpr only.1)
    omega
  | folded k absent only =>
    have length := List.length_pos_iff.mpr only.1.1
    have fits := findAll_fits (mem_findAll.mpr only.1)
    rw [length_foldForMatch] at length fits
    rw [length_foldForMatch] at fits
    omega

end Anchors

section Scan

variable {rt : Runtime} {window : List Char}

/-- The end of a draft's anchor in the window. -/
def DraftEnd (rt : Runtime) (window : List Char) (draft : EpisodeDraft) (stop : Nat) : Prop :=
  AnchorEnd rt window draft.endAnchor stop

theorem scanDraft_none {scan : BoundaryScan} {idx : Nat} {draft : EpisodeDraft}
    (nowhere : anchorStop rt window draft.endAnchor = none) :
    (scanDraft rt window scan idx draft).reasons ≠ [] := by
  unfold anchorStop at nowhere
  unfold scanDraft
  dsimp only
  split at nowhere
  next => cases nowhere
  next different =>
    split
    next => exact reject_reasons scan _
    next start length folded located => exact absurd located (different start length folded)
    next => exact reject_reasons scan _

theorem scanDraft_some {scan : BoundaryScan} {idx stop : Nat} {draft : EpisodeDraft}
    (located : anchorStop rt window draft.endAnchor = some stop) :
    scanDraft rt window scan idx draft =
      if scan.orderingValid && decide (stop ≤ scan.pos) then
        scan.reject (.anchorNotAdvancing idx draft.endAnchor)
      else { scan with ends := scan.ends ++ [stop], pos := stop } := by
  unfold anchorStop at located
  unfold scanDraft
  dsimp only
  split at located
  next start length folded here =>
    rw [here, ← Option.some.inj located]
  next => cases located

theorem scanDraft_reasons {scan : BoundaryScan} {idx : Nat} {draft : EpisodeDraft}
    (some : scan.reasons ≠ []) : (scanDraft rt window scan idx draft).reasons ≠ [] := by
  cases located : anchorStop rt window draft.endAnchor with
  | none => exact scanDraft_none located
  | some stop =>
    rw [scanDraft_some located]
    split_ifs
    · exact reject_reasons scan _
    · exact some

theorem scanDrafts_reasons (drafts : List EpisodeDraft) :
    ∀ {scan : BoundaryScan} {idx : Nat}, scan.reasons ≠ [] →
      (scanDrafts rt window drafts idx scan).reasons ≠ [] := by
  induction drafts with
  | nil => exact fun some => some
  | cons draft later ih => exact fun some => ih (scanDraft_reasons some)

/-- A scan without a failure takes in the rising ends of the anchors. -/
theorem scanDrafts_rising {drafts : List EpisodeDraft} {found : List Nat}
    (ends : List.Forall₂ (DraftEnd rt window) drafts found) :
    ∀ {scan : BoundaryScan} {idx : Nat}, scan.reasons = [] → scan.orderingValid = true →
      List.IsChain (· < ·) (scan.pos :: found) →
        (scanDrafts rt window drafts idx scan).reasons = [] ∧
          (scanDrafts rt window drafts idx scan).ends = scan.ends ++ found := by
  induction ends with
  | nil => exact fun clean _ _ => ⟨clean, (List.append_nil _).symm⟩
  | @cons draft stop later found here _ ih =>
    intro scan idx clean ordered chain
    have rises := (List.isChain_cons_cons.mp chain).1
    have ahead : ¬(scan.orderingValid && decide (stop ≤ scan.pos)) = true := by
      rw [Bool.and_eq_true, decide_eq_true_eq]
      omega
    rw [scanDrafts, scanDraft_some (anchorStop_eq_some.mpr here), if_neg ahead]
    have deeper := @ih { scan with ends := scan.ends ++ [stop], pos := stop } (idx + 1) clean ordered
      (List.isChain_cons_cons.mp chain).2
    refine ⟨deeper.1, ?_⟩
    rw [deeper.2, List.append_assoc]
    rfl

/-- A scan that ends without a failure has found rising ends. -/
theorem scanDrafts_clean (drafts : List EpisodeDraft) :
    ∀ {scan : BoundaryScan} {idx : Nat}, scan.orderingValid = true →
      (scanDrafts rt window drafts idx scan).reasons = [] →
        ∃ found, List.Forall₂ (DraftEnd rt window) drafts found ∧
          List.IsChain (· < ·) (scan.pos :: found) := by
  induction drafts with
  | nil => exact fun _ _ => ⟨[], .nil, .singleton _⟩
  | cons draft later ih =>
    intro scan idx ordered clean
    rw [scanDrafts] at clean
    cases located : anchorStop rt window draft.endAnchor with
    | none => exact absurd clean (scanDrafts_reasons later (scanDraft_none located))
    | some stop =>
      rw [scanDraft_some located, ordered, Bool.true_and] at clean
      split_ifs at clean with behind
      · exact absurd clean (scanDrafts_reasons later (reject_reasons scan _))
      · rw [decide_eq_true_eq, not_le] at behind
        obtain ⟨found, ends, chain⟩ := @ih ⟨scan.reasons, scan.ends ++ [stop], stop, true⟩ _ rfl clean
        exact ⟨stop :: found, .cons (anchorStop_eq_some.mp located) ends,
          List.isChain_cons_cons.mpr ⟨behind, chain⟩⟩

end Scan

/-! The pieces between rising cuts. -/

section Slices

variable {window : List Char}

theorem isChain_of_ascends {ends : List Nat} {last : Nat} :
    ∀ {start : Nat}, Ascends start ends last → List.IsChain (· < ·) (start :: ends) := by
  induction ends with
  | nil => exact fun _ => .singleton _
  | cons stop ends ih =>
    intro start ascends
    exact List.isChain_cons_cons.mpr ⟨ascends.1, ih ascends.2⟩

theorem ascends_mem {ends : List Nat} {last stop : Nat} :
    ∀ {start : Nat}, Ascends start ends last → stop ∈ ends → stop ≤ last := by
  induction ends with
  | nil => exact fun _ none => nomatch none
  | cons head ends ih =>
    intro start ascends member
    cases List.mem_cons.mp member with
    | inl same => exact same ▸ ascends_le ascends.2
    | inr later => exact ih ascends.2 later

theorem getLast?_getD_cons (next : Nat) (ends : List Nat) (stop start : Nat) :
    (next :: ends).getLast?.getD stop = (next :: ends).getLast?.getD start := by
  rw [List.getLast?_eq_some_getLast (List.cons_ne_nil next ends)]
  rfl

theorem slices_spec {ends : List Nat} : ∀ {start : Nat}, List.IsChain (· < ·) (start :: ends) →
    (∀ stop ∈ ends, stop ≤ window.length) →
      (∀ piece ∈ slices window start ends, piece ≠ []) ∧
        window.take start ++ (slices window start ends).flatten =
          window.take (ends.getLast?.getD start) := by
  induction ends with
  | nil =>
    intro start _ _
    exact ⟨(fun _ none => nomatch none), List.append_nil _⟩
  | cons stop ends ih =>
    intro start chain fits
    have rises := (List.isChain_cons_cons.mp chain).1
    have inside := fits stop (.head _)
    have deeper := ih (List.isChain_cons_cons.mp chain).2 fun other member => fits other (.tail _ member)
    constructor
    · intro piece member
      cases List.mem_cons.mp member with
      | inl same =>
        rw [same]
        apply List.ne_nil_of_length_pos
        rw [List.length_drop, List.length_take]
        omega
      | inr later => exact deeper.1 piece later
    · calc
        window.take start ++ ((window.take stop).drop start ++ (slices window stop ends).flatten)
        _ = (window.take stop).take start ++ (window.take stop).drop start ++
            (slices window stop ends).flatten := by
          rw [List.take_take, Nat.min_eq_left (by omega), List.append_assoc]
        _ = window.take stop ++ (slices window stop ends).flatten := by rw [List.take_append_drop]
        _ = window.take (ends.getLast?.getD stop) := deeper.2
        _ = window.take ((stop :: ends).getLast?.getD start) := by
          cases ends with
          | nil => rfl
          | cons next ends => rw [List.getLast?_cons_cons, getLast?_getD_cons next ends stop start]

end Slices

/-! All anchors together. -/

section Together

variable {rt : Runtime} {window : List Char}

/-- A draft whose anchor has no end, or does not end after the one before it. -/
def Misplaced (rt : Runtime) (window : List Char) (drafts : List EpisodeDraft) : Prop :=
  (∃ draft ∈ drafts, ∀ stop, ¬DraftEnd rt window draft stop) ∨
    ∃ before first second after stop next, drafts = before ++ first :: second :: after ∧
      DraftEnd rt window first stop ∧ DraftEnd rt window second next ∧ next ≤ stop

theorem misplaced_cons {draft : EpisodeDraft} {drafts : List EpisodeDraft}
    (wrong : Misplaced rt window drafts) : Misplaced rt window (draft :: drafts) := by
  cases wrong with
  | inl absent =>
    obtain ⟨other, member, nowhere⟩ := absent
    exact .inl ⟨other, .tail _ member, nowhere⟩
  | inr behind =>
    obtain ⟨before, first, second, after, stop, next, split, rest⟩ := behind
    exact .inr ⟨draft :: before, first, second, after, stop, next, by rw [split]; rfl, rest⟩

/-- Drafts that are not misplaced have rising ends, from any position before the first one. -/
theorem ends_of_placed (drafts : List EpisodeDraft) : ∀ {pos : Nat},
    (∀ draft later stop, drafts = draft :: later → DraftEnd rt window draft stop → pos < stop) →
      ¬Misplaced rt window drafts →
        ∃ found, List.Forall₂ (DraftEnd rt window) drafts found ∧
          List.IsChain (· < ·) (pos :: found) := by
  induction drafts with
  | nil => exact fun _ _ => ⟨[], .nil, .singleton _⟩
  | cons draft drafts ih =>
    intro pos after placed
    by_cases somewhere : ∃ stop, DraftEnd rt window draft stop
    · obtain ⟨stop, here⟩ := somewhere
      have further : ∀ next later stop', drafts = next :: later → DraftEnd rt window next stop' →
          stop < stop' := by
        intro next later stop' split there
        by_contra behind
        apply placed
        exact .inr ⟨[], draft, next, later, stop, stop', by rw [split]; rfl, here, there, by omega⟩
      obtain ⟨found, ends, chain⟩ := ih further fun wrong => placed (misplaced_cons wrong)
      exact ⟨stop :: found, .cons here ends,
        List.isChain_cons_cons.mpr ⟨after draft drafts stop rfl here, chain⟩⟩
    · apply absurd _ placed
      exact .inl ⟨draft, .head _, fun stop here => somewhere ⟨stop, here⟩⟩

theorem placed_of_ends {drafts : List EpisodeDraft} {found : List Nat}
    (ends : List.Forall₂ (DraftEnd rt window) drafts found) :
    ∀ {pos : Nat}, List.IsChain (· < ·) (pos :: found) → ¬Misplaced rt window drafts := by
  induction ends with
  | nil =>
    rintro pos - (⟨_, none, -⟩ | ⟨before, _, _, _, _, _, split, -⟩)
    · cases none
    · cases before <;> cases split
  | @cons draft stop drafts found here ends ih =>
    intro pos chain wrong
    have later := (List.isChain_cons_cons.mp chain).2
    cases wrong with
    | inl absent =>
      obtain ⟨other, member, nowhere⟩ := absent
      cases List.mem_cons.mp member with
      | inl same => exact nowhere stop (same ▸ here)
      | inr deeper => exact ih later (.inl ⟨other, deeper, nowhere⟩)
    | inr behind =>
      obtain ⟨before, first, second, after, stop', next, split, one, two, low⟩ := behind
      cases before with
      | cons head before =>
        have rest : drafts = before ++ first :: second :: after := (List.cons.inj split).2
        exact ih later (.inr ⟨before, first, second, after, stop', next, rest, one, two, low⟩)
      | nil =>
        have parts := List.cons.inj split
        rw [← parts.1] at one
        rw [parts.2] at ends
        cases ends with
        | cons there _ =>
          have rises := (List.isChain_cons_cons.mp later).1
          have same := anchorEnd_unique one here
          have same' := anchorEnd_unique two there
          omega

/-- The last cut may move to the end of the window. -/
def Snapped (window : List Char) (snap : Bool) (found ends : List Nat) : Prop :=
  ends = found ∨ snap = true ∧ ∃ last, found.getLast? = some last ∧
    PyText.isBlank (window.drop last) = true ∧ ends = found.dropLast ++ [window.length]

theorem snapTail_snapped (snap : Bool) (found : List Nat) :
    Snapped window snap found (snapTail window snap found) := by
  unfold snapTail
  cases last : found.getLast? with
  | none => exact .inl rfl
  | some stop =>
    dsimp only
    split_ifs with moves
    · rw [Bool.and_eq_true, Bool.and_eq_true] at moves
      exact .inr ⟨moves.1.1, stop, last, moves.2, rfl⟩
    · exact .inl rfl

theorem resolveBoundaries_ok {drafts : List EpisodeDraft} {snap : Bool} {ends : List Nat} :
    resolveBoundaries rt window drafts snap = .ok ends ↔
      ∃ found, List.Forall₂ (DraftEnd rt window) drafts found ∧
        List.IsChain (· < ·) (0 :: found) ∧ ends = snapTail window snap found := by
  unfold resolveBoundaries
  dsimp only
  constructor
  · intro accepted
    split_ifs at accepted with none
    obtain ⟨found, here, chain⟩ := scanDrafts_clean drafts rfl (List.isEmpty_iff.mp none)
    have scanned := @scanDrafts_rising rt window drafts found here .start 1 rfl rfl chain
    refine ⟨found, here, chain, ?_⟩
    rw [← Except.ok.inj accepted, scanned.2]
    rfl
  · rintro ⟨found, here, chain, same⟩
    have scanned := @scanDrafts_rising rt window drafts found here .start 1 rfl rfl chain
    rw [scanned.1, scanned.2, same]
    rfl

/-- The cuts are the ends of the anchors, rising inside the window, and cut it into pieces that
are not empty; an anchor that is missing, ambiguous or not after the one before it rejects all. -/
theorem cuts_are_anchor_ends (rt : Runtime) (window : List Char) (drafts : List EpisodeDraft)
    (snap : Bool) :
    (∀ ends, resolveBoundaries rt window drafts snap = .ok ends →
      ends.length = drafts.length ∧ List.IsChain (· < ·) (0 :: ends) ∧
      (∀ stop ∈ ends, stop ≤ window.length) ∧
      (∀ piece ∈ slices window 0 ends, piece ≠ []) ∧
      (slices window 0 ends).flatten = window.take (ends.getLast?.getD 0) ∧
      ∃ found, List.Forall₂ (DraftEnd rt window) drafts found ∧ Snapped window snap found ends) ∧
    ((∃ reasons, resolveBoundaries rt window drafts snap = .error reasons) ↔
      Misplaced rt window drafts) := by
  constructor
  · intro ends accepted
    obtain ⟨found, here, chain, same⟩ := resolveBoundaries_ok.mp accepted
    obtain ⟨length, last, ascends, fits⟩ := resolveBoundaries_spec accepted
    have rises := isChain_of_ascends ascends
    have inside : ∀ stop ∈ ends, stop ≤ window.length := fun stop member =>
      le_trans (ascends_mem ascends member) fits
    have pieces := slices_spec rises inside
    refine ⟨length, rises, inside, pieces.1, ?_, found, here, ?_⟩
    · rw [← pieces.2, List.take_zero, List.nil_append]
    · rw [same]
      exact snapTail_snapped snap found
  · constructor
    · rintro ⟨reasons, rejected⟩
      by_contra placed
      have first : ∀ draft later stop, drafts = draft :: later →
          DraftEnd rt window draft stop → 0 < stop :=
        fun _ _ _ _ ends => (anchorEnd_bounds ends).1
      obtain ⟨found, here, chain⟩ := ends_of_placed drafts first placed
      have accepted := (@resolveBoundaries_ok rt window drafts snap _).mpr ⟨found, here, chain, rfl⟩
      rw [rejected] at accepted
      cases accepted
    · intro wrong
      cases outcome : resolveBoundaries rt window drafts snap with
      | error reasons => exact ⟨reasons, rfl⟩
      | ok ends =>
        obtain ⟨found, here, chain, -⟩ := resolveBoundaries_ok.mp outcome
        exact absurd wrong (placed_of_ends here chain)

/-- The second anchor differs from the text in the width of its full stop. -/
example : resolveBoundaries ⟨id, fun _ => none, String.ofList, fun _ => none, id⟩ "天黑。走吧。\n".toList
    [⟨"夜", "?", "天黑。".toList, none⟩, ⟨"路", "?", "走吧.".toList, none⟩] true = .ok [3, 7] := by
  decide

end Together

end ArcReel.Episode
