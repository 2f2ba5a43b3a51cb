import Verbatus.PageFeed.Assemble

namespace Verbatus.PageFeed

open Library Library.Checked Refusal Python CodePoint Canonical Ink
open Identities (str)

variable {rules : FeedRules}

section Assembled

/-- The steps a feed is assembled by, up to its overlay, its prompt and its digest. -/
structure Assembled (rules : FeedRules) (arguments : Arguments) (switches : Switches)
    (shown : List Str) (rows : List Row) (surya : Option Surya) : Prop where
  table : validateFeedTable arguments.feedSwitches = .ok switches
  size : 0 < arguments.pageSize.width ∧ 0 < arguments.pageSize.height
  roster : checkedRoster arguments.roster = .ok ()
  witnesses : checkedWitnesses rules arguments.witnesses arguments.regime arguments.roster
    arguments.noTestimony = .ok ()
  chairs : shownChairs switches.witnesses arguments.roster = .ok shown
  few : (orderedWitnesses arguments.witnesses shown).length ≤ witnessLetters.length
  rowsMade : (witnessLetters.zip (orderedWitnesses arguments.witnesses shown)).mapM
    (witnessRow switches arguments.regime arguments.pageSize) = .ok rows
  render : checkedPageRender arguments.pageRender switches.pageImage arguments.pageSize = .ok ()
  suryaMade : suryaShown arguments.surya switches arguments.pageSize = .ok surya

variable {arguments : Arguments} {switches : Switches} {shown : List Str} {rows : List Row}
  {surya : Option Surya} {result : SealedFeed}

theorem Assembled.eq (steps : Assembled rules arguments switches shown rows surya) :
    assemblePageFeed rules arguments = sealFeed rules arguments.renderBytes arguments.servingRecipe
      (plainFeed arguments switches rows surya) := by
  rw [assemblePageFeed, steps.table, ok_bind, require_bind_of steps.size, steps.roster, ok_bind,
    steps.witnesses, ok_bind, steps.chairs, ok_bind]
  dsimp only
  rw [require_bind_of steps.few, steps.rowsMade, ok_bind, steps.render, ok_bind, steps.suryaMade,
    ok_bind]

theorem assemble_cases (assembled : assemblePageFeed rules arguments = .ok result) :
    ∃ switches shown rows surya, Assembled rules arguments switches shown rows surya := by
  obtain ⟨switches, table, assembled⟩ := bind_eq_ok.mp assembled
  obtain ⟨size, assembled⟩ := require_bind_eq_ok.mp assembled
  obtain ⟨⟨⟩, roster, assembled⟩ := bind_eq_ok.mp assembled
  obtain ⟨⟨⟩, witnesses, assembled⟩ := bind_eq_ok.mp assembled
  obtain ⟨shown, chairs, assembled⟩ := bind_eq_ok.mp assembled
  obtain ⟨few, assembled⟩ := require_bind_eq_ok.mp assembled
  obtain ⟨rows, rowsMade, assembled⟩ := bind_eq_ok.mp assembled
  obtain ⟨⟨⟩, render, assembled⟩ := bind_eq_ok.mp assembled
  obtain ⟨surya, suryaMade, -⟩ := bind_eq_ok.mp assembled
  exact ⟨switches, shown, rows, surya, table, size, roster, witnesses, chairs, few, rowsMade, render,
    suryaMade⟩

end Assembled

section Witnesses

/-- What the witnesses of an accepted page are checked for. -/
structure Seated (rules : FeedRules) (witnesses : List Witness) (regime : Regime)
    (roster : List Str) : Prop where
  each : ∀ witness ∈ witnesses, checkedWitness regime witness = .ok ()
  chairs : (witnesses.map Witness.chair).Nodup
  labels : (witnesses.map Witness.label).Nodup
  references : ∃ digests, witnesses.mapM (referenceDigest rules) = .ok digests ∧ digests.Nodup
  present : ∀ chair ∈ roster, chair ∈ witnesses.map Witness.chair
  listed : ∀ chair ∈ witnesses.map Witness.chair, chair ∈ roster

theorem checkedWitnesses_eq_ok {witnesses : List Witness} {regime : Regime} {roster : List Str}
    {noTestimony : Bool} :
    checkedWitnesses rules witnesses regime roster noTestimony = .ok () ↔
      if noTestimony = true then witnesses = [] else Seated rules witnesses regime roster := by
  unfold checkedWitnesses
  split_ifs with silent
  · rw [require_eq_ok]
  · constructor
    · intro checked
      obtain ⟨⟨⟩, each, checked⟩ := bind_eq_ok.mp checked
      obtain ⟨chairs, checked⟩ := require_bind_eq_ok.mp checked
      obtain ⟨labels, checked⟩ := require_bind_eq_ok.mp checked
      obtain ⟨digests, references, checked⟩ := bind_eq_ok.mp checked
      obtain ⟨apart, checked⟩ := require_bind_eq_ok.mp checked
      obtain ⟨present, listed⟩ := require_bind_eq_ok.mp checked
      exact ⟨forM_eq_ok.mp each, chairs, labels, ⟨digests, references, apart⟩, present,
        require_eq_ok.mp listed⟩
    · intro seated
      obtain ⟨digests, references, apart⟩ := seated.references
      rw [forM_eq_ok.mpr seated.each, ok_bind, require_bind_of seated.chairs,
        require_bind_of seated.labels, references, ok_bind, require_bind_of apart,
        require_bind_of seated.present, require_eq_ok]
      exact seated.listed

theorem Seated.perm {witnesses others : List Witness} {regime : Regime} {roster listing : List Str}
    (seated : Seated rules witnesses regime roster) (same : witnesses.Perm others)
    (sameRoster : roster.Perm listing) : Seated rules others regime listing := by
  obtain ⟨digests, references, apart⟩ := seated.references
  obtain ⟨rearranged, traversed, digestsSame⟩ := mapM_perm references same
  refine ⟨fun witness member => seated.each witness (same.mem_iff.mpr member),
    (same.map _).nodup_iff.mp seated.chairs, (same.map _).nodup_iff.mp seated.labels,
    ⟨rearranged, traversed, digestsSame.nodup_iff.mp apart⟩, ?_, ?_⟩
  · intro chair member
    exact (same.map _).mem_iff.mp (seated.present chair (sameRoster.mem_iff.mpr member))
  · intro chair member
    exact sameRoster.mem_iff.mp (seated.listed chair ((same.map _).mem_iff.mpr member))

theorem checkedWitnesses_perm {witnesses others : List Witness} {regime : Regime}
    {roster listing : List Str} {noTestimony : Bool}
    (checked : checkedWitnesses rules witnesses regime roster noTestimony = .ok ())
    (same : witnesses.Perm others) (sameRoster : roster.Perm listing) :
    checkedWitnesses rules others regime listing noTestimony = .ok () := by
  rw [checkedWitnesses_eq_ok] at checked ⊢
  split_ifs at checked ⊢
  · rw [checked] at same
    exact same.symm.eq_nil
  · exact checked.perm same sameRoster

theorem checkedRoster_perm {roster listing : List Str} (checked : checkedRoster roster = .ok ())
    (same : roster.Perm listing) : checkedRoster listing = .ok () := by
  obtain ⟨named, distinct⟩ := require_eq_ok.mp checked
  exact require_eq_ok.mpr ⟨fun chair member => named chair (same.mem_iff.mpr member),
    same.nodup_iff.mp distinct⟩

/-- The shown chairs of a rearranged roster are the same chairs. -/
theorem shownChairs_perm {listed : Option (List Str)} {roster listing shown : List Str}
    (chosen : shownChairs listed roster = .ok shown) (same : roster.Perm listing) :
    ∃ others, shownChairs listed listing = .ok others ∧ ∀ chair, chair ∈ shown ↔ chair ∈ others := by
  cases listed with
  | none =>
      cases chosen
      exact ⟨listing, rfl, fun chair => same.mem_iff⟩
  | some names =>
      obtain ⟨known, chosen⟩ := require_bind_eq_ok.mp chosen
      cases chosen
      refine ⟨shown, ?_, fun chair => Iff.rfl⟩
      rw [shownChairs, require_bind_of fun name member => same.mem_iff.mp (known name member)]

theorem labels_nodup {witnesses : List Witness} {regime : Regime} {roster : List Str}
    {noTestimony : Bool}
    (checked : checkedWitnesses rules witnesses regime roster noTestimony = .ok ()) :
    (witnesses.map Witness.label).Nodup := by
  rw [checkedWitnesses_eq_ok] at checked
  split_ifs at checked
  · rw [checked]
    exact List.nodup_nil
  · exact checked.labels

/-- Witnesses are shown in order of their labels, in whatever order they are given. -/
theorem orderedWitnesses_perm {witnesses others : List Witness} {shown listing : List Str}
    (distinct : (witnesses.map Witness.label).Nodup) (same : witnesses.Perm others)
    (sameShown : ∀ chair, chair ∈ shown ↔ chair ∈ listing) :
    orderedWitnesses witnesses shown = orderedWitnesses others listing := by
  have kept : (fun witness : Witness => decide (witness.chair ∈ shown)) =
      fun witness => decide (witness.chair ∈ listing) := by
    funext witness
    rw [decide_eq_decide]
    exact sameShown witness.chair
  unfold orderedWitnesses
  rw [kept]
  apply sortBy_eq_of_perm (same.filter _)
  intro first inside second also equal
  exact List.inj_on_of_nodup_map distinct (List.mem_of_mem_filter inside)
    (List.mem_of_mem_filter also) equal

end Witnesses

section Blocks

/-- Two inputs of Surya that differ at most in the order of the blocks. -/
inductive SuryaRearranged : SuryaInput → SuryaInput → Prop where
  | same (surya : SuryaInput) : SuryaRearranged surya surya
  | blocks (first second : Census) (rows others : List JsonValue)
      (given : first.blocks = .list rows) (rearranged : second.blocks = .list others)
      (perm : rows.Perm others) (census : second.censusRef = first.censusRef)
      (sequence : second.blockSequence = first.blockSequence)
      (reason : second.blockSequenceReason = first.blockSequenceReason)
      (lines : second.lines = first.lines) :
      SuryaRearranged (.census first) (.census second)

theorem shownBlocks_perm {size : PageSize} {rows others : List JsonValue} {shown : List Detection}
    (made : shownBlocks size rows = .ok shown) (same : rows.Perm others) :
    shownBlocks size others = .ok shown := by
  obtain ⟨blocks, read, made⟩ := bind_eq_ok.mp made
  obtain ⟨distinct, made⟩ := require_bind_eq_ok.mp made
  obtain ⟨rearranged, traversed, blocksSame⟩ := mapM_perm read same
  have sorted : sortBy Block.position blocks = sortBy Block.position rearranged :=
    sortBy_eq_of_perm blocksSame fun first inside second also equal =>
      List.inj_on_of_nodup_map distinct inside also equal
  rw [shownBlocks, traversed, ok_bind,
    require_bind_of ((blocksSame.map Block.position).nodup_iff.mp distinct), ← sorted, made]

theorem suryaShown_perm {first second : SuryaInput} {switches : Switches} {size : PageSize}
    {shown : Option Surya} (rearranged : SuryaRearranged first second)
    (made : suryaShown first switches size = .ok shown) :
    suryaShown second switches size = .ok shown := by
  cases rearranged with
  | same => exact made
  | blocks first second rows others given again perm census sequence reason lines =>
      unfold suryaShown at made ⊢
      split_ifs at made ⊢ with hidden
      · exact made
      · obtain ⟨surya, found, rfl⟩ := map_eq_ok.mp made
        refine map_eq_ok.mpr ⟨surya, ?_, rfl⟩
        obtain ⟨⟨head, why⟩, sequenceRead, found⟩ := bind_eq_ok.mp found
        obtain ⟨lineRows, linesRead, found⟩ := bind_eq_ok.mp found
        obtain ⟨blockRows, blocksRead, found⟩ := bind_eq_ok.mp found
        obtain ⟨shownLines, linesMade, found⟩ := bind_eq_ok.mp found
        obtain ⟨placed, blocksMade, found⟩ := bind_eq_ok.mp found
        rw [suryaOf, sequence, reason, sequenceRead, ok_bind]
        dsimp only
        rw [lines, linesRead, ok_bind]
        cases on : switches.suryaBlocks with
        | false =>
            rw [on] at blocksRead
            have none : switched false second.blocks = switched false first.blocks := rfl
            rw [none, blocksRead, ok_bind, linesMade, ok_bind, blocksMade, ok_bind, census, found]
        | true =>
            rw [on, switched, if_pos rfl, given] at blocksRead
            rw [← Except.ok.inj blocksRead] at blocksMade
            have reread : readList (switched true second.blocks)
                "Surya's lines and blocks are not lists" = .ok others := by
              rw [switched, if_pos rfl, again]
              rfl
            rw [reread, ok_bind, linesMade, ok_bind, shownBlocks_perm blocksMade perm, ok_bind, census]
            exact found

end Blocks

section Rearranged

/-- Two calls that differ at most in the order of the witnesses, the roster and Surya's blocks. -/
structure Rearranged (first second : Arguments) : Prop where
  witnesses : first.witnesses.Perm second.witnesses
  roster : first.roster.Perm second.roster
  surya : SuryaRearranged first.surya second.surya
  others : second = { first with
    witnesses := second.witnesses, roster := second.roster, surya := second.surya }

/-- A feed does not depend on the order of its inputs. -/
theorem assemble_rearranged {first second : Arguments} {result : SealedFeed}
    (rearranged : Rearranged first second) (assembled : assemblePageFeed rules first = .ok result) :
    assemblePageFeed rules second = .ok result := by
  obtain ⟨switches, shown, rows, surya, steps⟩ := assemble_cases assembled
  obtain ⟨listing, chosen, sameShown⟩ := shownChairs_perm steps.chairs rearranged.roster
  have ordered := orderedWitnesses_perm (labels_nodup steps.witnesses) rearranged.witnesses sameShown
  have roster := checkedRoster_perm steps.roster rearranged.roster
  have witnesses := checkedWitnesses_perm steps.witnesses rearranged.witnesses rearranged.roster
  have few := steps.few
  have rowsMade := steps.rowsMade
  rw [ordered] at few rowsMade
  have suryaMade := suryaShown_perm rearranged.surya steps.suryaMade
  have again : Assembled rules second switches listing rows surya := by
    rw [rearranged.others]
    exact ⟨steps.table, steps.size, roster, witnesses, chosen, few, rowsMade, steps.render, suryaMade⟩
  rw [steps.eq] at assembled
  rw [again.eq, rearranged.others]
  exact assembled

end Rearranged

section Hidden

/-- Two witnesses that are one, or are hidden and differ at most in what a hidden one's reading is. -/
structure SameShown (shown : List Str) (first second : Witness) : Prop where
  chair : second.chair = first.chair
  label : second.label = first.label
  adapter : second.adapter = first.adapter
  reference : second.testimoniumRef = first.testimoniumRef
  reading : first.chair ∈ shown → second = first

variable {shown : List Str} {witnesses others : List Witness}

theorem map_sameShown {α : Type} {field : Witness → α}
    (same : List.Forall₂ (SameShown shown) witnesses others)
    (kept : ∀ first second, SameShown shown first second → field second = field first) :
    others.map field = witnesses.map field := by
  induction same with
  | nil => rfl
  | cons head tail ih => rw [List.map_cons, List.map_cons, kept _ _ head, ih]

theorem filter_sameShown (same : List.Forall₂ (SameShown shown) witnesses others) :
    others.filter (fun witness => decide (witness.chair ∈ shown)) =
      witnesses.filter fun witness => decide (witness.chair ∈ shown) := by
  induction same with
  | nil => rfl
  | cons head tail ih =>
      rw [List.filter_cons, List.filter_cons, ih, head.chair]
      split_ifs with seen
      · rw [head.reading (of_decide_eq_true seen)]
      · rfl

theorem mapM_sameShown {α : Type} {step : Witness → Except Refusal α} {results : List α}
    (same : List.Forall₂ (SameShown shown) witnesses others)
    (kept : ∀ first second, SameShown shown first second → step second = step first)
    (traversed : witnesses.mapM step = .ok results) : others.mapM step = .ok results := by
  rw [mapM_eq_ok] at traversed ⊢
  induction same generalizing results with
  | nil => exact traversed
  | cons head tail ih =>
      cases traversed with
      | cons first rest => exact .cons ((kept _ _ head).trans first) (ih rest)

theorem Seated.hidden {regime : Regime} {roster : List Str}
    (seated : Seated rules witnesses regime roster)
    (same : List.Forall₂ (SameShown shown) witnesses others) : Seated rules others regime roster := by
  have chairs : others.map Witness.chair = witnesses.map Witness.chair :=
    map_sameShown same fun _ _ one => one.chair
  have labels : others.map Witness.label = witnesses.map Witness.label :=
    map_sameShown same fun _ _ one => one.label
  obtain ⟨digests, references, apart⟩ := seated.references
  refine ⟨?_, chairs ▸ seated.chairs, labels ▸ seated.labels, ⟨digests, ?_, apart⟩,
    chairs ▸ seated.present, chairs ▸ seated.listed⟩
  · have each := forM_eq_ok.mpr seated.each
    rw [← forM_eq_ok]
    clear seated references chairs labels
    induction same with
    | nil => rfl
    | @cons given other givens others head tail ih =>
        obtain ⟨⟨⟩, first, rest⟩ := bind_eq_ok.mp each
        have checked : checkedWitness regime other = .ok () := by
          rw [checkedWitness, head.chair, head.label, head.adapter]
          exact first
        exact bind_eq_ok.mpr ⟨(), checked, ih rest⟩
  · refine mapM_sameShown same (fun first second one => ?_) references
    rw [referenceDigest, referenceDigest, one.reference]

/-- Two calls that differ at most in the readings of hidden witnesses. -/
structure HiddenChanged (shown : List Str) (first second : Arguments) : Prop where
  witnesses : List.Forall₂ (SameShown shown) first.witnesses second.witnesses
  others : second = { first with witnesses := second.witnesses }

/-- What a hidden witness reads does not reach the feed. -/
theorem assemble_hidden {first second : Arguments} {result : SealedFeed} {switches : Switches}
    (table : validateFeedTable first.feedSwitches = .ok switches)
    (chairs : shownChairs switches.witnesses first.roster = .ok shown)
    (changed : HiddenChanged shown first second)
    (assembled : assemblePageFeed rules first = .ok result) :
    assemblePageFeed rules second = .ok result := by
  obtain ⟨found, seen, rows, surya, steps⟩ := assemble_cases assembled
  obtain rfl := Except.ok.inj (table.symm.trans steps.table)
  obtain rfl := Except.ok.inj (chairs.symm.trans steps.chairs)
  have witnesses : checkedWitnesses rules second.witnesses first.regime first.roster
      first.noTestimony = .ok () := by
    have checked := steps.witnesses
    rw [checkedWitnesses_eq_ok] at checked ⊢
    split_ifs at checked ⊢
    · have none := changed.witnesses
      rw [checked, List.forall₂_nil_left_iff] at none
      exact none
    · exact checked.hidden changed.witnesses
  have ordered : orderedWitnesses second.witnesses shown = orderedWitnesses first.witnesses shown := by
    rw [orderedWitnesses, orderedWitnesses, filter_sameShown changed.witnesses]
  have few := steps.few
  have rowsMade := steps.rowsMade
  rw [← ordered] at few rowsMade
  have again : Assembled rules second switches shown rows surya := by
    rw [changed.others]
    exact ⟨steps.table, steps.size, steps.roster, witnesses, steps.chairs, few, rowsMade,
      steps.render, steps.suryaMade⟩
  rw [steps.eq] at assembled
  rw [again.eq, changed.others]
  exact assembled

end Hidden

end Verbatus.PageFeed
