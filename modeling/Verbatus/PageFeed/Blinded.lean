import Verbatus.PageFeed.Order

namespace Verbatus.PageFeed

open Library Library.Checked Refusal Python CodePoint Canonical Ink
open Identities (str)

variable {rules : FeedRules} (rename : Str → Str)

section Renamed

def renamedName : JsonValue → JsonValue
  | .str name => .str (rename name)
  | value => value

/-- A switch's list of chairs under their new names. -/
def renamedNames : JsonValue → JsonValue
  | .list names => .list (names.map (renamedName rename))
  | value => value

def renamedField (field : Str × JsonValue) : Str × JsonValue :=
  (field.1, if field.1 = str "witnesses" then renamedNames rename field.2 else field.2)

/-- A feed table whose shown chairs have their new names. -/
def renamedTable : JsonValue → JsonValue
  | .object fields => .object (fields.map (renamedField rename))
  | value => value

def Switches.renamed (switches : Switches) : Switches :=
  { switches with witnesses := switches.witnesses.map (List.map rename) }

def Witness.renamed (witness : Witness) : Witness := { witness with chair := rename witness.chair }

/-- A call whose every chair has its new name, its labels, adapters and references as they were. -/
def Arguments.renamed (arguments : Arguments) : Arguments :=
  { arguments with
    feedSwitches := renamedTable rename arguments.feedSwitches
    roster := arguments.roster.map rename
    witnesses := arguments.witnesses.map (Witness.renamed rename) }

def FeedRecord.renamed (feed : FeedRecord) : FeedRecord :=
  { feed with switches := feed.switches.renamed rename }

end Renamed

section Table

variable {rename}

theorem field?_renamed (fields : List (Str × JsonValue)) (name : String) :
    field? name (fields.map (renamedField rename)) = (field? name fields).map fun value =>
      if name = "witnesses" then renamedNames rename value else value := by
  induction fields with
  | nil => rfl
  | cons field fields ih =>
      rw [List.map_cons]
      unfold field? at ih ⊢
      rw [List.find?_cons, List.find?_cons]
      by_cases same : field.1 = str name
      · have key : (renamedField rename field).1 = str name := same
        rw [decide_eq_true same, decide_eq_true key]
        simp only [Option.map_some, renamedField, same, Identities.str_injective.eq_iff]
      · have key : ¬ (renamedField rename field).1 = str name := same
        rw [decide_eq_false same, decide_eq_false key]
        exact ih

theorem hasExactly_renamed (names : List String) (fields : List (Str × JsonValue)) :
    hasExactly names (fields.map (renamedField rename)) = hasExactly names fields := by
  unfold hasExactly
  congr 1
  · rw [List.all_map]
    rfl
  · congr 1
    funext name
    rw [field?_renamed, Option.isSome_map]

theorem fieldOf_renamed (fields : List (Str × JsonValue)) {name : String}
    (other : name ≠ "witnesses") :
    fieldOf name (fields.map (renamedField rename)) = fieldOf name fields := by
  rw [fieldOf, fieldOf, field?_renamed]
  simp only [if_neg other, Option.map_id']

theorem fieldOf_renamedNames (fields : List (Str × JsonValue)) :
    fieldOf "witnesses" (fields.map (renamedField rename)) =
      renamedNames rename (fieldOf "witnesses" fields) := by
  rw [fieldOf, fieldOf, field?_renamed]
  cases field? "witnesses" fields <;> rfl

theorem chairNames_renamed {items : List JsonValue} {names : List Str}
    (read : items.mapM chairName = some names) (named : ∀ name ∈ names, isBlank (rename name) = false) :
    (items.map (renamedName rename)).mapM chairName = some (names.map rename) := by
  induction items generalizing names with
  | nil =>
      cases read
      rfl
  | cons item items ih =>
      rw [List.mapM_cons, Option.bind_eq_bind, Option.bind_eq_some_iff] at read
      obtain ⟨name, first, rest⟩ := read
      rw [Option.bind_eq_bind, Option.bind_eq_some_iff] at rest
      obtain ⟨others, tail, same⟩ := rest
      cases same
      have new : chairName (renamedName rename item) = some (rename name) := by
        cases item with
        | str given =>
            rw [chairName] at first
            split_ifs at first
            cases first
            have written := named name (.head _)
            rw [renamedName, chairName, written]
            rfl
        | null | bool | int | float | list | object => cases first
      rw [List.map_cons, List.mapM_cons, new,
        ih tail fun other member => named other (.tail _ member)]
      rfl

theorem readWitnesses_renamed {value : JsonValue} {names : Option (List Str)}
    (injective : Function.Injective rename) (read : readWitnesses value = .ok names)
    (named : ∀ listed, names = some listed → ∀ name ∈ listed, isBlank (rename name) = false) :
    readWitnesses (renamedNames rename value) = .ok (names.map (List.map rename)) := by
  unfold readWitnesses at read
  split_ifs at read with all
  · cases read
    rw [all]
    rfl
  · cases value with
    | list items =>
        dsimp only at read
        cases given : items.mapM chairName with
        | none =>
            rw [given] at read
            cases read
        | some listed =>
            rw [given] at read
            obtain ⟨distinct, read⟩ := require_bind_eq_ok.mp read
            cases read
            have new := chairNames_renamed given (named listed rfl)
            rw [renamedNames, readWitnesses, if_neg (by simp)]
            simp only [new]
            rw [require_bind_of (distinct.map injective)]
            rfl
    | null | bool | int | float | str | object => cases read

/-- A table read under new names gives the switches under the new names. -/
theorem validateFeedTable_renamed {table : JsonValue} {switches : Switches}
    (injective : Function.Injective rename) (read : validateFeedTable table = .ok switches)
    (named : ∀ listed, switches.witnesses = some listed →
      ∀ name ∈ listed, isBlank (rename name) = false) :
    validateFeedTable (renamedTable rename table) = .ok (switches.renamed rename) := by
  cases table with
  | object fields =>
      obtain ⟨closed, read⟩ := require_bind_eq_ok.mp read
      obtain ⟨⟨⟩, types, read⟩ := bind_eq_ok.mp read
      obtain ⟨image, imageRead, read⟩ := bind_eq_ok.mp read
      obtain ⟨flat, flatRead, read⟩ := bind_eq_ok.mp read
      obtain ⟨drawn, drawnRead, read⟩ := bind_eq_ok.mp read
      obtain ⟨drawable, read⟩ := require_bind_eq_ok.mp read
      obtain ⟨coordinates, coordinatesRead, read⟩ := bind_eq_ok.mp read
      obtain ⟨lines, linesRead, read⟩ := bind_eq_ok.mp read
      obtain ⟨blocks, blocksRead, read⟩ := bind_eq_ok.mp read
      obtain ⟨witnesses, witnessesRead, read⟩ := bind_eq_ok.mp read
      cases read
      have names := readWitnesses_renamed injective witnessesRead named
      have closedAgain : hasExactly tableNames (fields.map (renamedField rename)) = true := by
        rw [hasExactly_renamed, closed]
      rw [renamedTable, validateFeedTable, require_bind_of closedAgain,
        fieldOf_renamed fields (by decide), types, ok_bind,
        fieldOf_renamed fields (by decide), imageRead, ok_bind,
        fieldOf_renamed fields (by decide), flatRead, ok_bind,
        fieldOf_renamed fields (by decide), drawnRead, ok_bind, require_bind_of drawable,
        fieldOf_renamed fields (by decide), coordinatesRead, ok_bind,
        fieldOf_renamed fields (by decide), linesRead, ok_bind,
        fieldOf_renamed fields (by decide), blocksRead, ok_bind, fieldOf_renamedNames, names]
      rfl
  | null | bool | int | float | str | list => cases read

end Table

section Rows

variable {rename} {witnesses : List Witness} {roster : List Str}

theorem checkedRoster_renamed (injective : Function.Injective rename)
    (checked : checkedRoster roster = .ok ())
    (named : ∀ chair ∈ roster, isBlank (rename chair) = false) :
    checkedRoster (roster.map rename) = .ok () :=
  require_eq_ok.mpr ⟨List.forall_mem_map.mpr named, (require_eq_ok.mp checked).2.map injective⟩

theorem checkedWitnesses_renamed {noTestimony : Bool} (injective : Function.Injective rename)
    (checked : checkedWitnesses rules witnesses .blinded roster noTestimony = .ok ())
    (masked : ∀ witness ∈ witnesses, witness.label ≠ rename witness.chair) :
    checkedWitnesses rules (witnesses.map (Witness.renamed rename)) .blinded (roster.map rename)
      noTestimony = .ok () := by
  rw [checkedWitnesses_eq_ok] at checked ⊢
  split_ifs at checked ⊢
  · rw [checked, List.map_nil]
  · have chairs : (witnesses.map (Witness.renamed rename)).map Witness.chair =
        (witnesses.map Witness.chair).map rename := by
      rw [List.map_map, List.map_map]
      rfl
    obtain ⟨digests, references, apart⟩ := checked.references
    refine ⟨?_, ?_, ?_, ⟨digests, ?_, apart⟩, ?_, ?_⟩
    · rw [List.forall_mem_map]
      intro witness member
      obtain ⟨-, rest⟩ := require_bind_eq_ok.mp (checked.each witness member)
      obtain ⟨-, adapter⟩ := require_bind_eq_ok.mp rest
      have apart : Regime.blinded = .blinded → (Witness.renamed rename witness).label ≠
          (Witness.renamed rename witness).chair := fun _ => masked witness member
      rw [checkedWitness, require_bind_of (by simp), require_bind_of apart]
      exact adapter
    · rw [chairs]
      exact checked.chairs.map injective
    · rw [List.map_map]
      exact checked.labels
    · rw [mapM_eq_ok, List.forall₂_map_left_iff]
      exact mapM_eq_ok.mp references
    · rw [chairs, List.forall_mem_map]
      exact fun chair member => List.mem_map_of_mem (checked.present chair member)
    · rw [chairs, List.forall_mem_map]
      exact fun chair member => List.mem_map_of_mem (checked.listed chair member)

theorem shownChairs_renamed {listed : Option (List Str)} {shown : List Str}
    (chosen : shownChairs listed roster = .ok shown) :
    shownChairs (listed.map (List.map rename)) (roster.map rename) = .ok (shown.map rename) := by
  cases listed with
  | none =>
      cases chosen
      rfl
  | some names =>
      obtain ⟨known, chosen⟩ := require_bind_eq_ok.mp chosen
      cases chosen
      rw [Option.map_some, shownChairs, require_bind_of]
      rw [List.forall_mem_map]
      exact fun name member => List.mem_map_of_mem (known name member)

/-- The shown witnesses and their order do not depend on what their chairs are called. -/
theorem orderedWitnesses_renamed (injective : Function.Injective rename) (shown : List Str) :
    orderedWitnesses (witnesses.map (Witness.renamed rename)) (shown.map rename) =
      (orderedWitnesses witnesses shown).map (Witness.renamed rename) := by
  have kept : (fun witness : Witness => decide (witness.chair ∈ shown.map rename)) ∘
      Witness.renamed rename = fun witness => decide (witness.chair ∈ shown) := by
    funext witness
    rw [Function.comp_apply, decide_eq_decide]
    exact List.mem_map_of_injective injective
  rw [orderedWitnesses, orderedWitnesses, List.filter_map, kept, sortBy_map]
  rfl

theorem rows_renamed {switches : Switches} {size : PageSize} {ordered : List Witness}
    {rows : List Row} (letters : List Char)
    (made : (letters.zip ordered).mapM (witnessRow switches .blinded size) = .ok rows) :
    (letters.zip (ordered.map (Witness.renamed rename))).mapM
      (witnessRow (switches.renamed rename) .blinded size) = .ok rows := by
  rw [List.zip_map_right, mapM_eq_ok, List.forall₂_map_left_iff]
  exact mapM_eq_ok.mp made

end Rows

section Sealed

variable {rename}

/-- A feed's overlay and prompt do not depend on the names in its switches. -/
theorem sealFeed_renamed {renderBytes : Option ByteArray} {recipe : Option Str} {feed : FeedRecord}
    {result : SealedFeed} (made : sealFeed rules renderBytes recipe feed = .ok result) :
    sealFeed rules renderBytes recipe (feed.renamed rename) =
      (digestOf rules (.object (named (feedFields (result.feed.renamed rename) result.prompt)))).map
        fun digest => ⟨result.feed.renamed rename, result.prompt, digest⟩ := by
  obtain ⟨overlay, drawn, made⟩ := bind_eq_ok.mp made
  obtain ⟨prompt, prompted, made⟩ := bind_eq_ok.mp made
  obtain ⟨digest, digested, made⟩ := bind_eq_ok.mp made
  cases made
  have drawnAgain : overlayOf rules renderBytes (feed.renamed rename) = .ok overlay := drawn
  have promptedAgain : promptOf rules recipe { feed.renamed rename with overlay := overlay } =
      .ok prompt := prompted
  rw [sealFeed, drawnAgain, ok_bind]
  dsimp only
  rw [promptedAgain, ok_bind]
  have same : { feed.renamed rename with overlay := overlay } =
      { feed with overlay := overlay }.renamed rename := rfl
  rw [same]
  cases digestOf rules (.object (named (feedFields ({ feed with overlay := overlay }.renamed rename)
    prompt))) <;> rfl

/-- Under the blinded regime new names for the chairs change the recorded switch and the digest
over it, and nothing else. -/
theorem assemble_renamed {arguments : Arguments} {result : SealedFeed}
    (injective : Function.Injective rename) (blinded : arguments.regime = .blinded)
    (named : ∀ chair ∈ arguments.roster, isBlank (rename chair) = false)
    (masked : ∀ witness ∈ arguments.witnesses, witness.label ≠ rename witness.chair)
    (assembled : assemblePageFeed rules arguments = .ok result) :
    assemblePageFeed rules (arguments.renamed rename) =
      (digestOf rules (.object (Canonical.named
        (feedFields (result.feed.renamed rename) result.prompt)))).map
        fun digest => ⟨result.feed.renamed rename, result.prompt, digest⟩ := by
  obtain ⟨switches, shown, rows, surya, steps⟩ := assemble_cases assembled
  have listed : ∀ names, switches.witnesses = some names →
      ∀ name ∈ names, isBlank (rename name) = false := by
    intro names given name member
    have chosen := steps.chairs
    rw [given] at chosen
    obtain ⟨known, -⟩ := require_bind_eq_ok.mp chosen
    exact named name (known name member)
  have witnessesChecked := steps.witnesses
  have rowsMade := steps.rowsMade
  rw [blinded] at witnessesChecked rowsMade
  have ordered := @orderedWitnesses_renamed rename arguments.witnesses injective shown
  have few := steps.few
  have newRows := @rows_renamed rename switches _ _ _ witnessLetters rowsMade
  rw [← ordered] at newRows
  rw [← List.length_map (f := Witness.renamed rename), ← ordered] at few
  have witnesses : checkedWitnesses rules (arguments.renamed rename).witnesses
      (arguments.renamed rename).regime (arguments.renamed rename).roster
      (arguments.renamed rename).noTestimony = .ok () := by
    change checkedWitnesses rules _ arguments.regime _ _ = _
    rw [blinded]
    exact checkedWitnesses_renamed injective witnessesChecked masked
  have made : (witnessLetters.zip (orderedWitnesses (arguments.renamed rename).witnesses
      (shown.map rename))).mapM (witnessRow (switches.renamed rename)
        (arguments.renamed rename).regime arguments.pageSize) = .ok rows := by
    rw [← newRows, ← blinded]
    rfl
  have again : Assembled rules (arguments.renamed rename) (switches.renamed rename)
      (shown.map rename) rows surya :=
    ⟨validateFeedTable_renamed injective steps.table listed, steps.size,
      checkedRoster_renamed injective steps.roster named, witnesses, shownChairs_renamed steps.chairs,
      few, made, steps.render, steps.suryaMade⟩
  rw [steps.eq] at assembled
  rw [← sealFeed_renamed assembled, again.eq]
  rfl

end Sealed

end Verbatus.PageFeed
