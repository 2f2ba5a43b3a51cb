import Verbatus.PageFeed.Prompt

namespace Verbatus.PageFeed

open Library Library.Checked Refusal Python CodePoint Canonical Ink
open Identities (str)

section Measure

/-- The unit kinds about one act in size. -/
def actSizedUnitKinds : List String := ["layout-block", "detector-record"]

def largest (counts : List ℕ) : ℕ := counts.foldr max 0

/-- The characters of a row's texts. -/
def rowCharacters (row : Row) : ℕ := (row.units.map fun unit => unit.text.length).sum

/-- The units of a row that count as acts, where its adapter's units are about one act. -/
def rowActs (row : Row) : Option ℕ :=
  if row.unitKind ∈ actSizedUnitKinds then
    some (row.units.countP fun unit => unit.ordinal.isSome)
  else none

end Measure

section Assemble

/-- What a page feed is assembled from. -/
structure Arguments where
  pageId : Str
  pageOrdinal : ℤ
  pageSize : PageSize
  feedSwitches : JsonValue
  regime : Regime
  roster : List Str
  witnesses : List Witness
  surya : SuryaInput
  pageRender : JsonValue
  servingRecipe : Option Str
  renderBytes : Option ByteArray
  noTestimony : Bool

/-- A feed with its prompt and its digest. -/
structure SealedFeed where
  feed : FeedRecord
  prompt : JsonValue
  digest : Str

/-- `_checked_page_render` -/
def checkedPageRender (render : JsonValue) (image : PageImage) (size : PageSize) :
    Except Refusal Unit :=
  if image = .off then
    require (render = .null)
      (.schemaRefusal "the sealed feed shows no page image, but a page render was given")
  else match render with
    | .object fields =>
      match fieldOf "transform" fields with
      | .object transform => do
        require (image = .full → fieldOf "resampler" transform = .str (str "identity") ∧
            pythonEqual (fieldOf "target_dimensions" transform)
              (.object (named [("w", .int size.width), ("h", .int size.height)])) = true)
          (.schemaRefusal "the sealed feed shows the full page, but the render is resized")
        require (image = .legible → fieldOf "reason" fields = .str (str "legible-ink"))
          (.schemaRefusal "the sealed feed shows the legible page render, but this render is not one")
      | _ => refused s!"the sealed feed shows the page image ({image.text}) but none was given"
    | _ => refused s!"the sealed feed shows the page image ({image.text}) but none was given"

/-- The shown witnesses in order of their labels. -/
def orderedWitnesses (witnesses : List Witness) (shown : List Str) : List Witness :=
  sortBy Witness.label (witnesses.filter fun witness => decide (witness.chair ∈ shown))

/-- The fields of a feed that are digested. -/
def feedFields (feed : FeedRecord) (prompt : JsonValue) : List (String × JsonValue) :=
  [("schema", .str (str "perlector-page-feed.v2")), ("page_id", .str feed.pageId),
    ("page_ordinal", .int feed.pageOrdinal),
    ("page_size", .object (named [("w", .int feed.pageSize.width), ("h", .int feed.pageSize.height)])),
    ("witness_regime", .str (str feed.regime.text)), ("switches", feed.switches.json),
    ("page_render", feed.pageRender), ("overlay", feed.overlay.getD .null),
    ("witness_testimony", .str (str (if feed.testified then "present" else "none"))),
    ("witnesses", .list (feed.witnesses.map Row.json)),
    ("surya", (feed.surya.map Surya.json).getD .null),
    ("answer_measure", .object (named [
      ("longest_witness_characters", .int feed.longestWitnessCharacters),
      ("act_entries", .int feed.actEntries), ("surya_lines", .int feed.suryaLines)])),
    ("prompt", prompt)]

variable (rules : FeedRules)

/-- The overlay of a feed whose switch draws one. -/
def overlayOf (renderBytes : Option ByteArray) (feed : FeedRecord) :
    Except Refusal (Option JsonValue) :=
  if feed.switches.pageOverlay = false then .ok none
  else match renderBytes with
    | none => refused "the sealed feed draws the page overlay, but the page render's bytes were not given"
    | some data => do
      let plan ← overlayPlan feed
      let record ← overlayRecord rules data plan
      .ok (some record)

/-- The prompt of a feed that a request can be made from. -/
def promptOf (recipe : Option Str) (feed : FeedRecord) : Except Refusal JsonValue :=
  match recipe with
  | none => .ok .null
  | some recipe => if showsNothing feed = true then .ok .null else pagePromptEvidence rules recipe feed

/-- A feed with its overlay, its prompt and its digest. -/
def sealFeed (renderBytes : Option ByteArray) (recipe : Option Str) (feed : FeedRecord) :
    Except Refusal SealedFeed := do
  let overlay ← overlayOf rules renderBytes feed
  let feed := { feed with overlay := overlay }
  let prompt ← promptOf rules recipe feed
  let digest ← digestOf rules (.object (named (feedFields feed prompt)))
  .ok ⟨feed, prompt, digest⟩

/-- A feed without its overlay. -/
def plainFeed (arguments : Arguments) (switches : Switches) (rows : List Row)
    (surya : Option Surya) : FeedRecord :=
  let read := rows.filter fun row => decide (row.outcome = readOutcome)
  let lines := (surya.map Surya.lines).getD []
  let blocks := (surya.map Surya.blocks).getD []
  { pageId := arguments.pageId, pageOrdinal := arguments.pageOrdinal,
    pageSize := arguments.pageSize, regime := arguments.regime, switches := switches,
    pageRender := arguments.pageRender, overlay := none, testified := !arguments.noTestimony,
    witnesses := rows, surya := surya,
    longestWitnessCharacters := largest (read.map rowCharacters),
    actEntries := largest (blocks.length :: read.filterMap rowActs), suryaLines := lines.length }

/-- `assemble_page_feed` -/
def assemblePageFeed (arguments : Arguments) : Except Refusal SealedFeed := do
  let switches ← validateFeedTable arguments.feedSwitches
  require (0 < arguments.pageSize.width ∧ 0 < arguments.pageSize.height)
    (.schemaRefusal "page size is not two positive integers")
  checkedRoster arguments.roster
  checkedWitnesses rules arguments.witnesses arguments.regime arguments.roster arguments.noTestimony
  let shown ← shownChairs switches.witnesses arguments.roster
  let ordered := orderedWitnesses arguments.witnesses shown
  require (ordered.length ≤ witnessLetters.length) (.schemaRefusal
    "witnesses are shown, more than the letters a witness may take (every capital but L and S)")
  let rows ← (witnessLetters.zip ordered).mapM
    (witnessRow switches arguments.regime arguments.pageSize)
  checkedPageRender arguments.pageRender switches.pageImage arguments.pageSize
  let surya ← suryaShown arguments.surya switches arguments.pageSize
  sealFeed rules arguments.renderBytes arguments.servingRecipe (plainFeed arguments switches rows surya)

end Assemble

end Verbatus.PageFeed
