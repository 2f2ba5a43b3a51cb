import Verbatus.PageFeed.Rows

namespace Verbatus.PageFeed

open Library Library.Checked Refusal Python CodePoint Canonical Ink
open Identities (str)

/-- A page feed before its prompt and its digest. -/
structure FeedRecord where
  pageId : Str
  pageOrdinal : ℤ
  pageSize : PageSize
  regime : Regime
  switches : Switches
  pageRender : JsonValue
  overlay : Option JsonValue
  testified : Bool
  witnesses : List Row
  surya : Option Surya
  longestWitnessCharacters : ℕ
  actEntries : ℕ
  suryaLines : ℕ

/-- The lines of Surya a feed shows. -/
def FeedRecord.lines (feed : FeedRecord) : List Detection := (feed.surya.map Surya.lines).getD []

def FeedRecord.blocks (feed : FeedRecord) : List Detection := (feed.surya.map Surya.blocks).getD []

section Overlay

/-- The colour of each witness letter, in letter order. -/
def witnessColours : List String :=
  ["#d62728", "#1f77b4", "#2ca02c", "#9467bd", "#8c564b", "#e377c2", "#7f7f7f", "#bcbd22"]

def lineSource : String := "surya-line"

def blockSource : String := "surya-block"

def witnessSource (letter : Char) : String := "witness-" ++ String.singleton letter

/-- A boxed id the overlay draws. -/
structure Drawn where
  id : String
  source : String
  box : List ℤ

/-- `_source_colour` of a witness -/
def letterColour (letter : Char) : Except Refusal String :=
  match witnessColours[letter.toNat - 'A'.toNat]? with
  | some colour => .ok colour
  | none => refused "the overlay has 8 distinct witness colours, and a witness would repeat one; switch the overlay off or show fewer witnesses"

/-- A whole number; a Boolean counts as one. -/
def wholeNumber? : JsonValue → Option ℤ
  | .int value => some value
  | .bool value => some value.toNat
  | _ => none

def dimension (name : String) (dimensions : List (Str × JsonValue)) : Except Refusal (JsonValue × ℤ) :=
  match field? name dimensions with
  | none => .error (.keyError name)
  | some value =>
    match wholeNumber? value with
    | some number => .ok (value, number)
    | none => .error (.typeError "both arguments should be Rational instances")

/-- `_render_box` -/
def renderBox (box : Bounds) (page : PageSize) (width height : ℤ) : List ℤ :=
  let left := roundRatio (box.x * width) page.width
  let top := roundRatio (box.y * height) page.height
  let right := roundRatio ((box.x + box.w) * width) page.width
  let bottom := roundRatio ((box.y + box.h) * height) page.height
  let left := min left (width - 1)
  let top := min top (height - 1)
  [left, top, max right (left + 1), max bottom (top + 1)]

/-- Every id a feed shows with a box, and the source whose colour it has. -/
def drawnIds (feed : FeedRecord) (width height : ℤ) : List Drawn :=
  (feed.witnesses.flatMap fun row => row.units.filterMap fun unit =>
    match unit.box1000, unit.boxPx with
    | some _, some box =>
      some ⟨unit.id, witnessSource row.letter, renderBox box feed.pageSize width height⟩
    | _, _ => none) ++
  (feed.lines.map fun line =>
    ⟨line.id, lineSource, renderBox line.boxPx feed.pageSize width height⟩) ++
  feed.blocks.map fun block =>
    ⟨block.id, blockSource, renderBox block.boxPx feed.pageSize width height⟩

/-- The colours of the sources that are drawn. -/
def sourceColours (feed : FeedRecord) : Except Refusal (List (String × JsonValue)) := do
  let letters := (feed.witnesses.filter fun row =>
    row.units.any fun unit => unit.box1000.isSome && unit.boxPx.isSome).map Row.letter
  let colours ← letters.mapM fun letter =>
    (letterColour letter).map fun colour => (witnessSource letter, JsonValue.str (str colour))
  .ok ((if feed.blocks = [] then [] else [(blockSource, JsonValue.str (str "#17becf"))]) ++
    (if feed.lines = [] then [] else [(lineSource, JsonValue.str (str "#ff7f0e"))]) ++ colours)

def Drawn.json (item : Drawn) : JsonValue :=
  .object (named [("id", .str (str item.id)), ("source", .str (str item.source)),
    ("box", .list (item.box.map .int))])

/-- A dict's value under a key that must be there. -/
def entry (name : String) (value : JsonValue) : Except Refusal JsonValue :=
  match value with
  | .object fields =>
    match field? name fields with
    | some found => .ok found
    | none => .error (.keyError name)
  | _ => .error (.typeError "indices must be integers")

def asObject (value : JsonValue) : Except Refusal (List (Str × JsonValue)) :=
  match value with
  | .object fields => .ok fields
  | _ => .error (.typeError "indices must be integers")

/-- `overlay_plan` -/
def overlayPlan (feed : FeedRecord) : Except Refusal (List (String × JsonValue)) := do
  require (feed.pageRender ≠ .null)
    (.schemaRefusal "the page overlay is drawn on the page render, and none is shown")
  let dimensions ← entry "transform" feed.pageRender >>= entry "target_dimensions" >>= asObject
  let width ← dimension "w" dimensions
  let height ← dimension "h" dimensions
  let digest ← entry "image_sha256" feed.pageRender
  let colours ← sourceColours feed
  .ok [("source_image_sha256", digest),
    ("dimensions", .object (named [("w", width.1), ("h", height.1)])),
    ("label_scale", .int (max 1 (max width.2 height.2 / 800))),
    ("colours", .object (named colours)),
    ("drawn", .list ((drawnIds feed width.2 height.2).map Drawn.json))]

variable (rules : FeedRules) in
/-- `overlay_record` -/
def overlayRecord (renderBytes : ByteArray) (plan : List (String × JsonValue)) :
    Except Refusal JsonValue := do
  require (plan.lookup "source_image_sha256" = some (.str (rules.sha256 renderBytes)))
    (.schemaRefusal "the page render's bytes are not the render the feed shows")
  let png ← rules.drawOverlay renderBytes (.object (named plan))
  .ok (.object (named (plan ++ [("renderer_sha256", .str rules.rendererSha256),
    ("image_sha256", .str (rules.sha256 png))])))

end Overlay

section Shown

/-- `shows_nothing` -/
def showsNothing (feed : FeedRecord) : Bool :=
  decide (feed.pageRender = .null) &&
    !((feed.witnesses.any fun row => row.units.any fun unit => !unit.text.isEmpty) ||
      !feed.lines.isEmpty || !feed.blocks.isEmpty)

/-- What a feed shows, by kind. -/
structure Shown where
  image : Bool
  overlay : Bool
  witnesses : Bool
  flat : Bool
  witnessBoxes : Bool
  lines : Bool
  blocks : Bool

/-- `_shown` -/
def shownOf (feed : FeedRecord) : Shown where
  image := decide (feed.pageRender ≠ .null)
  overlay := feed.overlay.isSome
  witnesses := feed.witnesses.any fun row => !row.units.isEmpty
  flat := feed.switches.flat
  witnessBoxes := feed.witnesses.any fun row => row.units.any fun unit => unit.box1000.isSome
  lines := !feed.lines.isEmpty
  blocks := !feed.blocks.isEmpty

end Shown

section Lines

def intText (number : ℤ) : Str := Str.ofChars (decimal number)

/-- `_box` of a prompt's line -/
def boxText : Option (List ℤ) → Str
  | none => []
  | some box => str " [" ++ (str ",").intercalate (box.map intText) ++ str "]"

def labelText : Option Str → Str
  | none => []
  | some label => str " (" ++ quoted label ++ str ")"

/-- `_witness_lines` -/
def witnessLines (row : Row) (flat : Bool) : List Str :=
  if flat = true then
    let ids := match row.units with
      | [only] => only.id
      | units => ((units.head?.map ShownUnit.id).getD "") ++ "-" ++
          ((units.getLast?.map ShownUnit.id).getD "")
    let texts := (row.units.map ShownUnit.text).filter fun text => !text.isEmpty
    [str ids ++ str " " ++ quoted ((str "\n").intercalate texts)]
  else row.units.map fun unit =>
    str unit.id ++ boxText unit.box1000 ++ labelText unit.label ++ str " " ++ quoted unit.text

def repeating : JsonValue := .str (str "post-hoc-repetition")

def repetitionFindings (fields : List (Str × JsonValue)) : List JsonValue :=
  match fieldOf "repetition" fields with
  | .list items => items
  | _ => []

/-- What a witness's own answer shows about itself. -/
def healthNotes (health : JsonValue) : Str :=
  match health with
  | .object fields =>
    let notes := (if fieldOf "truncated" fields = .bool true then
        ["this witness's answer was cut off before it finished"] else []) ++
      if ((repetitionFindings fields).any fun finding => match finding with
          | .object given => decide (fieldOf "kind" given = repeating)
          | _ => false) = true then
        ["this witness's answer repeats one passage over and over"] else []
    if notes = [] then [] else str " -- " ++ (str "; ").intercalate (notes.map str)
  | _ => []

/-- A witness's line and its units' lines. -/
def rowLines (flat : Bool) (row : Row) : List Str :=
  let head := str "witness " ++ [scalar row.letter] ++ str " (" ++ row.label ++ str ")"
  if row.outcome ≠ readOutcome then [head ++ str ": " ++ row.outcome ++ str ", no units"]
  else if row.units = [] then [head ++ str ": read, no text" ++ healthNotes row.answerHealth]
  else (head ++ healthNotes row.answerHealth) :: witnessLines row flat

def detectionLine (detection : Detection) : Str :=
  str detection.id ++ boxText (some detection.box1000)

def witnessHeader (shown : Shown) : List Str :=
  if shown.witnesses = false then []
  else if shown.flat = true then
    [str "witnesses: what other readers transcribed from this page, one line per witness: the range of its unit ids, then all its text as one JSON string."]
  else
    [str "witnesses: what other readers transcribed from this page, each in its own units. Each line is one unit: its id," ++
      str (if shown.witnessBoxes then " its box_1000," else "") ++
      str " its label as a JSON string in parentheses where it has one, and its text as a JSON string. A unit labelled \"outside units\" is text the witness wrote outside its own units."]

def lineLines (shown : Shown) (lines : List Detection) : List Str :=
  if shown.lines = true then
    str "surya lines: text lines a layout detector found, with their box_1000." ::
      lines.map detectionLine
  else []

/-- The blocks of Surya; a raster order is no reading order, and its line says so. -/
def blockLines (shown : Shown) (head : Bool) (blocks : List Detection) : List Str :=
  if shown.blocks = true then
    (str "surya blocks: layout blocks the same detector found, " ++
      str (if head then "in the reading order that detector predicted"
        else "in raster order (top to bottom, then left to right), not a reading order") ++
      str ", with their box_1000 and label.") ::
      blocks.map fun block => detectionLine block ++ labelText block.label
  else []

/-- Whether Surya's reading-order model placed the blocks. -/
def orderHead (feed : FeedRecord) : Bool :=
  ((feed.surya.bind Surya.census).map fun census => census.2.1).getD false

/-- `_feed_parts` -/
def feedParts (feed : FeedRecord) : List Str :=
  let shown := shownOf feed
  [str "page " ++ intText feed.pageOrdinal] ++
  [str (if shown.image then "first image: the page." else "page image: not shown.")] ++
  (if shown.overlay = true then
    [str "second image: the same page with each boxed id below outlined and labelled with its id, to show where each clue lies; read the ink from the first image."]
  else []) ++
  [str "witness regime: " ++ str feed.regime.text] ++ witnessHeader shown ++
  feed.witnesses.flatMap (rowLines shown.flat) ++ lineLines shown feed.lines ++
  blockLines shown (orderHead feed) feed.blocks ++
  if shown.witnessBoxes = true ∨ shown.lines = true ∨ shown.blocks = true then
    [str "coordinates: box_1000 = [x0,y0,x1,y1] on a 0-1000 grid of the page, from its top-left corner."]
  else []

/-- `_rendered` -/
def rendered (lines : List Str) : Str := (str "\n").intercalate lines

end Lines

section Instruction

def transcribeSentence : String :=
  "Transcribe the ink exactly as it is written on the page. Do not modernize spelling, expand abbreviations, or correct the scribe. "

def doubtSentence : String :=
  "Where ink cannot be read, write [[?]] in its place. Where a reading is uncertain, write it as [[reading]], or as [[reading|other|other]] to add other possible readings. "

def answerForm : String :=
  "\x7b\"page_type\": \"<page type>\", \"writing\": \"<how the page is written>\", \"entries\": [\x7b\"n\": 1, \"kind\": \"<entry kind>\", \"label\": \"<a few words>\", \"cites\": [\"<id>\", \"<first unit id>-<last unit id>\"], \"text\": \"<the entry's text>\", \"continues_from_previous_page\": false, \"continues_to_next_page\": false\x7d], \"set_aside\": [\x7b\"id\": \"<id>\", \"reason\": \"<short reason>\"\x7d]\x7d"

def pageTypeSentence : String :=
  "First name the page's type, page_type: \"register-acts\" for a parish or civil register of acts (baptisms, marriages, burials and other registered acts); \"index\" for an index or table of names that points to acts elsewhere; \"table\" for a list or census-like table of rows, such as a family or wage list; \"ledger\" for accounts or a journal of dated entries with amounts; \"instrument\" for a notarial act, a contract, an engagement or a filled-in form; \"prose\" for a letter, a note, an attestation or other running text; \"blank\" for a page with no writing. Name how the page is written, writing: \"handwritten\", \"typed\", \"printed\" or \"mixed\". "

def entryKindSentence : String :=
  "Give each entry a kind: \"act\" for one registered act, such as a baptism, a marriage or a burial, with its margin note and its signatures; \"index-row\" for one row of an index; \"table-row\" for one row of a table or list; \"ledger-entry\" for one entry of accounts; \"instrument\" for one notarial act or contract, whole; \"paragraph\" for one paragraph of running text; \"other\" for every other text on the page, such as a heading, a page number or a marginal note that is not an entry. "

/-- `_listed` -/
def listed (names : List String) : Except Refusal String :=
  match names.reverse with
  | [] => .error (.indexError "list index out of range")
  | [only] => .ok only
  | last :: others => .ok (", ".intercalate others.reverse ++ " and " ++ last)

/-- The names of what is shown, of three kinds. -/
def shownNames (shown : Shown) (unit line block : String) : List String :=
  (if shown.witnesses then [unit] else []) ++ (if shown.lines then [line] else []) ++
    if shown.blocks then [block] else []

/-- What the reader is told of the image and the clues. -/
def opening (shown : Shown) : Except Refusal String :=
  let clues := shownNames shown "the witness units" "the detected lines" "the detected blocks"
  if shown.image = true then
    if clues = [] then .ok "Read this page from its ink in the page image. "
    else do
      let names ← listed clues
      .ok ("Read this page from its ink in the page image. " ++ names.capitalize ++
        " above are clues to help you find and read the ink; any of them may be wrong, incomplete or in disagreement with the others, and none of them is an answer. ")
  else do
    let names ← listed clues
    .ok ("No page image is shown. The reading is made from what was reported of this page: " ++
      names ++ " above. Any of them may be wrong or incomplete. ")

/-- The letter of the first witness with a unit. -/
def exampleLetter (feed : FeedRecord) : Option Char :=
  (feed.witnesses.find? fun row => !row.units.isEmpty).map Row.letter

/-- How ids are cited, by range and one at a time. -/
def ranges (feed : FeedRecord) (shown : Shown) : Except Refusal (List String) := do
  let units := match exampleLetter feed with
    | some letter => ["where a range of witness units such as " ++ idOf letter 2 ++ "-" ++
        idOf letter 5 ++ " stands for every unit of that witness from the first to the last"]
    | none => []
  if shown.lines = true ∨ shown.blocks = true then do
    let detected ← listed (shownNames { shown with witnesses := false } "unit" "line" "block")
    .ok (units ++ ["each detected " ++ detected ++ " cited by its own id, never by a range"])
  else .ok units

def citeClause (feed : FeedRecord) (shown : Shown) : Except Refusal String :=
  let kinds := shownNames shown "unit" "line" "block"
  if kinds = [] then .ok "cites, an empty list, since no ids are shown; "
  else do
    let names ← listed kinds
    let ranges ← ranges feed shown
    .ok ("cites, the ids of every " ++ names ++ " " ++
      (if shown.image then "its ink covers" else "it is read from") ++ ", " ++
      ", and ".intercalate ranges ++ "; ")

def fidelity (shown : Shown) : String :=
  if shown.image then
    transcribeSentence ++
      "Read only what the page image shows: where an entry's ink runs past the edge of the image, stop at the edge and write [[?]] there. " ++
      doubtSentence
  else "Give each text as the witnesses report it: do not modernize spelling, expand abbreviations, or correct it. Where the witnesses disagree about a reading, or none of them reports it, write [[?]] in its place. "

/-- What becomes of every id shown. -/
def accounting (shown : Shown) : String :=
  if shownNames shown "unit" "line" "block" = [] then ""
  else "Every id shown above is either cited by an entry or set aside. " ++
    (if shown.witnesses then
      "Cite every witness unit whose text you read, also where another witness's unit reads the same text. "
    else "") ++
    "Set aside only an id with nothing to read -- one that is empty or is not text" ++
    (if shown.lines ∨ shown.blocks then
      " -- or a detected line or block that repeats another detection"
    else "") ++
    ", with a short reason, such as \"empty\" or \"not text\". "

/-- `page_reading_instruction` -/
def pageReadingInstruction (feed : FeedRecord) : Except Refusal String := do
  let shown := shownOf feed
  let opened ← opening shown
  let cite ← citeClause feed shown
  .ok (opened ++
    "Establish all the text written on the page, entry by entry, in the order it is written, numbered n = 1, 2, 3 and so on. " ++
    pageTypeSentence ++ entryKindSentence ++ "Every text on the page is read, whatever its kind. " ++
    "For each entry give: " ++ cite ++
    "label, if you wish, a few words naming the entry, at most 80 characters; and " ++
    (if shown.image then "text, the entry transcribed from the ink"
      else "text, the entry as the witnesses report it") ++ ". " ++
    (if shown.witnesses = true ∧ shown.flat = true then
      "A witness shown on one line is one unit with no box: cite it by the range of ids before its text. "
    else "") ++ fidelity shown ++ accounting shown ++
    "Set continues_from_previous_page to true only on the first act or instrument, when it began on an earlier page, and continues_to_next_page to true only on the last act or instrument, when it runs onto the next page; every other value of both is false. Answer with one JSON object and nothing else, with no code fence, in this form: " ++
    answerForm)

/-- The recipes that serve another recipe's model with its prompt. -/
def recipeAliases : List String :=
  ["fp8", "fp8-mtp3", "fp8-mtp1", "fp8-kvfp8", "nvfp4", "nvfp4-mtp3"].map
    fun variant => "unproven-real-perlector-" ++ variant

variable (rules : FeedRules)

/-- The lines a recipe's builder writes, and the instruction it sends, if any. -/
def builtFor (recipe : Str) (feed : FeedRecord) : Except Refusal (List Str × Option String) :=
  if recipe = str "fake-perlector-v0" then .ok (feedParts feed, none)
  else if recipe ∈ ("unproven-real-perlector" :: recipeAliases).map str then do
    let instruction ← pageReadingInstruction feed
    .ok (feedParts feed ++ [str instruction], some instruction)
  else .error (.valueError s!"no declared page prompt builder is registered for serving recipe {quote (plainText recipe)}; a chair with no registered builder is never silently served a default template")

def encoded (text : Str) : Except Refusal ByteArray :=
  match text.encode with
  | some data => .ok data
  | none => .error (.valueError "surrogates not allowed")

/-- `page_prompt_evidence` -/
def pagePromptEvidence (recipe : Str) (feed : FeedRecord) : Except Refusal JsonValue := do
  let (lines, instruction) ← builtFor recipe feed
  let data ← encoded (rendered lines)
  .ok (.object (named [("serving_recipe", .str recipe), ("builder_sha256", .str rules.builderSha256),
    ("rendered_sha256", .str (rules.sha256 data)),
    ("instruction_sha256", match instruction with
      | none => .null
      | some text => .str (rules.sha256 text.toUTF8))]))

end Instruction

end Verbatus.PageFeed
