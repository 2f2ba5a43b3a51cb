import Verbatus.Contracts.References
import Verbatus.Ink.Background

namespace Verbatus.PageFeed

open Library Library.Checked Refusal Python CodePoint Canonical Ink
open Identities (str)

/-- What a feed is told by its host: its digest, and the code of the two renderers it records. -/
structure FeedRules where
  sha256 : ByteArray → Str
  builderSha256 : Str
  rendererSha256 : Str
  drawOverlay : ByteArray → JsonValue → Except Refusal ByteArray

def refused {α : Type} (message : String) : Except Refusal α := .error (.schemaRefusal message)

variable (rules : FeedRules) in
/-- `digest_of` -/
def digestOf (value : JsonValue) : Except Refusal Str := (recordBytes value).map rules.sha256

section Table

inductive PageImage where
  | legible
  | full
  | off
  deriving DecidableEq

def PageImage.text : PageImage → String
  | legible => "legible"
  | full => "full"
  | off => "off"

/-- The sealed switches of a feed; without a list every witness is shown. -/
structure Switches where
  pageImage : PageImage
  witnesses : Option (List Str)
  flat : Bool
  witnessCoordinates : Bool
  suryaLines : Bool
  suryaBlocks : Bool
  pageOverlay : Bool
  deriving DecidableEq

def tableNames : List String := ["page_image", "witnesses", "witness_units", "witness_coordinates",
  "surya_lines", "surya_blocks", "page_overlay", "page_types"]

def tableError (problem : String) : Refusal :=
  .contractError ("the Perlector protocol declaration's [feed]" ++ problem)

/-- A setting among those its field may have. -/
def readSetting {α : Type} (field : String) (settings : List (String × α)) (value : JsonValue) :
    Except Refusal α :=
  match settings.find? fun setting => decide (value = .str (str setting.1)) with
  | some setting => .ok setting.2
  | none => .error (tableError s!" {field} is not one of its settings")

def readFlag (field : String) (value : JsonValue) : Except Refusal Bool :=
  match value with
  | .bool flag => .ok flag
  | _ => .error (tableError s!" {field} is not true or false")

/-- A name with something in it. -/
def chairName (value : JsonValue) : Option Str :=
  match value with
  | .str name => if isBlank name then none else some name
  | _ => none

def readWitnesses (value : JsonValue) : Except Refusal (Option (List Str)) :=
  if value = .str (str "all") then .ok none
  else match value with
    | .list items =>
      match items.mapM chairName with
      | some names => do
        require names.Nodup
          (tableError " witnesses is neither 'all' nor a list of distinct chair names")
        .ok (some names)
      | none => .error (tableError " witnesses is neither 'all' nor a list of distinct chair names")
    | _ => .error (tableError " witnesses is neither 'all' nor a list of distinct chair names")

/-- `validate_feed_table` -/
def validateFeedTable (table : JsonValue) : Except Refusal Switches :=
  match table with
  | .object fields => do
    require (hasExactly tableNames fields = true) (tableError
      " is not its closed schema; a feed switch this build does not read cannot be applied")
    let _ ← readSetting "page_types" [("named", ())] (fieldOf "page_types" fields)
    let image ← readSetting "page_image"
      [("legible", PageImage.legible), ("full", .full), ("off", .off)] (fieldOf "page_image" fields)
    let flat ← readSetting "witness_units" [("own", false), ("flat", true)]
      (fieldOf "witness_units" fields)
    let drawn ← readSetting "page_overlay" [("off", false), ("boxes", true)]
      (fieldOf "page_overlay" fields)
    require (drawn = false ∨ image ≠ .off) (tableError
      " page_overlay draws on a copy of the page render, but page_image is off")
    let coordinates ← readFlag "witness_coordinates" (fieldOf "witness_coordinates" fields)
    let lines ← readFlag "surya_lines" (fieldOf "surya_lines" fields)
    let blocks ← readFlag "surya_blocks" (fieldOf "surya_blocks" fields)
    let witnesses ← readWitnesses (fieldOf "witnesses" fields)
    .ok ⟨image, witnesses, flat, coordinates, lines, blocks, drawn⟩
  | _ => .error (tableError
      " is not its closed schema; a feed switch this build does not read cannot be applied")

/-- The switches as the feed records them. -/
def Switches.json (switches : Switches) : JsonValue :=
  .object (named [("page_image", .str (str switches.pageImage.text)),
    ("witnesses", match switches.witnesses with
      | none => .str (str "all")
      | some names => .list (names.map .str)),
    ("witness_units", .str (str (if switches.flat then "flat" else "own"))),
    ("witness_coordinates", .bool switches.witnessCoordinates),
    ("surya_lines", .bool switches.suryaLines), ("surya_blocks", .bool switches.suryaBlocks),
    ("page_overlay", .str (str (if switches.pageOverlay then "boxes" else "off"))),
    ("page_types", .str (str "named"))])

end Table

section Boxes

structure PageSize where
  width : ℤ
  height : ℤ
  deriving DecidableEq

def boxNames : List String := ["x", "y", "w", "h"]

def boxJson (box : Bounds) : JsonValue :=
  .object (named [("x", .int box.x), ("y", .int box.y), ("w", .int box.w), ("h", .int box.h)])

def outsidePage (what : String) (size : PageSize) : Refusal :=
  .schemaRefusal (what ++ " is not a positive x, y, w, h rectangle inside the " ++
    toString size.width ++ "x" ++ toString size.height ++ " page")

/-- A box of whole numbers. -/
def readBox (value : JsonValue) : Option Bounds :=
  match value with
  | .object fields =>
    if hasExactly boxNames fields = true then
      match fieldOf "x" fields, fieldOf "y" fields, fieldOf "w" fields, fieldOf "h" fields with
      | .int x, .int y, .int w, .int h => some ⟨x, y, w, h⟩
      | _, _, _, _ => none
    else none
  | _ => none

/-- `checked_box` -/
def checkedBox (value : JsonValue) (size : PageSize) (what : String) : Except Refusal Bounds :=
  match readBox value with
  | some box => do
    require (0 ≤ box.x ∧ 0 ≤ box.y ∧ 0 < box.w ∧ 0 < box.h ∧ box.x + box.w ≤ size.width ∧
      box.y + box.h ≤ size.height) (outsidePage what size)
    .ok box
  | none => .error (outsidePage what size)

/-- `round` of a ratio of whole numbers: to the nearest, a half to the even one. -/
def roundRatio (part whole : ℤ) : ℤ :=
  let low := part / whole
  let rest := 2 * (part % whole)
  if rest < whole ∨ (rest = whole ∧ low % 2 = 0) then low else low + 1

def boxScale : ℤ := 1000

/-- `box_1000` -/
def box1000 (box : Bounds) (size : PageSize) : List ℤ :=
  [roundRatio (box.x * boxScale) size.width, roundRatio (box.y * boxScale) size.height,
    roundRatio ((box.x + box.w) * boxScale) size.width,
    roundRatio ((box.y + box.h) * boxScale) size.height]

end Boxes

end Verbatus.PageFeed
