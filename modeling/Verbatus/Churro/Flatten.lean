import Verbatus.Churro.TextView
import Verbatus.Contracts.Dicts

namespace Verbatus.Churro

open Library Python
open Identities (str)

def documentRootElement : Str := str "HistoricalDocument"
def pageElement : Str := str "Page"
def metadataElement : Str := str "Metadata"
def lineElement : Str := str "Line"

/-- The sections of a page in the order they are read in. -/
def pageSectionNames : List Str := [str "Header", str "Body", str "Footer"]

def markedSpanKinds : List Str :=
  [str "Addition", str "Deletion", str "Illegible", str "Gap", str "InterlinearNote",
    str "Description"]

def maxDocumentDepth : ℕ := 256

/-- An element of a parsed answer: which one it is, its tag (a comment has no text for one), its
    text, its children and the text that follows it. -/
inductive Element where
  | mk (ident : ℕ) (tag : Option Str) (text : Option Str) (children : List Element)
    (tail : Option Str)

/-- A text of an element or the tail of one, which is some text. -/
structure TextRun where
  element : ℕ
  isTail : Bool
  characters : Str
  deriving DecidableEq, Repr

namespace Element

def ident : Element → ℕ
  | mk ident _ _ _ _ => ident

def tag : Element → Option Str
  | mk _ tag _ _ _ => tag

def text : Element → Option Str
  | mk _ _ text _ _ => text

def children : Element → List Element
  | mk _ _ _ children _ => children

def tail : Element → Option Str
  | mk _ _ _ _ tail => tail

/-- `_local(element.tag)` -/
def localName (element : Element) : Str :=
  match element.tag with
  | some tag => (tag.reverse.takeWhile (· ≠ .scalar '}')).reverse
  | none => []

def isPage (element : Element) : Bool := element.localName = pageElement

def isSection (element : Element) : Bool := element.localName ∈ pageSectionNames

def runOf (ident : ℕ) (isTail : Bool) : Option Str → List TextRun
  | some (point :: rest) => [⟨ident, isTail, point :: rest⟩]
  | _ => []

def textRun (element : Element) : List TextRun := runOf element.ident false element.text

def tailRun (element : Element) : List TextRun := runOf element.ident true element.tail

mutual

def size : Element → ℕ
  | mk _ _ _ children _ => 1 + sizes children

def sizes : List Element → ℕ
  | [] => 0
  | child :: rest => child.size + sizes rest

end

mutual

/-- `element.iter()` -/
def iter : Element → List Element
  | mk ident tag text children tail => mk ident tag text children tail :: iters children

def iters : List Element → List Element
  | [] => []
  | child :: rest => child.iter ++ iters rest

end

end Element

/-- Whether a text has anything but ASCII whitespace in it. -/
def hasInk (text : Option Str) : Bool := (text.getD []).any visible

/-- One text of a walk; outside a line, one that is not blank is its own line. -/
def addText (builder : TextBuilder) (text : Option Str) (insideLine : Bool) : TextBuilder :=
  match text with
  | none | some [] => builder
  | some text =>
    if insideLine then builder.add text
    else if ¬ text.any visible then builder
    else ((builder.breakLine 1).add text).breakLine 1

structure MarkedSpan where
  kind : Str
  start : ℕ
  stop : ℕ
  deriving DecidableEq, Repr

/-- What a flattening raises; an element may be nested too deep. -/
inductive FlattenError where
  | tooDeep
  | refused (refusal : Refusal)
  deriving DecidableEq, Repr

/-- A builder, and the marked spans found so far. -/
structure Walked where
  builder : TextBuilder
  spans : List MarkedSpan

def endMark (builder : TextBuilder) (ident : ℕ) :
    Except FlattenError ((ℕ × ℕ) × TextBuilder) :=
  (builder.endMark ident).mapError .refused

/-- The mark a child begins, if it is one of the marked kinds. -/
def beginSpan (child : Element) (builder : TextBuilder) : Option ℕ × TextBuilder :=
  if child.localName ∈ markedSpanKinds then (some builder.beginMark.1, builder.beginMark.2)
  else (none, builder)

def endSpan (child : Element) (mark : Option ℕ) (walked : Walked) :
    Except FlattenError Walked :=
  match mark with
  | none => .ok walked
  | some ident => do
    let ((start, stop), builder) ← endMark walked.builder ident
    pure ⟨builder, walked.spans ++ [⟨child.localName, start, stop⟩]⟩

def breakIf (isLine : Bool) (builder : TextBuilder) : TextBuilder :=
  if isLine then builder.breakLine 1 else builder

mutual

/-- Flatten one subtree in document order; the `Line` elements under it are counted. -/
def walk : Element → Bool → ℕ → Walked → Except FlattenError (ℕ × Walked)
  | .mk _ _ text children _, insideLine, depth, walked =>
    if depth > maxDocumentDepth then .error .tooDeep
    else
      walkChildren children insideLine depth
        { walked with builder := addText walked.builder text insideLine }

def walkChildren : List Element → Bool → ℕ → Walked → Except FlattenError (ℕ × Walked)
  | [], _, _, walked => .ok (0, walked)
  | child :: rest, insideLine, depth, walked => do
    -- a line inside a line continues it
    let isLine := child.localName = lineElement && !insideLine
    let (mark, builder) := beginSpan child walked.builder
    let (lines, inner) ← walk child (insideLine || isLine) (depth + 1)
      { walked with builder := breakIf isLine builder }
    let ended ← endSpan child mark { inner with builder := breakIf isLine inner.builder }
    let (more, last) ← walkChildren rest insideLine depth
      { ended with builder := addText ended.builder child.tail insideLine }
    pure (lines + (if isLine then 1 else 0) + more, last)

end

/-- The stack of a page's search, its next element first: the sections met, and whether text that
    is not blank lies outside them. -/
def searchSections : ℕ → List Element → List Element × Bool
  | 0, _ | _, [] => ([], false)
  | fuel + 1, element :: stack =>
    let tailInk := hasInk element.tail
    if element.isPage then
      let (sections, outside) := searchSections fuel stack
      (sections, tailInk || outside)
    else if element.isSection then
      let (sections, outside) := searchSections fuel stack
      (element :: sections, tailInk || outside)
    else
      let (sections, outside) := searchSections fuel (element.children ++ stack)
      (sections, tailInk || hasInk element.text || outside)

/-- A page's own sections in document order, and whether ink lies outside them. -/
def pageSections (page : Element) : List Element × Bool :=
  let (sections, outside) := searchSections page.size page.children
  (sections, hasInk page.text || outside)

/-- What was found beside a parse. -/
inductive Finding where
  | promptEchoTrimmed (characters : ℕ)
  | strayMarkupEscaped (characters : ℕ)
  | pageTextOutsideSections (pageOrdinal : ℕ)
  | documentTextOutsidePages
  deriving DecidableEq, Repr

structure SectionSpan where
  pageOrdinal : ℕ
  name : Str
  start : ℕ
  stop : ℕ
  lines : ℕ
  deriving DecidableEq, Repr

structure Flattening where
  walked : Walked
  sections : List SectionSpan
  findings : List Finding

def flattenSection (pageOrdinal : ℕ) (name : Str) (state : Flattening) (section_ : Element) :
    Except FlattenError Flattening := do
  let (ident, builder) := (state.walked.builder.breakLine 1).beginMark
  let (lines, walked) ← walk section_ false 1 { state.walked with builder }
  let ((start, stop), builder) ← endMark walked.builder ident
  pure { state with
    walked := { walked with builder }
    sections := state.sections ++ [⟨pageOrdinal, name, start, stop, lines⟩] }

def flattenPage (state : Flattening) (page : Element × ℕ) : Except FlattenError Flattening := do
  let broken := if page.2 > 1 then state.walked.builder.breakLine 2 else state.walked.builder
  let (owned, outside) := pageSections page.1
  let found := if outside then [Finding.pageTextOutsideSections page.2] else []
  pageSectionNames.foldlM
    (fun state name => (owned.filter (·.localName = name)).foldlM (flattenSection page.2 name) state)
    { state with
      walked := { state.walked with builder := broken }
      findings := state.findings ++ found }

/-- The `Page` descendants of a root in document order. -/
def pagesOf (root : Element) : List Element := (Element.iters root.children).filter (·.isPage)

inductive Scope where
  | page
  | document
  deriving DecidableEq, Repr

/-- What the search for outside text has still to do, an element entered or its tail read. -/
inductive OutsideStep where
  | enter (element : Element) (scope : Scope)
  | tail (element : Element) (scope : Scope)

def entered (scope : Scope) (element : Element) : OutsideStep := .enter element scope

def searchOutside : ℕ → List OutsideStep → List (Scope × TextRun)
  | 0, _ | _, [] => []
  | fuel + 1, .tail element scope :: stack =>
    element.tailRun.map (scope, ·) ++ searchOutside fuel stack
  | fuel + 1, .enter element scope :: stack =>
    if element.isPage then
      element.textRun.map (.page, ·) ++
        searchOutside fuel (element.children.map (entered .page) ++ .tail element scope :: stack)
    else if (scope = .page ∧ element.isSection) ∨
        (scope = .document ∧ element.localName = metadataElement) then
      searchOutside fuel (.tail element scope :: stack)
    else
      element.textRun.map (scope, ·) ++
        searchOutside fuel (element.children.map (entered scope) ++ .tail element scope :: stack)

/-- Every text outside the transcription with its scope, in document order. -/
def outsideRuns (root : Element) : List (Scope × TextRun) :=
  root.textRun.map (.document, ·) ++
    searchOutside (2 * root.size) (root.children.map (entered .document))

/-- The view of a document its sections are read into. -/
structure Flattened where
  text : Str
  sections : List SectionSpan
  markedSpans : List MarkedSpan
  pages : ℕ
  findings : List Finding
  deriving DecidableEq, Repr

def MarkedSpan.order (span : MarkedSpan) : ℕ ×ₗ ℕ ×ₗ Str :=
  toLex (span.start, toLex (span.stop, span.kind))

def flattenDocument (root : Element) : Except FlattenError Flattened := do
  let pages := pagesOf root
  let state ← (pages.zipIdx 1).foldlM flattenPage ⟨⟨.empty, []⟩, [], []⟩
  let outside := (outsideRuns root).any fun run =>
    run.1 = .document && run.2.characters.any visible
  pure {
    text := state.walked.builder.written
    sections := state.sections
    markedSpans := sortBy MarkedSpan.order state.walked.spans
    pages := pages.length
    findings := state.findings ++ if outside then [.documentTextOutsidePages] else [] }

/-- The text outside every section, a line for each text that is not blank. -/
def outsideText (root : Element) : Str :=
  [newline].intercalate
    (((outsideRuns root).map fun run => [space].intercalate (textRuns run.2.characters)).filter
      (· ≠ []))

end Verbatus.Churro
