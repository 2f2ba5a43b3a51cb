import Verbatus.Churro.Flatten

namespace Verbatus.Churro

open Library Python
open Identities (str)
open Canonical (named hasExactly fieldOf isBlank)

/-- What the host gives the reader: its XML parser with the text of its error, its uppercase, the
    text of a decoding error and `repr`. -/
structure ChurroHost where
  fromstring : Str → Except Str Element
  upper : Str → Str
  decodeError : ByteArray → Str
  repr : JsonValue → String

def churroTextView : String := "churro-historical-document-text.v2"

def churroParser : String := "xml"

/-- Remove a duplicated leading prompt, and the newlines and spaces after it. -/
def trimLeadingPrompt (text : Str) (prompt : Option Str) : Str :=
  match prompt with
  | some prompt =>
    if prompt ≠ [] ∧ prompt.isPrefixOf text then
      (text.drop prompt.length).dropWhile fun point => point = newline || point = space
    else text
  | none => text

/-- A trimmed prompt is counted. -/
def promptEcho (decoded body : Str) : List Finding :=
  if body.length ≠ decoded.length then [.promptEchoTrimmed (decoded.length - body.length)] else []

def lstrip (text : Str) : Str := text.dropWhile CodePoint.isSpace

section Records

def Finding.record : Finding → JsonValue
  | .promptEchoTrimmed characters => .object (named
      [("kind", .str (str "prompt-echo-trimmed")), ("characters", .int characters)])
  | .strayMarkupEscaped characters => .object (named
      [("kind", .str (str "stray-markup-escaped")), ("characters", .int characters)])
  | .pageTextOutsideSections pageOrdinal => .object (named
      [("kind", .str (str "page-text-outside-sections")), ("page_ordinal", .int pageOrdinal)])
  | .documentTextOutsidePages =>
    .object (named [("kind", .str (str "document-text-outside-pages"))])

def SectionSpan.record (span : SectionSpan) : JsonValue :=
  .object (named
    [("page_ordinal", .int span.pageOrdinal), ("section", .str span.name),
      ("span", .object (named [("start", .int span.start), ("end", .int span.stop)])),
      ("lines", .int span.lines)])

def MarkedSpan.record (span : MarkedSpan) : JsonValue :=
  .object (named [("kind", .str span.kind), ("start", .int span.start), ("end", .int span.stop)])

def baseFields (state : String) (responseBytes : ℕ) (findings : List Finding) :
    List (String × JsonValue) :=
  [("state", .str (str state)), ("parser", .str (str churroParser)),
    ("response_bytes", .int responseBytes), ("findings", .list (findings.map Finding.record))]

def unread (state : String) (responseBytes : ℕ) (findings : List Finding) (reason : Str) : JsonValue :=
  .object (named (baseFields state responseBytes findings ++ [("reason", .str reason)]))

def parsed (shape : String) (text : Str) (responseBytes : ℕ) (findings : List Finding)
    (sections : List SectionSpan) (markedSpans : List MarkedSpan) (pages : ℕ) : JsonValue :=
  .object (named (baseFields "parsed" responseBytes findings ++
    [("shape", .str (str shape)), ("view", .str (str churroTextView)), ("text", .str text),
      ("sections", .list (sections.map SectionSpan.record)),
      ("marked_spans", .list (markedSpans.map MarkedSpan.record)), ("pages", .int pages)]))

end Records

section Reading

variable (host : ChurroHost)

/-- What an answer was offered as. -/
inductive Offer where
  | root (element : Element) (findings : List Finding)
  | plain
  | failed (reason : Str)

/-- An answer that does not parse is read once more with its stray markup escaped. -/
def readOffered (body : Str) : Offer :=
  match host.fromstring (lstrip body) with
  | .ok root => .root root []
  | .error error =>
    if ¬ documentRootElement <:+: body then .plain
    else
      let (escaped, characters) := escapeStrayMarkup (lstrip body)
      if characters = 0 then .failed (str "Churro response is not parseable XML: " ++ error)
      else
        match host.fromstring escaped with
        | .ok root => .root root [.strayMarkupEscaped characters]
        | .error retryError => .failed (str "Churro response is not parseable XML: " ++ retryError ++
            str s!" (after escaping {characters} stray markup characters)")

/-- The record of an answer's root. -/
def readRoot (responseBytes : ℕ) (findings : List Finding) (root : Element) :
    Except Refusal JsonValue :=
  if root.localName = documentRootElement then
    match flattenDocument root with
    | .ok flattened => .ok (parsed "historical-document" flattened.text responseBytes
        (findings ++ flattened.findings) flattened.sections flattened.markedSpans flattened.pages)
    | .error .tooDeep => .ok (unread "failed" responseBytes findings
        (str s!"Churro response nests elements deeper than {maxDocumentDepth}"))
    | .error (.refused refusal) => .error refusal
  else
    .ok (unread "unrecognized-shape" responseBytes findings (str (
      s!"Churro response is well-formed XML rooted at {host.repr (.str root.localName)}, not the " ++
        "HistoricalDocument grammar")))

/-- Read one retained response into its parse record. -/
def parseChurroDocument (raw : ByteArray) (systemPrompt : Option Str) (maxBytes : Option ℤ) :
    Except Refusal JsonValue :=
  if maxBytes.any fun bound : ℤ => bound < raw.size then
    .ok (unread "failed" raw.size [] (str (
      s!"Churro response exceeds the retained parsing limit of {maxBytes.getD 0} bytes " ++
        s!"(received {raw.size})")))
  else
    match Str.decode raw with
    | none => .ok (unread "failed" raw.size []
        (str "Churro response is not UTF-8 text: " ++ host.decodeError raw))
    | some decoded =>
      let body := trimLeadingPrompt decoded systemPrompt
      let findings := promptEcho decoded body
      if str "<!DOCTYPE" <:+: host.upper body then
        .ok (unread "failed" raw.size findings (str
          "Churro response carries a DOCTYPE; the HistoricalDocument grammar has none"))
      else
        match readOffered host body with
        | .plain => .ok (parsed "plain-text" body raw.size findings [] [] 0)
        | .failed reason => .ok (unread "failed" raw.size findings reason)
        | .root root found => readRoot host raw.size (findings ++ found) root

/-- The text a document wrote outside every page section; no other answer has sections. -/
def textOutsideSections (raw : ByteArray) (systemPrompt : Option Str) (maxBytes : Option ℤ) :
    Except Refusal Str := do
  let document ← parseChurroDocument host raw systemPrompt maxBytes
  let fields := match document with
    | .object fields => fields
    | _ => []
  if fieldOf "state" fields ≠ .str (str "parsed") ∨
      fieldOf "shape" fields ≠ .str (str "historical-document") then
    pure []
  else
    let body := lstrip (trimLeadingPrompt ((Str.decode raw).getD []) systemPrompt)
    match host.fromstring body with
    | .ok root => pure (outsideText root)
    | .error _ =>
      -- it parsed after the lossless escape, as it was read
      match host.fromstring (escapeStrayMarkup body).1 with
      | .ok root => pure (outsideText root)
      | .error _ => .error (.valueError "ParseError")

end Reading

end Verbatus.Churro
