import Wsic.DataStructures.HashTableT
import Wsic.String.Cursor

/-!
# Pages from templates

Model of `src/www/www.c` with the resources of `src/resources/www` that the worker answers with.
The build appends a NUL to each resource and counts its length without it.
-/

open CMemory

namespace Wsic

/-- `page_t`, `www.h:10–13`. -/
structure PageT where
  source : Option StringT
  templates : Option (HashTableT (Option StringT))

/-- A resource from its lines. -/
def resource (lines : List String) : List UInt8 := lines.flatMap (fun line ↦ ascii line ++ [10])

/-- `RESOURCES_WWW_TEMPLATE_HTML`. -/
def templateHtml : List UInt8 := resource [
  "<!DOCTYPE html>",
  "<html lang=\"en\" dir=\"ltr\">",
  "  <head>",
  "    <meta charset=\"utf-8\">",
  "    <title>WSIC</title>",
  "    <style>",
  "      h1, p \x7b",
  "        font-family: -apple-system, BlinkMacSystemFont, \"Segoe UI\", Roboto, Oxygen, " ++
    "Ubuntu, Cantarell, \"Fira Sans\", \"Droid Sans\", \"Helvetica Neue\", Arial, sans-serif, " ++
    "\"Apple Color Emoji\", \"Segoe UI Emoji\", \"Segoe UI Symbol\";",
  "      \x7d",
  "",
  "      footer \x7b",
  "        border-top: 1px solid #DCDCDC;",
  "      \x7d",
  "    </style>",
  "  </head>",
  "  <body>",
  "    \x7b\x7bcontent\x7d\x7d",
  "    <footer>",
  "      <center>",
  "        <p>WSIC \x7b\x7bversion\x7d\x7d - A Web Server written in C</p>",
  "      </center>",
  "    </footer>",
  "  </body>",
  "</html>"]

/-- `RESOURCES_WWW_404_HTML`. -/
def notFoundHtml : List UInt8 := resource [
  "<center>",
  "  <h1>404 - Page Not Found</h1>",
  "  <p>The requested page <i>\x7b\x7bpath\x7d\x7d</i> could not be found.</p>",
  "</center>"]

/-- `RESOURCES_WWW_400_HTML`. -/
def badRequestHtml : List UInt8 := resource [
  "<center>",
  "  <h1>400 - Bad Request</h1>",
  "  <p>\x7b\x7bdescription\x7d\x7d</p>",
  "</center>"]

/-- `RESOURCES_WWW_413_HTML`. -/
def payloadTooLargeHtml : List UInt8 := resource [
  "<center>",
  "  <h1>413 - Payload too large</h1>",
  "</center>"]

/-- `RESOURCES_WWW_417_HTML`. -/
def expectationFailedHtml : List UInt8 := resource [
  "<center>",
  "  <h1>417 - Expectation Failed</h1>",
  "</center>"]

/-- `RESOURCES_WWW_500_HTML`. -/
def internalServerErrorHtml : List UInt8 := resource [
  "<center>",
  "  <h1>500 - Internal Server Error</h1>",
  "  <p>\x7b\x7bdescription\x7d\x7d</p>",
  "</center>"]

/-- `WSIC_VERSION`, `Makefile:4`. -/
def wsicVersion : List UInt8 := ascii "1.0.0"

namespace PageT

/-- `page_setSource`, `www.c:129`. -/
def setSource (page : PageT) (source : StringT) : PageT := { page with source := some source }

/-- `page_setTemplate`, `www.c:140`. -/
def setTemplate (page : PageT) (key : StringT) (value : Option StringT) : Checked PageT := do
  let templates ← deref page.templates
  let (_, templates) ← templates.setValue key value
  return { page with templates := some templates }

/-- `page_create`, `www.c:10`. -/
def create : Checked PageT :=
  setTemplate ⟨none, some HashTableT.create⟩ (StringT.fromBuffer (ascii "version"))
    (some (StringT.fromBuffer wsicVersion))

/-! ### One template -/

/-- The variables of the scan, `www.c:145–156`; a start of `-1` is `none`. -/
structure ScanT where
  templateKey : StringT
  templateStart : Option Nat
  previous : UInt8

variable [FreshBytes]

/-- One round of the scan, `www.c:161–205`, with the offset behind the character; nothing is
left to scan when the character completes a template. A single closing brace inside a template
is skipped. -/
def ScanT.read (scan : ScanT) (current : UInt8) (offset : Nat) : Option ScanT :=
  if scan.previous = 123 ∧ current = 123 then
    some { scan with templateStart := some (offset - 2), previous := current }
  else match scan.templateStart with
    | none => some { scan with previous := current }
    | some _ =>
      if 97 ≤ current ∧ current ≤ 122 then
        some { scan with
          templateKey := scan.templateKey.appendChar current
          previous := current }
      else if current ≠ 125 then some ⟨scan.templateKey.clear, none, current⟩
      else if scan.previous = 125 then none
      else some { scan with previous := current }

/-- The loop `www.c:160–206`: the scan when it completes a template, and the template's end. -/
def scanLoop : Nat → StringCursorT → ScanT → Option (ScanT × Nat)
  | 0, _, _ => none
  | rounds + 1, cursor, scan =>
    let (current, cursor) := cursor.getNextChar
    if current = 0 then none
    else match scan.read current cursor.offset with
      | none => some (scan, cursor.offset - 1)
      | some scan => scanLoop rounds cursor scan

/-- `templateValueLength`, `www.c:179`. -/
def templateValueLength : Option StringT → Nat
  | none => 0
  | some templateValue => templateValue.size

/-- The value of the template, `www.c:190–191`. -/
def appendTemplateValue (source : StringT) : Option StringT → StringT
  | none => source
  | some templateValue =>
    if templateValue.size ≠ 0 then
      source.appendBufferWithLength (templateValue.bytes.take templateValue.size)
    else source

/-- The new source, `www.c:183–196`. -/
def replaceTemplate (oldSource : StringT) (templateStart templateEnd : Nat)
    (templateValue : Option StringT) : StringT :=
  let source := StringT.create.setBufferSize
    (oldSource.size - (templateEnd - templateStart) - 1 + templateValueLength templateValue)
  let source := source.appendBufferWithLength (oldSource.bytes.take templateStart)
  let source := appendTemplateValue source templateValue
  source.appendBufferWithLength
    ((oldSource.bytes.drop (templateEnd + 1)).take (oldSource.size - templateEnd - 1))

/-- `page_resolveTemplate`, `www.c:144`; `-1` is `none`. -/
def resolveTemplate (page : PageT) (offset : Nat) : Checked (Option Nat × PageT) := do
  let templateKey := StringT.create.setBufferSize 100
  let source ← deref page.source
  match scanLoop (source.size - offset) ⟨source, offset⟩ ⟨templateKey, none, 0⟩ with
  | none => return (none, page)
  | some (scan, templateEnd) =>
    let templateStart := scan.templateStart.getD 0
    let templates ← deref page.templates
    let (templateValue, templates) ← templates.getValue scan.templateKey
    return (some templateStart,
      { source := some (replaceTemplate source templateStart templateEnd templateValue.join)
        templates := some templates })

/-! ### All templates -/

/-- The loop of `page_resolveTemplates`, `www.c:215–217`, for a bounded number of rounds. -/
def resolveTemplatesLoop : Nat → PageT → Nat → Checked PageT
  | 0, _, _ => .error .nonTermination
  | rounds + 1, page, offset => do
    let (offset, page) ← page.resolveTemplate offset
    match offset with
    | none => return page
    | some offset => resolveTemplatesLoop rounds page offset

/-- `page_clearTemplates`, `www.c:222`. -/
def clearTemplates (page : PageT) : Checked PageT :=
  match page.templates with
  | none => .ok page
  | some templates => do
    let _ ← templates.drain
    return { page with templates := none }

/-- `page_resolveTemplates`, `www.c:213`. -/
def resolveTemplates (rounds : Nat) (page : PageT) : Checked PageT := do
  let page ← resolveTemplatesLoop rounds page 0
  page.clearTemplates

/-- `page_create404`, `www.c:85`. -/
def create404 (rounds : Nat) (path : StringT) : Checked PageT := do
  let page ← create
  let page := page.setSource (StringT.fromBufferWithLength templateHtml)
  let page ← page.setTemplate (StringT.fromBuffer (ascii "content"))
    (some (StringT.fromBuffer notFoundHtml))
  let page ← page.setTemplate (StringT.fromBuffer (ascii "path")) (some path)
  page.resolveTemplates rounds

/-- The pages with a description of what went wrong, or without one. -/
def createWith (rounds : Nat) (content : List UInt8) (description : Option StringT) :
    Checked PageT := do
  let page ← create
  let page := page.setSource (StringT.fromBufferWithLength templateHtml)
  let page ← page.setTemplate (StringT.fromBuffer (ascii "content"))
    (some (StringT.fromBuffer content))
  let page ← match description with
    | none => Except.ok page
    | some description =>
      page.setTemplate (StringT.fromBuffer (ascii "description")) (some description)
  page.resolveTemplates rounds

/-- `page_create400`, `www.c:28`. -/
def create400 (rounds : Nat) (description : StringT) : Checked PageT :=
  createWith rounds badRequestHtml (some description)

/-- `page_create413`, `www.c:57`. -/
def create413 (rounds : Nat) : Checked PageT := createWith rounds payloadTooLargeHtml none

/-- `page_create417`, `www.c:71`. -/
def create417 (rounds : Nat) : Checked PageT := createWith rounds expectationFailedHtml none

/-- `page_create500`, `www.c:100`. -/
def create500 (rounds : Nat) (description : StringT) : Checked PageT :=
  createWith rounds internalServerErrorHtml (some description)

end PageT
end Wsic
