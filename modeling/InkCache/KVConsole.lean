import InkCache.Js
import InkCache.Lib.Pattern

/-!
# The console's command lines

The dashboard's console splits a line into tokens by a global match of one regular expression and
takes the quotes off the tokens that have both. What a line says is stated on its own: its parts
are blanks, quoted texts and bare words, and what is kept of it are the texts and the words.
-/

namespace InkCache

open Lib

namespace JsString

def endsWith (s p : JsString) : Bool := p.isSuffixOf s

end JsString

namespace KVConsole

def quoteMark : UInt16 := 34

/-- `/"([^"]*)"|\S+/` -/
def tokenPattern : Pattern UInt16 :=
  .alt
    (.seq (.unit (· == quoteMark)) (.seq (.many 0 (· != quoteMark)) (.unit (· == quoteMark))))
    (.many 1 fun u => !JsString.isWhiteSpace u)

/-- Takes the quotes off a token that has both. -/
def unquote (t : JsString) : JsString :=
  if 2 ≤ t.length ∧ JsString.startsWith t (js "\"") ∧ JsString.endsWith t (js "\"") then
    t.tail.dropLast
  else t

/-- Split a command line into tokens, honouring double quotes. -/
def tokenize (input : JsString) : List JsString := (tokenPattern.matchAll input).map unquote

/-! ## What a line says -/

inductive Part where
  /-- White space outside quotes. -/
  | blank (u : UInt16)
  /-- What is between two quotes. -/
  | quoted (body : JsString)
  | bare (word : JsString)

namespace Part

/-- The part as it stands in the line. -/
def text : Part → JsString
  | blank u => [u]
  | quoted body => quoteMark :: body ++ [quoteMark]
  | bare word => word

/-- What is kept of the part. -/
def kept : Part → JsString
  | blank _ => []
  | quoted body => body
  | bare word => word

/-- The line `s` starts with the part, and `rest` is what follows. A quoted text ends at the next
quote; a word goes on to the next white space, and may start with a quote that has no other quote
behind it. -/
def Starts (p : Part) (s rest : JsString) : Prop :=
  s = p.text ++ rest ∧
    match p with
    | blank u => JsString.isWhiteSpace u
    | quoted body => quoteMark ∉ body
    | bare word => word ≠ [] ∧ (∀ u ∈ word, JsString.isWhiteSpace u = false) ∧
        (∀ u ∈ rest.head?, JsString.isWhiteSpace u) ∧
        (word.head? = some quoteMark → quoteMark ∉ s.tail)

end Part

/-- The line `s` is the parts `ps`, one after the other. -/
def Reads : JsString → List Part → Prop
  | s, [] => s = []
  | s, p :: ps => ∃ rest, p.Starts s rest ∧ Reads rest ps

/-- A text between quotes. -/
def quote (t : JsString) : JsString := quoteMark :: t ++ [quoteMark]

/-- The texts between quotes each, with spaces between them. -/
def quoteAll (l : List JsString) : JsString := (js " ").intercalate (l.map quote)

end KVConsole

end InkCache
