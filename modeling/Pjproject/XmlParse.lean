import Pjproject.Scanner
import Pjproject.Lib.Progress

/-! Parsing of xml.c as a machine. A state stands at the head of a loop of xml_parse_node, with the nodes whose calls wait
for a sub node; a step is one iteration, or what comes after the loop up to the next one. -/
namespace Pjproject.Xml
open Multipart (Text ascii cur lower)
open Scan
open Lib.Progress (Next run Ends Reaches)

/- A name is empty or ends before the first blank, and an attribute without a value has an empty one. -/
structure Node where
  name : Text
  attrs : List (Text × Text) := []
  nodes : List Node := []
  content : Text := []

inductive Loop where
  | pi
  | comment
  | attrs (node : Node)
  | nodes (node : Node)
  -- the text that the content begins
  | cdata (node : Node) (start : Text)

structure State where
  stack : List Node
  loop : Loop
  rest : Text

/- What pj_xml_parse returns is a tree or NULL. -/
abbrev Parse := Next State (Option Node)

def lt : UInt8 := 60
def gt : UInt8 := 62
def slash : UInt8 := 47
def bang : UInt8 := 33
def query : UInt8 := 63
def equals : UInt8 := 61
def bracket : UInt8 := 93

/- An exception is caught in pj_xml_parse. -/
def caught : Option Parse → Parse
  | none => .done none
  | some next => next

/- pj_stricmp, whether the strings are equal; a zero ends the comparison. -/
def strnicmp : Text → Text → Bool
  | c :: s, d :: t => lower c == lower d && (c == 0 || strnicmp s t)
  | _, _ => true

def stricmp (s t : Text) : Bool := s.length == t.length && strnicmp s t

/- From the call of xml_parse_node to its first loop. -/
def parseNode (stack : List Node) (s : Text) : Option Parse := do
  if cur s ≠ lt then none
  if second s = query then
    let s ← advance 2 false s
    return .more ⟨stack,.pi,s⟩
  if ← strcmp s (ascii "<!") then
    let s ← advance 2 false s
    return .more ⟨stack,.comment,s⟩
  let (_, s) ← getChar s
  let (name, s) ← getUntil (ascii " />\t\r\n") s
  return .more ⟨stack,.attrs { name },s⟩

/- The node is a sub node of its caller, which goes on with its loop. -/
def returnNode (stack : List Node) (node : Node) (s : Text) : Parse :=
  match stack with
  | [] => .done (some node)
  | parent :: stack => .more ⟨stack,.nodes { parent with nodes := parent.nodes ++ [node] },s⟩

/- The enclosing node. -/
def closeNode (stack : List Node) (node : Node) (s : Text) : Option Parse := do
  let (c, s) ← getChar s
  if c ≠ lt then none
  let (c, s) ← getChar s
  if c ≠ slash then none
  let (endName, s) ← getUntil (ascii " \t>") s
  if !stricmp node.name endName then none
  let (c, s) ← getChar s
  if c ≠ gt then none
  return returnNode stack node s

def piStep (stack : List Node) (s : Text) : Option Parse := do
  let (_, s) ← getUntil [query] s
  if cur s = query ∧ second s = gt then
    let s ← advance 2 true s
    parseNode stack s
  else
    let s ← advance 1 false s
    return .more ⟨stack,.pi,s⟩

def commentStep (stack : List Node) (s : Text) : Option Parse := do
  let (_, s) ← getUntil [gt] s
  if ← strcmp s [gt] then
    let s ← advance 1 true s
    parseNode stack s
  else
    let s ← advance 1 false s
    return .more ⟨stack,.comment,s⟩

/- An attribute, or what ends them. -/
def attrsStep (stack : List Node) (node : Node) (s : Text) : Option Parse := do
  if cur s ≠ gt ∧ cur s ≠ slash then
    let (name, s) ← getUntil (ascii "=> \t\r\n") s
    if cur s = equals then
      let (_, s) ← getChar s
      let (value, s) ← getQuotes (ascii "\"'") s
      return .more ⟨stack,.attrs { node with attrs := node.attrs ++ [(name, unquote value)] },s⟩
    else return .more ⟨stack,.attrs { node with attrs := node.attrs ++ [(name, [])] },s⟩
  else if cur s = slash then
    let (_, s) ← getChar s
    let (c, s) ← getChar s
    if c ≠ gt then none
    return returnNode stack node s
  else
    let (c, s) ← getChar s
    if c ≠ gt then none
    return .more ⟨stack,.nodes node,s⟩

def getContent (node : Node) (s : Text) : Option (Node × Text) :=
  if s ≠ [] ∧ cur s ≠ lt then (getUntil [lt] s).map (fun (content, s) => ({ node with content }, s))
  else some (node, s)

def cdataOpen : Text := ascii "<![CDATA["
def cdataClose : Text := ascii "]]>"

def atCdata (s : Text) : Option Bool :=
  if cur s = lt ∧ second s = bang then strcmp s cdataOpen else some false

/- A sub node, or the contents. -/
def nodesStep (stack : List Node) (node : Node) (s : Text) : Option Parse := do
  if cur s = lt ∧ second s ≠ slash ∧ second s ≠ bang then parseNode (node :: stack) s
  else
    let (node, s) ← getContent node s
    if ← atCdata s then
      let start ← advance 9 false s
      let (content, s) ← getUntil [bracket] start
      return .more ⟨stack,.cdata { node with content } start,s⟩
    else closeNode stack node s

def cdataStep (stack : List Node) (node : Node) (start : Text) (s : Text) : Option Parse := do
  if ← strcmp s cdataClose then
    let node := { node with content := start.take (start.length - s.length) }
    let s ← advance 3 true s
    closeNode stack node s
  else
    let (_, s) ← getUntil [bracket] s
    return .more ⟨stack,.cdata node start,s⟩

def step (s : State) : Parse :=
  caught (match s.loop with
    | .pi => piStep s.stack s.rest
    | .comment => commentStep s.stack s.rest
    | .attrs node => attrsStep s.stack node s.rest
    | .nodes node => nodesStep s.stack node s.rest
    | .cdata node start => cdataStep s.stack node start s.rest)

/- pj_xml_parse up to the first loop; pj_scan_init skips what is blank. -/
def start (msg : Text) : Parse := if msg = [] then .done none else caught (parseNode [] (skipWhitespace msg))

/- The parse of a message that ends. -/
def parse (msg : Text) : Parse := run step (msg.length + 1) (start msg)

end Pjproject.Xml
