import Pjproject.XmlParse
import Pjproject.Lib.CheckedPrint

/-! Printing of xml.c into a buffer. A length that is passed on is kept as the C int that it is counted from; the result that is
negative is an error. -/
namespace Pjproject.Xml
open Multipart (Text ascii lf)
open Lib.BoundedPrint

def space : UInt8 := 32
def quote : UInt8 := 34

def prologText : Text := ascii "<?xml version=\"1.0\" encoding=\"UTF-8\"?>\n"

/- SIZE_LEFT(). -/
def sizeLeft (len : Int) (buf p : Cursor) : Int := toInt (len - (p.place - buf.place))

/- What is written of an attribute: its value only when it has one. -/
def attrText (attr : Text × Text) : Text := space :: attr.1 ++ if attr.2 = [] then [] else equals :: quote :: attr.2 ++ [quote]

def beginText (indent : Nat) (name : Text) : Text := List.replicate indent space ++ lt :: name

def endText (name : Text) : Text := lt :: slash :: name ++ [gt]

def printAttrs (left : Cursor → Int) : List (Text × Text) → Step
  | [] => .ok
  | attr :: attrs => fun p => do
    let p ← checked left (attr.1.length + attr.2.length + 4) (attrText attr) p
    printAttrs left attrs p

def printContent (left : Cursor → Int) (content : Text) : Step := if content ≠ [] then checked left content.length content else .ok

/- The enclosing node, on its own line behind sub nodes. -/
def printEnd (left : Cursor → Int) (indent : Nat) (name : Text) (below : Bool) : Step :=
  if below then checked left (name.length + 5 + indent) (lf :: List.replicate indent space ++ endText name)
  else checked left (name.length + 3) (endText name)

mutual

def printNode (len : Int) (indent : Nat) : Node → Step
  | ⟨name,attrs,nodes,content⟩ => fun buf => do
    let left := sizeLeft len buf
    let p ← checked left (name.length + indent + 5) (beginText indent name) buf
    let p ← printAttrs left attrs p
    if content = [] ∧ nodes = [] then checked left 3 [space,slash,gt] p
    else
      let p ← checked left 1 [gt] p
      let p ← printNodes left indent nodes p
      let p ← printContent left content p
      printEnd left indent name (nodes ≠ []) p

/- The sub nodes; the size of the buffer of one is what is left. -/
def printNodes (left : Cursor → Int) (indent : Nat) : List Node → Step
  | [] => .ok
  | node :: nodes => fun p => do
    let p ← checked left (indent + 3) [lf] p
    let p ← returned (printNode (left p) (indent + 1) node) p
    printNodes left indent nodes p

end

/- The int that xml_print_node returns, and where it has got to. -/
def nodeResult (buf : Cursor) : Except Cursor Cursor → Int × Cursor
  | .ok p => (toInt (p.place - buf.place), p)
  | .error p => (-1, p)

def xmlPrint (node : Node) (len : UInt64) (includeProlog : Bool) : Int × Cursor :=
  let buf : Cursor := ⟨0,[]⟩
  if len = 0 then (0, buf)
  else if includeProlog ∧ toInt len.toNat < prologText.length then (-1, buf)
  else
    let p := if includeProlog then buf.put prologText else buf
    let prologLen : Int := if includeProlog then prologText.length else 0
    let (result, last) := nodeResult p (printNode (len.toNat - prologLen) 0 node p)
    let printed := result + prologLen
    -- len - printed is unsigned
    if 0 < printed ∧ 1 ≤ (len.toNat - printed) % 2 ^ 64 then (toInt (printed + 1), { last with place := printed }.put [lf])
    else (printed, last)

/- The text of a node and of sub nodes, in a buffer that is large enough. -/
mutual

def nodeText (indent : Nat) : Node → Text
  | ⟨name,attrs,nodes,content⟩ => beginText indent name ++ (attrs.flatMap attrText ++
      if content = [] ∧ nodes = [] then [space,slash,gt]
      else [gt] ++ (nodesText indent nodes ++ (content ++
        ((if nodes ≠ [] then lf :: List.replicate indent space else []) ++ endText name))))

def nodesText (indent : Nat) : List Node → Text
  | [] => []
  | node :: nodes => [lf] ++ (nodeText (indent + 1) node ++ nodesText indent nodes)

end

/- What a node asks for beyond its text. -/
def Node.spare (node : Node) : Nat := if node.nodes ≠ [] ∨ node.content = [] ∧ node.attrs = [] then 1 else 0

theorem sizeLeftCounted (len : Int) (buf : Cursor) : Counted (sizeLeft len buf) := by
  intro p bytes fits
  unfold sizeLeft at *
  rw [putPlace]
  rw [toIntCases] at *
  rw [toIntCases]
  omega

theorem sizeLeftStart (len : Int) (buf : Cursor) : sizeLeft len buf buf = toInt len := by
  unfold sizeLeft
  rw [sub_self,sub_zero]

theorem toIntBounded (n : Int) : toInt n < 2 ^ 31 := by
  rw [toIntCases]
  omega

theorem toIntTwice (n : Int) : toInt (toInt n) = toInt n := by
  have same := toIntAdd 0 n
  rwa [zero_add,zero_add] at same

section Printing
variable {left : Cursor → Int} {p : Cursor}

theorem attrLength (attr : Text × Text) : (attrText attr).length ≤ attr.1.length + attr.2.length + 4 ∧
    attr.1.length + attr.2.length + 4 ≤ (attrText attr).length + 3 := by
  unfold attrText
  split
  next none =>
    rw [none,List.append_nil,List.length_cons,List.length_nil]
    omega
  next =>
    simp only [List.length_append,List.length_cons,List.length_nil]
    omega

theorem attrsWrite (counted : Counted left) (attrs : List (Text × Text)) (room : 0 ≤ left p) :
    Writes (left p) p (printAttrs left attrs p) (attrs.flatMap attrText) 0 3 := by
  induction attrs generalizing p with
  | nil => exact (skipWrites room p).mono (Nat.le_refl 0) (Nat.zero_le 3)
  | cons attr attrs ih =>
    obtain ⟨less,more⟩ := attrLength attr
    obtain ⟨extra,needs⟩ := Nat.exists_eq_add_of_le less
    have first : Writes (left p) p (checked left (attr.1.length + attr.2.length + 4) (attrText attr) p) (attrText attr) extra extra :=
      checkedWrites left (by omega) p
    rw [List.flatMap_cons]
    exact first.seq counted ih (.inl (Nat.zero_le _)) (Nat.le_refl 3) (by omega)

theorem attrsLonger (attrs : List (Text × Text)) : attrs.length ≤ (attrs.flatMap attrText).length := by
  induction attrs with
  | nil => exact Nat.le_refl 0
  | cons =>
    rw [List.flatMap_cons,List.length_append,List.length_cons,attrText,List.cons_append,List.length_cons]
    omega

theorem beginLength (indent : Nat) (name : Text) : (beginText indent name).length = indent + name.length + 1 := by
  unfold beginText
  rw [List.length_append,List.length_replicate,List.length_cons]
  omega

theorem endLength (name : Text) : (endText name).length = name.length + 3 := by
  unfold endText
  rw [List.length_append,List.length_cons,List.length_cons]
  rfl

theorem contentWrites (left : Cursor → Int) (content : Text) (p : Cursor) (room : 0 ≤ left p) :
    Writes (left p) p (printContent left content p) content 0 0 := by
  unfold printContent
  split
  · exact checkedWrites left (Int.add_zero _).symm p
  · next none =>
      rw [not_not.mp none]
      exact skipWrites room p

theorem endWrites (left : Cursor → Int) (indent : Nat) (name : Text) (below : Prop) [Decidable below] (p : Cursor) :
    Writes (left p) p (printEnd left indent name (decide below) p)
      ((if below then lf :: List.replicate indent space else []) ++ endText name) (if below then 1 else 0) (if below then 1 else 0) := by
  unfold printEnd
  by_cases is : below
  · rw [if_pos is,if_pos is,decide_eq_true is,if_pos rfl]
    refine checkedWrites left ?_ p
    rw [List.length_append,List.length_cons,List.length_replicate,endLength]
    push_cast
    omega
  · rw [if_neg is,if_neg is,decide_eq_false is,if_neg Bool.false_ne_true,List.nil_append]
    refine checkedWrites left ?_ p
    rw [endLength]
    push_cast
    omega

theorem nodeLonger (indent : Nat) (node : Node) : indent + 4 ≤ (nodeText indent node).length := by
  obtain ⟨name,attrs,nodes,content⟩ := node
  unfold nodeText
  rw [List.length_append,List.length_append,beginLength]
  split
  · rw [List.length_cons,List.length_cons,List.length_singleton]
    omega
  · rw [List.length_append,List.length_append,List.length_append,List.length_append,endLength]
    omega

theorem spareLess (node : Node) : node.spare ≤ 1 := by
  unfold Node.spare
  split <;> omega

mutual

theorem nodeWrites (len : Int) (indent : Nat) (node : Node) (p : Cursor) :
    Writes (toInt len) p (printNode len indent node p) (nodeText indent node) node.spare node.spare := by
  obtain ⟨name,attrs,nodes,content⟩ := node
  unfold printNode nodeText Node.spare
  rw [← sizeLeftStart len p]
  have counted := sizeLeftCounted len p
  have short : ∀ p', toInt (sizeLeft len p p') = sizeLeft len p p' := fun _ => toIntTwice _
  have begins : Writes (sizeLeft len p p) p (checked (sizeLeft len p) (name.length + indent + 5) (beginText indent name) p)
      (beginText indent name) 4 4 := checkedWrites _ (by rw [beginLength]; omega) p
  generalize sizeLeft len p = left at *
  have attributes := fun p' (room : 0 ≤ left p') => attrsWrite counted attrs room
  by_cases empty : content = [] ∧ nodes = []
  · have ends : ∀ p', Writes (left p') p' (checked left 3 [space,slash,gt] p') [space,slash,gt] 0 0 :=
      checkedWrites left rfl
    have rest : ∀ p', 0 ≤ left p' → Writes (left p') p' ((printAttrs left attrs p').bind (checked left 3 [space,slash,gt]))
        (attrs.flatMap attrText ++ [space,slash,gt]) 0 0 :=
      fun p' room => (attributes p' room).seq counted (fun _ => ends _) (.inl (Nat.zero_le 0)) (Nat.le_refl 0) (Nat.le_refl 3)
    dsimp only
    simp only [if_pos empty]
    have longer := attrsLonger attrs
    by_cases bare : attrs = []
    · rw [if_pos (.inr ⟨empty.1,bare⟩)]
      refine begins.seq counted (rest _) (.inr ?_) (Nat.zero_le 1) ?_
      · rw [bare]
        exact Nat.le_refl 4
      · rw [bare]
        exact Nat.le_refl 4
    · rw [if_neg (fun either => either.elim (fun some => some empty.2) fun both => bare both.2)]
      have some := List.length_pos_of_ne_nil bare
      refine begins.seq counted (rest _) (.inl (Nat.zero_le 0)) (Nat.le_refl 0) ?_
      rw [List.length_append,List.length_cons,List.length_cons,List.length_singleton]
      omega
  · have spare : nodes ≠ [] ∨ content = [] ∧ attrs = [] ↔ nodes ≠ [] :=
      ⟨fun either => either.elim id fun both none => empty ⟨both.1,none⟩,.inl⟩
    have closes : ∀ p', Writes (left p') p' (checked left 1 [gt] p') [gt] 0 0 := checkedWrites left rfl
    have ends := fun p' => endWrites left indent name (nodes ≠ []) p'
    generalize endIs : (if nodes ≠ [] then lf :: List.replicate indent space else []) ++ endText name = end_ at ends
    have endLonger : 3 ≤ end_.length := by
      rw [← endIs,List.length_append,endLength]
      omega
    dsimp only
    simp only [if_neg empty,spare]
    generalize (if nodes ≠ [] then 1 else 0) = extra at *
    have below : ∀ p', 0 ≤ left p' → Writes (left p') p'
        ((printContent left content p').bind (printEnd left indent name (decide (nodes ≠ [])))) (content ++ end_) extra extra :=
      fun p' room => (contentWrites left content p' room).seq counted (fun _ => ends _) (.inl (Nat.le_refl _)) (Nat.le_refl _)
        (Nat.zero_le _)
    have inner : ∀ p', 0 ≤ left p' → Writes (left p') p' ((printNodes left indent nodes p').bind fun p =>
        (printContent left content p).bind (printEnd left indent name (decide (nodes ≠ []))))
        (nodesText indent nodes ++ (content ++ end_)) extra extra := by
      intro p' room
      refine (nodesWrite counted short indent nodes p' room).seq counted (below _) (.inl (Nat.le_refl _)) (Nat.le_refl _) ?_
      rw [List.length_append]
      omega
    have onward : ∀ p', Writes (left p') p' ((checked left 1 [gt] p').bind fun p => (printNodes left indent nodes p).bind fun p =>
        (printContent left content p).bind (printEnd left indent name (decide (nodes ≠ []))))
        ([gt] ++ (nodesText indent nodes ++ (content ++ end_))) extra extra :=
      fun p' => (closes p').seq counted (inner _) (.inl (Nat.le_refl _)) (Nat.le_refl _) (Nat.zero_le _)
    generalize insideIs : nodesText indent nodes ++ (content ++ end_) = inside at onward
    have insideLonger : 3 ≤ inside.length := by
      rw [← insideIs,List.length_append,List.length_append]
      omega
    have rest : ∀ p', 0 ≤ left p' → Writes (left p') p' ((printAttrs left attrs p').bind fun p => (checked left 1 [gt] p).bind fun p =>
        (printNodes left indent nodes p).bind fun p => (printContent left content p).bind (printEnd left indent name (decide (nodes ≠ []))))
        (attrs.flatMap attrText ++ ([gt] ++ inside)) extra extra := by
      intro p' room
      refine (attributes p' room).seq counted (fun _ => onward _) (.inl (Nat.le_refl _)) (Nat.le_refl _) ?_
      rw [List.length_append,List.length_singleton]
      omega
    refine begins.seq counted (rest _) (.inl (Nat.le_refl _)) (Nat.le_refl _) ?_
    rw [List.length_append,List.length_append,List.length_singleton]
    omega

theorem nodesWrite {left : Cursor → Int} (counted : Counted left) (short : ∀ p, toInt (left p) = left p) (indent : Nat)
    (nodes : List Node) (p : Cursor) (room : 0 ≤ left p) :
    Writes (left p) p (printNodes left indent nodes p) (nodesText indent nodes) 0 1 := by
  cases nodes with
  | nil =>
    unfold printNodes nodesText
    exact (skipWrites room p).mono (Nat.le_refl 0) (Nat.zero_le 1)
  | cons node nodes =>
    unfold printNodes nodesText
    have newline : Writes (left p) p (checked left (indent + 3) [lf] p) [lf] (indent + 2) (indent + 2) :=
      checkedWrites left (by rw [List.length_singleton]; omega) p
    have sub : ∀ p', Writes (left p') p' (returned (printNode (left p') (indent + 1) node) p') (nodeText (indent + 1) node) 0 1 := by
      intro p'
      have writes := nodeWrites (left p') (indent + 1) node p'
      rw [short] at writes
      exact (writes.returned (short p' ▸ toIntBounded _)).mono (Nat.zero_le _) (spareLess node)
    have longer := nodeLonger (indent + 1) node
    refine newline.seq counted (fun _ => ?_) (.inl (Nat.zero_le 0)) (Nat.le_refl 1) (by rw [List.length_append]; omega)
    exact (sub _).seq counted (fun room' => nodesWrite counted short indent nodes _ room') (.inl (Nat.zero_le 0)) (Nat.le_refl 1)
      (Nat.le_add_left 1 _)

end

end Printing

section Results

def prologOf (includeProlog : Bool) : Text := if includeProlog then prologText else []

/- What is printed before the last line end. -/
def printedText (node : Node) (includeProlog : Bool) : Text := prologOf includeProlog ++ nodeText 0 node

def document (node : Node) (includeProlog : Bool) : Text := printedText node includeProlog ++ [lf]

def begin_ : Cursor := ⟨0,[]⟩

variable {node : Node} {len : UInt64} {includeProlog : Bool}

theorem prologLength : prologText.length = 39 := by rfl

theorem beginInside (size : Nat) : begin_.Inside size := fun _ no => (nomatch no)

theorem leftBehind (enough : ¬(includeProlog ∧ toInt len.toNat < prologText.length)) :
    toInt (len.toNat - (prologOf includeProlog).length) = toInt len.toNat - (prologOf includeProlog).length := by
  unfold prologOf
  rw [prologLength] at enough
  cases includeProlog with
  | false => rw [if_neg Bool.false_ne_true,List.length_nil,Int.natCast_zero,sub_zero,sub_zero]
  | true =>
    have more : 39 ≤ toInt len.toNat := Int.le_of_not_gt fun less => enough ⟨rfl,less⟩
    rw [if_pos rfl,prologLength]
    rw [toIntCases] at *
    rw [toIntCases]
    omega

theorem xmlPrintUnfold (some : len ≠ 0) (enough : ¬(includeProlog ∧ toInt len.toNat < prologText.length)) :
    xmlPrint node len includeProlog =
      (let (result, last) := nodeResult (begin_.put (prologOf includeProlog))
        (printNode (len.toNat - (prologOf includeProlog).length) 0 node (begin_.put (prologOf includeProlog)))
      let printed := result + (prologOf includeProlog).length
      if 0 < printed ∧ 1 ≤ (len.toNat - printed) % 2 ^ 64 then (toInt (printed + 1), { last with place := printed }.put [lf])
      else (printed, last)) := by
  unfold xmlPrint
  rw [if_neg some,if_neg enough]
  cases includeProlog <;> rfl

theorem printedWhole (room : (printedText node includeProlog).length + node.spare ≤ toInt len.toNat) :
    xmlPrint node len includeProlog = if (printedText node includeProlog).length < len.toNat then
        (toInt ((printedText node includeProlog).length + 1), begin_.put (document node includeProlog))
      else ((printedText node includeProlog).length, begin_.put (printedText node includeProlog)) := by
  have longer := nodeLonger 0 node
  have length : (printedText node includeProlog).length = (prologOf includeProlog).length + (nodeText 0 node).length := List.length_append
  have enough : ¬(includeProlog ∧ toInt len.toNat < prologText.length) := by
    rintro ⟨rfl,less⟩
    change (printedText node true).length = prologText.length + _ at length
    omega
  have some : len ≠ 0 := by
    rintro rfl
    have zero : toInt (0 : UInt64).toNat = 0 := by decide
    omega
  have left := leftBehind enough
  have below := toIntLess len.toNat
  have bounded := toIntBounded len.toNat
  have wide := len.toNat_lt
  rw [xmlPrintUnfold some enough]
  have goes := (nodeWrites (len.toNat - (prologOf includeProlog).length) 0 node (begin_.put (prologOf includeProlog))).goes (by omega)
  have last : ((begin_.put (prologOf includeProlog)).put (nodeText 0 node)).place = (printedText node includeProlog).length := by
    rw [putPlace,putPlace,length]
    change 0 + _ + _ = _
    push_cast
    omega
  have result : nodeResult (begin_.put (prologOf includeProlog))
      (printNode (len.toNat - (prologOf includeProlog).length) 0 node (begin_.put (prologOf includeProlog))) =
      (((nodeText 0 node).length : Int), begin_.put (printedText node includeProlog)) := by
    rw [goes,nodeResult,putPlace,add_sub_cancel_left,toIntSmall (by omega),printedText,putAppend]
  rw [result]
  rw [← putAppend] at last
  change (begin_.put (printedText node includeProlog)).place = _ at last
  have printed : ((nodeText 0 node).length : Int) + (prologOf includeProlog).length = (printedText node includeProlog).length := by omega
  dsimp only
  rw [printed,← last,document,putAppend]
  by_cases fits : (printedText node includeProlog).length < len.toNat
  · rw [if_pos fits,if_pos (by omega)]
  · rw [if_neg fits,if_neg (by omega)]

/- Where a node does not fit, what there was room for is inside, and the error comes back as it is only without a prolog. -/
theorem refusedNode (some : len ≠ 0) (enough : ¬(includeProlog ∧ toInt len.toNat < prologText.length))
    (short : toInt len.toNat < (printedText node includeProlog).length + node.spare) :
    (xmlPrint node len includeProlog).1 = (if includeProlog then 39 else -1) ∧
      (xmlPrint node len includeProlog).2.Inside len.toNat := by
  have length : (printedText node includeProlog).length = (prologOf includeProlog).length + (nodeText 0 node).length := List.length_append
  have left := leftBehind enough
  have below := toIntLess len.toNat
  have wide := len.toNat_lt
  have positive : (0 : Int) < len.toNat := by
    have zero : len.toNat ≠ 0 := fun none => some (UInt64.toNat_inj.mp none)
    omega
  rw [xmlPrintUnfold some enough]
  obtain ⟨front,stops,fits⟩ := (nodeWrites (len.toNat - (prologOf includeProlog).length) 0 node
    (begin_.put (prologOf includeProlog))).within.resolve_left fun goes => by omega
  rw [stops,nodeResult]
  dsimp only
  have most : includeProlog → 39 ≤ toInt len.toNat := fun on => Int.le_of_not_gt fun less => enough ⟨on,less⟩
  have inside : ((begin_.put (prologOf includeProlog)).put front).Inside len.toNat := by
    rw [← putAppend]
    refine putInside (beginInside _) (Int.le_refl 0) ?_
    change 0 + _ ≤ _
    rw [List.length_append]
    cases includeProlog with
    | false =>
      have behind : (prologOf false).length = 0 := rfl
      omega
    | true =>
      have most := most rfl
      have behind : (prologOf true).length = 39 := prologLength
      omega
  cases includeProlog with
  | false => exact ⟨rfl,inside⟩
  | true =>
    have most := most rfl
    have newline : 0 < (-1 : Int) + (prologOf true).length ∧ 1 ≤ ((len.toNat : Int) - (-1 + (prologOf true).length)) % 2 ^ 64 := by
      rw [show (prologOf true).length = 39 from prologLength]
      omega
    rw [if_pos newline,if_pos rfl]
    refine ⟨rfl,putInside inside (Int.le_of_lt newline.1) ?_⟩
    rw [show (prologOf true).length = 39 from prologLength]
    change (38 : Int) + 1 ≤ _
    omega

/- What is asked of a print: nothing outside, an error where the document does not fit, and else its length. -/
structure Reports (node : Node) (len : UInt64) (includeProlog : Bool) : Prop where
  inside : (xmlPrint node len includeProlog).2.Inside len.toNat
  negative : (xmlPrint node len includeProlog).1 < 0 ↔ len.toNat < (document node includeProlog).length
  length : ¬(xmlPrint node len includeProlog).1 < 0 → (xmlPrint node len includeProlog).1 = (document node includeProlog).length

/- Where the document fits, the margins and the int that the length is counted as must leave room for it; where it does not, the
prolog must be what is refused, or there is none and the buffer does not end with a text that is accepted without its line end. -/
def Told (node : Node) (len : UInt64) (includeProlog : Bool) : Prop :=
  let text := (printedText node includeProlog).length
  len ≠ 0 ∧ if text < len.toNat then text + node.spare ≤ toInt len.toNat ∧ text + 1 < 2 ^ 31
    else if includeProlog then toInt len.toNat < 39 else ¬(len.toNat = text ∧ node.spare = 0 ∧ text < 2 ^ 31)

theorem documentLength (node : Node) (includeProlog : Bool) :
    (document node includeProlog).length = (printedText node includeProlog).length + 1 := List.length_append

theorem reportsIff {result : Int} (is : (xmlPrint node len includeProlog).1 = result)
    (inside : (xmlPrint node len includeProlog).2.Inside len.toNat) : Reports node len includeProlog ↔
      (result < 0 ↔ len.toNat ≤ (printedText node includeProlog).length) ∧
        (¬result < 0 → result = (printedText node includeProlog).length + 1) := by
  have length := documentLength node includeProlog
  have fits : len.toNat < (document node includeProlog).length ↔ len.toNat ≤ (printedText node includeProlog).length := by omega
  constructor
  · rintro ⟨_,negative,exact'⟩
    rw [is] at negative exact'
    rw [length] at exact'
    exact ⟨negative.trans fits,exact'⟩
  · rintro ⟨negative,exact'⟩
    rw [← is] at negative exact'
    refine ⟨inside,negative.trans fits.symm,fun right => ?_⟩
    rw [length]
    exact exact' right

theorem reportsExactly (node : Node) (len : UInt64) (includeProlog : Bool) :
    Reports node len includeProlog ↔ Told node len includeProlog := by
  have longer := nodeLonger 0 node
  have length : (printedText node includeProlog).length = (prologOf includeProlog).length + (nodeText 0 node).length := List.length_append
  have behind : (prologOf includeProlog).length = if includeProlog then 39 else 0 := by cases includeProlog <;> rfl
  have below := toIntLess len.toNat
  have spare := spareLess node
  unfold Told
  dsimp only
  by_cases none : len = 0
  · have result : xmlPrint node len includeProlog = (0, begin_) := if_pos none
    rw [reportsIff (congrArg Prod.fst result) (result ▸ beginInside _),none]
    refine iff_of_false (fun right => ?_) fun told => told.1 rfl
    exact absurd (right.1.mpr (Nat.zero_le _)) (Int.lt_irrefl 0)
  · by_cases noProlog : includeProlog ∧ toInt len.toNat < prologText.length
    · have result : xmlPrint node len includeProlog = (-1, begin_) := (if_neg none).trans (if_pos noProlog)
      rw [reportsIff (congrArg Prod.fst result) (result ▸ beginInside _)]
      rw [if_pos noProlog.1] at behind
      rw [if_pos noProlog.1]
      have less := noProlog.2
      rw [prologLength] at less
      split
      · exact iff_of_false (fun right => by omega) fun told => by omega
      · exact iff_of_true ⟨by omega,by omega⟩ ⟨none,less⟩
    · by_cases room : (printedText node includeProlog).length + node.spare ≤ toInt len.toNat
      · have whole := printedWhole room
        by_cases fits : (printedText node includeProlog).length < len.toNat
        · rw [if_pos fits] at whole
          have inside : (begin_.put (document node includeProlog)).Inside len.toNat := by
            refine putInside (beginInside _) (Int.le_refl 0) ?_
            rw [documentLength]
            change 0 + _ ≤ _
            omega
          rw [reportsIff (congrArg Prod.fst whole) (whole ▸ inside),if_pos fits]
          rcases toIntShort ((printedText node includeProlog).length + 1) with ⟨same,short⟩ | ⟨less,long⟩
          · push_cast at same
            exact iff_of_true ⟨by omega,fun _ => by omega⟩ ⟨none,room,short⟩
          · push_cast at less
            exact iff_of_false (fun right => by omega) fun told => by omega
        · rw [if_neg fits] at whole
          have inside : (begin_.put (printedText node includeProlog)).Inside len.toNat := by
            refine putInside (beginInside _) (Int.le_refl 0) ?_
            change 0 + _ ≤ _
            omega
          have bounded := toIntBounded len.toNat
          rw [reportsIff (congrArg Prod.fst whole) (whole ▸ inside),if_neg fits]
          refine iff_of_false (fun right => by omega) fun told => ?_
          have refused := told.2
          split at refused
          next on =>
            rw [if_pos on] at behind
            omega
          next => exact refused ⟨by omega,by omega,by omega⟩
      · obtain ⟨result,inside⟩ := refusedNode none noProlog (Int.lt_of_not_ge room)
        rw [reportsIff result inside]
        cases includeProlog with
        | true =>
          rw [if_pos rfl] at behind ⊢
          rw [prologLength] at noProlog
          refine iff_of_false (fun right => by omega) fun told => ?_
          have refused := told.2
          split at refused
          · omega
          · exact noProlog ⟨rfl,refused⟩
        | false =>
          rw [if_neg Bool.false_ne_true,if_neg Bool.false_ne_true]
          split
          · exact iff_of_false (fun right => by omega) fun told => by omega
          · refine iff_of_true ⟨by omega,by omega⟩ ⟨none,?_⟩
            rintro ⟨full,exact',small⟩
            rw [full,toIntSmall small] at room
            omega

/- A buffer that is one byte short of an empty element behind the prolog. -/
theorem prologHidesError : (xmlPrint ⟨[97],[],[],[]⟩ 44 true).1 = 39 ∧ ¬Reports ⟨[97],[],[],[]⟩ 44 true := by
  have result : (xmlPrint ⟨[97],[],[],[]⟩ 44 true).1 = 39 := by decide +kernel
  refine ⟨result,fun right => ?_⟩
  have length := right.length (by rw [result]; decide)
  rw [result] at length
  exact absurd length (by decide +kernel)

end Results

end Pjproject.Xml
