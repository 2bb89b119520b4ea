import Pjproject.JsonRoundTrip
import Pjproject.Lib.BoundedPrint

/-! The writer of json.c with its buffers. All that is passed to the callback is kept as pieces, also the one that it refuses;
of the buffers with spaces a piece has its length, and of the buffer of escaped characters all that was written into it. -/
namespace Pjproject.JsonWriter
open Multipart (Text ascii lf)
open Scan (backslash)
open Json (Elem Scalar Kind escapeChar numberText quote colon maxIndent indentSize nameMinLen firstNamed)
open Lib.BoundedPrint (Cursor)

inductive Piece where
  | text (bytes : Text)
  | indentBuf (len : Int)
  | space (len : Int)
  | escaped (buf : Cursor)

/- st->indent, and what was passed to the callback. -/
structure WriteState where
  indent : Int
  pieces : List Piece

abbrev Writing := WriteState → Except WriteState WriteState

/- Whether the callback accepts a piece, which may depend on those before. -/
abbrev Writer := List Piece → Piece → Bool

def written : Except WriteState WriteState → WriteState
  | .ok st => st
  | .error st => st

def emit (writer : Writer) (piece : Piece) : Writing := fun st =>
  if writer st.pieces piece then .ok { st with pieces := st.pieces ++ [piece] }
  else .error { st with pieces := st.pieces ++ [piece] }

def escBufLen : Nat := 64

/- The inner loop of write_string_escaped, up to what is left of the value. An escape of six bytes is the last case of its
branches. -/
def fillBuf : Text → Cursor → Text × Cursor
  | [], op => ([], op)
  | c :: ip, op =>
    if op.place = escBufLen ∨ escBufLen - op.place < 2 then (c :: ip, op)
    else if (escapeChar c).length = 6 ∧ escBufLen - op.place < 6 then (c :: ip, op)
    else fillBuf ip (op.put (escapeChar c))

def emptyBuf : Cursor := ⟨0,[]⟩

theorem escapeLength (c : UInt8) : 0 < (escapeChar c).length ∧ ((escapeChar c).length ≤ 2 ∨ (escapeChar c).length = 6) := by
  unfold escapeChar
  split_ifs <;> simp

theorem fillLess (ip : Text) (op : Cursor) : (fillBuf ip op).1.length ≤ ip.length := by
  induction ip generalizing op with
  | nil => exact Nat.le_refl 0
  | cons c ip ih =>
    rw [fillBuf]
    split
    · exact Nat.le_refl _
    · split
      · exact Nat.le_refl _
      · exact Nat.le_succ_of_le (ih _)

theorem fillProgress {value : Text} (more : value ≠ []) : (fillBuf value emptyBuf).1.length < value.length := by
  cases value with
  | nil => exact absurd rfl more
  | cons c ip =>
    rw [fillBuf,if_neg (by decide),if_neg (fun both => absurd both.2 (by decide))]
    exact Nat.lt_succ_of_le (fillLess ip _)

def writeStringEscaped (writer : Writer) (value : Text) : Writing := fun st =>
  if _ : value ≠ [] then do
    let st ← emit writer (.escaped (fillBuf value emptyBuf).2) st
    writeStringEscaped writer (fillBuf value emptyBuf).1 st
  else .ok st
termination_by value.length
decreasing_by exact fillProgress ‹_›

/- The name of an element, as far as the flag lets it be written. -/
def writeName (writer : Writer) (noName : Bool) (name : Text) : Writing := fun st =>
  if name = [] then .ok st
  else do
    let st ← emit writer (.indentBuf st.indent) st
    if noName then .ok st
    else do
      let st ← emit writer (.text [quote]) st
      let st ← writeStringEscaped writer name st
      let st ← emit writer (.text [quote,colon,32]) st
      if name.length < nameMinLen then emit writer (.space (nameMinLen - name.length)) st else .ok st

/- A number fits in num_buf. -/
def writeScalar (writer : Writer) : Scalar → Writing
  | .null => emit writer (.text (ascii "null"))
  | .bool true => emit writer (.text (ascii "true"))
  | .bool false => emit writer (.text (ascii "false"))
  | .number num => emit writer (.text (numberText num))
  | .string str => fun st => do
    let st ← emit writer (.text [quote]) st
    let st ← writeStringEscaped writer str st
    emit writer (.text [quote]) st

/- The comparison with sizeof is unsigned. -/
def raises (st : WriteState) : Bool := st.indent % 2 ^ 64 < maxIndent

def raise (st : WriteState) : WriteState := { st with indent := st.indent + indentSize }

def lower (st : WriteState) : WriteState := { st with indent := st.indent - indentSize }

/- What comes after a child: a separator, and after the last one a line end or nothing. -/
def emitAfter (writer : Writer) (isLast : Bool) (sep : Text) (last : Option Text) : Writing :=
  if isLast then
    match last with
    | none => .ok
    | some last => emit writer (.text last)
  else emit writer (.text sep)

/- What write_children does between its quotes, with its loop over lines and over a simple list. -/
def writeChildren (writer : Writer) (named : Bool) (lines simple : Writing) : Writing := fun st =>
  if named then do
    let added := raises st
    let st ← emit writer (.text [lf]) (if added then raise st else st)
    let st ← lines st
    let st := if added then lower st else st
    emit writer (.indentBuf st.indent) st
  else simple st

mutual

def elemWrite (writer : Writer) (noName : Bool) : Elem → Writing
  | .leaf name value => fun st => do
    let st ← writeName writer noName name st
    writeScalar writer value st
  | .list name kind children => fun st => do
    let st ← writeName writer noName name st
    let st ← emit writer (.text [kind.begin]) st
    let st ← emit writer (.text [32]) st
    let noName := decide (kind = .array)
    let st ← writeChildren writer (firstNamed children) (childrenLoop writer noName (ascii ",\n") (some (ascii "\n")) children)
      (childrenLoop writer noName (ascii ", ") none children) st
    emit writer (.text [kind.end]) st

def childrenLoop (writer : Writer) (noName : Bool) (sep : Text) (last : Option Text) : List Elem → Writing
  | [] => .ok
  | child :: children => fun st => do
    let st ← elemWrite writer noName child st
    let st ← emitAfter writer children.isEmpty sep last st
    childrenLoop writer noName sep last children st

end

def start : WriteState := ⟨0,[]⟩

/- pj_json_writef. -/
def jsonWritef (writer : Writer) (elem : Elem) : Except WriteState WriteState := elemWrite writer false elem start


section Rules

/- What a piece must be: a part of its buffer, and written inside it. -/
def Piece.Right : Piece → Prop
  | .text _ => True
  | .indentBuf len => 0 ≤ len ∧ len ≤ maxIndent
  | .space len => 0 ≤ len ∧ len ≤ nameMinLen
  | .escaped buf => buf.Inside escBufLen

def AllRight (st : WriteState) : Prop := ∀ piece ∈ st.pieces, piece.Right

def acceptAll : Writer := fun _ _ => true

/- A success leaves the indentation as it was, and there is one where everything is accepted. -/
structure Writes (writer : Writer) (f : Writing) : Prop where
  restores : ∀ st st', f st = .ok st' → st'.indent = st.indent
  goes : writer = acceptAll → ∀ st, ∃ st', f st = .ok st' ∧ st.pieces ⊆ st'.pieces

/- From an indentation on only right pieces are passed. -/
def Within (f : Writing) (indent : Int) : Prop := ∀ st, st.indent = indent → AllRight st → AllRight (written (f st))

/- From an indentation on a wrong piece is passed. -/
def Breaks (f : Writing) (indent : Int) : Prop := ∀ st, st.indent = indent → ∃ piece ∈ (written (f st)).pieces, ¬piece.Right

variable {writer : Writer} {f g : Writing} {indent : Int}

theorem skipWrites (writer : Writer) : Writes writer .ok := by
  refine ⟨fun st st' same => ?_,fun _ st => ⟨st,rfl,List.Subset.refl _⟩⟩
  cases same
  rfl

theorem skipWithin (indent : Int) : Within .ok indent := fun _ _ right => right

theorem emitWrites (writer : Writer) (piece : Piece) : Writes writer (emit writer piece) := by
  constructor
  · intro st st' same
    unfold emit at same
    split at same
    · cases same
      rfl
    · cases same
  · rintro rfl st
    exact ⟨_,rfl,List.subset_append_left _ _⟩

theorem emitPieces (writer : Writer) (piece : Piece) (st : WriteState) :
    (written (emit writer piece st)).pieces = st.pieces ++ [piece] := by
  unfold emit
  split <;> rfl

theorem emitWithin {piece : Piece} (right : piece.Right) : Within (emit writer piece) indent := by
  intro st _ all
  unfold AllRight
  rw [emitPieces]
  intro other member
  rcases List.mem_append.mp member with old | new
  · exact all other old
  · rw [List.mem_singleton.mp new]
    exact right

theorem Writes.seq (first : Writes writer f) (second : Writes writer g) : Writes writer fun st => (f st).bind g := by
  constructor
  · intro st st' same
    change (f st).bind g = .ok st' at same
    cases result : f st with
    | error =>
      rw [result] at same
      cases same
    | ok mid =>
      rw [result] at same
      exact (second.restores mid st' same).trans (first.restores st mid result)
  · intro accepts st
    obtain ⟨mid,goes,grows⟩ := first.goes accepts st
    obtain ⟨last,goes',grows'⟩ := second.goes accepts mid
    refine ⟨last,?_,List.Subset.trans grows grows'⟩
    rw [goes]
    exact goes'

theorem Within.seq (writes : Writes writer f) (first : Within f indent) (second : Within g indent) :
    Within (fun st => (f st).bind g) indent := by
  intro st here all
  have right := first st here all
  change AllRight (written ((f st).bind g))
  cases result : f st with
  | error =>
    rw [result] at right
    exact right
  | ok mid =>
    rw [result] at right
    exact second mid ((writes.restores st mid result).trans here) right

theorem Breaks.before (breaks : Breaks f indent) (first : Writes acceptAll f) (second : Writes acceptAll g) :
    Breaks (fun st => (f st).bind g) indent := by
  intro st here
  obtain ⟨piece,member,wrong⟩ := breaks st here
  obtain ⟨mid,goes,_⟩ := first.goes rfl st
  obtain ⟨last,goes',grows⟩ := second.goes rfl mid
  refine ⟨piece,?_,wrong⟩
  change piece ∈ (written ((f st).bind g)).pieces
  rw [goes] at member ⊢
  change piece ∈ (written (g mid)).pieces
  rw [goes']
  exact grows member

theorem Breaks.behind (first : Writes acceptAll f) (breaks : Breaks g indent) : Breaks (fun st => (f st).bind g) indent := by
  intro st here
  obtain ⟨mid,goes,_⟩ := first.goes rfl st
  obtain ⟨piece,member,wrong⟩ := breaks mid ((first.restores st mid goes).trans here)
  refine ⟨piece,?_,wrong⟩
  change piece ∈ (written ((f st).bind g)).pieces
  rw [goes]
  exact member

end Rules

section Strings
variable {writer : Writer} {indent : Int}

theorem fillInside (ip : Text) {op : Cursor} (start : 0 ≤ op.place) (within : op.place ≤ escBufLen) (inside : op.Inside escBufLen) :
    (fillBuf ip op).2.Inside escBufLen := by
  induction ip generalizing op with
  | nil => exact inside
  | cons c ip ih =>
    rw [fillBuf]
    split
    · exact inside
    · next room =>
      split
      · exact inside
      · next room' =>
        have length := escapeLength c
        have place := Lib.BoundedPrint.putPlace op (escapeChar c)
        have fits : op.place + (escapeChar c).length ≤ escBufLen := by
          rcases length.2 with short | six
          · omega
          · omega
        exact ih (by omega) (by omega) (Lib.BoundedPrint.putInside inside start fits)

theorem emptyInside : emptyBuf.Inside escBufLen := fun _ no => (nomatch no)

theorem escapedInduct {P : Text → Writing → Prop} (writer : Writer) (skip : P [] .ok)
    (round : ∀ value f, P (fillBuf value emptyBuf).1 f →
      P value fun st => (emit writer (.escaped (fillBuf value emptyBuf).2) st).bind f) (value : Text) :
    P value (writeStringEscaped writer value) := by
  induction size : value.length using Nat.strongRecOn generalizing value with
  | ind n ih =>
    have unfolded : writeStringEscaped writer value = fun st => if value ≠ [] then
        (emit writer (.escaped (fillBuf value emptyBuf).2) st).bind (writeStringEscaped writer (fillBuf value emptyBuf).1)
        else .ok st := by
      funext st
      rw [writeStringEscaped]
      rfl
    rw [unfolded]
    by_cases more : value ≠ []
    · simp only [if_pos more]
      exact round value _ (ih _ (size ▸ fillProgress more) _ rfl)
    · simp only [if_neg more]
      rw [not_not.mp more]
      exact skip

theorem escapedWrites (writer : Writer) (value : Text) : Writes writer (writeStringEscaped writer value) :=
  @escapedInduct (fun _ f => Writes writer f) writer (skipWrites writer) (fun _ _ rest => (emitWrites writer _).seq rest) value

theorem escapedWithin (writer : Writer) (value : Text) (indent : Int) : Within (writeStringEscaped writer value) indent := by
  refine @escapedInduct (fun _ f => Within f indent) writer (skipWithin indent) (fun value f rest => ?_) value
  have right : (Piece.escaped (fillBuf value emptyBuf).2).Right := fillInside value (Int.le_refl 0) (by decide) emptyInside
  exact Within.seq (emitWrites writer _) (emitWithin right) rest

theorem scalarWrites (writer : Writer) (value : Scalar) : Writes writer (writeScalar writer value) := by
  cases value with
  | null => exact emitWrites writer _
  | bool isTrue => cases isTrue <;> exact emitWrites writer _
  | number => exact emitWrites writer _
  | string str => exact (emitWrites writer _).seq ((escapedWrites writer str).seq (emitWrites writer _))

theorem scalarWithin (writer : Writer) (value : Scalar) (indent : Int) : Within (writeScalar writer value) indent := by
  cases value with
  | null => exact emitWithin trivial
  | bool isTrue => cases isTrue <;> exact emitWithin trivial
  | number => exact emitWithin trivial
  | string str =>
    refine Within.seq (emitWrites writer _) (emitWithin trivial) ?_
    exact Within.seq (escapedWrites writer str) (escapedWithin writer str indent) (emitWithin trivial)

/- What comes behind the indentation of a name. -/
def nameRest (writer : Writer) (noName : Bool) (name : Text) : Writing := fun st =>
  if noName then .ok st
  else (emit writer (.text [quote]) st).bind fun st => (writeStringEscaped writer name st).bind fun st =>
    (emit writer (.text [quote,colon,32]) st).bind fun st =>
      if name.length < nameMinLen then emit writer (.space (nameMinLen - name.length)) st else .ok st

theorem nameUnfold (writer : Writer) (noName : Bool) (name : Text) (st : WriteState) : writeName writer noName name st =
    if name = [] then .ok st else (emit writer (.indentBuf st.indent) st).bind (nameRest writer noName name) := by rfl

theorem restWrites (writer : Writer) (noName : Bool) (name : Text) : Writes writer (nameRest writer noName name) := by
  have spaces : Writes writer fun st =>
      if name.length < nameMinLen then emit writer (.space (nameMinLen - name.length)) st else .ok st := by
    by_cases short : name.length < nameMinLen
    · simp only [if_pos short]
      exact emitWrites writer _
    · simp only [if_neg short]
      exact skipWrites writer
  unfold nameRest
  cases noName with
  | true => exact skipWrites writer
  | false => exact (emitWrites writer _).seq ((escapedWrites writer name).seq ((emitWrites writer _).seq spaces))

theorem restWithin (writer : Writer) (noName : Bool) (name : Text) (indent : Int) : Within (nameRest writer noName name) indent := by
  have spaces : Within (fun st => if name.length < nameMinLen then emit writer (.space (nameMinLen - name.length)) st else .ok st)
      indent := by
    by_cases short : name.length < nameMinLen
    · simp only [if_pos short]
      refine emitWithin ⟨?_,?_⟩ <;> omega
    · simp only [if_neg short]
      exact skipWithin indent
  unfold nameRest
  cases noName with
  | true => exact skipWithin indent
  | false =>
    refine Within.seq (emitWrites writer _) (emitWithin trivial) ?_
    refine Within.seq (escapedWrites writer name) (escapedWithin writer name indent) ?_
    exact Within.seq (emitWrites writer _) (emitWithin trivial) spaces

theorem nameWrites (writer : Writer) (noName : Bool) (name : Text) : Writes writer (writeName writer noName name) := by
  constructor
  · intro st st' same
    rw [nameUnfold] at same
    split at same
    · exact (skipWrites writer).restores st st' same
    · exact ((emitWrites writer _).seq (restWrites writer noName name)).restores st st' same
  · intro accepts st
    rw [nameUnfold]
    split
    · exact (skipWrites writer).goes accepts st
    · exact ((emitWrites writer _).seq (restWrites writer noName name)).goes accepts st

theorem nameWithin (writer : Writer) (noName : Bool) (name : Text) {indent : Int} (right : 0 ≤ indent ∧ indent ≤ maxIndent) :
    Within (writeName writer noName name) indent := by
  intro st here all
  rw [nameUnfold]
  split
  · exact all
  · exact Within.seq (emitWrites writer _) (emitWithin (here ▸ right)) (restWithin writer noName name indent) st here all

theorem nameBreaks (noName : Bool) {name : Text} (some : name ≠ []) {indent : Int} (wrong : maxIndent < indent) :
    Breaks (writeName acceptAll noName name) indent := by
  intro st here
  rw [nameUnfold,if_neg some]
  have breaks : Breaks (emit acceptAll (.indentBuf st.indent)) indent := by
    intro st' _
    refine ⟨.indentBuf st.indent,?_,fun right => absurd right.2 (by omega)⟩
    rw [emitPieces]
    exact List.mem_append_right _ List.mem_cons_self
  exact breaks.before (emitWrites acceptAll _) (restWrites acceptAll noName name) st here

end Strings

section Elements

theorem afterWrites (writer : Writer) (isLast : Bool) (sep : Text) (last : Option Text) :
    Writes writer (emitAfter writer isLast sep last) := by
  unfold emitAfter
  cases isLast with
  | false => exact emitWrites writer _
  | true =>
    cases last with
    | none => exact skipWrites writer
    | some => exact emitWrites writer _

theorem afterWithin (writer : Writer) (isLast : Bool) (sep : Text) (last : Option Text) (indent : Int) :
    Within (emitAfter writer isLast sep last) indent := by
  unfold emitAfter
  cases isLast with
  | false => exact emitWithin trivial
  | true =>
    cases last with
    | none => exact skipWithin indent
    | some => exact emitWithin trivial

theorem linesUnfold (writer : Writer) (lines simple : Writing) (st : WriteState) :
    writeChildren writer true lines simple st =
      ((emit writer (.text [lf]) (if raises st then raise st else st)).bind lines).bind fun last =>
        emit writer (.indentBuf (if raises st then lower last else last).indent) (if raises st then lower last else last) := by
  unfold writeChildren
  rw [if_pos rfl]
  dsimp only [bind]
  cases emit writer (.text [lf]) (if raises st then raise st else st) <;> rfl

theorem childrenWrites {writer : Writer} {lines simple : Writing} (named : Bool) (writesLines : Writes writer lines)
    (writesSimple : Writes writer simple) : Writes writer (writeChildren writer named lines simple) := by
  cases named with
  | false => exact writesSimple
  | true =>
    have inner := (emitWrites writer (.text [lf])).seq writesLines
    constructor
    · intro st st' same
      rw [linesUnfold] at same
      cases result : (emit writer (.text [lf]) (if raises st then raise st else st)).bind lines with
      | error =>
        rw [result] at same
        cases same
      | ok last =>
        rw [result] at same
        have kept := inner.restores _ last result
        refine ((emitWrites writer _).restores _ st' same).trans ?_
        by_cases raised : raises st
        · rw [if_pos raised] at kept ⊢
          change last.indent - indentSize = st.indent
          rw [kept]
          exact Int.add_sub_cancel _ _
        · rw [if_neg raised] at kept ⊢
          exact kept
    · intro accepts st
      rw [linesUnfold]
      obtain ⟨last,goes,grows⟩ := inner.goes accepts (if raises st then raise st else st)
      have pieces : (if raises st then raise st else st).pieces = st.pieces ∧
          (if raises st then lower last else last).pieces = last.pieces := by
        split <;> exact ⟨rfl,rfl⟩
      obtain ⟨st',goes',grows'⟩ := (emitWrites writer (.indentBuf (if raises st then lower last else last).indent)).goes accepts
        (if raises st then lower last else last)
      rw [pieces.1] at grows
      rw [pieces.2] at grows'
      refine ⟨st',?_,List.Subset.trans grows grows'⟩
      change ((emit writer (.text [lf]) (if raises st then raise st else st)).bind lines) = .ok last at goes
      rw [goes]
      exact goes'

mutual

theorem elemWrites (writer : Writer) (noName : Bool) (elem : Elem) : Writes writer (elemWrite writer noName elem) := by
  cases elem with
  | leaf name value =>
    unfold elemWrite
    exact (nameWrites writer noName name).seq (scalarWrites writer value)
  | list name kind children =>
    unfold elemWrite
    have loop := childrenWrites (firstNamed children)
      (loopWrites writer (decide (kind = .array)) (ascii ",\n") (some (ascii "\n")) children)
      (loopWrites writer (decide (kind = .array)) (ascii ", ") none children)
    exact (nameWrites writer noName name).seq ((emitWrites writer _).seq ((emitWrites writer _).seq
      (loop.seq (emitWrites writer _))))

theorem loopWrites (writer : Writer) (noName : Bool) (sep : Text) (last : Option Text) (children : List Elem) :
    Writes writer (childrenLoop writer noName sep last children) := by
  cases children with
  | nil =>
    unfold childrenLoop
    exact skipWrites writer
  | cons child children =>
    unfold childrenLoop
    exact (elemWrites writer noName child).seq ((afterWrites writer children.isEmpty sep last).seq
      (loopWrites writer noName sep last children))

end

/- How many containers whose first child has a name are nested in an element. -/
mutual

def namedDepth : Elem → Nat
  | .leaf _ _ => 0
  | .list _ _ children => namedDepths children + if firstNamed children then 1 else 0

def namedDepths : List Elem → Nat
  | [] => 0
  | child :: children => max (namedDepth child) (namedDepths children)

end

/- As many as raise the indentation, the last of them beyond its buffer. -/
def levels : Nat := 34

theorem raisesBelow {st : WriteState} {k : Nat} (here : st.indent = indentSize * k) (below : k < levels) :
    raises st = true ∧ (raise st).indent = indentSize * (k + 1 : Nat) := by
  have size : indentSize = 3 := rfl
  have most : maxIndent = 100 := rfl
  have all : levels = 34 := rfl
  refine ⟨decide_eq_true ?_,?_⟩
  · rw [here,size,most]
    push_cast
    rw [Int.emod_eq_of_lt (by omega) (by omega)]
    omega
  · change st.indent + indentSize = _
    rw [here]
    push_cast
    ring

theorem levelRight {k : Nat} (below : k < levels) : 0 ≤ (indentSize : Int) * k ∧ (indentSize : Int) * k ≤ maxIndent := by
  have size : indentSize = 3 := rfl
  have most : maxIndent = 100 := rfl
  have all : levels = 34 := rfl
  rw [size]
  omega

theorem childrenWithin {writer : Writer} {lines simple : Writing} {named : Bool} {k : Nat} (writesLines : Writes writer lines)
    (deep : named = true → k + 1 < levels) (withinLines : named = true → Within lines (indentSize * (k + 1 : Nat)))
    (withinSimple : named = false → Within simple (indentSize * k)) :
    Within (writeChildren writer named lines simple) (indentSize * k) := by
  cases named with
  | false => exact withinSimple rfl
  | true =>
    intro st here all
    have below : k < levels := Nat.lt_of_succ_lt (deep rfl)
    obtain ⟨raised,deeper⟩ := raisesBelow here below
    have inner := (emitWrites writer (.text [lf])).seq writesLines
    have right := Within.seq (emitWrites writer (.text [lf])) (emitWithin trivial) (withinLines rfl) (raise st) deeper all
    rw [linesUnfold,if_pos raised]
    change AllRight (written ((emit writer (.text [lf]) (raise st)).bind lines)) at right
    cases result : (emit writer (.text [lf]) (raise st)).bind lines with
    | error =>
      rw [result] at right
      exact right
    | ok last =>
      rw [result] at right
      have kept : last.indent = indentSize * (k + 1 : Nat) := (inner.restores _ last result).trans deeper
      have back : (lower last).indent = indentSize * k := by
        change last.indent - indentSize = _
        rw [kept]
        push_cast
        ring
      change AllRight (written (emit writer (.indentBuf (if raises st then lower last else last).indent)
        (if raises st then lower last else last)))
      rw [if_pos raised]
      exact emitWithin (back ▸ levelRight below) (lower last) rfl right

mutual

theorem elemWithin (writer : Writer) (noName : Bool) (elem : Elem) {k : Nat} (below : k + namedDepth elem < levels) :
    Within (elemWrite writer noName elem) (indentSize * k) := by
  cases elem with
  | leaf name value =>
    unfold elemWrite
    exact Within.seq (nameWrites writer noName name) (nameWithin writer noName name (levelRight (by omega)))
      (scalarWithin writer value _)
  | list name kind children =>
    unfold elemWrite
    unfold namedDepth at below
    refine Within.seq (nameWrites writer noName name) (nameWithin writer noName name (levelRight (by omega))) ?_
    refine Within.seq (emitWrites writer _) (emitWithin trivial) ?_
    refine Within.seq (emitWrites writer _) (emitWithin trivial) ?_
    refine Within.seq (childrenWrites _ (loopWrites writer _ _ _ children) (loopWrites writer _ _ _ children)) ?_ (emitWithin trivial)
    refine childrenWithin (loopWrites writer _ _ _ children) (fun named => ?_) (fun named => ?_) (fun _ => ?_)
    · rw [named,if_pos rfl] at below
      omega
    · rw [named,if_pos rfl] at below
      exact loopWithin writer _ _ _ children (by omega)
    · exact loopWithin writer _ _ _ children (by omega)

theorem loopWithin (writer : Writer) (noName : Bool) (sep : Text) (last : Option Text) (children : List Elem) {k : Nat}
    (below : k + namedDepths children < levels) : Within (childrenLoop writer noName sep last children) (indentSize * k) := by
  cases children with
  | nil =>
    unfold childrenLoop
    exact skipWithin _
  | cons child children =>
    unfold childrenLoop
    unfold namedDepths at below
    refine Within.seq (elemWrites writer noName child) (elemWithin writer noName child (by omega)) ?_
    exact Within.seq (afterWrites writer children.isEmpty sep last) (afterWithin writer children.isEmpty sep last _)
      (loopWithin writer noName sep last children (by omega))

end

theorem childrenBreaks {lines simple : Writing} {k : Nat} (writesLines : Writes acceptAll lines) (below : k < levels)
    (breaks : Breaks lines (indentSize * (k + 1 : Nat))) : Breaks (writeChildren acceptAll true lines simple) (indentSize * k) := by
  intro st here
  obtain ⟨raised,deeper⟩ := raisesBelow here below
  have inner := (emitWrites acceptAll (.text [lf])).seq writesLines
  obtain ⟨piece,member,wrong⟩ := breaks.behind (emitWrites acceptAll (.text [lf])) (raise st) deeper
  refine ⟨piece,?_,wrong⟩
  rw [linesUnfold,if_pos raised]
  obtain ⟨last,goes,_⟩ := inner.goes rfl (raise st)
  change (emit acceptAll (.text [lf]) (raise st)).bind lines = .ok last at goes
  change piece ∈ (written ((emit acceptAll (.text [lf]) (raise st)).bind lines)).pieces at member
  rw [goes] at member ⊢
  change piece ∈ (written (emit acceptAll _ (if raises st then lower last else last))).pieces
  rw [emitPieces,if_pos raised]
  exact List.mem_append_left _ member

theorem firstBreaks (noName : Bool) (sep : Text) (last : Option Text) {children : List Elem} (named : firstNamed children = true)
    {indent : Int} (wrong : maxIndent < indent) : Breaks (childrenLoop acceptAll noName sep last children) indent := by
  cases children with
  | nil => cases named
  | cons child children =>
    have some : child.name ≠ [] := of_decide_eq_true named
    have rest := (afterWrites acceptAll children.isEmpty sep last).seq (loopWrites acceptAll noName sep last children)
    unfold childrenLoop
    refine Breaks.before ?_ (elemWrites acceptAll noName child) rest
    cases child with
    | leaf name value =>
      unfold elemWrite
      exact (nameBreaks noName some wrong).before (nameWrites acceptAll noName name) (scalarWrites acceptAll value)
    | list name kind below =>
      unfold elemWrite
      have loop := childrenWrites (firstNamed below)
        (loopWrites acceptAll (decide (kind = .array)) (ascii ",\n") (Option.some (ascii "\n")) below)
        (loopWrites acceptAll (decide (kind = .array)) (ascii ", ") none below)
      exact (nameBreaks noName some wrong).before (nameWrites acceptAll noName name) ((emitWrites acceptAll _).seq
        ((emitWrites acceptAll _).seq (loop.seq (emitWrites acceptAll _))))

mutual

theorem elemBreaks (noName : Bool) (elem : Elem) {k : Nat} (below : k < levels) (deep : levels ≤ k + namedDepth elem) :
    Breaks (elemWrite acceptAll noName elem) (indentSize * k) := by
  cases elem with
  | leaf =>
    unfold namedDepth at deep
    omega
  | list name kind children =>
    unfold elemWrite
    unfold namedDepth at deep
    have writesLines := loopWrites acceptAll (decide (kind = .array)) (ascii ",\n") (some (ascii "\n")) children
    have writesSimple := loopWrites acceptAll (decide (kind = .array)) (ascii ", ") none children
    refine Breaks.behind (nameWrites acceptAll noName name) ?_
    refine Breaks.behind (emitWrites acceptAll _) ?_
    refine Breaks.behind (emitWrites acceptAll _) ?_
    refine Breaks.before ?_ (childrenWrites _ writesLines writesSimple) (emitWrites acceptAll _)
    cases named : firstNamed children with
    | false =>
      rw [named,if_neg Bool.false_ne_true] at deep
      exact loopBreaks _ _ _ children below deep
    | true =>
      rw [named,if_pos rfl] at deep
      refine childrenBreaks writesLines below ?_
      by_cases last : k + 1 < levels
      · exact loopBreaks _ _ _ children last (by omega)
      · refine firstBreaks _ _ _ named ?_
        have size : indentSize = 3 := rfl
        have most : maxIndent = 100 := rfl
        have all : levels = 34 := rfl
        rw [size,most]
        push_cast
        omega

theorem loopBreaks (noName : Bool) (sep : Text) (last : Option Text) (children : List Elem) {k : Nat} (below : k < levels)
    (deep : levels ≤ k + namedDepths children) : Breaks (childrenLoop acceptAll noName sep last children) (indentSize * k) := by
  cases children with
  | nil =>
    unfold namedDepths at deep
    omega
  | cons child children =>
    unfold childrenLoop
    unfold namedDepths at deep
    have after := afterWrites acceptAll children.isEmpty sep last
    by_cases here : levels ≤ k + namedDepth child
    · exact (elemBreaks noName child below here).before (elemWrites acceptAll noName child)
        (after.seq (loopWrites acceptAll noName sep last children))
    · refine Breaks.behind (elemWrites acceptAll noName child) (Breaks.behind after ?_)
      exact loopBreaks noName sep last children below (by omega)

end

/- What is asked of the writer: pieces inside their buffers, a loop that comes on, and the indentation as it was. -/
structure StaysInside (elem : Elem) : Prop where
  pieces : ∀ writer, ∀ piece ∈ (written (jsonWritef writer elem)).pieces, piece.Right
  progress : ∀ value : Text, value ≠ [] → (fillBuf value emptyBuf).1.length < value.length
  restores : ∀ writer noName other st st', elemWrite writer noName other st = .ok st' → st'.indent = st.indent

/- The buffer for the indentation is too short for what is nested deeper, and everything else is always right. -/
theorem piecesExactly (elem : Elem) : StaysInside elem ↔ namedDepth elem < levels := by
  constructor
  · intro stays
    by_contra deep
    obtain ⟨piece,member,wrong⟩ := elemBreaks false elem (by decide : 0 < levels) (by omega) start rfl
    exact wrong (stays.pieces acceptAll piece member)
  · intro below
    refine ⟨fun writer => ?_,fun value more => fillProgress more,fun writer noName other => (elemWrites writer noName other).restores⟩
    exact elemWithin writer false elem (by rwa [Nat.zero_add]) start rfl fun _ no => (nomatch no)

/- Objects inside each other, each of them but the first with a name. -/
def nested : Nat → List Elem
  | 0 => [.leaf [97] .null]
  | n + 1 => [.list [97] .obj (nested n)]

theorem nestedLeaves : ¬StaysInside (.list [] .obj (nested 33)) := by
  intro stays
  obtain ⟨piece,member,wrong⟩ := elemBreaks false (.list [] .obj (nested 33)) (by decide : 0 < levels) (by decide +kernel) start rfl
  exact wrong (stays.pieces acceptAll piece member)

end Elements

section Texts

/- The bytes of a piece; both buffers for indentation and padding hold spaces. -/
def Piece.bytes : Piece → Text
  | .text bytes => bytes
  | .indentBuf len => List.replicate len.toNat 32
  | .space len => List.replicate len.toNat 32
  | .escaped buf => buf.writes.map Prod.snd

/- From an indentation on a text is written. -/
def Tells (f : Writing) (indent : Int) (text : Text) : Prop := ∀ st, st.indent = indent →
  ∃ st', f st = .ok st' ∧ st'.indent = indent ∧ st'.pieces.flatMap Piece.bytes = st.pieces.flatMap Piece.bytes ++ text

variable {f g : Writing} {indent : Int} {first second text : Text}

theorem skipTells (indent : Int) : Tells .ok indent [] := fun st here => ⟨st,rfl,here,(List.append_nil _).symm⟩

theorem emitTells (piece : Piece) (indent : Int) : Tells (emit acceptAll piece) indent piece.bytes := by
  refine fun st here => ⟨_,rfl,here,?_⟩
  rw [List.flatMap_append,List.flatMap_cons,List.flatMap_nil,List.append_nil]

theorem Tells.seq (before : Tells f indent first) (after : Tells g indent second) :
    Tells (fun st => (f st).bind g) indent (first ++ second) := by
  intro st here
  obtain ⟨mid,goes,at_,told⟩ := before st here
  obtain ⟨last,goes',at',told'⟩ := after mid at_
  refine ⟨last,?_,at',?_⟩
  · change (f st).bind g = .ok last
    rw [goes]
    exact goes'
  · rw [told',told,List.append_assoc]

theorem Tells.alike (tells : Tells f indent first) (same : first = second) : Tells f indent second := same ▸ tells

theorem putBytes (op : Cursor) (bytes : Text) : (op.put bytes).writes.map Prod.snd = op.writes.map Prod.snd ++ bytes := by
  induction bytes generalizing op with
  | nil => exact (List.append_nil _).symm
  | cons b bytes ih =>
    rw [Cursor.put,ih,List.map_append,List.append_assoc]
    rfl

theorem fillTells (ip : Text) (op : Cursor) : (fillBuf ip op).2.writes.map Prod.snd ++ Json.escape (fillBuf ip op).1 =
    op.writes.map Prod.snd ++ Json.escape ip := by
  induction ip generalizing op with
  | nil => rfl
  | cons c ip ih =>
    rw [fillBuf]
    split
    · rfl
    · split
      · rfl
      · rw [ih,putBytes,List.append_assoc]
        rfl

theorem escapedTells (value : Text) (indent : Int) : Tells (writeStringEscaped acceptAll value) indent (Json.escape value) := by
  refine @escapedInduct (fun value f => Tells f indent (Json.escape value)) acceptAll (skipTells indent) (fun value f rest => ?_) value
  exact ((emitTells _ indent).seq rest).alike (fillTells value emptyBuf)

theorem scalarTells (value : Scalar) (indent : Int) : Tells (writeScalar acceptAll value) indent (Json.scalarText value) := by
  cases value with
  | null => exact emitTells _ indent
  | bool isTrue => cases isTrue <;> exact emitTells _ indent
  | number => exact emitTells _ indent
  | string str =>
    refine ((emitTells _ indent).seq ((escapedTells str indent).seq (emitTells _ indent))).alike ?_
    exact (List.append_assoc _ _ _).symm

theorem restTells (noName : Bool) (name : Text) (indent : Int) : Tells (nameRest acceptAll noName name) indent
    (if noName then [] else [quote] ++ Json.escape name ++ [quote,colon,32] ++ List.replicate (nameMinLen - name.length) 32) := by
  have spaces : Tells (fun st => if name.length < nameMinLen then emit acceptAll (.space (nameMinLen - name.length)) st else .ok st)
      indent (List.replicate (nameMinLen - name.length) 32) := by
    by_cases short : name.length < nameMinLen
    · simp only [if_pos short]
      refine (emitTells _ indent).alike ?_
      change List.replicate ((nameMinLen : Int) - name.length).toNat 32 = _
      congr 1
      omega
    · simp only [if_neg short]
      rw [Nat.sub_eq_zero_of_le (Nat.le_of_not_lt short)]
      exact skipTells indent
  unfold nameRest
  cases noName with
  | true => exact skipTells indent
  | false =>
    refine ((emitTells _ indent).seq ((escapedTells name indent).seq ((emitTells _ indent).seq spaces))).alike ?_
    rw [if_neg Bool.false_ne_true,List.append_assoc,List.append_assoc]
    rfl

theorem indentFits {indent : Nat} {spaces : Text} (fits : Json.indentBuf indent = some spaces) :
    indent ≤ maxIndent ∧ spaces = (Piece.indentBuf indent).bytes := by
  unfold Json.indentBuf at fits
  split at fits
  next small =>
    cases fits
    exact ⟨small,rfl⟩
  next => cases fits

theorem nameTells (noName : Bool) {name : Text} {indent : Nat} (told : Json.nameText indent noName name = some text) :
    Tells (writeName acceptAll noName name) indent text := by
  intro st here
  rw [nameUnfold]
  unfold Json.nameText at told
  by_cases bare : name = []
  · rw [if_pos bare] at told ⊢
    cases told
    exact skipTells indent st here
  · rw [if_neg bare,Option.map_eq_some_iff] at told
    rw [if_neg bare,here]
    obtain ⟨spaces,fits,rfl⟩ := told
    obtain ⟨_,rfl⟩ := indentFits fits
    refine ((emitTells (.indentBuf indent) indent).seq (restTells noName name indent)).alike ?_ st here
    cases noName with
    | true => exact List.append_nil _
    | false =>
      rw [if_neg Bool.false_ne_true,if_neg Bool.false_ne_true]
      simp only [List.append_assoc]

theorem afterTells (isLast : Bool) (sep : Text) (last : Option Text) (indent : Int) :
    Tells (emitAfter acceptAll isLast sep last) indent (if isLast then last.getD [] else sep) := by
  unfold emitAfter
  cases isLast with
  | false => exact emitTells _ indent
  | true =>
    cases last with
    | none => exact skipTells indent
    | some => exact emitTells _ indent

theorem childrenTells {lines simple : Writing} {indent : Nat} {inside spaces : Text} (named : Bool)
    (tellsLines : named = true → Tells lines (Json.childIndent indent) inside ∧ Json.indentBuf indent = some spaces ∧
      text = [lf] ++ inside ++ spaces)
    (tellsSimple : named = false → Tells simple indent text) : Tells (writeChildren acceptAll named lines simple) indent text := by
  cases named with
  | false => exact tellsSimple rfl
  | true =>
    obtain ⟨tells,fits,rfl⟩ := tellsLines rfl
    obtain ⟨small,rfl⟩ := indentFits fits
    intro st here
    have most : maxIndent = 100 := rfl
    have raised : raises st = decide (indent < maxIndent) := by
      unfold raises
      rw [here,Int.emod_eq_of_lt (by omega) (by omega)]
      exact decide_eq_decide.mpr Int.ofNat_lt
    have start : (if raises st then raise st else st).indent = Json.childIndent indent ∧
        (if raises st then raise st else st).pieces = st.pieces := by
      rw [raised,Json.childIndent]
      by_cases less : indent < maxIndent
      · rw [decide_eq_true less,if_pos rfl,if_pos less]
        exact ⟨congrArg (· + (indentSize : Int)) here,rfl⟩
      · rw [decide_eq_false less,if_neg Bool.false_ne_true,if_neg less]
        exact ⟨here,rfl⟩
    obtain ⟨last,goes,at_,told⟩ := (emitTells (.text [lf]) _).seq tells _ start.1
    have back : (if raises st then lower last else last).indent = indent ∧
        (if raises st then lower last else last).pieces = last.pieces := by
      rw [raised]
      rw [Json.childIndent] at at_
      by_cases less : indent < maxIndent
      · rw [decide_eq_true less,if_pos rfl]
        rw [if_pos less] at at_
        refine ⟨?_,rfl⟩
        change last.indent - indentSize = indent
        rw [at_]
        push_cast
        exact Int.add_sub_cancel _ _
      · rw [decide_eq_false less,if_neg Bool.false_ne_true]
        rw [if_neg less] at at_
        exact ⟨at_,rfl⟩
    obtain ⟨st',goes',at_',told'⟩ := emitTells (.indentBuf indent) indent _ back.1
    refine ⟨st',?_,at_',?_⟩
    · rw [linesUnfold]
      change (emit acceptAll (.text [lf]) (if raises st then raise st else st)).bind lines = .ok last at goes
      rw [goes,Except.bind,back.1]
      exact goes'
    · rw [told',back.2,told,start.2,List.append_assoc]
      rfl

mutual

theorem elemTells (noName : Bool) (elem : Elem) {indent : Nat} {text : Text} (told : Json.elemWrite indent noName elem = some text) :
    Tells (elemWrite acceptAll noName elem) indent text := by
  cases elem with
  | leaf name value =>
    unfold Json.elemWrite at told
    unfold elemWrite
    obtain ⟨before,named,rfl⟩ := Option.map_eq_some_iff.mp told
    exact (nameTells noName named).seq (scalarTells value indent)
  | list name kind children =>
    unfold Json.elemWrite at told
    unfold elemWrite
    have parts : ∃ before body, Json.nameText indent noName name = some before ∧
        before ++ ([kind.begin] ++ ([32] ++ (body ++ [kind.end]))) = text ∧
        Tells (writeChildren acceptAll (firstNamed children)
          (childrenLoop acceptAll (decide (kind = .array)) (ascii ",\n") (some (ascii "\n")) children)
          (childrenLoop acceptAll (decide (kind = .array)) (ascii ", ") none children)) indent body := by
      cases first : firstNamed children with
      | false =>
        simp only [first,Bool.false_eq_true,if_false,bind,Option.bind_eq_some_iff,Option.some.injEq] at told
        obtain ⟨before,named,body,wrote,rfl⟩ := told
        refine ⟨before,body,named,by simp only [List.append_assoc,List.cons_append,List.nil_append],?_⟩
        exact @childrenTells body _ _ indent [] [] false (fun no => nomatch no) fun _ => loopTells _ _ none children wrote
      | true =>
        simp only [first,if_true,bind,Option.bind_eq_some_iff,Option.some.injEq] at told
        obtain ⟨before,named,lines,wrote,spaces,fits,body,rfl,rfl⟩ := told
        refine ⟨before,[lf] ++ lines ++ spaces,named,by simp only [List.append_assoc,List.cons_append,List.nil_append],?_⟩
        exact childrenTells true (fun _ => ⟨loopTells _ _ (some (ascii "\n")) children wrote,fits,rfl⟩) fun no => nomatch no
    obtain ⟨before,body,named,rfl,inside⟩ := parts
    exact (nameTells noName named).seq ((emitTells (.text [kind.begin]) indent).seq ((emitTells (.text [32]) indent).seq
      (inside.seq (emitTells (.text [kind.end]) indent))))

theorem loopTells (noName : Bool) (sep : Text) (last : Option Text) (children : List Elem) {indent : Nat} {text : Text}
    (told : Json.childrenWrite indent noName sep (last.getD []) children = some text) :
    Tells (childrenLoop acceptAll noName sep last children) indent text := by
  cases children with
  | nil =>
    unfold Json.childrenWrite at told
    unfold childrenLoop
    cases told
    exact skipTells indent
  | cons child children =>
    unfold Json.childrenWrite at told
    unfold childrenLoop
    simp only [bind,Option.bind_eq_some_iff,Option.some.injEq] at told
    obtain ⟨front,wrote,rest,wroteRest,rfl⟩ := told
    refine ((elemTells noName child wrote).seq ((afterTells children.isEmpty sep last indent).seq
      (loopTells noName sep last children wroteRest))).alike ?_
    exact (List.append_assoc _ _ _).symm

end

end Texts

section Parsing
open Json

/- Below the indent limit the callback is passed the text of the tree, in pieces, and the parser makes the same tree of them. -/
theorem piecesParse (elem : Elem) (integral : elem.Integral) (readable : elem.Readable) (long : elem.short = false)
    (shallow : indentSize * elem.levels ≤ maxIndent) : ∃ st, jsonWritef acceptAll elem = .ok st ∧
      jsonParse elem.size (st.pieces.flatMap Piece.bytes) = some (elem, []) := by
  obtain ⟨text,told⟩ := elemWritten 0 false elem (by rwa [Nat.zero_add])
  obtain ⟨st,goes,-,passed⟩ := elemTells false elem told start rfl
  have written : jsonWrite (text.length + 2) elem = some text := by
    unfold jsonWrite
    rw [told]
    exact if_neg (by omega)
  refine ⟨st,goes,?_⟩
  rw [passed]
  exact treeRead integral written readable long

theorem samplePiecesParse : ∃ st, jsonWritef acceptAll sample = .ok st ∧
    jsonParse sample.size (st.pieces.flatMap Piece.bytes) = some (sample, []) :=
  piecesParse sample sampleIntegral sampleReadable rfl (by decide)

end Parsing

end Pjproject.JsonWriter
