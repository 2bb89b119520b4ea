import Pjproject.UriPrintSteps

/-! When the print of a SIP URI stays inside its buffer and says whether the text fits: what each part of the text asks for
where it begins, and what is wrong where it does not get it. -/
namespace Pjproject.Uri
open Lib.BoundedPrint

variable (cfg : EndptCfg) (context : UriContext) (url : SipUri)

section Text

def schemeText : List UInt8 := scheme url ++ [0x3A]

def passwdText : List UInt8 := if url.passwd ≠ [] then 0x3A :: escaped passwdSpec url.passwd else []

def userEscaped : List UInt8 := escaped (if cfg.allowTxHashInUri then userSpecLenient else userSpec) url.user

def userText : List UInt8 := if url.user ≠ [] then userEscaped cfg url ++ (passwdText url ++ [0x40]) else []

def bracketed (tag str : List UInt8) : List UInt8 := if str.head? ≠ some 0x5B then tag ++ 0x5B :: str ++ [0x5D] else tag ++ str

def hostText : List UInt8 := if url.host.contains 0x3A then bracketed [] url.host else url.host

def portText : List UInt8 := if portShown cfg context url then ascii ":" ++ utoa url.port else []

def userParamText : List UInt8 := if url.userParam ≠ [] then ascii ";user=" ++ url.userParam else []

def pairText (tag str : List UInt8) : List UInt8 := if str ≠ [] then tag ++ escaped paramCharSpec str else []

def methodText : List UInt8 := if context = .inOther then pairText (ascii ";method=") url.methodParam else []

def transportText : List UInt8 := if context ≠ .inFromtoHdr then pairText (ascii ";transport=") url.transportParam else []

def ttlText : List UInt8 := if ttlShown context url then ascii ";ttl=" ++ utoa url.ttlParam else []

def maddrText : List UInt8 :=
  if context ≠ .inFromtoHdr ∧ url.maddrParam ≠ [] then
    if url.maddrParam.contains 0x3A then bracketed (ascii ";maddr=") url.maddrParam else pairText (ascii ";maddr=") url.maddrParam
  else []

def lrText : List UInt8 :=
  if url.lrParam ≠ 0 ∧ context ≠ .inFromtoHdr ∧ context ≠ .inContactHdr then ascii ";lr" else []

def otherText : List UInt8 := paramsText paramCharSpec 0x3B url.otherParam

def headerText : List UInt8 :=
  if context = .inContactHdr ∨ context = .inOther then paramsText hdrCharSpec 0x3F url.headerParam else []

/- The text of a URI in a context. -/
def urlText : List UInt8 :=
  schemeText url ++ userText cfg url ++ hostText url ++ portText cfg context url ++ userParamText url ++ methodText context url ++
    transportText context url ++ ttlText context url ++ maddrText context url ++ lrText context url ++ otherText url ++
    headerText context url

end Text

section Places

def hostAt : Nat := (schemeText url).length + (userText cfg url).length

def portAt : Nat := hostAt cfg url + (hostText url).length

def userParamAt : Nat := portAt cfg url + (portText cfg context url).length

def methodAt : Nat := userParamAt cfg context url + (userParamText url).length

def ttlAt : Nat := methodAt cfg context url + ((methodText context url).length + (transportText context url).length)

def maddrAt : Nat := ttlAt cfg context url + (ttlText context url).length

def lrAt : Nat := maddrAt cfg context url + (maddrText context url).length

theorem urlLength : (urlText cfg context url).length =
    lrAt cfg context url + ((lrText context url).length + ((otherText url).length + (headerText context url).length)) := by
  simp only [urlText,lrAt,maddrAt,ttlAt,methodAt,userParamAt,portAt,hostAt,List.length_append]
  omega

end Places

section Conditions

/- The room that is asked for before a port and before a ttl. -/
def PortRoom (size : Nat) : Prop := portShown cfg context url = true → portAt cfg url + 10 ≤ size

def TtlRoom (size : Nat) : Prop := ttlShown context url = true → ttlAt cfg context url + 15 ≤ size

/- Of all that is counted as an int, nothing that ends in the buffer is too long for one. The scheme, a host without brackets,
the port, the ttl and a quoted value are not counted. -/
structure Counted (size : Nat) : Prop where
  user : url.user ≠ [] → Short size (schemeText url).length (userEscaped cfg url).length
  passwd : url.user ≠ [] →
    Short size ((schemeText url).length + (userEscaped cfg url).length + 1) (escaped passwdSpec url.passwd).length
  host : url.host.contains 0x3A = true → Short (size + 1) (hostAt cfg url) (hostText url).length
  userParam : Short (size + 1) (userParamAt cfg context url) (userParamText url).length
  method : Short size (methodAt cfg context url) (methodText context url).length
  transport : Short size (methodAt cfg context url + (methodText context url).length) (transportText context url).length
  maddr : Short (if url.maddrParam.contains 0x3A then size + 1 else size) (maddrAt cfg context url) (maddrText context url).length
  other : ParamsShort size paramCharSpec (lrAt cfg context url + (lrText context url).length) 0x3B url.otherParam ∧
    Short size (lrAt cfg context url + (lrText context url).length) (otherText url).length
  header : context = .inContactHdr ∨ context = .inOther →
    ParamsShort size hdrCharSpec (lrAt cfg context url + (lrText context url).length + (otherText url).length) 0x3F url.headerParam ∧
      Short size (lrAt cfg context url + (lrText context url).length + (otherText url).length) (headerText context url).length

/- Whether the last part with any text leaves nothing for the terminator. -/
def lastLoose : List (List UInt8 × Bool) → Bool
  | [] => false
  | (text, loose) :: rest => if rest.all (·.1.isEmpty) then !text.isEmpty && loose else lastLoose rest

def partsBeforeMaddr : List (List UInt8 × Bool) :=
  [(methodText context url, escapes paramCharSpec url.methodParam),
    (transportText context url, escapes paramCharSpec url.transportParam),(ttlText context url, false)]

def partsFromMaddr : List (List UInt8 × Bool) :=
  [(maddrText context url, !url.maddrParam.contains 0x3A && escapes paramCharSpec url.maddrParam),(lrText context url, false),
    (otherText url, paramsLoose url.otherParam),(headerText context url, paramsLoose url.headerParam)]

/- The condition on a URI and the size of its buffer. -/
structure Holds (size : Nat) : Prop where
  some : 0 < size
  counted : Counted cfg context url size
  host : url.host.contains 0x3A = true → hostAt cfg url < size → Passes size (hostAt cfg url) (hostText url).length
  userParam : PortRoom cfg context url size → userParamAt cfg context url < size →
    Passes size (userParamAt cfg context url) (userParamText url).length
  maddr : url.maddrParam.contains 0x3A = true → PortRoom cfg context url size → TtlRoom cfg context url size →
    maddrAt cfg context url < size ∨ maddrAt cfg context url = size ∧ lastLoose (partsBeforeMaddr context url) = true →
      Passes size (maddrAt cfg context url) (maddrText context url).length
  port : portShown cfg context url = true →
    ((urlText cfg context url).length < size → portAt cfg url + 10 ≤ size) ∧
      (portAt cfg url + 10 ≤ size → userParamAt cfg context url < size)
  ttl : ttlShown context url = true →
    ((urlText cfg context url).length < size → ttlAt cfg context url + 15 ≤ size) ∧
      (ttlAt cfg context url + 15 ≤ size → maddrAt cfg context url < size)
  ends : ¬((urlText cfg context url).length = size ∧ PortRoom cfg context url size ∧ TtlRoom cfg context url size ∧
    lastLoose (partsBeforeMaddr context url ++ partsFromMaddr context url) = true)

end Conditions

section Steps
variable {cfg context url} {size start : Nat}

theorem schemePrints : Prints size (printScheme url size) start (schemeText url).length false := by
  have some : scheme url ≠ [] := by
    unfold scheme
    split <;> decide
  refine ((checkPrints _ _ _ (.inl some)).seq fun _ => checkPrints _ _ [0x3A] (.inl (List.cons_ne_nil _ _))).alike ?_ rfl
  rw [schemeText,List.length_append]

theorem passwdPrints (bounded : Short size (start + 1) (escaped passwdSpec url.passwd).length) :
    Prints size (printUser.printPasswd url size) start (passwdText url).length true := by
  unfold printUser.printPasswd passwdText
  by_cases some : url.passwd ≠ []
  · simp only [if_pos some]
    refine ((checkPrints _ _ [0x3A] (.inl (List.cons_ne_nil _ _))).seq fun _ => escapePrints bounded).alike ?_ ?_
    · rw [List.length_singleton,List.length_cons,Nat.add_comm]
    · exact if_neg (mt escapedNone.mp some)
  · simp only [if_neg some]
    exact skipPrints size start true

theorem userPrints (user : url.user ≠ [] → Short size start (userEscaped cfg url).length)
    (passwd : url.user ≠ [] → Short size (start + (userEscaped cfg url).length + 1) (escaped passwdSpec url.passwd).length) :
    Prints size (printUser cfg url size) start (userText cfg url).length false := by
  unfold printUser userText
  by_cases some : url.user ≠ []
  · simp only [if_pos some]
    refine ((escapePrints (user some)).seq fun _ => (passwdPrints (passwd some)).seq fun _ =>
      checkPrints _ _ [0x40] (.inl (List.cons_ne_nil _ _))).alike ?_ ?_
    · simp only [List.length_append]
      rfl
    · rw [if_neg (by rw [List.length_singleton]; omega),if_neg (by decide)]
  · simp only [if_neg some]
    exact skipPrints size start false

theorem bracketedCounts {str : List UInt8} (some : str ≠ []) (size : Nat) (tag : List UInt8) :
    Counts size (copyAdvancePairQuoteCond size tag str 0x5B 0x5D) (bracketed tag str).length := by
  unfold copyAdvancePairQuoteCond bracketed
  by_cases bare : str.head? ≠ Option.some 0x5B
  · rw [if_pos ⟨some,bare⟩,if_pos bare]
    exact pairQuoteCounts size tag str 0x5B 0x5D
  · rw [if_neg (fun both => bare both.2),if_neg bare]
    exact pairCheckCounts some size tag

theorem containsSome {str : List UInt8} {x : UInt8} (colon : str.contains x = true) : str ≠ [] := by
  rintro rfl
  cases colon

theorem hostCounts (colon : url.host.contains 0x3A = true) (size : Nat) :
    Counts size (printHost url size) (hostText url).length := by
  unfold printHost hostText
  rw [if_pos colon,if_pos colon]
  exact bracketedCounts (containsSome colon) size []

theorem hostPrints (plain : ¬url.host.contains 0x3A = true) (less : start < size) :
    Prints size (printHost url size) start (hostText url).length false := by
  unfold printHost hostText
  rw [if_neg plain,if_neg plain]
  exact checkPrints _ _ _ (.inr less)

theorem userParamCounts (some : url.userParam ≠ []) (size : Nat) :
    Counts size (printUserParam url size) (userParamText url).length := by
  unfold userParamText
  rw [if_pos some]
  exact pairCheckCounts some size _

theorem userParamNone (none : ¬url.userParam ≠ []) (endbuf : Int) :
    printUserParam url endbuf = .ok ∧ (userParamText url).length = 0 := by
  constructor
  · funext c
    exact if_neg none
  · unfold userParamText
    rw [if_neg none]
    rfl

theorem pairTextPrints {tag str : List UInt8} (bounded : Short size start (pairText tag str).length) :
    Prints size (copyAdvancePairEscape size tag str paramCharSpec) start (pairText tag str).length (escapes paramCharSpec str) := by
  unfold pairText at *
  by_cases some : str ≠ []
  · rw [if_pos some] at *
    exact pairEscapePrints some bounded
  · unfold copyAdvancePairEscape
    simp only [if_neg some]
    exact skipPrints size start _

theorem methodPrints (bounded : Short size start (methodText context url).length) :
    Prints size (printMethod context url size) start (methodText context url).length (escapes paramCharSpec url.methodParam) := by
  unfold printMethod methodText at *
  split
  next shown =>
    rw [if_pos shown] at bounded
    exact pairTextPrints bounded
  next => exact skipPrints size start _

theorem transportPrints (bounded : Short size start (transportText context url).length) :
    Prints size (printTransport context url size) start (transportText context url).length
      (escapes paramCharSpec url.transportParam) := by
  unfold printTransport transportText at *
  split
  next shown =>
    rw [if_pos shown] at bounded
    exact pairTextPrints bounded
  next => exact skipPrints size start _

theorem maddrCounts (shown : context ≠ .inFromtoHdr ∧ url.maddrParam ≠ []) (colon : url.maddrParam.contains 0x3A = true)
    (size : Nat) : Counts size (printMaddr context url size) (maddrText context url).length := by
  unfold printMaddr maddrText
  rw [if_pos shown,if_pos shown,if_pos colon,if_pos colon]
  exact bracketedCounts shown.2 size _

theorem maddrPrints (plain : ¬(context ≠ .inFromtoHdr ∧ url.maddrParam ≠ []) ∨ ¬url.maddrParam.contains 0x3A = true)
    (bounded : Short size start (maddrText context url).length) :
    Prints size (printMaddr context url size) start (maddrText context url).length (escapes paramCharSpec url.maddrParam) := by
  unfold printMaddr maddrText at *
  by_cases shown : context ≠ .inFromtoHdr ∧ url.maddrParam ≠ []
  · have bare := plain.resolve_left (not_not_intro shown)
    rw [if_pos shown,if_neg bare] at bounded
    rw [if_pos shown,if_pos shown,if_neg bare,if_neg bare]
    exact pairTextPrints bounded
  · rw [if_neg shown,if_neg shown]
    exact skipPrints size start _

theorem lrPrints : Prints size (printLr context url size) start (lrText context url).length false := by
  have check := checkPrints size start (ascii ";lr") (.inl (by decide))
  unfold printLr lrText
  by_cases shown : url.lrParam ≠ 0 ∧ context ≠ .inFromtoHdr ∧ context ≠ .inContactHdr
  · simp only [if_pos shown]
    have three : (ascii ";lr").length = 3 := rfl
    have same : ∀ c : Cursor, (if (size : Int) - c.place < 3 then Except.error c else copyAdvanceCheck size (ascii ";lr") c) =
        copyAdvanceCheck size (ascii ";lr") c := by
      intro c
      split
      next short => exact (if_pos (by rw [three]; omega)).symm
      next => rfl
    simp only [same]
    exact check
  · simp only [if_neg shown]
    exact skipPrints size start false

theorem otherPrints (bounded : ParamsShort size paramCharSpec start 0x3B url.otherParam ∧ Short size start (otherText url).length) :
    Prints size (printOther url size) start (otherText url).length (paramsLoose url.otherParam) :=
  (paramLoopPrints url.otherParam bounded.1).returned bounded.2

theorem headerPrints (bounded : context = .inContactHdr ∨ context = .inOther →
    ParamsShort size hdrCharSpec start 0x3F url.headerParam ∧ Short size start (headerText context url).length) :
    Prints size (printHeader context url size) start (headerText context url).length (paramsLoose url.headerParam) := by
  unfold printHeader headerText at *
  split
  next shown =>
    have bounded := bounded shown
    rw [if_pos shown] at bounded
    exact (paramLoopPrints url.headerParam bounded.1).returned bounded.2
  next => exact skipPrints size start _

variable (endbuf : Int)

theorem schemeMoves : Moves (printScheme url endbuf) (schemeText url).length True := by
  rw [schemeText,List.length_append]
  exact ((checkMoves endbuf (scheme url)).seq (checkMoves endbuf [0x3A])).imp fun _ => trivial

theorem passwdMoves : Moves (printUser.printPasswd url endbuf) (passwdText url).length
    ((escaped passwdSpec url.passwd).length < 2 ^ 31) := by
  unfold printUser.printPasswd passwdText
  by_cases some : url.passwd ≠ []
  · simp only [if_pos some,List.length_cons]
    rw [Nat.add_comm]
    exact ((checkMoves endbuf [0x3A]).seq (escapeMoves endbuf url.passwd passwdSpec)).imp fun both => both.2
  · simp only [if_neg some]
    refine skipMoves.imp fun _ => ?_
    rw [escapedNone.mpr (not_not.mp some)]
    decide

theorem userMoves : Moves (printUser cfg url endbuf) (userText cfg url).length (url.user ≠ [] →
    (userEscaped cfg url).length < 2 ^ 31 ∧ (escaped passwdSpec url.passwd).length < 2 ^ 31) := by
  unfold printUser userText
  by_cases some : url.user ≠ []
  · simp only [if_pos some,List.length_append]
    refine ((escapeMoves endbuf url.user _).seq ((passwdMoves endbuf).seq (checkMoves endbuf [0x40]))).imp ?_
    exact fun counted _ => ⟨counted.1,counted.2.1⟩
  · simp only [if_neg some]
    exact skipMoves.imp fun _ also => absurd also some

theorem hostMoves (size : Nat) :
    Moves (printHost url size) (hostText url).length (url.host.contains 0x3A = true → (hostText url).length < 2 ^ 31) := by
  by_cases colon : url.host.contains 0x3A = true
  · exact (hostCounts colon size).moves.imp fun short _ => short
  · unfold printHost hostText
    rw [if_neg colon,if_neg colon]
    exact (checkMoves size url.host).imp fun _ also => absurd also colon

theorem portMoves : Moves (printPort cfg context url endbuf) (portText cfg context url).length True := by
  unfold printPort portText
  split
  · exact numberMoves _ _ _ _
  · exact skipMoves

theorem userParamMoves (size : Nat) :
    Moves (printUserParam url size) (userParamText url).length ((userParamText url).length < 2 ^ 31) := by
  by_cases some : url.userParam ≠ []
  · exact (userParamCounts some size).moves
  · rw [(userParamNone some size).1,(userParamNone some size).2]
    exact skipMoves.imp fun _ => by decide

theorem pairTextMoves (tag str : List UInt8) :
    Moves (copyAdvancePairEscape endbuf tag str paramCharSpec) (pairText tag str).length ((pairText tag str).length < 2 ^ 31) := by
  unfold pairText
  by_cases some : str ≠ []
  · rw [if_pos some]
    exact pairEscapeMoves some endbuf tag paramCharSpec
  · unfold copyAdvancePairEscape
    simp only [if_neg some]
    exact skipMoves.imp fun _ => by decide

theorem methodMoves :
    Moves (printMethod context url endbuf) (methodText context url).length ((methodText context url).length < 2 ^ 31) := by
  unfold printMethod methodText
  split
  · exact pairTextMoves _ _ _
  · exact skipMoves.imp fun _ => by decide

theorem transportMoves : Moves (printTransport context url endbuf) (transportText context url).length
    ((transportText context url).length < 2 ^ 31) := by
  unfold printTransport transportText
  split
  · exact pairTextMoves _ _ _
  · exact skipMoves.imp fun _ => by decide

theorem ttlMoves : Moves (printTtl context url endbuf) (ttlText context url).length True := by
  unfold printTtl ttlText
  split
  · exact numberMoves _ _ _ _
  · exact skipMoves

theorem maddrMoves (size : Nat) :
    Moves (printMaddr context url size) (maddrText context url).length ((maddrText context url).length < 2 ^ 31) := by
  by_cases shown : context ≠ .inFromtoHdr ∧ url.maddrParam ≠ []
  · by_cases colon : url.maddrParam.contains 0x3A = true
    · exact (maddrCounts shown colon size).moves
    · unfold printMaddr maddrText
      rw [if_pos shown,if_pos shown,if_neg colon,if_neg colon]
      exact pairTextMoves _ _ _
  · unfold printMaddr maddrText
    rw [if_neg shown,if_neg shown]
    exact skipMoves.imp fun _ => by decide

theorem lrMoves : Moves (printLr context url endbuf) (lrText context url).length True := by
  have check := checkMoves endbuf (ascii ";lr")
  unfold printLr lrText
  by_cases shown : url.lrParam ≠ 0 ∧ context ≠ .inFromtoHdr ∧ context ≠ .inContactHdr
  · simp only [if_pos shown]
    refine ⟨fun c => ?_,fun c c' goes => ?_⟩
    · split
      · exact fun _ member => member
      · exact check.grows c
    · split at goes
      · cases goes
      · exact check.advances c c' goes
  · simp only [if_neg shown]
    exact skipMoves

theorem otherMoves : Moves (printOther url endbuf) (otherText url).length ((otherText url).length < 2 ^ 31) :=
  (paramLoopMoves _ _ _ _).returned

theorem headerMoves :
    Moves (printHeader context url endbuf) (headerText context url).length ((headerText context url).length < 2 ^ 31) := by
  unfold printHeader headerText
  split
  · exact (paramLoopMoves _ _ _ _).returned
  · exact skipMoves.imp fun _ => by decide

end Steps

end Pjproject.Uri
