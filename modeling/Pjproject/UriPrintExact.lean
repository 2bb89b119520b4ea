import Pjproject.UriPrintBounds

/-! The print of a SIP URI from part to part: it is right in a buffer exactly where no part goes wrong there. -/
namespace Pjproject.Uri
open Lib.BoundedPrint

/- Texts in a row, with a number behind the second and one behind the fourth: what must be so wherever the print gets to. -/
theorem reachedConditions {size total u h p a b t m d : Nat} (sp st lb lm ld : Bool) (passH passU passM : Prop)
    (all : total = u + h + p + a + b + t + m + d) (noPort : sp = false → p = 0) (noTtl : st = false → t = 0) :
    (u < size → passH ∧ (Reaches size u h false →
      (sp = true → (u + h + 10 ≤ size → u + h + p < size) ∧ (size < u + h + 10 → size ≤ total)) ∧
      ((sp = true → u + h + 10 ≤ size) → passU ∧ (Reaches size (u + h + p) a false → Reaches size (u + h + p + a) b lb →
        (st = true → (u + h + p + a + b + 15 ≤ size → u + h + p + a + b + t < size) ∧
          (size < u + h + p + a + b + 15 → size ≤ total)) ∧
        ((st = true → u + h + p + a + b + 15 ≤ size) → passM ∧ (Reaches size (u + h + p + a + b + t) m lm →
          Reaches size (u + h + p + a + b + t + m) d ld → total < size)))))) ↔
    (u < size → passH) ∧ ((sp = true → u + h + 10 ≤ size) → u + h + p < size → passU) ∧
      ((sp = true → u + h + 10 ≤ size) → (st = true → u + h + p + a + b + 15 ≤ size) →
        (u + h + p + a + b + t < size ∨ u + h + p + a + b + t = size ∧ st = false ∧ b ≠ 0 ∧ lb = true) → passM) ∧
      (sp = true → (total < size → u + h + 10 ≤ size) ∧ (u + h + 10 ≤ size → u + h + p < size)) ∧
      (st = true → (total < size → u + h + p + a + b + 15 ≤ size) ∧
        (u + h + p + a + b + 15 ≤ size → u + h + p + a + b + t < size)) ∧
      ¬(total = size ∧ (sp = true → u + h + 10 ≤ size) ∧ (st = true → u + h + p + a + b + 15 ≤ size) ∧
        (if d ≠ 0 then ld = true else if m ≠ 0 then lm = true else st = false ∧ b ≠ 0 ∧ lb = true)) := by
  unfold Reaches
  constructor
  · intro run
    have port : sp = true → (total < size → u + h + 10 ≤ size) ∧ (u + h + 10 ≤ size → u + h + p < size) := by
      intro shown
      refine ⟨fun fits => ?_,fun room => (((run (by omega)).2 (by omega)).1 shown).1 room⟩
      by_contra short
      have full := (((run (by omega)).2 (by omega)).1 shown).2 (by omega)
      omega
    have behind : (sp = true → u + h + 10 ≤ size) → u + h < size → u + h + p < size := by
      intro room less
      cases shown : sp with
      | true => exact (port shown).2 (room shown)
      | false => exact noPort shown ▸ less
    refine ⟨fun less => (run less).1,fun room less => (((run (by omega)).2 (by omega)).2 room).1,?_,port,?_,?_⟩
    · rintro room roomT (less | ⟨same,off,some,loose⟩)
      · exact (((((run (by omega)).2 (by omega)).2 room).2 (by omega) (by omega)).2 roomT).1
      · have none := noTtl off
        refine (((((run ?_).2 ?_).2 room).2 ?_ (.inr ⟨?_,.inr loose⟩)).2 roomT).1 <;> omega
    · intro shown
      constructor
      · intro fits
        by_contra short
        have room : sp = true → u + h + 10 ≤ size := fun on => (port on).1 fits
        have full := ((((run (by omega)).2 (by omega)).2 room).2 (by omega) (.inl (by omega))).1 shown
        have := full.2 (by omega)
        omega
      · intro roomT
        have room : sp = true → u + h + 10 ≤ size := fun _ => by omega
        exact (((((run (by omega)).2 (by omega)).2 room).2 (by omega) (.inl (by omega))).1 shown).1 roomT
    · rintro ⟨same,room,roomT,last⟩
      -- the last part fills the buffer, and all before it were printed
      have ends : u + h + p + a + b + t + m < size ∨ u + h + p + a + b + t + m = size ∧ d = 0 := by omega
      split at last
      next some =>
        have short := (((((run (by omega)).2 (by omega)).2 room).2 (by omega) (.inl (by omega))).2 roomT).2 (.inl (by omega))
          (.inr ⟨by omega,.inr last⟩)
        omega
      next none =>
        split at last
        next some =>
          have short := (((((run (by omega)).2 (by omega)).2 room).2 (by omega) (.inl (by omega))).2 roomT).2
            (.inr ⟨by omega,.inr last⟩) (.inr ⟨by omega,.inl (by omega)⟩)
          omega
        next none' =>
          have off := noTtl last.1
          have short := (((((run (by omega)).2 (by omega)).2 room).2 (by omega) (.inr ⟨by omega,.inr last.2.2⟩)).2 roomT).2
            (.inr ⟨by omega,.inl (by omega)⟩) (.inr ⟨by omega,.inl (by omega)⟩)
          omega
  · rintro ⟨host,userParam,maddr,port,ttl,ends⟩ less
    refine ⟨host less,fun reached => ⟨fun on => ⟨(port on).2,fun short => ?_⟩,fun room => ?_⟩⟩
    · by_contra fits
      have := (port on).1 (by omega)
      omega
    · have before : u + h + p < size := by
        have hosted : u + h < size := by
          rcases reached with less | ⟨same,none | no⟩
          · exact less
          · omega
          · cases no
        cases shown : sp with
        | true => exact (port shown).2 (room shown)
        | false =>
          have none := noPort shown
          omega
      refine ⟨userParam room before,fun reached' reachedB => ⟨fun on => ⟨(ttl on).2,fun short => ?_⟩,fun roomT => ?_⟩⟩
      · by_contra fits
        have := (ttl on).1 (by omega)
        omega
      · have within : u + h + p + a < size := by
          rcases reached' with less | ⟨same,none | no⟩
          · exact less
          · omega
          · cases no
        have timed : u + h + p + a + b + t < size ∨ u + h + p + a + b + t = size ∧ st = false ∧ b ≠ 0 ∧ lb = true := by
          cases shown : st with
          | true => exact .inl ((ttl shown).2 (roomT shown))
          | false =>
            have none := noTtl shown
            rcases reachedB with less | ⟨same,none' | loose⟩
            · exact .inl (by omega)
            · omega
            · refine .inr ⟨by omega,rfl,by omega,loose⟩
        refine ⟨maddr room roomT timed,fun reachedM reachedD => ?_⟩
        by_contra full
        have same : total = size := by
          rcases reachedD with less | ⟨same,_⟩ <;> omega
        refine ends ⟨same,room,roomT,?_⟩
        split
        next some =>
          rcases reachedD with less | ⟨_,none | loose⟩
          · omega
          · omega
          · exact loose
        next none =>
          split
          next some =>
            rcases reachedM with less | ⟨_,none' | loose⟩
            · omega
            · omega
            · exact loose
          next none' =>
            rcases timed with less | ⟨_,last⟩
            · omega
            · exact last

section Parts
variable (cfg : EndptCfg) (context : UriContext) (url : SipUri) (endbuf : Int)

/- The parts of a print, put together by what they may do wrong. -/
def printOpening : Step := fun c => (printScheme url endbuf c).bind (printUser cfg url endbuf)

def printEscaped : Step := fun c => (printMethod context url endbuf c).bind (printTransport context url endbuf)

def printClosing : Step := fun c =>
  (printLr context url endbuf c).bind fun c => (printOther url endbuf c).bind (printHeader context url endbuf)

def fromMaddr : Step := fun c => (printMaddr context url endbuf c).bind fun c => (printClosing context url endbuf c).bind .ok

def fromTtl : Step := fun c => (printTtl context url endbuf c).bind (fromMaddr context url endbuf)

def fromEscaped : Step := fun c => (printEscaped context url endbuf c).bind (fromTtl context url endbuf)

def fromUserParam : Step := fun c => (printUserParam url endbuf c).bind (fromEscaped context url endbuf)

def fromPort : Step := fun c => (printPort cfg context url endbuf c).bind (fromUserParam context url endbuf)

def fromHost : Step := fun c => (printHost url endbuf c).bind (fromPort cfg context url endbuf)

theorem bindAssoc (r : Except Cursor Cursor) (f g : Step) : (r.bind f).bind g = r.bind fun c => (f c).bind g := by
  cases r <;> rfl

theorem bindOk (r : Except Cursor Cursor) : r.bind .ok = r := by
  cases r <;> rfl

theorem printPartsFrom (c : Cursor) :
    printParts cfg context url endbuf c = (printOpening cfg url endbuf c).bind (fromHost cfg context url endbuf) := by
  unfold printOpening fromHost fromPort fromUserParam fromEscaped printEscaped fromTtl fromMaddr printClosing
  simp only [bindAssoc,bindOk]
  rfl

end Parts

section Right
variable {cfg : EndptCfg} {context : UriContext} {url : SipUri} {size start total : Nat} {onward : Prop} {g : Step}
  {c : Cursor}

theorem passesNone (size start : Nat) : Passes size start 0 := by
  intro less
  have none : toInt (0 : Nat) = 0 := rfl
  omega

theorem hostRight (grows : Grows g) (counted : url.host.contains 0x3A = true → Short (size + 1) start (hostText url).length)
    (less : start < size) (all : start + (hostText url).length ≤ total)
    (after : Reaches size start (hostText url).length false → ∀ c : Cursor, c.place = (start + (hostText url).length : Nat) →
      c.Inside size → (Right size total (g c) ↔ onward)) (here : c.place = start) (inside : c.Inside size) :
    Right size total ((printHost url size c).bind g) ↔
      (url.host.contains 0x3A = true → Passes size start (hostText url).length) ∧
        (Reaches size start (hostText url).length false → onward) := by
  by_cases colon : url.host.contains 0x3A = true
  · have right := (hostCounts colon size).right grows (counted colon) all (fun less => after (.inl less)) here inside
    exact ⟨fun whole => ⟨fun _ => (right.mp whole).1,(right.mp whole).2⟩,fun both => right.mpr ⟨both.1 colon,both.2⟩⟩
  · have right := (hostPrints colon less).right (Nat.le_of_lt less) all after here inside
    exact ⟨fun whole => ⟨fun also => absurd also colon,right.mp whole⟩,fun both => right.mpr both.2⟩

theorem userParamRight (grows : Grows g) (counted : Short (size + 1) start (userParamText url).length) (within : start ≤ size)
    (all : start + (userParamText url).length ≤ total)
    (after : Reaches size start (userParamText url).length false → ∀ c : Cursor,
      c.place = (start + (userParamText url).length : Nat) → c.Inside size → (Right size total (g c) ↔ onward))
    (here : c.place = start) (inside : c.Inside size) :
    Right size total ((printUserParam url size c).bind g) ↔ Passes size start (userParamText url).length ∧
      (Reaches size start (userParamText url).length false → onward) := by
  by_cases some : url.userParam ≠ []
  · exact (userParamCounts some size).right grows counted all (fun less => after (.inl less)) here inside
  · rw [(userParamNone some size).1]
    rw [(userParamNone some size).2] at all after ⊢
    have right := (skipPrints size start false).right within all after here inside
    exact right.trans ⟨fun rest => ⟨passesNone size start,rest⟩,And.right⟩

theorem maddrRight (grows : Grows g)
    (counted : Short (if url.maddrParam.contains 0x3A then size + 1 else size) start (maddrText context url).length)
    (within : start ≤ size) (all : start + (maddrText context url).length ≤ total)
    (after : Reaches size start (maddrText context url).length
      (!url.maddrParam.contains 0x3A && escapes paramCharSpec url.maddrParam) → ∀ c : Cursor,
        c.place = (start + (maddrText context url).length : Nat) → c.Inside size → (Right size total (g c) ↔ onward))
    (here : c.place = start) (inside : c.Inside size) : Right size total ((printMaddr context url size c).bind g) ↔
      (url.maddrParam.contains 0x3A = true → Passes size start (maddrText context url).length) ∧
        (Reaches size start (maddrText context url).length
          (!url.maddrParam.contains 0x3A && escapes paramCharSpec url.maddrParam) → onward) := by
  by_cases colon : url.maddrParam.contains 0x3A = true
  · rw [colon] at after counted ⊢
    rw [Bool.not_true,Bool.false_and] at after ⊢
    rw [if_pos rfl] at counted
    by_cases shown : context ≠ .inFromtoHdr ∧ url.maddrParam ≠ []
    · have right := (maddrCounts shown colon size).right grows counted all (fun less => after (.inl less)) here inside
      exact ⟨fun whole => ⟨fun _ => (right.mp whole).1,(right.mp whole).2⟩,fun both => right.mpr ⟨both.1 rfl,both.2⟩⟩
    · have none : printMaddr context url size = .ok ∧ (maddrText context url).length = 0 := by
        unfold printMaddr maddrText
        rw [if_neg shown,if_neg shown]
        exact ⟨rfl,rfl⟩
      rw [none.1]
      rw [none.2] at all after ⊢
      have right := (skipPrints size start false).right within all after here inside
      exact right.trans ⟨fun rest => ⟨fun _ => passesNone size start,rest⟩,And.right⟩
  · rw [Bool.not_eq_true] at colon
    rw [colon] at after counted ⊢
    rw [Bool.not_false,Bool.true_and] at after ⊢
    rw [if_neg Bool.false_ne_true] at counted
    have right := (maddrPrints (.inr (by rw [colon]; exact Bool.false_ne_true)) counted).right within all after here inside
    exact right.trans ⟨fun rest => ⟨fun no => (by cases no),rest⟩,And.right⟩

end Right

section Whole
variable {cfg : EndptCfg} {context : UriContext} {url : SipUri} {size : Nat}

theorem portSkips (size : Nat) (off : portShown cfg context url = false) :
    printPort cfg context url size = .ok ∧ (portText cfg context url).length = 0 := by
  unfold printPort portText
  rw [off]
  exact ⟨rfl,rfl⟩

theorem portAssumes (shown : portShown cfg context url = true) (start : Nat) :
    Assumes size (printPort cfg context url size) start 10 (portText cfg context url).length := by
  unfold printPort portText
  rw [if_pos shown,if_pos shown]
  exact numberAssumes size start 10 (ascii ":") url.port

theorem ttlSkips (size : Nat) (off : ttlShown context url = false) :
    printTtl context url size = .ok ∧ (ttlText context url).length = 0 := by
  unfold printTtl ttlText
  rw [off]
  exact ⟨rfl,rfl⟩

theorem ttlAssumes (shown : ttlShown context url = true) (start : Nat) :
    Assumes size (printTtl context url size) start 15 (ttlText context url).length := by
  unfold printTtl ttlText
  rw [if_pos shown,if_pos shown]
  exact numberAssumes size start 15 (ascii ";ttl=") url.ttlParam

theorem openingPrints (counted : Counted cfg context url size) :
    Prints size (printOpening cfg url size) 0 (hostAt cfg url) false := by
  refine (schemePrints.seq fun _ => userPrints ?_ ?_).alike rfl ?_
  · rw [Nat.zero_add]
    exact counted.user
  · rw [Nat.zero_add]
    exact counted.passwd
  · split <;> rfl

/- What of the parts with escapes or parameters comes last. -/
def escapedLoose (context : UriContext) (url : SipUri) : Bool :=
  if (transportText context url).length = 0 then escapes paramCharSpec url.methodParam else escapes paramCharSpec url.transportParam

def closingLoose (context : UriContext) (url : SipUri) : Bool :=
  if (otherText url).length + (headerText context url).length = 0 then false
  else if (headerText context url).length = 0 then paramsLoose url.otherParam
  else paramsLoose url.headerParam

theorem escapedPrints (counted : Counted cfg context url size) :
    Prints size (printEscaped context url size) (methodAt cfg context url)
      ((methodText context url).length + (transportText context url).length) (escapedLoose context url) :=
  (methodPrints counted.method).seq fun _ => transportPrints counted.transport

theorem closingPrints (counted : Counted cfg context url size) :
    Prints size (printClosing context url size) (lrAt cfg context url)
      ((lrText context url).length + ((otherText url).length + (headerText context url).length)) (closingLoose context url) :=
  lrPrints.seq fun _ => (otherPrints counted.other).seq fun _ => headerPrints counted.header

theorem rightReached (counted : Counted cfg context url size) (some : 0 < size) :
    Right size (urlText cfg context url).length (printParts cfg context url size ⟨0,[(0, 0)]⟩) ↔
      (hostAt cfg url < size → (url.host.contains 0x3A = true → Passes size (hostAt cfg url) (hostText url).length) ∧
        (Reaches size (hostAt cfg url) (hostText url).length false →
          (portShown cfg context url = true → (portAt cfg url + 10 ≤ size → userParamAt cfg context url < size) ∧
            (size < portAt cfg url + 10 → size ≤ (urlText cfg context url).length)) ∧
          (PortRoom cfg context url size → Passes size (userParamAt cfg context url) (userParamText url).length ∧
            (Reaches size (userParamAt cfg context url) (userParamText url).length false →
              Reaches size (methodAt cfg context url) ((methodText context url).length + (transportText context url).length)
                (escapedLoose context url) →
              (ttlShown context url = true → (ttlAt cfg context url + 15 ≤ size → maddrAt cfg context url < size) ∧
                (size < ttlAt cfg context url + 15 → size ≤ (urlText cfg context url).length)) ∧
              (TtlRoom cfg context url size →
                (url.maddrParam.contains 0x3A = true → Passes size (maddrAt cfg context url) (maddrText context url).length) ∧
                (Reaches size (maddrAt cfg context url) (maddrText context url).length
                    (!url.maddrParam.contains 0x3A && escapes paramCharSpec url.maddrParam) →
                  Reaches size (lrAt cfg context url)
                    ((lrText context url).length + ((otherText url).length + (headerText context url).length))
                    (closingLoose context url) → (urlText cfg context url).length < size)))))) := by
  have length := urlLength cfg context url
  have closingGrows : Grows fun c => (printClosing context url size c).bind .ok :=
    ((lrMoves size).seq ((otherMoves size).seq (headerMoves size))).grows.seq skipMoves.grows
  have maddrGrows : Grows (fromMaddr context url size) := (maddrMoves size).grows.seq closingGrows
  have ttlGrows : Grows (fromTtl context url size) := (ttlMoves size).grows.seq maddrGrows
  have escapedGrows : Grows (fromEscaped context url size) :=
    ((methodMoves size).grows.seq (transportMoves size).grows).seq ttlGrows
  have userParamGrows : Grows (fromUserParam context url size) := (userParamMoves size).grows.seq escapedGrows
  have portGrows : Grows (fromPort cfg context url size) := (portMoves size).grows.seq userParamGrows
  have inside : Cursor.Inside ⟨0,[(0, 0)]⟩ size := by
    intro w member
    rw [List.mem_singleton.mp member]
    dsimp only
    omega
  have behind : 0 < hostAt cfg url := by
    unfold hostAt schemeText
    rw [List.length_append,List.length_singleton]
    omega
  have opened : Reaches size 0 (hostAt cfg url) false ↔ hostAt cfg url < size := by
    unfold Reaches
    constructor
    · rintro (less | ⟨_,none | no⟩)
      · omega
      · omega
      · cases no
    · exact fun less => .inl (by omega)
  rw [printPartsFrom,← opened]
  have all : lrAt cfg context url ≤ (urlText cfg context url).length := by omega
  have lrIs : lrAt cfg context url = maddrAt cfg context url + (maddrText context url).length := rfl
  have maddrIs : maddrAt cfg context url = ttlAt cfg context url + (ttlText context url).length := rfl
  have ttlIs : ttlAt cfg context url =
    methodAt cfg context url + ((methodText context url).length + (transportText context url).length) := rfl
  have methodIs : methodAt cfg context url = userParamAt cfg context url + (userParamText url).length := rfl
  have userParamIs : userParamAt cfg context url = portAt cfg url + (portText cfg context url).length := rfl
  have portIs : portAt cfg url = hostAt cfg url + (hostText url).length := rfl
  refine (openingPrints counted).right (Nat.zero_le size) (by omega) (fun reaches c here inside => ?_) rfl inside
  have less := opened.mp reaches
  refine hostRight portGrows counted.host less (by omega) (fun reaches c here inside => ?_) (by omega) inside
  refine Assumes.right (fun shown => portAssumes shown _) (portSkips size) userParamGrows (fun roomy c here inside => ?_) here inside
  have within : userParamAt cfg context url < size := by
    cases shown : portShown cfg context url with
    | true => exact (roomy shown).2
    | false =>
      have none := (portSkips size shown).2
      rcases reaches with less | ⟨same,none | no⟩
      · omega
      · omega
      · cases no
  refine userParamRight escapedGrows counted.userParam (Nat.le_of_lt within) (by omega) (fun reaches c here inside => ?_) here inside
  refine (escapedPrints counted).right ?_ (by omega) (fun reaches c here inside => ?_) here inside
  · rcases reaches with less | ⟨same,_⟩ <;> omega
  refine Assumes.right (fun shown => ttlAssumes shown _) (ttlSkips size) maddrGrows (fun roomy c here inside => ?_) here inside
  have within : maddrAt cfg context url ≤ size := by
    cases shown : ttlShown context url with
    | true => exact Nat.le_of_lt (roomy shown).2
    | false =>
      have none := (ttlSkips size shown).2
      rcases reaches with less | ⟨same,_⟩ <;> omega
  refine maddrRight closingGrows counted.maddr within (by omega) (fun reaches c here inside => ?_) here inside
  refine (closingPrints counted).right ?_ (by omega) (fun reaches c here inside => ?_) here inside
  · rcases reaches with less | ⟨same,_⟩ <;> omega
  exact ⟨fun right => right.2.2,fun fits => ⟨inside,by omega,fits⟩⟩

theorem lastLooseNone {parts : List (List UInt8 × Bool)} (none : parts.all (·.1.isEmpty) = true) : lastLoose parts = false := by
  cases parts with
  | nil => rfl
  | cons =>
    rw [List.all_cons,Bool.and_eq_true] at none
    rw [lastLoose,if_pos none.2,none.1]
    rfl

theorem lastLooseAppend (first second : List (List UInt8 × Bool)) :
    lastLoose (first ++ second) = if second.all (·.1.isEmpty) then lastLoose first else lastLoose second := by
  induction first with
  | nil =>
    rw [List.nil_append]
    split
    next none => exact lastLooseNone none
    next => rfl
  | cons part first ih =>
    rw [List.cons_append,lastLoose,lastLoose,ih,List.all_append]
    cases second.all (·.1.isEmpty) with
    | true => rw [Bool.and_true,if_pos rfl,if_pos rfl]
    | false => rw [Bool.and_false,if_neg Bool.false_ne_true,if_neg Bool.false_ne_true,if_neg Bool.false_ne_true]

theorem looseBeforeMaddr : lastLoose (partsBeforeMaddr context url) = true ↔
    ttlShown context url = false ∧ (methodText context url).length + (transportText context url).length ≠ 0 ∧
      escapedLoose context url = true := by
  have shown : ttlShown context url = false ↔ (ttlText context url) = [] := by
    unfold ttlText
    cases ttlShown context url with
    | true => exact ⟨fun no => (by cases no),fun no => by cases no⟩
    | false => exact ⟨fun _ => rfl,fun _ => rfl⟩
  rw [shown]
  unfold partsBeforeMaddr escapedLoose
  cases methodText context url <;> cases transportText context url <;> cases ttlText context url <;> simp [lastLoose]

theorem looseFromMaddr : lastLoose (partsBeforeMaddr context url ++ partsFromMaddr context url) = true ↔
    if (lrText context url).length + ((otherText url).length + (headerText context url).length) ≠ 0 then
      closingLoose context url = true else if (maddrText context url).length ≠ 0 then
      (!url.maddrParam.contains 0x3A && escapes paramCharSpec url.maddrParam) = true
    else lastLoose (partsBeforeMaddr context url) = true := by
  rw [lastLooseAppend]
  unfold partsFromMaddr closingLoose
  cases maddrText context url <;> cases lrText context url <;> cases otherText url <;> cases headerText context url <;>
    simp [lastLoose]

theorem rightHolds (counted : Counted cfg context url size) (some : 0 < size) :
    Right size (urlText cfg context url).length (printParts cfg context url size ⟨0,[(0, 0)]⟩) ↔ Holds cfg context url size := by
  have whole : (urlText cfg context url).length = hostAt cfg url + (hostText url).length + (portText cfg context url).length +
      (userParamText url).length + ((methodText context url).length + (transportText context url).length) +
      (ttlText context url).length + (maddrText context url).length +
      ((lrText context url).length + ((otherText url).length + (headerText context url).length)) := urlLength cfg context url
  have conditions := @reachedConditions size _ _ _ _ _ _ _ _ _ (portShown cfg context url) (ttlShown context url)
    (escapedLoose context url) (!url.maddrParam.contains 0x3A && escapes paramCharSpec url.maddrParam) (closingLoose context url)
    (url.host.contains 0x3A = true → Passes size (hostAt cfg url) (hostText url).length)
    (Passes size (userParamAt cfg context url) (userParamText url).length)
    (url.maddrParam.contains 0x3A = true → Passes size (maddrAt cfg context url) (maddrText context url).length)
    whole (fun off => (portSkips size off).2) (fun off => (ttlSkips size off).2)
  rw [← looseBeforeMaddr,← looseFromMaddr] at conditions
  refine (rightReached counted some).trans (conditions.trans ⟨?_,?_⟩)
  · rintro ⟨host,userParam,maddr,port,ttl,ends⟩
    exact ⟨some,counted,fun colon less => host less colon,userParam,fun colon room roomT before => maddr room roomT before colon,
      port,ttl,ends⟩
  · rintro ⟨_,_,host,userParam,maddr,port,ttl,ends⟩
    exact ⟨fun less colon => host colon less,userParam,fun room roomT before colon => maddr colon room roomT before,port,ttl,ends⟩

end Whole

section Stays
variable (cfg : EndptCfg) (context : UriContext) (url : SipUri) (size : Nat)

/- The print of a URI stays inside its buffer, and returns -1 exactly when the text and its terminator do not fit. -/
def Stays : Prop :=
  (∀ w ∈ (urlPrint cfg context url size).2, 0 ≤ w.1 ∧ w.1 < size) ∧
    (urlPrint cfg context url size).1 = if (urlText cfg context url).length + 1 ≤ size then ((urlText cfg context url).length : Int) else -1

theorem partsMoves : Moves (printParts cfg context url size) (urlText cfg context url).length
    ((url.user ≠ [] → (userEscaped cfg url).length < 2 ^ 31 ∧ (escaped passwdSpec url.passwd).length < 2 ^ 31) ∧
      (url.host.contains 0x3A = true → (hostText url).length < 2 ^ 31) ∧ (userParamText url).length < 2 ^ 31 ∧
      (methodText context url).length < 2 ^ 31 ∧ (transportText context url).length < 2 ^ 31 ∧
      (maddrText context url).length < 2 ^ 31 ∧ (otherText url).length < 2 ^ 31 ∧ (headerText context url).length < 2 ^ 31) := by
  have length : (urlText cfg context url).length = (schemeText url).length + ((userText cfg url).length + ((hostText url).length +
      ((portText cfg context url).length + ((userParamText url).length + ((methodText context url).length +
        ((transportText context url).length + ((ttlText context url).length + ((maddrText context url).length +
          ((lrText context url).length + ((otherText url).length + (headerText context url).length)))))))))) := by
    simp only [urlText,List.length_append]
    omega
  rw [length]
  refine Moves.imp ((schemeMoves size).seq <| (userMoves size).seq <| (hostMoves size).seq <| (portMoves size).seq <|
    (userParamMoves size).seq <| (methodMoves size).seq <| (transportMoves size).seq <| (ttlMoves size).seq <|
      (maddrMoves size).seq <| (lrMoves size).seq <| (otherMoves size).seq (headerMoves size)) ?_
  rintro ⟨_,user,host,_,userParam,method,transport,_,maddr,_,other,header⟩
  exact ⟨user,host,userParam,method,transport,maddr,other,header⟩

theorem staysRight : Stays cfg context url size ↔
    0 < size ∧ Right size (urlText cfg context url).length (printParts cfg context url size ⟨0,[(0, 0)]⟩) := by
  have first : (0, 0) ∈ (reached (printParts cfg context url size ⟨0,[(0, 0)]⟩)).writes :=
    (partsMoves cfg context url size).grows ⟨0,[(0, 0)]⟩ List.mem_cons_self
  unfold Stays urlPrint
  cases result : printParts cfg context url size ⟨0,[(0, 0)]⟩ with
  | error =>
    rw [result] at first
    dsimp only [Right]
    constructor
    · rintro ⟨inside,returns⟩
      have zero := inside _ first
      split at returns
      · omega
      next full => exact ⟨by omega,inside,by omega⟩
    · rintro ⟨_,inside,full⟩
      exact ⟨inside,(if_neg (by omega)).symm⟩
  | ok =>
    rw [result] at first
    dsimp only [Right]
    constructor
    · rintro ⟨inside,returns⟩
      have zero := inside _ (List.mem_append_left _ first)
      have last := inside _ (List.mem_append_right _ (List.mem_singleton.mpr rfl))
      dsimp only at last
      split at returns
      next fits => exact ⟨by omega,fun w member => inside w (List.mem_append_left _ member),returns,by omega⟩
      next => omega
    · rintro ⟨_,inside,place,fits⟩
      refine ⟨fun w member => ?_,place.trans (if_pos (by omega)).symm⟩
      rcases List.mem_append.mp member with printed | last
      · exact inside w printed
      · rw [List.mem_singleton.mp last]
        dsimp only
        omega

variable {cfg context url size}

theorem smallCounted (some : 0 < size) (small : size < 2 ^ 31) : Counted cfg context url size := by
  have behind : 0 < hostAt cfg url := by
    unfold hostAt schemeText
    rw [List.length_append,List.length_singleton]
    omega
  have short : ∀ start n, Short size start n := fun start n fits => by omega
  have short' : ∀ start n, 0 < start → Short (size + 1) start n := fun start n more fits => by omega
  have userParamBehind : 0 < userParamAt cfg context url := by
    unfold userParamAt portAt
    omega
  refine ⟨fun _ => short _ _,fun _ => short _ _,fun _ => short' _ _ behind,short' _ _ userParamBehind,short _ _,short _ _,?_,
    ⟨paramsSmall _ (.inl small),short _ _⟩,fun _ => ⟨paramsSmall _ (.inl small),short _ _⟩⟩
  split
  · exact short' _ _ (by unfold maddrAt ttlAt methodAt; omega)
  · exact short _ _

theorem fitsCounted (fits : (urlText cfg context url).length < size) (stays : Stays cfg context url size) :
    Counted cfg context url size := by
  have right := ((staysRight cfg context url size).mp stays).2
  cases result : printParts cfg context url size ⟨0,[(0, 0)]⟩ with
  | error =>
    rw [result] at right
    exact absurd right.2 (Nat.not_le.mpr fits)
  | ok c =>
    rw [result] at right
    rcases (partsMoves cfg context url size).advances _ c result with ⟨_,user,host,userParam,method,transport,maddr,other,header⟩ | ⟨early,_⟩
    · refine ⟨fun some _ => (user some).1,fun some _ => (user some).2,fun colon _ => host colon,fun _ => userParam,fun _ => method,
        fun _ => transport,fun _ => maddr,⟨paramsSmall _ (.inr other),fun _ => other⟩,fun shown => ⟨paramsSmall _ (.inr ?_),
          fun _ => header⟩⟩
      unfold headerText at header
      rw [if_pos shown] at header
      exact header
    · have place := right.2.1
      dsimp only at early
      omega

/- The print keeps to its buffer and its promise under the conditions, and only so: always in a buffer of less than 2^31
bytes, and in a larger one whenever the text fits. -/
theorem staysExactly (cfg : EndptCfg) (context : UriContext) (url : SipUri) (size : Nat) :
    (Holds cfg context url size → Stays cfg context url size) ∧
      (size < 2 ^ 31 ∨ (urlText cfg context url).length < size → Stays cfg context url size → Holds cfg context url size) := by
  constructor
  · intro holds
    exact (staysRight cfg context url size).mpr ⟨holds.some,(rightHolds holds.counted holds.some).mpr holds⟩
  · intro whole stays
    obtain ⟨some,right⟩ := (staysRight cfg context url size).mp stays
    have counted : Counted cfg context url size := by
      rcases whole with small | fits
      · exact smallCounted some small
      · exact fitsCounted fits stays
    exact (rightHolds counted some).mp right

/- A parameter without a value that ends the buffer: its terminator is written behind it. -/
theorem paramLeavesBuffer : ¬Stays ⟨false,false⟩ .inOther { host := ascii "a", otherParam := [⟨ascii "x",[]⟩] } 7 := by
  intro stays
  exact absurd (stays.1 (7, 0) (by decide +kernel)) (by decide)

end Stays

end Pjproject.Uri
