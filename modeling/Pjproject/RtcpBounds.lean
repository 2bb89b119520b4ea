import Pjproject.Rtcp

/-! Where the reception of an RTCP packet reads. The walk compares a packet's length field with what is left of the compound,
but not with what the packet's type reads, so the exact condition for staying inside is stated type by type. -/
namespace Pjproject.Rtcp
open Lib.Bytes

variable {size pos len : Nat} {pkt : Memory}

theorem thenInside {α β : Type} {x : Rx α} {f : α → Rx β} {rest : Prop}
    (same : ∀ a, Reads.Within size .outOfFuel (f a) ↔ rest) : Reads.Within size .outOfFuel (x >>= f) ↔ Reads.Within size .outOfFuel x ∧ rest := by
  rw [bindWithin]
  refine and_congr_right fun inside => ?_
  constructor
  · intro next
    cases result : x.result with
    | error e =>
      cases e
      exact absurd result inside.2
    | ok a => exact (same a).mp (next a result)
  · exact fun holds a _ => (same a).mpr holds

abbrev packetLen (pkt : Memory) (pos : Nat) : Nat := ((word16 (pkt (pos + 2)) (pkt (pos + 2 + 1))).toNat + 1) * 4

abbrev packetCount (pkt : Memory) (pos : Nat) : UInt8 := pkt pos &&& 0x1F

/- What each packet type needs between its first byte and the end of the memory. -/

variable (sess : Session)

theorem parseSrInside : Reads.Within size .outOfFuel (parseSr pkt pos sess) ↔ pos + 16 ≤ size := by
  simp only [parseSr,read32Within,pureWithin,and_true]
  omega

theorem parseRrInside : Reads.Within size .outOfFuel (parseRr pkt pos sess) ↔ pos + 20 ≤ size ∧
      (word32 (pkt (pos + 16)) (pkt (pos + 16 + 1)) (pkt (pos + 16 + 2)) (pkt (pos + 16 + 3)) = 0 ∨
        pos + 24 ≤ size) := by
  simp only [parseRr,readByteWithin,read32Within]
  split
  · rename_i zero
    simp only [pureWithin,zero,true_or,and_true]
    omega
  · rename_i other
    simp only [read32Within,pureWithin,other,false_or,and_true]
    omega

theorem headerInside {β : Type} {f : UInt8 → UInt8 → Rx β} (room : pos + 4 ≤ size) :
    Reads.Within size .outOfFuel (do let pt ← ptAt pkt pos; let count ← countAt pkt pos; f pt count) ↔
      Reads.Within size .outOfFuel (f (pkt (pos + 1)) (packetCount pkt pos)) := by
  unfold ptAt countAt
  rw [readByteWithin,bindWithin,readByteWithin]
  simp only [pureWithin,and_true]
  constructor
  · rintro ⟨_,_,next⟩
    exact next _ rfl
  · intro next
    refine ⟨by omega,by omega,?_⟩
    intro count found
    cases found
    exact next

theorem parseRtcpReportInside (fits : pos + len ≤ size)
    (header : 4 ≤ len) : Reads.Within size .outOfFuel (parseRtcpReport pkt pos len sess) ↔
      (pkt (pos + 1) = sr → pos + 16 ≤ size) ∧ (pkt (pos + 1) = rr → packetCount pkt pos = 0 ∨ pos + 28 ≤ size ∧
        (word32 (pkt (pos + 24)) (pkt (pos + 24 + 1)) (pkt (pos + 24 + 2)) (pkt (pos + 24 + 3)) = 0 ∨
          pos + 32 ≤ size)) := by
  unfold parseRtcpReport
  rw [headerInside (by omega)]
  split
  · rename_i isSr
    rw [isSr]
    have after : ∀ sess, Reads.Within size .outOfFuel (if 0 < packetCount pkt pos ∧ 52 ≤ len then parseRr pkt (pos + 28) sess
        else (return sess)) ↔ True := by
      intro sess
      split
      · rename_i long
        rw [parseRrInside,iff_true]
        exact ⟨by omega,.inr (by omega)⟩
      · simp
    rw [thenInside after,parseSrInside]
    simp [sr,rr]
  · rename_i notSr
    split
    · rename_i reports
      rw [parseRrInside]
      have some : packetCount pkt pos ≠ 0 := fun zero => absurd (zero ▸ reports.2) (by decide)
      have other : rr ≠ sr := by decide
      simp only [reports.1,some,other,false_implies,true_and,true_implies,false_or]
    · rename_i none
      simp only [pureWithin,notSr,false_implies,true_and,true_iff]
      intro isRr
      refine .inl ?_
      by_contra positive
      exact none ⟨isRr,UInt8.pos_iff_ne_zero.mpr positive⟩

theorem sdesItemsInside {pEnd : Nat} (fits : pEnd ≤ size) (fuel p used : Nat) (sess : Session)
    (enough : pEnd ≤ p + fuel) : Reads.Within size .outOfFuel (sdesItems pkt pEnd fuel p used sess) := by
  induction fuel generalizing p used sess with
  | zero =>
    rw [sdesItems,if_neg (by omega)]
    exact pureWithin _
  | succ fuel ih =>
    rw [sdesItems]
    split
    · rename_i more
      rw [readByteWithin]
      refine ⟨by omega,?_⟩
      split
      · exact pureWithin _
      · rename_i goesOn
        have another : p + 1 ≠ pEnd := fun last => goesOn (.inr last)
        rw [readByteWithin]
        refine ⟨by omega,?_⟩
        dsimp only
        split
        · exact pureWithin _
        · rename_i whole
          rw [readSliceWithin]
          refine ⟨.inr (by omega),?_⟩
          split
          · exact ih _ _ _ (by omega)
          · exact ih _ _ _ (by omega)
    · exact pureWithin _

theorem parseRtcpByeInside (fits : pos + len ≤ size) :
    Reads.Within size .outOfFuel (parseRtcpBye pkt pos len sess) ↔
      (len ≤ 8 ∨ pos + 9 + min sdesBufLen (pkt (pos + 8)).toNat ≤ size) := by
  unfold parseRtcpBye
  split
  · rename_i short
    simp [short]
  · rename_i long
    rw [readByteWithin,readSliceWithin]
    simp only [pureWithin,and_true,long,false_or]
    omega

theorem nacksInside (n p : Nat) : Reads.Within size .outOfFuel (nacks pkt n p) ↔ (n = 0 ∨ p + 4 * n ≤ size) := by
  induction n generalizing p with
  | zero => simp [nacks]
  | succ n ih =>
    rw [nacks,read16Within,read16Within,thenInside fun _ => iff_true_intro (pureWithin _),ih,and_true]
    omega

theorem parseNackInside (fits : pos + len ≤ size) (header : 4 ≤ len)
    (field : len = packetLen pkt pos) : Reads.Within size .outOfFuel (parseNack pkt pos len 1) ↔
      (pkt (pos + 1) = rtpfb → packetCount pkt pos = 1 → len = 8 → pos + 12 ≤ size) := by
  unfold parseNack
  split
  · rename_i short
    simp only [pureWithin,true_iff]
    omega
  · rename_i long
    rw [headerInside (by omega)]
    split
    · rename_i other
      simp only [pureWithin,true_iff]
      intro pt count
      simp [pt,count] at other
    · rename_i generic
      obtain ⟨pt,count⟩ : pkt (pos + 1) = rtpfb ∧ packetCount pkt pos = 1 := by simpa using generic
      unfold lengthAt
      unfold packetLen at field
      rw [read16Within]
      generalize words : word16 (pkt (pos + 2)) (pkt (pos + 2 + 1)) = length at field ⊢
      have bound := length.toNat_lt
      have entries : ((length.toUInt32 - 2 + 3) * 4).toNat = (length.toNat + 1) * 4 := by
        simp only [UInt32.toNat_mul,UInt32.toNat_add,UInt32.toNat_sub,UInt16.toNat_toUInt32,UInt32.reduceToNat]
        omega
      rw [if_neg (by omega),thenInside fun _ => iff_true_intro (pureWithin _),nacksInside]
      simp only [pt,count,true_implies,and_true]
      have least : (min 1 (length.toUInt32 - 2)).toNat = if length.toNat = 2 then 0 else 1 := by
        have cnt : (length.toUInt32 - 2).toNat = (length.toNat + (2 ^ 32 - 2)) % 2 ^ 32 := by
          simp only [UInt32.toNat_sub,UInt16.toNat_toUInt32,UInt32.reduceToNat]
          omega
        change (if 1 ≤ length.toUInt32 - 2 then (1 : UInt32) else length.toUInt32 - 2).toNat = _
        simp only [UInt32.le_iff_toNat_le,apply_ite UInt32.toNat,cnt,UInt32.reduceToNat]
        split <;> split <;> omega
      rw [least]
      split <;> omega

theorem parsePliInside (fits : pos + len ≤ size) : Reads.Within size .outOfFuel (parsePli pkt pos len) := by
  unfold parsePli
  split
  · exact pureWithin _
  · rw [headerInside (by omega)]
    exact pureWithin _

theorem parseRtcpFbInside (fits : pos + len ≤ size) (header : 4 ≤ len) (field : len = packetLen pkt pos) :
    Reads.Within size .outOfFuel (parseRtcpFb pkt pos len sess) ↔
      (pkt (pos + 1) = rtpfb → packetCount pkt pos = 1 → len = 8 → pos + 12 ≤ size) := by
  unfold parseRtcpFb
  have after : ∀ found : Status × List Nack, Reads.Within size .outOfFuel (
        if found.1 = .success then return { sess with events := .nack (found.2.headD ⟨0,0⟩) :: sess.events }
        else do
          let status ← parsePli pkt pos len
          return if status = .success then { sess with events := .pli :: sess.events } else sess) ↔ True := by
    rintro ⟨status,found⟩
    dsimp only
    split
    · exact iff_true_intro (pureWithin _)
    · rw [thenInside fun _ => iff_true_intro (pureWithin _),and_true,iff_true]
      exact parsePliInside fits
  exact (thenInside after).trans (by rw [and_true,parseNackInside fits header field])

/- What a packet at `pos` needs, by its type, beyond lying in the memory with the length it claims. -/
structure PacketFits (pkt : Memory) (size pos : Nat) : Prop where
  sr : pkt (pos + 1) = sr → pos + 16 ≤ size
  rr : pkt (pos + 1) = rr → packetCount pkt pos = 0 ∨ pos + 28 ≤ size ∧
    (word32 (pkt (pos + 24)) (pkt (pos + 24 + 1)) (pkt (pos + 24 + 2)) (pkt (pos + 24 + 3)) = 0 ∨ pos + 32 ≤ size)
  bye : pkt (pos + 1) = bye → packetLen pkt pos ≤ 8 ∨ pos + 9 + min sdesBufLen (pkt (pos + 8)).toNat ≤ size
  nack : pkt (pos + 1) = rtpfb → packetCount pkt pos = 1 → packetLen pkt pos = 8 → pos + 12 ≤ size

theorem dispatchInside (fits : pos + packetLen pkt pos ≤ size) :
    Reads.Within size .outOfFuel (dispatch pkt pos (packetLen pkt pos) (pkt (pos + 1)) sess) ↔
      PacketFits pkt size pos := by
  have header : 4 ≤ packetLen pkt pos := by
    unfold packetLen
    omega
  unfold dispatch
  split
  · rename_i report
    rw [parseRtcpReportInside sess fits header]
    constructor
    · rintro ⟨first,second⟩
      refine ⟨first,second,?_,?_⟩
      all_goals
        intro type
        rw [type] at report
        exact absurd report (by decide)
    · exact fun all => ⟨all.sr,all.rr⟩
  · rename_i noReport
    have notSr : pkt (pos + 1) ≠ sr := fun type => noReport (.inl type)
    have notRr : pkt (pos + 1) ≠ rr := fun type => noReport (.inr (.inl type))
    split
    · rename_i type
      have always : Reads.Within size .outOfFuel (parseRtcpSdes pkt pos (packetLen pkt pos) sess) :=
        sdesItemsInside fits _ _ _ _ (by omega)
      refine iff_of_true always ⟨fun t => absurd t notSr,fun t => absurd t notRr,fun t => ?_,fun t => ?_⟩
      all_goals exact absurd (type.symm.trans t) (by decide)
    · rename_i notSdes
      split
      · rename_i type
        rw [parseRtcpByeInside sess fits]
        refine ⟨fun reason => ⟨fun t => absurd t notSr,fun t => absurd t notRr,fun _ => reason,fun t => ?_⟩,
          fun all => all.bye type⟩
        exact absurd (type.symm.trans t) (by decide)
      · rename_i notBye
        split
        · rw [parseRtcpFbInside sess fits header rfl]
          exact ⟨fun entry => ⟨fun t => absurd t notSr,fun t => absurd t notRr,fun t => absurd t notBye,entry⟩,
            fun all => all.nack⟩
        · rename_i noFeedback
          refine iff_of_true (pureWithin sess)
            ⟨fun t => absurd t notSr,fun t => absurd t notRr,fun t => absurd t notBye,fun t => ?_⟩
          exact absurd (.inl t) noFeedback

/- Where the walk arrives: behind every packet whose length field stays inside the string. -/
inductive Arrives (pkt : Memory) (size : Nat) : Nat → Nat → Prop where
  | here (pos : Nat) : Arrives pkt size pos pos
  | next {pos last : Nat} (more : pos < size) (fits : pos + packetLen pkt pos ≤ size)
      (rest : Arrives pkt size (pos + packetLen pkt pos) last) : Arrives pkt size pos last

/- Nothing shorter than the four bytes up to the length field is left over, and every packet inside the string has what its
type needs. -/
def CompoundFits (pkt : Memory) (size start : Nat) : Prop :=
  ∀ pos, Arrives pkt size start pos → pos < size →
    pos + 4 ≤ size ∧ (pos + packetLen pkt pos ≤ size → PacketFits pkt size pos)

theorem CompoundFits.step (more : pos < size) :
    CompoundFits pkt size pos ↔ pos + 4 ≤ size ∧ (pos + packetLen pkt pos ≤ size →
      PacketFits pkt size pos ∧ CompoundFits pkt size (pos + packetLen pkt pos)) := by
  constructor
  · intro all
    refine ⟨(all pos (.here pos) more).1,fun fits => ⟨(all pos (.here pos) more).2 fits,?_⟩⟩
    exact fun last arrives inside => all last (.next more fits arrives) inside
  · rintro ⟨header,packet⟩ last arrives inside
    cases arrives with
    | here => exact ⟨header,fun fits => (packet fits).1⟩
    | next _ fits rest => exact (packet fits).2 last rest inside

theorem rxRtcpInside (fuel pos : Nat) (sess : Session) (enough : size ≤ pos + fuel) :
    Reads.Within size .outOfFuel (rxRtcp pkt size fuel pos sess) ↔ CompoundFits pkt size pos := by
  have ended : ∀ pos, ¬ pos < size → CompoundFits pkt size pos := by
    intro pos past last arrives inside
    cases arrives with
    | here => exact absurd inside past
    | next more => exact absurd more past
  induction fuel generalizing pos sess with
  | zero =>
    have past : ¬ pos < size := by omega
    rw [rxRtcp,if_neg past]
    exact iff_of_true (pureWithin _) (ended pos past)
  | succ fuel ih =>
    rw [rxRtcp]
    split
    · rename_i more
      rw [CompoundFits.step more]
      unfold lengthAt ptAt
      rw [read16Within]
      refine and_congr (by omega) ?_
      dsimp only
      split
      · rename_i outside
        refine iff_of_true (pureWithin _) fun fits => absurd fits ?_
        exact Nat.not_le.mpr outside
      · rename_i inside
        have fits : pos + packetLen pkt pos ≤ size := Nat.not_lt.mp inside
        have header : 4 ≤ packetLen pkt pos := by
          unfold packetLen
          omega
        have rest : ∀ sess, Reads.Within size .outOfFuel (rxRtcp pkt size fuel (pos + packetLen pkt pos) sess) ↔
            CompoundFits pkt size (pos + packetLen pkt pos) := fun sess => ih _ sess (by omega)
        rw [readByteWithin,thenInside rest,dispatchInside sess fits]
        constructor
        · exact fun all _ => all.2
        · exact fun all => ⟨by omega,all fits⟩
    · rename_i past
      exact iff_of_true (pureWithin _) (ended pos past)

/- The walk ends on every memory, wherever it reads. -/

def Ends {α : Type} (x : Rx α) : Prop := ∃ a, x.result = .ok a

theorem pureEnds {α : Type} (a : α) : Ends (return a) := ⟨a,rfl⟩

theorem bindEnds {α β : Type} {x : Rx α} {f : α → Rx β} (first : Ends x) (next : ∀ a, Ends (f a)) :
    Ends (x >>= f) := by
  obtain ⟨a,result⟩ := first
  obtain ⟨b,result'⟩ := next a
  exact ⟨b,by rw [bindOk result,result']⟩

theorem sdesItemsEnds {pEnd : Nat} (fuel p used : Nat) (sess : Session) (enough : pEnd ≤ p + fuel) :
    Ends (sdesItems pkt pEnd fuel p used sess) := by
  cases result : (sdesItems pkt pEnd fuel p used sess).result with
  | error e =>
    cases e
    exact absurd result (sdesItemsInside (Nat.le_refl pEnd) fuel p used sess enough).2
  | ok a => exact ⟨a,result⟩

theorem parseRrEnds (pkt : Memory) (pos : Nat) (sess : Session) : Ends (parseRr pkt pos sess) := by
  unfold parseRr
  refine bindEnds ⟨_,rfl⟩ fun _ => bindEnds ⟨_,rfl⟩ fun _ => bindEnds ⟨_,rfl⟩ fun _ => bindEnds ⟨_,rfl⟩ fun _ =>
    bindEnds ⟨_,rfl⟩ fun lsr => ?_
  dsimp only
  split
  · exact pureEnds _
  · exact bindEnds ⟨_,rfl⟩ fun _ => pureEnds _

theorem parseRtcpReportEnds (pkt : Memory) (pos len : Nat) (sess : Session) :
    Ends (parseRtcpReport pkt pos len sess) := by
  unfold parseRtcpReport
  refine bindEnds ⟨_,rfl⟩ fun pt => bindEnds ⟨_,rfl⟩ fun count => ?_
  split
  · refine bindEnds (bindEnds ⟨_,rfl⟩ fun _ => bindEnds ⟨_,rfl⟩ fun _ => pureEnds _) fun sess => ?_
    split
    · exact parseRrEnds pkt _ sess
    · exact pureEnds sess
  · split
    · exact parseRrEnds pkt _ sess
    · exact pureEnds sess

theorem parseRtcpByeEnds (pkt : Memory) (pos len : Nat) (sess : Session) : Ends (parseRtcpBye pkt pos len sess) := by
  unfold parseRtcpBye
  split
  · exact pureEnds sess
  · exact bindEnds ⟨_,rfl⟩ fun _ => bindEnds ⟨_,rfl⟩ fun _ => pureEnds _

theorem nacksEnd (pkt : Memory) (n p : Nat) : Ends (nacks pkt n p) := by
  induction n generalizing p with
  | zero => exact pureEnds []
  | succ n ih =>
    exact bindEnds ⟨_,rfl⟩ fun _ => bindEnds ⟨_,rfl⟩ fun _ => bindEnds (ih (p + 4)) fun _ => pureEnds _

theorem parseRtcpFbEnds (pkt : Memory) (pos len : Nat) (sess : Session) : Ends (parseRtcpFb pkt pos len sess) := by
  have nack : Ends (parseNack pkt pos len 1) := by
    unfold parseNack
    split
    · exact pureEnds _
    · refine bindEnds ⟨_,rfl⟩ fun pt => bindEnds ⟨_,rfl⟩ fun count => ?_
      split
      · exact pureEnds _
      · refine bindEnds ⟨_,rfl⟩ fun words => ?_
        dsimp only
        split
        · exact pureEnds _
        · exact bindEnds (nacksEnd pkt _ _) fun _ => pureEnds _
  have pli : Ends (parsePli pkt pos len) := by
    unfold parsePli
    split
    · exact pureEnds _
    · exact bindEnds ⟨_,rfl⟩ fun pt => bindEnds ⟨_,rfl⟩ fun count => pureEnds _
  unfold parseRtcpFb
  refine bindEnds nack ?_
  rintro ⟨status,found⟩
  dsimp only
  split
  · exact pureEnds _
  · exact bindEnds pli fun _ => pureEnds _

theorem dispatchEnds (pkt : Memory) (pos len : Nat) (pt : UInt8) (sess : Session) :
    Ends (dispatch pkt pos len pt sess) := by
  unfold dispatch
  split
  · exact parseRtcpReportEnds pkt pos len sess
  · split
    · exact sdesItemsEnds _ _ _ _ (by omega)
    · split
      · exact parseRtcpByeEnds pkt pos len sess
      · split
        · exact parseRtcpFbEnds pkt pos len sess
        · exact pureEnds sess

theorem rxRtcpEnds (fuel pos : Nat) (sess : Session) (enough : size ≤ pos + fuel) :
    Ends (rxRtcp pkt size fuel pos sess) := by
  induction fuel generalizing pos sess with
  | zero =>
    rw [rxRtcp,if_neg (by omega)]
    exact pureEnds sess
  | succ fuel ih =>
    rw [rxRtcp]
    split
    · refine bindEnds ⟨_,rfl⟩ fun length => ?_
      dsimp only
      split
      · exact pureEnds sess
      · refine bindEnds ⟨_,rfl⟩ fun pt => ?_
        exact bindEnds (dispatchEnds pkt pos _ pt sess) fun sess => ih _ sess (by omega)
    · exact pureEnds sess

/- The walk over any string of bytes ends, and it stays inside the string exactly when the compound fits. -/
theorem receptionStaysInside (pkt : Memory) (size : Nat) (sess : Session) :
    (∃ sess', (rxRtcp pkt size size 0 sess).result = .ok sess') ∧
      ((rxRtcp pkt size size 0 sess).reach ≤ size ↔ CompoundFits pkt size 0) := by
  have ends : Ends (rxRtcp pkt size size 0 sess) := rxRtcpEnds size 0 sess (by omega)
  refine ⟨ends,?_⟩
  rw [← rxRtcpInside size 0 sess (by omega)]
  obtain ⟨sess',result⟩ := ends
  exact ⟨fun inside => ⟨inside,by rw [result]; nofun⟩,fun within => within.1⟩

/- A sender report of one word: the timestamps are read behind it. -/
theorem emptySenderReport :
    ¬ (rxRtcp (fun i => [0x80,200,0,0].getD i 0) 4 4 0 {}).reach ≤ 4 := by
  decide

end Pjproject.Rtcp
