import Pjproject.DnsPacket

/-! Where the records of an accepted packet are read from, and where they are declared to be. -/
namespace Pjproject.DnsPacket
open Lib.Bytes

/- The bytes of an encoded name: labels up to a zero byte or a pointer. -/
def nameSize (pkt : Packet) (p : Nat) : Nat :=
  if pkt.mem p = 0 then 1
  else if isPointer (pkt.mem p) then 2
  else if p + ((pkt.mem p).toNat + 1) ≥ pkt.size then (pkt.mem p).toNat + 1
  else (pkt.mem p).toNat + 1 + nameSize pkt (p + ((pkt.mem p).toNat + 1))
termination_by pkt.size - p

/- The record that begins at `p`. -/
def typeAt (pkt : Packet) (p : Nat) : UInt16 :=
  word16 (pkt.mem (p + nameSize pkt p)) (pkt.mem (p + nameSize pkt p + 1))

def rdlengthAt (pkt : Packet) (p : Nat) : Nat :=
  (word16 (pkt.mem (p + nameSize pkt p + 8)) (pkt.mem (p + nameSize pkt p + 9))).toNat

def dataAt (pkt : Packet) (p : Nat) : Nat := p + nameSize pkt p + 10

/- Where the declared data of the record ends. -/
def declaredEnd (pkt : Packet) (p : Nat) : Nat := dataAt pkt p + rdlengthAt pkt p

/- The size that the data of a known type has by itself. -/
def ownSize (pkt : Packet) (type : UInt16) (p : Nat) : Option Nat :=
  if type = typeA then some 4
  else if type = typeAaaa then some 16
  else if type = typeCname ∨ type = typeNs ∨ type = typePtr then some (nameSize pkt p)
  else if type = typeSrv then some (6 + nameSize pkt (p + 6))
  else none

/- A record of a known type declares the size of its own data. -/
def DeclaresOwn (pkt : Packet) (p : Nat) : Prop := ∀ n ∈ ownSize pkt (typeAt pkt p) (dataAt pkt p), rdlengthAt pkt p = n

/- The records by their declared lengths, one behind the other. -/
def AllDeclareOwn (pkt : Packet) : Nat → Nat → Prop
  | 0, _ => True
  | count + 1, p => DeclaresOwn pkt p ∧ AllDeclareOwn pkt count (declaredEnd pkt p)

/- Each record begins where the one before it is declared to end, and is read up to its own declared end. -/
def InSync (pkt : Packet) : Nat → List Record → Prop
  | _, [] => True
  | p, r :: rest =>
    r.start = p ∧ r.start + r.parsedLen = declaredEnd pkt p ∧ r.rr.rdlength.toNat = rdlengthAt pkt p ∧
      InSync pkt (declaredEnd pkt p) rest

def afterQueries (pkt : Packet) : Nat → Nat → Nat
  | 0, p => p
  | count + 1, p => afterQueries pkt count (p + nameSize pkt p + 4)

def firstRecord (pkt : Packet) : Nat := afterQueries pkt (word16 (pkt.mem 4) (pkt.mem 5)).toNat 12

def Parsed.records (parsed : Parsed) : List Record := parsed.ans ++ parsed.ns ++ parsed.arr

section Lengths

variable {ε α β : Type}

theorem bindResult {x : Reads ε α} {f : α → Reads ε β} {b : β} (ok : (x >>= f).result = .ok b) :
    ∃ a, x.result = .ok a ∧ (f a).result = .ok b := by
  cases found : x.result with
  | error =>
    rw [bindError found] at ok
    simp at ok
  | ok a =>
    rw [bindOk found] at ok
    exact ⟨a,rfl,ok⟩

variable {pkt : Packet}

theorem nameLenLoopSize {follow : Nat → Reads Status (Nat × Nat)} {p parsedLen nameLen : Nat} {out : Nat × Nat}
    (ok : (nameLenLoop pkt follow p parsedLen nameLen).result = .ok out) : out.1 = parsedLen + nameSize pkt p := by
  induction p, parsedLen, nameLen using nameLenLoop.induct pkt with
  | case1 p parsedLen nameLen ih =>
    rw [nameLenLoop,readByteResult] at ok
    rw [nameSize]
    split at ok
    · next zero =>
      rw [if_pos zero,← Except.ok.inj ok]
    · next nonzero =>
      rw [if_neg nonzero]
      split at ok
      · next pointer =>
        rw [if_pos pointer]
        rw [read16Result] at ok
        dsimp only at ok
        split at ok
        · simp at ok
        · obtain ⟨inner,_,done⟩ := bindResult ok
          rw [← Except.ok.inj done]
      · next label =>
        rw [if_neg label]
        split at ok
        · simp at ok
        · dsimp only at ok
          rw [readByteResult] at ok
          split at ok
          · simp at ok
          · next inside =>
            rw [if_neg inside,ih _ _ inside ok]
            omega

theorem readNameSize {p : Nat} {out : Nat × Name} (ok : (readName pkt p).result = .ok out) :
    out.1 = nameSize pkt p := by
  obtain ⟨len,found,ok⟩ := bindResult ok
  obtain ⟨name,_,ok⟩ := bindResult ok
  rw [← Except.ok.inj ok]
  exact (nameLenLoopSize (show (nameLenLoop pkt (getNameLen pkt 10) p 0 0).result = .ok len from found)).trans
    (Nat.zero_add _)

theorem parseQuerySize {p : Nat} {out : Query × Nat} (ok : (parseQuery pkt p).result = .ok out) :
    out.2 = nameSize pkt p + 4 := by
  obtain ⟨read,found,ok⟩ := bindResult ok
  obtain ⟨type,_,ok⟩ := bindResult ok
  obtain ⟨dnsclass,_,ok⟩ := bindResult ok
  rw [← Except.ok.inj ok,← readNameSize found]

theorem parseRdataSize {type rdlength : UInt16} {p : Nat} {out : Rdata × Nat}
    (ok : (parseRdata pkt type rdlength p).result = .ok out) :
    out.2 = (ownSize pkt type p).getD rdlength.toNat := by
  unfold parseRdata at ok
  unfold ownSize
  split at ok
  · next isA =>
    rw [if_pos isA,← Except.ok.inj ok]
    rfl
  · next notA =>
    rw [if_neg notA]
    split at ok
    · next isAaaa =>
      rw [if_pos isAaaa,← Except.ok.inj ok]
      rfl
    · next notAaaa =>
      rw [if_neg notAaaa]
      split at ok
      · next named =>
        obtain ⟨read,found,ok⟩ := bindResult ok
        rw [if_pos named,← Except.ok.inj ok]
        exact readNameSize found
      · next unnamed =>
        rw [if_neg unnamed]
        split at ok
        · next isSrv =>
          obtain ⟨prio,_,ok⟩ := bindResult ok
          obtain ⟨weight,_,ok⟩ := bindResult ok
          obtain ⟨port,_,ok⟩ := bindResult ok
          obtain ⟨read,found,ok⟩ := bindResult ok
          rw [if_pos isSrv,← Except.ok.inj ok,readNameSize found]
          rfl
        · next other =>
          rw [if_neg other,← Except.ok.inj ok]
          rfl

theorem parseRrSize {p : Nat} {out : Rr × Nat} (ok : (parseRr pkt p).result = .ok out) :
    out.1.rdlength.toNat = rdlengthAt pkt p ∧
      p + out.2 = dataAt pkt p + (ownSize pkt (typeAt pkt p) (dataAt pkt p)).getD (rdlengthAt pkt p) := by
  obtain ⟨⟨len,name⟩,found,ok⟩ := bindResult ok
  obtain rfl : len = nameSize pkt p := readNameSize found
  dsimp only at ok
  split at ok
  · simp at ok
  · rw [read16Result,read16Result] at ok
    split at ok
    · simp at ok
    · rw [read32Result,read16Result] at ok
      split at ok
      · simp at ok
      · obtain ⟨⟨rdata,len⟩,read,ok⟩ := bindResult ok
        have length : len = (ownSize pkt (typeAt pkt p) (dataAt pkt p)).getD (rdlengthAt pkt p) := parseRdataSize read
        rw [← Except.ok.inj ok,← length]
        refine ⟨rfl,?_⟩
        simp only [dataAt,Nat.add_assoc]

theorem parseQueriesAfter {count p : Nat} {out : List Query × Nat}
    (ok : (parseQueries pkt count p).result = .ok out) : out.2 = afterQueries pkt count p := by
  induction count generalizing p out with
  | zero =>
    rw [← Except.ok.inj ok]
    rfl
  | succ count ih =>
    obtain ⟨one,found,ok⟩ := bindResult ok
    obtain ⟨rest,others,ok⟩ := bindResult ok
    have after := ih others
    rw [parseQuerySize found,← Nat.add_assoc] at after
    rw [← Except.ok.inj ok]
    exact after

/- The records as they were read, one behind the other. -/
def ReadFrom (pkt : Packet) : Nat → List Record → Prop
  | _, [] => True
  | p, r :: rest => r.start = p ∧ (parseRr pkt p).result = .ok (r.rr, r.parsedLen) ∧ ReadFrom pkt (p + r.parsedLen) rest

def endOf (p : Nat) (records : List Record) : Nat := p + (records.map Record.parsedLen).sum

theorem parseRrsRead {count p : Nat} {out : List Record × Nat} (ok : (parseRrs pkt count p).result = .ok out) :
    ReadFrom pkt p out.1 ∧ out.2 = endOf p out.1 ∧ out.1.length = count := by
  induction count generalizing p out with
  | zero =>
    rw [← Except.ok.inj ok]
    exact ⟨trivial,rfl,rfl⟩
  | succ count ih =>
    obtain ⟨one,found,ok⟩ := bindResult ok
    obtain ⟨rest,others,ok⟩ := bindResult ok
    obtain ⟨reads,ends,length⟩ := ih others
    rw [← Except.ok.inj ok]
    refine ⟨⟨rfl,found,reads⟩,?_,congrArg Nat.succ length⟩
    simp only [ends,endOf,List.map_cons,List.sum_cons,Nat.add_assoc]

theorem readFromAppend {p : Nat} {front back : List Record} (first : ReadFrom pkt p front)
    (second : ReadFrom pkt (endOf p front) back) : ReadFrom pkt p (front ++ back) := by
  induction front generalizing p with
  | nil => simpa [endOf] using second
  | cons r front ih =>
    obtain ⟨start,read,rest⟩ := first
    refine ⟨start,read,ih rest ?_⟩
    simpa only [endOf,List.map_cons,List.sum_cons,Nat.add_assoc] using second

theorem endOfAppend (p : Nat) (front back : List Record) : endOf (endOf p front) back = endOf p (front ++ back) := by
  simp [endOf,Nat.add_assoc]

theorem parsePacketRead {parsed : Parsed} (ok : (parsePacket pkt).result = .ok parsed) :
    ReadFrom pkt (firstRecord pkt) parsed.records ∧
      parsed.records.length = parsed.hdr.anscount.toNat + parsed.hdr.nscount.toNat + parsed.hdr.arcount.toNat := by
  unfold parsePacket at ok
  split at ok
  · simp at ok
  · split at ok
    · simp at ok
    · obtain ⟨hdr,header,ok⟩ := bindResult ok
      obtain ⟨q,queries,ok⟩ := bindResult ok
      obtain ⟨ans,answers,ok⟩ := bindResult ok
      obtain ⟨ns,authorities,ok⟩ := bindResult ok
      obtain ⟨arr,additional,ok⟩ := bindResult ok
      have count : hdr.qdcount = word16 (pkt.mem 4) (pkt.mem 5) := (Header.mk.inj (Except.ok.inj header)).2.2.1.symm
      have first : q.2 = firstRecord pkt := by
        rw [parseQueriesAfter queries,count]
        rfl
      obtain ⟨ansRead,ansEnd,ansCount⟩ := parseRrsRead answers
      obtain ⟨nsRead,nsEnd,nsCount⟩ := parseRrsRead authorities
      obtain ⟨arrRead,_,arrCount⟩ := parseRrsRead additional
      rw [first] at ansRead ansEnd
      rw [ansEnd] at nsRead nsEnd
      rw [nsEnd,endOfAppend] at arrRead
      rw [← Except.ok.inj ok]
      refine ⟨readFromAppend (readFromAppend ansRead nsRead) arrRead,?_⟩
      simp [Parsed.records,ansCount,nsCount,arrCount,Nat.add_assoc]

theorem endsDeclared {p : Nat} {rr : Rr} {len : Nat} (ok : (parseRr pkt p).result = .ok (rr, len)) :
    p + len = declaredEnd pkt p ↔ DeclaresOwn pkt p := by
  have ends := (parseRrSize ok).2
  dsimp only at ends
  rw [ends]
  unfold declaredEnd DeclaresOwn
  cases ownSize pkt (typeAt pkt p) (dataAt pkt p) with
  | none => simp
  | some =>
    simp only [Option.getD_some,Option.mem_some_iff,forall_eq',Nat.add_left_cancel_iff]
    exact eq_comm

theorem inSyncIff {p : Nat} {records : List Record} (read : ReadFrom pkt p records) :
    InSync pkt p records ↔ AllDeclareOwn pkt records.length p := by
  induction records generalizing p with
  | nil => exact Iff.rfl
  | cons r rest ih =>
    obtain ⟨start,one,others⟩ := read
    have ends := endsDeclared one
    have length := (parseRrSize one).1
    constructor
    · intro ⟨_,reaches,_,onward⟩
      rw [start] at reaches
      rw [reaches] at others
      exact ⟨ends.mp reaches,(ih others).mp onward⟩
    · intro ⟨own,onward⟩
      have reaches := ends.mpr own
      rw [reaches] at others
      exact ⟨start,start ▸ reaches,length,(ih others).mpr onward⟩

/- An accepted packet is read in sync exactly when its records of known types declare their own sizes. -/
theorem recordsInSync {parsed : Parsed} (ok : (parsePacket pkt).result = .ok parsed) :
    InSync pkt (firstRecord pkt) parsed.records ↔
      AllDeclareOwn pkt (parsed.hdr.anscount.toNat + parsed.hdr.nscount.toNat + parsed.hdr.arcount.toNat)
        (firstRecord pkt) := by
  obtain ⟨read,count⟩ := parsePacketRead ok
  rw [← count]
  exact inSyncIff read

end Lengths

section Packets

def Packet.ofBytes (bytes : List UInt8) : Packet := ⟨fun i => bytes.getD i 0,bytes.length⟩

def header : List UInt8 := [0,1,0x81,0x80,0,0,0,2,0,0,0,0]

/- An address and a text. -/
def answers : Packet :=
  .ofBytes (header ++ [0,0,1,0,1,0,0,1,0,0,4,10,0,0,1] ++ [0,0,16,0,1,0,0,1,0,0,2,1,97])

def answersParsed : Parsed where
  hdr := ⟨1,0x8180,0,2,0,0⟩
  q := []
  ans :=
    [⟨12,⟨[],typeA,classIn,256,4,.a [10,0,0,1]⟩,15⟩,⟨27,⟨[],16,classIn,256,2,.raw [1,97]⟩,13⟩]
  ns := []
  arr := []

theorem answersInSync :
    (parsePacket answers).result = .ok answersParsed ∧ InSync answers (firstRecord answers) answersParsed.records := by
  have ok : (parsePacket answers).result = .ok answersParsed := by decide +kernel
  have first : DeclaresOwn answers 12 := by
    have size : ownSize answers (typeAt answers 12) (dataAt answers 12) = some 4 := by decide +kernel
    have declared : rdlengthAt answers 12 = 4 := by decide +kernel
    simp [DeclaresOwn,size,declared]
  have second : DeclaresOwn answers 27 := by
    have size : ownSize answers (typeAt answers 27) (dataAt answers 27) = none := by decide +kernel
    simp [DeclaresOwn,size]
  have place : firstRecord answers = 12 := by decide +kernel
  have next : declaredEnd answers 12 = 27 := by decide +kernel
  have own : AllDeclareOwn answers 2 (firstRecord answers) := by
    rw [place]
    exact ⟨first,next ▸ second,trivial⟩
  exact ⟨ok,(recordsInSync ok).mpr own⟩

/- An address that declares five bytes, and another one. -/
def shifted : Packet :=
  .ofBytes (header ++ [0,0,1,0,1,0,0,1,0,0,5,10,0,0,1,0] ++
    [0,0,1,0,1,0,0,1,0,0,4,10,0,0,2])

def shiftedParsed : Parsed where
  hdr := ⟨1,0x8180,0,2,0,0⟩
  q := []
  ans := [⟨12,⟨[],typeA,classIn,256,5,.a [10,0,0,1]⟩,15⟩,⟨27,⟨[],0,256,16777217,0,.raw []⟩,11⟩]
  ns := []
  arr := []

/- The second one is read one byte before the place where it begins. -/
theorem shiftedOutOfSync :
    (parsePacket shifted).result = .ok shiftedParsed ∧
      ¬InSync shifted (firstRecord shifted) shiftedParsed.records := by
  have place : firstRecord shifted = 12 := by decide +kernel
  have next : declaredEnd shifted 12 = 28 := by decide +kernel
  refine ⟨by decide +kernel,fun sync => ?_⟩
  rw [place] at sync
  have reaches : 12 + 15 = declaredEnd shifted 12 := sync.2.1
  rw [next] at reaches
  omega

end Packets

end Pjproject.DnsPacket
