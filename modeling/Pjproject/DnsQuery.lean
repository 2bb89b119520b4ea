import Pjproject.DnsPacket

/-! The query that is written is read back, and the buffers it is written beyond. -/
namespace Pjproject.DnsPacket
open Lib.Bytes

variable {labels : List Name} {label : Name} {p : Nat}

structure Proper (label : List UInt8) : Prop where
  nonempty : label ≠ []
  short : label.length ≤ 63
  plain : dot ∉ label

/- The name of the labels, and the bytes it is sent as. -/
def nameOf (labels : List Name) : Name := [dot].intercalate labels

def encoded (labels : List Name) : List UInt8 := labels.flatMap fun label => UInt8.ofNat label.length :: label

/- Nothing is written by an error; else the buffer has room for the query, which is read back. -/
def RoundTrips (size : Nat) (id : UInt16) (qtype : Int) (name : Name) : Prop :=
  match makeQuery size id qtype name with
  | .error _ => True
  | .ok bytes =>
    bytes.length ≤ size ∧
      ∀ mem, Holds mem 0 bytes → ∃ parsed query, (parsePacket ⟨mem,bytes.length⟩).result = .ok parsed ∧
        parsed.hdr.id = id ∧ parsed.q = [query] ∧ query.name = name ∧ query.type.toNat = qtype ∧
        query.dnsclass = classIn

/- The header, a length in front of each label and a zero byte, the type and the class. -/
def written (name : Name) : Nat := if name = [] then 17 else name.length + 18

section Labels

theorem labelLength (proper : Proper label) : (UInt8.ofNat label.length).toNat = label.length := by
  have short := proper.short
  rw [UInt8.toNat_ofNat']
  omega

theorem labelStart (proper : Proper label) :
    UInt8.ofNat label.length ≠ 0 ∧ isPointer (UInt8.ofNat label.length) = false := by
  have length := labelLength proper
  have pos := List.length_pos_iff.mpr proper.nonempty
  have short := proper.short
  generalize UInt8.ofNat label.length = b at length
  constructor
  · intro zero
    rw [zero,UInt8.toNat_zero] at length
    omega
  · have low : (b &&& 0xc0).toNat ≤ b.toNat := by
      rw [UInt8.toNat_and]
      exact Nat.and_le_left
    refine decide_eq_false fun same => ?_
    rw [same] at low
    change 192 ≤ b.toNat at low
    omega

theorem takeLabel (proper : Proper label) (rest : Name) :
    (label ++ dot :: rest).takeWhile (· ≠ dot) = label := by
  have all : ∀ c ∈ label, decide (c ≠ dot) = true := fun c mem =>
    decide_eq_true fun same => proper.plain (same ▸ mem)
  rw [List.takeWhile_append_of_pos all]
  simp

theorem labelBytesStep (proper : Proper label) (rest : Name) :
    labelBytes (label ++ dot :: rest) = UInt8.ofNat label.length :: label ++ labelBytes rest := by
  have taken := takeLabel proper rest
  obtain ⟨c,tail,rfl⟩ := List.exists_cons_of_ne_nil proper.nonempty
  rw [List.cons_append] at taken ⊢
  rw [labelBytes]
  have beyond : tail.drop (tail.length + 1) = [] := List.drop_eq_nil_of_le (Nat.le_succ _)
  simp only [taken]
  simp [List.drop_append,beyond]

theorem labelBytesLast (proper : Proper label) :
    labelBytes label = UInt8.ofNat label.length :: label := by
  have all : ∀ c ∈ label, decide (c ≠ dot) = true := fun c mem =>
    decide_eq_true fun same => proper.plain (same ▸ mem)
  have taken : label.takeWhile (· ≠ dot) = label := List.takeWhile_eq_self_iff.mpr all
  obtain ⟨c,tail,rfl⟩ := List.exists_cons_of_ne_nil proper.nonempty
  rw [labelBytes]
  simp only [taken]
  rw [List.drop_eq_nil_of_le (Nat.le_succ _),labelBytes,List.append_nil]

theorem labelBytesEncoded (proper : ∀ label ∈ labels, Proper label) :
    labelBytes (nameOf labels) = encoded labels := by
  induction labels with
  | nil => simp [nameOf,encoded,labelBytes]
  | cons label rest ih =>
    obtain ⟨here,others⟩ := List.forall_mem_cons.mp proper
    cases rest with
    | nil => simpa [nameOf,encoded] using labelBytesLast here
    | cons =>
      have onward := ih others
      simp only [nameOf,List.intercalate_cons_cons,List.append_assoc,List.singleton_append] at onward ⊢
      rw [labelBytesStep here,onward]
      simp [encoded]

theorem encodedCons (label : Name) (rest : List Name) :
    encoded (label :: rest) = UInt8.ofNat label.length :: (label ++ encoded rest) := rfl

theorem nameOfCons (label next : Name) (rest : List Name) :
    nameOf (label :: next :: rest) = label ++ dot :: nameOf (next :: rest) := by
  simp [nameOf]

theorem encodedLength (label : Name) (rest : List Name) :
    (encoded (label :: rest)).length = (nameOf (label :: rest)).length + 1 := by
  induction rest generalizing label with
  | nil => simp [encoded,nameOf]
  | cons next rest ih =>
    rw [encodedCons,nameOfCons,List.length_cons,List.length_append,ih next,List.length_append,List.length_cons]

end Labels

section Reading

variable {pkt : Packet}

theorem afterLabel (proper : ∀ label ∈ labels, Proper label)
    (holds : Holds pkt.mem p (encoded labels ++ [0])) : pkt.mem p = 0 ↔ labels = [] := by
  cases labels with
  | nil => simp [holds.1]
  | cons label =>
    have start : pkt.mem p = UInt8.ofNat label.length := holds.1
    simp [start,(labelStart (proper label (List.mem_cons_self ..))).1]

theorem holdsLabel {rest : List Name}
    (holds : Holds pkt.mem p (encoded (label :: rest) ++ [0])) :
    pkt.mem p = UInt8.ofNat label.length ∧ slice pkt.mem (p + 1) label.length = label ∧
      Holds pkt.mem (p + (label.length + 1)) (encoded rest ++ [0]) := by
  rw [encodedCons,List.cons_append,List.append_assoc] at holds
  obtain ⟨start,behind⟩ := holds
  obtain ⟨here,onward⟩ := holdsAppend.mp behind
  refine ⟨start,holdsSlice here,?_⟩
  rwa [Nat.add_assoc,Nat.add_comm 1] at onward

theorem nameLenLoopEnds {follow : Nat → Reads Status (Nat × Nat)}
    (proper : ∀ label ∈ labels, Proper label) (holds : Holds pkt.mem p (encoded labels ++ [0]))
    (inside : p + (encoded labels).length < pkt.size) (parsedLen nameLen : Nat) :
    (nameLenLoop pkt follow p parsedLen nameLen).result =
      .ok (parsedLen + (encoded labels).length + 1, nameLen + (nameOf labels).length) := by
  induction labels generalizing p parsedLen nameLen with
  | nil =>
    rw [nameLenLoop,readByteResult,if_pos holds.1]
    rfl
  | cons label rest ih =>
    obtain ⟨here,others⟩ := List.forall_mem_cons.mp proper
    obtain ⟨start,_,onward⟩ := holdsLabel holds
    obtain ⟨nonzero,plain⟩ := labelStart here
    have ends := afterLabel others onward
    have length := labelLength here
    rw [encodedCons,List.length_cons,List.length_append] at inside ⊢
    rw [nameLenLoop,readByteResult,start,if_neg nonzero,plain,length]
    simp only [Bool.false_eq_true,if_false]
    rw [if_neg (by omega),readByteResult,if_neg (by omega),ih others onward (by omega)]
    cases rest with
    | nil =>
      rw [if_neg (not_not_intro (ends.mpr rfl))]
      simp only [encoded,nameOf,List.flatMap_nil,List.length_nil,List.intercalate_nil,List.intercalate_singleton]
      congr 2
    | cons =>
      rw [if_pos (mt ends.mp (List.cons_ne_nil _ _)),nameOfCons,List.length_append,List.length_cons]
      congr 2 <;> omega

theorem nameLoopEnds {follow : Nat → Name → Reads Status Name}
    (proper : ∀ label ∈ labels, Proper label) (holds : Holds pkt.mem p (encoded labels ++ [0]))
    (inside : p + (encoded labels).length < pkt.size) (name : Name) :
    (nameLoop pkt follow p name).result = .ok (name ++ nameOf labels) := by
  induction labels generalizing p name with
  | nil =>
    rw [nameLoop,readByteResult,if_pos holds.1]
    simp [nameOf]
  | cons label rest ih =>
    obtain ⟨here,others⟩ := List.forall_mem_cons.mp proper
    obtain ⟨start,copied,onward⟩ := holdsLabel holds
    obtain ⟨nonzero,plain⟩ := labelStart here
    have ends := afterLabel others onward
    have length := labelLength here
    rw [encodedCons,List.length_cons,List.length_append] at inside
    rw [nameLoop,readByteResult,start,if_neg nonzero,plain,length]
    simp only [Bool.false_eq_true,if_false]
    rw [if_neg (by omega),readSliceResult,copied,readByteResult,if_neg (by omega),ih others onward (by omega)]
    cases rest with
    | nil =>
      rw [if_neg (not_not_intro (ends.mpr rfl))]
      simp [nameOf]
    | cons =>
      rw [if_pos (mt ends.mp (List.cons_ne_nil _ _)),nameOfCons]
      simp

theorem readNameEnds (proper : ∀ label ∈ labels, Proper label)
    (holds : Holds pkt.mem p (encoded labels ++ [0])) (inside : p + (encoded labels).length < pkt.size) :
    (readName pkt p).result = .ok ((encoded labels).length + 1, nameOf labels) := by
  have measured : (getNameLen pkt maxHops p).result = .ok ((encoded labels).length + 1, (nameOf labels).length) := by
    have ends := @nameLenLoopEnds labels p pkt (getNameLen pkt 10) proper holds inside 0 0
    rw [Nat.zero_add,Nat.zero_add] at ends
    exact ends
  have copied : (getName pkt maxHops p []).result = .ok (nameOf labels) :=
    @nameLoopEnds labels p pkt (getName pkt 10) proper holds inside []
  unfold readName
  rw [bindOk measured,bindOk copied]
  rfl

end Reading

section Query

/- The twelve bytes of the header. -/
def headerBytes (id : UInt16) : List UInt8 := be16 id ++ be16 dnsSetRd ++ be16 1 ++ be16 0 ++ be16 0 ++ be16 0

variable {pkt : Packet}

theorem parseHeaderRead {id : UInt16} (holds : Holds pkt.mem 0 (headerBytes id)) :
    (parseHeader pkt).result = .ok ⟨id,dnsSetRd,1,0,0,0⟩ := by
  unfold headerBytes at holds
  simp only [List.append_assoc,holdsAppend,be16Length] at holds
  obtain ⟨idHeld,flags,qdcount,anscount,nscount,arcount⟩ := holds
  unfold parseHeader
  simp only [read16Result]
  rw [holdsBe16 idHeld,holdsBe16 flags,holdsBe16 qdcount,holdsBe16 anscount,holdsBe16 nscount,holdsBe16 arcount]
  rfl

theorem parseQueryRead {type dnsclass : UInt16}
    (proper : ∀ label ∈ labels, Proper label)
    (holds : Holds pkt.mem p (encoded labels ++ [0] ++ be16 type ++ be16 dnsclass))
    (inside : p + (encoded labels).length < pkt.size) :
    (parseQuery pkt p).result = .ok (⟨nameOf labels,type,dnsclass⟩, (encoded labels).length + 5) := by
  obtain ⟨front,classHeld⟩ := holdsAppend.mp holds
  obtain ⟨name,typeHeld⟩ := holdsAppend.mp front
  simp only [List.length_append,List.length_singleton,be16Length] at typeHeld classHeld
  unfold parseQuery
  rw [bindOk (readNameEnds proper name inside)]
  simp only [read16Result]
  rw [holdsBe16 typeHeld]
  have classAt := holdsBe16 classHeld
  simp only [Nat.add_assoc] at classAt ⊢
  rw [classAt]
  rfl

theorem parsePacketQuery {id type : UInt16} (proper : ∀ label ∈ labels, Proper label)
    (holds : Holds pkt.mem 0 (headerBytes id ++ (encoded labels ++ [0] ++ be16 type ++ be16 classIn)))
    (size : pkt.size = (encoded labels).length + 17) : (parsePacket pkt).result =
      .ok ⟨⟨id,dnsSetRd,1,0,0,0⟩,[⟨nameOf labels,type,classIn⟩],[],[],[]⟩ := by
  obtain ⟨header,query⟩ := holdsAppend.mp holds
  have read : (parseQuery pkt 12).result = .ok (⟨nameOf labels,type,classIn⟩, (encoded labels).length + 5) :=
    parseQueryRead proper query (show 0 + 12 + (encoded labels).length < pkt.size by omega)
  unfold parsePacket
  rw [if_neg (by omega),if_neg (by omega),bindOk (parseHeaderRead header)]
  have queries : (parseQueries pkt 1 12).result =
      .ok ([⟨nameOf labels,type,classIn⟩], 12 + ((encoded labels).length + 5)) := by
    unfold parseQueries
    rw [bindOk read]
    rfl
  rw [show UInt16.toNat 1 = 1 from rfl,bindOk queries]
  rfl

end Query

section Room

variable {id : UInt16} {qtype : Int} {size : Nat}

theorem writtenLength (proper : ∀ label ∈ labels, Proper label) :
    written (nameOf labels) = (encoded labels).length + 17 := by
  cases labels with
  | nil => rfl
  | cons label rest =>
    have length := encodedLength label rest
    have nonempty : nameOf (label :: rest) ≠ [] := by
      have here := (proper label (List.mem_cons_self ..)).nonempty
      cases rest with
      | nil => simpa [nameOf] using here
      | cons => simp [nameOfCons]
    rw [written,if_neg nonempty,length]

theorem makeQueryWritten (proper : ∀ label ∈ labels, Proper label) (asks : qtype ≠ 0)
    (room : 12 + (nameOf labels).length + 4 ≤ size) : makeQuery size id qtype (nameOf labels) =
      .ok (headerBytes id ++ (encoded labels ++ [0] ++ be16 (UInt16.ofInt qtype) ++ be16 classIn)) := by
  unfold makeQuery
  rw [if_neg asks,if_neg (by omega),labelBytesEncoded proper]
  simp only [headerBytes,List.append_assoc]

theorem typeRead : ((UInt16.ofInt qtype).toNat : Int) = qtype ↔ 0 ≤ qtype ∧ qtype < 65536 := by
  have value : ((UInt16.ofInt qtype).toNat : Int) = qtype % 65536 := by
    unfold UInt16.ofInt
    rw [UInt16.toNat_ofNat']
    omega
  omega

/- The query round-trips exactly when it is refused, or has room for all of its bytes and a type of two bytes. -/
theorem queryRoundTrips (proper : ∀ label ∈ labels, Proper label) :
    RoundTrips size id qtype (nameOf labels) ↔
      (qtype = 0 ∨ size < (nameOf labels).length + 16) ∨
        (written (nameOf labels) ≤ size ∧ 0 < qtype ∧ qtype < 65536) := by
  by_cases refused : qtype = 0 ∨ size < (nameOf labels).length + 16
  · have error : ∃ e, makeQuery size id qtype (nameOf labels) = .error e := by
      unfold makeQuery
      split
      · exact ⟨_,rfl⟩
      · rw [if_pos (by omega)]
        exact ⟨_,rfl⟩
    obtain ⟨e,same⟩ := error
    simp [RoundTrips,same,refused]
  · obtain ⟨asks,room⟩ := not_or.mp refused
    have length : (headerBytes id ++ (encoded labels ++ [0] ++ be16 (UInt16.ofInt qtype) ++ be16 classIn)).length =
        written (nameOf labels) := by
      rw [writtenLength proper]
      simp [headerBytes,be16Length]
      omega
    have read : ∀ mem, Holds mem 0
        (headerBytes id ++ (encoded labels ++ [0] ++ be16 (UInt16.ofInt qtype) ++ be16 classIn)) →
        (parsePacket ⟨mem,written (nameOf labels)⟩).result =
          .ok ⟨⟨id,dnsSetRd,1,0,0,0⟩,[⟨nameOf labels,UInt16.ofInt qtype,classIn⟩],[],[],[]⟩ :=
      fun mem holds => parsePacketQuery proper holds (writtenLength proper)
    unfold RoundTrips
    rw [makeQueryWritten proper asks (by omega)]
    dsimp only
    rw [length]
    constructor
    · rintro ⟨fits,reads⟩
      obtain ⟨parsed,query,ok,_,one,_,type,_⟩ := reads _ (holdsWrite (fun _ => 0) 0 _)
      rw [read _ (holdsWrite (fun _ => 0) 0 _)] at ok
      rw [← Except.ok.inj ok] at one
      obtain rfl := List.singleton_inj.mp one
      have range := typeRead.mp type
      exact .inr ⟨fits,by omega⟩
    · intro holds
      obtain ⟨fits,low,high⟩ := holds.resolve_left refused
      exact ⟨fits,fun mem held => ⟨_,_,read mem held,rfl,rfl,rfl,typeRead.mpr ⟨by omega,high⟩,rfl⟩⟩

/- A query for a.b in a packet of 512 bytes. -/
theorem shortQueryRoundTrips : RoundTrips 512 7 33 (nameOf [[97],[98]]) := by
  have proper : ∀ label ∈ [[97],[98]], Proper label := by
    intro label mem
    rcases List.mem_pair.mp mem with rfl | rfl <;> exact ⟨by decide,by decide,by decide⟩
  exact (queryRoundTrips proper).mpr (.inr (by decide))

def queryForA : List UInt8 := [0,7,1,0,0,1,0,0,0,0,0,0,1,97,0,0,1,0,1]

/- The query for a name of one letter has nineteen bytes, and seventeen are enough for the check. -/
theorem queryWrittenBeyond : makeQuery 17 7 1 (nameOf [[97]]) = .ok queryForA ∧ ¬queryForA.length ≤ 17 ∧
    ¬RoundTrips 17 7 1 (nameOf [[97]]) := by
  have bytes : makeQuery 17 7 1 (nameOf [[97]]) = .ok queryForA := by decide +kernel
  refine ⟨bytes,by decide,fun holds => ?_⟩
  unfold RoundTrips at holds
  rw [bytes] at holds
  exact absurd holds.1 (by decide)

end Room

end Pjproject.DnsPacket
