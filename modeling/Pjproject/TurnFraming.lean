import Pjproject.StunLocal

/-! TURN over TCP: how on_data_read of turn_sock.c takes STUN and ChannelData messages out of the stream. What a message
does to the session, once pj_turn_session_on_rx_pkt2 has taken it apart, is a parameter. -/
namespace Pjproject.Turn
open Lib.Bytes
open Stun (Env Status Msg DecodeOptions packet stunMsgDecode stunMsgCheck decodeBody headerAt)

/- The session behind the socket: whether its STUN session is being destroyed, what becomes of a packet that is not
decoded, what the STUN session does with a message and whether it returns PJ_SUCCESS, the channels that are bound, and
what arrives on them. The socket lets go of a session that is being destroyed (turn_on_state), and may be destroyed
itself. -/
structure Receiver (σ : Type) where
  env : Env
  gone : σ → Bool
  isDestroying : σ → Bool
  destroying : σ → Bool
  refuse : σ → List UInt8 → Status → σ
  stun : σ → List UInt8 → Msg → σ × Bool
  bound : σ → Nat → Bool
  onRxData : σ → Nat → List UInt8 → σ

def Receiver.serves {σ : Type} (rx : Receiver σ) (sess : σ) : Bool := !rx.gone sess && !rx.isDestroying sess

def getval16h (buf : List UInt8) (pos : Nat) : Nat := (buf.getD pos 0).toNat * 256 + (buf.getD (pos + 1) 0).toNat

def firstBits (buf : List UInt8) : UInt8 := buf.getD 0 0 &&& 0xC0

/- has_packet of a stream. With fewer than four bytes it also looks at what an older packet left in the buffer, which
never makes a packet of them. -/
def hasPacket (buf : List UInt8) : Nat :=
  if firstBits buf = 0 ∧ getval16h buf 2 % 4 = 0 then
    if getval16h buf 2 + 20 ≤ buf.length then getval16h buf 2 + 20 else 0
  else if buf.length < 4 then 0
  else if getval16h buf 2 + 4 ≤ buf.length then pad4 (getval16h buf 2 + 4) else 0

/- PJ_STUN_CHECK_PACKET | PJ_STUN_NO_FINGERPRINT_CHECK -/
def streamOptions : DecodeOptions := ⟨false,true,true⟩

/- pj_turn_session_on_rx_pkt: the session and, after PJ_SUCCESS only, the parsed length. -/
def onRxPkt {σ : Type} (rx : Receiver σ) (sess : σ) (pkt : List UInt8) : σ × Option Nat :=
  if firstBits pkt = 0 then
    if rx.destroying sess then (sess, none)
    else match (stunMsgDecode rx.env (packet pkt) pkt.length streamOptions).result with
      | .error status => (rx.refuse sess pkt status, none)
      | .ok (msg, parsed) =>
        ((rx.stun sess (pkt.take parsed) msg).1, if (rx.stun sess (pkt.take parsed) msg).2 then some parsed else none)
  else if pkt.length < 4 then (sess, none)
  else if pkt.length < getval16h pkt 2 + 4 then (sess, none)
  else if ¬ rx.bound sess (getval16h pkt 0) then (sess, none)
  else (rx.onRxData sess (getval16h pkt 0) ((pkt.drop 4).take (getval16h pkt 2)), some (pad4 (getval16h pkt 2) + 4))

/- The socket: its session, the bytes that a read left in the buffer, the packets that were handed on, and whether one
was handed to a session that is NULL. -/
@[ext] structure TurnSock (σ : Type) where
  sess : σ
  buffer : List UInt8
  handed : List (List UInt8)
  crashed : Bool := false

section Socket
variable {σ : Type} (rx : Receiver σ)

/- The parsed length stays the size of the buffer when the packet is refused. -/
def consumed (data : List UInt8) (parsed : Option Nat) : Nat :=
  if parsed.getD data.length = 0 then hasPacket data else parsed.getD data.length

def TurnSock.takePacket (sock : TurnSock σ) (data : List UInt8) : TurnSock σ :=
  { sock with sess := (onRxPkt rx sock.sess data).1, handed := sock.handed ++ [data.take (hasPacket data)] }

def afterPacket (sess : σ) (data : List UInt8) : List UInt8 := data.drop (consumed data (onRxPkt rx sess data).2)

/- The loop of on_data_read. Every packet uses up bytes, so that the size of the buffer is fuel enough. The session is
not looked at again between two packets. -/
def TurnSock.readLoop : Nat → TurnSock σ → List UInt8 → List UInt8 → TurnSock σ
  | 0, sock, _, remainder => { sock with buffer := remainder }
  | fuel + 1, sock, data, remainder =>
    if hasPacket data = 0 then { sock with buffer := remainder }
    else if rx.gone sock.sess = true then { sock with buffer := [], crashed := true }
    else TurnSock.readLoop fuel (sock.takePacket rx data) (afterPacket rx sock.sess data) (afterPacket rx sock.sess data)

/- A read of the active socket: the bytes are appended to what is in the buffer, and the remainder is zero unless
on_data_read sets it. -/
def TurnSock.onDataRead (sock : TurnSock σ) (bytes : List UInt8) : TurnSock σ :=
  if sock.crashed = true then sock
  else if rx.serves sock.sess = true then
    TurnSock.readLoop rx (sock.buffer ++ bytes).length sock (sock.buffer ++ bytes) []
  else { sock with buffer := [] }

def TurnSock.receive (sock : TurnSock σ) (reads : List (List UInt8)) : TurnSock σ :=
  reads.foldl (TurnSock.onDataRead rx) sock

end Socket

/- The messages of a stream. A STUN message has the length that its header announces, and the decoder does not look
behind it; a ChannelData message is padded. -/
inductive WellFormed : List UInt8 → Prop where
  | stun {m : List UInt8} (bits : firstBits m = 0) (aligned : getval16h m 2 % 4 = 0)
      (whole : m.length = getval16h m 2 + 20) (inside : (decodeBody (packet m)).reach ≤ m.length) : WellFormed m
  | channelData {m : List UInt8} (bits : firstBits m = 0x40) (whole : m.length = pad4 (getval16h m 2 + 4)) : WellFormed m

/- The length that the first four bytes of a packet announce. -/
def frame (buf : List UInt8) : Nat :=
  if firstBits buf = 0 ∧ getval16h buf 2 % 4 = 0 then getval16h buf 2 + 20 else pad4 (getval16h buf 2 + 4)

theorem padAbove (n : Nat) : 4 ≤ pad4 (n + 4) := (Nat.le_add_left 4 n).trans (pad4Le _).1

theorem hasPacketFrame {buf : List UInt8} (has : hasPacket buf ≠ 0) : 4 ≤ buf.length ∧ hasPacket buf = frame buf := by
  unfold hasPacket frame at *
  split at has
  · rename_i isStun
    rw [if_pos isStun,if_pos isStun]
    split at has
    · rename_i fits
      rw [if_pos fits]
      exact ⟨by omega,rfl⟩
    · contradiction
  · rename_i isStun
    rw [if_neg isStun,if_neg isStun]
    split at has
    · contradiction
    · rename_i long
      rw [if_neg long]
      split at has
      · rename_i fits
        rw [if_pos fits]
        exact ⟨by omega,rfl⟩
      · contradiction

variable {m left : List UInt8}

theorem WellFormed.frame (wellFormed : WellFormed m) : 4 ≤ m.length ∧ Turn.frame m = m.length := by
  cases wellFormed with
  | stun bits aligned whole =>
    refine ⟨by omega,?_⟩
    unfold Turn.frame
    rw [if_pos ⟨bits,aligned⟩,whole]
  | channelData bits whole =>
    have above := padAbove (getval16h m 2)
    refine ⟨by omega,?_⟩
    unfold Turn.frame
    rw [if_neg (by simp [bits]),whole]

variable (right : List UInt8)

theorem getvalAppend {pos : Nat} (inside : pos + 1 < left.length) :
    getval16h (left ++ right) pos = getval16h left pos := by
  unfold getval16h
  rw [List.getD_append _ _ _ _ (by omega),List.getD_append _ _ _ _ inside]

theorem firstBitsAppend (inside : 0 < left.length) : firstBits (left ++ right) = firstBits left := by
  unfold firstBits
  rw [List.getD_append _ _ _ _ inside]

theorem frameAppend (long : 4 ≤ left.length) : frame (left ++ right) = frame left := by
  unfold frame
  rw [firstBitsAppend right (by omega),getvalAppend right (by omega)]

theorem hasPacketWhole (wellFormed : WellFormed m) (rest : List UInt8) : hasPacket (m ++ rest) = m.length := by
  obtain ⟨long,isFrame⟩ := wellFormed.frame
  rw [← isFrame]
  unfold hasPacket frame
  rw [firstBitsAppend rest (by omega),getvalAppend rest (by omega),List.length_append]
  cases wellFormed with
  | stun bits aligned =>
    have isStun : firstBits m = 0 ∧ getval16h m 2 % 4 = 0 := ⟨bits,aligned⟩
    rw [if_pos isStun,if_pos isStun,if_pos (by omega)]
  | channelData bits =>
    have above := (pad4Le (getval16h m 2 + 4)).1
    have other : ¬ (firstBits m = 0 ∧ getval16h m 2 % 4 = 0) := by simp [bits]
    rw [if_neg other,if_neg other,if_neg (by omega),if_pos (by omega)]

theorem hasPacketHead (wellFormed : WellFormed m) {data unread rest : List UInt8}
    (stream : data ++ unread = m ++ rest) (has : hasPacket data ≠ 0) : hasPacket data = m.length := by
  obtain ⟨long,isFrame⟩ := wellFormed.frame
  obtain ⟨enough,found⟩ := hasPacketFrame has
  rw [found,← frameAppend unread enough,stream,frameAppend rest long,isFrame]

theorem headerLength (pkt : List UInt8) : (headerAt (packet pkt)).length.toNat = getval16h pkt 2 := by
  have first := (pkt.getD 2 0).toNat_lt
  have second := (pkt.getD (2 + 1) 0).toNat_lt
  change (word16 (pkt.getD 2 0) (pkt.getD (2 + 1) 0)).toNat = _
  unfold word16 getval16h
  rw [UInt16.toNat_ofNat']
  omega

theorem decodeParsed {env : Env} {pkt : List UInt8} {msg : Msg} {parsed : Nat}
    (decoded : (stunMsgDecode env (packet pkt) pkt.length streamOptions).result = .ok (msg, parsed)) :
    (stunMsgCheck env (packet pkt) pkt.length streamOptions).result = .ok () ∧
      getval16h pkt 2 % 4 = 0 ∧ parsed = getval16h pkt 2 + 20 := by
  have accepted : (stunMsgCheck env (packet pkt) pkt.length streamOptions).result = .ok () := by
    unfold stunMsgDecode at decoded
    split at decoded
    · simp at decoded
    · cases found : (stunMsgCheck env (packet pkt) pkt.length streamOptions).result with
      | ok => rfl
      | error =>
        rw [if_pos (show streamOptions.checkPacket = true from rfl),bindError found] at decoded
        simp at decoded
  obtain ⟨fits,aligned⟩ := Stun.checkAccepted accepted
  rw [(Stun.decodeAccepted accepted).1] at decoded
  rw [headerLength] at fits aligned
  refine ⟨accepted,aligned,?_⟩
  unfold decodeBody at decoded
  simp only [readSliceBind] at decoded
  cases found : (Stun.walkAttrs (headerAt (packet pkt)) (packet pkt) (headerAt (packet pkt)).length.toNat
      (Stun.firstWalk (headerAt (packet pkt)))).result with
  | error status =>
    rw [bindError found] at decoded
    simp at decoded
  | ok w =>
    rw [bindOk found] at decoded
    dsimp only at decoded
    split at decoded
    · simp at decoded
    · rename_i done
      have inFours : (headerAt (packet pkt)).length.toNat % 4 = 0 := by
        rw [headerLength]
        exact aligned
      have track := (Stun.walkAttrsVisits _ found).track (Stun.firstWalkOnTrack inFours)
      have sum := track.sum
      rw [headerLength] at sum
      simp only [pureResult,Except.ok.injEq,Prod.mk.injEq] at decoded
      omega

theorem checkStream (env : Env) (pdu : Memory) (n : Nat) :
    (stunMsgCheck env pdu n streamOptions).result = .ok () ↔ 20 ≤ n ∧ (pdu 0 = 0 ∨ pdu 0 = 1) ∧
      (headerAt pdu).length.toNat + 20 ≤ n ∧ (headerAt pdu).length.toNat % 4 = 0 := by
  have length : (headerAt pdu).length = word16 (pdu 2) (pdu (2 + 1)) := rfl
  have plain : ∀ magic : UInt32, ¬ (magic = Stun.stunMagic ∧ streamOptions.noFingerprintCheck = false) := by
    simp [streamOptions]
  rw [length]
  unfold stunMsgCheck
  by_cases short : n < Stun.stunMsgHdrLen
  · rw [if_pos short]
    unfold Stun.stunMsgHdrLen at short
    simp only [failResult,reduceCtorEq,false_iff]
    omega
  rw [if_neg short,readByteResult]
  unfold Stun.stunMsgHdrLen at short
  by_cases kind : pdu 0 ≠ 0 ∧ pdu 0 ≠ 1
  · rw [if_pos kind]
    simp [kind]
  rw [if_neg kind,read16Result]
  have kinds : pdu 0 = 0 ∨ pdu 0 = 1 := by
    by_contra other
    exact kind (not_or.mp other)
  by_cases long : (word16 (pdu 2) (pdu (2 + 1))).toNat + 20 > n ∨
      (streamOptions.isDatagram = true ∧ (word16 (pdu 2) (pdu (2 + 1))).toNat + 20 ≠ n)
  · rw [if_pos long]
    have beyond : (word16 (pdu 2) (pdu (2 + 1))).toNat + 20 > n := by simpa [streamOptions] using long
    simp only [failResult,reduceCtorEq,false_iff]
    omega
  rw [if_neg long]
  have fits : (word16 (pdu 2) (pdu (2 + 1))).toNat + 20 ≤ n := by
    by_contra other
    exact long (Or.inl (by omega))
  by_cases odd : (word16 (pdu 2) (pdu (2 + 1))).toNat % 4 ≠ 0
  · rw [if_pos odd]
    simp [odd]
  rw [if_neg odd,read32Result,if_neg (plain _)]
  simp only [pureResult,true_iff]
  exact ⟨by omega,kinds,fits,by omega⟩

theorem packetAppend (rest : List UInt8) {i : Nat} (inside : i < m.length) :
    packet (m ++ rest) i = packet m i := List.getD_append _ _ _ _ inside

theorem decodeWhole {env : Env} {rest : List UInt8} (aligned : getval16h m 2 % 4 = 0)
    (whole : m.length = getval16h m 2 + 20) (inside : (decodeBody (packet m)).reach ≤ m.length) {msg : Msg} {parsed : Nat}
    (decoded : (stunMsgDecode env (packet (m ++ rest)) (m ++ rest).length streamOptions).result = .ok (msg, parsed)) :
    (stunMsgDecode env (packet m) m.length streamOptions).result = .ok (msg, parsed) ∧ parsed = m.length := by
  obtain ⟨accepted,_,isParsed⟩ := decodeParsed decoded
  rw [getvalAppend rest (by omega)] at isParsed
  have body : decodeBody (packet (m ++ rest)) = decodeBody (packet m) :=
    Stun.decodeBodyLocal _ _ (fun i low => packetAppend rest (Nat.lt_of_lt_of_le low inside))
  have alone : (stunMsgCheck env (packet m) m.length streamOptions).result = .ok () := by
    rw [checkStream] at accepted ⊢
    have kind := accepted.2.1
    rw [packetAppend rest (by omega)] at kind
    rw [headerLength]
    exact ⟨by omega,kind,by omega,aligned⟩
  rw [(Stun.decodeAccepted accepted).1,body] at decoded
  rw [(Stun.decodeAccepted alone).1]
  exact ⟨decoded,by omega⟩

section Socket
variable {σ : Type} (rx : Receiver σ)

theorem parsedFrame {sess : σ} {pkt : List UInt8} {parsed : Nat} (taken : (onRxPkt rx sess pkt).2 = some parsed)
    (has : hasPacket pkt ≠ 0) : parsed = hasPacket pkt := by
  rw [(hasPacketFrame has).2]
  unfold onRxPkt at taken
  unfold frame
  split at taken
  · rename_i bits
    split at taken
    · simp at taken
    · split at taken
      · simp at taken
      · rename_i msg length decoded
        obtain ⟨_,aligned,isParsed⟩ := decodeParsed decoded
        rw [if_pos ⟨bits,aligned⟩]
        split at taken
        · exact (Option.some.inj taken).symm.trans isParsed
        · simp at taken
  · rename_i bits
    rw [if_neg (fun both => bits both.1)]
    split at taken
    · simp at taken
    · split at taken
      · simp at taken
      · split at taken
        · simp at taken
        · have isParsed := Option.some.inj taken
          unfold pad4 at *
          omega

theorem onRxPktWhole {sess : σ} {m : List UInt8} (wellFormed : WellFormed m) (rest : List UInt8)
    (taken : (onRxPkt rx sess (m ++ rest)).2.isSome = true) : onRxPkt rx sess (m ++ rest) = onRxPkt rx sess m := by
  have long := wellFormed.frame.1
  have bitsSame : firstBits (m ++ rest) = firstBits m := firstBitsAppend rest (by omega)
  cases wellFormed with
  | stun bits aligned whole inside =>
    unfold onRxPkt at *
    rw [bitsSame,if_pos bits] at taken ⊢
    rw [if_pos bits]
    split at taken
    · simp at taken
    · rename_i alive
      rw [if_neg alive,if_neg alive]
      split at taken
      · simp at taken
      · rename_i msg parsed decoded
        obtain ⟨alone,isParsed⟩ := decodeWhole aligned whole inside decoded
        rw [alone]
        dsimp only
        rw [List.take_append_of_le_length (by omega)]
  | channelData bits =>
    have above := (pad4Le (getval16h m 2 + 4)).1
    have other : ¬ firstBits m = 0 := by simp [bits]
    have data : ((m ++ rest).drop 4).take (getval16h m 2) = (m.drop 4).take (getval16h m 2) := by
      rw [List.drop_append_of_le_length long,List.take_append_of_le_length (by rw [List.length_drop]; omega)]
    have header : ¬ (m ++ rest).length < 4 ∧ ¬ m.length < 4 := by
      rw [List.length_append]
      omega
    have fits : ¬ (m ++ rest).length < getval16h m 2 + 4 ∧ ¬ m.length < getval16h m 2 + 4 := by
      rw [List.length_append]
      omega
    unfold onRxPkt
    rw [bitsSame,if_neg other,if_neg other,getvalAppend rest (by omega),getvalAppend rest (by omega),data,
      if_neg header.1,if_neg header.2,if_neg fits.1,if_neg fits.2]

/- Every packet that the loop takes is there with its padding, and one that is refused is the last in the buffer. -/
def wholeLoop : Nat → σ → List UInt8 → Bool
  | 0, _, _ => true
  | fuel + 1, sess, data =>
    hasPacket data = 0 || rx.gone sess ||
      (decide (hasPacket data ≤ data.length) && ((onRxPkt rx sess data).2.isSome || hasPacket data = data.length) &&
        wholeLoop fuel (onRxPkt rx sess data).1 (afterPacket rx sess data))

/- The same, and a read that the session serves completes the packet at the head of the buffer. -/
def TurnSock.wholeRead (sock : TurnSock σ) (bytes : List UInt8) : Bool :=
  sock.crashed || !rx.serves sock.sess ||
    (hasPacket (sock.buffer ++ bytes) ≠ 0 &&
      wholeLoop rx (sock.buffer ++ bytes).length sock.sess (sock.buffer ++ bytes))

def TurnSock.wholeReads (sock : TurnSock σ) : List (List UInt8) → Bool
  | [] => true
  | bytes :: rest => sock.wholeRead rx bytes && (sock.onDataRead rx bytes).wholeReads rest

/- The session after messages that arrive one by one. -/
def deliver (sess : σ) (messages : List (List UInt8)) : σ := messages.foldl (fun sess m => (onRxPkt rx sess m).1) sess

variable (sock : TurnSock σ) (sess : σ)

variable {data : List UInt8}

theorem readLoopStart (has : hasPacket data ≠ 0) :
    TurnSock.readLoop rx data.length sock data [] = TurnSock.readLoop rx data.length sock data data := by
  have long := (hasPacketFrame has).1
  obtain ⟨fuel,isFuel⟩ : ∃ fuel, data.length = fuel + 1 := ⟨data.length - 1,by omega⟩
  rw [isFuel,TurnSock.readLoop,TurnSock.readLoop,if_neg has,if_neg has]

/- The session serves before each of the messages, when they come one by one. -/
def served (sess : σ) : List (List UInt8) → Bool
  | [] => true
  | m :: rest => rx.serves sess && served (onRxPkt rx sess m).1 rest

/- What a run of the loop has done: the packets that it handed on were messages, and the rest is still to come. -/
structure Progress (sock out : TurnSock σ) (todo : List (List UInt8)) (unread : List UInt8) : Prop where
  split : ∃ done left, todo = done ++ left ∧ out.handed = sock.handed ++ done ∧
    out.sess = deliver rx sock.sess done ∧ out.buffer ++ unread = left.flatten
  empty : hasPacket out.buffer = 0
  alive : out.crashed = false

/- The session is lost to the socket, which takes nothing any more. -/
structure Ended (out : TurnSock σ) : Prop where
  empty : out.buffer = []
  lost : out.crashed = true ∨ rx.serves out.sess = false

theorem endedStays {out : TurnSock σ} (ended : Ended rx out) (reads : List (List UInt8)) :
    out.receive rx reads = out := by
  have one (bytes : List UInt8) : out.onDataRead rx bytes = out := by
    obtain ⟨empty,lost⟩ := ended
    unfold TurnSock.onDataRead
    by_cases crashed : out.crashed = true
    · rw [if_pos crashed]
    · have idle := lost.resolve_left crashed
      rw [if_neg crashed,if_neg (by simp [idle]),← empty]
  induction reads with
  | nil => rfl
  | cons bytes rest ih =>
    rw [TurnSock.receive,List.foldl_cons,one]
    exact ih

theorem hasPacketNil : hasPacket [] = 0 := by decide

/- What a packet of the loop is when it is there with its padding, and nothing stands behind one that is refused. -/
theorem packetAlone {m tail unread : List UInt8} (mine : WellFormed m) (stream : data ++ unread = m ++ tail)
    (has : hasPacket data ≠ 0) (there : hasPacket data ≤ data.length)
    (status : (onRxPkt rx sess data).2.isSome = true ∨ hasPacket data = data.length) :
    ∃ rest, data = m ++ rest ∧ hasPacket data = m.length ∧ onRxPkt rx sess data = onRxPkt rx sess m ∧
      afterPacket rx sess data = rest := by
  have isLength := hasPacketHead mine stream has
  obtain ⟨rest,isData⟩ : ∃ rest, data = m ++ rest := by
    have split := List.append_eq_append_iff.mp stream
    rcases split with ⟨middle,isM,_⟩ | ⟨middle,isData,_⟩
    · have none : middle = [] := by
        have total := congrArg List.length isM
        rw [List.length_append] at total
        exact List.eq_nil_of_length_eq_zero (by omega)
      subst none
      exact ⟨[],by simpa using isM.symm⟩
    · exact ⟨middle,isData⟩
  refine ⟨rest,isData,isLength,?_⟩
  rw [isData] at status isLength ⊢
  unfold afterPacket
  cases taken : (onRxPkt rx sess (m ++ rest)).2 with
  | none =>
    rw [taken,isLength,List.length_append] at status
    have none : rest = [] := List.eq_nil_of_length_eq_zero (by simpa using status)
    subst none
    refine ⟨by rw [List.append_nil],?_⟩
    unfold consumed
    rw [Option.getD_none,List.append_nil,if_neg (by have := mine.frame.1; omega),List.drop_length]
  | some =>
    have isParsed := parsedFrame rx taken (isData ▸ has)
    refine ⟨onRxPktWhole rx mine rest (by rw [taken]; rfl),?_⟩
    unfold consumed
    rw [Option.getD_some,isParsed,isLength,if_neg (by have := mine.frame.1; omega),List.drop_left]

theorem readLoopProgress (fuel : Nat) (sock : TurnSock σ) (data unread : List UInt8) (todo : List (List UInt8))
    (wellFormed : ∀ m ∈ todo, WellFormed m) (stream : data ++ unread = todo.flatten) (enough : data.length ≤ fuel)
    (alive : sock.crashed = false) (whole : wholeLoop rx fuel sock.sess data = true) :
    Progress rx sock (TurnSock.readLoop rx fuel sock data data) todo unread ∨
      (Ended rx (TurnSock.readLoop rx fuel sock data data) ∧ served rx sock.sess todo = false) := by
  induction fuel generalizing sock data todo with
  | zero =>
    have none : data = [] := List.eq_nil_of_length_eq_zero (Nat.le_zero.mp enough)
    subst none
    exact Or.inl ⟨⟨[],todo,rfl,(List.append_nil _).symm,rfl,stream⟩,hasPacketNil,alive⟩
  | succ fuel ih =>
    rw [TurnSock.readLoop]
    by_cases has : hasPacket data = 0
    · rw [if_pos has]
      exact Or.inl ⟨⟨[],todo,rfl,(List.append_nil _).symm,rfl,stream⟩,has,alive⟩
    rw [if_neg has]
    cases todo with
    | nil =>
      have none : data = [] := List.append_eq_nil_iff.mp stream |>.1
      exact absurd (none ▸ hasPacketNil) has
    | cons m later =>
      by_cases gone : rx.gone sock.sess = true
      · rw [if_pos gone]
        refine Or.inr ⟨⟨rfl,Or.inl rfl⟩,?_⟩
        simp [served,Receiver.serves,gone]
      rw [if_neg gone]
      rw [wholeLoop,Bool.or_eq_true,Bool.or_eq_true,Bool.and_eq_true,Bool.and_eq_true] at whole
      obtain ⟨⟨there,status⟩,next⟩ := whole.resolve_left (by simp [has,gone])
      have mine := wellFormed m List.mem_cons_self
      obtain ⟨rest,isData,isLength,effect,remainder⟩ := packetAlone rx sock.sess mine
        (stream.trans List.flatten_cons) has (of_decide_eq_true there) (by simpa using status)
      have onward : rest ++ unread = later.flatten := by
        rw [isData,List.append_assoc] at stream
        exact List.append_cancel_left stream
      have shorter : rest.length ≤ fuel := by
        rw [isData,List.length_append] at enough
        have := mine.frame.1
        omega
      have isSess : (sock.takePacket rx data).sess = (onRxPkt rx sock.sess m).1 := by rw [← effect]; rfl
      rw [remainder] at next ⊢
      rcases ih (sock.takePacket rx data) rest later (fun other inside => wellFormed other (List.mem_cons_of_mem _ inside))
        onward shorter alive next with ⟨⟨done,left,isLater,handed,sess,buffer⟩,empty,lives⟩ | ⟨ended,lost⟩
      · refine Or.inl ⟨⟨m :: done,left,congrArg (m :: ·) isLater,?_,?_,buffer⟩,empty,lives⟩
        · have taken : data.take (hasPacket data) = m := by rw [isLength,isData,List.take_left]
          rw [handed]
          change (sock.handed ++ [data.take (hasPacket data)]) ++ done = _
          rw [taken,List.append_assoc]
          rfl
        · rw [sess,isSess]
          rfl
      · refine Or.inr ⟨ended,?_⟩
        rw [isSess] at lost
        rw [served,lost,Bool.and_false]

theorem deliverAppend (first rest : List (List UInt8)) :
    deliver rx sess (first ++ rest) = deliver rx (deliver rx sess first) rest := List.foldl_append

theorem servedAppend (first rest : List (List UInt8)) :
    served rx sess (first ++ rest) = (served rx sess first && served rx (deliver rx sess first) rest) := by
  induction first generalizing sess with
  | nil => rfl
  | cons m later ih =>
    rw [List.cons_append,served,served,ih,Bool.and_assoc]
    rfl

theorem readsProgress (reads todo : List (List UInt8)) (wellFormed : ∀ m ∈ todo, WellFormed m)
    (unread : List UInt8) (stream : sock.buffer ++ (reads.flatten ++ unread) = todo.flatten)
    (empty : hasPacket sock.buffer = 0) (alive : sock.crashed = false) (whole : sock.wholeReads rx reads = true) :
    Progress rx sock (sock.receive rx reads) todo unread ∨
      (Ended rx (sock.receive rx reads) ∧ served rx sock.sess todo = false) := by
  induction reads generalizing sock todo with
  | nil => exact Or.inl ⟨⟨[],todo,rfl,(List.append_nil _).symm,rfl,stream⟩,empty,alive⟩
  | cons bytes rest ih =>
    rw [TurnSock.wholeReads,Bool.and_eq_true] at whole
    obtain ⟨here,later⟩ := whole
    have joined : sock.buffer ++ bytes ++ (rest.flatten ++ unread) = todo.flatten := by
      rw [← stream,List.flatten_cons,List.append_assoc,List.append_assoc]
    have isReceive : sock.receive rx (bytes :: rest) = (sock.onDataRead rx bytes).receive rx rest := rfl
    rw [isReceive]
    have first : Progress rx sock (sock.onDataRead rx bytes) todo (rest.flatten ++ unread) ∨
        (Ended rx (sock.onDataRead rx bytes) ∧ served rx sock.sess todo = false) := by
      unfold TurnSock.onDataRead
      rw [if_neg (by simp [alive])]
      by_cases serves : rx.serves sock.sess = true
      · rw [if_pos serves]
        simp only [TurnSock.wholeRead,alive,serves,Bool.false_or,Bool.not_true,Bool.and_eq_true,ne_eq,
          decide_eq_true_eq] at here
        rw [readLoopStart rx sock here.1]
        exact readLoopProgress rx _ sock _ _ todo wellFormed joined (Nat.le_refl _) alive here.2
      · rw [if_neg serves]
        cases todo with
        | nil =>
          have nothing := (List.append_eq_nil_iff.mp joined).2
          exact Or.inl ⟨⟨[],[],rfl,(List.append_nil _).symm,rfl,nothing⟩,hasPacketNil,alive⟩
        | cons =>
          refine Or.inr ⟨⟨rfl,Or.inr (by simpa using serves)⟩,?_⟩
          rw [served,Bool.eq_false_iff.mpr serves,Bool.false_and]
    rcases first with ⟨⟨done,left,isTodo,handed,sess,buffer⟩,none,lives⟩ | ⟨ended,lost⟩
    · have leftFormed : ∀ m ∈ left, WellFormed m := by
        intro m inside
        exact wellFormed m (isTodo ▸ List.mem_append_right done inside)
      rcases ih (sock.onDataRead rx bytes) left leftFormed buffer none lives later with
        ⟨⟨next,last,isLeft,handed',sess',buffer'⟩,none',lives'⟩ | ⟨ended,lost⟩
      · refine Or.inl ⟨⟨done ++ next,last,?_,?_,?_,buffer'⟩,none',lives'⟩
        · rw [isTodo,isLeft,List.append_assoc]
        · rw [handed',handed,List.append_assoc]
        · rw [sess',sess,deliverAppend]
      · refine Or.inr ⟨ended,?_⟩
        rw [sess] at lost
        rw [isTodo,servedAppend,lost,Bool.and_false]
    · rw [endedStays rx ended]
      exact Or.inr ⟨ended,lost⟩

/- The bytes that were handed on or are still in the buffer are at most those that came. When they are all of them and
the packets are messages, no packet was cut and none was refused in front of others. -/
structure Accounts (sock out : TurnSock σ) (size : Nat) (whole : Bool) : Prop where
  bytes : ∃ taken, out.handed = sock.handed ++ taken ∧ taken.flatten.length + out.buffer.length ≤ size ∧
    (taken.flatten.length + out.buffer.length = size → (∀ m ∈ taken, WellFormed m) → whole = true)

theorem consumedEnough (has : hasPacket data ≠ 0) :
    min (hasPacket data) data.length + (afterPacket rx sess data).length ≤ data.length ∧
      ((onRxPkt rx sess data).2 = none → afterPacket rx sess data = []) := by
  have long := (hasPacketFrame has).1
  unfold afterPacket consumed
  cases taken : (onRxPkt rx sess data).2 with
  | none =>
    rw [Option.getD_none,if_neg (by omega),List.drop_length,List.length_nil]
    exact ⟨by omega,fun _ => rfl⟩
  | some =>
    rw [Option.getD_some,parsedFrame rx taken has,if_neg has,List.length_drop]
    exact ⟨by omega,fun other => absurd other (by simp)⟩

theorem takenWhole (has : hasPacket data ≠ 0) (message : WellFormed (data.take (hasPacket data))) :
    hasPacket data ≤ data.length := by
  obtain ⟨long,isFrame⟩ := message.frame
  have same : frame data = frame (data.take (hasPacket data)) := by
    have joined := frameAppend (data.drop (hasPacket data)) long
    rwa [List.take_append_drop] at joined
  rw [isFrame,← (hasPacketFrame has).2,List.length_take] at same
  omega

theorem readLoopAccounts (fuel : Nat) (sock : TurnSock σ) (data : List UInt8) :
    Accounts sock (TurnSock.readLoop rx fuel sock data data) data.length (wholeLoop rx fuel sock.sess data) := by
  induction fuel generalizing sock data with
  | zero => exact ⟨[],(List.append_nil _).symm,by simp [TurnSock.readLoop],fun _ _ => rfl⟩
  | succ fuel ih =>
    rw [TurnSock.readLoop,wholeLoop]
    by_cases has : hasPacket data = 0
    · rw [if_pos has]
      exact ⟨[],(List.append_nil _).symm,by simp,fun _ _ => by simp [has]⟩
    rw [if_neg has]
    by_cases gone : rx.gone sock.sess = true
    · rw [if_pos gone]
      exact ⟨[],(List.append_nil _).symm,by simp,fun _ _ => by simp [gone]⟩
    · rw [if_neg gone]
      obtain ⟨taken,handed,atMost,exact'⟩ := ih (sock.takePacket rx data) (afterPacket rx sock.sess data)
      obtain ⟨enough,refused⟩ := consumedEnough rx sock.sess has
      refine ⟨data.take (hasPacket data) :: taken,?_,?_,?_⟩
      · rw [handed]
        change (sock.handed ++ [data.take (hasPacket data)]) ++ taken = _
        rw [List.append_assoc]
        rfl
      · rw [List.flatten_cons,List.length_append,List.length_take]
        omega
      · intro all messages
        rw [List.flatten_cons,List.length_append,List.length_take] at all
        have there := takenWhole has (messages _ List.mem_cons_self)
        have later := exact' (by omega) (fun m inside => messages m (List.mem_cons_of_mem _ inside))
        have status : (onRxPkt rx sock.sess data).2.isSome = true ∨ hasPacket data = data.length := by
          cases result : (onRxPkt rx sock.sess data).2 with
          | some => exact Or.inl rfl
          | none =>
            have nothing := congrArg List.length (refused result)
            rw [List.length_nil] at nothing
            exact Or.inr (by omega)
        have next : wholeLoop rx fuel (onRxPkt rx sock.sess data).1 (afterPacket rx sock.sess data) = true := later
        rw [next]
        simpa [has,there,gone] using status

theorem readsAccounts (reads : List (List UInt8)) (arrived : ∀ bytes ∈ reads, bytes ≠ []) :
    Accounts sock (sock.receive rx reads) (sock.buffer.length + reads.flatten.length) (sock.wholeReads rx reads) := by
  induction reads generalizing sock with
  | nil => exact ⟨[],(List.append_nil _).symm,by simp [TurnSock.receive],fun _ _ => rfl⟩
  | cons bytes rest ih =>
    obtain ⟨taken,handed,atMost,exact'⟩ :=
      ih (sock.onDataRead rx bytes) (fun other inside => arrived other (List.mem_cons_of_mem _ inside))
    have first : Accounts sock (sock.onDataRead rx bytes) (sock.buffer.length + bytes.length)
        (sock.wholeRead rx bytes) := by
      rw [← List.length_append]
      unfold TurnSock.wholeRead TurnSock.onDataRead
      by_cases crashed : sock.crashed = true
      · rw [if_pos crashed,List.length_append]
        exact ⟨[],(List.append_nil _).symm,by simp,fun _ _ => by simp [crashed]⟩
      rw [if_neg crashed]
      by_cases serves : rx.serves sock.sess = true
      · rw [if_pos serves]
        by_cases has : hasPacket (sock.buffer ++ bytes) = 0
        · -- the bytes are lost
          have nonempty : 0 < bytes.length := List.length_pos_iff.mpr (arrived bytes List.mem_cons_self)
          have dropped : TurnSock.readLoop rx (sock.buffer ++ bytes).length sock (sock.buffer ++ bytes) [] =
              { sock with buffer := [] } := by
            cases (sock.buffer ++ bytes).length with
            | zero => rfl
            | succ => rw [TurnSock.readLoop,if_pos has]
          rw [dropped]
          refine ⟨[],(List.append_nil _).symm,Nat.zero_le _,?_⟩
          intro all
          rw [List.length_append] at all
          simp only [List.flatten_nil,List.length_nil] at all
          omega
        · rw [readLoopStart rx sock has]
          obtain ⟨taken,handed,atMost,exact'⟩ :=
            readLoopAccounts rx (sock.buffer ++ bytes).length sock (sock.buffer ++ bytes)
          refine ⟨taken,handed,atMost,?_⟩
          intro all messages
          rw [exact' all messages]
          simp [has]
      · rw [if_neg serves]
        exact ⟨[],(List.append_nil _).symm,Nat.zero_le _,fun _ _ => by simp [serves]⟩
    obtain ⟨taken',handed',atMost',exact''⟩ := first
    refine ⟨taken' ++ taken,?_,?_,?_⟩
    · rw [TurnSock.receive,List.foldl_cons]
      rw [TurnSock.receive] at handed
      rw [handed,handed',List.append_assoc]
    · rw [List.flatten_append,List.length_append,List.flatten_cons,List.length_append]
      change _ + ((sock.onDataRead rx bytes).receive rx rest).buffer.length ≤ _
      omega
    · intro all messages
      rw [List.flatten_append,List.length_append,List.flatten_cons,List.length_append] at all
      change _ + ((sock.onDataRead rx bytes).receive rx rest).buffer.length = _ at all
      rw [TurnSock.wholeReads,Bool.and_eq_true]
      exact ⟨exact'' (by omega) (fun m inside => messages m (List.mem_append_left _ inside)),
        exact' (by omega) (fun m inside => messages m (List.mem_append_right _ inside))⟩

theorem messageAlone {m : List UInt8} (mine : WellFormed m) (clear : sock.buffer = []) (alive : sock.crashed = false)
    (serves : rx.serves sock.sess = true) : sock.onDataRead rx m =
      { sess := (onRxPkt rx sock.sess m).1, buffer := [], handed := sock.handed ++ [m] } := by
  have isPacket := hasPacketWhole mine []
  rw [List.append_nil] at isPacket
  have long := mine.frame.1
  have found : hasPacket m ≠ 0 := by omega
  have nothing : afterPacket rx sock.sess m = [] := by
    have enough := (consumedEnough rx sock.sess found).1
    exact List.eq_nil_of_length_eq_zero (by omega)
  have kept : rx.gone sock.sess = false := by
    rw [Receiver.serves,Bool.and_eq_true,Bool.not_eq_true'] at serves
    exact serves.1
  obtain ⟨fuel,isFuel⟩ : ∃ fuel, m.length = fuel + 1 := ⟨m.length - 1,by omega⟩
  have stopped : ∀ (n : Nat) (out : TurnSock σ), TurnSock.readLoop rx n out [] [] = { out with buffer := [] } := by
    intro n out
    cases n with
    | zero => rfl
    | succ => rw [TurnSock.readLoop,if_pos hasPacketNil]
  rw [TurnSock.onDataRead,if_neg (by simp [alive]),if_pos serves,clear,List.nil_append,isFuel,TurnSock.readLoop,
    if_neg found,if_neg (by simp [kept]),nothing,stopped,TurnSock.takePacket,isPacket,List.take_length,alive]

theorem receiveAlone (clear : sock.buffer = []) (alive : sock.crashed = false) (messages : List (List UInt8))
    (wellFormed : ∀ m ∈ messages, WellFormed m) (serves : served rx sock.sess messages = true) :
    sock.receive rx messages =
      { sess := deliver rx sock.sess messages, buffer := [], handed := sock.handed ++ messages } := by
  induction messages generalizing sock with
  | nil =>
    rw [List.append_nil,← clear,← alive]
    rfl
  | cons m rest ih =>
    rw [served,Bool.and_eq_true] at serves
    rw [TurnSock.receive,List.foldl_cons,
      messageAlone rx sock (wellFormed m List.mem_cons_self) clear alive serves.1]
    have later := ih { sess := (onRxPkt rx sock.sess m).1, buffer := [], handed := sock.handed ++ [m] } rfl rfl
      (fun other inside => wellFormed other (List.mem_cons_of_mem _ inside)) serves.2
    rw [TurnSock.receive] at later
    rw [later,List.append_assoc]
    rfl

theorem aloneServed (clear : sock.buffer = []) (alive : sock.crashed = false) (messages : List (List UInt8))
    (wellFormed : ∀ m ∈ messages, WellFormed m)
    (handed : (sock.receive rx messages).handed = sock.handed ++ messages) : served rx sock.sess messages = true := by
  induction messages generalizing sock with
  | nil => rfl
  | cons m rest ih =>
    have mine := wellFormed m List.mem_cons_self
    by_cases serves : rx.serves sock.sess = true
    · rw [TurnSock.receive,List.foldl_cons,messageAlone rx sock mine clear alive serves] at handed
      rw [served,serves,Bool.true_and]
      refine ih { sess := (onRxPkt rx sock.sess m).1, buffer := [], handed := sock.handed ++ [m] } rfl rfl
        (fun other inside => wellFormed other (List.mem_cons_of_mem _ inside)) ?_
      rw [TurnSock.receive,handed,List.append_assoc]
      rfl
    · have ended : Ended rx sock := ⟨clear,Or.inr (by simpa using serves)⟩
      rw [endedStays rx ended] at handed
      have total := congrArg List.length handed
      rw [List.length_append,List.length_cons] at total
      omega

def TurnSock.start (sess : σ) : TurnSock σ := { sess := sess, buffer := [], handed := [] }

/- The reads of a stream hand on its messages, with the effect of messages that arrive one by one, exactly when every
read completes the packet at the head of the buffer, no packet is taken before its padding has come, nothing stands
behind a packet that is refused, and no message ends the session before the last. -/
theorem reassembly (sess : σ) (messages : List (List UInt8)) (wellFormed : ∀ m ∈ messages, WellFormed m)
    (reads : List (List UInt8)) (arrived : ∀ bytes ∈ reads, bytes ≠ []) (cut : reads.flatten = messages.flatten) :
    (((TurnSock.start sess).receive rx reads).handed = messages ∧
      (TurnSock.start sess).receive rx reads = (TurnSock.start sess).receive rx messages) ↔
    ((TurnSock.start sess).wholeReads rx reads = true ∧ served rx sess messages = true) := by
  constructor
  · rintro ⟨handed,same⟩
    refine ⟨?_,aloneServed rx (TurnSock.start sess) rfl rfl messages wellFormed (same ▸ handed)⟩
    obtain ⟨taken,isHanded,atMost,exact'⟩ := readsAccounts rx (TurnSock.start sess) reads arrived
    have isTaken : taken = messages := (List.nil_append taken).symm.trans (isHanded.symm.trans handed)
    have start : (TurnSock.start sess).buffer.length = 0 := rfl
    rw [isTaken,cut] at atMost
    exact exact' (by rw [isTaken,cut]; omega) (isTaken ▸ wellFormed)
  · rintro ⟨whole,serves⟩
    have stream : (TurnSock.start sess).buffer ++ (reads.flatten ++ []) = messages.flatten := by
      rw [List.append_nil,cut]
      rfl
    obtain ⟨⟨done,left,isMessages,handed,isSess,buffer⟩,empty,alive⟩ | ⟨_,lost⟩ :=
      readsProgress rx (TurnSock.start sess) reads messages wellFormed [] stream hasPacketNil rfl whole
    · have nothing : left = [] := by
        cases left with
        | nil => rfl
        | cons m =>
          have mine := wellFormed m (isMessages ▸ List.mem_append_right done List.mem_cons_self)
          rw [List.append_nil,List.flatten_cons] at buffer
          rw [buffer,hasPacketWhole mine] at empty
          have := mine.frame.1
          omega
      subst nothing
      rw [List.append_nil] at isMessages buffer
      subst isMessages
      refine ⟨handed,?_⟩
      rw [receiveAlone rx (TurnSock.start sess) rfl rfl messages wellFormed serves]
      exact TurnSock.ext isSess buffer handed alive
    · exact absurd (lost.symm.trans serves) Bool.false_ne_true

/- What a read leaves in the buffer is shorter than the message it begins, so that a buffer for the largest message has
room for the next read. -/
theorem roomRemains (messages : List (List UInt8)) (wellFormed : ∀ m ∈ messages, WellFormed m) (size : Nat)
    (fits : ∀ m ∈ messages, m.length ≤ size) (room : 0 < size) (reads : List (List UInt8)) (unread : List UInt8)
    (cut : reads.flatten ++ unread = messages.flatten) (whole : (TurnSock.start sess).wholeReads rx reads = true) :
    ((TurnSock.start sess).receive rx reads).buffer.length < size := by
  obtain ⟨⟨done,left,isMessages,_,_,buffer⟩,empty,_⟩ | ⟨ended,_⟩ :=
    readsProgress rx (TurnSock.start sess) reads messages wellFormed unread cut hasPacketNil rfl whole
  case inr =>
    rw [ended.empty]
    exact room
  generalize ((TurnSock.start sess).receive rx reads).buffer = rest at *
  cases left with
  | nil =>
    have total := congrArg List.length buffer
    rw [List.length_append,List.flatten_nil,List.length_nil] at total
    omega
  | cons m =>
    have inside : m ∈ messages := isMessages ▸ List.mem_append_right done List.mem_cons_self
    have atMost := fits m inside
    by_contra full
    have split := List.append_eq_append_iff.mp buffer
    rcases split with ⟨middle,isM,_⟩ | ⟨middle,isRest,_⟩
    · have total := congrArg List.length isM
      rw [List.length_append] at total
      have none : middle = [] := List.eq_nil_of_length_eq_zero (by omega)
      rw [none,List.append_nil] at isM
      have found := hasPacketWhole (wellFormed m inside) []
      have long := (wellFormed m inside).frame.1
      rw [List.append_nil,isM,empty] at found
      omega
    · have found := hasPacketWhole (wellFormed m inside) middle
      have long := (wellFormed m inside).frame.1
      rw [← isRest,empty] at found
      omega

end Socket

def acceptAll : Receiver Unit :=
  { env := Stun.plainEnv, gone := fun _ => false, isDestroying := fun _ => false, destroying := fun _ => false,
    refuse := fun _ _ _ => (), stun := fun _ _ _ => ((), true), bound := fun _ _ => true,
    onRxData := fun _ _ _ => () }

theorem roomAfterCut :
    ((TurnSock.start ()).receive acceptAll [[0x40,0,0,1,7,0,0,0,0x41,0]]).buffer.length < 8 :=
  roomRemains acceptAll () [[0x40,0,0,1,7,0,0,0],[0x41,0,0,0]]
    (List.forall_mem_cons.mpr ⟨.channelData (by decide) (by decide),
      List.forall_mem_singleton.mpr (.channelData (by decide) (by decide))⟩)
    8 (by decide) (by decide) _ [0,0] (by decide) (by decide)

theorem secondHeaderCut :
    ((TurnSock.start ()).receive acceptAll [[0x40,0,0,1,7,0,0,0,0x41,0],[0,0]]).handed =
      [[0x40,0,0,1,7,0,0,0],[0x41,0,0,0]] := by
  have messages : ∀ m ∈ ([[0x40,0,0,1,7,0,0,0],[0x41,0,0,0]] : List (List UInt8)), WellFormed m := by
    intro m inside
    rcases List.mem_cons.mp inside with isFirst | isSecond
    · exact isFirst ▸ .channelData (by decide) (by decide)
    · exact (List.mem_singleton.mp isSecond) ▸ .channelData (by decide) (by decide)
  exact ((reassembly acceptAll () _ messages [[0x40,0,0,1,7,0,0,0,0x41,0],[0,0]] (by decide) (by decide)).mpr
    ⟨by decide,by decide⟩).1

/- A ChannelData message that arrives in two reads is lost. -/
theorem firstHeaderCut : ∃ message : List UInt8, WellFormed message ∧ ∃ reads : List (List UInt8),
    (∀ bytes ∈ reads, bytes ≠ []) ∧ reads.flatten = [message].flatten ∧
    ((TurnSock.start ()).receive acceptAll reads).handed ≠ [message] :=
  ⟨[0x40,0,0,0],.channelData (by decide) (by decide),[[0x40,0],[0,0]],by decide,by decide,by decide⟩

end Pjproject.Turn
