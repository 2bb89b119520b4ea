import Mathlib

/-! The receive side of rtp.c: sequence numbers of 16 bits, counted on over their wraps. Numbers are the values
of the C fields; the places where C reduces them to 16 or 32 bits are written out. -/
namespace Pjproject.Rtp

def seqMod : Nat := 65536
def maxDropout : Nat := 3000
def maxMisorder : Nat := 100
def minSequential : Nat := 2

/- pjmedia_rtp_seq_session. -/
structure SeqSession where
  maxSeq : Nat := 0
  cycles : Nat := 0
  baseSeq : Nat := 0
  badSeq : Nat := 0
  probation : Nat := 0
  deriving DecidableEq, Repr

/- The flags of pjmedia_rtp_status and the difference it reports. -/
structure Status where
  bad : Bool := false
  badpt : Bool := false
  badssrc : Bool := false
  dup : Bool := false
  outorder : Bool := false
  probation : Bool := false
  restart : Bool := false
  diff : Nat := 0
  deriving DecidableEq, Repr

def SeqSession.restart (sess : SeqSession) (seq : Nat) : SeqSession :=
  { sess with baseSeq := seq, maxSeq := seq, badSeq := seqMod + 1, cycles := 0 }

def SeqSession.init (sess : SeqSession) (seq : Nat) : SeqSession :=
  { sess.restart seq with maxSeq := (seq + seqMod - 1) % seqMod, probation := minSequential }

/- seq - max_seq in 16 bits. -/
def udelta (seq maxSeq : Nat) : Nat := (seq + seqMod - maxSeq) % seqMod

/- In probation the next number is computed as an int: 65535 is followed by 65536, which no packet carries. -/
def SeqSession.probe (sess : SeqSession) (seq : Nat) : SeqSession × Status :=
  if seq = sess.maxSeq + 1 then
    ({ sess with probation := sess.probation - 1, maxSeq := seq },
      { probation := sess.probation - 1 ≠ 0, diff := 1 })
  else
    ({ sess with probation := minSequential - 1, maxSeq := seq },
      { probation := true, bad := true, dup := seq = sess.maxSeq, outorder := seq ≠ sess.maxSeq })

/- pjmedia_rtp_seq_update. -/
def SeqSession.update (sess : SeqSession) (seq : Nat) : SeqSession × Status :=
  if sess.probation ≠ 0 then sess.probe seq
  else if udelta seq sess.maxSeq = 0 then (sess, { dup := true })
  else if udelta seq sess.maxSeq < maxDropout then
    let cycles := if seq < sess.maxSeq then (sess.cycles + seqMod) % 2 ^ 32 else sess.cycles
    ({ sess with cycles := cycles, maxSeq := seq }, { diff := udelta seq sess.maxSeq })
  else if udelta seq sess.maxSeq ≤ seqMod - maxMisorder then
    if seq = sess.badSeq then (sess.restart seq, { restart := true, probation := true, diff := 1 })
    else ({ sess with badSeq := (seq + 1) % seqMod }, { bad := true, outorder := true })
  else (sess, { outorder := true })

/- The fields of pjmedia_rtp_session that receiving uses. -/
structure Session where
  seqCtrl : SeqSession := {}
  outPt : Nat
  hasPeerSsrc : Bool := false
  peerSsrc : Nat := 0
  received : Nat := 0
  deriving DecidableEq, Repr

structure Hdr where
  pt : Nat
  seq : Nat
  ssrc : Nat
  deriving DecidableEq, Repr

/- pjmedia_rtp_session_init, and the settings of pjmedia_rtp_session_init2 that receiving reads. -/
def Session.init (defaultPt : Nat) (peerSsrc : Option Nat) : Session :=
  { outPt := defaultPt % 2 ^ 16, hasPeerSsrc := peerSsrc.isSome, peerSsrc := peerSsrc.getD 0 }

def Session.checkSsrc (ses : Session) (hdr : Hdr) : Session × Bool :=
  let ses := if !ses.hasPeerSsrc ∧ ses.peerSsrc = 0 then { ses with peerSsrc := hdr.ssrc } else ses
  if hdr.ssrc ≠ ses.peerSsrc then
    (if !ses.hasPeerSsrc then { ses with peerSsrc := hdr.ssrc } else ses, true)
  else (ses, false)

/- pjmedia_rtp_session_update2; out is what the status held before. The update of the sequence number writes
the whole status, so that the flag for a bad SSRC is lost. -/
def Session.update2 (ses : Session) (hdr : Hdr) (out : Status) (checkPt : Bool) : Session × Status :=
  let (ses, badssrc) := ses.checkSsrc hdr
  if checkPt ∧ hdr.pt ≠ ses.outPt then
    (ses, { bad := true, badpt := true, badssrc := badssrc, diff := out.diff })
  else
    let seqCtrl := if ses.received = 0 then ses.seqCtrl.init hdr.seq else ses.seqCtrl
    let (seqCtrl, st) := seqCtrl.update hdr.seq
    let received := if st.restart ∨ ¬ st.bad then (ses.received + 1) % 2 ^ 32 else ses.received
    ({ ses with seqCtrl := seqCtrl, received := received }, st)

def Session.update (ses : Session) (hdr : Hdr) (out : Status) : Session × Status := ses.update2 hdr out true

/- Packets one after the other, with the status of each. -/
def receive (checkPt : Bool) : Session → List Hdr → Session × List Status
  | ses, [] => (ses, [])
  | ses, hdr :: rest =>
    let (ses, status) := ses.update2 hdr {} checkPt
    let (ses, statuses) := receive checkPt ses rest
    (ses, status :: statuses)

/- A packet with the extended number e arrives in the window around the largest one so far, and so do those
after it. -/
def Arrives (highest : Nat) : List (Nat × Hdr) → Prop
  | [] => True
  | (e, hdr) :: rest =>
    hdr.seq = e % seqMod ∧ highest < e + maxMisorder ∧ e < highest + maxDropout ∧ Arrives (max highest e) rest

def highest (start : Nat) (arrivals : List (Nat × Hdr)) : Nat :=
  arrivals.foldl (fun top a => max top a.1) start

/- The sequence control is past probation and at the extended number top, off by what it was off at first: the
sum of the offset and the extended number is the same in 32 bits. -/
structure Tracks (offset top : Nat) (sess : SeqSession) : Prop where
  settled : sess.probation = 0
  maxSeq : sess.maxSeq = top % seqMod
  extended : (sess.cycles + sess.maxSeq + offset) % 2 ^ 32 = top % 2 ^ 32

theorem udeltaAhead {top e : Nat} (ahead : top ≤ e) (near : e < top + seqMod) :
    udelta (e % seqMod) (top % seqMod) = e - top := by
  unfold udelta seqMod at *
  omega

theorem udeltaBehind {top e : Nat} (behind : e < top) (near : top < e + seqMod) :
    udelta (e % seqMod) (top % seqMod) = seqMod - (top - e) := by
  unfold udelta seqMod at *
  omega

theorem wrapCounted {top e cycles offset : Nat} (ahead : top < e) (near : e < top + maxDropout)
    (extended : (cycles + top % seqMod + offset) % 2 ^ 32 = top % 2 ^ 32) :
    ((if e % seqMod < top % seqMod then (cycles + seqMod) % 2 ^ 32 else cycles) + e % seqMod + offset) % 2 ^ 32 =
      e % 2 ^ 32 := by
  unfold seqMod maxDropout at *
  split <;> omega

theorem updateTracks {offset top e : Nat} {sess : SeqSession} (tracks : Tracks offset top sess)
    (low : top < e + maxMisorder) (high : e < top + maxDropout) :
    Tracks offset (max top e) (sess.update (e % seqMod)).1 ∧
      (sess.update (e % seqMod)).2.bad = false ∧ (sess.update (e % seqMod)).2.restart = false := by
  obtain ⟨settled,maxSeq,extended⟩ := tracks
  unfold SeqSession.update
  rw [if_neg (by omega),maxSeq]
  rcases Nat.lt_trichotomy e top with behind | same | ahead
  · have delta := @udeltaBehind top e behind (by unfold seqMod maxMisorder at *; omega)
    have far : ¬ udelta (e % seqMod) (top % seqMod) ≤ seqMod - maxMisorder := by
      rw [delta]
      unfold seqMod maxMisorder at *
      omega
    rw [if_neg,if_neg,if_neg far,Nat.max_eq_left (Nat.le_of_lt behind)]
    · exact ⟨⟨settled,maxSeq,extended⟩,rfl,rfl⟩
    · unfold seqMod maxMisorder maxDropout at *
      omega
    · unfold seqMod maxMisorder at *
      omega
  · have delta := @udeltaAhead top e (Nat.le_of_eq same.symm) (by unfold seqMod; omega)
    rw [if_pos (by omega),Nat.max_eq_left (Nat.le_of_eq same)]
    exact ⟨⟨settled,maxSeq,extended⟩,rfl,rfl⟩
  · have delta := @udeltaAhead top e (Nat.le_of_lt ahead) (by unfold seqMod maxDropout at *; omega)
    rw [if_neg (by omega),if_pos (by omega),Nat.max_eq_right (Nat.le_of_lt ahead)]
    rw [maxSeq] at extended
    exact ⟨⟨settled,rfl,wrapCounted ahead high extended⟩,rfl,rfl⟩

theorem checkSsrcKeeps (ses : Session) (hdr : Hdr) :
    (ses.checkSsrc hdr).1.seqCtrl = ses.seqCtrl ∧ (ses.checkSsrc hdr).1.outPt = ses.outPt ∧
      (ses.checkSsrc hdr).1.received = ses.received := by
  have first : ∀ v : Session, v.seqCtrl = ses.seqCtrl → v.outPt = ses.outPt → v.received = ses.received →
      ∀ bad : Prop, ∀ _ : Decidable bad,
        (if bad then { v with peerSsrc := hdr.ssrc } else v).seqCtrl = ses.seqCtrl ∧
          (if bad then { v with peerSsrc := hdr.ssrc } else v).outPt = ses.outPt ∧
          (if bad then { v with peerSsrc := hdr.ssrc } else v).received = ses.received := by
    intro v seqCtrl outPt received bad _
    split <;> exact ⟨seqCtrl,outPt,received⟩
  simp only [Session.checkSsrc]
  obtain ⟨seqCtrl,outPt,received⟩ := first ses rfl rfl rfl (!ses.hasPeerSsrc ∧ ses.peerSsrc = 0) inferInstance
  generalize (if !ses.hasPeerSsrc ∧ ses.peerSsrc = 0 then { ses with peerSsrc := hdr.ssrc } else ses) = v
    at seqCtrl outPt received
  split
  · exact first v seqCtrl outPt received _ _
  · exact ⟨seqCtrl,outPt,received⟩

/- The sequence control a packet meets: a session that has counted no packet starts afresh. -/
def Session.control (ses : Session) (hdr : Hdr) : SeqSession :=
  if ses.received = 0 then ses.seqCtrl.init hdr.seq else ses.seqCtrl

theorem update2Known {ses : Session} {hdr : Hdr} {checkPt : Bool} (typed : checkPt = true → hdr.pt = ses.outPt)
    (out : Status) : (ses.update2 hdr out checkPt).1.seqCtrl = ((ses.control hdr).update hdr.seq).1 ∧
      (ses.update2 hdr out checkPt).2 = ((ses.control hdr).update hdr.seq).2 ∧
      (ses.update2 hdr out checkPt).1.outPt = ses.outPt ∧ (((ses.control hdr).update hdr.seq).2.bad = false →
        (ses.update2 hdr out checkPt).1.received = (ses.received + 1) % 2 ^ 32) := by
  obtain ⟨seqCtrl,outPt,received⟩ := checkSsrcKeeps ses hdr
  have known : ¬ (checkPt = true ∧ hdr.pt ≠ (ses.checkSsrc hdr).1.outPt) := by
    rintro ⟨checked,other⟩
    exact other ((typed checked).trans outPt.symm)
  simp only [Session.update2,Session.control]
  rw [if_neg known,received,seqCtrl]
  refine ⟨rfl,rfl,outPt,fun good => ?_⟩
  rw [good]
  simp

theorem receiveCons (checkPt : Bool) (ses : Session) (hdr : Hdr) (rest : List Hdr) :
    receive checkPt ses (hdr :: rest) =
      ((receive checkPt (ses.update2 hdr {} checkPt).1 rest).1,
        (ses.update2 hdr {} checkPt).2 :: (receive checkPt (ses.update2 hdr {} checkPt).1 rest).2) := rfl

theorem receiveTracks (checkPt : Bool) {offset top : Nat} (arrivals : List (Nat × Hdr)) (ses : Session)
    (tracks : Tracks offset top ses.seqCtrl) (begun : ses.received ≠ 0)
    (counted : ses.received + arrivals.length ≤ 2 ^ 32) (window : Arrives top arrivals)
    (typed : checkPt = true → ∀ a ∈ arrivals, a.2.pt = ses.outPt) :
    Tracks offset (highest top arrivals) (receive checkPt ses (arrivals.map Prod.snd)).1.seqCtrl ∧
      ∀ status ∈ (receive checkPt ses (arrivals.map Prod.snd)).2, status.bad = false ∧ status.restart = false := by
  induction arrivals generalizing ses top with
  | nil => exact ⟨tracks,fun status none => nomatch none⟩
  | cons a rest ih =>
    obtain ⟨e,hdr⟩ := a
    obtain ⟨number,low,high,later⟩ := window
    obtain ⟨next,good,plain⟩ := updateTracks tracks low high
    rw [← number] at next good plain
    obtain ⟨seqCtrl,status,outPt,received⟩ :=
      @update2Known ses hdr checkPt (fun checked => typed checked (e, hdr) List.mem_cons_self) {}
    rw [Session.control,if_neg begun] at seqCtrl status received
    have count := received good
    simp only [List.length_cons] at counted
    cases rest with
    | nil =>
      refine ⟨?_,fun s inside => ?_⟩
      · show Tracks offset (max top e) (ses.update2 hdr {} checkPt).1.seqCtrl
        rw [seqCtrl]
        exact next
      · have only : s = (ses.update2 hdr {} checkPt).2 := by simpa [receive] using inside
        rw [only,status]
        exact ⟨good,plain⟩
    | cons =>
      simp only [List.length_cons] at counted
      have exact_ : (ses.received + 1) % 2 ^ 32 = ses.received + 1 := Nat.mod_eq_of_lt (by omega)
      rw [exact_] at count
      obtain ⟨tracks',statuses⟩ := ih (ses.update2 hdr {} checkPt).1 (by rw [seqCtrl]; exact next) (by omega)
        (by simp only [List.length_cons]; omega) later
        (fun checked other inside => by rw [outPt]; exact typed checked other (List.mem_cons_of_mem _ inside))
      rw [List.map_cons,receiveCons]
      refine ⟨tracks',fun s inside => ?_⟩
      rcases List.mem_cons.mp inside with rfl | after
      · rw [status]
        exact ⟨good,plain⟩
      · exact statuses s after

/- A session past its probation that has counted fewer than 2^32 packets: whatever arrives in the window, cycles
and max_seq together are the largest extended number, up to the same constant as before and in 32 bits. -/
theorem extendedSequenceTracks (ses : Session) (checkPt : Bool) (start : Nat) (arrivals : List (Nat × Hdr))
    (settled : ses.seqCtrl.probation = 0) (sync : ses.seqCtrl.maxSeq = start % seqMod)
    (begun : ses.received ≠ 0) (counted : ses.received + arrivals.length ≤ 2 ^ 32)
    (window : Arrives start arrivals) (typed : checkPt = true → ∀ a ∈ arrivals, a.2.pt = ses.outPt) :
    let after := receive checkPt ses (arrivals.map Prod.snd)
    (after.1.seqCtrl.cycles + after.1.seqCtrl.maxSeq + start) % 2 ^ 32 =
        (ses.seqCtrl.cycles + ses.seqCtrl.maxSeq + highest start arrivals) % 2 ^ 32 ∧
      ∀ status ∈ after.2, status.bad = false ∧ status.restart = false := by
  -- the offset that makes the sums agree, modulo 2^32
  have tracks : Tracks (start + (2 ^ 32 - (ses.seqCtrl.cycles + ses.seqCtrl.maxSeq) % 2 ^ 32)) start ses.seqCtrl := by
    refine ⟨settled,sync,?_⟩
    omega
  obtain ⟨⟨-,-,extended⟩,statuses⟩ := receiveTracks checkPt arrivals ses tracks begun counted window typed
  refine ⟨?_,statuses⟩
  omega

/- A packet of another payload type is flagged although it is in the window, and the extended number is one of 32
bits: it starts again when the true one reaches 2^32. -/
theorem windowNotEnough :
    (¬ ∀ (ses : Session) (start : Nat) (arrivals : List (Nat × Hdr)), ses.seqCtrl.probation = 0 →
        ses.seqCtrl.maxSeq = start % seqMod → ses.received ≠ 0 → Arrives start arrivals →
        ∀ status ∈ (receive true ses (arrivals.map Prod.snd)).2, status.bad = false ∧ status.restart = false) ∧
    (¬ ∀ (ses : Session) (start : Nat) (arrivals : List (Nat × Hdr)), ses.seqCtrl.probation = 0 →
        ses.seqCtrl.maxSeq = start % seqMod → ses.received ≠ 0 → Arrives start arrivals →
        (∀ a ∈ arrivals, a.2.pt = ses.outPt) →
        (receive true ses (arrivals.map Prod.snd)).1.seqCtrl.cycles +
            (receive true ses (arrivals.map Prod.snd)).1.seqCtrl.maxSeq + start =
          ses.seqCtrl.cycles + ses.seqCtrl.maxSeq + highest start arrivals) := by
  constructor
  · intro holds
    have flags := holds { outPt := 0, received := 2, seqCtrl := { maxSeq := 11, badSeq := 65537 } } 11
      [(12, ⟨8,12,1⟩)] rfl rfl (by decide) ⟨rfl,by decide,by decide,trivial⟩ _ List.mem_cons_self
    exact absurd flags.1 (by decide)
  · intro holds
    have sum := holds
      { outPt := 0, received := 4000000, seqCtrl := { maxSeq := 65535, cycles := 4294901760, badSeq := 65537 } }
      4294967295 [(4294967296, ⟨0,0,1⟩)] rfl rfl (by decide) ⟨rfl,by decide,by decide,trivial⟩
      (fun a inside => by rw [List.mem_singleton.mp inside])
    exact absurd sum (by decide)

theorem probationPasses (pt ssrc seq : Nat) (peer : Option Nat) (positive : 0 < seq) (fits : seq + 1 < seqMod) :
    let hdr : Nat → Hdr := fun n => ⟨pt % 2 ^ 16,n,ssrc⟩
    let after := (receive true (Session.init pt peer) [hdr seq,hdr (seq + 1)]).1
    after.seqCtrl.probation = 0 ∧ after.seqCtrl.maxSeq = seq + 1 ∧ after.seqCtrl.cycles = 0 ∧ after.received = 2 ∧
      after.outPt = pt % 2 ^ 16 := by
  let first : Hdr := ⟨pt % 2 ^ 16,seq,ssrc⟩
  let second : Hdr := ⟨pt % 2 ^ 16,seq + 1,ssrc⟩
  let one := ((Session.init pt peer).update2 first {} true).1
  obtain ⟨seqCtrl,-,outPt,received⟩ := @update2Known (Session.init pt peer) first true (fun _ => rfl) {}
  have before : (seq + seqMod - 1) % seqMod + 1 = seq := by
    unfold seqMod at *
    omega
  have probed : ((Session.init pt peer).control first).update seq =
      ({ ((Session.init pt peer).control first) with probation := 1, maxSeq := seq },
        { probation := true, diff := 1 }) := by
    simp [Session.control,Session.init,first,SeqSession.update,SeqSession.probe,SeqSession.init,minSequential,
      before]
  rw [show first.seq = seq from rfl,probed] at seqCtrl received
  have counted : one.received = 1 := received rfl
  obtain ⟨seqCtrl',-,outPt',received'⟩ := @update2Known one second true (fun _ => outPt.symm) {}
  have control : one.control second = one.seqCtrl := by
    unfold Session.control
    rw [counted]
    rfl
  have settled : one.seqCtrl.update (seq + 1) =
      ({ one.seqCtrl with probation := 0, maxSeq := seq + 1 }, { diff := 1 }) := by
    rw [show one.seqCtrl = _ from seqCtrl]
    simp [SeqSession.update,SeqSession.probe]
  rw [control,show second.seq = seq + 1 from rfl,settled] at seqCtrl' received'
  have cycles : one.seqCtrl.cycles = 0 := by
    rw [show one.seqCtrl = _ from seqCtrl]
    rfl
  have end_ := received' rfl
  rw [counted] at end_
  intro hdr after
  have result : after = (one.update2 second {} true).1 := by
    simp only [after,receive]
    rfl
  rw [result,seqCtrl',end_,outPt']
  exact ⟨rfl,rfl,cycles,rfl,outPt⟩

/- A call that starts at 65533: a jump over the wrap, a packet from before it, a duplicate and a further jump. -/
theorem wrappedCallTracks :
    let ses := (receive true (Session.init 8 none) [⟨8,65533,7⟩,⟨8,65534,7⟩]).1
    let after := receive true ses [⟨8,4,7⟩,⟨8,65535,7⟩,⟨8,4,7⟩,⟨8,2464,7⟩]
    (after.1.seqCtrl.cycles + after.1.seqCtrl.maxSeq + 65534) % 2 ^ 32 = (0 + 65534 + 68000) % 2 ^ 32 ∧
      ∀ status ∈ after.2, status.bad = false ∧ status.restart = false := by
  have passes : let ses := (receive true (Session.init 8 none) [⟨8,65533,7⟩,⟨8,65534,7⟩]).1
      ses.seqCtrl.probation = 0 ∧ ses.seqCtrl.maxSeq = 65534 ∧ ses.seqCtrl.cycles = 0 ∧ ses.received = 2 ∧
        ses.outPt = 8 := probationPasses 8 7 65533 none (by decide) (by decide)
  obtain ⟨settled,maxSeq,cycles,received,outPt⟩ := passes
  have tracked := extendedSequenceTracks
    (receive true (Session.init 8 none) [⟨8,65533,7⟩,⟨8,65534,7⟩]).1 true 65534
    [(65540, ⟨8,4,7⟩),(65535, ⟨8,65535,7⟩),(65540, ⟨8,4,7⟩),(68000, ⟨8,2464,7⟩)]
    settled (maxSeq.trans (by decide)) (by rw [received]; decide)
    (by rw [received]; decide)
    ⟨rfl,by decide,by decide,rfl,by decide,by decide,rfl,by decide,by decide,rfl,by decide,by decide,trivial⟩
    (fun _ a inside => by
      rw [outPt]
      fin_cases inside <;> rfl)
  rw [cycles,maxSeq] at tracked
  exact tracked

end Pjproject.Rtp
