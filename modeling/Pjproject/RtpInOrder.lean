import Pjproject.Rtp

/-! Packets in sequence from the first one of a receive session on: where the start lies decides whether the
probation passes. -/
namespace Pjproject.Rtp

/- The packets with the extended numbers e, e + 1 and on; a packet carries the lower 16 bits. -/
def inSequence (pt : Nat) (ssrc : Nat → Nat) : Nat → Nat → List Hdr
  | _, 0 => []
  | e, n + 1 => ⟨pt,e % seqMod,ssrc e⟩ :: inSequence pt ssrc (e + 1) n

/- What a receive session should make of packets in sequence from the number start on. -/
structure Judged (start n : Nat) (after : Session × List Status) : Prop where
  unflagged : ∀ status ∈ after.2, status.bad = false ∧ status.outorder = false
  probation : ∀ i status, after.2[i]? = some status → (status.probation = true ↔ i = 0)
  ended : after.1.seqCtrl.probation = 0
  diff : ∀ i status, 0 < i → after.2[i]? = some status → status.diff = 1
  received : after.1.received = n
  cycles : after.1.seqCtrl.cycles = seqMod * ((start + n - 1) / seqMod)

/- Past the probation, with the packet of the extended number e as the last one and each wrap counted. -/
structure Counts (e : Nat) (sess : SeqSession) : Prop where
  settled : sess.probation = 0
  maxSeq : sess.maxSeq = e % seqMod
  cycles : sess.cycles = seqMod * (e / seqMod)

theorem updateCounts {e : Nat} {sess : SeqSession} (counts : Counts e sess) (fits : e + 1 < 2 ^ 32) :
    Counts (e + 1) (sess.update ((e + 1) % seqMod)).1 ∧ (sess.update ((e + 1) % seqMod)).2 = { diff := 1 } := by
  obtain ⟨settled,maxSeq,cycles⟩ := counts
  have delta : udelta ((e + 1) % seqMod) sess.maxSeq = 1 := by
    rw [maxSeq,udeltaAhead (Nat.le_succ e) (by unfold seqMod; omega)]
    omega
  have next : sess.update ((e + 1) % seqMod) =
      ({ sess with
          cycles := if (e + 1) % seqMod < sess.maxSeq then (sess.cycles + seqMod) % 2 ^ 32 else sess.cycles,
          maxSeq := (e + 1) % seqMod }, { diff := 1 }) := by
    unfold SeqSession.update
    rw [if_neg (by omega),delta]
    rfl
  rw [next]
  refine ⟨⟨settled,rfl,?_⟩,rfl⟩
  show (if (e + 1) % seqMod < sess.maxSeq then (sess.cycles + seqMod) % 2 ^ 32 else sess.cycles) = _
  rw [maxSeq,cycles]
  unfold seqMod
  split <;> omega

theorem receiveCounts (pt : Nat) (ssrc : Nat → Nat) {e : Nat} (n : Nat) (ses : Session)
    (counts : Counts e ses.seqCtrl) (typed : ses.outPt = pt) (begun : 0 < ses.received) (fits : e + n < 2 ^ 32)
    (counted : ses.received + n < 2 ^ 32) :
    let after := receive true ses (inSequence pt ssrc (e + 1) n)
    Counts (e + n) after.1.seqCtrl ∧ after.1.received = ses.received + n ∧
      ∀ status ∈ after.2, status = { diff := 1 } := by
  induction n generalizing e ses with
  | zero => exact ⟨counts,rfl,fun status inside => nomatch inside⟩
  | succ n ih =>
    let hdr : Hdr := ⟨pt,(e + 1) % seqMod,ssrc (e + 1)⟩
    obtain ⟨seqCtrl,status,outPt,received⟩ := @update2Known ses hdr true (fun _ => typed.symm) {}
    rw [Session.control,if_neg (by omega)] at seqCtrl status received
    obtain ⟨next,plain⟩ := updateCounts counts (by omega)
    have count : (ses.update2 hdr {} true).1.received = ses.received + 1 := by
      rw [received (by rw [show hdr.seq = _ from rfl,plain]),Nat.mod_eq_of_lt (by omega)]
    obtain ⟨counts',received',statuses⟩ := @ih (e + 1) (ses.update2 hdr {} true).1 (by rw [seqCtrl]; exact next)
      (outPt.trans typed) (by omega) (by omega) (by omega)
    rw [inSequence,receiveCons]
    refine ⟨?_,?_,?_⟩
    · rw [show e + (n + 1) = e + 1 + n by omega]
      exact counts'
    · rw [received',count]
      omega
    · intro other inside
      rcases List.mem_cons.mp inside with rfl | later
      · exact status.trans plain
      · exact statuses other later

theorem firstPacket (pt seq ssrc : Nat) (peer : Option Nat) (small : seq < seqMod) :
    let after := (Session.init pt peer).update2 ⟨pt % 2 ^ 16,seq,ssrc⟩ {} true
    (0 < seq → after.2 = { probation := true, diff := 1 } ∧ after.1.received = 1 ∧
        after.1.outPt = pt % 2 ^ 16 ∧ after.1.seqCtrl.probation = 1 ∧ after.1.seqCtrl.maxSeq = seq ∧
        after.1.seqCtrl.cycles = 0) ∧
      (seq = 0 → after.2.bad = true) := by
  obtain ⟨seqCtrl,status,outPt,received⟩ :=
    @update2Known (Session.init pt peer) ⟨pt % 2 ^ 16,seq,ssrc⟩ true (fun _ => rfl) {}
  have control : (Session.init pt peer).control ⟨pt % 2 ^ 16,seq,ssrc⟩ = SeqSession.init {} seq := rfl
  rw [control] at seqCtrl status received
  have probes : (SeqSession.init {} seq).update seq = (SeqSession.init {} seq).probe seq := rfl
  constructor
  · intro positive
    have before : (seq + seqMod - 1) % seqMod + 1 = seq := by
      unfold seqMod at *
      omega
    have passed : (SeqSession.init {} seq).update seq =
        ({ SeqSession.init {} seq with probation := 1, maxSeq := seq }, { probation := true, diff := 1 }) := by
      rw [probes,SeqSession.probe,show (SeqSession.init {} seq).maxSeq = (seq + seqMod - 1) % seqMod from rfl,
        before,if_pos rfl]
      rfl
    rw [show (Hdr.mk (pt % 2 ^ 16) seq ssrc).seq = seq from rfl,passed] at seqCtrl status received
    exact ⟨status,received rfl,outPt,congrArg SeqSession.probation seqCtrl,congrArg SeqSession.maxSeq seqCtrl,
      congrArg SeqSession.cycles seqCtrl⟩
  · intro zero
    subst zero
    exact (congrArg Status.bad status).trans rfl

/- The second packet ends the probation, unless it comes after the wrap: 65535 + 1 is not reduced to 16 bits. -/
theorem secondPacket {ses : Session} {seq ssrc : Nat} (received : ses.received = 1)
    (probation : ses.seqCtrl.probation = 1) (maxSeq : ses.seqCtrl.maxSeq = seq) (cycles : ses.seqCtrl.cycles = 0) :
    let after := ses.update2 ⟨ses.outPt,(seq + 1) % seqMod,ssrc⟩ {} true
    (seq + 1 < seqMod → after.2 = { diff := 1 } ∧ after.1.received = 2 ∧ after.1.outPt = ses.outPt ∧
        Counts (seq + 1) after.1.seqCtrl) ∧
      (seq + 1 = seqMod → after.2.bad = true) := by
  obtain ⟨seqCtrl,status,outPt,count⟩ :=
    @update2Known ses ⟨ses.outPt,(seq + 1) % seqMod,ssrc⟩ true (fun _ => rfl) {}
  rw [Session.control,if_neg (by omega)] at seqCtrl status count
  have probes : ses.seqCtrl.update ((seq + 1) % seqMod) = ses.seqCtrl.probe ((seq + 1) % seqMod) := by
    unfold SeqSession.update
    rw [if_pos (by omega)]
  constructor
  · intro room
    have number : (seq + 1) % seqMod = seq + 1 := Nat.mod_eq_of_lt room
    have passed : ses.seqCtrl.update ((seq + 1) % seqMod) =
        ({ ses.seqCtrl with probation := 0, maxSeq := (seq + 1) % seqMod }, { diff := 1 }) := by
      rw [probes,SeqSession.probe,maxSeq,if_pos number,probation]
      rfl
    rw [show (Hdr.mk ses.outPt ((seq + 1) % seqMod) ssrc).seq = (seq + 1) % seqMod from rfl,passed]
      at seqCtrl status count
    refine ⟨status,(count rfl).trans (by omega),outPt,?_⟩
    rw [seqCtrl]
    refine ⟨rfl,rfl,?_⟩
    show ses.seqCtrl.cycles = _
    rw [cycles,Nat.div_eq_of_lt room]
    rfl
  · intro wrap
    have number : (seq + 1) % seqMod = 0 := by
      rw [wrap]
      exact Nat.mod_self seqMod
    have failed : (ses.seqCtrl.update ((seq + 1) % seqMod)).2.bad = true := by
      rw [probes,SeqSession.probe,maxSeq,if_neg (by omega)]
    exact (congrArg Status.bad status).trans failed

theorem updateCyclesFit {sess : SeqSession} (seq : Nat) (fits : sess.cycles < 2 ^ 32) :
    (sess.update seq).1.cycles < 2 ^ 32 := by
  have restarts : (sess.restart seq).cycles < 2 ^ 32 := show 0 < 2 ^ 32 by decide
  unfold SeqSession.update SeqSession.probe
  split
  · split <;> exact fits
  · split
    · exact fits
    · split
      · show (if seq < sess.maxSeq then (sess.cycles + seqMod) % 2 ^ 32 else sess.cycles) < 2 ^ 32
        split
        · exact Nat.mod_lt _ (by decide)
        · exact fits
      · split
        · split
          · exact restarts
          · exact fits
        · exact fits

theorem update2CyclesFit {ses : Session} (hdr : Hdr) (out : Status) (checkPt : Bool)
    (fits : ses.seqCtrl.cycles < 2 ^ 32) : (ses.update2 hdr out checkPt).1.seqCtrl.cycles < 2 ^ 32 := by
  obtain ⟨seqCtrl,-,-⟩ := checkSsrcKeeps ses hdr
  simp only [Session.update2]
  split
  · rw [seqCtrl]
    exact fits
  · refine updateCyclesFit hdr.seq ?_
    split
    · show 0 < 2 ^ 32
      decide
    · rw [seqCtrl]
      exact fits

theorem receiveCyclesFit (checkPt : Bool) (hdrs : List Hdr) (ses : Session) (fits : ses.seqCtrl.cycles < 2 ^ 32) :
    (receive checkPt ses hdrs).1.seqCtrl.cycles < 2 ^ 32 := by
  induction hdrs generalizing ses with
  | nil => exact fits
  | cons hdr rest ih =>
    rw [receiveCons]
    exact ih (ses.update2 hdr {} checkPt).1 (update2CyclesFit hdr {} checkPt fits)

theorem inSequenceTwo (pt : Nat) (ssrc : Nat → Nat) (e n : Nat) :
    inSequence pt ssrc e (n + 2) =
      ⟨pt,e % seqMod,ssrc e⟩ :: ⟨pt,(e + 1) % seqMod,ssrc (e + 1)⟩ :: inSequence pt ssrc (e + 2) n := rfl

/- A new session judges the packets from start on as it should exactly where the first two neither are, nor have
between them, the wrap, and the extended numbers fit into 32 bits. -/
theorem inOrderJudged (defaultPt : Nat) (peer : Option Nat) (ssrc : Nat → Nat) (start n : Nat)
    (small : start < seqMod) (two : 2 ≤ n) :
    Judged start n (receive true (Session.init defaultPt peer) (inSequence (defaultPt % 2 ^ 16) ssrc start n)) ↔
      0 < start ∧ start + 1 < seqMod ∧ start + n ≤ 2 ^ 32 := by
  obtain ⟨m,rfl⟩ : ∃ m, n = m + 2 := ⟨n - 2,by omega⟩
  let pt := defaultPt % 2 ^ 16
  let one := (Session.init defaultPt peer).update2 ⟨pt,start,ssrc start⟩ {} true
  let other := one.1.update2 ⟨pt,(start + 1) % seqMod,ssrc (start + 1)⟩ {} true
  let rest := receive true other.1 (inSequence pt ssrc (start + 2) m)
  have run : receive true (Session.init defaultPt peer) (inSequence pt ssrc start (m + 2)) =
      (rest.1, one.2 :: other.2 :: rest.2) := by
    rw [inSequenceTwo,Nat.mod_eq_of_lt small,receiveCons,receiveCons]
  obtain ⟨passes,fails⟩ := firstPacket defaultPt start (ssrc start) peer small
  constructor
  · intro judged
    rw [show defaultPt % 2 ^ 16 = pt from rfl,run] at judged
    have good := (judged.unflagged one.2 List.mem_cons_self).1
    have good' := (judged.unflagged other.2 (List.mem_cons_of_mem _ List.mem_cons_self)).1
    have positive : 0 < start := by
      rcases Nat.eq_zero_or_pos start with zero | positive
      · exact absurd ((fails zero).symm.trans good) (by decide)
      · exact positive
    obtain ⟨-,received,outPt,probation,maxSeq,cycles⟩ := passes positive
    obtain ⟨-,wraps⟩ := @secondPacket one.1 start (ssrc (start + 1)) received probation maxSeq cycles
    rw [show one.1.outPt = pt from outPt] at wraps
    refine ⟨positive,?_,?_⟩
    · rcases Nat.lt_or_ge (start + 1) seqMod with room | full
      · exact room
      · exact absurd ((wraps (by omega)).symm.trans good') (by decide)
    · -- the count of cycles cannot be more than its 32 bits hold
      have fits := receiveCyclesFit true (inSequence pt ssrc start (m + 2)) (Session.init defaultPt peer)
        (show 0 < 2 ^ 32 by decide)
      rw [run] at fits
      have cycles := judged.cycles
      unfold seqMod at cycles
      omega
  · rintro ⟨positive,room,bound⟩
    obtain ⟨first,received,outPt,probation,maxSeq,cycles⟩ := passes positive
    obtain ⟨settles,-⟩ := @secondPacket one.1 start (ssrc (start + 1)) received probation maxSeq cycles
    obtain ⟨second,received',outPt',counts⟩ := settles room
    rw [show one.1.outPt = pt from outPt] at second received' outPt' counts
    obtain ⟨counts',count,statuses⟩ := receiveCounts pt ssrc m other.1 counts outPt'
      (by rw [received']; decide) (by omega) (by rw [received']; omega)
    have plain : ∀ status ∈ other.2 :: rest.2, status = { diff := 1 } := by
      intro status inside
      rcases List.mem_cons.mp inside with rfl | later
      · exact second
      · exact statuses status later
    rw [show defaultPt % 2 ^ 16 = pt from rfl,run]
    refine ⟨?_,?_,counts'.settled,?_,?_,?_⟩
    · intro status inside
      rcases List.mem_cons.mp inside with rfl | later
      · rw [show one.2 = _ from first]
        exact ⟨rfl,rfl⟩
      · rw [plain status later]
        exact ⟨rfl,rfl⟩
    · intro i status found
      cases i with
      | zero =>
        have same : one.2 = status := Option.some.inj found
        rw [← same,show one.2 = _ from first]
        exact ⟨fun _ => rfl,fun _ => rfl⟩
      | succ i =>
        rw [plain status (List.mem_of_getElem? found)]
        exact ⟨fun set => absurd set (by decide),fun zero => absurd zero (Nat.succ_ne_zero i)⟩
    · intro i status later found
      cases i with
      | zero => exact absurd later (Nat.lt_irrefl 0)
      | succ => rw [plain status (List.mem_of_getElem? found)]
    · rw [show rest.1.received = _ from count,received']
      omega
    · rw [show rest.1.seqCtrl.cycles = _ from counts'.cycles]
      congr 2
      omega

/- A start at 65530 passes the wrap after the probation. -/
theorem wrapAfterProbation :
    Judged 65530 10 (receive true (Session.init 8 none) (inSequence 8 (fun _ => 7) 65530 10)) :=
  (inOrderJudged 8 none (fun _ => 7) 65530 10 (by decide) (by decide)).mpr ⟨by decide,by decide,by decide⟩

/- The second of two packets is flagged when it is the one after the wrap. -/
theorem wrapInProbation :
    ¬ Judged 65535 2 (receive true (Session.init 8 none) (inSequence 8 (fun _ => 7) 65535 2)) := by
  intro judged
  have flags : (receive true (Session.init 8 none) (inSequence 8 (fun _ => 7) 65535 2)).2 =
      [{ probation := true, diff := 1 },{ probation := true, bad := true, outorder := true }] := by
    decide +kernel
  have good := (judged.unflagged { probation := true, bad := true, outorder := true }
    (by rw [flags]; exact List.mem_cons_of_mem _ List.mem_cons_self)).1
  exact absurd good (by decide)

end Pjproject.Rtp
