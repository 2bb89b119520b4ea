import Pjproject.SdpModel

/-! A local offer that modifies the session, fixed so that its media lines stand where they stood. -/
namespace Pjproject.SdpNeg
open Multipart (Text ascii)

structure Neg where
  state : Sdp.NegState
  initialSdp : Option Session
  initialSdpTmp : Option Session
  activeLocalSdp : Option Session
  negLocalSdp : Option Session
  deriving DecidableEq, Repr

section Model

/- pj_array_insert of array.c: the element at `count` is written over, or what is behind a full array. -/
def arrayInsert {α : Type} (array : List α) (count pos : Nat) (value : α) : List α :=
  array.take pos ++ value :: ((array.drop pos).take (count - pos) ++ array.drop (count + 1))

/- The first line of that type from `oi` on. -/
def findMedia (media : List Media) (oi : Nat) (type : Text) : Option Nat :=
  ((media.drop oi).findIdx? (·.media = type)).map (oi + ·)

/- The line of the old offer at `oi` gets the first line of its type, or a deactivated copy. -/
def fixMediaAt (localSdp : Session) (oi : Nat) (om : Media) (new : List Media) : List Media :=
  match findMedia new oi om.media with
  | some ni =>
    match new[ni]? with
    | some nm => if ni ≠ oi then arrayInsert new ni oi nm else new
    | none => new
  | none => arrayInsert new new.length oi (om.cloneDeactivate om localSdp)

def fixMedia (localSdp : Session) : Nat → List Media → List Media → List Media
  | _, [], new => new
  | oi, om :: old, new => fixMedia localSdp (oi + 1) old (fixMediaAt localSdp oi om new)

/- With a change of types allowed, only the lines that are missing at the end. -/
def addMedia (localSdp : Session) (old new : List Media) : List Media :=
  new ++ (old.drop new.length).map fun om => om.cloneDeactivate om localSdp

/- pjmedia_sdp_neg_modify_local_offer2; none reads the active description where there is none. -/
def Neg.modifyLocalOffer2 (neg : Neg) (allowMediaChange : Bool) (localSdp : Session) : Option (Except Status Neg) :=
  if neg.state ≠ .done then some (.error .negEinstate)
  else
    match validate localSdp with
    | .error e => some (.error e)
    | .ok () =>
      match neg.activeLocalSdp with
      | none => none
      | some old =>
        let origin := { old.origin with version := old.origin.version + 1 }
        let media :=
          if allowMediaChange then addMedia localSdp old.media localSdp.media
          else fixMedia localSdp 0 old.media localSdp.media
        let offer := { localSdp with origin, media }
        some (.ok { neg with
          state := .localOffer
          initialSdpTmp := neg.initialSdp
          initialSdp := some offer
          negLocalSdp := some offer })

end Model

/- The types of the old lines stay in place, and the lines are those of the local description with deactivated copies
of old ones. -/
structure KeepsSlots (old localSdp offer : Session) : Prop where
  types : ∀ oi < old.media.length, offer.media[oi]?.map Media.media = old.media[oi]?.map Media.media
  lines : ∃ added, offer.media.Perm (localSdp.media ++ added) ∧
    ∀ m ∈ added, ∃ om ∈ old.media, m = om.cloneDeactivate om localSdp
  count : offer.media.length ≤ maxSdpMedia

/- The types of old lines that the local description has no line for. -/
def missing (old localSdp : Session) : List Text := (old.media.map Media.media).diff (localSdp.media.map Media.media)

section Fixing

variable {localSdp : Session}

/- One step, on the lines that are not yet placed: the first line of the type goes to the front, or a copy does. -/
inductive Placed (localSdp : Session) (om : Media) : List Media → Media → List Media → Prop where
  | moved (front : List Media) (nm : Media) (back : List Media) (same : nm.media = om.media)
      (first : ∀ m ∈ front, m.media ≠ om.media) : Placed localSdp om (front ++ nm :: back) nm (front ++ back)
  | added (rest : List Media) (absent : ∀ m ∈ rest, m.media ≠ om.media) :
      Placed localSdp om rest (om.cloneDeactivate om localSdp) rest

theorem arrayInsertMoves {α : Type} (done front back : List α) (x : α) :
    arrayInsert (done ++ (front ++ x :: back)) (done.length + front.length) done.length x =
      done ++ x :: (front ++ back) := by
  unfold arrayInsert
  rw [List.take_left,List.drop_left,Nat.add_sub_cancel_left,List.take_left,← List.append_assoc,
    ← List.length_append,List.drop_append]
  simp

theorem fixMediaAtPlaced (om : Media) (done rest : List Media) :
    ∃ m tail, fixMediaAt localSdp done.length om (done ++ rest) = done ++ m :: tail ∧
      Placed localSdp om rest m tail := by
  unfold fixMediaAt findMedia
  rw [List.drop_left]
  cases found : rest.findIdx? (·.media = om.media) with
  | none =>
    have absent : ∀ m ∈ rest, m.media ≠ om.media := by simpa using List.findIdx?_eq_none_iff.mp found
    refine ⟨_,_,?_,.added rest absent⟩
    simp [arrayInsert]
  | some k =>
    obtain ⟨inside,same,first⟩ := List.findIdx?_eq_some_iff_getElem.mp found
    have before : ∀ m ∈ rest.take k, m.media ≠ om.media := by
      intro m mem
      obtain ⟨j,bound,rfl⟩ := List.mem_take_iff_getElem.mp mem
      simpa using first j (by omega)
    have whole : rest = rest.take k ++ rest[k] :: rest.drop (k + 1) := by
      rw [List.cons_getElem_drop_succ,List.take_append_drop]
    have length : (rest.take k).length = k := List.length_take_of_le (Nat.le_of_lt inside)
    generalize rest[k] = nm at whole same
    generalize rest.take k = front at before whole length
    generalize rest.drop (k + 1) = back at whole
    subst whole length
    refine ⟨nm,front ++ back,?_,.moved front nm back (by simpa using same) before⟩
    have here : (done ++ (front ++ nm :: back))[done.length + front.length]? = some nm := by
      rw [List.getElem?_append_right (Nat.le_add_right _ _),Nat.add_sub_cancel_left]
      simp
    simp only [Option.map_some,here]
    split
    · exact arrayInsertMoves done front back nm
    · next zero =>
      obtain rfl : front = [] := List.length_eq_zero_iff.mp (by omega)
      rfl

theorem Placed.type {om m : Media} {rest tail : List Media} (placed : Placed localSdp om rest m tail) :
    m.media = om.media := by
  cases placed with
  | moved front nm back same => exact same
  | added =>
    unfold Media.cloneDeactivate
    dsimp only
    split <;> rfl

/- The old lines that are added to the unplaced ones. -/
structure Filled (localSdp : Session) (old rest final : List Media) (added : List Media) : Prop where
  lines : final.Perm (rest ++ added)
  copies : ∀ m ∈ added, ∃ om ∈ old, m = om.cloneDeactivate om localSdp
  count : added.length = ((old.map Media.media).diff (rest.map Media.media)).length

theorem Placed.filled {om m : Media} {old rest tail final added : List Media}
    (placed : Placed localSdp om rest m tail) (filled : Filled localSdp old tail final added) :
    ∃ added, Filled localSdp (om :: old) rest (m :: final) added := by
  obtain ⟨lines,copies,count⟩ := filled
  have later : ∀ m ∈ added, ∃ om' ∈ om :: old, m = om'.cloneDeactivate om' localSdp := fun m mem =>
    have ⟨om',older,copy⟩ := copies m mem
    ⟨om',List.mem_cons_of_mem _ older,copy⟩
  cases placed with
  | moved front nm back same first =>
    refine ⟨added,?_,later,?_⟩
    · rw [List.append_assoc,List.cons_append]
      rw [List.append_assoc] at lines
      exact (lines.cons m).trans List.perm_middle.symm
    · have absent : om.media ∉ front.map Media.media := fun mem =>
        have ⟨m,inside,type⟩ := List.mem_map.mp mem
        first m inside type
      have types : (front ++ m :: back).map Media.media =
          front.map Media.media ++ om.media :: back.map Media.media := by
        simp [same]
      rw [count,List.map_cons,List.cons_diff,types,if_pos (by simp),List.erase_append_right _ absent,
        List.erase_cons_head,List.map_append]
  | added rest absent =>
    refine ⟨om.cloneDeactivate om localSdp :: added,?_,?_,?_⟩
    · exact (lines.cons _).trans List.perm_middle.symm
    · exact List.forall_mem_cons.mpr ⟨⟨om,List.mem_cons_self ..,rfl⟩,later⟩
    · have none : om.media ∉ rest.map Media.media := fun mem =>
        have ⟨m,inside,type⟩ := List.mem_map.mp mem
        absent m inside type
      rw [List.length_cons,count,List.map_cons,List.cons_diff,if_neg none,List.length_cons]

theorem fixMediaFills (old done rest : List Media) :
    ∃ placed final added, fixMedia localSdp done.length old (done ++ rest) = done ++ (placed ++ final) ∧
      placed.map Media.media = old.map Media.media ∧ Filled localSdp old rest (placed ++ final) added := by
  induction old generalizing done rest with
  | nil => exact ⟨[],rest,[],rfl,rfl,by simp,by simp,by simp⟩
  | cons om old ih =>
    obtain ⟨m,tail,fixed,placed⟩ := fixMediaAtPlaced om done rest
    obtain ⟨others,final,added,run,types,filled⟩ := ih (done ++ [m]) tail
    obtain ⟨added,filled⟩ := placed.filled filled
    refine ⟨m :: others,final,added,?_,?_,filled⟩
    · have step : fixMedia localSdp done.length (om :: old) (done ++ rest) =
          fixMedia localSdp (done ++ [m]).length old (done ++ [m] ++ tail) := by
        rw [fixMedia,fixed]
        simp
      rw [step,run]
      simp
    · rw [List.map_cons,placed.type,types,List.map_cons]

theorem Filled.length {old rest final added : List Media} (filled : Filled localSdp old rest final added) :
    final.length = rest.length + ((old.map Media.media).diff (rest.map Media.media)).length := by
  rw [filled.lines.length_eq,List.length_append,filled.count]

end Fixing

section Offer

variable {neg : Neg} {old localSdp : Session}

theorem modifyLocalOffer2Offers (state : neg.state = .done) (active : neg.activeLocalSdp = some old)
    (valid : validate localSdp = .ok ()) :
    ∃ next offer, neg.modifyLocalOffer2 false localSdp = some (.ok next) ∧ next.initialSdp = some offer ∧
      next.negLocalSdp = some offer ∧ offer.media = fixMedia localSdp 0 old.media localSdp.media := by
  unfold Neg.modifyLocalOffer2
  rw [if_neg (not_not_intro state),valid,active]
  exact ⟨_,_,rfl,rfl,rfl,rfl⟩

/- The slots are kept exactly when there is room for the lines that are missing. -/
theorem reofferKeepsSlots (state : neg.state = .done) (active : neg.activeLocalSdp = some old)
    (valid : validate localSdp = .ok ()) :
    ∃ next offer, neg.modifyLocalOffer2 false localSdp = some (.ok next) ∧ next.initialSdp = some offer ∧
      next.negLocalSdp = some offer ∧
      (KeepsSlots old localSdp offer ↔ localSdp.media.length + (missing old localSdp).length ≤ maxSdpMedia) := by
  obtain ⟨next,offer,done,initial,negotiated,media⟩ := modifyLocalOffer2Offers state active valid
  obtain ⟨placed,final,added,run,types,filled⟩ :=
    @fixMediaFills localSdp old.media [] localSdp.media
  rw [List.nil_append,List.nil_append] at run
  have media := media.trans run
  have length := filled.length
  rw [← media] at length
  refine ⟨next,offer,done,initial,negotiated,fun keeps => length ▸ keeps.count,fun room => ⟨?_,?_,?_⟩⟩
  · intro oi inside
    have placedLength : placed.length = old.media.length := by
      have same := congrArg List.length types
      simpa using same
    rw [media,List.getElem?_append_left (placedLength ▸ inside),← List.getElem?_map,← List.getElem?_map,types]
  · exact ⟨added,media ▸ filled.lines,filled.copies⟩
  · rw [length]
    exact room

end Offer

section Sessions

def line (type : String) (fmt : String) : Media :=
  ⟨ascii type,4000,0,ascii "RTP/AVP",[ascii fmt],none,[],[]⟩

def established (active : Session) : Neg :=
  ⟨.done,some active,none,some active,none⟩

/- A session with an audio and a video line goes on with an audio line. -/
theorem audioReoffered : ∃ next offer,
    (established (sessionOf [line "audio" "0",line "video" "31"])).modifyLocalOffer2 false
      (sessionOf [line "audio" "8"]) = some (.ok next) ∧ next.initialSdp = some offer ∧
    KeepsSlots (sessionOf [line "audio" "0",line "video" "31"]) (sessionOf [line "audio" "8"]) offer := by
  have valid : validate (sessionOf [line "audio" "8"]) = .ok () := by decide +kernel
  obtain ⟨next,offer,done,initial,_,keeps⟩ :=
    @reofferKeepsSlots (established (sessionOf [line "audio" "0",line "video" "31"])) _ _ rfl rfl valid
  exact ⟨next,offer,done,initial,keeps.mpr (by decide +kernel)⟩

def sixteenAudio : Session := sessionOf (List.replicate 16 (line "audio" "0"))

/- Sixteen audio lines, and a video line that is missing: seventeen are put into an array of sixteen. -/
theorem seventeenLines : validate sixteenAudio = .ok () ∧ ∃ next offer,
    (established (sessionOf [line "video" "31"])).modifyLocalOffer2 false sixteenAudio = some (.ok next) ∧
      next.initialSdp = some offer ∧ offer.media.length = 17 ∧
      ¬KeepsSlots (sessionOf [line "video" "31"]) sixteenAudio offer := by
  have valid : validate sixteenAudio = .ok () := by decide +kernel
  obtain ⟨next,offer,done,initial,_,media⟩ :=
    @modifyLocalOffer2Offers (established (sessionOf [line "video" "31"])) _ _ rfl rfl valid
  have length : offer.media.length = 17 := by
    rw [media]
    decide +kernel
  refine ⟨valid,next,offer,done,initial,length,fun keeps => ?_⟩
  have count := keeps.count
  rw [length] at count
  contradiction

end Sessions

end Pjproject.SdpNeg
