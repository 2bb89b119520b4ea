import Pjproject.IcePairs

/-! Whether a session can get stuck. A check in progress waits for a request, an open check for the timer of the check
list, and a session whose checks are all completed for its own timer. -/
namespace Pjproject.Ice

def CheckState.isOpen (state : CheckState) : Bool := state.num < CheckState.inProgress.num

def Session.states (ice : Session) : List CheckState := ice.clist.map Check.state

/- The pairs stay, and no check comes into progress. -/
structure Calmer (old new : List Check) : Prop where
  keys : new.map Check.key = old.map Check.key
  running : ∀ (i : Nat) (c : Check), new[i]? = some c → c.state = .inProgress →
    ∃ d, old[i]? = some d ∧ d.state = .inProgress ∧ d.tdata = c.tdata

variable (list : List Check) (net : Network)

theorem calmerRefl : Calmer list list := ⟨rfl,fun _ c here progress => ⟨c,here,progress,rfl⟩⟩

theorem Calmer.trans {a b c : List Check} (first : Calmer a b) (next : Calmer b c) : Calmer a c := by
  refine ⟨next.keys.trans first.keys,?_⟩
  intro i x here progress
  obtain ⟨y,there,running,tdata⟩ := next.running i x here progress
  obtain ⟨z,old,was,value⟩ := first.running i y there running
  exact ⟨z,old,was,value.trans tdata⟩

theorem calmerModify (i : Nat) (f : Check → Check) (keys : ∀ c, (f c).key = c.key)
    (running : ∀ c, list[i]? = some c → (f c).state = .inProgress → c.state = .inProgress ∧ c.tdata = (f c).tdata) :
    Calmer list (list.modify i f) := by
  refine ⟨mapModify list i f Check.key (fun c _ => keys c),?_⟩
  intro j c here progress
  rw [List.getElem?_modify] at here
  split at here
  · rename_i place
    subst place
    obtain ⟨d,there,rfl⟩ := Option.map_eq_some_iff.mp here
    obtain ⟨was,tdata⟩ := running d there progress
    exact ⟨d,there,was,tdata⟩
  · have here : list[j]? = some c := by simpa using here
    exact ⟨c,here,progress,rfl⟩

theorem calmerMap (f : Check → Check) (keys : ∀ c, (f c).key = c.key)
    (running : ∀ c, (f c).state = .inProgress → c.state = .inProgress ∧ c.tdata = (f c).tdata) :
    Calmer list (list.map f) := by
  refine ⟨?_,?_⟩
  · rw [List.map_map]
    exact List.map_congr_left (fun c _ => keys c)
  · intro i c here progress
    rw [List.getElem?_map] at here
    obtain ⟨d,there,rfl⟩ := Option.map_eq_some_iff.mp here
    obtain ⟨was,tdata⟩ := running d progress
    exact ⟨d,there,was,tdata⟩

/- What the arrays, the requests and the timers of a session have to do with each other. One check is busy while its
completed request is handled. -/
structure Sound (busy : Option Nat) (ice : Session) : Prop where
  distinct : ice.requests.Pairwise (fun a b => a.tdata ≠ b.tdata)
  bounded : ∀ r ∈ ice.requests, r.tdata < ice.created
  placed : ∀ r ∈ ice.requests, ∃ k, (ice.clist.map Check.key)[r.ckid]? = some k ∧ k.1 = r.transportId
  attended : ∀ (i : Nat) (c : Check), busy ≠ some i → ice.clist[i]? = some c → c.state = .inProgress →
    ∃ r ∈ ice.requests, r.ckid = i ∧ c.tdata = some r.tdata
  goes : ∀ v ∈ ice.validList, v.key ∈ ice.clist.map Check.key
  points : ∀ c ∈ ice.comp, ∀ p, c.validCheck = some p → p < ice.validList.length
  delayed : ice.timer = .startNominatedCheck → ice.comp ≠ [] ∧ ice.allValid = true
  finished : ice.timer = .completionCallback ∨ ice.timer = .keepAlive → ice.isComplete = true

section Soundness

variable {busy : Option Nat} {ice : Session}

theorem Sound.unique (sound : Sound busy ice) {a b : Request} (left : a ∈ ice.requests) (right : b ∈ ice.requests)
    (same : a.tdata = b.tdata) : a = b := by
  by_contra differ
  have symmetric : Std.Symm (fun a b : Request => a.tdata ≠ b.tdata) := ⟨fun _ _ h => Ne.symm h⟩
  exact sound.distinct.forall left right differ same

variable {out : Session}

theorem Sound.calmer (sound : Sound busy ice) {clist : List Check} (calmer : Calmer ice.clist clist)
    (isClist : out.clist = clist) (requests : out.requests = ice.requests) (created : out.created = ice.created)
    (validList : out.validList = ice.validList) (comp : out.comp = ice.comp) (timer : out.timer = ice.timer)
    (isComplete : out.isComplete = ice.isComplete) : Sound busy out := by
  refine ⟨?_,?_,?_,?_,?_,?_,?_,?_⟩
  · rw [requests]
    exact sound.distinct
  · rw [requests,created]
    exact sound.bounded
  · rw [requests,isClist,calmer.keys]
    exact sound.placed
  · intro i c other here progress
    rw [isClist] at here
    obtain ⟨d,there,was,tdata⟩ := calmer.running i c here progress
    obtain ⟨r,member,place,value⟩ := sound.attended i d other there was
    exact ⟨r,requests ▸ member,place,tdata.symm.trans value⟩
  · rw [validList,isClist,calmer.keys]
    exact sound.goes
  · rw [comp,validList]
    exact sound.points
  · unfold Session.allValid
    rw [timer,comp]
    exact sound.delayed
  · rw [timer,isComplete]
    exact sound.finished

theorem Sound.same (sound : Sound busy ice) (clist : out.clist = ice.clist)
    (requests : out.requests = ice.requests) (created : out.created = ice.created)
    (validList : out.validList = ice.validList) (comp : out.comp = ice.comp) (timer : out.timer = ice.timer)
    (isComplete : out.isComplete = ice.isComplete) : Sound busy out :=
  sound.calmer (calmerRefl ice.clist) clist requests created validList comp timer isComplete

theorem Sound.timed (sound : Sound busy ice) (timer : TimerId) (isComplete : Bool)
    (delayed : timer = .startNominatedCheck → ice.comp ≠ [] ∧ ice.allValid = true)
    (finished : timer = .completionCallback ∨ timer = .keepAlive → isComplete = true)
    (isTimer : out.timer = timer) (completes : out.isComplete = isComplete) (clist : out.clist = ice.clist)
    (requests : out.requests = ice.requests) (created : out.created = ice.created)
    (validList : out.validList = ice.validList) (comp : out.comp = ice.comp) : Sound busy out := by
  refine ⟨?_,?_,?_,?_,?_,?_,?_,?_⟩
  · rw [requests]
    exact sound.distinct
  · rw [requests,created]
    exact sound.bounded
  · rw [requests,clist]
    exact sound.placed
  · rw [clist,requests]
    exact sound.attended
  · rw [validList,clist]
    exact sound.goes
  · rw [comp,validList]
    exact sound.points
  · unfold Session.allValid at *
    rw [isTimer,comp]
    exact delayed
  · rw [isTimer,completes]
    exact finished

theorem Sound.onIceComplete (sound : Sound busy ice) (status : Nat) : Sound busy (ice.onIceComplete status) := by
  unfold Session.onIceComplete
  split
  · exact sound
  · exact sound.timed .completionCallback true (fun other => absurd other (by decide)) (fun _ => rfl) rfl rfl rfl rfl rfl
      rfl rfl

theorem Sound.setBusy {i : Nat} (sound : Sound (some i) ice) (state : CheckState) (errCode : Nat)
    (after : state ≠ .inProgress) : Sound none (ice.checkSetState i state errCode) := by
  refine ⟨sound.distinct,sound.bounded,?_,?_,?_,sound.points,sound.delayed,sound.finished⟩
  · intro r member
    change ∃ k, ((ice.clist.modify i (fun c => { c with state := state, errCode := errCode })).map Check.key)[r.ckid]? =
      some k ∧ k.1 = r.transportId
    rw [mapModify ice.clist i (fun c => { c with state := state, errCode := errCode }) Check.key (fun _ _ => rfl)]
    exact sound.placed r member
  · intro j c _ here progress
    change (ice.clist.modify i (fun c => { c with state := state, errCode := errCode }))[j]? = some c at here
    rw [List.getElem?_modify] at here
    split at here
    · obtain ⟨d,_,rfl⟩ := Option.map_eq_some_iff.mp here
      exact absurd progress after
    · rename_i differ
      have here : ice.clist[j]? = some c := by simpa using here
      exact sound.attended j c (fun same => differ (Option.some.inj same)) here progress
  · change ∀ v ∈ ice.validList,
      v.key ∈ (ice.clist.modify i (fun c => { c with state := state, errCode := errCode })).map Check.key
    rw [mapModify ice.clist i (fun c => { c with state := state, errCode := errCode }) Check.key (fun _ _ => rfl)]
    exact sound.goes

theorem Sound.setIdle (sound : Sound busy ice) (i : Nat) (state : CheckState) (errCode : Nat)
    (after : state ≠ .inProgress) : Sound busy (ice.checkSetState i state errCode) :=
  sound.calmer (calmerModify ice.clist i (fun c => { c with state := state, errCode := errCode }) (fun _ => rfl)
    (fun _ _ progress => absurd progress after)) rfl rfl rfl rfl rfl rfl rfl

theorem Sound.performCheck (sound : Sound none ice) (net : Network) (i : Nat) (c : Check) (nominate : Bool)
    (here : ice.clist[i]? = some c) (idle : c.state ≠ .inProgress) :
    Sound none (ice.performCheck net i nominate).2 := by
  have kept : ∀ flag : Bool, ∀ d, ice.clist[i]? = some d →
      ({ d with nominated := d.nominated || flag } : Check).state = .inProgress →
      d.state = .inProgress ∧ d.tdata = ({ d with nominated := d.nominated || flag } : Check).tdata :=
    fun _ _ _ progress => ⟨progress,rfl⟩
  unfold Session.performCheck
  simp only [here]
  generalize requestIs : ice.request i c nominate = req
  have number : req.tdata = ice.created := by
    rw [← requestIs]
    rfl
  have index : req.ckid = i := by
    rw [← requestIs]
    rfl
  have transport : req.transportId = c.lcand.transportId := by
    rw [← requestIs]
    rfl
  have made : Sound none { ice with created := ice.created + 1 } :=
    ⟨sound.distinct,fun r member => Nat.lt_succ_of_lt (sound.bounded r member),sound.placed,sound.attended,
      sound.goes,sound.points,sound.delayed,sound.finished⟩
  have marks := calmerModify ice.clist i (fun c => { c with nominated := c.nominated || req.useCandidate })
    (fun _ => rfl) (kept req.useCandidate)
  split
  · exact made
  · refine made.calmer (marks.trans (calmerModify _ i (fun c => { c with tdata := none }) (fun _ => rfl) ?_)) rfl rfl rfl
      rfl rfl rfl rfl
    intro d there progress
    rw [List.getElem?_modify_eq,here] at there
    obtain rfl := Option.some.inj there
    exact absurd progress idle
  · have keys : ((((ice.clist.modify i (fun c => { c with nominated := c.nominated || req.useCandidate })).modify i
        (fun c => { c with tdata := some req.tdata })).modify i
        (fun c => { c with state := .inProgress, errCode := 0 })).map Check.key) = ice.clist.map Check.key := by
      rw [mapModify _ i (fun c => { c with state := .inProgress, errCode := 0 }) Check.key (fun _ _ => rfl),
        mapModify _ i (fun c => { c with tdata := some req.tdata }) Check.key (fun _ _ => rfl),marks.keys]
    refine ⟨?_,?_,?_,?_,?_,sound.points,sound.delayed,sound.finished⟩
    · refine List.pairwise_append.mpr ⟨sound.distinct,List.pairwise_singleton _ _,?_⟩
      intro a member b new
      obtain rfl := List.mem_singleton.mp new
      have below := sound.bounded a member
      omega
    · intro r member
      change r.tdata < ice.created + 1
      rcases List.mem_append.mp member with old | new
      · exact Nat.lt_succ_of_lt (sound.bounded r old)
      · obtain rfl := List.mem_singleton.mp new
        omega
    · intro r member
      change ∃ k, ((((ice.clist.modify i _).modify i _).modify i _).map Check.key)[r.ckid]? = some k ∧ k.1 = r.transportId
      rw [keys]
      rcases List.mem_append.mp member with old | new
      · exact sound.placed r old
      · obtain rfl := List.mem_singleton.mp new
        refine ⟨c.key,?_,transport.symm⟩
        rw [index,List.getElem?_map,here]
        rfl
    · intro j d _ there progress
      change (((ice.clist.modify i (fun c => { c with nominated := c.nominated || req.useCandidate })).modify i
        (fun c => { c with tdata := some req.tdata })).modify i
        (fun c => { c with state := .inProgress, errCode := 0 }))[j]? = some d at there
      by_cases place : i = j
      · subst place
        rw [List.getElem?_modify_eq,List.getElem?_modify_eq,List.getElem?_modify_eq,here] at there
        obtain rfl := Option.some.inj there
        exact ⟨req,List.mem_append_right _ (List.mem_singleton.mpr rfl),index,rfl⟩
      · rw [List.getElem?_modify_ne _ _ place,List.getElem?_modify_ne _ _ place,
          List.getElem?_modify_ne _ _ place] at there
        obtain ⟨r,member,rest⟩ := sound.attended j d nofun there progress
        exact ⟨r,List.mem_append_left _ member,rest⟩
    · change ∀ v ∈ ice.validList, v.key ∈ (((ice.clist.modify i _).modify i _).modify i _).map Check.key
      rw [keys]
      exact sound.goes

theorem Sound.released (sound : Sound none ice) (req : Request) (member : req ∈ ice.requests) :
    Sound (some req.ckid) (ice.released req) := by
  refine ⟨sound.distinct.filter _,fun r inside => sound.bounded r (List.mem_of_mem_filter inside),?_,?_,?_,
    sound.points,sound.delayed,sound.finished⟩
  · intro r inside
    change ∃ k, ((ice.clist.modify req.ckid (fun c => { c with tdata := none })).map Check.key)[r.ckid]? = some k ∧
      k.1 = r.transportId
    rw [mapModify ice.clist req.ckid (fun c => { c with tdata := none }) Check.key (fun _ _ => rfl)]
    exact sound.placed r (List.mem_of_mem_filter inside)
  · intro j c other here progress
    have differ : req.ckid ≠ j := fun same => other (congrArg some same)
    change (ice.clist.modify req.ckid (fun c => { c with tdata := none }))[j]? = some c at here
    rw [List.getElem?_modify_ne _ _ differ] at here
    obtain ⟨r,old,place,value⟩ := sound.attended j c nofun here progress
    refine ⟨r,List.mem_filter.mpr ⟨old,?_⟩,place,value⟩
    have unlike : r.tdata ≠ req.tdata := by
      intro same
      obtain rfl := sound.unique old member same
      exact differ place
    simpa using unlike
  · change ∀ v ∈ ice.validList, v.key ∈ (ice.clist.modify req.ckid (fun c => { c with tdata := none })).map Check.key
    rw [mapModify ice.clist req.ckid (fun c => { c with tdata := none }) Check.key (fun _ _ => rfl)]
    exact sound.goes

theorem failPendingRunning (compId : Nat) (c : Check) (progress : (failPending compId c).state = .inProgress) :
    failPending compId c = c ∧ cancels compId c = false := by
  unfold failPending at *
  split at progress
  · contradiction
  · rename_i late
    split at progress
    · contradiction
    · rename_i kept
      rw [if_neg late,if_neg kept]
      exact ⟨rfl,Bool.eq_false_iff.mpr kept⟩

theorem failPendingKey (compId : Nat) (c : Check) : (failPending compId c).key = c.key := by
  have same := failPendingBody compId c
  simp only [Check.body,Prod.mk.injEq] at same
  unfold Check.key
  rw [same.1,same.2.1]

theorem Sound.dropPending (sound : Sound none ice) (compId : Nat) : Sound none (ice.dropPending compId) := by
  have calmer : Calmer ice.clist (ice.clist.map (failPending compId)) := by
    refine calmerMap ice.clist _ (failPendingKey compId) ?_
    intro c progress
    have same := (failPendingRunning compId c progress).1
    rw [same] at progress ⊢
    exact ⟨progress,rfl⟩
  refine ⟨sound.distinct.filter _,fun r inside => sound.bounded r (List.mem_of_mem_filter inside),?_,?_,?_,
    sound.points,sound.delayed,sound.finished⟩
  · intro r inside
    change ∃ k, ((ice.clist.map (failPending compId)).map Check.key)[r.ckid]? = some k ∧ k.1 = r.transportId
    rw [calmer.keys]
    exact sound.placed r (List.mem_of_mem_filter inside)
  · intro j c _ here progress
    change (ice.clist.map (failPending compId))[j]? = some c at here
    rw [List.getElem?_map] at here
    obtain ⟨d,there,rfl⟩ := Option.map_eq_some_iff.mp here
    obtain ⟨same,kept⟩ := failPendingRunning compId d progress
    rw [same] at progress ⊢
    obtain ⟨r,old,place,value⟩ := sound.attended j d nofun there progress
    refine ⟨r,List.mem_filter.mpr ⟨old,?_⟩,place,value⟩
    -- a request that is dropped belongs to a check that is cancelled
    have stays : r.tdata ∉ (ice.clist.filter (cancels compId)).filterMap Check.tdata := by
      intro gone
      obtain ⟨e,listed,number⟩ := List.mem_filterMap.mp gone
      obtain ⟨inside,cancelled⟩ := List.mem_filter.mp listed
      obtain ⟨k,at'⟩ := List.mem_iff_getElem?.mp inside
      have running : e.state = .inProgress := by
        simp only [cancels,Bool.and_eq_true,decide_eq_true_eq] at cancelled
        exact cancelled.1.2
      obtain ⟨s,other,sPlace,sValue⟩ := sound.attended k e nofun at' running
      obtain rfl := sound.unique other old (Option.some.inj (sValue.symm.trans number))
      have index : k = j := sPlace.symm.trans place
      subst index
      obtain rfl := Option.some.inj (at'.symm.trans there)
      rw [kept] at cancelled
      contradiction
    simpa using stays
  · change ∀ v ∈ ice.validList, v.key ∈ (ice.clist.map (failPending compId)).map Check.key
    rw [calmer.keys]
    exact sound.goes

end Soundness

theorem resetCheckOnly (ice : Session) (valid : Check) :
    ∃ clist misused, ice.resetCheck valid = { ice with clist := clist, misused := misused } ∧ Calmer ice.clist clist ∧
      (CheckState.waiting ∈ ice.states ∨ valid.key ∈ ice.clist.map Check.key → .waiting ∈ clist.map Check.state) := by
  unfold Session.resetCheck
  cases found : ice.goesWith valid with
  | none =>
    refine ⟨ice.clist,ice.misused,rfl,calmerRefl ice.clist,?_⟩
    rintro (waits | listed)
    · exact waits
    · rw [goesWithKeys,List.findIdx?_eq_none_iff] at found
      have differs := found valid.key listed
      simp at differs
  | some j =>
    have calmer := (calmerModify ice.clist j (fun c => { c with state := .frozen }) (fun _ => rfl)
        (fun _ _ progress => nomatch progress)).trans
      (calmerModify _ j (fun c => { c with state := .waiting, errCode := 0 }) (fun _ => rfl)
        (fun _ _ progress => nomatch progress))
    refine ⟨_,_,rfl,calmer,fun _ => ?_⟩
    have within : j < ice.clist.length := (List.findIdx?_eq_some_iff_getElem.mp found).1
    have set : ((ice.clist.modify j (fun c => { c with state := .frozen })).modify j
        (fun c => { c with state := .waiting, errCode := 0 }))[j]? =
        some { ice.clist[j] with state := .waiting, errCode := 0 } := by
      rw [List.getElem?_modify_eq,List.getElem?_modify_eq,List.getElem?_eq_getElem within]
      rfl
    have listed := List.mem_map_of_mem (f := Check.state) (List.mem_of_getElem? set)
    exact listed

theorem resetAllOnly (valids : List Check) (ice : Session) :
    ∃ clist misused, valids.foldl Session.resetCheck ice = { ice with clist := clist, misused := misused } ∧
      Calmer ice.clist clist ∧
      (CheckState.waiting ∈ ice.states ∨ (∃ v ∈ valids, v.key ∈ ice.clist.map Check.key) →
        .waiting ∈ clist.map Check.state) := by
  induction valids generalizing ice with
  | nil =>
    refine ⟨ice.clist,ice.misused,rfl,calmerRefl ice.clist,?_⟩
    rintro (waits | ⟨v,member,_⟩)
    · exact waits
    · exact absurd member List.not_mem_nil
  | cons v rest ih =>
    obtain ⟨clist,misused,here,calmer,waits⟩ := resetCheckOnly ice v
    obtain ⟨final,last,result,next,goes⟩ := ih { ice with clist := clist, misused := misused }
    refine ⟨final,last,?_,calmer.trans next,?_⟩
    · rw [List.foldl_cons,here,result]
    · rintro (old | ⟨w,member,listed⟩)
      · exact goes (.inl (waits (.inl old)))
      · rcases List.mem_cons.mp member with rfl | later
        · exact goes (.inl (waits (.inr listed)))
        · refine goes (.inr ⟨w,later,?_⟩)
          rw [calmer.keys]
          exact listed

theorem startNominatedCheckOnly (ice : Session) :
    ∃ clist misused, ice.startNominatedCheck =
      { ice with
        clist := clist, misused := misused, clistTimer := true, isNominating := true
        timer := if ice.timer = .startNominatedCheck then .none else ice.timer } ∧
      Calmer ice.clist clist ∧
      ((∃ v ∈ ice.validChecks, v.key ∈ ice.clist.map Check.key) → .waiting ∈ clist.map Check.state) := by
  have reset : ∀ start : Session, start.validChecks = ice.validChecks → start.clist = ice.clist →
      ∃ clist misused, { start.validChecks.foldl Session.resetCheck start with clistTimer := true, isNominating := true } =
        { start with clist := clist, misused := misused, clistTimer := true, isNominating := true } ∧
      Calmer ice.clist clist ∧
      ((∃ v ∈ ice.validChecks, v.key ∈ ice.clist.map Check.key) → .waiting ∈ clist.map Check.state) := by
    intro start valids listed
    obtain ⟨clist,misused,made,calmer,waits⟩ := resetAllOnly start.validChecks start
    rw [listed] at calmer waits
    rw [valids] at waits
    refine ⟨clist,misused,?_,calmer,fun goes => waits (Or.inr goes)⟩
    rw [made]
  unfold Session.startNominatedCheck
  by_cases timed : ice.timer = .startNominatedCheck
  · simp only [if_pos timed]
    exact reset { ice with timer := .none } rfl rfl
  · simp only [if_neg timed]
    exact reset ice rfl rfl

section Following

variable {ice : Session}

theorem Sound.startNominatedCheck {busy : Option Nat} (sound : Sound busy ice) : Sound busy ice.startNominatedCheck := by
  obtain ⟨clist,misused,made,calmer,_⟩ := startNominatedCheckOnly ice
  rw [made]
  have cleared : Sound busy { ice with timer := if ice.timer = .startNominatedCheck then .none else ice.timer } := by
    refine sound.timed _ ice.isComplete ?_ ?_ rfl rfl rfl rfl rfl rfl rfl
    · split
      · exact nofun
      · exact fun other => absurd other (by assumption)
    · split
      · rintro (other | other) <;> contradiction
      · exact sound.finished
  exact cleared.calmer calmer rfl rfl rfl rfl rfl rfl rfl

theorem Sound.validGoes {busy : Option Nat} (sound : Sound busy ice) (some : ice.comp ≠ [])
    (valid : ice.allValid = true) : ∃ v ∈ ice.validChecks, v.key ∈ ice.clist.map Check.key := by
  obtain ⟨c,first⟩ := List.exists_mem_of_ne_nil _ some
  obtain ⟨p,place⟩ := Option.isSome_iff_exists.mp (List.all_eq_true.mp valid c first)
  have within := sound.points c first p place
  refine ⟨ice.validList[p],List.mem_filterMap.mpr ⟨c,first,?_⟩,sound.goes _ (List.getElem_mem within)⟩
  rw [place,Option.bind_some,List.getElem?_eq_getElem within]

/- A list whose checks are all completed leaves something else to wait for. -/
def Session.Rests (ice : Session) : Prop :=
  ice.clist ≠ [] → ice.allCompleted = true →
    ice.isComplete = true ∨ ice.timer ≠ .none ∨ ice.requests ≠ [] ∨
      (ice.role = .controlled ∧ ice.waitsForNomination = false)

/- An open check is seen by a timer, unless the session is complete. -/
def Session.Timed (ice : Session) : Prop :=
  ice.clistTimer = true ∨ ice.timer ≠ .none ∨ ice.isComplete = true

def Session.Ticks (ice : Session) : Prop := (∃ state ∈ ice.states, state.isOpen = true) → ice.Timed

/- What an operation keeps; the timers are kept only if the requests it makes go out. -/
structure Follows (resent : Prop) (ice out : Session) : Prop where
  sound : Sound none out
  rests : out.Rests
  ticks : resent → ice.Ticks → out.Ticks

variable {resent : Prop}

variable {state : CheckState} {start : Session}

theorem notAllCompleted (listed : state ∈ ice.states) (early : state.num < CheckState.succeeded.num) :
    ice.allCompleted = false := by
  obtain ⟨c,member,rfl⟩ := List.mem_map.mp listed
  refine Bool.eq_false_iff.mpr (fun completed => ?_)
  have late := of_decide_eq_true (List.all_eq_true.mp completed c member)
  omega

theorem restsEarly (listed : state ∈ ice.states) (early : state.num < CheckState.succeeded.num) : ice.Rests := by
  intro _ completed
  rw [notAllCompleted listed early] at completed
  contradiction

theorem Session.Ticks.fewer {out : Session} (ticks : ice.Ticks)
    (fewer : ∀ state ∈ out.states, state.isOpen = true → ∃ old ∈ ice.states, old.isOpen = true)
    (clistTimer : out.clistTimer = ice.clistTimer) (timer : out.timer = ice.timer)
    (isComplete : out.isComplete = ice.isComplete) : out.Ticks := by
  rintro ⟨state,listed,isOpen⟩
  unfold Session.Timed
  rw [clistTimer,timer,isComplete]
  exact ticks (fewer state listed isOpen)

variable (list : List Check)

theorem fewerMap (f : Check → Check) (each : ∀ c, (f c).state.isOpen = true → c.state.isOpen = true) :
    ∀ state ∈ (list.map f).map Check.state, state.isOpen = true → ∃ old ∈ list.map Check.state, old.isOpen = true := by
  intro state listed isOpen
  rw [List.map_map] at listed
  obtain ⟨c,member,rfl⟩ := List.mem_map.mp listed
  exact ⟨c.state,List.mem_map_of_mem member,each c isOpen⟩

theorem Sound.completed {out : Session} (sound : Sound none out) (complete : out.isComplete = true) :
    Follows resent ice out :=
  ⟨sound,fun _ _ => .inl complete,fun _ _ _ => .inr (.inr complete)⟩

theorem onIceCompleted (ice : Session) (status : Nat) : (ice.onIceComplete status).isComplete = true := by
  unfold Session.onIceComplete
  split
  · assumption
  · rfl

theorem Sound.startNominatedFollows (sound : Sound none ice) (some : ice.comp ≠ [])
    (valid : ice.allValid = true) : Follows resent start ice.startNominatedCheck := by
  obtain ⟨clist,misused,made,_,waits⟩ := startNominatedCheckOnly ice
  have waiting : CheckState.waiting ∈ ice.startNominatedCheck.states := by
    rw [made]
    exact waits (sound.validGoes some valid)
  refine ⟨sound.startNominatedCheck,restsEarly waiting (by decide),fun _ _ _ => .inl ?_⟩
  rw [made]

theorem Sound.checksExhausted (sound : Sound none ice) (some : ice.comp ≠ [])
    (ticks : start.Ticks → ice.Ticks) : Follows resent start ice.checksExhausted.2 := by
  unfold Session.checksExhausted
  split
  · rename_i controlled
    split
    · exact (sound.onIceComplete _).completed (onIceCompleted ice _)
    · split
      · refine ⟨?_,fun _ _ => .inr (.inl nofun),fun _ _ _ => .inr (.inl nofun)⟩
        exact sound.timed .controlledWaitNom ice.isComplete nofun (fun other => by rcases other with h | h <;> contradiction)
          rfl rfl rfl rfl rfl rfl rfl
      · rename_i infinite
        refine ⟨sound,fun _ _ => ?_,fun _ => ticks⟩
        by_cases off : ice.timer = .none
        · exact .inr (.inr (.inr ⟨controlled,Bool.eq_false_iff.mpr (fun waits => infinite ⟨off,waits⟩)⟩))
        · exact .inr (.inl off)
  · split
    · exact (sound.onIceComplete _).completed (onIceCompleted ice _)
    · split
      · exact (sound.onIceComplete _).completed (onIceCompleted ice _)
      · rename_i valid
        exact sound.startNominatedFollows some (by simpa using valid)

theorem unfreezeKey (foundation : List Char) (c : Check) : (unfreeze foundation c).key = c.key := by
  have same := unfreezeBody foundation c
  simp only [Check.body,Prod.mk.injEq] at same
  unfold Check.key
  rw [same.1,same.2.1]

theorem Sound.unfreeze (sound : Sound none ice) (foundation : List Char) :
    Sound none { ice with clist := ice.clist.map (unfreeze foundation), validPairFound := true } := by
  refine sound.calmer (calmerMap ice.clist (Ice.unfreeze foundation) (unfreezeKey foundation) ?_) rfl rfl rfl rfl rfl rfl rfl
  intro c progress
  unfold Ice.unfreeze at progress ⊢
  split at progress
  · contradiction
  · rename_i other
    rw [if_neg other]
    exact ⟨progress,rfl⟩

theorem unfreezeOpen (foundation : List Char) (c : Check) (isOpen : (unfreeze foundation c).state.isOpen = true) :
    c.state.isOpen = true := by
  unfold Ice.unfreeze at isOpen
  split at isOpen
  · rename_i frozen
    rw [frozen.2]
    rfl
  · exact isOpen

theorem failPendingOpen (compId : Nat) (c : Check) (isOpen : (failPending compId c).state.isOpen = true) :
    c.state.isOpen = true := by
  unfold failPending at isOpen
  split at isOpen
  · contradiction
  · split at isOpen
    · contradiction
    · exact isOpen

theorem Sound.onCheckComplete (sound : Sound none ice) (ticks : start.Ticks → ice.Ticks)
    (check : Check) : Follows resent start (ice.onCheckComplete check).2 := by
  unfold Session.onCheckComplete
  dsimp only
  have thawed : Sound none (if check.errCode = 0 then
        { ice with clist := ice.clist.map (Ice.unfreeze check.lcand.foundation), validPairFound := true } else ice) ∧
      (start.Ticks → (if check.errCode = 0 then
        { ice with clist := ice.clist.map (Ice.unfreeze check.lcand.foundation), validPairFound := true }
        else ice).Ticks) := by
    split
    · refine ⟨sound.unfreeze _,fun known => ?_⟩
      exact (ticks known).fewer (fewerMap ice.clist _ (unfreezeOpen _)) rfl rfl rfl
    · exact ⟨sound,ticks⟩
  generalize (if check.errCode = 0 then
      { ice with clist := ice.clist.map (Ice.unfreeze check.lcand.foundation), validPairFound := true } else ice) = first
    at thawed ⊢
  obtain ⟨firstSound,firstTicks⟩ := thawed
  have dropped : Sound none
        (if check.errCode = 0 ∧ check.nominated then first.dropPending check.lcand.compId else first) ∧
      (start.Ticks →
        (if check.errCode = 0 ∧ check.nominated then first.dropPending check.lcand.compId else first).Ticks) := by
    split
    · refine ⟨firstSound.dropPending _,fun known => ?_⟩
      exact (firstTicks known).fewer (fewerMap first.clist _ (failPendingOpen _)) rfl rfl rfl
    · exact ⟨firstSound,firstTicks⟩
  generalize (if check.errCode = 0 ∧ check.nominated then first.dropPending check.lcand.compId else first) = mid
    at dropped ⊢
  obtain ⟨midSound,midTicks⟩ := dropped
  split
  · exact (midSound.onIceComplete 0).completed (onIceCompleted mid 0)
  · rename_i unnominated
    have some : mid.comp ≠ [] := by
      intro empty
      refine unnominated ?_
      unfold Session.allNominated
      rw [empty]
      rfl
    split
    · exact midSound.checksExhausted some midTicks
    · rename_i unfinished
      split
      · rename_i delays
        refine ⟨?_,fun _ completed => absurd completed unfinished,fun _ _ _ => .inr (.inl nofun)⟩
        exact midSound.timed .startNominatedCheck mid.isComplete (fun _ => ⟨some,delays.2.2.2.2⟩)
          (fun other => by rcases other with h | h <;> contradiction) rfl rfl rfl rfl rfl rfl rfl
      · exact ⟨midSound,fun _ completed => absurd completed unfinished,fun _ => midTicks⟩

theorem statesModify (i : Nat) (f : Check → Check) (state : CheckState) (sets : ∀ c, (f c).state = state) :
    (list.modify i f).map Check.state = (list.map Check.state).set i state := by
  apply List.ext_getElem?
  intro j
  rw [List.getElem?_map,List.getElem?_modify,List.getElem?_set,List.getElem?_map,List.length_map]
  by_cases place : i = j
  · subst place
    by_cases within : i < list.length
    · simp [within,sets]
    · simp [within]
  · simp [place]

theorem Sound.finishCheck {i errCode : Nat}
    (sound : Sound none (ice.checkSetState i state errCode)) (within : i < ice.clist.length)
    (late : state.isOpen = false) (ticks : start.Ticks → ice.Ticks) :
    Follows resent start (ice.finishCheck i state errCode) := by
  have set : (ice.checkSetState i state errCode).states = ice.states.set i state :=
    statesModify ice.clist i _ state (fun _ => rfl)
  have ticksSet : start.Ticks → (ice.checkSetState i state errCode).Ticks := by
    intro known
    refine (ticks known).fewer ?_ rfl rfl rfl
    intro other listed isOpen
    rw [set] at listed
    rcases List.mem_or_eq_of_mem_set listed with old | rfl
    · exact ⟨other,old,isOpen⟩
    · rw [late] at isOpen
      contradiction
  unfold Session.finishCheck
  dsimp only
  split
  · rename_i missing
    have length : (ice.checkSetState i state errCode).clist.length = ice.clist.length := List.length_modify _ _ _
    rw [List.getElem?_eq_none_iff,length] at missing
    omega
  · exact sound.onCheckComplete ticksSet _

theorem performCheckOnly (net : Network) (ice : Session) (i : Nat) (nominate : Bool) (here : i < ice.clist.length) :
    (ice.performCheck net i nominate).2.states =
        (if net ice.created = .sent then ice.states.set i .inProgress else ice.states) ∧
      (ice.performCheck net i nominate).2.clistTimer = ice.clistTimer ∧
      (ice.performCheck net i nominate).2.timer = ice.timer ∧
      (ice.performCheck net i nominate).2.isComplete = ice.isComplete ∧
      ((ice.performCheck net i nominate).1 = none ↔ net ice.created = .sent) := by
  unfold Session.performCheck
  have value := List.getElem?_eq_getElem here
  simp only [value]
  generalize ice.request i ice.clist[i] nominate = req
  have marked : (ice.clist.modify i (fun c => { c with nominated := c.nominated || req.useCandidate })).map Check.state =
      ice.clist.map Check.state := mapModify _ _ _ _ (fun _ _ => rfl)
  cases net ice.created with
  | notCreated =>
    rw [if_neg nofun]
    exact ⟨rfl,rfl,rfl,rfl,iff_of_false nofun nofun⟩
  | notSent =>
    rw [if_neg nofun]
    have cleared := (mapModify _ i (fun c : Check => { c with tdata := none }) Check.state (fun _ _ => rfl)).trans marked
    exact ⟨cleared,rfl,rfl,rfl,iff_of_false nofun nofun⟩
  | sent =>
    rw [if_pos rfl]
    have tagged := (mapModify _ i (fun c : Check => { c with tdata := some req.tdata }) Check.state
      (fun _ _ => rfl)).trans marked
    have set := (statesModify _ i (fun c : Check => { c with state := .inProgress, errCode := 0 }) .inProgress
      (fun _ => rfl)).trans (congrArg (fun list => list.set i .inProgress) tagged)
    exact ⟨set,rfl,rfl,rfl,iff_of_true rfl rfl⟩

theorem Sound.performFollows (sound : Sound none ice) (net : Network) (i : Nat) (c : Check)
    (nominate : Bool) (here : ice.clist[i]? = some c) (isOpen : c.state.isOpen = true)
    (others : ∀ j state, j ≠ i → ice.states[j]? = some state → state.isOpen = true →
      ∃ old ∈ start.states, old.isOpen = true)
    (goes : resent → start.Ticks → net ice.created = .sent ∨ start.Timed)
    (clistTimer : ice.clistTimer = start.clistTimer) (timer : ice.timer = start.timer)
    (isComplete : ice.isComplete = start.isComplete) : Follows resent start (ice.performCheck net i nominate).2 := by
  obtain ⟨within,value⟩ := List.getElem?_eq_some_iff.mp here
  have idle : c.state ≠ .inProgress := by
    intro progress
    rw [progress] at isOpen
    contradiction
  have stateHere : ice.states[i]? = some c.state := by
    unfold Session.states
    rw [List.getElem?_map,here]
    rfl
  obtain ⟨states,sameList,sameTimer,sameComplete,_⟩ := performCheckOnly net ice i nominate within
  have timed : start.Timed → (ice.performCheck net i nominate).2.Timed := by
    unfold Session.Timed
    rw [sameList,sameTimer,sameComplete,clistTimer,timer,isComplete]
    exact id
  refine ⟨sound.performCheck net i c nominate here idle,?_,?_⟩
  · by_cases sent : net ice.created = .sent
    · rw [if_pos sent] at states
      have running : CheckState.inProgress ∈ (ice.performCheck net i nominate).2.states := by
        rw [states]
        exact List.mem_set (by rw [Session.states,List.length_map]; exact within) _
      exact restsEarly running (by decide)
    · rw [if_neg sent] at states
      have listed : c.state ∈ (ice.performCheck net i nominate).2.states := by
        rw [states]
        exact List.mem_of_getElem? stateHere
      have early := of_decide_eq_true isOpen
      have order : CheckState.inProgress.num ≤ CheckState.succeeded.num := by decide
      exact restsEarly listed (Nat.lt_of_lt_of_le early order)
  · rintro condition ticks ⟨state,listed,late⟩
    rcases goes condition ticks with sent | known
    · rw [states,if_pos sent] at listed
      obtain ⟨j,there⟩ := List.mem_iff_getElem?.mp listed
      rw [List.getElem?_set] at there
      split at there
      · rename_i place
        subst place
        split at there
        · obtain rfl := Option.some.inj there
          contradiction
        · contradiction
      · rename_i differ
        exact timed (ticks (others j state (Ne.symm differ) there late))
    · exact timed known

theorem openHere (i : Nat)
    (found : (list.findIdx? (·.state = .waiting)).or (list.findIdx? (·.state = .frozen)) = some i) :
    ∃ c, list[i]? = some c ∧ c.state.isOpen = true := by
  rcases Option.or_eq_some_iff.mp found with waits | ⟨_,frozen⟩
  · obtain ⟨within,goes,_⟩ := List.findIdx?_eq_some_iff_getElem.mp waits
    refine ⟨list[i],List.getElem?_eq_getElem within,?_⟩
    rw [of_decide_eq_true goes]
    rfl
  · obtain ⟨within,goes,_⟩ := List.findIdx?_eq_some_iff_getElem.mp frozen
    refine ⟨list[i],List.getElem?_eq_getElem within,?_⟩
    rw [of_decide_eq_true goes]
    rfl

theorem noneOpen (missing : (list.findIdx? (·.state = .waiting)).or (list.findIdx? (·.state = .frozen)) = none) :
    ∀ c ∈ list, c.state.isOpen = false := by
  intro c member
  obtain ⟨waits,frozen⟩ := Option.or_eq_none_iff.mp missing
  have first := List.findIdx?_eq_none_iff.mp waits c member
  have next := List.findIdx?_eq_none_iff.mp frozen c member
  cases state : c.state <;> simp_all [CheckState.isOpen,CheckState.num]

theorem Sound.startPeriodicCheck (sound : Sound none ice) (rests : ice.Rests) (net : Network) :
    Follows resent ice (ice.startPeriodicCheck net) := by
  have off : Sound none { ice with clistTimer := false } := sound.same rfl rfl rfl rfl rfl rfl rfl
  unfold Session.startPeriodicCheck
  dsimp only
  split
  · rename_i missing
    refine ⟨off,rests,?_⟩
    rintro _ _ ⟨state,listed,isOpen⟩
    obtain ⟨c,member,rfl⟩ := List.mem_map.mp listed
    rw [noneOpen ice.clist missing c member] at isOpen
    contradiction
  · rename_i i found
    obtain ⟨c,here,isOpen⟩ := openHere ice.clist i found
    obtain ⟨within,_⟩ := List.getElem?_eq_some_iff.mp here
    have sent : Follows False { ice with clistTimer := false }
        (Session.performCheck net { ice with clistTimer := false } i ice.isNominating).2 :=
      off.performFollows net i c ice.isNominating here isOpen (fun _ state _ there late => ⟨state,List.mem_of_getElem? there,late⟩)
        nofun rfl rfl rfl
    have states := (performCheckOnly net { ice with clistTimer := false } i ice.isNominating within).1
    generalize Session.performCheck net { ice with clistTimer := false } i ice.isNominating = pair at sent states ⊢
    obtain ⟨err,out⟩ := pair
    have ticking : ∀ last : Session, Sound none last → last.Rests →
        Follows resent ice { last with clistTimer := true } := fun last lastSound lastRests =>
      ⟨lastSound.same rfl rfl rfl rfl rfl rfl rfl,lastRests,fun _ _ _ => .inl rfl⟩
    cases err with
    | none => exact ticking out sent.sound sent.rests
    | some err =>
      have inside : i < out.clist.length := by
        have length : out.clist.length = ice.clist.length := by
          split at states <;> simpa [Session.states] using congrArg List.length states
        rw [length]
        exact within
      have finished : Follows False out (out.finishCheck i .failed err.code) :=
        Sound.finishCheck (sent.sound.setIdle i .failed err.code nofun) inside rfl id
      exact ticking _ finished.sound finished.rests

theorem Sound.onTimer (sound : Sound none ice) (rests : ice.Rests) : Follows resent ice ice.onTimer := by
  have off : Sound none { ice with timer := .none } :=
    sound.timed .none ice.isComplete nofun (fun other => by rcases other with h | h <;> contradiction)
      rfl rfl rfl rfl rfl rfl rfl
  unfold Session.onTimer
  cases fired : ice.timer with
  | controlledWaitNom => exact (off.onIceComplete _).completed (onIceCompleted _ _)
  | completionCallback =>
    have complete := sound.finished (.inl fired)
    dsimp only
    split
    · refine Sound.completed ?_ complete
      exact sound.timed .keepAlive ice.isComplete nofun (fun _ => complete) rfl rfl rfl rfl rfl rfl rfl
    · exact off.completed complete
  | startNominatedCheck =>
    obtain ⟨some,valid⟩ := sound.delayed fired
    exact off.startNominatedFollows some valid
  | keepAlive =>
    have complete := sound.finished (.inr fired)
    refine Sound.completed ?_ complete
    exact sound.timed .keepAlive ice.isComplete nofun (fun _ => complete) rfl rfl rfl rfl rfl rfl rfl
  | none =>
    have same : ({ ice with timer := .none } : Session) = ice := by rw [← fired]
    dsimp only
    rw [same]
    exact ⟨sound,rests,fun _ => id⟩

/- A controlled agent that waits for the peer alone. -/
def Session.awaitsPeer (ice : Session) : Bool :=
  ice.role = .controlled && ice.clist ≠ [] && ice.allCompleted && !ice.isComplete && ice.timer = .none &&
    ice.requests = []

theorem Sound.changeRole {busy : Option Nat} (sound : Sound busy ice) (role : Role) : Sound busy (ice.changeRole role) := by
  unfold Session.changeRole
  split
  · exact sound.same rfl rfl rfl rfl rfl rfl rfl
  · exact sound

end Following

/- Sorting swaps two entries at a time, and the pointers of the components with them. -/
def Comp.swap (i j : Nat) (c : Comp) : Comp where
  validCheck := c.validCheck.map (swapPointer i j)
  nominatedCheck := c.nominatedCheck.map (swapPointer i j)

theorem highestWithin (start : Nat) (within : start < list.length) : highest list start < list.length := by
  unfold highest
  have inside : ∀ j ∈ List.range list.length, j < list.length := fun _ => List.mem_range.mp
  generalize List.range list.length = places at inside
  have fold : ∀ best, best < list.length →
      places.foldl (fun best j => if start < j ∧ prioAt list best < prioAt list j then j else best) best < list.length := by
    induction places with
    | nil => exact fun _ below => below
    | cons j places ih =>
      intro best below
      rw [List.foldl_cons]
      refine ih (fun k member => inside k (List.mem_cons_of_mem _ member)) _ ?_
      split
      · exact inside j List.mem_cons_self
      · exact below
  exact fold start within

theorem sortChecklistKeeps (P : List Check → List Comp → Prop) (list : List Check) (comp : List Comp)
    (start : P list comp)
    (swap : ∀ l c i j, i < l.length → j < l.length → P l c → P (swapChecks l i j) (c.map (Comp.swap i j))) :
    P (sortChecklist list comp).1 (sortChecklist list comp).2 := by
  unfold sortChecklist
  have inside : ∀ i ∈ List.range (list.length - 1), i < list.length := by
    intro i member
    have below := List.mem_range.mp member
    omega
  generalize List.range (list.length - 1) = places at inside
  induction places generalizing list comp with
  | nil => exact start
  | cons i places ih =>
    have within := inside i List.mem_cons_self
    have rest : ∀ k ∈ places, k < list.length := fun k member => inside k (List.mem_cons_of_mem _ member)
    rw [List.foldl_cons]
    dsimp only
    split
    · refine ih _ _ (swap list comp i _ within (highestWithin list i within) start) ?_
      rw [(swapChecksPerm _ _ _).length_eq]
      exact rest
    · exact ih list comp start rest

theorem swapPointerWithin {n i j p : Nat} (left : i < n) (right : j < n) (within : p < n) : swapPointer i j p < n := by
  unfold swapPointer
  split
  · exact left
  · split
    · exact right
    · exact within

theorem sortedPoints (comp : List Comp) (points : ∀ c ∈ comp, ∀ p, c.validCheck = some p → p < list.length) :
    ∀ c ∈ (sortChecklist list comp).2, ∀ p, c.validCheck = some p → p < (sortChecklist list comp).1.length := by
  refine sortChecklistKeeps (fun l cs => ∀ c ∈ cs, ∀ p, c.validCheck = some p → p < l.length) list comp points ?_
  intro l cs i j left right old c member p place
  obtain ⟨d,inside,rfl⟩ := List.mem_map.mp member
  obtain ⟨q,was,rfl⟩ := Option.map_eq_some_iff.mp place
  rw [(swapChecksPerm _ _ _).length_eq]
  exact swapPointerWithin left right (old d inside q was)

theorem sortedValid (comp : List Comp) (some : comp ≠ [])
    (valid : comp.all (fun c => c.validCheck.isSome) = true) :
    (sortChecklist list comp).2 ≠ [] ∧ (sortChecklist list comp).2.all (fun c => c.validCheck.isSome) = true := by
  refine sortChecklistKeeps (fun _ cs => cs ≠ [] ∧ cs.all (fun c => c.validCheck.isSome) = true) list comp
    ⟨some,valid⟩ ?_
  rintro l cs i j _ _ ⟨nonempty,all⟩
  refine ⟨by simpa using nonempty,?_⟩
  rw [List.all_map]
  refine List.all_eq_true.mpr (fun c member => ?_)
  have isSome := List.all_eq_true.mp all c member
  simpa [Comp.swap] using isSome

section Completing

variable {busy : Option Nat} {ice : Session} {resent : Prop} {req : Request}

theorem betterPlace (list : List Check) (old : Option Nat) (place : Nat) :
    ∃ p, better list old place = some p ∧ (p = place ∨ old = some p) := by
  unfold better
  split
  · exact ⟨place,rfl,.inl rfl⟩
  · rename_i p
    split
    · exact ⟨place,rfl,.inl rfl⟩
    · exact ⟨p,rfl,.inr rfl⟩

theorem Sound.updateCompCheck (sound : Sound busy ice) (compId place : Nat) (within : place < ice.validList.length) :
    Sound busy (ice.updateCompCheck compId place) := by
  refine ⟨sound.distinct,sound.bounded,sound.placed,sound.attended,sound.goes,?_,?_,sound.finished⟩
  · intro c member p known
    rcases memModify member with old | ⟨d,old,rfl⟩
    · exact sound.points c old p known
    · obtain ⟨q,found,here⟩ := betterPlace ice.validList d.validCheck place
      obtain rfl := Option.some.inj (found.symm.trans known)
      rcases here with rfl | was
      · exact within
      · exact sound.points d (List.mem_of_getElem? old) q was
  · intro timed
    obtain ⟨some,valid⟩ := sound.delayed timed
    refine ⟨?_,List.all_eq_true.mpr ?_⟩
    · change ice.comp.modify (compId - 1) _ ≠ []
      intro empty
      have length := congrArg List.length empty
      rw [List.length_modify] at length
      exact some (List.length_eq_zero_iff.mp length)
    · intro c member
      rcases memModify member with old | ⟨d,_,rfl⟩
      · exact List.all_eq_true.mp valid c old
      · obtain ⟨q,found,_⟩ := betterPlace ice.validList d.validCheck place
        dsimp only
        rw [found]
        rfl

theorem Sound.addValid (sound : Sound busy ice) (check : Check) (lcand : Cand)
    (listed : (lcand.transportId, check.rcand.place) ∈ ice.clist.map Check.key) :
    Sound busy (ice.addValid check lcand) := by
  unfold Session.addValid
  dsimp only
  generalize placeIs : ice.validList.findIdx
    (fun v => v.lcand.place = lcand.place ∧ v.rcand.place = check.rcand.place) = place
  have upTo : place ≤ ice.validList.length := placeIs ▸ List.findIdx_le_length
  generalize entry : (Check.mk lcand check.rcand (calcCheckPrio ice.role lcand check.rcand) .succeeded
    check.nominated 0 none) = newCheck
  have key : newCheck.key ∈ ice.clist.map Check.key := by
    rw [← entry]
    exact listed
  generalize madeIs : (if place < ice.validList.length then
    ice.validList.modify place (fun v => { v with nominated := check.nominated }) else ice.validList ++ [newCheck]) = made
  have longer : ice.validList.length ≤ made.length ∧ place < made.length := by
    rw [← madeIs]
    split
    · rw [List.length_modify]
      exact ⟨Nat.le_refl _,by assumption⟩
    · rw [List.length_append,List.length_singleton]
      omega
  have goes : ∀ v ∈ made, v.key ∈ ice.clist.map Check.key := by
    intro v member
    rw [← madeIs] at member
    split at member
    · rcases memModify member with old | ⟨w,old,rfl⟩
      · exact sound.goes v old
      · exact sound.goes w (List.mem_of_getElem? old)
    · rcases List.mem_append.mp member with old | new
      · exact sound.goes v old
      · rw [List.mem_singleton.mp new]
        exact key
  have grown : Sound busy { ice with validList := made } :=
    ⟨sound.distinct,sound.bounded,sound.placed,sound.attended,goes,
      fun c member p known => Nat.lt_of_lt_of_le (sound.points c member p known) longer.1,sound.delayed,sound.finished⟩
  have updated := grown.updateCompCheck lcand.compId place longer.2
  generalize Session.updateCompCheck { ice with validList := made } lcand.compId place = out at updated ⊢
  refine ⟨updated.distinct,updated.bounded,updated.placed,updated.attended,?_,?_,?_,updated.finished⟩
  · intro v member
    exact updated.goes v ((sortChecklistPerm out.validList out.comp).subset member)
  · exact sortedPoints out.validList out.comp updated.points
  · intro timed
    obtain ⟨some,valid⟩ := updated.delayed timed
    exact sortedValid out.validList out.comp some valid

theorem addValidTicks (check : Check) (lcand : Cand) (ticks : ice.Ticks) : (ice.addValid check lcand).Ticks := ticks

variable {out : Session}

theorem Sound.mappedCand (sound : Sound busy ice) (check : Check) (transportId : Nat) (mapped : Addr)
    (lcand : Cand) (known : ice.mappedCand check transportId mapped = some (lcand, out)) : Sound busy out := by
  unfold Session.mappedCand at known
  split at known
  · obtain ⟨_,rfl⟩ := Prod.mk.inj (Option.some.inj known)
    exact sound
  · split at known
    · contradiction
    · obtain ⟨_,rfl⟩ := Prod.mk.inj (Option.some.inj known)
      exact sound.same rfl rfl rfl rfl rfl rfl rfl

theorem mappedCandClist (check : Check) (transportId : Nat) (mapped : Addr) (lcand : Cand)
    (known : ice.mappedCand check transportId mapped = some (lcand, out)) :
    out.clist = ice.clist ∧ (ice.Ticks → out.Ticks) := by
  unfold Session.mappedCand at known
  split at known
  · obtain ⟨_,rfl⟩ := Prod.mk.inj (Option.some.inj known)
    exact ⟨rfl,id⟩
  · split at known
    · contradiction
    · obtain ⟨_,rfl⟩ := Prod.mk.inj (Option.some.inj known)
      exact ⟨rfl,id⟩

theorem Sound.onSuccess {start : Session} (req : Request) (sound : Sound (some req.ckid) ice) (check : Check)
    (srcAddr : Addr) (mapped : Option Addr) (within : req.ckid < ice.clist.length) (ticks : start.Ticks → ice.Ticks)
    (listed : check.rcand.addr = srcAddr → ∀ address, mapped = some address → ∀ lcand out,
      ice.mappedCand check req.transportId address = some (lcand, out) →
        (lcand.transportId, check.rcand.place) ∈ ice.clist.map Check.key) :
    Follows resent start (ice.onSuccess req check srcAddr mapped) := by
  have fails : ∀ errCode, Follows resent start (ice.finishCheck req.ckid .failed errCode) := fun errCode =>
    Sound.finishCheck (sound.setBusy .failed errCode nofun) within rfl ticks
  unfold Session.onSuccess
  split
  · exact fails _
  · rename_i source
    cases mapped with
    | none => exact fails _
    | some mapped =>
      dsimp only
      split
      · exact fails _
      · rename_i lcand out known
        obtain ⟨clist,learns⟩ := mappedCandClist check req.transportId mapped lcand known
        have learnt := sound.mappedCand check req.transportId mapped lcand known
        have inList := listed (not_not.mp source) mapped rfl lcand out known
        rw [← clist] at inList within
        have added := learnt.addValid check lcand inList
        exact Sound.finishCheck (added.setBusy .succeeded 0 nofun) within rfl
          (fun old => addValidTicks check lcand (learns (ticks old)))

/- The local candidate of a response is on the transport of the check. -/
def Session.sameTransport (ice : Session) : Input → Bool
  | .complete tdata (.success srcAddr (some mapped)) =>
    match ice.requests.find? (fun r => r.tdata = tdata) with
    | none => true
    | some req =>
      (ice.clist[req.ckid]?).all (fun check =>
        check.rcand.addr ≠ srcAddr ||
          (ice.lcand.find? (fun c => c.addr = mapped ∧ c.baseAddr = check.lcand.baseAddr)).all
            (fun lcand => lcand.transportId = check.lcand.transportId))
  | _ => true

theorem releasedTicks (req : Request) (ticks : ice.Ticks) : (ice.released req).Ticks := by
  refine ticks.fewer ?_ rfl rfl rfl
  intro state listed isOpen
  have same : (ice.released req).states = ice.states :=
    mapModify ice.clist req.ckid (fun c => { c with tdata := none }) Check.state (fun _ _ => rfl)
  rw [same] at listed
  exact ⟨state,listed,isOpen⟩

theorem Sound.mappedListed (sound : Sound none ice) (req : Request) (member : req ∈ ice.requests) (check : Check)
    (here : ice.clist[req.ckid]? = some check) (mapped : Addr)
    (transport : ∀ lcand, ice.lcand.find? (fun c => c.addr = mapped ∧ c.baseAddr = check.lcand.baseAddr) = some lcand →
      lcand.transportId = check.lcand.transportId) (start : Session) (lcand : Cand) (out : Session)
    (sameCands : start.lcand = ice.lcand) (keys : start.clist.map Check.key = ice.clist.map Check.key)
    (known : start.mappedCand { check with tdata := none } req.transportId mapped = some (lcand, out)) :
    (lcand.transportId, check.rcand.place) ∈ start.clist.map Check.key := by
  have sameId : lcand.transportId = check.lcand.transportId := by
    unfold Session.mappedCand at known
    rw [sameCands] at known
    split at known
    · rename_i found
      obtain ⟨rfl,_⟩ := Prod.mk.inj (Option.some.inj known)
      exact transport _ found
    · split at known
      · contradiction
      · obtain ⟨rfl,_⟩ := Prod.mk.inj (Option.some.inj known)
        obtain ⟨k,place,value⟩ := sound.placed req member
        rw [List.getElem?_map,here] at place
        obtain rfl := Option.some.inj place
        exact value.symm
  rw [sameId,keys]
  exact List.mem_map.mpr ⟨check,List.mem_of_getElem? here,rfl⟩

theorem Sound.onStunRequestComplete (sound : Sound none ice) (net : Network) (tdata : Nat)
    (result : Completion) (known : ice.requests.find? (fun r => r.tdata = tdata) = some req)
    (transport : ice.sameTransport (.complete tdata result) = true)
    (goes : resent → result = .roleConflict → net ice.created = .sent ∨ ice.Timed) :
    Follows resent ice (ice.onStunRequestComplete net req result) := by
  have member := List.mem_of_find?_eq_some known
  obtain ⟨k,place,_⟩ := sound.placed req member
  rw [List.getElem?_map] at place
  obtain ⟨check,here,rfl⟩ := Option.map_eq_some_iff.mp place
  obtain ⟨within,_⟩ := List.getElem?_eq_some_iff.mp here
  have begun := sound.released req member
  have inside : req.ckid < (ice.released req).clist.length := by
    change req.ckid < (ice.clist.modify req.ckid _).length
    rw [List.length_modify]
    exact within
  have there : (ice.released req).clist[req.ckid]? = some { check with tdata := none } := by
    rw [releasedCheck,here]
    rfl
  unfold Session.onStunRequestComplete
  dsimp only
  rw [show (ice.modifyCheck req.ckid fun c => { c with tdata := none }).clist[req.ckid]? = some _ from there]
  cases result with
  | roleConflict =>
    obtain ⟨roleChanges,changed⟩ := changeRoleOnly (ice.released req)
      (if req.roleAttr = .controlling then .controlled else .controlling)
    have turned := begun.changeRole (if req.roleAttr = .controlling then .controlled else .controlling)
    have opened := turned.setBusy .waiting 0 (by simp)
    change Follows resent ice (Session.performCheck net (((ice.released req).changeRole
      (if req.roleAttr = .controlling then .controlled else .controlling)).checkSetState req.ckid .waiting 0) req.ckid _).2
    rw [changed] at opened ⊢
    have waits : ((ice.released req).clist.modify req.ckid (fun c => { c with state := .waiting, errCode := 0 }))[req.ckid]? =
        some { check with tdata := none, state := .waiting, errCode := 0 } := by
      rw [List.getElem?_modify_eq,there]
      rfl
    refine opened.performFollows net req.ckid _ _ waits rfl ?_ (fun condition _ => goes condition rfl) rfl rfl rfl
    intro j state differ old isOpen
    change (((ice.clist.modify req.ckid _).modify req.ckid _).map Check.state)[j]? = some state at old
    rw [List.getElem?_map,List.getElem?_modify_ne _ _ (Ne.symm differ),List.getElem?_modify_ne _ _ (Ne.symm differ),
      ← List.getElem?_map] at old
    exact ⟨state,List.mem_of_getElem? old,isOpen⟩
  | failure err =>
    exact Sound.finishCheck (begun.setBusy .failed err.code (by simp)) inside rfl (releasedTicks req)
  | success srcAddr mapped =>
    refine Sound.onSuccess req begun _ srcAddr mapped inside (releasedTicks req) ?_
    rintro source address rfl lcand out found
    have keys : (ice.released req).clist.map Check.key = ice.clist.map Check.key :=
      mapModify ice.clist req.ckid (fun c => { c with tdata := none }) Check.key (fun _ _ => rfl)
    refine sound.mappedListed req member check here address ?_ (ice.released req) lcand out rfl keys found
    intro l localKnown
    have source : check.rcand.addr = srcAddr := source
    simp only [Session.sameTransport,known,here,Option.all_some,localKnown,source,ne_eq,not_true_eq_false,
      decide_false,Bool.false_or,decide_eq_true_eq] at transport
    exact transport

theorem Session.Rests.same (rests : ice.Rests) (states : out.states = ice.states)
    (isComplete : out.isComplete = ice.isComplete) (timer : out.timer = ice.timer) (requests : out.requests = ice.requests)
    (role : out.role = ice.role) (waits : out.waitsForNomination = ice.waitsForNomination) : out.Rests := by
  have completed : ∀ s : Session, s.allCompleted = s.states.all (fun state => CheckState.succeeded.num ≤ state.num) := by
    intro s
    unfold Session.allCompleted Session.states
    rw [List.all_map]
    rfl
  have listed : ∀ s : Session, s.clist ≠ [] ↔ s.states ≠ [] := by
    intro s
    simp [Session.states]
  unfold Session.Rests at *
  rw [completed,listed] at *
  rw [states,isComplete,timer,requests,role,waits]
  exact rests

theorem nominateValidStep (P : Session → Prop) (c : Check)
    (each : ∀ s j, P s → j < s.validList.length →
      P (Session.updateCompCheck { s with validList := s.validList.modify j (fun v => { v with nominated := true }) }
        ((s.validList[j]?.map (fun v => v.lcand.compId)).getD 0) j))
    (start : P ice) : P (ice.nominateValid c) := by
  unfold Session.nominateValid
  generalize List.range ice.validList.length = places
  induction places generalizing ice with
  | nil => exact start
  | cons j places ih =>
    rw [List.foldl_cons]
    refine ih ?_
    split
    · exact start
    · rename_i v here
      split
      · have next := each ice j start (List.getElem?_eq_some_iff.mp here).1
        rw [here] at next
        exact next
      · exact start

theorem Sound.nominateValid (sound : Sound busy ice) (c : Check) : Sound busy (ice.nominateValid c) := by
  refine nominateValidStep (Sound busy) c ?_ sound
  intro s j old within
  have length : (s.validList.modify j (fun v => { v with nominated := true })).length = s.validList.length :=
    List.length_modify _ _ _
  refine Sound.updateCompCheck ?_ _ j (length ▸ within)
  refine ⟨old.distinct,old.bounded,old.placed,old.attended,?_,?_,old.delayed,old.finished⟩
  · intro v member
    rcases memModify member with inside | ⟨w,inside,rfl⟩
    · exact old.goes v inside
    · exact old.goes w (List.mem_of_getElem? inside)
  · intro c member p known
    rw [length]
    exact old.points c member p known

theorem nominateValidTicks (c : Check) (ticks : ice.Ticks) : (ice.nominateValid c).Ticks :=
  nominateValidStep Session.Ticks c (fun _ _ old _ => old) ticks

theorem Sound.triggerCheck (sound : Sound none ice) (net : Network) (i : Nat) (c : Check) (useCandidate : Bool)
    (here : ice.clist[i]? = some c) (rests : c.state = .failed → ice.Rests) :
    Follows resent ice (ice.triggerCheck net i c useCandidate) := by
  have listed : c.state ∈ ice.states := List.mem_map.mpr ⟨c,List.mem_of_getElem? here,rfl⟩
  have performs : c.state.isOpen = true →
      Follows resent ice (ice.performCheck net i (c.nominated || ice.isNominating)).2 := by
    intro isOpen
    exact sound.performFollows net i c _ here isOpen (fun _ state _ there late => ⟨state,List.mem_of_getElem? there,late⟩)
      (fun _ ticks => .inr (ticks ⟨c.state,listed,isOpen⟩)) rfl rfl rfl
  unfold Session.triggerCheck
  cases state : c.state with
  | frozen => exact performs (by rw [state]; rfl)
  | waiting => exact performs (by rw [state]; rfl)
  | inProgress => exact ⟨sound,restsEarly listed (by rw [state]; decide),fun _ => id⟩
  | succeeded =>
    dsimp only
    split
    · exact (sound.nominateValid c).onCheckComplete (nominateValidTicks c) c
    · exact sound.onCheckComplete id c
  | failed => exact ⟨sound,rests state,fun _ => id⟩

theorem Sound.add (sound : Sound none ice) (c : Check) (idle : c.state ≠ .inProgress) :
    Sound none { ice with clist := ice.clist ++ [c] } := by
  refine ⟨sound.distinct,sound.bounded,?_,?_,?_,sound.points,sound.delayed,sound.finished⟩
  · intro r member
    obtain ⟨k,place,value⟩ := sound.placed r member
    refine ⟨k,?_,value⟩
    rw [List.map_append,List.getElem?_append_left (List.getElem?_eq_some_iff.mp place).1]
    exact place
  · intro i d _ here progress
    by_cases within : i < ice.clist.length
    · rw [List.getElem?_append_left within] at here
      exact sound.attended i d nofun here progress
    · rw [List.getElem?_append_right (Nat.le_of_not_lt within)] at here
      obtain rfl := List.mem_singleton.mp (List.mem_of_getElem? here)
      exact absurd progress idle
  · intro v member
    rw [List.map_append]
    exact List.mem_append_left _ (sound.goes v member)

theorem Sound.remoteCand (sound : Sound busy ice) (rcheck : RxCheck) (rcand : Cand)
    (known : ice.remoteCand rcheck = some (rcand, out)) :
    Sound busy out ∧ ∃ list, out = { ice with rcand := list } := by
  unfold Session.remoteCand at known
  split at known
  · obtain ⟨_,rfl⟩ := Prod.mk.inj (Option.some.inj known)
    exact ⟨sound,ice.rcand,rfl⟩
  · split at known
    · contradiction
    · obtain ⟨_,rfl⟩ := Prod.mk.inj (Option.some.inj known)
      exact ⟨sound.same rfl rfl rfl rfl rfl rfl rfl,_,rfl⟩

/- The check a request is for, which may be a new one. -/
def Session.target (ice : Session) (rcheck : RxCheck) : Option (Option Check) := do
  let rcand ← (ice.remoteCand rcheck).map Prod.fst
  let first ← ice.clist.find? (fun c => c.lcand.compId = rcheck.compId ∧ c.lcand.transportId = rcheck.transportId)
  match ice.clist.find? (fun c => c.lcand.place = first.lcand.place ∧ c.rcand.place = rcand.place) with
  | some c => some (some c)
  | none => if ice.clist.length < maxChecks then some none else none

/- The request is for a new check or for one that succeeded. -/
def Session.advances (ice : Session) (rcheck : RxCheck) : Bool :=
  (ice.target rcheck).any (fun check => check.all (fun c => c.state = .succeeded))

theorem Sound.handleIncomingCheck (sound : Sound none ice) (net : Network) (rcheck : RxCheck)
    (rests : ice.advances rcheck = false → ice.Rests)
    (goes : resent → ice.target rcheck = some none → net ice.created = .sent ∨ ice.Timed) :
    Follows resent ice (ice.handleIncomingCheck net rcheck) := by
  unfold Session.handleIncomingCheck
  unfold Session.advances at rests
  unfold Session.target at rests goes
  cases known : ice.remoteCand rcheck with
  | none =>
    simp only [known,Option.map_none,Option.bind_none,bind,Option.any_none] at rests
    exact ⟨sound,rests trivial,fun _ => id⟩
  | some pair =>
    obtain ⟨rcand,out⟩ := pair
    obtain ⟨learnt,list,rfl⟩ := sound.remoteCand rcheck rcand known
    simp only [known,Option.map_some,Option.bind_some,bind] at rests goes
    dsimp only
    cases here : ice.clist.find? (fun c => c.lcand.compId = rcheck.compId ∧ c.lcand.transportId = rcheck.transportId) with
    | none =>
      simp only [here,Option.bind_none,Option.any_none] at rests
      exact ⟨learnt,rests trivial,fun _ => id⟩
    | some first =>
      simp only [here,Option.bind_some,List.find?_eq_bind_findIdx?_getElem?] at rests goes
      dsimp only
      cases place : ice.clist.findIdx? (fun c => c.lcand.place = first.lcand.place ∧ c.rcand.place = rcand.place) with
      | none =>
        simp only [place,Option.bind_none] at rests goes
        dsimp only
        split
        · rename_i room
          simp only [room,if_true] at goes
          have added := learnt.add
            { lcand := first.lcand, rcand := rcand, prio := calcCheckPrio ice.role first.lcand rcand, state := .waiting
              nominated := rcheck.useCandidate } (by simp)
          refine added.performFollows net ice.clist.length _ _ List.getElem?_concat_length rfl ?_
            (fun condition _ => goes condition trivial) rfl rfl rfl
          intro j state differ there isOpen
          change ((ice.clist ++ [_]).map Check.state)[j]? = some state at there
          have before : j < ice.clist.length := by
            have bound := (List.getElem?_eq_some_iff.mp there).1
            rw [List.length_map,List.length_append,List.length_singleton] at bound
            omega
          rw [List.getElem?_map,List.getElem?_append_left before,← List.getElem?_map] at there
          exact ⟨state,List.mem_of_getElem? there,isOpen⟩
        · rename_i full
          simp only [full,if_false,Option.any_none] at rests
          exact ⟨learnt,rests trivial,fun _ => id⟩
      | some i =>
        obtain ⟨within,_,_⟩ := List.findIdx?_eq_some_iff_getElem.mp place
        simp only [place,Option.bind_some,List.getElem?_eq_getElem within,Option.any_some,Option.all_some] at rests
        dsimp only
        have value : (ice.clist.modify i (fun c => { c with nominated := rcheck.useCandidate || c.nominated }))[i]? =
            some { ice.clist[i] with nominated := rcheck.useCandidate || ice.clist[i].nominated } := by
          rw [List.getElem?_modify_eq,List.getElem?_eq_getElem within]
          rfl
        have marks := calmerModify ice.clist i (fun c => { c with nominated := rcheck.useCandidate || c.nominated })
          (fun _ => rfl) (fun _ _ progress => ⟨progress,rfl⟩)
        have states := mapModify ice.clist i (fun c => { c with nominated := rcheck.useCandidate || c.nominated })
          Check.state (fun _ _ => rfl)
        have flagged : Sound none (Session.modifyCheck { ice with rcand := list } i
            (fun c => { c with nominated := rcheck.useCandidate || c.nominated })) :=
          learnt.calmer marks rfl rfl rfl rfl rfl rfl rfl
        dsimp only [Session.modifyCheck]
        rw [value]
        have goesOn : Follows resent _ _ := flagged.triggerCheck net i _ rcheck.useCandidate value ?_
        · refine ⟨goesOn.sound,goesOn.rests,fun condition ticks => goesOn.ticks condition ?_⟩
          refine ticks.fewer ?_ rfl rfl rfl
          intro state listed isOpen
          change state ∈ (ice.clist.modify i _).map Check.state at listed
          rw [states] at listed
          exact ⟨state,listed,isOpen⟩
        · intro failed
          have old : ice.Rests := rests (by
            have failed : ice.clist[i].state = .failed := failed
            rw [failed]
            rfl)
          exact old.same states rfl rfl rfl rfl rfl

theorem targetSame (ice out : Session) (rcand : out.rcand = ice.rcand) (clist : out.clist = ice.clist) (rcheck : RxCheck) :
    out.target rcheck = ice.target rcheck := by
  have remote : (out.remoteCand rcheck).map Prod.fst = (ice.remoteCand rcheck).map Prod.fst := by
    unfold Session.remoteCand
    rw [rcand]
    split
    · rfl
    · split
      · rfl
      · rfl
  unfold Session.target
  rw [remote,clist]

def Session.handles (ice : Session) (req : RxRequest) (answered : Bool) : Bool :=
  req.hasPriority && (ice.repairRole req.roleAttr).isSome && answered && ice.rcand ≠ []

/- A controlled agent that waits for the peer alone stays controlled, or the request gives it something to do. -/
def Session.keepsWaiting (ice : Session) : Input → Bool
  | .changeRole role => !ice.awaitsPeer || role = .controlled
  | .request req answered =>
    !ice.awaitsPeer || !req.hasPriority || (ice.repairRole req.roleAttr).all (fun out => out.role = .controlled) ||
      (ice.handles req answered && ice.advances req.rcheck)
  | _ => true

/- A request that is repeated, or sent for a new pair, goes out, or a timer is there to try it again. -/
def Session.resends (net : Network) (ice : Session) : Input → Prop
  | .complete tdata .roleConflict =>
    ice.requests.any (fun r => r.tdata = tdata) = true → net ice.created = .sent ∨ ice.Timed
  | .request req answered =>
    ice.handles req answered = true → ice.target req.rcheck = some none → net ice.created = .sent ∨ ice.Timed
  | _ => True

theorem repairRoleOnly (ice repaired : Session) (attr : Option (RoleAttr × Nat))
    (known : ice.repairRole attr = some repaired) :
    ∃ role changes, repaired = { ice with role := role, roleChanges := changes } := by
  unfold Session.repairRole at known
  split at known
  · split at known
    · split at known
      · obtain ⟨changes,made⟩ := changeRoleOnly ice .controlled
        exact ⟨.controlled,changes,(Option.some.inj known).symm.trans made⟩
      · contradiction
    · exact ⟨ice.role,ice.roleChanges,(Option.some.inj known).symm⟩
  · split at known
    · split at known
      · contradiction
      · obtain ⟨changes,made⟩ := changeRoleOnly ice .controlling
        exact ⟨.controlling,changes,(Option.some.inj known).symm.trans made⟩
    · exact ⟨ice.role,ice.roleChanges,(Option.some.inj known).symm⟩
  · exact ⟨ice.role,ice.roleChanges,(Option.some.inj known).symm⟩

theorem turnedRests (rests : ice.Rests) (role : Role) (changes : List Role)
    (kept : ice.awaitsPeer = true → role = .controlled) :
    ({ ice with role := role, roleChanges := changes } : Session).Rests := by
  intro listed completed
  by_cases waits : ice.isComplete = true ∨ ice.timer ≠ .none ∨ ice.requests ≠ []
  · rcases waits with h | h | h
    · exact .inl h
    · exact .inr (.inl h)
    · exact .inr (.inr (.inl h))
  · obtain ⟨incomplete,off,answered⟩ : ice.isComplete ≠ true ∧ ice.timer = .none ∧ ice.requests = [] := by
      simpa only [not_or,not_not] using waits
    rcases rests listed completed with h | h | h | ⟨controlled,infinite⟩
    · exact absurd h incomplete
    · exact absurd off h
    · exact absurd answered h
    · refine .inr (.inr (.inr ⟨kept ?_,infinite⟩))
      have listed : ice.clist ≠ [] := listed
      have completed : ice.allCompleted = true := completed
      simp [Session.awaitsPeer,controlled,listed,completed,incomplete,off,answered]

theorem Sound.onStunRxRequest (sound : Sound none ice) (rests : ice.Rests) (net : Network) (req : RxRequest)
    (answered : Bool) (kept : ice.keepsWaiting (.request req answered) = true) :
    Follows (ice.resends net (.request req answered)) ice (ice.onStunRxRequest net req answered).2 := by
  unfold Session.onStunRxRequest
  split
  · exact ⟨sound,rests,fun _ => id⟩
  · rename_i priority
    have priority : req.hasPriority = true := not_not.mp priority
    cases known : ice.repairRole req.roleAttr with
    | none => exact ⟨sound,rests,fun _ => id⟩
    | some repaired =>
      obtain ⟨role,changes,rfl⟩ := repairRoleOnly ice repaired req.roleAttr known
      have keeps : ice.handles req answered = false ∨ ice.advances req.rcheck = false →
          ice.awaitsPeer = true → role = .controlled := by
        intro idle awaits
        have idle : (ice.handles req answered && ice.advances req.rcheck) = false :=
          (Bool.and_eq_false_iff).mpr idle
        simpa [Session.keepsWaiting,awaits,priority,known,idle] using kept
      have turned : ∀ heard : List Addr, Sound none
          { ice with role := role, roleChanges := changes, nominations := heard } := fun _ =>
        sound.same rfl rfl rfl rfl rfl rfl rfl
      dsimp only
      split
      · rename_i silent
        have idle : ice.handles req answered = false := by simp [Session.handles,silent]
        exact ⟨turned ice.nominations,turnedRests rests role changes (keeps (.inl idle)),fun _ => id⟩
      · rename_i answers
        obtain ⟨heard,noted⟩ : ∃ heard, (if req.rcheck.useCandidate then
            ({ ice with role := role, roleChanges := changes, nominations := req.rcheck.srcAddr :: ice.nominations } : Session)
          else { ice with role := role, roleChanges := changes }) =
            { ice with role := role, roleChanges := changes, nominations := heard } := by
          split
          · exact ⟨_,rfl⟩
          · exact ⟨ice.nominations,rfl⟩
        rw [noted]
        split
        · rename_i early
          have early : ice.rcand = [] := early
          have idle : ice.handles req answered = false := by simp [Session.handles,early]
          exact ⟨(turned heard).same rfl rfl rfl rfl rfl rfl rfl,
            turnedRests rests role changes (keeps (.inl idle)),fun _ => id⟩
        · rename_i listed
          have listed : ice.rcand ≠ [] := listed
          have handled : ice.handles req answered = true := by
            have answers : answered = true := not_not.mp answers
            simp [Session.handles,priority,known,answers,listed]
          have same := targetSame ice { ice with role := role, roleChanges := changes, nominations := heard } rfl rfl
            req.rcheck
          have goesOn : Follows (ice.resends net (.request req answered))
              { ice with role := role, roleChanges := changes, nominations := heard }
              (Session.handleIncomingCheck net { ice with role := role, roleChanges := changes, nominations := heard }
                req.rcheck) := by
            refine (turned heard).handleIncomingCheck net req.rcheck ?_ ?_
            · intro idle
              unfold Session.advances at idle
              rw [same] at idle
              exact turnedRests rests role changes (keeps (.inr idle))
            · intro condition opens
              exact condition handled (same.symm.trans opens)
          exact ⟨goesOn.sound,goesOn.rests,goesOn.ticks⟩

theorem thawCalmer (compId : Nat) (seen : List (List Char)) (list : List Check) :
    Calmer list (thaw compId seen list) ∧
      (thaw compId seen list).map (fun c => decide (CheckState.succeeded.num ≤ c.state.num)) =
        list.map (fun c => decide (CheckState.succeeded.num ≤ c.state.num)) := by
  induction list generalizing seen with
  | nil => exact ⟨calmerRefl [],rfl⟩
  | cons c rest ih =>
    have joins : ∀ (d : Check) (tail : List Check), d.key = c.key →
        (d.state = .inProgress → c.state = .inProgress ∧ c.tdata = d.tdata) → Calmer rest tail →
        Calmer (c :: rest) (d :: tail) := by
      intro d tail key running calmer
      refine ⟨by rw [List.map_cons,List.map_cons,key,calmer.keys],?_⟩
      intro i e here progress
      cases i with
      | zero =>
        obtain rfl := Option.some.inj here
        obtain ⟨was,tdata⟩ := running progress
        exact ⟨c,rfl,was,tdata⟩
      | succ i => exact calmer.running i e here progress
    unfold thaw
    split
    · obtain ⟨calmer,completed⟩ := ih (c.lcand.foundation :: seen)
      split
      · rename_i frozen
        refine ⟨joins _ _ rfl (by simp) calmer,?_⟩
        rw [List.map_cons,List.map_cons,completed,frozen]
        rfl
      · refine ⟨joins _ _ rfl (fun progress => ⟨progress,rfl⟩) calmer,?_⟩
        rw [List.map_cons,List.map_cons,completed]
    · obtain ⟨calmer,completed⟩ := ih seen
      refine ⟨joins _ _ rfl (fun progress => ⟨progress,rfl⟩) calmer,?_⟩
      rw [List.map_cons,List.map_cons,completed]

theorem Sound.handleEarly (net : Network) (early : List RxCheck) (sound : Sound none ice) (rests : ice.Rests) :
    Sound none (early.foldl (Session.handleIncomingCheck net) ice) ∧
      (early.foldl (Session.handleIncomingCheck net) ice).Rests := by
  induction early generalizing ice with
  | nil => exact ⟨sound,rests⟩
  | cons rcheck rest ih =>
    have handled : Follows False ice (ice.handleIncomingCheck net rcheck) :=
      sound.handleIncomingCheck net rcheck (fun _ => rests) nofun
    exact ih handled.sound handled.rests

theorem Sound.startCheck (sound : Sound none ice) (rests : ice.Rests) (net : Network) :
    Follows resent ice (ice.startCheck net) ∧
      (ice.clist.any (fun c => c.lcand.compId = 1) = true → (ice.startCheck net).clistTimer = true) := by
  unfold Session.startCheck
  dsimp only
  obtain ⟨flag,nominating⟩ : ∃ flag, (if ice.aggressive then { ice with isNominating := true } else ice) =
      { ice with isNominating := flag } := by
    split
    · exact ⟨true,rfl⟩
    · exact ⟨ice.isNominating,rfl⟩
  rw [nominating]
  have begun : Sound none { ice with isNominating := flag } := sound.same rfl rfl rfl rfl rfl rfl rfl
  split
  · obtain ⟨calmer,completed⟩ := thawCalmer 1 [] ice.clist
    have thawed : Sound none { ice with isNominating := flag, clist := thaw 1 [] ice.clist } :=
      begun.calmer calmer rfl rfl rfl rfl rfl rfl rfl
    have thawedRests : Session.Rests { ice with isNominating := flag, clist := thaw 1 [] ice.clist } := by
      intro listed finished
      refine rests ?_ ?_
      · intro empty
        refine listed ?_
        change thaw 1 [] ice.clist = []
        rw [empty]
        rfl
      · have same := congrArg (fun flags => flags.all id) completed
        simp only [List.all_map] at same
        exact same.symm.trans finished
    obtain ⟨handled,handledRests⟩ := thawed.handleEarly net ice.earlyCheck thawedRests
    exact ⟨⟨handled.same rfl rfl rfl rfl rfl rfl rfl,handledRests,fun _ _ _ => .inl rfl⟩,fun _ => rfl⟩
  · rename_i missing
    exact ⟨⟨begun,rests,fun _ => id⟩,fun some => absurd some missing⟩

theorem createCheckListComps (ice : Session) (remote : List Cand) : ∀ c ∈ (ice.createCheckList remote).comp, c ∈ ice.comp := by
  unfold Session.createCheckList
  split
  · exact fun _ => id
  · dsimp only
    split
    · exact fun _ => id
    · split
      · exact fun _ => id
      · exact fun c => List.mem_of_mem_take

theorem Sound.createCheckList (sound : Sound none ice) (rests : ice.Rests) (empty : ice.clist = []) (remote : List Cand) :
    Sound none (ice.createCheckList remote) ∧ (ice.createCheckList remote).Rests := by
  have comps := createCheckListComps ice remote
  rcases createCheckListOnly ice remote with refused | ⟨rcand,clist,comp,made,_,plain⟩
  · rw [refused]
    exact ⟨sound,rests⟩
  rw [made] at comps ⊢
  have noRequest : ∀ r, r ∉ ice.requests := by
    intro r member
    obtain ⟨k,place,_⟩ := sound.placed r member
    rw [empty] at place
    contradiction
  have noValid : ice.validList = [] := by
    refine List.eq_nil_iff_forall_not_mem.mpr (fun v member => ?_)
    have listed := sound.goes v member
    rw [empty] at listed
    contradiction
  have noPointer : ∀ c ∈ ice.comp, c.validCheck = none := by
    intro c member
    refine Option.eq_none_iff_forall_ne_some.mpr (fun p place => ?_)
    have below := sound.points c member p place
    rw [noValid] at below
    exact Nat.not_lt_zero p below
  refine ⟨⟨sound.distinct,sound.bounded,?_,?_,?_,?_,?_,sound.finished⟩,?_⟩
  · exact fun r member => absurd member (noRequest r)
  · intro i c _ here progress
    have frozen := (plain c (List.mem_of_getElem? here)).frozen
    rw [frozen] at progress
    contradiction
  · intro v member
    have member : v ∈ ice.validList := member
    rw [noValid] at member
    contradiction
  · intro c member p place
    rw [noPointer c (comps c member)] at place
    contradiction
  · intro timed
    obtain ⟨some,valid⟩ := sound.delayed timed
    obtain ⟨c,first⟩ := List.exists_mem_of_ne_nil _ some
    have pointed := List.all_eq_true.mp valid c first
    rw [noPointer c first] at pointed
    contradiction
  · intro listed
    obtain ⟨c,first⟩ := List.exists_mem_of_ne_nil _ listed
    have frozen : CheckState.frozen ∈ clist.map Check.state := List.mem_map.mpr ⟨c,first,(plain c first).frozen⟩
    have early : CheckState.frozen.num < CheckState.succeeded.num := by decide
    exact restsEarly frozen early listed

end Completing

theorem Moves.listed {ice out : Session} (moves : Moves ice out) (listed : ice.clist ≠ []) : out.clist ≠ [] := by
  induction moves with
  | keep role lcand rcand clist =>
    intro empty
    rw [empty] at clist
    exact listed (List.map_eq_nil_iff.mp clist.symm)
  | learnLocal | learnRemote => exact listed
  | addCheck => exact List.append_ne_nil_of_left_ne_nil listed _
  | trans first next ihFirst ihNext => exact ihNext (ihFirst listed)

theorem stepListed (ice : Session) (input : Input) (listed : ice.clist ≠ []) :
    (ice.step net input).clist ≠ [] := by
  cases stepShape net ice input with
  | moves shape => exact shape.listed listed
  | turns start role first pairs next =>
    obtain ⟨changes,changed⟩ := changeRoleOnly start role
    refine next.listed ?_
    rw [changed]
    exact first.listed listed
  | lists remote empty none => exact absurd none listed
  | succeeds tdata srcAddr mapped req check lcand start isInput known here source found first next =>
    exact next.listed (first.listed listed)

/- What the check list needs of a step, before it is started and after. -/
def Session.calm (ice : Session) (input : Input) : Prop :=
  ice.keepsWaiting input = true ∧ ice.sameTransport input = true

instance Session.decidableCalm (ice : Session) (input : Input) : Decidable (ice.calm input) :=
  inferInstanceAs (Decidable (_ ∧ _))

instance Session.decidableTimed (ice : Session) : Decidable ice.Timed := inferInstanceAs (Decidable (_ ∨ _ ∨ _))

instance Session.decidableResends (net : Network) (ice : Session) : ∀ input, Decidable (ice.resends net input)
  | .complete tdata .roleConflict =>
    inferInstanceAs (Decidable (ice.requests.any (fun r => r.tdata = tdata) = true → net ice.created = .sent ∨ ice.Timed))
  | .request req answered =>
    inferInstanceAs (Decidable
      (ice.handles req answered = true → ice.target req.rcheck = some none → net ice.created = .sent ∨ ice.Timed))
  | .complete _ (.failure _) | .complete _ (.success _ _) | .createCheckList _ | .startCheck | .periodic | .timer
  | .changeRole _ => inferInstanceAs (Decidable True)

theorem stepFollows (ice : Session) (input : Input) (sound : Sound none ice) (rests : ice.Rests)
    (calm : ice.calm input) : Follows (ice.clist ≠ [] ∧ ice.resends net input) ice (ice.step net input) := by
  cases input with
  | createCheckList remote =>
    rw [Session.step]
    split
    · rename_i fresh
      obtain ⟨made,madeRests⟩ := sound.createCheckList rests fresh.2 remote
      exact ⟨made,madeRests,fun condition => absurd fresh.2 condition.1⟩
    · exact ⟨sound,rests,fun _ => id⟩
  | startCheck =>
    rw [Session.step]
    split
    · exact ⟨sound,rests,fun _ => id⟩
    · exact (sound.startCheck rests net).1
  | periodic =>
    rw [Session.step]
    split
    · exact sound.startPeriodicCheck rests net
    · exact ⟨sound,rests,fun _ => id⟩
  | timer => exact sound.onTimer rests
  | complete tdata result =>
    rw [Session.step]
    cases known : ice.requests.find? (fun r => r.tdata = tdata) with
    | none => exact ⟨sound,rests,fun _ => id⟩
    | some req =>
      refine sound.onStunRequestComplete net tdata result known calm.2 ?_
      rintro ⟨_,resends⟩ rfl
      have listed : ice.requests.any (fun r => r.tdata = tdata) = true :=
        List.any_eq_true.mpr ⟨req,List.mem_of_find?_eq_some known,by simpa using List.find?_some known⟩
      exact resends listed
  | request req answered =>
    have handled := sound.onStunRxRequest rests net req answered calm.1
    exact ⟨handled.sound,handled.rests,fun condition => handled.ticks condition.2⟩
  | changeRole role =>
    obtain ⟨changes,changed⟩ := changeRoleOnly ice role
    have turned := sound.changeRole role
    change Follows _ ice (ice.changeRole role)
    rw [changed] at turned ⊢
    refine ⟨turned,turnedRests rests role changes ?_,fun _ => id⟩
    intro awaits
    have kept := calm.1
    simpa [Session.keepsWaiting,awaits] using kept

/- Every event of a history meets a condition on the state before it. -/
def Session.everyAction (net : Network) (ok : Session → Input → Prop) : Session → List Action → Prop
  | _, [] => True
  | ice, .input input :: rest => ok ice input ∧ (ice.step net input).everyAction net ok rest
  | ice, action :: rest => (ice.act net action).everyAction net ok rest

instance Session.decidableEveryAction (net : Network) (ok : Session → Input → Prop)
    [known : ∀ ice input, Decidable (ok ice input)] : ∀ ice actions, Decidable (Session.everyAction net ok ice actions)
  | _, [] => inferInstanceAs (Decidable True)
  | ice, .addCand c t y l f a b :: rest =>
    Session.decidableEveryAction net ok (ice.act net (.addCand c t y l f a b)) rest
  | ice, .input input :: rest =>
    match known ice input, Session.decidableEveryAction net ok (ice.step net input) rest with
    | .isTrue head, .isTrue tail => .isTrue ⟨head,tail⟩
    | .isFalse head, _ => .isFalse (fun h => head h.1)
    | _, .isFalse tail => .isFalse (fun h => tail h.2)

theorem addCandKeeps (ice : Session) (compId transportId : Nat) (type : CandType) (localPref : Nat)
    (foundation : List Char) (addr baseAddr : Addr) :
    ∃ lcand, ice.addCand compId transportId type localPref foundation addr baseAddr = { ice with lcand := lcand } := by
  unfold Session.addCand
  split
  · exact ⟨ice.lcand,rfl⟩
  · exact ⟨_,rfl⟩

/- What holds of every state of a history; started says that the checks are. -/
structure Going (started : Bool) (ice : Session) : Prop where
  sound : Sound none ice
  rests : ice.Rests
  ticks : started = true → ice.clist ≠ [] ∧ ice.Ticks

theorem actsGoing (started : Bool) (actions : List Action) (ice : Session) (going : Going started ice)
    (calm : ice.everyAction net Session.calm actions)
    (resends : started = true → ice.everyAction net (Session.resends net) actions) :
    Going started (ice.acts net actions) := by
  induction actions generalizing ice with
  | nil => exact going
  | cons action rest ih =>
    cases action with
    | addCand compId transportId type localPref foundation addr baseAddr =>
      refine ih (ice.addCand compId transportId type localPref foundation addr baseAddr) ?_ calm resends
      obtain ⟨lcand,made⟩ := addCandKeeps ice compId transportId type localPref foundation addr baseAddr
      rw [made]
      exact ⟨going.sound.same rfl rfl rfl rfl rfl rfl rfl,going.rests,going.ticks⟩
    | input input =>
      have followed := stepFollows net ice input going.sound going.rests calm.1
      refine ih (ice.step net input) ⟨followed.sound,followed.rests,fun on => ?_⟩ calm.2 (fun on => (resends on).2)
      obtain ⟨listed,ticks⟩ := going.ticks on
      exact ⟨stepListed net ice input listed,followed.ticks ⟨listed,(resends on).1⟩ ticks⟩

theorem createdGoing (ice : Session) (created : Created ice) : Going false ice := by
  have noRequest : ∀ r, r ∉ ice.requests := fun r => created.requests ▸ List.not_mem_nil
  have noPointer : ∀ c ∈ ice.comp, c.validCheck = none := fun c member => by rw [created.comp c member]
  refine ⟨⟨?_,?_,?_,?_,?_,?_,?_,?_⟩,fun listed => absurd created.clist listed,nofun⟩
  · rw [created.requests]
    exact List.Pairwise.nil
  · exact fun r member => absurd member (noRequest r)
  · exact fun r member => absurd member (noRequest r)
  · intro i c _ here _
    rw [created.clist] at here
    contradiction
  · intro v member
    rw [created.validList] at member
    contradiction
  · intro c member p place
    rw [noPointer c member] at place
    contradiction
  · rw [created.timer]
    exact nofun
  · rw [created.timer]
    exact fun other => by rcases other with h | h <;> contradiction

/- A session that goes on waits for something, unless it waits for the peer without end. -/
def Session.isPending (ice : Session) : Prop :=
  ice.clistTimer = true ∨ ice.requests ≠ [] ∨
    ice.timer = .startNominatedCheck ∨ ice.timer = .controlledWaitNom ∨ ice.timer = .completionCallback ∨
    (ice.role = .controlled ∧ ice.waitsForNomination = false)

theorem goingPending {ice : Session} (going : Going true ice) (incomplete : ice.isComplete = false) : ice.isPending := by
  obtain ⟨listed,ticks⟩ := going.ticks rfl
  have timed : ice.timer ≠ .none → ice.isPending := by
    intro on
    cases fired : ice.timer with
    | none => exact absurd fired on
    | completionCallback => exact .inr (.inr (.inr (.inr (.inl fired))))
    | controlledWaitNom => exact .inr (.inr (.inr (.inl fired)))
    | startNominatedCheck => exact .inr (.inr (.inl fired))
    | keepAlive =>
      rw [going.sound.finished (.inr fired)] at incomplete
      contradiction
  by_cases completed : ice.allCompleted = true
  · rcases going.rests listed completed with h | h | h | h
    · rw [h] at incomplete
      contradiction
    · exact timed h
    · exact .inr (.inl h)
    · exact .inr (.inr (.inr (.inr (.inr h))))
  · -- a check that is not completed is open or in progress
    obtain ⟨c,member,early⟩ : ∃ c ∈ ice.clist, ¬ CheckState.succeeded.num ≤ c.state.num := by
      simpa [Session.allCompleted] using completed
    by_cases isOpen : c.state.isOpen = true
    · rcases ticks ⟨c.state,List.mem_map_of_mem member,isOpen⟩ with h | h | h
      · exact .inl h
      · exact timed h
      · rw [h] at incomplete
        contradiction
    · have progress : c.state = .inProgress := by
        cases state : c.state <;> simp [state,CheckState.isOpen,CheckState.num] at isOpen early ⊢
      obtain ⟨i,here⟩ := List.mem_iff_getElem?.mp member
      obtain ⟨r,outstanding,_⟩ := going.sound.attended i c (by simp) here progress
      exact .inr (.inl (List.ne_nil_of_mem outstanding))

theorem everyActionAppend (ok : Session → Input → Prop) (ice : Session) (before after : List Action) :
    ice.everyAction net ok (before ++ after) ↔
      ice.everyAction net ok before ∧ (ice.acts net before).everyAction net ok after := by
  induction before generalizing ice with
  | nil => exact ⟨fun h => ⟨trivial,h⟩,fun h => h.2⟩
  | cons action rest ih =>
    cases action with
    | addCand compId transportId type localPref foundation addr baseAddr =>
      exact ih (ice.addCand compId transportId type localPref foundation addr baseAddr)
    | input input =>
      have tail := ih (ice.step net input)
      exact ⟨fun h => ⟨⟨h.1,(tail.mp h.2).1⟩,(tail.mp h.2).2⟩,fun h => ⟨h.1.1,tail.mpr ⟨h.1.2,h.2⟩⟩⟩

theorem neverStuck (net : Network) (ice : Session) (created : Created ice) (before after : List Action)
    (some : (ice.acts net before).clist.any (fun c => c.lcand.compId = 1) = true)
    (calm : ice.everyAction net Session.calm (before ++ [.input .startCheck] ++ after))
    (resends : (ice.acts net (before ++ [.input .startCheck])).everyAction net (Session.resends net) after) :
    (ice.acts net (before ++ [.input .startCheck] ++ after)).isComplete = false →
      (ice.acts net (before ++ [.input .startCheck] ++ after)).isPending := by
  obtain ⟨calmStart,calmAfter⟩ := (everyActionAppend net Session.calm ice _ after).mp calm
  obtain ⟨calmBefore,calmNow⟩ := (everyActionAppend net Session.calm ice before _).mp calmStart
  have begun := actsGoing net false before ice (createdGoing ice created) calmBefore nofun
  have started : Going true (ice.acts net (before ++ [.input .startCheck])) := by
    have split : ice.acts net (before ++ [.input .startCheck]) = (ice.acts net before).step net .startCheck :=
      List.foldl_append
    generalize ice.acts net before = first at some begun calmNow split
    have listed : first.clist ≠ [] := by
      intro empty
      rw [empty] at some
      contradiction
    have followed := stepFollows net first .startCheck begun.sound begun.rests calmNow.1
    rw [split]
    refine ⟨followed.sound,followed.rests,fun _ => ⟨stepListed net first .startCheck listed,fun _ => .inl ?_⟩⟩
    rw [Session.step,if_neg listed]
    have starts : Follows True first (first.startCheck net) ∧ _ := begun.sound.startCheck begun.rests net
    exact starts.2 some
  intro incomplete
  have split : ice.acts net (before ++ [.input .startCheck] ++ after) =
      (ice.acts net (before ++ [.input .startCheck])).acts net after := List.foldl_append
  have going := actsGoing net true after _ started calmAfter (fun _ => resends)
  rw [← split] at going
  exact goingPending going incomplete

/- The only check is in progress when the timer of the list fires again; its request is answered with 487, and the
repeated request does not go out. -/
def conflictAfterTimer : List Action :=
  [.input .periodic,.input .periodic,.input (.complete 0 .roleConflict)]

def failsOnce (k : Nat) : Sending := if k = 1 then .notSent ⟨120101,by decide⟩ else .sent

theorem stuckAfterConflict :
    ¬ ∀ (net : Network) (ice : Session), Created ice → ∀ before after : List Action,
      (ice.acts net before).clist.any (fun c => c.lcand.compId = 1) = true →
      (ice.acts net (before ++ [.input .startCheck] ++ after)).isComplete = false →
      (ice.acts net (before ++ [.input .startCheck] ++ after)).isPending := by
  intro claim
  have pending := claim failsOnce (newSession .controlling 10 false [hostCand 0 7]) (newSessionCreated _ _ _ _)
    [.input (.createCheckList [hostCand 0 9])] conflictAfterTimer (by decide +kernel) (by decide +kernel)
  revert pending
  generalize result : (newSession .controlling 10 false [hostCand 0 7]).acts failsOnce
    ([.input (.createCheckList [hostCand 0 9])] ++ [.input .startCheck] ++ conflictAfterTimer) = out
  have stuck : out.clistTimer = false ∧ out.requests = [] ∧ out.timer = .none ∧ out.waitsForNomination = true := by
    rw [← result]
    decide +kernel
  intro pending
  obtain ⟨off,answered,idle,waits⟩ := stuck
  rcases pending with h | h | h | h | h | h
  · rw [off] at h
    contradiction
  · exact h answered
  · rw [idle] at h
    contradiction
  · rw [idle] at h
    contradiction
  · rw [idle] at h
    contradiction
  · rw [waits] at h
    exact nomatch h.2

/- The same history on a network that takes every request. -/
theorem conflictAnsweredAgain :
    ((newSession .controlling 10 false [hostCand 0 7]).acts (fun _ => .sent)
      ([.input (.createCheckList [hostCand 0 9])] ++ [.input .startCheck] ++ conflictAfterTimer)).isPending :=
  neverStuck (fun _ => .sent) _ (newSessionCreated .controlling 10 false [hostCand 0 7])
    [.input (.createCheckList [hostCand 0 9])] conflictAfterTimer (by decide +kernel) (by decide +kernel)
    (by decide +kernel) (by decide +kernel)

end Pjproject.Ice
