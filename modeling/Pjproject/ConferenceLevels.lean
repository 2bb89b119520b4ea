import Pjproject.ConferenceGraph

/-! The adjustment level of each connection of the conference bridge. Levels lie in an array beside the listeners; when a
listener is erased the levels stay where they are, and what get_frame applies is what was given for a connection as long as
the levels behind the erased place are alike. -/
namespace Pjproject.Conference

/- One sample with the level of a connection, in signed 32-bit arithmetic. -/
def leveled (adjLevel sample : Int) : Int :=
  if adjLevel ≠ normalLevel then
    let itemp := Int.bmod (sample * adjLevel) (2 ^ 32) >>> 7
    if itemp > 32767 then 32767 else if itemp < -32768 then -32768 else itemp
  else sample

/- The loop of get_frame over the listeners of a port, up to the mixing: the samples that go to each listener whose
transmission is enabled. -/
def mixListeners (enabled : Nat → Bool) (pIn : List Int) (confPort : Port) : List (Nat × List Int) :=
  (List.range confPort.listenerSlots.length).filterMap fun cj =>
    confPort.listenerSlots[cj]?.bind fun slot =>
      if enabled slot then some (slot, pIn.map (leveled (confPort.listenerAdjLevel cj))) else none

/- What has been given for each pair of ports. -/
def setLevel (given : Nat → Nat → Int) (srcSlot sinkSlot : Nat) (adjLevel : Int) : Nat → Nat → Int :=
  fun src sink => if src = srcSlot ∧ sink = sinkSlot then adjLevel else given src sink

/- A call of connect_port gives a level when it makes the connection, one of adjust_conn_level when it succeeds. -/
def give (given : Nat → Nat → Int) (before after : Conf) (status : Status) : Call → Nat → Nat → Int
  | .connectPort srcSlot sinkSlot adjLevel =>
    if listing sinkSlot (before.port srcSlot) = false ∧ listing sinkSlot (after.port srcSlot) = true
    then setLevel given srcSlot sinkSlot adjLevel else given
  | .adjustConnLevel srcSlot sinkSlot adjLevel =>
    if status = .success then setLevel given srcSlot sinkSlot adjLevel else given
  | _ => given

def runGiven : Conf → (Nat → Nat → Int) → List Call → Option (Conf × (Nat → Nat → Int))
  | conf, given, [] => some (conf, given)
  | conf, given, call :: calls =>
    match conf.call call with
    | some (conf', status) => runGiven conf' (give given conf conf' status call) calls
    | none => none

/- Every listener is mixed with the level given for its connection. -/
def MixedAsGiven (conf : Conf) (given : Nat → Nat → Int) : Prop :=
  ∀ src confPort, conf.port src = some confPort → ∀ enabled pIn, mixListeners enabled pIn confPort =
    (confPort.listenerSlots.filter enabled).map fun sink => (sink, pIn.map (leveled (given src sink + normalLevel)))

/- From the place of a listener on, all levels are the same. -/
def LevelBehind (port : Port) (sink : Nat) : Prop :=
  ∀ j < port.listenerSlots.length - 1, port.listenerSlots.idxOf sink ≤ j →
    port.listenerAdjLevel j = port.listenerAdjLevel (j + 1)

instance (port sink) : Decidable (LevelBehind port sink) := by unfold LevelBehind; infer_instance

/- The condition on the state before a call: a listener is erased only where the levels behind it are alike. -/
def Undisturbing (conf : Conf) : Call → Prop
  | .disconnectPort srcSlot sinkSlot =>
    ∀ port ∈ conf.port srcSlot, sinkSlot ∈ port.listenerSlots → LevelBehind port sinkSlot
  | .removePort sinkSlot => ∀ src < conf.maxPorts.toNat, src ≠ sinkSlot →
    ∀ port ∈ conf.port src, sinkSlot ∈ port.listenerSlots → LevelBehind port sinkSlot
  | _ => True

instance (conf call) : Decidable (Undisturbing conf call) := by
  cases call <;> unfold Undisturbing <;> infer_instance

def Undisturbed : Conf → List Call → Prop
  | _, [] => True
  | conf, call :: calls =>
    Undisturbing conf call ∧ ∀ next ∈ conf.call call, Undisturbed next.1 calls

def decideUndisturbed : ∀ conf calls, Decidable (Undisturbed conf calls)
  | _, [] => isTrue trivial
  | conf, call :: calls =>
    have : ∀ next : Conf × Status, Decidable (Undisturbed next.1 calls) := fun next => decideUndisturbed next.1 calls
    inferInstanceAs (Decidable (Undisturbing conf call ∧ ∀ next ∈ conf.call call, Undisturbed next.1 calls))

instance (conf calls) : Decidable (Undisturbed conf calls) := decideUndisturbed conf calls

def PortLeveled (port : Port) (row : Nat → Int) : Prop :=
  ∀ i sink, port.listenerSlots[i]? = some sink → port.listenerAdjLevel i = row sink + normalLevel

def Leveled (conf : Conf) (given : Nat → Nat → Int) : Prop :=
  ∀ src port, conf.port src = some port → PortLeveled port (given src)

theorem setLevelRow (given : Nat → Nat → Int) (src sink : Nat) (adjLevel : Int) :
    setLevel given src sink adjLevel src = Function.update (given src) sink adjLevel := by
  funext other
  unfold setLevel
  rw [Function.update_apply]
  simp

theorem setLevelOthers (given : Nat → Nat → Int) {src other : Nat} (sink : Nat) (adjLevel : Int) (apart : other ≠ src) :
    setLevel given src sink adjLevel other = given other := by
  funext slot
  exact if_neg (fun both => apart both.1)

variable {port : Port} {row : Nat → Int} {conf conf' : Conf} {given : Nat → Nat → Int} {slot srcSlot sinkSlot : Nat}
  {change : Port → Port} {status : Status}

theorem PortLeveled.listen (leveled : PortLeveled port row) {sink : Nat}
    (adjLevel : Int) (absent : sink ∉ port.listenerSlots) :
    PortLeveled (port.listen sink adjLevel) (Function.update row sink adjLevel) := by
  intro i slot place
  simp only [Port.listen] at place ⊢
  by_cases last : i = port.listenerSlots.length
  · rw [last,List.getElem?_concat_length] at place
    cases place
    rw [if_pos last,Function.update_self]
  · have inside : i < port.listenerSlots.length := by
      have bound := (List.getElem?_eq_some_iff.mp place).1
      rw [List.length_append,List.length_singleton] at bound
      omega
    rw [List.getElem?_append_left inside] at place
    have apart : slot ≠ sink := fun same => absent (same ▸ List.mem_of_getElem? place)
    rw [if_neg last,Function.update_of_ne apart]
    exact leveled i slot place

theorem PortLeveled.unlisten (leveled : PortLeveled port row) {sink : Nat}
    (alike : LevelBehind port sink) : PortLeveled (port.unlisten sink) row := by
  intro i slot place
  have erased : (port.unlisten sink).listenerSlots = port.listenerSlots.eraseIdx (port.listenerSlots.idxOf sink) :=
    List.erase_eq_eraseIdx_of_idxOf rfl
  rw [erased,List.getElem?_eraseIdx] at place
  show port.listenerAdjLevel i = row slot + normalLevel
  split at place
  · exact leveled i slot place
  next behind =>
    have inside := (List.getElem?_eq_some_iff.mp place).1
    rw [alike i (by omega) (Nat.not_lt.mp behind)]
    exact leveled (i + 1) slot place

theorem PortLeveled.adjust (leveled : PortLeveled port row)
    (distinct : port.listenerSlots.Nodup) (sink : Nat) (adjLevel : Int) : PortLeveled { port with
        listenerAdjLevel :=
          Function.update port.listenerAdjLevel (port.listenerSlots.idxOf sink) (adjLevel + normalLevel) }
      (Function.update row sink adjLevel) := by
  intro i slot place
  obtain ⟨inside,held⟩ := List.getElem?_eq_some_iff.mp place
  simp only
  by_cases here : slot = sink
  · have found : i = port.listenerSlots.idxOf sink := by
      rw [← here,← held]
      exact (distinct.idxOf_getElem i inside).symm
    rw [here,found,Function.update_self,Function.update_self]
  · have apart : i ≠ port.listenerSlots.idxOf sink := by
      intro same
      rw [same,List.getElem?_idxOf (List.idxOf_lt_length_iff.mp (same ▸ inside))] at place
      exact here (Option.some.inj place).symm
    rw [Function.update_of_ne apart,Function.update_of_ne here]
    exact leveled i slot place

theorem placesOf {α : Type} (l : List α) : (List.range l.length).filterMap (fun i => l[i]?) = l := by
  induction l with
  | nil => rfl
  | cons a rest ih =>
    rw [List.length_cons,List.range_succ_eq_map,List.filterMap_cons,List.filterMap_map]
    exact congrArg (a :: ·) ih

theorem mixedLeveled (given : PortLeveled port row) (enabled : Nat → Bool)
    (pIn : List Int) : mixListeners enabled pIn port =
      (port.listenerSlots.filter enabled).map fun sink => (sink, pIn.map (leveled (row sink + normalLevel))) := by
  have bySlot : mixListeners enabled pIn port = (List.range port.listenerSlots.length).filterMap fun cj =>
      port.listenerSlots[cj]?.bind fun slot =>
        if enabled slot then some (slot, pIn.map (leveled (row slot + normalLevel))) else none := by
    refine List.filterMap_congr (fun cj _ => ?_)
    cases place : port.listenerSlots[cj]? with
    | none => rfl
    | some slot => rw [Option.bind_some,Option.bind_some,given cj slot place]
  rw [bySlot,← List.filterMap_filterMap,placesOf,← List.filterMap_eq_map,List.filterMap_filter]
  rfl

theorem Leveled.mixed (held : Leveled conf given) : MixedAsGiven conf given :=
  fun src port here enabled pIn => mixedLeveled (held src port here) enabled pIn

theorem Leveled.put {given' : Nat → Nat → Int} (held : Leveled conf given)
    {old : Option Port} (place : conf.ports[slot]? = some old) (new : Option Port)
    (leveled : ∀ port, new = some port → PortLeveled port (given' slot))
    (others : ∀ src, src ≠ slot → given' src = given src) : Leveled (conf.put slot new) given' := by
  intro src port here
  rw [portPut place] at here
  split at here
  next same => exact same ▸ leveled port here
  next apart => exact others src apart ▸ held src port here

theorem Leveled.keep (held : Leveled conf given) (changed : conf.modifyPort slot change = some conf')
    (same : ∀ port, (change port).listenerSlots = port.listenerSlots ∧
      (change port).listenerAdjLevel = port.listenerAdjLevel) : Leveled conf' given := by
  obtain ⟨port,here,rfl⟩ := Option.map_eq_some_iff.mp changed
  refine held.put (portHeld here) _ ?_ (fun _ _ => rfl)
  rintro _ ⟨⟩ i sink place
  rw [(same port).1] at place
  rw [(same port).2]
  exact held slot port here i sink place

theorem modifyListing (changed : conf.modifyPort slot change = some conf')
    (same : ∀ port, (change port).listenerSlots = port.listenerSlots) (src sink : Nat) :
    listing sink (conf'.port src) = listing sink (conf.port src) := by
  obtain ⟨port,here,rfl⟩ := Option.map_eq_some_iff.mp changed
  rw [portPut (portHeld here)]
  split
  next at_ => rw [at_,here,listingPort,listingPort,same]
  next => rfl

theorem connectLeveled {adjLevel : Int} (held : Leveled conf given)
    (called : conf.connectPort srcSlot sinkSlot adjLevel = some (conf', status)) :
    Leveled conf' (give given conf conf' status (.connectPort srcSlot sinkSlot adjLevel)) := by
  have nothing : Leveled conf (give given conf conf status (.connectPort srcSlot sinkSlot adjLevel)) := by
    have refused : give given conf conf status (.connectPort srcSlot sinkSlot adjLevel) = given :=
      if_neg (fun both : listing sinkSlot (conf.port srcSlot) = false ∧ listing sinkSlot (conf.port srcSlot) = true =>
        absurd (both.1.symm.trans both.2) Bool.false_ne_true)
    rw [refused]
    exact held
  unfold Conf.connectPort at called
  split at called
  · cases called
    exact nothing
  · split at called
    next srcPort sinkPort here there =>
      split at called
      · cases called
        exact nothing
      next absent =>
        split at called
        · cases called
        · simp only [Option.bind_eq_bind,Option.bind_eq_some_iff] at called
          obtain ⟨listened,first,counted,second,last⟩ := called
          cases last
          rw [modifyHeld here] at first
          cases first
          have before : listing sinkSlot (conf.port srcSlot) = false := by
            rw [here,listingPort]
            exact decide_eq_false absent
          have after : listing sinkSlot (counted.port srcSlot) = true := by
            rw [modifyListing second (fun _ => rfl),portPut (portHeld here),if_pos rfl,listingPort]
            exact decide_eq_true (List.mem_append_right _ List.mem_cons_self)
          have level : give given conf { counted with connectCnt := counted.connectCnt + 1 } .success
              (.connectPort srcSlot sinkSlot adjLevel) = setLevel given srcSlot sinkSlot adjLevel :=
            if_pos ⟨before,after⟩
          rw [level]
          have leveled : Leveled (conf.put srcSlot (some (srcPort.listen sinkSlot adjLevel)))
              (setLevel given srcSlot sinkSlot adjLevel) := by
            refine held.put (portHeld here) _ ?_ (fun src apart => setLevelOthers given sinkSlot adjLevel apart)
            rintro _ ⟨⟩
            rw [setLevelRow]
            exact (held srcSlot srcPort here).listen adjLevel absent
          have told : Leveled counted _ := leveled.keep second (fun _ => ⟨rfl,rfl⟩)
          exact told
    · cases called
      exact nothing

theorem disconnectLeveled (held : Leveled conf given) (calm : Undisturbing conf (.disconnectPort srcSlot sinkSlot))
    (called : conf.disconnectPort srcSlot sinkSlot = some (conf', status)) : Leveled conf' given := by
  unfold Conf.disconnectPort at called
  split at called
  · cases called
    exact held
  · split at called
    next srcPort sinkPort here there =>
      split at called
      next listed =>
        simp only [Option.bind_eq_bind,Option.bind_eq_some_iff] at called
        obtain ⟨unlistened,first,counted,second,last⟩ := called
        cases last
        rw [modifyHeld here] at first
        cases first
        have leveled : Leveled (conf.put srcSlot (some (srcPort.unlisten sinkSlot))) given := by
          refine held.put (portHeld here) _ ?_ (fun _ _ => rfl)
          rintro _ ⟨⟩
          exact (held srcSlot srcPort here).unlisten (calm srcPort here listed)
        have told : Leveled counted given := leveled.keep second (fun _ => ⟨rfl,rfl⟩)
        exact told
      · cases called
        exact held
    · cases called
      exact held

theorem adjustLeveled {adjLevel : Int} (held : Leveled conf given) (shape : Shape conf)
    (called : conf.adjustConnLevel srcSlot sinkSlot adjLevel = some (conf', status)) :
    Leveled conf' (give given conf conf' status (.adjustConnLevel srcSlot sinkSlot adjLevel)) := by
  unfold Conf.adjustConnLevel at called
  split at called
  · cases called
    exact held
  · split at called
    next srcPort sinkPort here there =>
      dsimp only at called
      split at called
      · cases called
        exact held
      · rw [modifyHeld here] at called
        cases called
        refine held.put (portHeld here) _ ?_ (fun src apart => setLevelOthers given sinkSlot adjLevel apart)
        rintro _ ⟨⟩
        have row := setLevelRow given srcSlot sinkSlot adjLevel
        show PortLeveled _ (setLevel given srcSlot sinkSlot adjLevel srcSlot)
        rw [row]
        exact (held srcSlot srcPort here).adjust (shape.distinct srcSlot srcPort here) sinkSlot adjLevel
    · cases called
      exact held

/- What one round of the first loop of remove_port makes of a port, and what all of them do. -/
def dropped (port : Nat) (srcPort : Port) : Port :=
  if port ∈ srcPort.listenerSlots then srcPort.unlisten port else srcPort

theorem dropListenerPorts (port slot : Nat) (conf : Conf) (other : Nat) :
    (conf.dropListener port slot).port other =
      if other = slot then (conf.port other).map (dropped port) else conf.port other := by
  unfold Conf.dropListener
  split
  next missing =>
    split
    next same => rw [same,missing,Option.map_none]
    next => rfl
  next srcPort here =>
    split
    next listed =>
      have ports := portPut (portHeld here) (some (srcPort.unlisten port)) other
      refine Eq.trans ports ?_
      split
      next same => rw [same,here,Option.map_some,dropped,if_pos listed]
      next => rfl
    next absent =>
      split
      next same => rw [same,here,Option.map_some,dropped,if_neg absent]
      next => rfl

theorem dropListenersPorts (port rounds : Nat) (conf : Conf) (other : Nat) :
    ((List.range rounds).foldl (Conf.dropListener port) conf).port other =
      if other < rounds then (conf.port other).map (dropped port) else conf.port other := by
  induction rounds with
  | zero => rw [if_neg (Nat.not_lt_zero other)]; rfl
  | succ rounds ih =>
    rw [List.range_succ,List.foldl_append,List.foldl_cons,List.foldl_nil,dropListenerPorts,ih]
    by_cases last : other = rounds
    · rw [if_pos last,if_neg (by omega),if_pos (by omega)]
    · rw [if_neg last]
      by_cases before : other < rounds
      · rw [if_pos before,if_pos (by omega)]
      · rw [if_neg before,if_neg (by omega)]

/- While a port is removed, its own levels do not matter any more. -/
def LeveledBut (leaving : Nat) (conf : Conf) (given : Nat → Nat → Int) : Prop :=
  ∀ src port, src ≠ leaving → conf.port src = some port → PortLeveled port (given src)

theorem LeveledBut.modify {leaving : Nat} (held : LeveledBut leaving conf given)
    (changed : conf.modifyPort slot change = some conf')
    (keeps : slot = leaving ∨ ∀ port row, PortLeveled port row → PortLeveled (change port) row) :
    LeveledBut leaving conf' given := by
  obtain ⟨old,here,rfl⟩ := Option.map_eq_some_iff.mp changed
  intro src port stays there
  rw [portPut (portHeld here)] at there
  split at there
  next same =>
    cases there
    rcases keeps with gone | keeps
    · exact absurd (same.trans gone) stays
    · exact keeps old _ (held src old stays (same ▸ here))
  next => exact held src port stays there

theorem releaseLeveled {port n : Nat}
    (held : LeveledBut port conf given) (released : conf.releaseSinks port n = some conf') :
    LeveledBut port conf' given := by
  induction n generalizing conf with
  | zero =>
    cases released
    exact held
  | succ n ih =>
    simp only [Conf.releaseSinks,Option.bind_eq_bind,Option.bind_eq_some_iff] at released
    obtain ⟨confPort,here,dstSlot,last,told,first,shorter,second,rest⟩ := released
    have counted := held.modify first (.inr fun _ _ leveled => leveled)
    have left : LeveledBut port shorter given := counted.modify second (.inl rfl)
    have next : LeveledBut port { shorter with connectCnt := shorter.connectCnt - 1 } given := left
    exact ih next rest

theorem emptiedPorts {src : Nat} {found : Port} (there : (conf.put slot none).port src = some found) :
    src ≠ slot ∧ conf.port src = some found := by
  unfold Conf.port Conf.put at there
  by_cases same : src = slot
  · rw [same,List.getElem?_set_self'] at there
    cases place : conf.ports[slot]? <;> simp [place] at there
  · rw [List.getElem?_set_ne (Ne.symm same)] at there
    exact ⟨same,there⟩

theorem removeLeveled {port : Nat} (held : Leveled conf given) (calm : Undisturbing conf (.removePort port))
    (called : conf.removePort port = some (conf', status)) : Leveled conf' given := by
  unfold Conf.removePort at called
  split at called
  · cases called
    exact held
  · split at called
    · cases called
      exact held
    · simp only [Option.bind_eq_bind,Option.bind_eq_some_iff] at called
      obtain ⟨confPort,here,released,loop,last⟩ := called
      cases last
      have unheard : LeveledBut port ((List.range conf.maxPorts.toNat).foldl (Conf.dropListener port) conf) given := by
        intro src found stays there
        rw [dropListenersPorts] at there
        split at there
        next inside =>
          obtain ⟨before,listed,rfl⟩ := Option.map_eq_some_iff.mp there
          unfold dropped
          split
          next heard => exact (held src before listed).unlisten (calm src inside stays before listed heard)
          next => exact held src before listed
        · exact held src found there
      have silent := releaseLeveled unheard loop
      intro src found there
      obtain ⟨stays,before⟩ := emptiedPorts there
      exact silent src found stays before

theorem addLeveled {channels : Nat} {created : Bool}
    (held : Leveled conf given) (called : conf.addPort channels created = some (conf', status)) :
    Leveled conf' given := by
  unfold Conf.addPort at called
  split at called
  · cases called
    exact held
  · split at called
    · cases called
      exact held
    · split at called
      · cases called
        exact held
      · dsimp only at called
        split at called
        next inside =>
          cases called
          have silent : Leveled (conf.put (conf.ports.findIdx Option.isNone) (some {})) given := by
            refine held.put (List.getElem?_eq_getElem inside) _ ?_ (fun _ _ => rfl)
            rintro _ ⟨⟩ i sink place
            cases place
          exact silent
        · cases called

theorem callLeveled {call : Call} (held : Leveled conf given) (shape : Shape conf) (calm : Undisturbing conf call)
    (called : conf.call call = some (conf', status)) : Leveled conf' (give given conf conf' status call) := by
  cases call with
  | addPort => exact addLeveled held called
  | connectPort => exact connectLeveled held called
  | disconnectPort => exact disconnectLeveled held calm called
  | removePort => exact removeLeveled held calm called
  | adjustConnLevel => exact adjustLeveled held shape called

theorem runLeveled {calls : List Call} (held : Leveled conf given)
    (sound : SoundBut none conf) (calm : Undisturbed conf calls) :
    ∃ conf' given', runGiven conf given calls = some (conf', given') ∧ Leveled conf' given' := by
  induction calls generalizing conf given with
  | nil => exact ⟨conf,given,rfl,held⟩
  | cons call calls ih =>
    obtain ⟨next,status,called,kept⟩ := callSound sound call
    obtain ⟨conf',given',ran,leveled⟩ :=
      ih (callLeveled held sound.toShape calm.1 called) kept (calm.2 (next, status) called)
    refine ⟨conf',given',?_,leveled⟩
    unfold runGiven
    rw [called]
    exact ran

theorem levelsStay {maxPorts : UInt32} {channelCount : Nat} {sound : Bool} {conf : Conf}
    (created : create maxPorts channelCount sound = some conf) (given : Nat → Nat → Int) (calls : List Call)
    (calm : Undisturbed conf calls) :
    ∃ conf' given', runGiven conf given calls = some (conf', given') ∧ MixedAsGiven conf' given' := by
  have silent : Leveled conf given := by
    obtain ⟨place,rfl⟩ := createCases created
    have bare : Leveled (bare maxPorts channelCount) given := by
      intro src port here
      have empty := List.eq_of_mem_replicate (List.mem_of_getElem? (portHeld here))
      cases empty
    refine bare.put place _ ?_ (fun _ _ => rfl)
    rintro _ ⟨⟩ i sink held
    cases held
  obtain ⟨conf',given',ran,leveled⟩ := runLeveled silent (createSound created) calm
  exact ⟨conf',given',ran,leveled.mixed⟩

/- The sink that was connected last is disconnected. -/
theorem lastDisconnected : ∃ conf conf' given', create 4 1 true = some conf ∧
    runGiven conf (fun _ _ => 0) [.addPort 1 true,.addPort 1 true,.connectPort 0 1 12,.connectPort 0 2 (-128),
      .disconnectPort 0 2] = some (conf', given') ∧ MixedAsGiven conf' given' := by
  obtain ⟨conf',given',ran,mixed⟩ := levelsStay (show create 4 1 true = some _ from rfl) (fun _ _ => 0)
    [.addPort 1 true,.addPort 1 true,.connectPort 0 1 12,.connectPort 0 2 (-128),.disconnectPort 0 2]
    (by decide)
  exact ⟨_,conf',given',rfl,ran,mixed⟩

/- The connection from 0 to 2 is muted; when 0 stops transmitting to 1, it is heard at the level of that one. -/
theorem mutedListenerHeard :
    ¬ ∀ maxPorts channelCount sound conf given calls, create maxPorts channelCount sound = some conf →
      ∃ conf' given', runGiven conf given calls = some (conf', given') ∧ MixedAsGiven conf' given' := by
  intro kept
  obtain ⟨conf',given',ran,mixed⟩ := kept 4 1 true _ (fun _ _ => 0) [.addPort 1 true,.addPort 1 true,
    .connectPort 0 1 0,.connectPort 0 2 (-128),.disconnectPort 0 1] rfl
  have heard := congrArg (Option.map fun r => (r.2 0 2, (r.1.port 0).map fun port =>
    (port.listenerSlots, mixListeners (fun _ => true) [100] port))) ran
  have left : some ((-128 : Int), some ([2], [(2, [(100 : Int)])])) = some (given' 0 2, (conf'.port 0).map fun port =>
    (port.listenerSlots, mixListeners (fun _ => true) [100] port)) := heard
  obtain ⟨level,here⟩ := Prod.mk.inj (Option.some.inj left)
  obtain ⟨port,found,shown⟩ := Option.map_eq_some_iff.mp here.symm
  obtain ⟨slots,mixes⟩ := Prod.mk.inj shown
  rw [mixed 0 port found,slots] at mixes
  have silenced : [(2, [leveled (given' 0 2 + normalLevel) 100])] = [(2, [(100 : Int)])] := mixes
  rw [← level] at silenced
  exact absurd silenced (by decide)

end Pjproject.Conference
