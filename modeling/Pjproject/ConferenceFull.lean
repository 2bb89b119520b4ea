import Pjproject.ConferenceGraph

/-! The counters of the conference bridge against its lists after any calls. connect_cnt has 32 bits, which is not enough when
65536 ports or more all transmit to each other. -/
namespace Pjproject.Conference

/- Who transmits to whom is well formed, and the counters say it. -/
structure Consistent (conf : Conf) : Prop where
  distinct : ∀ slot port, conf.port slot = some port → port.listenerSlots.Nodup
  exist : ∀ slot port, conf.port slot = some port → ∀ sink ∈ port.listenerSlots, (conf.port sink).isSome
  transmitters : ∀ sink port, conf.port sink = some port → port.transmitterCnt.toNat = conf.transmittersOf sink
  connections : conf.connectCnt.toNat = conf.entries % 2 ^ 32
  count : conf.portCnt.toNat = conf.existing

variable {conf conf' : Conf} {slot : Nat}

theorem SoundBut.consistent (sound : SoundBut none conf) : Consistent conf := by
  constructor
  case distinct => exact sound.distinct
  case exist => exact sound.exist
  case transmitters =>
    intro sink port held
    have bound : conf.transmittersOf sink ≤ conf.ports.length := List.countP_le_length
    have small : conf.maxPorts.toNat < UInt32.size := conf.maxPorts.toNat_lt
    rw [sound.size] at bound
    rw [sound.counted sink nofun port held]
    exact UInt32.toNat_ofNat_of_lt' (by omega)
  case connections =>
    rw [sound.connections]
    exact UInt32.toNat_ofNat
  case count => exact sound.toShape.portCnt

theorem Shape.listBound (shape : Shape conf) {port : Port}
    (held : conf.port slot = some port) : port.listenerSlots.length ≤ conf.maxPorts.toNat := by
  have inside : port.listenerSlots ⊆ List.range conf.maxPorts.toNat := by
    intro sink listed
    obtain ⟨found,here⟩ := Option.isSome_iff_exists.mp (shape.exist slot port held sink listed)
    exact List.mem_range.mpr (portInside shape here)
  have fits := (List.subperm_of_subset (shape.distinct slot port held) inside).length_le
  rwa [List.length_range] at fits

theorem Shape.entriesBound (shape : Shape conf) : conf.entries ≤ conf.maxPorts.toNat * conf.maxPorts.toNat := by
  have bound := List.sum_le_card_nsmul (conf.ports.map entriesAt) conf.maxPorts.toNat fun weight member => by
    obtain ⟨place,inside,rfl⟩ := List.mem_map.mp member
    cases place with
    | none => exact Nat.zero_le _
    | some port =>
      obtain ⟨slot,here⟩ := List.getElem?_of_mem inside
      have held : conf.port slot = some port := congrArg Option.join here
      exact shape.listBound held
  rwa [List.length_map,shape.size,smul_eq_mul] at bound

/- No call changes how many ports there may be. -/

theorem modifyKeepsMaxPorts {change : Port → Port}
    (changed : conf.modifyPort slot change = some conf') : conf'.maxPorts = conf.maxPorts := by
  obtain ⟨port,_,rfl⟩ := Option.map_eq_some_iff.mp changed
  rfl

theorem dropKeepsMaxPorts (port slot : Nat) (conf : Conf) :
    (conf.dropListener port slot).maxPorts = conf.maxPorts := by
  unfold Conf.dropListener
  split
  · rfl
  · split <;> rfl

theorem releaseKeepsMaxPorts {port n : Nat} (released : conf.releaseSinks port n = some conf') :
    conf'.maxPorts = conf.maxPorts := by
  induction n generalizing conf with
  | zero =>
    cases released
    rfl
  | succ n ih =>
    simp only [Conf.releaseSinks,Option.bind_eq_bind,Option.bind_eq_some_iff] at released
    obtain ⟨_,_,_,_,conf₁,first,conf₂,second,rest⟩ := released
    exact (ih rest).trans ((modifyKeepsMaxPorts second).trans (modifyKeepsMaxPorts first))

theorem dropsKeepMaxPorts (port : Nat) (slots : List Nat) (conf : Conf) :
    (slots.foldl (Conf.dropListener port) conf).maxPorts = conf.maxPorts := by
  induction slots generalizing conf with
  | nil => rfl
  | cons slot slots ih => exact (ih _).trans (dropKeepsMaxPorts port slot conf)

theorem callKeepsMaxPorts {call : Call} {status : Status}
    (called : conf.call call = some (conf', status)) : conf'.maxPorts = conf.maxPorts := by
  cases call with
  | addPort =>
    simp only [Conf.call,Conf.addPort] at called
    split at called <;> try (cases called; rfl)
    split at called <;> try (cases called; rfl)
    split at called <;> try (cases called; rfl)
    split at called <;> cases called
    rfl
  | connectPort =>
    simp only [Conf.call,Conf.connectPort] at called
    split at called <;> try (cases called; rfl)
    split at called <;> try (cases called; rfl)
    split at called <;> try (cases called; rfl)
    split at called <;> try contradiction
    simp only [Option.bind_eq_bind,Option.bind_eq_some_iff] at called
    obtain ⟨conf₁,first,conf₂,second,result⟩ := called
    cases result
    exact (modifyKeepsMaxPorts second).trans (modifyKeepsMaxPorts first)
  | disconnectPort =>
    simp only [Conf.call,Conf.disconnectPort] at called
    split at called <;> try (cases called; rfl)
    split at called <;> try (cases called; rfl)
    split at called <;> try (cases called; rfl)
    simp only [Option.bind_eq_bind,Option.bind_eq_some_iff] at called
    obtain ⟨conf₁,first,conf₂,second,result⟩ := called
    cases result
    exact (modifyKeepsMaxPorts second).trans (modifyKeepsMaxPorts first)
  | removePort port =>
    simp only [Conf.call,Conf.removePort] at called
    split at called <;> try (cases called; rfl)
    split at called <;> try (cases called; rfl)
    simp only [Option.bind_eq_bind,Option.bind_eq_some_iff] at called
    obtain ⟨confPort,_,conf₁,released,result⟩ := called
    cases result
    exact (releaseKeepsMaxPorts released).trans (dropsKeepMaxPorts port _ conf)
  | adjustConnLevel =>
    simp only [Conf.call,Conf.adjustConnLevel] at called
    split at called <;> try (cases called; rfl)
    split at called <;> try (cases called; rfl)
    split at called <;> try (cases called; rfl)
    simp only [Option.bind_eq_bind,Option.bind_eq_some_iff] at called
    obtain ⟨conf₁,first,result⟩ := called
    cases result
    exact modifyKeepsMaxPorts first

theorem runKeepsMaxPorts {calls : List Call} (ran : run conf calls = some conf') :
    conf'.maxPorts = conf.maxPorts := by
  induction calls generalizing conf with
  | nil =>
    cases ran
    rfl
  | cons call calls ih =>
    rw [run,List.foldlM_cons,Option.bind_eq_bind,Option.bind_eq_some_iff] at ran
    obtain ⟨next,called,rest⟩ := ran
    obtain ⟨⟨_,status⟩,result,rfl⟩ := Option.map_eq_some_iff.mp called
    exact (ih rest).trans (callKeepsMaxPorts result)

/- After any calls the lists are well formed and every counter tells how long they are, connect_cnt modulo 2^32. -/
theorem countersFollowLists {maxPorts : UInt32} {channelCount : Nat} {sound : Bool} {conf : Conf}
    (created : create maxPorts channelCount sound = some conf) (calls : List Call) :
    ∃ conf', run conf calls = some conf' ∧ Consistent conf' ∧
      (maxPorts.toNat ≤ 65535 → conf'.connectCnt.toNat = conf'.entries) := by
  obtain ⟨conf',ran,kept⟩ := runSound (createSound created) calls
  refine ⟨conf',ran,kept.consistent,fun few => ?_⟩
  have bound := kept.toShape.entriesBound
  obtain ⟨_,rfl⟩ := createCases created
  rw [runKeepsMaxPorts ran] at bound
  have square := Nat.mul_le_mul few few
  rw [kept.consistent.connections]
  exact Nat.mod_eq_of_lt (Nat.lt_of_le_of_lt (bound.trans square) (by decide))

/- A port that transmits to itself and to two others goes away, and a new port takes its place. -/
theorem reusedSlotConsistent : ∃ conf conf', create 3 1 true = some conf ∧
    run conf [.addPort 1 true,.addPort 1 true,.connectPort 1 1 0,.connectPort 1 0 0,.connectPort 1 2 0,
      .connectPort 2 1 0,.adjustConnLevel 1 2 (-3),.disconnectPort 1 0,.removePort 1,.addPort 1 true] = some conf' ∧
    Consistent conf' ∧ conf'.connectCnt.toNat = conf'.entries := by
  obtain ⟨conf',ran,consistent,exact_⟩ := countersFollowLists (show create 3 1 true = some _ from rfl)
    [.addPort 1 true,.addPort 1 true,.connectPort 1 1 0,.connectPort 1 0 0,.connectPort 1 2 0,
      .connectPort 2 1 0,.adjustConnLevel 1 2 (-3),.disconnectPort 1 0,.removePort 1,.addPort 1 true]
  exact ⟨_,conf',rfl,ran,consistent,exact_ (by decide)⟩

/- A bridge filled with ports that all transmit to all. -/

def fill (maxPorts : Nat) : List Call := List.replicate (maxPorts - 1) (.addPort 1 true)

def meet (maxPorts : Nat) : List Call :=
  (List.range maxPorts).flatMap fun src => (List.range maxPorts).map fun sink => .connectPort src sink 0

theorem addFills (sound : SoundBut none conf) (mono : conf.channelCount = 1)
    (free : conf.existing < conf.maxPorts.toNat) :
    ∃ conf', conf.addPort 1 true = some (conf', .success) ∧ SoundBut none conf' ∧ conf'.channelCount = 1 ∧
      conf'.existing = conf.existing + 1 := by
  have less : ¬ conf.portCnt ≥ conf.maxPorts := by
    rw [ge_iff_le,UInt32.not_le,UInt32.lt_iff_toNat_lt,sound.toShape.portCnt]
    exact free
  have empty := sound.toShape.room less
  refine ⟨_,?_,placed sound empty,mono,existingPut empty (some {})⟩
  unfold Conf.addPort
  rw [if_neg (by simp [mono]),if_neg less,if_neg (by decide)]
  exact if_pos (List.getElem?_eq_some_iff.mp empty).1

theorem addsFill (sound : SoundBut none conf) (mono : conf.channelCount = 1) (n : Nat)
    (free : conf.existing + n ≤ conf.maxPorts.toNat) :
    ∃ conf', run conf (List.replicate n (.addPort 1 true)) = some conf' ∧ SoundBut none conf' ∧
      conf'.existing = conf.existing + n := by
  induction n generalizing conf with
  | zero => exact ⟨conf,rfl,sound,rfl⟩
  | succ n ih =>
    obtain ⟨next,added,sound',mono',more⟩ := addFills sound mono (by omega)
    have size := callKeepsMaxPorts (show conf.call (.addPort 1 true) = some _ from added)
    obtain ⟨conf',ran,sound'',all⟩ := ih sound' mono' (by rw [size]; omega)
    refine ⟨conf',?_,sound'',by omega⟩
    rw [List.replicate_succ,run,List.foldlM_cons]
    simp only [Conf.call,added,Option.map_some,Option.bind_eq_bind,Option.bind_some]
    exact ran

def Linked (conf : Conf) (src sink : Nat) : Prop :=
  ∃ port, conf.port src = some port ∧ sink ∈ port.listenerSlots

theorem Linked.put {src sink : Nat} (linked : Linked conf src sink) {old new : Port}
    (held : conf.port slot = some old) (more : old.listenerSlots ⊆ new.listenerSlots) :
    Linked (conf.put slot (some new)) src sink := by
  obtain ⟨port,here,listed⟩ := linked
  by_cases same : src = slot
  · subst same
    rw [held] at here
    cases here
    exact ⟨new,(portPut (portHeld held) _ src).trans (if_pos rfl),more listed⟩
  · exact ⟨port,(portPut (portHeld held) _ src).trans ((if_neg same).trans here),listed⟩

theorem connectLinks (sound : SoundBut none conf) {src sink : Nat} (isSrc : (conf.port src).isSome)
    (isSink : (conf.port sink).isSome) : ∃ conf', run conf [.connectPort src sink 0] = some conf' ∧
      (∀ slot, (conf.port slot).isSome → (conf'.port slot).isSome) ∧ Linked conf' src sink ∧
      ∀ a b, Linked conf a b → Linked conf' a b := by
  obtain ⟨srcPort,heldSrc⟩ := Option.isSome_iff_exists.mp isSrc
  obtain ⟨sinkPort,heldSink⟩ := Option.isSome_iff_exists.mp isSink
  have inside : ¬ (¬ (conf.inside src ∧ conf.inside sink) ∨ (0 : Int) < -128) := by
    rintro (outside | negative)
    · exact outside ⟨portInside sound.toShape heldSrc,portInside sound.toShape heldSink⟩
    · omega
  by_cases listed : sink ∈ srcPort.listenerSlots
  · refine ⟨conf,?_,fun _ same => same,⟨srcPort,heldSrc,listed⟩,fun _ _ same => same⟩
    simp only [run,List.foldlM_cons,List.foldlM_nil,Conf.call,Conf.connectPort,if_neg inside,heldSrc,heldSink,
      if_pos listed]
    rfl
  · have fits := Nat.not_le.mpr (sound.toShape.fits heldSrc heldSink listed)
    have ports := portPut (portHeld heldSrc) (some (srcPort.listen sink 0))
    obtain ⟨port,held⟩ : ∃ port, (conf.put src (some (srcPort.listen sink 0))).port sink = some port := by
      rw [ports]
      split
      · exact ⟨_,rfl⟩
      · exact ⟨sinkPort,heldSink⟩
    refine ⟨{ (conf.put src (some (srcPort.listen sink 0))).put sink (some port.moreTransmitters) with
      connectCnt := conf.connectCnt + 1 },?_,?_,?_,?_⟩
    · simp only [run,List.foldlM_cons,List.foldlM_nil,Conf.call,Conf.connectPort,if_neg inside,heldSrc,heldSink,
        if_neg listed,if_neg fits,modifyHeld heldSrc,Option.bind_eq_bind,Option.bind_some,modifyHeld held]
      rfl
    · intro slot some_
      have first := portPut (portHeld held) (some port.moreTransmitters) slot
      refine (congrArg Option.isSome first).trans ?_
      split
      · rfl
      · rw [ports]
        split
        · rfl
        · exact some_
    · have first : Linked (conf.put src (some (srcPort.listen sink 0))) src sink :=
        ⟨srcPort.listen sink 0,(ports src).trans (if_pos rfl),List.mem_append_right _ (List.mem_singleton.mpr rfl)⟩
      exact first.put held (List.Subset.refl _)
    · intro a b linked
      have longer : srcPort.listenerSlots ⊆ (srcPort.listen sink 0).listenerSlots := List.subset_append_left _ _
      exact (linked.put heldSrc longer).put held (List.Subset.refl _)

theorem connectsLink (sound : SoundBut none conf) (pairs : List (Nat × Nat))
    (exist : ∀ pair ∈ pairs, (conf.port pair.1).isSome ∧ (conf.port pair.2).isSome) :
    ∃ conf', run conf (pairs.map fun pair => .connectPort pair.1 pair.2 0) = some conf' ∧ SoundBut none conf' ∧
      (∀ pair ∈ pairs, Linked conf' pair.1 pair.2) ∧ ∀ a b, Linked conf a b → Linked conf' a b := by
  induction pairs generalizing conf with
  | nil => exact ⟨conf,rfl,sound,nofun,fun _ _ same => same⟩
  | cons pair pairs ih =>
    obtain ⟨isSrc,isSink⟩ := exist pair List.mem_cons_self
    obtain ⟨next,ran,still,linked,kept⟩ := connectLinks sound isSrc isSink
    obtain ⟨_,ran',sound'⟩ := runSound sound [.connectPort pair.1 pair.2 0]
    cases ran.symm.trans ran'
    obtain ⟨conf',rest,sound'',all,later⟩ := ih sound' fun other member =>
      (exist other (List.mem_cons_of_mem pair member)).imp (still _) (still _)
    refine ⟨conf',?_,sound'',?_,fun a b link => later a b (kept a b link)⟩
    · rw [List.map_cons,← List.singleton_append,run,List.foldlM_append]
      exact (congrArg (Option.bind · _) ran).trans rest
    · intro other member
      rcases List.mem_cons.mp member with rfl | member
      · exact later _ _ linked
      · exact all other member

theorem fullBridge {maxPorts : UInt32} (positive : 0 < maxPorts.toNat) :
    ∃ conf conf', create maxPorts 1 true = some conf ∧
      run conf (fill maxPorts.toNat ++ meet maxPorts.toNat) = some conf' ∧
      maxPorts.toNat * maxPorts.toNat ≤ conf'.entries := by
  obtain ⟨conf,created⟩ : ∃ conf, create maxPorts 1 true = some conf := by
    unfold create
    refine ⟨_,if_neg ?_⟩
    rintro (rfl | closed)
    · exact absurd positive (Nat.lt_irrefl 0)
    · cases closed
  have sound := createSound created
  have mono : conf.channelCount = 1 ∧ conf.maxPorts = maxPorts ∧ conf.existing = 1 := by
    obtain ⟨place,rfl⟩ := createCases created
    have one := existingPut place (some {})
    have none_ : (bare maxPorts 1).existing = 0 := List.countP_eq_zero.mpr fun place member => by
      rw [List.eq_of_mem_replicate member]
      exact Bool.false_ne_true
    rw [none_] at one
    exact ⟨rfl,rfl,one⟩
  obtain ⟨full,filled,sound₁,all⟩ := addsFill sound mono.1 (maxPorts.toNat - 1) (by rw [mono.2.1]; omega)
  have size : full.maxPorts = maxPorts := (runKeepsMaxPorts filled).trans mono.2.1
  have everywhere : ∀ slot, slot < maxPorts.toNat → (full.port slot).isSome := by
    intro slot inside
    have count : full.ports.countP Option.isSome = full.ports.length := by
      rw [sound₁.size,size]
      exact all.trans (by rw [mono.2.2]; omega)
    rw [← size,← sound₁.size] at inside
    have taken := List.countP_eq_length.mp count _ (List.getElem_mem inside)
    unfold Conf.port
    rw [List.getElem?_eq_getElem inside]
    exact taken
  obtain ⟨conf',met,sound₂,linked,_⟩ := connectsLink sound₁
    ((List.range maxPorts.toNat).flatMap fun src => (List.range maxPorts.toNat).map fun sink => (src, sink)) (by
      rintro ⟨src,sink⟩ member
      obtain ⟨a,srcIn,pair⟩ := List.mem_flatMap.mp member
      obtain ⟨b,sinkIn,same⟩ := List.mem_map.mp pair
      cases same
      exact ⟨everywhere src (List.mem_range.mp srcIn),everywhere sink (List.mem_range.mp sinkIn)⟩)
  refine ⟨conf,conf',created,?_,?_⟩
  · rw [run,List.foldlM_append,fill]
    refine (congrArg (Option.bind · _) filled).trans ?_
    simp only [List.map_flatMap,List.map_map] at met
    exact met
  · -- every list holds every slot
    have size₂ : conf'.maxPorts = maxPorts := (runKeepsMaxPorts met).trans size
    have least := List.card_nsmul_le_sum (conf'.ports.map entriesAt) maxPorts.toNat fun weight member => by
      obtain ⟨place,inside,rfl⟩ := List.mem_map.mp member
      obtain ⟨src,here⟩ := List.getElem?_of_mem inside
      have within : src < maxPorts.toNat := by
        rw [← size₂,← sound₂.size]
        exact (List.getElem?_eq_some_iff.mp here).1
      have lists : ∀ sink < maxPorts.toNat, Linked conf' src sink := fun sink bound =>
        linked (src, sink) (List.mem_flatMap.mpr
          ⟨src,List.mem_range.mpr within,List.mem_map.mpr ⟨sink,List.mem_range.mpr bound,rfl⟩⟩)
      obtain ⟨port,held,_⟩ := lists src within
      have placeIs : place = some port := Option.some.inj (here.symm.trans (portHeld held))
      have all_ : List.range maxPorts.toNat ⊆ port.listenerSlots := by
        intro sink member
        obtain ⟨port',held',listed⟩ := lists sink (List.mem_range.mp member)
        cases held.symm.trans held'
        exact listed
      have longer := (List.subperm_of_subset List.nodup_range all_).length_le
      rw [List.length_range] at longer
      rw [placeIs]
      exact longer
    rwa [List.length_map,sound₂.size,size₂,smul_eq_mul] at least

/- 65536 ports that all transmit to all have 2^32 list entries, and connect_cnt is back at zero. -/
theorem connectCntWraps : ∃ conf conf', create 65536 1 true = some conf ∧
    run conf (fill 65536 ++ meet 65536) = some conf' ∧ conf'.connectCnt.toNat ≠ conf'.entries := by
  obtain ⟨conf,conf',created,ran,many⟩ := fullBridge (show 0 < (65536 : UInt32).toNat by decide)
  refine ⟨conf,conf',created,ran,fun same => ?_⟩
  have small := conf'.connectCnt.toNat_lt
  rw [same] at small
  exact absurd (Nat.lt_of_le_of_lt many small) (by decide)

end Pjproject.Conference
