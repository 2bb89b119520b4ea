import Pjproject.Lib.Tally
import Pjproject.ConferencePorts

/-! Who transmits to whom is kept three times in the conference bridge: in the listener lists, in a counter at every sink and
in a counter for the whole bridge. Every call keeps them in agreement. -/
namespace Pjproject.Conference

open Lib.Tally

/- How many ports exist, how many of them list a sink, and how many entries their lists have. -/
def Conf.existing (conf : Conf) : Nat := conf.ports.countP Option.isSome

def listing (sink : Nat) (port : Option Port) : Bool := port.any fun port => sink ∈ port.listenerSlots

def Conf.transmittersOf (conf : Conf) (sink : Nat) : Nat := conf.ports.countP (listing sink)

def entriesAt (port : Option Port) : Nat := port.elim 0 fun port => port.listenerSlots.length

def Conf.entries (conf : Conf) : Nat := (conf.ports.map entriesAt).sum

/- Everything but the counters at the sinks. connect_cnt is a 32-bit counter. -/
structure Shape (conf : Conf) : Prop where
  size : conf.ports.length = conf.maxPorts.toNat
  distinct : ∀ slot port, conf.port slot = some port → port.listenerSlots.Nodup
  exist : ∀ slot port, conf.port slot = some port → ∀ sink ∈ port.listenerSlots, (conf.port sink).isSome
  connections : conf.connectCnt = UInt32.ofNat conf.entries
  count : conf.portCnt = UInt32.ofNat conf.existing

def Counted (conf : Conf) (sink : Nat) : Prop :=
  ∀ port, conf.port sink = some port → port.transmitterCnt = UInt32.ofNat (conf.transmittersOf sink)

/- While a port is removed, its own counter is not kept any more. -/
structure SoundBut (leaving : Option Nat) (conf : Conf) : Prop extends Shape conf where
  counted : ∀ sink, leaving ≠ some sink → Counted conf sink

/- One place of the table is written. -/

variable {conf : Conf} {slot sink src : Nat} {port old target : Port}

theorem portHeld (held : conf.port slot = some port) : conf.ports[slot]? = some (some port) := by
  unfold Conf.port at held
  cases found : conf.ports[slot]? with
  | none => rw [found] at held; cases held
  | some => rw [found] at held; exact congrArg some held

theorem portPut {old : Option Port} (held : conf.ports[slot]? = some old) (new : Option Port)
    (other : Nat) : (conf.put slot new).port other = if other = slot then new else conf.port other := by
  have inside : slot < conf.ports.length := (List.getElem?_eq_some_iff.mp held).1
  unfold Conf.port Conf.put
  by_cases same : other = slot
  · subst same
    rw [if_pos rfl,List.getElem?_set_self inside]
    rfl
  · rw [if_neg same,List.getElem?_set_ne (Ne.symm same)]

theorem putKeepsSize (conf : Conf) (slot : Nat) (new : Option Port) :
    (conf.put slot new).ports.length = conf.ports.length := List.length_set

theorem existingPut {old : Option Port} (held : conf.ports[slot]? = some old)
    (new : Option Port) : (conf.put slot new).existing + old.isSome.toNat = conf.existing + new.isSome.toNat :=
  countSet Option.isSome held new

theorem transmittersPut {old : Option Port} (held : conf.ports[slot]? = some old)
    (new : Option Port) (sink : Nat) : (conf.put slot new).transmittersOf sink + (listing sink old).toNat =
      conf.transmittersOf sink + (listing sink new).toNat :=
  countSet (listing sink) held new

theorem entriesPut {old : Option Port} (held : conf.ports[slot]? = some old)
    (new : Option Port) : (conf.put slot new).entries + entriesAt old = conf.entries + entriesAt new :=
  sumSet entriesAt held new

@[simp] theorem listingPort (sink : Nat) (port : Port) :
    listing sink (some port) = decide (sink ∈ port.listenerSlots) := rfl

@[simp] theorem entriesAtPort (port : Port) : entriesAt (some port) = port.listenerSlots.length := rfl

theorem portInside (shape : Shape conf) (held : conf.port slot = some port) : slot < conf.maxPorts.toNat := by
  rw [← shape.size]
  exact (List.getElem?_eq_some_iff.mp (portHeld held)).1

theorem Shape.rewrite (shape : Shape conf)
    (held : conf.port slot = some old) (new : Port) (cnt : UInt32) (distinct : new.listenerSlots.Nodup)
    (exist : ∀ sink ∈ new.listenerSlots, (conf.port sink).isSome)
    (follows : cnt + UInt32.ofNat old.listenerSlots.length = conf.connectCnt + UInt32.ofNat new.listenerSlots.length) :
    Shape { conf.put slot (some new) with connectCnt := cnt } := by
  have place := portHeld held
  have ports : ∀ other, ({ conf.put slot (some new) with connectCnt := cnt } : Conf).port other =
      if other = slot then some new else conf.port other := portPut place (some new)
  constructor
  case size => exact (putKeepsSize conf slot (some new)).trans shape.size
  case distinct =>
    intro other port here
    rw [ports] at here
    split at here
    · cases here
      exact distinct
    · exact shape.distinct other port here
  case exist =>
    intro other port here sink listed
    rw [ports]
    split
    · rfl
    · rw [ports] at here
      split at here
      · cases here
        exact exist sink listed
      · exact shape.exist other port here sink listed
  case connections =>
    have entries := congrArg UInt32.ofNat (entriesPut place (some new))
    simp only [UInt32.ofNat_add,entriesAtPort] at entries
    rw [shape.connections,← entries] at follows
    exact (UInt32.add_left_inj _).mp follows
  case count =>
    have existing := existingPut place (some new)
    exact shape.count.trans (congrArg UInt32.ofNat (Nat.add_right_cancel existing).symm)

theorem transmittersRewrite (held : conf.port slot = some old) (new : Port)
    (sink : Nat) : (conf.put slot (some new)).transmittersOf sink + (decide (sink ∈ old.listenerSlots)).toNat =
      conf.transmittersOf sink + (decide (sink ∈ new.listenerSlots)).toNat :=
  transmittersPut (portHeld held) (some new) sink

theorem Counted.rewrite (counted : Counted conf sink) {new : Port}
    (held : conf.port slot = some old) (cnt : slot = sink → new.transmitterCnt = old.transmitterCnt)
    (same : sink ∈ new.listenerSlots ↔ sink ∈ old.listenerSlots) : Counted (conf.put slot (some new)) sink := by
  have transmitters := transmittersRewrite held new sink
  rw [decide_eq_decide.mpr same,Nat.add_right_cancel_iff] at transmitters
  intro port here
  rw [portPut (portHeld held)] at here
  rw [transmitters]
  split at here
  · rename_i itself
    cases here
    exact (cnt itself.symm).trans (counted old (itself ▸ held))
  · exact counted port here

theorem modifyHeld (held : conf.port slot = some port) (change : Port → Port) :
    conf.modifyPort slot change = some (conf.put slot (some (change port))) := by
  unfold Conf.modifyPort
  rw [held]
  rfl

theorem Counted.recount (held : conf.port sink = some port) {cnt : UInt32}
    (right : cnt = UInt32.ofNat (conf.transmittersOf sink)) :
    Counted (conf.put sink (some { port with transmitterCnt := cnt })) sink := by
  have transmitters := transmittersRewrite held { port with transmitterCnt := cnt } sink
  rw [Nat.add_right_cancel_iff] at transmitters
  intro found here
  rw [portPut (portHeld held),if_pos rfl] at here
  cases here
  exact right.trans (congrArg UInt32.ofNat transmitters.symm)

/- An entry for `sink` appears in or leaves the list of `src`, and the counters of the sink and of the bridge take the same
step. The source and the sink may be one port. -/
theorem SoundBut.redirect {leaving : Option Nat} (sound : SoundBut leaving conf)
    (heldSrc : conf.port src = some old) (heldSink : conf.port sink = some target)
    (new : Port) (step : UInt32 → UInt32) (same : new.transmitterCnt = old.transmitterCnt) (distinct : new.listenerSlots.Nodup)
    (others : ∀ slot, slot ≠ sink → (slot ∈ new.listenerSlots ↔ slot ∈ old.listenerSlots))
    (follows : step conf.connectCnt + UInt32.ofNat old.listenerSlots.length =
      conf.connectCnt + UInt32.ofNat new.listenerSlots.length)
    (steps : ∀ before after, after + (decide (sink ∈ old.listenerSlots)).toNat =
      before + (decide (sink ∈ new.listenerSlots)).toNat → step (UInt32.ofNat before) = UInt32.ofNat after) :
    ∃ port, (conf.put src (some new)).port sink = some port ∧
      SoundBut leaving
        { (conf.put src (some new)).put sink (some { port with transmitterCnt := step port.transmitterCnt }) with
          connectCnt := step conf.connectCnt } := by
  have exist : ∀ slot ∈ new.listenerSlots, (conf.port slot).isSome := by
    intro slot listed
    by_cases itself : slot = sink
    · rw [itself,heldSink]
      rfl
    · exact sound.exist src old heldSrc slot ((others slot itself).mp listed)
  have listed := sound.toShape.rewrite heldSrc new (step conf.connectCnt) distinct exist follows
  have there := portPut (portHeld heldSrc) (some new) sink
  obtain ⟨port,found,counter⟩ : ∃ port, (conf.put src (some new)).port sink = some port ∧
      port.transmitterCnt = target.transmitterCnt := by
    rw [there]
    split
    · rename_i itself
      subst itself
      rw [heldSrc] at heldSink
      cases heldSink
      exact ⟨new,rfl,same⟩
    · exact ⟨target,heldSink,rfl⟩
  refine ⟨port,found,?_⟩
  have lists : ∀ slot ∈ port.listenerSlots, ((conf.put src (some new)).port slot).isSome := listed.exist sink port found
  constructor
  case toShape =>
    exact listed.rewrite found { port with transmitterCnt := step port.transmitterCnt } (step conf.connectCnt)
      (listed.distinct sink port found) lists rfl
  case counted =>
    intro slot kept
    by_cases itself : slot = sink
    · subst itself
      refine Counted.recount found ?_
      rw [counter,sound.counted slot kept target heldSink]
      exact steps _ _ (transmittersRewrite heldSrc new slot)
    · have first := (sound.counted slot kept).rewrite heldSrc (fun _ => same) (others slot itself)
      exact first.rewrite found (fun at_ => absurd at_.symm itself) Iff.rfl

/- The two ways an entry comes and goes. -/

theorem ofNatPred (n : Nat) : UInt32.ofNat (n + 1) - 1 = UInt32.ofNat n := by
  rw [UInt32.ofNat_add]
  exact UInt32.add_sub_cancel _ _

theorem lengthErased {slots : List Nat} (listed : sink ∈ slots) :
    (slots.erase sink).length + 1 = slots.length := by
  have some := List.length_pos_of_mem listed
  rw [List.length_erase_of_mem listed]
  omega

/- Every list fits its array, since its entries are distinct ports. -/
theorem Shape.fits (shape : Shape conf)
    (heldSrc : conf.port src = some port) (heldSink : conf.port sink = some target)
    (absent : sink ∉ port.listenerSlots) : port.listenerSlots.length < conf.maxPorts.toNat := by
  have distinct : (sink :: port.listenerSlots).Nodup := List.nodup_cons.mpr ⟨absent,shape.distinct src port heldSrc⟩
  have inside : sink :: port.listenerSlots ⊆ List.range conf.maxPorts.toNat := by
    intro slot listed
    rw [List.mem_range]
    rcases List.mem_cons.mp listed with rfl | listed
    · exact portInside shape heldSink
    · obtain ⟨found,here⟩ := Option.isSome_iff_exists.mp (shape.exist src port heldSrc slot listed)
      exact portInside shape here
  have room := (List.subperm_of_subset distinct inside).length_le
  rwa [List.length_range] at room

theorem connectSound (sound : SoundBut none conf) (srcSlot sinkSlot : Nat) (adjLevel : Int) :
    ∃ conf' status, conf.connectPort srcSlot sinkSlot adjLevel = some (conf', status) ∧ SoundBut none conf' := by
  unfold Conf.connectPort
  split
  · exact ⟨conf,_,rfl,sound⟩
  · split
    · rename_i srcPort sinkPort heldSrc heldSink
      split
      · exact ⟨conf,_,rfl,sound⟩
      · rename_i absent
        rw [if_neg (Nat.not_le.mpr (sound.fits heldSrc heldSink absent)),modifyHeld heldSrc]
        have distinct : (srcPort.listenerSlots ++ [sinkSlot]).Nodup := by
          rw [List.nodup_append_comm]
          exact List.nodup_cons.mpr ⟨absent,sound.distinct srcSlot srcPort heldSrc⟩
        obtain ⟨port,found,linked⟩ := sound.redirect heldSrc heldSink
          (srcPort.listen sinkSlot adjLevel) (· + 1) rfl distinct (fun slot other => by simp [Port.listen,other])
          (by simp [Port.listen,UInt32.add_assoc,UInt32.add_comm])
          (by
            intro before after balance
            obtain rfl : after = before + 1 := by simpa [Port.listen,absent] using balance
            exact (UInt32.ofNat_add before 1).symm)
        refine ⟨_,.success,?_,linked⟩
        simp only [Option.bind_eq_bind,Option.bind_some,modifyHeld found]
        rfl
    · exact ⟨conf,_,rfl,sound⟩

theorem SoundBut.unlink {leaving : Option Nat} (sound : SoundBut leaving conf)
    (heldSrc : conf.port src = some old) (heldSink : conf.port sink = some target) (new : Port)
    (listed : sink ∈ old.listenerSlots) (same : new.transmitterCnt = old.transmitterCnt)
    (left : new.listenerSlots = old.listenerSlots.erase sink) :
    ∃ port, (conf.put src (some new)).port sink = some port ∧ SoundBut leaving
        { (conf.put src (some new)).put sink (some port.lessTransmitters) with connectCnt := conf.connectCnt - 1 } := by
  have distinct := sound.distinct src old heldSrc
  refine sound.redirect heldSrc heldSink new (· - 1) same (left ▸ distinct.erase sink) ?_ ?_ ?_
  · intro slot other
    rw [left,List.mem_erase_of_ne other]
  · rw [left,← lengthErased listed,UInt32.ofNat_add,UInt32.add_comm (UInt32.ofNat _),← UInt32.add_assoc]
    exact congrArg (· + _) (UInt32.sub_add_cancel conf.connectCnt 1)
  · intro before after balance
    have gone : sink ∉ old.listenerSlots.erase sink := distinct.not_mem_erase
    obtain rfl : before = after + 1 := by simpa [left,listed,gone] using balance.symm
    exact ofNatPred after

theorem disconnectSound (sound : SoundBut none conf) (srcSlot sinkSlot : Nat) :
    ∃ conf' status, conf.disconnectPort srcSlot sinkSlot = some (conf', status) ∧ SoundBut none conf' := by
  unfold Conf.disconnectPort
  split
  · exact ⟨conf,_,rfl,sound⟩
  · split
    · rename_i srcPort sinkPort heldSrc heldSink
      split
      · rename_i listed
        rw [modifyHeld heldSrc]
        obtain ⟨port,found,unlinked⟩ :=
          sound.unlink heldSrc heldSink (srcPort.unlisten sinkSlot) listed rfl rfl
        refine ⟨_,.success,?_,unlinked⟩
        simp only [Option.bind_eq_bind,Option.bind_some,modifyHeld found]
        rfl
      · exact ⟨conf,_,rfl,sound⟩
    · exact ⟨conf,_,rfl,sound⟩

theorem adjustSound (sound : SoundBut none conf) (srcSlot sinkSlot : Nat) (adjLevel : Int) :
    ∃ conf' status, conf.adjustConnLevel srcSlot sinkSlot adjLevel = some (conf', status) ∧ SoundBut none conf' := by
  unfold Conf.adjustConnLevel
  split
  · exact ⟨conf,_,rfl,sound⟩
  · split
    · rename_i srcPort sinkPort heldSrc heldSink
      dsimp only
      split
      · exact ⟨conf,_,rfl,sound⟩
      · rw [modifyHeld heldSrc]
        refine ⟨_,_,rfl,?_⟩
        constructor
        case toShape =>
          exact sound.toShape.rewrite heldSrc _ conf.connectCnt (sound.distinct srcSlot srcPort heldSrc)
            (sound.exist srcSlot srcPort heldSrc) rfl
        case counted =>
          intro sink kept
          exact (sound.counted sink kept).rewrite heldSrc (fun _ => rfl) Iff.rfl
    · exact ⟨conf,_,rfl,sound⟩

/- Removing a port: first nobody transmits to it any more, then it transmits to nobody, then its place is empty. -/

def Unheard (port : Nat) (conf : Conf) : Prop :=
  ∀ slot found, conf.port slot = some found → port ∉ found.listenerSlots

theorem dropListenerRound {port : Nat} (sound : SoundBut (some port) conf) (slot : Nat) :
    SoundBut (some port) (conf.dropListener port slot) ∧ (conf.dropListener port slot).maxPorts = conf.maxPorts ∧
      (∀ other, ((conf.dropListener port slot).port other).isSome = (conf.port other).isSome) ∧
      ∀ other found, (conf.dropListener port slot).port other = some found → port ∈ found.listenerSlots →
        other ≠ slot ∧ ∃ before, conf.port other = some before ∧ port ∈ before.listenerSlots := by
  unfold Conf.dropListener
  split
  · rename_i missing
    refine ⟨sound,rfl,fun _ => rfl,?_⟩
    intro other found here listed
    refine ⟨?_,found,here,listed⟩
    rintro rfl
    rw [missing] at here
    cases here
  · rename_i srcPort held
    have distinct := sound.distinct slot srcPort held
    split
    · rename_i listed
      have ports : ∀ other, ({ conf.put slot (some (srcPort.unlisten port)) with
          connectCnt := conf.connectCnt - 1 } : Conf).port other =
            if other = slot then some (srcPort.unlisten port) else conf.port other := portPut (portHeld held) _
      refine ⟨⟨?_,?_⟩,rfl,?_,?_⟩
      · refine sound.toShape.rewrite held (srcPort.unlisten port) (conf.connectCnt - 1) (distinct.erase port) ?_ ?_
        · exact fun sink inside => sound.exist slot srcPort held sink (List.mem_of_mem_erase inside)
        · rw [← lengthErased listed,UInt32.ofNat_add,UInt32.add_comm (UInt32.ofNat _),← UInt32.add_assoc]
          exact congrArg (· + _) (UInt32.sub_add_cancel conf.connectCnt 1)
      · intro sink kept
        refine (sound.counted sink kept).rewrite held (fun _ => rfl) ?_
        exact List.mem_erase_of_ne (fun same => kept (congrArg some same.symm))
      · intro other
        rw [ports]
        split
        · rename_i same
          rw [same,held]
          rfl
        · rfl
      · intro other found here inside
        rw [ports] at here
        split at here
        · cases here
          exact absurd inside distinct.not_mem_erase
        · rename_i apart
          exact ⟨apart,found,here,inside⟩
    · rename_i absent
      refine ⟨sound,rfl,fun _ => rfl,?_⟩
      intro other found here listed
      refine ⟨?_,found,here,listed⟩
      rintro rfl
      rw [held] at here
      cases here
      exact absent listed

theorem dropListenerRounds {port : Nat} (sound : SoundBut (some port) conf) (rounds : Nat) :
    ∃ conf', (List.range rounds).foldl (Conf.dropListener port) conf = conf' ∧ SoundBut (some port) conf' ∧
      conf'.maxPorts = conf.maxPorts ∧ (∀ other, (conf'.port other).isSome = (conf.port other).isSome) ∧
      ∀ other found, conf'.port other = some found → port ∈ found.listenerSlots → rounds ≤ other := by
  induction rounds with
  | zero => exact ⟨conf,rfl,sound,rfl,fun _ => rfl,fun _ _ _ _ => Nat.zero_le _⟩
  | succ rounds ih =>
    obtain ⟨conf',loop,sound',size,same,heard⟩ := ih
    obtain ⟨sound'',size',same',heard'⟩ := dropListenerRound sound' rounds
    refine ⟨conf'.dropListener port rounds,?_,sound'',size'.trans size,?_,?_⟩
    · rw [List.range_succ,List.foldl_append,loop]
      rfl
    · exact fun other => (same' other).trans (same other)
    · intro other found here listed
      obtain ⟨apart,before,there,listed'⟩ := heard' other found here listed
      have later := heard other before there listed'
      omega

theorem releaseSinksSound {port n : Nat} {confPort : Port} (sound : SoundBut (some port) conf)
    (held : conf.port port = some confPort) (left : confPort.listenerSlots.length = n) (unheard : Unheard port conf) :
    ∃ conf' confPort', conf.releaseSinks port n = some conf' ∧ SoundBut (some port) conf' ∧ Unheard port conf' ∧
      conf'.port port = some confPort' ∧ confPort'.listenerSlots = [] := by
  induction n generalizing conf confPort with
  | zero => exact ⟨conf,confPort,rfl,sound,unheard,held,List.length_eq_zero_iff.mp left⟩
  | succ n ih =>
    have last : n < confPort.listenerSlots.length := by omega
    obtain ⟨dstSlot,dst⟩ : ∃ dstSlot, confPort.listenerSlots[n]? = some dstSlot :=
      ⟨_,List.getElem?_eq_getElem last⟩
    have listed : dstSlot ∈ confPort.listenerSlots := List.mem_of_getElem? dst
    have apart : dstSlot ≠ port := fun same => unheard port confPort held (same ▸ listed)
    obtain ⟨dstPort,heldDst⟩ := Option.isSome_iff_exists.mp (sound.exist port confPort held dstSlot listed)
    -- the last of distinct listeners is the one that goes
    have shorter : confPort.listenerSlots.take n = confPort.listenerSlots.erase dstSlot := by
      have whole : confPort.listenerSlots.take n ++ [dstSlot] = confPort.listenerSlots := by
        have all := List.take_append_getElem last
        rw [(List.getElem?_eq_some_iff.mp dst).2] at all
        rw [all,← left,List.take_length]
      have distinct := sound.distinct port confPort held
      rw [← whole,List.nodup_append_comm,List.singleton_append,List.nodup_cons] at distinct
      conv => rhs; rw [← whole]
      rw [List.erase_append_right _ distinct.1]
      simp
    obtain ⟨port',found,unlinked⟩ := sound.unlink held heldDst
      { confPort with listenerSlots := confPort.listenerSlots.take n } listed rfl shorter
    have dstStill := found
    rw [portPut (portHeld held),if_neg apart,heldDst] at found
    cases found
    have reached : conf.releaseSinks port (n + 1) =
        ({ (conf.put port (some { confPort with listenerSlots := confPort.listenerSlots.take n })).put dstSlot
            (some dstPort.lessTransmitters) with connectCnt := conf.connectCnt - 1 } : Conf).releaseSinks port n := by
      have still : (conf.put dstSlot (some dstPort.lessTransmitters)).port port = some confPort := by
        rw [portPut (portHeld heldDst),if_neg apart.symm,held]
      have swapped := List.set_comm (some dstPort.lessTransmitters)
        (some { confPort with listenerSlots := confPort.listenerSlots.take n }) apart (l := conf.ports)
      simp only [Conf.releaseSinks,held,dst,modifyHeld heldDst,modifyHeld still,Option.bind_eq_bind,
        Option.bind_some]
      simp only [Conf.put,swapped]
    rw [reached]
    have ports : ∀ other, ({ (conf.put port (some { confPort with
        listenerSlots := confPort.listenerSlots.take n })).put dstSlot (some dstPort.lessTransmitters) with
          connectCnt := conf.connectCnt - 1 } : Conf).port other =
        if other = dstSlot then some dstPort.lessTransmitters
        else if other = port then some { confPort with listenerSlots := confPort.listenerSlots.take n }
        else conf.port other := by
      intro other
      exact (portPut (portHeld dstStill) _ other).trans (by rw [portPut (portHeld held)])
    have stillHeld := ports port
    rw [if_neg apart.symm,if_pos rfl] at stillHeld
    refine ih unlinked stillHeld (List.length_take_of_le (Nat.le_of_lt last)) ?_
    · intro other found here
      rw [ports] at here
      split at here
      · cases here
        exact unheard dstSlot dstPort heldDst
      · split at here
        · cases here
          exact fun inside => unheard port confPort held (List.mem_of_mem_take inside)
        · exact unheard other found here

theorem emptied {port : Nat} {confPort : Port} (sound : SoundBut (some port) conf)
    (unheard : Unheard port conf) (held : conf.port port = some confPort) (silent : confPort.listenerSlots = []) :
    SoundBut none { conf.put port none with portCnt := conf.portCnt - 1 } := by
  have place := portHeld held
  have ports : ∀ other, ({ conf.put port none with portCnt := conf.portCnt - 1 } : Conf).port other =
      if other = port then none else conf.port other := portPut place none
  have seen : ∀ other found, ({ conf.put port none with portCnt := conf.portCnt - 1 } : Conf).port other = some found →
      other ≠ port ∧ conf.port other = some found := by
    intro other found here
    rw [ports] at here
    split at here
    · cases here
    · rename_i apart
      exact ⟨apart,here⟩
  refine ⟨?_,?_⟩
  · constructor
    case size => exact (putKeepsSize conf port none).trans sound.size
    case distinct =>
      intro other found here
      exact sound.distinct other found (seen other found here).2
    case exist =>
      intro other found here sink listed
      obtain ⟨_,there⟩ := seen other found here
      rw [ports,if_neg (fun same : sink = port => unheard other found there (same ▸ listed))]
      exact sound.exist other found there sink listed
    case connections =>
      have entries : (conf.put port none).entries + entriesAt (some confPort) = conf.entries + entriesAt none :=
        entriesPut place none
      rw [entriesAtPort,silent] at entries
      exact sound.connections.trans (congrArg UInt32.ofNat entries.symm)
    case count =>
      have existing : (conf.put port none).existing + 1 = conf.existing + 0 := existingPut place none
      refine (congrArg (· - 1) (sound.count.trans (congrArg UInt32.ofNat existing.symm))).trans ?_
      exact ofNatPred (conf.put port none).existing
  · intro sink _ found here
    obtain ⟨apart,there⟩ := seen sink found here
    have transmitters : (conf.put port none).transmittersOf sink + (decide (sink ∈ confPort.listenerSlots)).toNat =
        conf.transmittersOf sink + 0 := transmittersPut place none sink
    rw [silent] at transmitters
    refine (sound.counted sink (fun same => apart (Option.some.inj same).symm) found there).trans ?_
    exact congrArg UInt32.ofNat transmitters.symm

theorem removeSound (sound : SoundBut none conf) (port : Nat) :
    ∃ conf' status, conf.removePort port = some (conf', status) ∧ SoundBut none conf' := by
  unfold Conf.removePort
  split
  · exact ⟨conf,_,rfl,sound⟩
  · split
    · exact ⟨conf,_,rfl,sound⟩
    · rename_i inside here
      have leaving : SoundBut (some port) conf :=
        ⟨sound.toShape,fun sink _ => sound.counted sink nofun⟩
      obtain ⟨conf₁,loop,sound₁,size₁,same₁,heard₁⟩ := dropListenerRounds leaving conf.maxPorts.toNat
      have unheard₁ : Unheard port conf₁ := by
        intro slot found held listed
        have outside := heard₁ slot found held listed
        have within := portInside sound₁.toShape held
        rw [size₁] at within
        omega
      obtain ⟨confPort,held₁⟩ : ∃ confPort, conf₁.port port = some confPort := by
        rw [← Option.isSome_iff_exists,same₁]
        exact Option.isSome_iff_ne_none.mpr here
      obtain ⟨conf₂,confPort₂,released,sound₂,unheard₂,held₂,silent⟩ :=
        releaseSinksSound sound₁ held₁ rfl unheard₁
      refine ⟨{ conf₂.put port none with portCnt := conf₂.portCnt - 1 },.success,?_,?_⟩
      · simp only [loop,held₁,released,Option.bind_eq_bind,Option.bind_some]
      · exact emptied sound₂ unheard₂ held₂ silent

/- A new port takes the first empty place; there is one, since port_cnt counts the places taken. -/
theorem Shape.existingBound (shape : Shape conf) : conf.existing ≤ conf.maxPorts.toNat := by
  rw [← shape.size]
  exact List.countP_le_length

theorem Shape.portCnt (shape : Shape conf) : conf.portCnt.toNat = conf.existing := by
  have bound := shape.existingBound
  have small : conf.maxPorts.toNat < UInt32.size := conf.maxPorts.toNat_lt
  rw [shape.count]
  exact UInt32.toNat_ofNat_of_lt' (by omega)

theorem Shape.room (shape : Shape conf) (free : ¬ conf.portCnt ≥ conf.maxPorts) :
    conf.ports[conf.ports.findIdx Option.isNone]? = some none := by
  have fewer : conf.ports.countP Option.isSome < conf.ports.length := by
    have less := UInt32.not_le.mp free
    rw [UInt32.lt_iff_toNat_lt,shape.portCnt,← shape.size] at less
    exact less
  obtain ⟨place,member,empty⟩ : ∃ place ∈ conf.ports, place.isNone = true := by
    by_contra full
    refine Nat.ne_of_lt fewer (List.countP_eq_length.mpr fun place member => ?_)
    cases place with
    | none => exact absurd ⟨none,member,rfl⟩ full
    | some => rfl
  have inside := List.findIdx_lt_length_of_exists ⟨place,member,empty⟩
  rw [List.getElem?_eq_getElem inside]
  exact congrArg some (Option.isNone_iff_eq_none.mp (List.findIdx_getElem (w := inside)))

theorem placed (sound : SoundBut none conf) (empty : conf.ports[slot]? = some none) :
    SoundBut none { conf.put slot (some {}) with portCnt := conf.portCnt + 1 } := by
  have ports : ∀ other, ({ conf.put slot (some {}) with portCnt := conf.portCnt + 1 } : Conf).port other =
      if other = slot then some {} else conf.port other := portPut empty (some {})
  have nothing : conf.port slot = none := by
    unfold Conf.port
    rw [empty]
    rfl
  -- nobody lists an empty place
  have unheard : conf.transmittersOf slot = 0 := by
    refine List.countP_eq_zero.mpr fun place member => ?_
    obtain ⟨other,here⟩ := List.getElem?_of_mem member
    cases place with
    | none => exact Bool.false_ne_true
    | some port =>
      intro listed
      have held : conf.port other = some port := by
        unfold Conf.port
        rw [here]
        rfl
      have exist := sound.exist other port held slot (of_decide_eq_true listed)
      rw [nothing] at exist
      cases exist
  have transmitters : ∀ sink, (conf.put slot (some {})).transmittersOf sink = conf.transmittersOf sink :=
    fun sink => transmittersPut empty (some {}) sink
  refine ⟨?_,?_⟩
  · constructor
    case size => exact (putKeepsSize conf slot _).trans sound.size
    case distinct =>
      intro other found here
      rw [ports] at here
      split at here
      · cases here
        exact List.nodup_nil
      · exact sound.distinct other found here
    case exist =>
      intro other found here sink listed
      rw [ports] at here ⊢
      split
      · rfl
      · split at here
        · cases here
          cases listed
        · exact sound.exist other found here sink listed
    case connections =>
      have entries : (conf.put slot (some {})).entries = conf.entries := entriesPut empty (some {})
      exact sound.connections.trans (congrArg UInt32.ofNat entries.symm)
    case count =>
      have existing : (conf.put slot (some {})).existing = conf.existing + 1 := existingPut empty (some {})
      refine Eq.trans ?_ (congrArg UInt32.ofNat existing.symm)
      rw [UInt32.ofNat_add]
      exact congrArg (· + 1) sound.count
  · intro sink kept found here
    rw [ports] at here
    refine Eq.trans ?_ (congrArg UInt32.ofNat (transmitters sink).symm)
    split at here
    · rename_i same
      cases here
      rw [same,unheard]
      rfl
    · exact sound.counted sink kept found here

theorem addSound (sound : SoundBut none conf) (channels : Nat) (created : Bool) :
    ∃ conf' status, conf.addPort channels created = some (conf', status) ∧ SoundBut none conf' := by
  unfold Conf.addPort
  split
  · exact ⟨conf,_,rfl,sound⟩
  · split
    · exact ⟨conf,_,rfl,sound⟩
    · rename_i free
      split
      · exact ⟨conf,_,rfl,sound⟩
      · have empty := sound.toShape.room free
        have inside := (List.getElem?_eq_some_iff.mp empty).1
        dsimp only
        rw [if_pos inside]
        exact ⟨_,.success,rfl,placed sound empty⟩

theorem callSound (sound : SoundBut none conf) (call : Call) :
    ∃ conf' status, conf.call call = some (conf', status) ∧ SoundBut none conf' := by
  cases call with
  | addPort channels created => exact addSound sound channels created
  | connectPort srcSlot sinkSlot adjLevel => exact connectSound sound srcSlot sinkSlot adjLevel
  | disconnectPort srcSlot sinkSlot => exact disconnectSound sound srcSlot sinkSlot
  | removePort port => exact removeSound sound port
  | adjustConnLevel srcSlot sinkSlot adjLevel => exact adjustSound sound srcSlot sinkSlot adjLevel

theorem runSound (sound : SoundBut none conf) (calls : List Call) :
    ∃ conf', run conf calls = some conf' ∧ SoundBut none conf' := by
  induction calls generalizing conf with
  | nil => exact ⟨conf,rfl,sound⟩
  | cons call calls ih =>
    obtain ⟨next,status,called,sound'⟩ := callSound sound call
    obtain ⟨conf',ran,sound''⟩ := ih sound'
    refine ⟨conf',?_,sound''⟩
    rw [run,List.foldlM_cons,called]
    exact ran

def bare (maxPorts : UInt32) (channelCount : Nat) : Conf :=
  { maxPorts, channelCount, portCnt := 0, connectCnt := 0, ports := List.replicate maxPorts.toNat none }

theorem bareSound (maxPorts : UInt32) (channelCount : Nat) : SoundBut none (bare maxPorts channelCount) := by
  have empty : ∀ place ∈ (bare maxPorts channelCount).ports, place = none := fun _ => List.eq_of_mem_replicate
  have nobody : ∀ slot port, (bare maxPorts channelCount).port slot ≠ some port := by
    intro slot port held
    cases empty _ (List.mem_of_getElem? (portHeld held))
  refine ⟨?_,fun sink _ port held => absurd held (nobody sink port)⟩
  constructor
  case size => exact List.length_replicate
  case distinct => exact fun slot port held => absurd held (nobody slot port)
  case exist => exact fun slot port held => absurd held (nobody slot port)
  case connections =>
    have entries : (bare maxPorts channelCount).entries = 0 := by
      refine List.sum_eq_zero fun weight member => ?_
      obtain ⟨place,inside,rfl⟩ := List.mem_map.mp member
      rw [empty place inside]
      rfl
    exact (congrArg UInt32.ofNat entries).symm
  case count =>
    have existing : (bare maxPorts channelCount).existing = 0 := by
      refine List.countP_eq_zero.mpr fun place member => ?_
      rw [empty place member]
      exact Bool.false_ne_true
    exact (congrArg UInt32.ofNat existing).symm

theorem createCases {maxPorts : UInt32} {channelCount : Nat} {sound : Bool}
    (created : create maxPorts channelCount sound = some conf) :
    (bare maxPorts channelCount).ports[0]? = some none ∧
      conf = { (bare maxPorts channelCount).put 0 (some {}) with portCnt := 0 + 1 } := by
  unfold create at created
  split at created
  · cases created
  · rename_i fine
    have positive : 0 < maxPorts.toNat := by
      by_contra empty
      exact fine (.inl (UInt32.toNat_inj.mp (Nat.eq_zero_of_not_pos empty)))
    cases created
    exact ⟨(List.getElem?_replicate).trans (if_pos positive),rfl⟩

theorem createSound {maxPorts : UInt32} {channelCount : Nat} {sound : Bool}
    (created : create maxPorts channelCount sound = some conf) : SoundBut none conf := by
  obtain ⟨place,rfl⟩ := createCases created
  exact placed (bareSound maxPorts channelCount) place

end Pjproject.Conference
