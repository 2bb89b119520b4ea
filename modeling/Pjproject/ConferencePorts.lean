import Mathlib

/-! The conference bridge of conference.c: its ports, who transmits to whom, and the counters kept beside that.
A function returns none where the code would follow a NULL port or leave an array. -/
namespace Pjproject.Conference

def normalLevel : Int := 128

/- struct conf_port: the listeners are the first listener_cnt places of listener_slots. The levels are an array of their
own, which pj_array_erase on the slots does not move. -/
structure Port where
  listenerSlots : List Nat := []
  listenerAdjLevel : Nat → Int := fun _ => 0
  transmitterCnt : UInt32 := 0

structure Conf where
  maxPorts : UInt32
  portCnt : UInt32
  connectCnt : UInt32
  channelCount : Nat
  ports : List (Option Port)

inductive Status where
  | success
  | einval
  | etoomany
  | encchannel
  | createFailed
  deriving DecidableEq, Repr

/- conf->ports[slot], none for NULL. -/
def Conf.port (conf : Conf) (slot : Nat) : Option Port := conf.ports[slot]?.join

def Conf.put (conf : Conf) (slot : Nat) (port : Option Port) : Conf :=
  { conf with ports := conf.ports.set slot port }

/- A write through a port pointer. Two pointers may be the same port, so each write reads it again. -/
def Conf.modifyPort (conf : Conf) (slot : Nat) (change : Port → Port) : Option Conf :=
  (conf.port slot).map fun port => conf.put slot (some (change port))

def Port.listen (sink : Nat) (adjLevel : Int) (port : Port) : Port :=
  { port with
    listenerSlots := port.listenerSlots ++ [sink]
    listenerAdjLevel := fun i =>
      if i = port.listenerSlots.length then adjLevel + normalLevel else port.listenerAdjLevel i }

def Port.unlisten (sink : Nat) (port : Port) : Port :=
  { port with listenerSlots := port.listenerSlots.erase sink }

def Port.moreTransmitters (port : Port) : Port := { port with transmitterCnt := port.transmitterCnt + 1 }

def Port.lessTransmitters (port : Port) : Port := { port with transmitterCnt := port.transmitterCnt - 1 }

/- pjmedia_conf_create. Port zero is written without a check that there is room for it; `sound` is whether the sound device
could be opened. -/
def create (maxPorts : UInt32) (channelCount : Nat) (sound : Bool) : Option Conf :=
  if maxPorts = 0 ∨ sound = false then none
  else some
    { maxPorts, channelCount, portCnt := 1, connectCnt := 0
      ports := (List.replicate maxPorts.toNat none).set 0 (some {}) }

/- pjmedia_conf_add_port. `created` is whether create_conf_port succeeds. -/
def Conf.addPort (conf : Conf) (channels : Nat) (created : Bool) : Option (Conf × Status) :=
  if channels ≠ conf.channelCount ∧ channels ≠ 1 ∧ conf.channelCount ≠ 1 then some (conf, .encchannel)
  else if conf.portCnt ≥ conf.maxPorts then some (conf, .etoomany)
  else if created = false then some (conf, .createFailed)
  else
    let index := conf.ports.findIdx Option.isNone
    if index < conf.ports.length then
      some ({ conf.put index (some {}) with portCnt := conf.portCnt + 1 }, .success)
    else none

def Conf.inside (conf : Conf) (slot : Nat) : Prop := slot < conf.maxPorts.toNat

instance (conf : Conf) (slot : Nat) : Decidable (conf.inside slot) := inferInstanceAs (Decidable (_ < _))

/- pjmedia_conf_connect_port. -/
def Conf.connectPort (conf : Conf) (srcSlot sinkSlot : Nat) (adjLevel : Int) : Option (Conf × Status) :=
  if ¬ (conf.inside srcSlot ∧ conf.inside sinkSlot) ∨ adjLevel < -128 then some (conf, .einval)
  else
    match conf.port srcSlot, conf.port sinkSlot with
    | some srcPort, some _ =>
      if sinkSlot ∈ srcPort.listenerSlots then some (conf, .success)
      else if conf.maxPorts.toNat ≤ srcPort.listenerSlots.length then none
      else do
        let conf ← conf.modifyPort srcSlot (Port.listen sinkSlot adjLevel)
        let conf ← conf.modifyPort sinkSlot Port.moreTransmitters
        some ({ conf with connectCnt := conf.connectCnt + 1 }, .success)
    | _, _ => some (conf, .einval)

/- pjmedia_conf_disconnect_port. -/
def Conf.disconnectPort (conf : Conf) (srcSlot sinkSlot : Nat) : Option (Conf × Status) :=
  if ¬ (conf.inside srcSlot ∧ conf.inside sinkSlot) then some (conf, .einval)
  else
    match conf.port srcSlot, conf.port sinkSlot with
    | some srcPort, some _ =>
      if sinkSlot ∈ srcPort.listenerSlots then do
        let conf ← conf.modifyPort srcSlot (Port.unlisten sinkSlot)
        let conf ← conf.modifyPort sinkSlot Port.lessTransmitters
        some ({ conf with connectCnt := conf.connectCnt - 1 }, .success)
      else some (conf, .success)
    | _, _ => some (conf, .einval)

/- pjmedia_conf_adjust_conn_level. -/
def Conf.adjustConnLevel (conf : Conf) (srcSlot sinkSlot : Nat) (adjLevel : Int) : Option (Conf × Status) :=
  if ¬ (conf.inside srcSlot ∧ conf.inside sinkSlot) ∨ adjLevel < -128 then some (conf, .einval)
  else
    match conf.port srcSlot, conf.port sinkSlot with
    | some srcPort, some _ =>
      let i := srcPort.listenerSlots.idxOf sinkSlot
      if i = srcPort.listenerSlots.length then some (conf, .einval)
      else do
        let conf ← conf.modifyPort srcSlot fun port =>
          { port with listenerAdjLevel := Function.update port.listenerAdjLevel i (adjLevel + normalLevel) }
        some (conf, .success)
    | _, _ => some (conf, .einval)

/- One round of the first loop of pjmedia_conf_remove_port: `slot` no longer transmits to `port`. The counter of `port`
itself stays, since the port goes away. -/
def Conf.dropListener (port : Nat) (conf : Conf) (slot : Nat) : Conf :=
  match conf.port slot with
  | none => conf
  | some srcPort =>
    if port ∈ srcPort.listenerSlots then
      { conf.put slot (some (srcPort.unlisten port)) with connectCnt := conf.connectCnt - 1 }
    else conf

/- Its second loop, with listener_cnt rounds to go: the last listener is told and forgotten. -/
def Conf.releaseSinks (port : Nat) : Nat → Conf → Option Conf
  | 0, conf => some conf
  | n + 1, conf => do
    let confPort ← conf.port port
    let dstSlot ← confPort.listenerSlots[n]?
    let conf ← conf.modifyPort dstSlot Port.lessTransmitters
    let conf ← conf.modifyPort port fun confPort => { confPort with listenerSlots := confPort.listenerSlots.take n }
    releaseSinks port n { conf with connectCnt := conf.connectCnt - 1 }

/- pjmedia_conf_remove_port. -/
def Conf.removePort (conf : Conf) (port : Nat) : Option (Conf × Status) :=
  if ¬ conf.inside port then some (conf, .einval)
  else if conf.port port = none then some (conf, .einval)
  else do
    let conf := (List.range conf.maxPorts.toNat).foldl (Conf.dropListener port) conf
    let confPort ← conf.port port
    let conf ← conf.releaseSinks port confPort.listenerSlots.length
    some ({ conf.put port none with portCnt := conf.portCnt - 1 }, .success)

inductive Call where
  | addPort (channels : Nat) (created : Bool)
  | connectPort (srcSlot sinkSlot : Nat) (adjLevel : Int)
  | disconnectPort (srcSlot sinkSlot : Nat)
  | removePort (port : Nat)
  | adjustConnLevel (srcSlot sinkSlot : Nat) (adjLevel : Int)

def Conf.call (conf : Conf) : Call → Option (Conf × Status)
  | .addPort channels created => conf.addPort channels created
  | .connectPort srcSlot sinkSlot adjLevel => conf.connectPort srcSlot sinkSlot adjLevel
  | .disconnectPort srcSlot sinkSlot => conf.disconnectPort srcSlot sinkSlot
  | .removePort port => conf.removePort port
  | .adjustConnLevel srcSlot sinkSlot adjLevel => conf.adjustConnLevel srcSlot sinkSlot adjLevel

def run (conf : Conf) (calls : List Call) : Option Conf :=
  calls.foldlM (fun conf call => (conf.call call).map Prod.fst) conf

end Pjproject.Conference
