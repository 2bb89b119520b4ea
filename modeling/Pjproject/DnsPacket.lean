import Pjproject.Lib.Bytes

/-! DNS messages: the parser of dns.c, with the memory behind the packet, and the query it writes. Lengths are natural
numbers; a name is what is copied, without the block it is copied to. -/
namespace Pjproject.DnsPacket
open Lib.Bytes

inductive Status where
  | einval
  | dnsQryTooSmall
  | dnsInSize
  | dnsInNamePtr
  | dnsInClass
  deriving DecidableEq, Repr

abbrev Name := List UInt8

def dot : UInt8 := 46

/- A packet of `size` bytes, and what the memory holds behind it. -/
structure Packet where
  mem : Memory
  size : Nat

def typeA : UInt16 := 1
def typeNs : UInt16 := 2
def typeCname : UInt16 := 5
def typePtr : UInt16 := 12
def typeAaaa : UInt16 := 28
def typeSrv : UInt16 := 33
def classIn : UInt16 := 1

structure Header where
  id : UInt16
  flags : UInt16
  qdcount : UInt16
  anscount : UInt16
  nscount : UInt16
  arcount : UInt16
  deriving DecidableEq, Repr

structure Query where
  name : Name
  type : UInt16
  dnsclass : UInt16
  deriving DecidableEq, Repr

inductive Rdata where
  | a (ipAddr : List UInt8)
  | aaaa (ipAddr : List UInt8)
  | name (name : Name)
  | srv (prio weight port : UInt16) (target : Name)
  | raw (data : List UInt8)
  deriving DecidableEq, Repr

structure Rr where
  name : Name
  type : UInt16
  dnsclass : UInt16
  ttl : UInt32
  rdlength : UInt16
  rdata : Rdata
  deriving DecidableEq, Repr

/- A resource record, and where the section's loop has read it. -/
structure Record where
  start : Nat
  rr : Rr
  parsedLen : Nat
  deriving DecidableEq, Repr

structure Parsed where
  hdr : Header
  q : List Query
  ans : List Record
  ns : List Record
  arr : List Record
  deriving DecidableEq, Repr

def isPointer (b : UInt8) : Bool := b &&& 0xc0 = 0xc0

/- The loop of get_name_len: `follow` is the recursive call, behind a compression pointer. -/
def nameLenLoop (pkt : Packet) (follow : Nat → Reads Status (Nat × Nat)) (p parsedLen nameLen : Nat) :
    Reads Status (Nat × Nat) :=
  readByte pkt.mem p >>= fun b =>
    if b = 0 then pure (parsedLen + 1, nameLen)
    else if isPointer b then
      read16 pkt.mem p >>= fun word =>
        let offset := (word ^^^ 0xc000).toNat
        if offset ≥ pkt.size then .fail .dnsInNamePtr
        else follow offset >>= fun inner => pure (parsedLen + 2, nameLen + inner.2)
    else if b.toNat > pkt.size then .fail .dnsInNamePtr
    else
      let next := p + (b.toNat + 1)
      readByte pkt.mem next >>= fun after =>
        if next ≥ pkt.size then .fail .dnsInSize
        else
          nameLenLoop pkt follow next (parsedLen + (b.toNat + 1))
            (nameLen + if after ≠ 0 then b.toNat + 1 else b.toNat)
termination_by pkt.size - p

/- rec_counter may be zero to ten; the functions below count the calls that are left. -/
def maxHops : Nat := 11

def getNameLen (pkt : Packet) : Nat → Nat → Reads Status (Nat × Nat)
  | 0, _ => .fail .dnsInNamePtr
  | hops + 1, start => nameLenLoop pkt (getNameLen pkt hops) start 0 0

def nameLoop (pkt : Packet) (follow : Nat → Name → Reads Status Name) (p : Nat) (name : Name) : Reads Status Name :=
  readByte pkt.mem p >>= fun b =>
    if b = 0 then pure name
    else if isPointer b then
      read16 pkt.mem p >>= fun word =>
        let offset := (word ^^^ 0xc000).toNat
        if offset ≥ pkt.size then .fail .dnsInNamePtr else follow offset name
    else if b.toNat > pkt.size then .fail .dnsInNamePtr
    else
      readSlice pkt.mem (p + 1) b.toNat >>= fun label =>
        let next := p + (b.toNat + 1)
        readByte pkt.mem next >>= fun after =>
          if next ≥ pkt.size then .fail .dnsInSize
          else nameLoop pkt follow next (name ++ label ++ if after ≠ 0 then [dot] else [])
termination_by pkt.size - p

def getName (pkt : Packet) : Nat → Nat → Name → Reads Status Name
  | 0, _, _ => .fail .dnsInNamePtr
  | hops + 1, start, name => nameLoop pkt (getName pkt hops) start name

/- The length, the block and the name itself, as every caller reads them. -/
def readName (pkt : Packet) (start : Nat) : Reads Status (Nat × Name) :=
  getNameLen pkt maxHops start >>= fun len =>
    getName pkt maxHops start [] >>= fun name => pure (len.1, name)

def parseQuery (pkt : Packet) (start : Nat) : Reads Status (Query × Nat) :=
  readName pkt start >>= fun read =>
    let p := start + read.1
    read16 pkt.mem p >>= fun type =>
      read16 pkt.mem (p + 2) >>= fun dnsclass => pure (⟨read.2,type,dnsclass⟩, read.1 + 4)

def isKnown (type : UInt16) : Bool :=
  type = typeA || type = typeAaaa || type = typeCname || type = typeNs || type = typePtr || type = typeSrv

/- The data of a record, and how far it goes. -/
def parseRdata (pkt : Packet) (type rdlength : UInt16) (p : Nat) : Reads Status (Rdata × Nat) :=
  if type = typeA then readSlice pkt.mem p 4 >>= fun addr => pure (.a addr, 4)
  else if type = typeAaaa then readSlice pkt.mem p 16 >>= fun addr => pure (.aaaa addr, 16)
  else if type = typeCname ∨ type = typeNs ∨ type = typePtr then
    readName pkt p >>= fun read => pure (.name read.2, read.1)
  else if type = typeSrv then
    read16 pkt.mem p >>= fun prio =>
      read16 pkt.mem (p + 2) >>= fun weight =>
        read16 pkt.mem (p + 4) >>= fun port =>
          readName pkt (p + 6) >>= fun read => pure (.srv prio weight port read.2, 6 + read.1)
  else readSlice pkt.mem p rdlength.toNat >>= fun data => pure (.raw data, rdlength.toNat)

def parseRr (pkt : Packet) (start : Nat) : Reads Status (Rr × Nat) :=
  readName pkt start >>= fun read =>
    let p := start + read.1
    if p + 10 > pkt.size then .fail .dnsInSize
    else
      read16 pkt.mem p >>= fun type =>
        read16 pkt.mem (p + 2) >>= fun dnsclass =>
          if dnsclass ≠ classIn ∧ isKnown type then .fail .dnsInClass
          else
            read32 pkt.mem (p + 4) >>= fun ttl =>
              read16 pkt.mem (p + 8) >>= fun rdlength =>
                if p + 10 + rdlength.toNat > pkt.size then .fail .dnsInSize
                else
                  parseRdata pkt type rdlength (p + 10) >>= fun data =>
                    pure (⟨read.2,type,dnsclass,ttl,rdlength,data.1⟩, read.1 + 10 + data.2)

def parseQueries (pkt : Packet) : Nat → Nat → Reads Status (List Query × Nat)
  | 0, start => pure ([], start)
  | count + 1, start =>
    parseQuery pkt start >>= fun one =>
      parseQueries pkt count (start + one.2) >>= fun rest => pure (one.1 :: rest.1, rest.2)

def parseRrs (pkt : Packet) : Nat → Nat → Reads Status (List Record × Nat)
  | 0, start => pure ([], start)
  | count + 1, start =>
    parseRr pkt start >>= fun one =>
      parseRrs pkt count (start + one.2) >>= fun rest => pure (⟨start,one.1,one.2⟩ :: rest.1, rest.2)

def parseHeader (pkt : Packet) : Reads Status Header :=
  read16 pkt.mem 0 >>= fun id =>
    read16 pkt.mem 2 >>= fun flags =>
      read16 pkt.mem 4 >>= fun qdcount =>
        read16 pkt.mem 6 >>= fun anscount =>
          read16 pkt.mem 8 >>= fun nscount =>
            read16 pkt.mem 10 >>= fun arcount => pure ⟨id,flags,qdcount,anscount,nscount,arcount⟩

def parsePacket (pkt : Packet) : Reads Status Parsed :=
  if pkt.size = 0 then .fail .einval
  else if pkt.size < 12 then .fail .dnsInSize
  else
    parseHeader pkt >>= fun hdr =>
      parseQueries pkt hdr.qdcount.toNat 12 >>= fun q =>
        parseRrs pkt hdr.anscount.toNat q.2 >>= fun ans =>
          parseRrs pkt hdr.nscount.toNat ans.2 >>= fun ns =>
            parseRrs pkt hdr.arcount.toNat ns.2 >>= fun arr => pure ⟨hdr,q.1,ans.1,ns.1,arr.1⟩

/- The loop over the labels of a name. It goes over a dot behind a label. -/
def labelBytes (name : Name) : List UInt8 :=
  match name with
  | [] => []
  | c :: rest =>
    let label := (c :: rest).takeWhile (· ≠ dot)
    UInt8.ofNat label.length :: label ++ labelBytes ((c :: rest).drop (label.length + 1))
termination_by name.length
decreasing_by
  rw [List.length_drop,List.length_cons]
  omega

/- The bytes that are written from the start of the buffer. `dnsSetRd` is the recursion-desired bit. -/
def dnsSetRd : UInt16 := 0x100

def makeQuery (size : Nat) (id : UInt16) (qtype : Int) (name : Name) : Except Status (List UInt8) :=
  if qtype = 0 then .error .einval
  else if size < 12 + name.length + 4 then .error .dnsQryTooSmall
  else
    .ok (be16 id ++ be16 dnsSetRd ++ be16 1 ++ be16 0 ++ be16 0 ++ be16 0 ++ labelBytes name ++ [0] ++
      be16 (UInt16.ofInt qtype) ++ be16 classIn)

end Pjproject.DnsPacket
