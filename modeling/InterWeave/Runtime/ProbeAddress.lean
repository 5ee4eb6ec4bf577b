import InterWeave.Lib.Ip

/-!
The address predicates of `runtime::reachability`: which addresses name one literal host and
which of those a probe may be sent to.
-/

namespace InterWeave

def addressParts (address : String) : List String :=
  (address.toList.splitOn '/').map String.ofList

def parseU16 (text : String) : Option Nat :=
  let digits := match text.toList with
    | '+' :: rest => rest
    | all => all
  if digits.isEmpty ∨ ¬digits.all Char.isDigit then none
  else
    let value := digits.foldl (fun value digit => value * 10 + (digit.toNat - '0'.toNat)) 0
    if value ≤ 65535 then some value else none

def afterHost : List String → Option (List String)
  | "tcp" :: port :: rest => (parseU16 port).map fun _ => rest
  | "udp" :: port :: rest => (parseU16 port).map fun _ =>
    match rest with
    | "quic" :: more | "quic-v1" :: more => more
    | more => more
  | ["tcp"] | ["udp"] => none
  | rest => some rest

def afterPeer : List String → Option (List String)
  | "p2p" :: id :: rest => if id.isEmpty then none else some rest
  | ["p2p"] => none
  | rest => some rest

def literalHost (text : Ip.Text) (address : String) : Option Ip.Address :=
  match addressParts address with
  | "" :: family :: literal :: rest =>
    let host := match family with
      | "ip4" => (text.parseV4 literal).map Ip.Address.v4
      | "ip6" => (text.parseV6 literal).map Ip.Address.v6
      | _ => none
    match host, (afterHost rest).bind afterPeer with
    | some ip, some [] => some ip
    | _, _ => none
  | _ => none

def isPublicV4 (bits : BitVec 32) : Bool :=
  let a := Ip.octet bits 0
  let b := Ip.octet bits 1
  let c := Ip.octet bits 2
  let shared := a == 100 && (64 ≤ b && b ≤ 127)
  let benchmarking := a == 198 && (b == 18 || b == 19)
  let reserved := 240 ≤ a
  let thisNetwork := a == 0
  let protocolAssignments := a == 192 && b == 0 && c == 0
  let sixToFourRelay := a == 192 && b == 88 && c == 99
  let loopback := a == 127
  let unspecified := bits == 0#32
  let privateUse := a == 10 || (a == 172 && (16 ≤ b && b ≤ 31)) || (a == 192 && b == 168)
  let linkLocal := a == 169 && b == 254
  let multicast := 224 ≤ a && a ≤ 239
  let broadcast := bits == 0xffffffff#32
  let documentation := (a == 192 && b == 0 && c == 2) || (a == 198 && b == 51 && c == 100) ||
    (a == 203 && b == 0 && c == 113)
  !(loopback || unspecified || thisNetwork || privateUse || linkLocal || multicast || broadcast ||
    documentation || shared || benchmarking || protocolAssignments || sixToFourRelay || reserved)

def isPublicV6 (bits : BitVec 128) : Bool :=
  match Ip.toIpv4Mapped bits with
  | some mapped => isPublicV4 mapped
  | none =>
    let first := Ip.segment bits 0
    let second := Ip.segment bits 1
    if first / 0x2000 ≠ 1 then false
    else
      let documentation := (first == 0x2001 && second == 0x0db8) ||
        (first == 0x3fff && second / 0x1000 == 0)
      let sixToFour := first == 0x2002
      let protocolAssignments := first == 0x2001 && second < 0x0200
      !(documentation || sixToFour || protocolAssignments)

def isProbeableAddress (text : Ip.Text) (address : String) : Bool :=
  if "p2p-circuit" ∈ addressParts address then false
  else
    match literalHost text address with
    | some (.v4 bits) => isPublicV4 bits
    | some (.v6 bits) => isPublicV6 bits
    | none => false

end InterWeave
