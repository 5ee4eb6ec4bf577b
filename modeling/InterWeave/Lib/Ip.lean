import Mathlib

/-!
IP addresses as numbers. How they are read from text and written is left to the reader of
texts that a development is given.
-/

namespace Ip

inductive Address where
  | v4 (bits : BitVec 32)
  | v6 (bits : BitVec 128)
  deriving DecidableEq, Repr

def toIpv4Mapped (bits : BitVec 128) : Option (BitVec 32) :=
  if bits.extractLsb' 32 96 = 0xffff#96 then some (bits.extractLsb' 0 32) else none

def octet (bits : BitVec 32) (index : Nat) : Nat := (bits.extractLsb' (24 - 8 * index) 8).toNat

def segment (bits : BitVec 128) (index : Nat) : Nat :=
  (bits.extractLsb' (112 - 16 * index) 16).toNat

def network64 (bits : BitVec 128) : BitVec 128 := bits.extractLsb' 64 64 ++ 0#64

structure Text where
  parseV4 : String → Option (BitVec 32)
  parseV6 : String → Option (BitVec 128)
  parseSocket : String → Option Address
  showV4 : BitVec 32 → String
  showV6 : BitVec 128 → String

def Text.parse (text : Text) (source : String) : Option Address :=
  match text.parseV4 source with
  | some bits => some (.v4 bits)
  | none => (text.parseV6 source).map .v6

end Ip
