/-!
The fingerprint by which a family tells the labels of its samples apart: a 64-bit hash of their
values, written one after the other. Labels whose values make the same text have the same one.
-/

namespace CloudOffers.Metrics

def hashBasis : UInt64 := 0xcbf29ce484222325

def hashPrime : UInt64 := 0x100000001b3

def hashByte (hash : UInt64) (b : UInt8) : UInt64 := (hash ^^^ b.toUInt64) * hashPrime

def hashBytes (bs : List UInt8) : UInt64 := bs.foldl hashByte hashBasis

def fingerprint (labels : List String) : Nat :=
  (hashBytes (labels.flatMap (fun s ↦ s.toUTF8.toList))).toNat

end CloudOffers.Metrics
