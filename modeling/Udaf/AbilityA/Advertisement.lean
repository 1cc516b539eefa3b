import Udaf.Lib.Bytes

/-!
`ability_a/discovery/advertisement.cpp`: the payload of a discovery frame, strings behind
big-endian lengths. Where a field is missing the parser returns what it has read.
-/

namespace Udaf

open ByteString

def discoveryMagic : UInt32 := 0x44434144

def discoveryVersion : UInt32 := 1

def discoveryHeaderSize : Nat := 4 + 4 + 8 + 32

structure AdvertisementPayload where
  nodeId : Bytes := []
  hostname : Bytes := []
  bindAddress : Bytes := []
  bindPort : UInt16 := 0
  services : List Bytes := []
  deriving DecidableEq

def writeU16 (v : UInt16) : Bytes := [(v >>> 8).toUInt8, v.toUInt8]

def readU16 (high low : UInt8) : UInt16 := (high.toUInt16 <<< 8) ||| low.toUInt16

def writeStr (s : Bytes) : Bytes := writeU16 (UInt16.ofNat s.length) ++ s

def serializePayload (p : AdvertisementPayload) : Bytes :=
  writeStr p.nodeId ++ writeStr p.hostname ++ writeStr p.bindAddress ++ writeU16 p.bindPort ++
    writeU16 (UInt16.ofNat p.services.length) ++ p.services.flatMap writeStr

def takeU16 : Bytes → Option (UInt16 × Bytes)
  | high :: low :: rest => some (readU16 high low, rest)
  | _ => none

def readStr (buf : Bytes) : Option (Bytes × Bytes) :=
  match takeU16 buf with
  | none => none
  | some (len, rest) =>
      if rest.length < len.toNat then none else some (rest.take len.toNat, rest.drop len.toNat)

def readServices : Nat → Bytes → List Bytes
  | 0, _ => []
  | count + 1, buf =>
      match readStr buf with
      | none => []
      | some (s, rest) => s :: readServices count rest

def parsePayload (buf : Bytes) : AdvertisementPayload :=
  match readStr buf with
  | none => {}
  | some (nodeId, rest) =>
      match readStr rest with
      | none => { nodeId }
      | some (hostname, rest) =>
          match readStr rest with
          | none => { nodeId, hostname }
          | some (bindAddress, rest) =>
              match takeU16 rest with
              | none => { nodeId, hostname, bindAddress }
              | some (bindPort, rest) =>
                  match takeU16 rest with
                  | none => { nodeId, hostname, bindAddress, bindPort }
                  | some (nServices, rest) =>
                      let services := readServices nServices.toNat rest
                      { nodeId, hostname, bindAddress, bindPort, services }

theorem readU16_halves (v : UInt16) : readU16 (v >>> 8).toUInt8 v.toUInt8 = v := by
  have bound := v.toNat_lt
  have eight : (2 : Nat) ^ (8 % 16) = 256 := rfl
  have high : (v >>> 8).toUInt8.toNat = v.toNat / 256 := by
    rw [UInt16.toNat_toUInt8, UInt16.toNat_shiftRight]
    simp only [UInt16.reduceToNat, Nat.shiftRight_eq_div_pow, eight]
    omega
  have low : v.toUInt8.toNat = v.toNat % 256 := UInt16.toNat_toUInt8 v
  have shifted : ((v >>> 8).toUInt8.toUInt16 <<< 8).toNat = (v.toNat / 256) <<< 8 := by
    rw [UInt16.toNat_shiftLeft, UInt8.toNat_toUInt16, high]
    simp only [UInt16.reduceToNat, Nat.shiftLeft_eq, eight]
    omega
  apply UInt16.toNat_inj.mp
  rw [readU16, UInt16.toNat_or, shifted, UInt8.toNat_toUInt16, low,
    ← Nat.shiftLeft_add_eq_or_of_lt (Nat.mod_lt _ (by decide)), Nat.shiftLeft_eq]
  omega

@[simp] theorem takeU16_writeU16 (v : UInt16) (rest : Bytes) :
    takeU16 (writeU16 v ++ rest) = some (v, rest) := by
  simp only [writeU16, List.cons_append, List.nil_append, takeU16, readU16_halves]

structure AdvertisementPayload.Fits (payload : AdvertisementPayload) : Prop where
  nodeId : payload.nodeId.length < 65536
  hostname : payload.hostname.length < 65536
  bindAddress : payload.bindAddress.length < 65536
  count : payload.services.length < 65536
  services : ∀ s ∈ payload.services, s.length < 65536

theorem readStr_writeStr {s : Bytes} (short : s.length < 65536) (rest : Bytes) :
    readStr (writeStr s ++ rest) = some (s, rest) := by
  have len : (UInt16.ofNat s.length).toNat = s.length := by
    rw [UInt16.toNat_ofNat', Nat.mod_eq_of_lt short]
  rw [writeStr, List.append_assoc, readStr, takeU16_writeU16]
  simp only [len]
  rw [if_neg (by rw [List.length_append]; omega), List.take_left, List.drop_left]

theorem readServices_writeStr {services : List Bytes} (short : ∀ s ∈ services, s.length < 65536)
    (rest : Bytes) :
    readServices services.length (services.flatMap writeStr ++ rest) = services := by
  induction services with
  | nil => rfl
  | cons s services ih =>
      have first := short s (List.mem_cons_self ..)
      rw [List.length_cons, readServices, List.flatMap_cons, List.append_assoc,
        readStr_writeStr first]
      simp only
      rw [ih fun other member => short other (List.mem_cons_of_mem s member)]

theorem parsePayload_serializePayload {payload : AdvertisementPayload} (fits : payload.Fits) :
    parsePayload (serializePayload payload) = payload := by
  have count : (UInt16.ofNat payload.services.length).toNat = payload.services.length := by
    rw [UInt16.toNat_ofNat', Nat.mod_eq_of_lt fits.count]
  have services := readServices_writeStr fits.services []
  rw [List.append_nil] at services
  simp only [serializePayload, List.append_assoc, parsePayload, readStr_writeStr fits.nodeId,
    readStr_writeStr fits.hostname, readStr_writeStr fits.bindAddress, takeU16_writeU16, count,
    services]

end Udaf
