import Udaf.AbilityA.Advertisement
import Udaf.AbilityA.UdpSocket
import Udaf.Crypto.Psk

/-!
`ability_a/discovery/advertiser.cpp`: the frame of one broadcast. The draw of the nonce,
the clock and the answers of the system calls are passed in.
-/

namespace Udaf

open ByteString

structure AdvertiserConfig where
  bindAddress : String := "127.0.0.1"
  bindPort : UInt16 := 0
  broadcastPort : UInt16 := 19999

structure Advertiser where
  payload : AdvertisementPayload
  cfg : AdvertiserConfig
  psk : Bytes := []
  sock : Option (UdpSocket UInt8) := none

structure BroadcastOutcome where
  result : Except ErrorCode Nat
  after : Advertiser
  frame : Option Bytes := none

def keptPsk (psk : Bytes) : Bytes := if psk.length = 32 then psk else []

/-- The key of the authentication code: without a PSK it is all zero. -/
def discoveryKey (psk : Bytes) : Bytes := if psk.length = 32 then psk else List.replicate 32 0

def wordBytes (word : UInt32) : Bytes :=
  [(word >>> 24).toUInt8, (word >>> 16).toUInt8, (word >>> 8).toUInt8, word.toUInt8]

namespace Advertiser

def create (openSocket : UInt16 → Option (UdpSocket UInt8)) (payload : AdvertisementPayload)
    (cfg : AdvertiserConfig) (psk : Bytes) : Option Advertiser :=
  match openSocket cfg.bindPort with
  | none => none
  | some sock => some { payload := payload, cfg := cfg, psk := keptPsk psk, sock := some sock }

def frameOf (nonce mac payloadBytes : Bytes) : Bytes :=
  wordBytes discoveryMagic ++ wordBytes discoveryVersion ++ nonce ++ mac ++ payloadBytes

def broadcastOnce (platform : Platform UInt8) (inetPton : String → Option (Block UInt8 4))
    (advertiser : Advertiser) (draw : Option (Block UInt8 8)) (now : Int) (accepted : SendTo) :
    BroadcastOutcome :=
  match advertiser.sock with
  | none => { result := .error .netSocketClosed, after := advertiser }
  | some sock =>
      match draw with
      | none => { result := .error .internal, after := advertiser }
      | some nonce =>
          let payloadBytes := serializePayload advertiser.payload
          match hmacSha256 platform (discoveryKey advertiser.psk) (nonce.bytes ++ payloadBytes) with
          | .error code => { result := .error code, after := advertiser }
          | .ok mac =>
              if mac.length ≠ 32 then { result := .error .internal, after := advertiser }
              else
                let frame := frameOf nonce.bytes mac payloadBytes
                let sent := sock.send platform inetPton frame
                  ⟨advertiser.cfg.bindAddress, advertiser.cfg.broadcastPort, true⟩ now accepted
                { result := sent.result
                  after := { advertiser with sock := some sent.after }
                  frame := some frame }

end Advertiser

end Udaf
