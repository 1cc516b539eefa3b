import Udaf.AbilityA.Advertiser
import Udaf.AbilityA.ServiceRegistry
import Udaf.Lib.Hex

/-!
`ability_a/discovery/scanner.cpp`. A frame is looked at in this order: its length, magic
and version, its nonce against the table of nonces, its authentication code, its
payload. The subscribers that the registry notifies are left out.
-/

namespace Udaf

open ByteString

structure ScannerConfig where
  bindPort : UInt16 := 19999
  replayWindow : Int64 := 300

/-- The window is at most 292 years, which 64 bits of nanoseconds hold. -/
def ScannerConfig.Fits (cfg : ScannerConfig) : Prop :=
  -9223372036 ≤ cfg.replayWindow.toInt ∧ cfg.replayWindow.toInt ≤ 9223372036

structure Scanner (κ : Type) where
  registry : Option (ServiceRegistry κ) := none
  cfg : ScannerConfig := {}
  psk : Bytes := []
  sock : Option (UdpSocket UInt8) := none
  seenNonces : Table Bytes Int := ∅

def wordAt (frame : Bytes) (place : Nat) : UInt32 :=
  ((frame.getD place 0).toUInt32 <<< 24) ||| ((frame.getD (place + 1) 0).toUInt32 <<< 16) |||
    ((frame.getD (place + 2) 0).toUInt32 <<< 8) ||| (frame.getD (place + 3) 0).toUInt32

def checkHeader (frame : Bytes) : Except ErrorCode Unit :=
  if frame.length < discoveryHeaderSize then .error .serializeDecodeFailed
  else if wordAt frame 0 ≠ discoveryMagic then .error .serializeVersionMismatch
  else if wordAt frame 4 ≠ discoveryVersion then .error .serializeVersionMismatch
  else .ok ()

def frameNonce (frame : Bytes) : Bytes := (frame.drop 8).take 8

def frameMac (frame : Bytes) : Bytes := (frame.drop 16).take 32

def framePayload (frame : Bytes) : Bytes := frame.drop discoveryHeaderSize

def advertisedEntry (payload : AdvertisementPayload) : RegistryEntry where
  nodeId := payload.nodeId
  hostname := payload.hostname
  bindAddress := payload.bindAddress
  bindPort := payload.bindPort
  services := payload.services.map fun s => { serviceName := s }

namespace Scanner

variable {κ : Type}

def create (openSocket : UInt16 → Option (UdpSocket UInt8)) (registry : Option (ServiceRegistry κ))
    (cfg : ScannerConfig) (psk : Bytes) : Option (Scanner κ) :=
  match openSocket cfg.bindPort with
  | none => none
  | some sock =>
      some { registry := registry, cfg := cfg, psk := keptPsk psk, sock := some sock }

/-- The seconds as the comparison with the clock converts them: 64 bits of nanoseconds. -/
def window (scanner : Scanner κ) : Int := (scanner.cfg.replayWindow * 1000000000).toInt

theorem window_fits {scanner : Scanner κ} (fits : scanner.cfg.Fits) :
    scanner.window = scanner.cfg.replayWindow.toInt * UdpSocket.second := by
  obtain ⟨low, high⟩ := fits
  have factor : (1000000000 : Int64).toInt = 1000000000 := by decide
  rw [window, UdpSocket.second, Int64.toInt_mul, factor]
  exact Int.bmod_eq_of_le (by omega) (by omega)

def recent (scanner : Scanner κ) (now : Int) : Table Bytes Int :=
  Table.keep scanner.seenNonces fun _ stamp => !decide (now - stamp > scanner.window)

def authenticate (platform : Platform UInt8) (scanner : Scanner κ) (frame : Bytes) :
    Except ErrorCode Bool × Scanner κ :=
  match hmacSha256Verify platform (discoveryKey scanner.psk)
      (frameNonce frame ++ framePayload frame) (frameMac frame) with
  | .error _ => (.ok false, scanner)
  | .ok () =>
      let payload := parsePayload (framePayload frame)
      if payload.nodeId.isEmpty then (.error .serializeDecodeFailed, scanner)
      else (.ok true, { scanner with
        registry := scanner.registry.map fun registry => (registry.registerNode (advertisedEntry payload)).2 })

def handleFrame (platform : Platform UInt8) (scanner : Scanner κ) (frame : Bytes) (now : Int) :
    Except ErrorCode Bool × Scanner κ :=
  match checkHeader frame with
  | .error code => (.error code, scanner)
  | .ok () =>
      let nonce := Hex.hexOf (frameNonce frame)
      let recent := scanner.recent now
      if (recent.lookup nonce).isSome then (.ok false, { scanner with seenNonces := recent })
      else authenticate platform { scanner with seenNonces := recent.insert nonce now } frame

def pollOnce (platform : Platform UInt8) (scanner : Scanner κ) (selected : Select)
    (received : RecvFrom UInt8) (now : Int) : Except ErrorCode Bool × Scanner κ :=
  match scanner.sock with
  | none => (.error .netSocketClosed, scanner)
  | some sock =>
      match sock.recv platform 100 selected received with
      | .error code => (.error code, scanner)
      | .ok frame => scanner.handleFrame platform frame now

end Scanner

end Udaf
