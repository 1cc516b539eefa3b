import Udaf.AbilityA.Discovery

/-!
Payloads that no advertisement serialises to, in frames that are otherwise right. The
parser hands out what it could read, and the scanner looks at the node id alone.
-/

namespace Udaf

open ByteString

def SerializesAdvertisement (bytes : Bytes) : Prop :=
  ∃ payload : AdvertisementPayload, payload.Fits ∧ bytes = serializePayload payload

/-- The string at the beginning is cut, or empty. -/
def LacksNodeId (bytes : Bytes) : Prop := ∀ nodeId rest, readStr bytes = some (nodeId, rest) → nodeId = []

theorem parsePayload_front {payload : AdvertisementPayload} (fits : payload.Fits) (rest : Bytes) :
    parsePayload (serializePayload payload ++ rest) = payload := by
  have count : (UInt16.ofNat payload.services.length).toNat = payload.services.length := by
    rw [UInt16.toNat_ofNat', Nat.mod_eq_of_lt fits.count]
  have services := readServices_writeStr fits.services rest
  simp only [serializePayload, List.append_assoc, parsePayload, readStr_writeStr fits.nodeId,
    readStr_writeStr fits.hostname, readStr_writeStr fits.bindAddress, takeU16_writeU16, count,
    services]

theorem serializePayload_front {payload other : AdvertisementPayload} (fits : payload.Fits)
    (fits' : other.Fits) (front : serializePayload payload <+: serializePayload other) :
    payload = other := by
  obtain ⟨rest, whole⟩ := front
  rw [← parsePayload_front fits rest, whole, parsePayload_serializePayload fits']

theorem truncated_malformed {payload : AdvertisementPayload} (fits : payload.Fits) {bytes : Bytes}
    (front : bytes <+: serializePayload payload) (cut : bytes ≠ serializePayload payload) :
    ¬ SerializesAdvertisement bytes := by
  rintro ⟨other, fits', rfl⟩
  exact cut (congrArg serializePayload (serializePayload_front fits' fits front))

theorem overcounted_malformed {payload : AdvertisementPayload} (fits : payload.Fits) {count : UInt16}
    (more : payload.services.length < count.toNat) :
    ¬ SerializesAdvertisement (writeStr payload.nodeId ++ writeStr payload.hostname ++
      writeStr payload.bindAddress ++ writeU16 payload.bindPort ++ writeU16 count ++
      payload.services.flatMap writeStr) := by
  let missing := List.replicate (count.toNat - payload.services.length) ([] : Bytes)
  let whole := { payload with services := payload.services ++ missing }
  have counted : whole.services.length = count.toNat := by
    rw [List.length_append, List.length_replicate]
    omega
  have fitsWhole : whole.Fits := by
    refine ⟨fits.nodeId, fits.hostname, fits.bindAddress, counted ▸ count.toNat_lt, ?_⟩
    intro s member
    rcases List.mem_append.mp member with present | absent
    · exact fits.services s present
    · rw [List.eq_of_mem_replicate absent]
      decide
  have serialized : serializePayload whole = writeStr payload.nodeId ++ writeStr payload.hostname ++
      writeStr payload.bindAddress ++ writeU16 payload.bindPort ++ writeU16 count ++
      payload.services.flatMap writeStr ++ missing.flatMap writeStr := by
    rw [serializePayload, counted, UInt16.ofNat_toNat, List.flatMap_append, ← List.append_assoc]
  refine truncated_malformed fitsWhole ⟨_, serialized.symm⟩ fun same => ?_
  rw [serialized] at same
  have nothing := List.flatMap_eq_nil_iff.mp (List.append_right_eq_self.mp same.symm)
  have listed : [] ∈ missing := List.mem_replicate.mpr ⟨by omega, rfl⟩
  exact absurd (nothing [] listed) (by decide)

theorem trailing_malformed {payload : AdvertisementPayload} (fits : payload.Fits) {rest : Bytes}
    (more : rest ≠ []) : ¬ SerializesAdvertisement (serializePayload payload ++ rest) := by
  rintro ⟨other, fits', whole⟩
  have same := serializePayload_front fits fits' ⟨rest, whole⟩
  rw [← same] at whole
  exact more (List.append_right_eq_self.mp whole)

theorem parsePayload_nodeId {bytes nodeId rest : Bytes} (read : readStr bytes = some (nodeId, rest)) :
    (parsePayload bytes).nodeId = nodeId := by
  rw [parsePayload, read]
  simp only
  split
  · rfl
  · split
    · rfl
    · split
      · rfl
      · split
        · rfl
        · rfl

theorem parsePayload_nameless {bytes : Bytes} :
    (parsePayload bytes).nodeId = [] ↔ LacksNodeId bytes := by
  constructor
  · intro nameless nodeId rest read
    rw [← parsePayload_nodeId read, nameless]
  · intro lacks
    match read : readStr bytes with
    | none => rw [parsePayload, read]
    | some (nodeId, rest) =>
        rw [parsePayload_nodeId read, lacks nodeId rest read]

namespace Scanner

variable {κ : Type} {platform : Platform UInt8} {scanner : Scanner κ} {frame : Bytes} {now : Int}

def Stores (scanner after : Scanner κ) (payload : AdvertisementPayload) : Prop :=
  ∀ registry, scanner.registry = some registry → ∃ registered, after.registry = some registered ∧
    ∀ nodeId, registered.getNode nodeId =
      if nodeId = payload.nodeId then .ok (advertisedEntry payload) else registry.getNode nodeId

/-- A frame is answered by `Ok(true)` for a stored advertisement alone, and what is no
advertisement is refused and leaves the registry alone. -/
structure HandledExactly (platform : Platform UInt8) (scanner : Scanner κ) (frame : Bytes)
    (now : Int) : Prop where
  accepted : (scanner.handleFrame platform frame now).1 = .ok true →
    ∃ payload : AdvertisementPayload, payload.Fits ∧
      framePayload frame = serializePayload payload ∧
      scanner.Stores (scanner.handleFrame platform frame now).2 payload
  refused : ¬ SerializesAdvertisement (framePayload frame) →
    (∃ code, (scanner.handleFrame platform frame now).1 = .error code) ∧
      (scanner.handleFrame platform frame now).2.registry = scanner.registry

theorem handleFrame_nameless (digests : platform.Digests) (headed : checkHeader frame = .ok ())
    (fresh : (scanner.recent now).lookup (Hex.hexOf (frameNonce frame)) = none)
    (authentic : Authentic platform scanner.psk frame)
    (nameless : (parsePayload (framePayload frame)).nodeId = []) :
    scanner.handleFrame platform frame now =
      (.error .serializeDecodeFailed, scanner.noted frame now) := by
  have empty : (parsePayload (framePayload frame)).nodeId.isEmpty = true := by rw [nameless]; rfl
  rw [handleFrame_new headed fresh, authenticate_eq digests _ (checkHeader_ok headed), if_pos empty]
  exact if_pos authentic

theorem registered_stores {payload : AdvertisementPayload}
    (parsed : parsePayload (framePayload frame) = payload) (named : payload.nodeId ≠ []) :
    scanner.Stores ((scanner.noted frame now).registered frame) payload := by
  intro registry registers
  refine ⟨(registry.registerNode (advertisedEntry payload)).2, ?_, ?_⟩
  · rw [registered, noted, parsed, registers]
    rfl
  · exact getNode_registerNode named

end Scanner

/-- An authentic frame is handled as its payload deserves exactly when the parser took it to the end or
stopped before the node id. -/
theorem handled_exactly_iff {κ : Type} {platform : Platform UInt8} (digests : platform.Digests)
    (scanner : Scanner κ) {frame : Bytes} {now : Int} (headed : checkHeader frame = .ok ())
    (fresh : (scanner.recent now).lookup (Hex.hexOf (frameNonce frame)) = none)
    (authentic : Authentic platform scanner.psk frame) :
    scanner.HandledExactly platform frame now ↔
      SerializesAdvertisement (framePayload frame) ∨ LacksNodeId (framePayload frame) := by
  by_cases named : (parsePayload (framePayload frame)).nodeId = []
  · have handled := Scanner.handleFrame_nameless digests headed fresh authentic named
    refine iff_of_true ⟨?_, ?_⟩ (.inr (parsePayload_nameless.mp named))
    · intro answered
      rw [handled] at answered
      cases answered
    · intro malformed
      rw [handled]
      exact ⟨⟨_, rfl⟩, rfl⟩
  · have handled := Scanner.handleFrame_accepts digests headed fresh authentic named
    constructor
    · intro exactly
      obtain ⟨payload, fits, carried, -⟩ := exactly.accepted (by rw [handled])
      exact .inl ⟨payload, fits, carried⟩
    · rintro (⟨payload, fits, carried⟩ | lacks)
      · have parsed : parsePayload (framePayload frame) = payload := by
          rw [carried, parsePayload_serializePayload fits]
        refine ⟨fun _ => ⟨payload, fits, carried, ?_⟩, fun malformed => ?_⟩
        · rw [handled]
          exact Scanner.registered_stores parsed (by rwa [parsed] at named)
        · exact absurd ⟨payload, fits, carried⟩ malformed
      · exact absurd (parsePayload_nameless.mpr lacks) named

theorem handled_exactly_iff_sample :
    sampleScanner.HandledExactly discoveryPlatform (sampleFrame sampleCode) 7 := by
  have carried : framePayload (sampleFrame sampleCode) = serializePayload samplePayload :=
    framePayload_frameOf rfl rfl
  have fits : samplePayload.Fits := ⟨by decide, by decide, by decide, by decide, by decide⟩
  have authentic : Authentic discoveryPlatform sampleScanner.psk (sampleFrame sampleCode) := by
    decide +kernel
  exact (handled_exactly_iff discoveryPlatform_digests sampleScanner (checkHeader_frameOf rfl rfl) rfl
    authentic).mpr (.inl ⟨samplePayload, fits, carried⟩)

section Truncated

def truncatedPayload : Bytes := writeStr (ascii "n1")

def truncatedCode : Bytes :=
  leBytes 32 67425171790479414586626794220656169659006163050962793713488690242421610960445

def truncatedPlatform : Platform UInt8 :=
  { samplePlatform with
    macCompute := fun key message =>
      some (if key = List.replicate 32 0 ∧ message = (sampleCount 1 8).bytes ++ truncatedPayload
        then truncatedCode else List.replicate 32 0) }

theorem truncatedPlatform_digests : truncatedPlatform.Digests :=
  digests_of_one (leBytes_length 32 _) rfl

def truncatedFrame : Bytes :=
  Advertiser.frameOf (sampleCount 1 8).bytes truncatedCode truncatedPayload

theorem truncated_frame_accepted :
    checkHeader truncatedFrame = .ok () ∧
      (sampleScanner.recent 7).lookup (Hex.hexOf (frameNonce truncatedFrame)) = none ∧
      Authentic truncatedPlatform sampleScanner.psk truncatedFrame ∧
      (sampleScanner.handleFrame truncatedPlatform truncatedFrame 7).1 = .ok true ∧
      ¬ sampleScanner.HandledExactly truncatedPlatform truncatedFrame 7 := by
  have headed : checkHeader truncatedFrame = .ok () := checkHeader_frameOf rfl rfl
  have carried : framePayload truncatedFrame = truncatedPayload := framePayload_frameOf rfl rfl
  have authentic : Authentic truncatedPlatform sampleScanner.psk truncatedFrame := by decide +kernel
  have named : (parsePayload (framePayload truncatedFrame)).nodeId ≠ [] := by
    rw [carried]
    decide
  have handled := @Scanner.handleFrame_accepts Nat truncatedPlatform sampleScanner truncatedFrame 7
    truncatedPlatform_digests headed rfl authentic named
  refine ⟨headed, rfl, authentic, by rw [handled], fun exactly => ?_⟩
  have malformed : ¬ SerializesAdvertisement (framePayload truncatedFrame) := by
    rw [carried]
    exact @truncated_malformed { nodeId := ascii "n1" }
      ⟨by decide, by decide, by decide, by decide, by decide⟩ truncatedPayload
      ⟨[0, 0, 0, 0, 0, 0, 0, 0], by decide⟩ (by decide)
  obtain ⟨⟨code, refused⟩, -⟩ := exactly.refused malformed
  rw [handled] at refused
  cases refused

end Truncated

end Udaf
