import Udaf.Lib.Hex
import Udaf.Lib.Table

/-!
The tracer of `observability/observability.cpp`: a span's ids travel as the `traceparent` of a
map from keys to values, which `extract` cuts at fixed places.
-/

namespace Udaf

open ByteString Hex

structure Span where
  name : Bytes
  traceId : Bytes := []
  spanId : Bytes := []
  startNs : Int64 := 0
  endNs : Int64 := 0
  deriving DecidableEq

namespace Tracer

def traceparent : Bytes := ascii "traceparent"

def begin (name : Bytes) (buf : Block UInt8 24) (now : Int64) : Span :=
  let hex := hexOf ((buf.bytes.drop 8).take 8)
  { name := name
    startNs := now
    traceId := hexOf (buf.bytes.take 8) ++ hex.take 16
    spanId := hexOf ((buf.bytes.drop 16).take 8) }

def inject (span : Span) (kv : Table Bytes Bytes) : Table Bytes Bytes :=
  kv.insert traceparent (ascii "00-" ++ span.traceId ++ ascii "-" ++ span.spanId ++ ascii "-01")

def extract (name : Bytes) (kv : Table Bytes Bytes) (now : Int64) : Span :=
  match kv.lookup traceparent with
  | none => { name := name, startNs := now }
  | some value =>
      if 55 ≤ value.length then
        { name := name
          startNs := now
          traceId := (value.drop 3).take 32
          spanId := (value.drop 36).take 16 }
      else { name := name, startNs := now }

/-- The map a span is injected into, and the name and the time of its extraction. -/
structure Hop where
  kv : Table Bytes Bytes
  name : Bytes
  now : Int64

def hop (span : Span) (hop : Hop) : Span := extract hop.name (inject span hop.kv) hop.now

def travel (span : Span) (hops : List Hop) : Span := hops.foldl hop span

inductive Produced : Span → Prop where
  | begin (name : Bytes) (buf : Block UInt8 24) (now : Int64) : Produced (begin name buf now)
  | extract (name : Bytes) (kv : Table Bytes Bytes) (now : Int64) : Produced (extract name kv now)

def Framed (span : Span) : Prop :=
  span.traceId.length = 32 ∧ span.spanId.length = 16 ∨ span.traceId = [] ∧ span.spanId = []

def HexText (text : Bytes) (size : Nat) : Prop :=
  text.length = size ∧ ∀ char ∈ text, (hexv char).isSome = true

/-- `00-<32 hex digits>-<16 hex digits>-<2 hex digits>` -/
def TraceParent (value traceId spanId : Bytes) : Prop :=
  HexText traceId 32 ∧ HexText spanId 16 ∧ ∃ flags, HexText flags 2 ∧
    value = ascii "00-" ++ traceId ++ ascii "-" ++ spanId ++ ascii "-" ++ flags

structure Extracted (kv : Table Bytes Bytes) (span : Span) : Prop where
  accepted : span.traceId ≠ [] ↔ ∃ value, kv.lookup traceparent = some value ∧ 55 ≤ value.length
  fields : ∀ value, kv.lookup traceparent = some value → 55 ≤ value.length →
    span.traceId = (value.drop 3).take 32 ∧ span.spanId = (value.drop 36).take 16
  formed : ∀ value traceId spanId, kv.lookup traceparent = some value →
    TraceParent value traceId spanId → span.traceId = traceId ∧ span.spanId = spanId
  empty : span.traceId = [] → span.spanId = []

theorem fields_cut {front traceId dash spanId : Bytes} (three : front.length = 3)
    (trace : traceId.length = 32) (one : dash.length = 1) (span : spanId.length = 16) (back : Bytes) :
    ((front ++ traceId ++ dash ++ spanId ++ back).drop 3).take 32 = traceId ∧
      ((front ++ traceId ++ dash ++ spanId ++ back).drop 36).take 16 = spanId := by
  constructor
  · rw [List.append_assoc, List.append_assoc, List.append_assoc, List.drop_left' three,
      List.take_left' trace]
  · have before : (front ++ traceId ++ dash).length = 36 := by
      simp only [List.length_append, three, trace, one]
    rw [List.append_assoc, List.drop_left' before, List.take_left' span]

def Carries (kv : Table Bytes Bytes) : Prop :=
  ∃ value, kv.lookup traceparent = some value ∧ 55 ≤ value.length

theorem extract_short {kv : Table Bytes Bytes} (short : ¬ Carries kv) (name : Bytes) (now : Int64) :
    extract name kv now = { name := name, startNs := now } := by
  rw [extract]
  cases found : kv.lookup traceparent with
  | none => rfl
  | some value => exact if_neg fun long => short ⟨value, found, long⟩

theorem extract_long (name : Bytes) {kv : Table Bytes Bytes} (now : Int64) {value : Bytes}
    (found : kv.lookup traceparent = some value) (long : 55 ≤ value.length) :
    (extract name kv now).traceId = (value.drop 3).take 32 ∧
      (extract name kv now).spanId = (value.drop 36).take 16 := by
  rw [extract, found]
  simp only [if_pos long, and_self]

theorem extract_fields (name : Bytes) {kv : Table Bytes Bytes} (now : Int64)
    {traceId spanId back : Bytes} (trace : traceId.length = 32) (span : spanId.length = 16)
    (room : 3 ≤ back.length) (found : kv.lookup traceparent =
      some (ascii "00-" ++ traceId ++ ascii "-" ++ spanId ++ back)) :
    (extract name kv now).traceId = traceId ∧ (extract name kv now).spanId = spanId := by
  have three : (ascii "00-").length = 3 := rfl
  have one : (ascii "-").length = 1 := rfl
  have long : 55 ≤ (ascii "00-" ++ traceId ++ ascii "-" ++ spanId ++ back).length := by
    simp only [List.length_append, three, one, trace, span]
    omega
  obtain ⟨cutTrace, cutSpan⟩ := extract_long name now found long
  obtain ⟨atTrace, atSpan⟩ := fields_cut three trace one span back
  exact ⟨cutTrace.trans atTrace, cutSpan.trans atSpan⟩

theorem extract_framed (name : Bytes) (kv : Table Bytes Bytes) (now : Int64) :
    Framed (extract name kv now) := by
  by_cases carries : Carries kv
  · obtain ⟨value, found, long⟩ := carries
    obtain ⟨trace, span⟩ := extract_long name now found long
    left
    rw [trace, span, List.length_take, List.length_drop, List.length_take, List.length_drop]
    omega
  · right
    rw [extract_short carries]
    exact ⟨rfl, rfl⟩

theorem begin_framed (name : Bytes) (buf : Block UInt8 24) (now : Int64) :
    Framed (begin name buf now) := by
  have size := buf.length_eq
  left
  simp only [begin, List.length_append, hexOf_length, List.length_take, List.length_drop, size]
  omega

theorem Produced.framed {span : Span} (produced : Produced span) : Framed span := by
  cases produced with
  | begin name buf now => exact begin_framed name buf now
  | extract name kv now => exact extract_framed name kv now

theorem lookup_inject (span : Span) (kv : Table Bytes Bytes) :
    (inject span kv).lookup traceparent =
      some (ascii "00-" ++ span.traceId ++ ascii "-" ++ span.spanId ++ ascii "-01") :=
  AList.lookup_insert kv

theorem hop_keeps {span : Span} (framed : Framed span) (next : Hop) :
    (hop span next).traceId = span.traceId ∧ (hop span next).spanId = span.spanId := by
  have found := lookup_inject span next.kv
  rcases framed with ⟨trace, id⟩ | ⟨trace, id⟩
  · exact extract_fields next.name next.now trace id (by decide) found
  · have short : ¬ Carries (inject span next.kv) := by
      rintro ⟨value, other, long⟩
      cases found.symm.trans other
      rw [trace, id] at long
      exact absurd long (by decide)
    rw [hop, extract_short short, trace, id]
    exact ⟨rfl, rfl⟩

theorem travel_keeps {span : Span} (framed : Framed span) (hops : List Hop) :
    (travel span hops).traceId = span.traceId ∧ (travel span hops).spanId = span.spanId := by
  induction hops generalizing span with
  | nil => exact ⟨rfl, rfl⟩
  | cons next hops ih =>
      obtain ⟨trace, id⟩ := hop_keeps framed next
      obtain ⟨travelTrace, travelId⟩ := ih (extract_framed next.name (inject span next.kv) next.now)
      exact ⟨travelTrace.trans trace, travelId.trans id⟩

theorem extract_extracted (name : Bytes) (kv : Table Bytes Bytes) (now : Int64) :
    Extracted kv (extract name kv now) := by
  refine ⟨?_, fun value found long => extract_long name now found long, ?_, ?_⟩
  · constructor
    · intro named
      by_contra short
      exact named (congrArg Span.traceId (extract_short short name now))
    · rintro ⟨value, found, long⟩ empty
      rw [(extract_long name now found long).1] at empty
      have size := congrArg List.length empty
      rw [List.length_take, List.length_drop, List.length_nil] at size
      omega
  · rintro value traceId spanId found ⟨trace, span, flags, two, rfl⟩
    rw [List.append_assoc _ (ascii "-") flags] at found
    refine extract_fields name now trace.1 span.1 ?_ found
    rw [List.length_append, two.1]
    decide
  · intro unnamed
    rcases extract_framed name kv now with ⟨trace, _⟩ | ⟨_, span⟩
    · rw [unnamed] at trace
      cases trace
    · exact span

/-- Over any number of hops both ids stay; from any map `extract` takes what stands where they should. -/
theorem context_propagates :
    (∀ span, Produced span → ∀ hops, (travel span hops).traceId = span.traceId ∧
      (travel span hops).spanId = span.spanId) ∧
    ∀ name kv now, Extracted kv (extract name kv now) :=
  ⟨fun _ produced hops => travel_keeps produced.framed hops, extract_extracted⟩

def garbage : Bytes := ascii "garbage_string_with_no_dashes_at_all_more_than_55_bytes"

theorem garbage_extracted :
    (extract (ascii "op") ((∅ : Table Bytes Bytes).insert traceparent garbage) 0).traceId ≠ [] ∧
      ¬ ∃ traceId spanId, TraceParent garbage traceId spanId := by
  constructor
  · rw [(extract_long _ _ (AList.lookup_insert ∅) (by decide)).1]
    decide
  · rintro ⟨traceId, spanId, _, _, flags, _, shape⟩
    have first : garbage.head? = some 48 := congrArg List.head? shape
    exact absurd first (by decide)

end Tracer

end Udaf
