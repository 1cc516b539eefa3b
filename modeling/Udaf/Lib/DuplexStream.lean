import Mathlib.Data.List.Infix
import Mathlib.Logic.Function.Basic
import Udaf.Lib.Run

/-!
A pair of ordered streams between two ends. What an end takes comes next in what the other
end has put in; nothing is lost, repeated or reordered on the way.
-/

namespace DuplexStream

open Runs

variable {α : Type}

structure Wire (α : Type) where
  sent : Bool → List α
  taken : Bool → List α

def Wire.empty : Wire α := ⟨fun _ => [], fun _ => []⟩

def Wire.put (wire : Wire α) (who : Bool) (data : List α) : Wire α :=
  { wire with sent := Function.update wire.sent who (wire.sent who ++ data) }

def Wire.take (wire : Wire α) (who : Bool) (data : List α) : Wire α :=
  { wire with taken := Function.update wire.taken who (wire.taken who ++ data) }

def Wire.Offers (wire : Wire α) (who : Bool) (data : List α) : Prop :=
  wire.taken who ++ data <+: wire.sent (!who)

instance [DecidableEq α] (wire : Wire α) (who : Bool) (data : List α) :
    Decidable (wire.Offers who data) :=
  inferInstanceAs (Decidable (_ <+: _))

structure Exchange (α : Type) where
  who : Bool
  out : List α
  into : List α

inductive Step : Wire α → Exchange α → Wire α → Prop where
  | exchange {wire : Wire α} {who : Bool} {out into : List α}
      (offered : (wire.put who out).Offers who into) :
      Step wire ⟨who, out, into⟩ ((wire.put who out).take who into)

theorem step_sent {wire next : Wire α} {exchange : Exchange α} (step : Step wire exchange next)
    (who : Bool) :
    next.sent who = wire.sent who ++ if exchange.who = who then exchange.out else [] := by
  cases step with
  | exchange offered =>
      rename_i end_ out into
      by_cases mine : end_ = who
      · subst mine
        simp [Wire.put, Wire.take]
      · simp [Wire.put, Wire.take, mine, Function.update_of_ne (Ne.symm mine)]

end DuplexStream
