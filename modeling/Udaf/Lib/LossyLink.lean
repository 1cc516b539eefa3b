import Mathlib.Data.List.Sublists
import Udaf.Lib.Run

/-!
A link that keeps the order of what is put into it, repeats nothing and makes up nothing, but
may lose any item on the way.
-/

namespace LossyLink

open Runs

variable {α : Type}

inductive Event (α : Type) where
  | put (item : α)
  | got (item : α)
  | lost

inductive Step : List α → Event α → List α → Prop where
  | put (queue : List α) (item : α) : Step queue (.put item) (queue ++ [item])
  | got (item : α) (queue : List α) : Step (item :: queue) (.got item) queue
  | lost (front : List α) (item : α) (back : List α) : Step (front ++ item :: back) .lost (front ++ back)

def puts (events : List (Event α)) : List α :=
  events.filterMap fun event =>
    match event with
    | .put item => some item
    | _ => none

def gots (events : List (Event α)) : List α :=
  events.filterMap fun event =>
    match event with
    | .got item => some item
    | _ => none

theorem run_sublist {queue final : List α} {events : List (Event α)}
    (run : Run Step queue events final) : (gots events ++ final).Sublist (queue ++ puts events) := by
  induction run with
  | nil => simp [puts, gots]
  | cons step _ ih =>
      cases step with
      | put queue item => simpa [puts, gots] using ih
      | got item queue => simpa [puts, gots] using List.Sublist.cons_cons item ih
      | lost front item back =>
          have gap : (front ++ back).Sublist (front ++ item :: back) :=
            List.Sublist.append_left (List.sublist_cons_self item back) front
          exact ih.trans (List.Sublist.append_right gap _)

end LossyLink
