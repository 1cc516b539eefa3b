import Udaf.Lib.Bytes

/-!
Cells that are addressed modulo their number. Items lie from a position on when each
lies in the cell of its own position; a copy that wraps once at the end of the cells
puts them there behind what lies there already, and brings them back.
-/

namespace Ring

open ByteString

variable {α : Type} {size : Nat}

def store (cells : Block α size) (index : Nat) (items : List α) : Option (Block α size) :=
  if inside : index + items.length ≤ size then
    some ⟨cells.bytes.take index ++ (items ++ cells.bytes.drop (index + items.length)), by
      rw [List.length_append, List.length_append, List.length_take, List.length_drop,
        cells.length_eq]
      omega⟩
  else none

def load (cells : Block α size) (index count : Nat) : Option (List α) :=
  if index + count ≤ size then some ((cells.bytes.drop index).take count) else none

def storeAround (cells : Block α size) (index : Nat) (items : List α) : Option (Block α size) :=
  match store cells index (items.take (min items.length (size - index))) with
  | none => none
  | some after =>
      if min items.length (size - index) < items.length then
        store after 0 (items.drop (min items.length (size - index)))
      else some after

def loadAround (cells : Block α size) (index count : Nat) : Option (List α) :=
  match load cells index (min count (size - index)) with
  | none => none
  | some front =>
      if min count (size - index) < count then
        match load cells 0 (count - min count (size - index)) with
        | none => none
        | some back => some (front ++ back)
      else some front

theorem store_some {cells : Block α size} {index : Nat} {items : List α}
    (inside : index + items.length ≤ size) :
    ∃ after, store cells index items = some after ∧ ∀ place : Nat,
      after.bytes[place]? = if index ≤ place ∧ place < index + items.length then items[place - index]?
        else cells.bytes[place]? := by
  refine ⟨_, dif_pos inside, ?_⟩
  intro place
  have front : (cells.bytes.take index).length = index := by
    rw [List.length_take, cells.length_eq]
    omega
  by_cases before : place < index
  · rw [if_neg (by omega), List.getElem?_append_left (by omega), List.getElem?_take_of_lt before]
  · rw [List.getElem?_append_right (by omega), front]
    by_cases within : place < index + items.length
    · rw [if_pos ⟨by omega, within⟩, List.getElem?_append_left (by omega)]
    · rw [if_neg (by omega), List.getElem?_append_right (by omega), List.getElem?_drop]
      congr 1
      omega

theorem load_some {cells : Block α size} {index count : Nat} (inside : index + count ≤ size) :
    ∃ items, load cells index count = some items ∧ items.length = count ∧
      ∀ place, place < count → items[place]? = cells.bytes[index + place]? := by
  refine ⟨_, if_pos inside, ?_, ?_⟩
  · rw [List.length_take, List.length_drop, cells.length_eq]
    omega
  · intro place bound
    rw [List.getElem?_take_of_lt bound, List.getElem?_drop]

/-- How far `place` lies behind `index`, going around. -/
def offset (size index place : Nat) : Nat :=
  if index ≤ place then place - index else place + size - index

theorem storeAround_some {cells : Block α size} {index : Nat} {items : List α}
    (inside : index < size) (fits : items.length ≤ size) :
    ∃ after, storeAround cells index items = some after ∧ ∀ place, place < size →
      after.bytes[place]? = if offset size index place < items.length then
        items[offset size index place]? else cells.bytes[place]? := by
  unfold storeAround
  generalize firstEq : min items.length (size - index) = first
  have front : (items.take first).length = first := by
    rw [List.length_take]
    omega
  obtain ⟨middle, stored, cell⟩ := @store_some α size cells index (items.take first) (by omega)
  rw [stored]
  simp only
  by_cases wraps : first < items.length
  · have back : (items.drop first).length = items.length - first := List.length_drop
    obtain ⟨after, rest, cell'⟩ := @store_some α size middle 0 (items.drop first) (by omega)
    rw [if_pos wraps]
    refine ⟨after, rest, ?_⟩
    intro place bound
    rw [cell', cell, offset, front, back, List.getElem?_drop]
    by_cases behind : index ≤ place
    · rw [if_neg (by omega), if_pos (by omega), if_pos behind, if_pos (by omega),
        List.getElem?_take_of_lt (by omega)]
    · have ahead : ¬ (index ≤ place ∧ place < index + first) := by omega
      rw [if_neg ahead, if_neg behind]
      by_cases written : place < items.length - first
      · rw [if_pos (by omega), if_pos (by omega)]
        congr 1
        omega
      · rw [if_neg (by omega), if_neg (by omega)]
  · rw [if_neg wraps]
    refine ⟨middle, rfl, ?_⟩
    intro place bound
    rw [cell, offset, front]
    by_cases behind : index ≤ place
    · rw [if_pos behind]
      by_cases written : place - index < items.length
      · rw [if_pos (by omega), if_pos written, List.getElem?_take_of_lt (by omega)]
      · rw [if_neg (by omega), if_neg written]
    · have ahead : ¬ (index ≤ place ∧ place < index + first) := by omega
      rw [if_neg ahead, if_neg behind, if_neg (by omega)]

theorem loadAround_some {cells : Block α size} {index count : Nat} (inside : index < size)
    (fits : count ≤ size) :
    ∃ items, loadAround cells index count = some items ∧ items.length = count ∧
      ∀ place, place < count → items[place]? =
        cells.bytes[if index + place < size then index + place else index + place - size]? := by
  unfold loadAround
  generalize firstEq : min count (size - index) = first
  obtain ⟨front, loaded, length, cell⟩ := @load_some α size cells index first (by omega)
  rw [loaded]
  simp only
  by_cases wraps : first < count
  · obtain ⟨back, rest, length', cell'⟩ := @load_some α size cells 0 (count - first) (by omega)
    rw [if_pos wraps, rest]
    refine ⟨front ++ back, rfl, ?_, ?_⟩
    · rw [List.length_append]
      omega
    · intro place bound
      by_cases here : place < first
      · rw [List.getElem?_append_left (by omega), cell place here, if_pos (by omega)]
      · rw [List.getElem?_append_right (by omega), cell' _ (by omega), if_neg (by omega)]
        congr 1
        omega
  · rw [if_neg wraps]
    refine ⟨front, rfl, by omega, ?_⟩
    intro place bound
    rw [cell place (by omega), if_pos (by omega)]

theorem store_outside {cells : Block α size} {index : Nat} {items : List α}
    (outside : size < index + items.length) : store cells index items = none :=
  dif_neg (by omega)

theorem storeAround_inside {cells : Block α size} {index : Nat} {items : List α}
    (inside : index + items.length ≤ size) : storeAround cells index items = store cells index items := by
  have whole : min items.length (size - index) = items.length := by omega
  unfold storeAround
  rw [whole, List.take_length]
  cases store cells index items with
  | none => rfl
  | some after => exact if_neg (Nat.lt_irrefl _)

theorem storeAround_outside {cells : Block α size} {index : Nat} {items : List α}
    (outside : size < index + items.length) (inside : index < size) :
    storeAround cells index items = match store cells index (items.take (size - index)) with
      | none => none
      | some after => store after 0 (items.drop (size - index)) := by
  have first : min items.length (size - index) = size - index := by omega
  unfold storeAround
  rw [first]
  cases store cells index (items.take (size - index)) with
  | none => rfl
  | some after =>
      simp only
      rw [if_pos (by omega)]

theorem loadAround_inside {cells : Block α size} {index count : Nat}
    (inside : index + count ≤ size) : loadAround cells index count = load cells index count := by
  have whole : min count (size - index) = count := by omega
  unfold loadAround
  rw [whole]
  cases load cells index count with
  | none => rfl
  | some front => exact if_neg (Nat.lt_irrefl _)

theorem loadAround_outside {cells : Block α size} {index count : Nat}
    (outside : size < index + count) (inside : index < size) :
    loadAround cells index count = match load cells index (size - index) with
      | none => none
      | some front => match load cells 0 (count - (size - index)) with
        | none => none
        | some back => some (front ++ back) := by
  have first : min count (size - index) = size - index := by omega
  unfold loadAround
  rw [first]
  cases load cells index (size - index) with
  | none => rfl
  | some front =>
      simp only
      rw [if_pos (by omega)]

def put (cells : Block α size) (index : Nat) (item : α) : Block α size :=
  ⟨cells.bytes.set index item, by rw [List.length_set, cells.length_eq]⟩

/-- Item `i` lies in the cell of position `start + i`. -/
def Laid (cells : Block α size) (start : Nat) (items : List α) : Prop :=
  ∀ i, i < items.length → cells.bytes[(start + i) % size]? = items[i]?

theorem position {start count : Nat} (positive : 0 < size) (near : count ≤ size) :
    (start + count) % size =
      if start % size + count < size then start % size + count else start % size + count - size := by
  have low := Nat.mod_lt start positive
  rw [← Nat.mod_add_mod]
  by_cases inside : start % size + count < size
  · rw [if_pos inside, Nat.mod_eq_of_lt inside]
  · rw [if_neg inside, Nat.mod_eq_sub_mod (by omega), Nat.mod_eq_of_lt (by omega)]

theorem laid_nil (cells : Block α size) (start : Nat) : Laid cells start [] := by
  intro i bound
  cases bound

theorem Laid.turn {cells : Block α size} {start other : Nat} {items : List α}
    (laid : Laid cells start items) (same : start % size = other % size) :
    Laid cells other items := by
  intro i bound
  rw [← laid i bound, Nat.add_mod, ← same, ← Nat.add_mod]

theorem Laid.take {cells : Block α size} {start : Nat} {front back : List α}
    (laid : Laid cells start (front ++ back)) : Laid cells start front := by
  intro i bound
  rw [laid i (by rw [List.length_append]; omega), List.getElem?_append_left bound]

theorem Laid.drop {cells : Block α size} {start : Nat} {front back : List α}
    (laid : Laid cells start (front ++ back)) : Laid cells (start + front.length) back := by
  intro i bound
  have here := laid (front.length + i) (by rw [List.length_append]; omega)
  rw [List.getElem?_append_right (by omega), Nat.add_sub_cancel_left] at here
  rw [Nat.add_assoc, here]

theorem Laid.store {cells : Block α size} {start : Nat} {items more : List α}
    (positive : 0 < size) (laid : Laid cells start items)
    (fits : items.length + more.length ≤ size) :
    ∃ after, storeAround cells ((start + items.length) % size) more = some after ∧
      Laid after start (items ++ more) := by
  obtain ⟨after, stored, cell⟩ := @storeAround_some α size cells _ more
    (Nat.mod_lt (start + items.length) positive) (by omega)
  refine ⟨after, stored, ?_⟩
  intro i bound
  rw [List.length_append] at bound
  have low := Nat.mod_lt start positive
  have there := @position size start items.length positive (by omega)
  have here := @position size start i positive (by omega)
  rw [cell _ (Nat.mod_lt _ positive), offset, there, here]
  by_cases old : i < items.length
  · rw [List.getElem?_append_left old, ← laid i old, ← here]
    rw [if_neg]
    rw [here]
    split <;> split <;> split <;> omega
  · rw [List.getElem?_append_right (by omega)]
    rw [if_pos]
    · congr 1
      split <;> split <;> split <;> omega
    · split <;> split <;> split <;> omega

theorem Laid.load {cells : Block α size} {start : Nat} {front items back : List α}
    (positive : 0 < size) (laid : Laid cells start (front ++ (items ++ back)))
    (fits : front.length + items.length ≤ size) :
    loadAround cells ((start + front.length) % size) items.length = some items := by
  obtain ⟨loaded, load, length, cell⟩ := @loadAround_some α size cells _ items.length
    (Nat.mod_lt (start + front.length) positive) (by omega)
  rw [load]
  congr 1
  apply List.ext_getElem?
  intro i
  by_cases inside : i < items.length
  · have lies := laid.drop i (by rw [List.length_append]; omega)
    rw [List.getElem?_append_left inside] at lies
    rw [cell i inside, ← lies, @position size (start + front.length) i positive (by omega)]
  · rw [List.getElem?_eq_none (by omega), List.getElem?_eq_none (by omega)]

theorem place_apart {first second : Nat} (before : first < second) (near : second < first + size) :
    first % size ≠ second % size := by
  intro same
  have divides : size ∣ second - first :=
    Nat.dvd_of_mod_eq_zero (Nat.sub_mod_eq_zero_of_mod_eq same.symm)
  have none := Nat.eq_zero_of_dvd_of_lt divides (by omega)
  omega

theorem Laid.put {cells : Block α size} {start : Nat} {items : List α} (item : α)
    (laid : Laid cells start items) (fits : items.length < size) :
    Laid (Ring.put cells ((start + items.length) % size) item) start (items ++ [item]) := by
  intro i bound
  rw [List.length_append, List.length_singleton] at bound
  have inside := Nat.mod_lt (start + items.length) (show 0 < size by omega)
  rw [Ring.put, List.getElem?_set]
  by_cases last : i = items.length
  · subst last
    rw [if_pos rfl, if_pos (by rw [cells.length_eq]; exact inside),
      List.getElem?_append_right (Nat.le_refl _), Nat.sub_self]
    rfl
  · have apart := @place_apart size (start + i) (start + items.length) (by omega) (by omega)
    rw [if_neg (fun same => apart same.symm), laid i (by omega),
      List.getElem?_append_left (by omega)]

end Ring
