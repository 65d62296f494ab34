import Mathlib.Tactic
/-
# Sequences under random access

A sequence of cells, into which pieces are put at positions of the writer's choice; a gap that a piece leaves behind
the end is filled with a fixed value. The elements are arbitrary.

* `put` — one piece; cell by cell in `getElem?_put`. Adjacent pieces are one (`put_put`).
* `play` — a history of pieces, oldest first.
* `getElem?_play` — **last write wins**: a cell has what the newest piece that covers it has there, else what it had.
* `Holds.put` — a piece is still there after one that spares it.
-/

namespace Patch

variable {α : Type*}

/-- `bs` put at `start`; an empty piece is nothing, wherever it is put. -/
def put (z : α) (start : Nat) (bs old : List α) : List α :=
  if bs = [] then old else old.takeD start z ++ bs ++ old.drop (start + bs.length)

/-- The end after a piece. -/
def reach (n start len : Nat) : Nat := if len = 0 then n else max n (start + len)

variable {z : α} {start i : Nat} {bs old : List α}

/-! ## One piece -/

@[simp] theorem put_nil : put z start [] old = old := rfl

theorem getElem?_takeD : (old.takeD start z)[i]? = if i < start then some (old[i]?.getD z) else none := by
  induction start generalizing old i with
  | zero => simp
  | succ n ih =>
    rw [List.takeD_succ]
    cases i with
    | zero => simp [List.head?_eq_getElem?]
    | succ i => simp [ih]

theorem getElem?_put (hbs : bs ≠ []) :
    (put z start bs old)[i]? =
      if start ≤ i ∧ i < start + bs.length then bs[i - start]?
      else if i < start then some (old[i]?.getD z) else old[i]? := by
  rw [put, if_neg hbs, List.append_assoc, List.getElem?_append, List.takeD_length]
  by_cases hi : i < start
  · rw [if_pos hi, if_neg (by omega), if_pos hi, getElem?_takeD, if_pos hi]
  · rw [if_neg hi, List.getElem?_append]
    by_cases hin : i - start < bs.length
    · rw [if_pos hin, if_pos (by omega)]
    · rw [if_neg hin, if_neg (by omega), if_neg hi, List.getElem?_drop]
      congr 1
      omega

theorem length_put : (put z start bs old).length = reach old.length start bs.length := by
  unfold put reach
  by_cases hbs : bs = []
  · simp [hbs]
  · have hpos : bs.length ≠ 0 := by simpa using hbs
    rw [if_neg hbs, if_neg hpos]
    simp only [List.length_append, List.takeD_length, List.length_drop]
    omega

/-- **Adjacent pieces are one.** -/
theorem put_put (bs' : List α) : put z (start + bs.length) bs' (put z start bs old) = put z start (bs ++ bs') old := by
  by_cases hbs : bs = []
  · simp [hbs]
  by_cases hbs' : bs' = []
  · simp [hbs']
  have hpos : 0 < bs.length := List.length_pos_iff.2 hbs
  apply List.ext_getElem?
  intro i
  rw [getElem?_put hbs', getElem?_put hbs, getElem?_put (by simp [hbs]), List.length_append]
  by_cases hlow : i < start
  · rw [if_neg (by omega), if_pos (by omega), if_neg (by omega), if_pos hlow, if_neg (by omega)]
    simp
  · by_cases hfirst : i < start + bs.length
    · have hin : i - start < bs.length := by omega
      rw [if_neg (by omega), if_pos hfirst, if_pos (by omega), if_pos (by omega), List.getElem?_append_left hin,
        List.getElem?_eq_getElem hin]
      rfl
    · by_cases hsecond : i < start + bs.length + bs'.length
      · rw [if_pos (by omega), if_pos (by omega), List.getElem?_append_right (by omega)]
        congr 1
        omega
      · rw [if_neg (by omega), if_neg hfirst, if_neg (by omega), if_neg hlow, if_neg (by omega)]

/-! ## A history -/

/-- The pieces of a history, one after the other. -/
def play (z : α) (h : List (Nat × List α)) (old : List α) : List α := h.foldl (fun old p => put z p.1 p.2 old) old

/-- What the newest piece that covers a cell has there. -/
def latest (h : List (Nat × List α)) (i : Nat) : Option α :=
  h.foldl (fun r p => if p.1 ≤ i ∧ i < p.1 + p.2.length then p.2[i - p.1]? else r) none

/-- The end after a history. -/
def extent (n : Nat) (h : List (Nat × List α)) : Nat := h.foldl (fun n p => reach n p.1 p.2.length) n

variable {n : Nat} {h : List (Nat × List α)}

theorem play_snoc (p : Nat × List α) : play z (h ++ [p]) old = put z p.1 p.2 (play z h old) := by
  simp [play]

theorem latest_snoc (p : Nat × List α) :
    latest (h ++ [p]) i = if p.1 ≤ i ∧ i < p.1 + p.2.length then p.2[i - p.1]? else latest h i := by
  simp [latest]

theorem extent_snoc (p : Nat × List α) : extent n (h ++ [p]) = reach (extent n h) p.1 p.2.length := by
  simp [extent]

/-- Behind the end there is nothing. -/
theorem latest_eq_none (hi : extent n h ≤ i) : latest h i = none := by
  induction h using List.reverseRecOn with
  | nil => rfl
  | append_singleton h p ih =>
    rw [extent_snoc] at hi
    unfold reach at hi
    rw [latest_snoc]
    by_cases hp : p.2.length = 0
    · rw [if_pos hp] at hi
      rw [if_neg (by omega)]
      exact ih hi
    · rw [if_neg hp] at hi
      rw [if_neg (by omega)]
      exact ih (by omega)

theorem le_extent : n ≤ extent n h := by
  induction h using List.reverseRecOn with
  | nil => exact le_rfl
  | append_singleton h p ih =>
    rw [extent_snoc, reach]
    split <;> omega

/-- **Last write wins**, and a cell that no piece covers is as it was, or is part of a gap. -/
theorem getElem?_play :
    (play z h old)[i]? = if i < extent old.length h then some ((latest h i).getD (old[i]?.getD z)) else none := by
  induction h using List.reverseRecOn generalizing i with
  | nil =>
    show old[i]? = if i < old.length then some (old[i]?.getD z) else none
    split
    · rename_i hi
      simp [hi]
    · rename_i hi
      simpa using hi
  | append_singleton h p ih =>
    rw [play_snoc, latest_snoc, extent_snoc]
    unfold reach
    by_cases hp : p.2 = []
    · rw [hp, put_nil, ih]
      simp [show ¬ (p.1 ≤ i ∧ i < p.1) by omega]
    have hlen : p.2.length ≠ 0 := by simpa using hp
    rw [getElem?_put hp, if_neg hlen]
    by_cases hin : p.1 ≤ i ∧ i < p.1 + p.2.length
    · have hsome : i - p.1 < p.2.length := by omega
      rw [if_pos hin, if_pos (by omega), if_pos hin, List.getElem?_eq_getElem hsome]
      rfl
    · rw [if_neg hin, if_neg hin, ih]
      by_cases hext : i < extent old.length h
      · rw [if_pos hext, if_pos (lt_max_of_lt_left hext), Option.getD_some]
        split <;> rfl
      · rw [if_neg hext, latest_eq_none (not_lt.1 hext)]
        have hc : old[i]? = none := by
          have hle := @le_extent α old.length h
          simp
          omega
        by_cases hlow : i < p.1
        · rw [if_pos hlow, if_pos (by omega), hc]
          rfl
        · rw [if_neg hlow, if_neg (by omega)]

/-! ## A piece that is spared -/

/-- `bs` is at `start`. -/
def Holds (start : Nat) (bs old : List α) : Prop := ∀ j < bs.length, old[start + j]? = bs[j]?

theorem holds_put : Holds start bs (put z start bs old) := by
  intro j hj
  rw [getElem?_put (List.ne_nil_of_length_pos (by omega)), if_pos (by omega)]
  congr 1
  omega

/-- The piece `p` does not touch the `n` cells from `start` on. -/
def Spares (start n : Nat) (p : Nat × List α) : Prop := p.2 = [] ∨ p.1 + p.2.length ≤ start ∨ start + n ≤ p.1

theorem Holds.put (hc : Holds start bs old) {p : Nat × List α} (hp : Spares start bs.length p) :
    Holds start bs (put z p.1 p.2 old) := by
  intro j hj
  by_cases hnil : p.2 = []
  · rw [hnil, put_nil]
    exact hc j hj
  have hapart := hp.resolve_left hnil
  rw [getElem?_put hnil, if_neg (by omega), hc j hj]
  split
  · rw [List.getElem?_eq_getElem hj]
    rfl
  · rfl

theorem Holds.read (hc : Holds start bs old) (hn : n ≤ bs.length) : (old.drop start).take n = bs.take n := by
  apply List.ext_getElem?
  intro j
  rw [List.getElem?_take, List.getElem?_take, List.getElem?_drop]
  split
  · exact hc j (by omega)
  · rfl

end Patch
