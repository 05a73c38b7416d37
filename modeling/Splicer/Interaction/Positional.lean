import Mathlib.Data.List.Basic

/-! Files as lists: writes at a position, and what they leave alone. -/
namespace Positional

variable {α : Type}

/-- A write past the end fills the gap with holes; an empty write changes nothing. -/
def writeAt (hole : α) (file : List α) (pos : ℕ) (data : List α) : List α :=
  if data = [] then file
  else (file ++ List.replicate (pos - file.length) hole).take pos ++ data ++
    file.drop (pos + data.length)

variable {hole : α} {file data data' : List α} {pos i : ℕ}

@[simp] theorem writeAt_nil : writeAt hole file pos [] = file := by simp [writeAt]

theorem getElem?_padded (h : i < pos) :
    ((file ++ List.replicate (pos - file.length) hole).take pos)[i]? =
      some (file[i]?.getD hole) := by
  rw [List.getElem?_take_of_lt h]
  by_cases hi : i < file.length
  · simp [List.getElem?_append_left hi, hi]
  · have hlen : file.length ≤ i := by omega
    have hgap : i - file.length < pos - file.length := by omega
    simp [List.getElem?_append_right hlen, hlen, hgap]

theorem length_padded (hole : α) (file : List α) (pos : ℕ) :
    ((file ++ List.replicate (pos - file.length) hole).take pos).length = pos := by
  simp
  omega

/-- The three zones of a write: before it, inside it, and after it. -/
theorem getElem?_writeAt (hd : data ≠ []) :
    (writeAt hole file pos data)[i]? =
      if i < pos then some (file[i]?.getD hole)
      else if i < pos + data.length then data[i - pos]? else file[i]? := by
  have hpad := length_padded hole file pos
  rw [writeAt, if_neg hd, List.append_assoc]
  by_cases hlt : i < pos
  · rw [if_pos hlt, List.getElem?_append_left (by omega), getElem?_padded hlt]
  · rw [if_neg hlt, List.getElem?_append_right (by omega), hpad]
    by_cases hin : i < pos + data.length
    · rw [if_pos hin, List.getElem?_append_left (by omega)]
    · rw [if_neg hin, List.getElem?_append_right (by omega), List.getElem?_drop]
      congr 1
      omega

theorem getElem?_writeAt_inside (h : i < data.length) :
    (writeAt hole file pos data)[pos + i]? = data[i]? := by
  have hd : data ≠ [] := by
    rintro rfl
    simp at h
  rw [getElem?_writeAt hd, if_neg (by omega), if_pos (by omega)]
  congr 1
  omega

/-- What the file held outside the written range it still holds. -/
theorem getElem?_writeAt_outside (hi : i < pos ∧ i < file.length ∨ pos + data.length ≤ i) :
    (writeAt hole file pos data)[i]? = file[i]? := by
  by_cases hd : data = []
  · simp [hd]
  · rw [getElem?_writeAt hd]
    rcases hi with ⟨hlt, hlen⟩ | hge
    · simp [hlt, hlen]
    · rw [if_neg (by omega), if_neg (by omega)]

/-- A gap between the end of the file and the write reads as holes. -/
theorem getElem?_writeAt_gap (hlen : file.length ≤ i) (hlt : i < pos) :
    (writeAt hole file pos data)[i]? = none ∨ (writeAt hole file pos data)[i]? = some hole := by
  by_cases hd : data = []
  · left
    simpa [hd] using hlen
  · right
    rw [getElem?_writeAt hd, if_pos hlt, List.getElem?_eq_none hlen]
    rfl

/-- Two adjacent writes are one. -/
theorem writeAt_writeAt :
    writeAt hole (writeAt hole file pos data) (pos + data.length) data' =
      writeAt hole file pos (data ++ data') := by
  by_cases hd : data = []
  · simp [hd]
  by_cases hd' : data' = []
  · simp [hd']
  apply List.ext_getElem?
  intro i
  have happ : data ++ data' ≠ [] := by simp [hd]
  rw [getElem?_writeAt hd', getElem?_writeAt hd, getElem?_writeAt happ, List.length_append]
  by_cases hlt : i < pos
  · simp [hlt, Nat.lt_add_right data.length hlt]
  by_cases hin : i < pos + data.length
  · have hdata : i - pos < data.length := by omega
    have hall : i < pos + (data.length + data'.length) := by omega
    simp [hlt, hin, hall, List.getElem?_append_left hdata, hdata]
  · have hdata : data.length ≤ i - pos := by omega
    rw [if_neg hin, if_neg hlt, if_neg hlt, if_neg hin, List.getElem?_append_right hdata,
      Nat.sub_add_eq, Nat.add_assoc]

end Positional
