import SomeIpGateway.ByteAccess

/-!
# Ring buffers

A block of `n` cells used as a queue: what is held starts at the tail, ends in front of
the head, and goes on at the first cell behind the last one. One cell stays free, so that
a full ring and an empty one have different heads. A writer appends behind the head with
at most two copies; a reader takes cells from the tail on, and moves the tail when it is
done.
-/
namespace SomeIpGateway.RingBuffer
open ByteAccess

/-- The cell that lies `i` cells behind a start, with one wrap. -/
def index (n start i : ℕ) : ℕ := if start + i < n then start + i else start + i - n

theorem index_lt {n start i : ℕ} (hstart : start < n) (hi : i ≤ n) : index n start i < n := by
  unfold index
  split_ifs <;> omega

theorem index_index {n start i j : ℕ} (hstart : start < n) (hij : i + j < n) :
    index n (index n start i) j = index n start (i + j) := by
  unfold index
  split_ifs <;> omega

theorem getElem?_store {α : Type*} {mem src : List α} {i : ℕ} (h : i + src.length ≤ mem.length)
    (j : ℕ) : (store mem i src)[j]? =
      if i ≤ j ∧ j < i + src.length then src[j - i]? else mem[j]? := by
  have hi : (mem.take i).length = i := List.length_take_of_le (by omega)
  rcases Nat.lt_or_ge j i with hlt | hge
  · rw [store, List.append_assoc, List.getElem?_append_left (by omega),
      List.getElem?_take_of_lt hlt, if_neg (by omega)]
  · rw [store, List.append_assoc, List.getElem?_append_right (by omega), hi]
    rcases Nat.lt_or_ge j (i + src.length) with hin | hout
    · rw [List.getElem?_append_left (by omega), if_pos ⟨hge, hin⟩]
    · rw [List.getElem?_append_right (by omega), List.getElem?_drop, if_neg (by omega)]
      congr 1
      omega

/-- A block of cells with a head and a tail in it. -/
structure Ring (α : Type*) (n : ℕ) where
  cells : List α
  head : ℕ
  tail : ℕ
  size : cells.length = n
  head_lt : head < n
  tail_lt : tail < n

namespace Ring
variable {α : Type*} {n : ℕ} (r : Ring α n)

/-- The distance from the tail to the head. -/
def held : ℕ := if n ≤ n + r.head - r.tail then n + r.head - r.tail - n else n + r.head - r.tail

/-- The distance from the head to the cell in front of the tail. -/
def space : ℕ :=
  if n ≤ n + r.tail - r.head - 1 then n + r.tail - r.head - 1 - n else n + r.tail - r.head - 1

/-- What is held, oldest first. -/
def contents : List α := (r.cells.drop r.tail ++ r.cells).take r.held

theorem held_lt : r.held < n := by
  have hhead := r.head_lt
  have htail := r.tail_lt
  unfold held
  split_ifs <;> omega

theorem held_add_space : r.held + r.space + 1 = n := by
  have hhead := r.head_lt
  have htail := r.tail_lt
  unfold held space
  split_ifs <;> omega

theorem head_eq : r.head = index n r.tail r.held := by
  have hhead := r.head_lt
  have htail := r.tail_lt
  unfold index held
  split_ifs <;> omega

@[simp] theorem length_contents : r.contents.length = r.held := by
  have hheld := r.held_lt
  have htail := r.tail_lt
  rw [contents, List.length_take, List.length_append, List.length_drop, r.size]
  omega

theorem getElem?_contents {i : ℕ} (hi : i < r.held) :
    r.contents[i]? = r.cells[index n r.tail i]? := by
  have hheld := r.held_lt
  have htail := r.tail_lt
  have hdrop : (r.cells.drop r.tail).length = n - r.tail := by rw [List.length_drop, r.size]
  rw [contents, List.getElem?_take_of_lt hi, index]
  split_ifs with hwrap
  · rw [List.getElem?_append_left (by omega), List.getElem?_drop]
  · rw [List.getElem?_append_right (by omega), hdrop]
    congr 1
    omega

/-! ### Writing -/

/-- The cells after a write: up to the last cell, and from the first one on. -/
def writtenCells (data : List α) : List α :=
  let first := min (n - r.head) data.length
  store (store r.cells r.head (data.take first)) 0 (data.drop first)

theorem length_writtenCells {data : List α} (h : data.length ≤ r.space) :
    (r.writtenCells data).length = n := by
  have hspace := r.held_add_space
  have hhead := r.head_lt
  have hfirst : (store r.cells r.head (data.take (min (n - r.head) data.length))).length = n := by
    rw [length_store, r.size]
    rw [List.length_take, r.size]
    omega
  rw [writtenCells, length_store, hfirst]
  rw [List.length_drop, hfirst]
  omega

/-- Append behind the head. -/
def write (data : List α) (h : data.length ≤ r.space) : Ring α n where
  cells := r.writtenCells data
  head := if n ≤ r.head + data.length then r.head + data.length - n else r.head + data.length
  tail := r.tail
  size := r.length_writtenCells h
  head_lt := by
    have hspace := r.held_add_space
    have hhead := r.head_lt
    split_ifs <;> omega
  tail_lt := r.tail_lt

@[simp] theorem tail_write (data : List α) (h : data.length ≤ r.space) :
    (r.write data h).tail = r.tail := rfl

theorem held_write (data : List α) (h : data.length ≤ r.space) :
    (r.write data h).held = r.held + data.length := by
  have hspace := r.held_add_space
  have hhead := r.head_lt
  have htail := r.tail_lt
  unfold held space at *
  simp only [write]
  split_ifs at * <;> omega

/-- A write fills the cells behind the head, and leaves all others alone. -/
theorem getElem?_writtenCells {data : List α} (h : data.length ≤ r.space) (j : ℕ) :
    (r.writtenCells data)[j]? =
      if j < r.head + data.length - n then data[n - r.head + j]?
      else if r.head ≤ j ∧ j < n ∧ j < r.head + data.length then data[j - r.head]?
      else r.cells[j]? := by
  have hspace := r.held_add_space
  have hhead := r.head_lt
  have hsize := r.size
  have hfirst : (data.take (min (n - r.head) data.length)).length =
      min (n - r.head) data.length := by
    rw [List.length_take]
    omega
  rw [writtenCells, getElem?_store, getElem?_store, hfirst]
  · rw [List.length_drop]
    split_ifs with hwrap hin hin hrest
    all_goals try omega
    · rw [List.getElem?_drop]
      congr 1
      omega
    · rw [List.getElem?_take_of_lt (by omega)]
    · rfl
  · rw [hfirst]
    omega
  · rw [length_store (by rw [hfirst]; omega), List.length_drop]
    omega

theorem getElem?_written_held {data : List α} (h : data.length ≤ r.space) {i : ℕ}
    (hi : i < r.held) : (r.writtenCells data)[index n r.tail i]? = r.cells[index n r.tail i]? := by
  have hspace := r.held_add_space
  have hheld := r.held_lt
  have htail := r.tail_lt
  have hhead := r.head_eq
  rw [getElem?_writtenCells r h]
  unfold index at *
  split_ifs at * <;> first | rfl | omega

theorem getElem?_written_new {data : List α} (h : data.length ≤ r.space) {i : ℕ}
    (hi : i < data.length) : (r.writtenCells data)[index n r.tail (r.held + i)]? = data[i]? := by
  have hspace := r.held_add_space
  have htail := r.tail_lt
  have hhead := r.head_eq
  rw [getElem?_writtenCells r h]
  unfold index at *
  split_ifs at * <;> first | omega | (congr 1; omega)

/-- A write appends to what is held. -/
theorem contents_write (data : List α) (h : data.length ≤ r.space) :
    (r.write data h).contents = r.contents ++ data := by
  have hheld := r.held_write data h
  apply List.ext_getElem?
  intro i
  rcases Nat.lt_or_ge i r.held with hold | hnew
  · rw [getElem?_contents _ (by omega), List.getElem?_append_left (by simpa using hold),
      getElem?_contents _ hold]
    exact r.getElem?_written_held h hold
  · rw [List.getElem?_append_right (by simpa using hnew), length_contents]
    rcases Nat.lt_or_ge (i - r.held) data.length with hin | hout
    · rw [getElem?_contents _ (by omega), ← r.getElem?_written_new h hin,
        Nat.add_sub_cancel' hnew]
      rfl
    · rw [List.getElem?_eq_none hout, List.getElem?_eq_none (by simp; omega)]

/-! ### Reading -/

/-- Move the tail behind cells that have been read. -/
def dropFront (count : ℕ) (h : count ≤ n) : Ring α n where
  cells := r.cells
  head := r.head
  tail := if n ≤ r.tail + count then r.tail + count - n else r.tail + count
  size := r.size
  head_lt := r.head_lt
  tail_lt := by
    have htail := r.tail_lt
    split_ifs <;> omega

theorem held_dropFront {count : ℕ} (hn : count ≤ n) (h : count ≤ r.held) :
    (r.dropFront count hn).held = r.held - count := by
  have hheld := r.held_lt
  have hhead := r.head_lt
  have htail := r.tail_lt
  unfold held at *
  simp only [dropFront]
  split_ifs at * <;> omega

theorem contents_dropFront {count : ℕ} (hn : count ≤ n) (h : count ≤ r.held) :
    (r.dropFront count hn).contents = r.contents.drop count := by
  have hheld := r.held_dropFront hn h
  have hlt := r.held_lt
  have htail := r.tail_lt
  apply List.ext_getElem?
  intro i
  rw [List.getElem?_drop]
  rcases Nat.lt_or_ge i (r.held - count) with hin | hout
  · have htail' : (r.dropFront count hn).tail = index n r.tail count := by
      unfold index
      simp only [dropFront]
      split_ifs <;> omega
    rw [getElem?_contents _ (by omega), getElem?_contents _ (by omega), htail',
      index_index htail (by omega)]
    rfl
  · rw [List.getElem?_eq_none (by simp; omega), List.getElem?_eq_none (by simp; omega)]

/-- The `i`-th cell from the tail on. -/
def front (i : ℕ) : Option α := r.cells[index n r.tail i]?

/-- A reader that has copied the first cells and copies one more has the first cells. -/
theorem take_succ_of_front {i : ℕ} (hi : i < r.held) {x : α} (hx : r.front i = some x) :
    r.contents.take (i + 1) = r.contents.take i ++ [x] := by
  rw [List.take_add_one, getElem?_contents _ hi, ← front, hx]
  rfl

theorem front_isSome {i : ℕ} (hi : i < r.held) : ∃ x, r.front i = some x := by
  have hlt := index_lt r.tail_lt (hi.le.trans r.held_lt.le)
  exact ⟨_, List.getElem?_eq_getElem (by rw [r.size]; exact hlt)⟩

end Ring
end SomeIpGateway.RingBuffer
