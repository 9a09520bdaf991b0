import CppSearchServer.Bytes

/-! `net::Buffer`: bytes appended at the end and consumed from the front. -/

namespace CppSearchServer.Net

structure Buffer where
  data : Bytes
deriving DecidableEq, Repr

namespace Buffer

def empty (b : Buffer) : Bool := b.data.isEmpty

def peek (b : Buffer) : Bytes := b.data

def append (b : Buffer) (data : Bytes) : Buffer := ⟨b.data ++ data⟩

/-- `std::min(length, data_.length())` bytes are erased from the front. -/
def retrieve (b : Buffer) (length : Nat) : Buffer :=
  let consumed := min length b.data.length
  ⟨b.data.drop consumed⟩

@[simp] theorem peek_append (b : Buffer) (data : Bytes) :
    (b.append data).peek = b.peek ++ data := rfl

@[simp] theorem peek_retrieve (b : Buffer) (length : Nat) :
    (b.retrieve length).peek = b.peek.drop length := by
  rcases Nat.le_total length b.data.length with h | h
  · simp [retrieve, peek, Nat.min_eq_left h]
  · simp [retrieve, peek, Nat.min_eq_right h, List.drop_of_length_le h]

@[simp] theorem empty_iff (b : Buffer) : b.empty = true ↔ b.peek = [] := by
  simp [empty, peek]

@[simp] theorem empty_false_iff (b : Buffer) : b.empty = false ↔ b.peek ≠ [] := by
  simp [empty, peek]

end Buffer

end CppSearchServer.Net
