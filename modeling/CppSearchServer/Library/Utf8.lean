import Mathlib.Data.List.Basic

/-! Lists of bytes that are UTF-8. A list may be cut where the next byte begins a
character, and only there; an ASCII byte is a character wherever it stands, so the
text on either side of it is valid on its own. -/

namespace CppSearchServer.Library.Utf8

/-- The encoding of some characters. -/
def Valid (bytes : List UInt8) : Prop :=
  ∃ characters : List Char, bytes = characters.flatMap String.utf8EncodeChar

def Ascii (bytes : List UInt8) : Prop := ∀ b ∈ bytes, b < 0x80

instance decidableAscii (bytes : List UInt8) : Decidable (Ascii bytes) :=
  List.decidableBAll (· < 0x80) bytes

theorem valid_nil : Valid [] := ⟨[], rfl⟩

theorem valid_encodeChar (c : Char) : Valid (String.utf8EncodeChar c) := ⟨[c], by simp⟩

theorem Valid.append {xs ys : List UInt8} (hxs : Valid xs) (hys : Valid ys) :
    Valid (xs ++ ys) := by
  obtain ⟨cs, rfl⟩ := hxs
  obtain ⟨ds, rfl⟩ := hys
  exact ⟨cs ++ ds, List.flatMap_append.symm⟩

theorem valid_singleton {a : UInt8} (ha : a < 0x80) : Valid [a] := by
  refine ⟨[Char.ofUInt8 a], ?_⟩
  have hval : (Char.ofUInt8 a).val = a.toUInt32 := rfl
  have hsize : (Char.ofUInt8 a).utf8Size = 1 := by
    have hlt : a.toNat < 128 := UInt8.lt_iff_toNat_lt.mp ha
    rw [Char.utf8Size_eq_one_iff, UInt32.le_iff_toNat_le, hval, UInt8.toNat_toUInt32]
    exact Nat.le_of_lt_succ hlt
  rw [List.flatMap_singleton, String.utf8EncodeChar_eq_singleton hsize]
  simp [hval]

theorem encodeChar_append_inj {c d : Char} {xs ys : List UInt8}
    (h : String.utf8EncodeChar c ++ xs = String.utf8EncodeChar d ++ ys) : c = d := by
  have hread : ∀ (c : Char) (xs : List UInt8),
      ByteArray.utf8DecodeChar? (String.utf8EncodeChar c ++ xs).toByteArray 0 = some c := by
    intro c xs
    rw [List.toByteArray_append, ByteArray.utf8DecodeChar?_utf8EncodeChar_append]
  have hd := hread d ys
  rw [← h, hread c xs] at hd
  exact Option.some.inj hd

theorem Valid.of_append {xs ys : List UInt8} (hxs : Valid xs) (h : Valid (xs ++ ys)) :
    Valid ys := by
  obtain ⟨cs, rfl⟩ := hxs
  obtain ⟨ds, h⟩ := h
  induction cs generalizing ds with
  | nil => exact ⟨ds, h⟩
  | cons c cs ih =>
    rw [List.flatMap_cons, List.append_assoc] at h
    cases ds with
    | nil => simp at h
    | cons d ds =>
      rw [List.flatMap_cons] at h
      obtain rfl := encodeChar_append_inj h
      exact ih ds (List.append_cancel_left h)

theorem Valid.append_iff {xs ys : List UInt8} (hxs : Valid xs) :
    Valid (xs ++ ys) ↔ Valid ys :=
  ⟨hxs.of_append, hxs.append⟩

theorem Valid.head_isFirst {b : UInt8} {bytes : List UInt8} (h : Valid (b :: bytes)) :
    b.IsUTF8FirstByte := by
  obtain ⟨cs, h⟩ := h
  cases cs with
  | nil => cases h
  | cons c cs =>
    have hlength : 0 < (String.utf8EncodeChar c).length := by
      simpa using c.utf8Size_pos
    have hhead : (b :: bytes)[0]? = (String.utf8EncodeChar c)[0]? := by
      rw [h, List.flatMap_cons, List.getElem?_append_left hlength]
    rw [List.getElem?_eq_getElem hlength] at hhead
    rw [Option.some.inj hhead]
    exact UInt8.isUTF8FirstByte_getElem_zero_utf8EncodeChar

theorem Valid.take_of_isFirst {bytes : List UInt8} (h : Valid bytes) {n : Nat}
    (hfirst : ∀ b, bytes[n]? = some b → b.IsUTF8FirstByte) : Valid (bytes.take n) := by
  obtain ⟨cs, rfl⟩ := h
  induction cs generalizing n with
  | nil => simpa using valid_nil
  | cons c cs ih =>
    rw [List.flatMap_cons] at hfirst ⊢
    by_cases hn : n < (String.utf8EncodeChar c).length
    · have hbyte := hfirst (String.utf8EncodeChar c)[n]
        (by rw [List.getElem?_append_left hn, List.getElem?_eq_getElem hn])
      rw [UInt8.isUTF8FirstByte_getElem_utf8EncodeChar.mp hbyte, List.take_zero]
      exact valid_nil
    · have hle := Nat.le_of_not_lt hn
      rw [List.take_append, List.take_of_length_le hle]
      refine (valid_encodeChar c).append (ih fun b hb => hfirst b ?_)
      rw [List.getElem?_append_right hle, hb]

/-- A valid text may be cut after `n` bytes exactly when no character is cut. -/
theorem Valid.take_iff {bytes : List UInt8} (h : Valid bytes) (n : Nat) :
    Valid (bytes.take n) ↔ ∀ b, bytes[n]? = some b → b.IsUTF8FirstByte := by
  refine ⟨fun htake b hb => ?_, h.take_of_isFirst⟩
  have hdrop : Valid (bytes.drop n) :=
    htake.of_append ((List.take_append_drop n bytes).symm ▸ h)
  obtain ⟨hn, rfl⟩ := List.getElem?_eq_some_iff.mp hb
  rw [List.drop_eq_getElem_cons hn] at hdrop
  exact hdrop.head_isFirst

theorem isFirst_of_ascii {a : UInt8} (ha : a < 0x80) : a.IsUTF8FirstByte :=
  (valid_singleton ha).head_isFirst

theorem valid_append_ascii_cons {a : UInt8} (ha : a < 0x80) {xs ys : List UInt8} :
    Valid (xs ++ a :: ys) ↔ Valid xs ∧ Valid ys := by
  constructor
  · intro h
    have hxs : Valid xs := by
      have htake := h.take_of_isFirst (n := xs.length) fun b hb => by
        simp at hb
        exact hb ▸ isFirst_of_ascii ha
      simpa using htake
    have hcons : Valid ([a] ++ ys) := hxs.of_append h
    exact ⟨hxs, (valid_singleton ha).of_append hcons⟩
  · rintro ⟨hxs, hys⟩
    exact hxs.append ((valid_singleton ha).append hys)

theorem Ascii.valid {bytes : List UInt8} (h : Ascii bytes) : Valid bytes := by
  induction bytes with
  | nil => exact valid_nil
  | cons a bytes ih =>
    have hrest : Valid bytes := ih fun b hb => h b (by simp [hb])
    exact (valid_singleton (h a (by simp))).append hrest

theorem valid_append_ascii {as : List UInt8} (has : Ascii as) (hne : as ≠ [])
    {xs ys : List UInt8} : Valid (xs ++ (as ++ ys)) ↔ Valid xs ∧ Valid ys := by
  cases as with
  | nil => exact absurd rfl hne
  | cons a as =>
    have hrest : Valid as := Ascii.valid fun b hb => has b (by simp [hb])
    rw [List.cons_append, valid_append_ascii_cons (has a (by simp)), hrest.append_iff]

theorem valid_append_ascii_iff {as : List UInt8} (has : Ascii as) {xs : List UInt8} :
    Valid (xs ++ as) ↔ Valid xs := by
  rcases eq_or_ne as [] with rfl | hne
  · rw [List.append_nil]
  · have hsplit : Valid (xs ++ (as ++ [])) ↔ Valid xs ∧ Valid [] := valid_append_ascii has hne
    simpa [valid_nil] using hsplit

theorem valid_flatMap {f : UInt8 → List UInt8} (hascii : ∀ b < 0x80, Ascii (f b) ∧ f b ≠ [])
    (hother : ∀ b, ¬b < 0x80 → f b = [b]) (bytes : List UInt8) :
    Valid (bytes.flatMap f) ↔ Valid bytes := by
  -- the bytes since the last ASCII one are copied, so they wait in `xs`
  have hcopied : ∀ xs, Valid (xs ++ bytes.flatMap f) ↔ Valid (xs ++ bytes) := by
    induction bytes with
    | nil => simp
    | cons b bytes ih =>
      intro xs
      rw [List.flatMap_cons]
      by_cases hb : b < 0x80
      · obtain ⟨has, hne⟩ := hascii b hb
        have hrest := ih []
        rw [valid_append_ascii has hne, valid_append_ascii_cons hb]
        simpa using fun _ => hrest
      · simpa [hother b hb] using ih (xs ++ [b])
  exact hcopied []

theorem valid_intercalate (sep : UInt8) (hsep : sep < 0x80) (pieces : List (List UInt8)) :
    Valid ([sep].intercalate pieces) ↔ ∀ piece ∈ pieces, Valid piece := by
  induction pieces with
  | nil => simpa using valid_nil
  | cons piece pieces ih =>
    cases pieces with
    | nil => simp
    | cons next pieces =>
      rw [List.intercalate_cons_cons, List.append_assoc, List.singleton_append,
        valid_append_ascii_cons hsep, ih]
      exact List.forall_mem_cons.symm

end CppSearchServer.Library.Utf8
