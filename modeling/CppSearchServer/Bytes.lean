import CppSearchServer.Library.Framing
import CppSearchServer.Library.Json

/-! Byte strings. `std::string` and `std::string_view` hold arbitrary bytes, so
both are lists of bytes; source literals are written through `ascii`. -/

namespace CppSearchServer

abbrev Byte := UInt8
abbrev Bytes := List Byte

/-- The bytes of a source literal; every literal of the program is ASCII. -/
def ascii (literal : String) : Bytes := literal.toList.map fun c => c.toNat.toUInt8

def headerEnd : Bytes := ascii "\r\n\r\n"

def crlf : Bytes := ascii "\r\n"

/-- `std::to_string` of an unsigned number. -/
def decimal (n : Nat) : Bytes := (Nat.toDigits 10 n).map fun c => c.toNat.toUInt8

/-- The classification of `<cctype>` in the "C" locale, which the program never leaves. -/
def isspace (c : Byte) : Bool := c = 0x20 || (0x09 ≤ c && c ≤ 0x0d)

def isdigit (c : Byte) : Bool := 0x30 ≤ c && c ≤ 0x39

def isupper (c : Byte) : Bool := 0x41 ≤ c && c ≤ 0x5a

def islower (c : Byte) : Bool := 0x61 ≤ c && c ≤ 0x7a

def isalnum (c : Byte) : Bool := isdigit c || isupper c || islower c

def tolower (c : Byte) : Byte := if isupper c then c + 0x20 else c

theorem forall_byte {P : Byte → Prop} (h : ∀ n : Fin 256, P n.val.toUInt8) (c : Byte) : P c := by
  simpa [Nat.toUInt8] using h ⟨c.toNat, c.toNat_lt⟩

theorem forall_nibble {P : Byte → Prop} (h : ∀ n : Fin 16, P n.val.toUInt8) {c : Byte}
    (hc : c < 16) : P c := by
  simpa [Nat.toUInt8] using h ⟨c.toNat, UInt8.lt_iff_toNat_lt.mp hc⟩

def readDecimal (digits : Bytes) : Option Nat :=
  if digits ≠ [] ∧ digits.all isdigit then
    some (digits.foldl (fun n c => 10 * n + (c.toNat - 0x30)) 0)
  else none

theorem decimal_ne_nil (n : Nat) : decimal n ≠ [] := fun hnil =>
  Nat.toDigits_ne_nil (List.map_eq_nil_iff.mp hnil)

theorem toNat_of_isDigit {c : Char} (h : c.isDigit = true) :
    c.toNat.toUInt8.toNat = c.toNat ∧ isdigit c.toNat.toUInt8 = true := by
  have hbounds : 48 ≤ c.toNat ∧ c.toNat ≤ 57 := by
    simp only [Char.isDigit, Bool.and_eq_true, decide_eq_true_eq] at h
    exact ⟨UInt32.le_iff_toNat_le.mp h.1, UInt32.le_iff_toNat_le.mp h.2⟩
  have hbyte : c.toNat.toUInt8.toNat = c.toNat := by
    rw [Nat.toUInt8, UInt8.toNat_ofNat']
    omega
  refine ⟨hbyte, ?_⟩
  simp [isdigit, UInt8.le_iff_toNat_le, hbyte]
  omega

theorem isdigit_decimal (n : Nat) : ∀ c ∈ decimal n, isdigit c = true := by
  intro c hc
  obtain ⟨digit, hdigit, rfl⟩ := List.mem_map.mp hc
  exact (toNat_of_isDigit (Nat.isDigit_of_mem_toDigits (by decide) (by decide) hdigit)).2

theorem decimal_eq (n : Nat) :
    decimal n = (if n < 10 then [] else decimal (n / 10)) ++ [0x30 + (n % 10).toUInt8] := by
  have hdigit : ∀ d : Fin 10, (Nat.digitChar d).toNat.toUInt8 = 0x30 + d.val.toUInt8 := by decide
  have hlast : (Nat.digitChar (n % 10)).toNat.toUInt8 = 0x30 + (n % 10).toUInt8 :=
    hdigit ⟨n % 10, Nat.mod_lt n (by decide)⟩
  rw [decimal, Nat.toDigits_eq_if (by decide)]
  split
  · rename_i hlt
    rw [← hlast, Nat.mod_eq_of_lt hlt]
    rfl
  · rw [List.map_append, ← hlast]
    rfl

theorem decimal_lead (n : Nat) : (decimal n).length = 1 ∨ (decimal n).head? ≠ some 0x30 := by
  have hlead : 0 < n → (decimal n).head? ≠ some 0x30 := by
    induction n using Nat.strong_induction_on with
    | _ n ih =>
      intro hpos
      rw [decimal_eq]
      split
      · rename_i hlt
        have hdigit : ∀ d : Fin 10, 0 < d.val → 0x30 + d.val.toUInt8 ≠ 0x30 := by decide
        simpa [Nat.mod_eq_of_lt hlt] using hdigit ⟨n, hlt⟩ hpos
      · rw [List.head?_append_of_ne_nil _ (decimal_ne_nil _)]
        exact ih (n / 10) (by omega) (by omega)
  rcases Nat.eq_zero_or_pos n with rfl | hpos
  · exact .inl rfl
  · exact .inr (hlead hpos)

theorem readDecimal_decimal (n : Nat) : readDecimal (decimal n) = some n := by
  rw [readDecimal, if_pos ⟨decimal_ne_nil n, List.all_eq_true.mpr (isdigit_decimal n)⟩]
  have hbytes : ∀ (digits : List Char), (∀ c ∈ digits, c.isDigit = true) → ∀ initial,
      (digits.map fun c => c.toNat.toUInt8).foldl (fun n c => 10 * n + (c.toNat - 0x30)) initial =
        Nat.ofDigitChars 10 digits initial := by
    intro digits hdigits
    induction digits with
    | nil => simp
    | cons c digits ih =>
      intro initial
      rw [List.map_cons, List.foldl_cons, ih fun d hd => hdigits d (by simp [hd]),
        Nat.ofDigitChars_cons, (toNat_of_isDigit (hdigits c (by simp))).1]
      rfl
  rw [decimal, hbytes _ fun c hc => Nat.isDigit_of_mem_toDigits (by decide) (by decide) hc,
    Nat.ofDigitChars_ten_toDigits]

theorem headerEnd_ne_nil : headerEnd ≠ [] := by decide

open Library.Json

/-! Numbers and names as JSON. -/

theorem reads_decimal (n : Nat) : Reads (decimal n) (.number (decimal n)) := by
  have hread := reads_number (.inl rfl) (decimal_ne_nil n) (isdigit_decimal n) (decimal_lead n)
    (.inl rfl)
  simpa using hread

theorem readsMember_ascii {name : String} {text : Bytes} {value : Value}
    (hname : (ascii name).all fun c => c ≠ 0x22 ∧ c ≠ 0x5c ∧ ¬c < 0x20) (h : Reads text value) :
    ReadsMember (ascii name, text) (ascii name, value) := by
  have hplain : ∀ c ∈ ascii name, c ≠ 0x22 ∧ c ≠ 0x5c ∧ ¬c < 0x20 := by
    simpa using hname
  exact ⟨readsString_plain hplain, h⟩

end CppSearchServer
