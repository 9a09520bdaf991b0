import Mathlib.Data.List.Forall2

/-! A reader of JSON texts and rules for what it reads.
Strings are byte sequences and their escapes are decoded; numbers are kept as they
are printed. A rule says that a text reads as a value whatever delimiter follows, so
the rules compose as the texts do. -/

namespace CppSearchServer.Library.Json

abbrev Text := List UInt8

inductive Value where
  | null
  | bool (value : Bool)
  | number (text : Text)
  | string (value : Text)
  | array (items : List Value)
  | object (members : List (Text × Value))

def isSpace (c : UInt8) : Bool := c = 0x20 || c = 0x09 || c = 0x0a || c = 0x0d

def skipSpace (s : Text) : Text := s.dropWhile isSpace

def expect (c : UInt8) (s : Text) : Option Text :=
  match skipSpace s with
  | [] => none
  | d :: rest => if d = c then some rest else none

section Strings

def hexDigit (c : UInt8) : Option Nat :=
  if 0x30 ≤ c ∧ c ≤ 0x39 then some (c.toNat - 0x30)
  else if 0x61 ≤ c ∧ c ≤ 0x66 then some (c.toNat - 0x61 + 10)
  else if 0x41 ≤ c ∧ c ≤ 0x46 then some (c.toNat - 0x41 + 10)
  else none

def codeUnit (a b c d : UInt8) : Option Nat :=
  match hexDigit a, hexDigit b, hexDigit c, hexDigit d with
  | some a, some b, some c, some d => some (((a * 16 + b) * 16 + c) * 16 + d)
  | _, _, _, _ => none

def readCodeUnit : Text → Option (Nat × Text)
  | a :: b :: c :: d :: rest => (codeUnit a b c d).map fun unit => (unit, rest)
  | _ => none

def utf8 (codePoint : Nat) : Text := String.utf8EncodeChar (Char.ofNat codePoint)

def isHighSurrogate (unit : Nat) : Bool := 0xd800 ≤ unit && unit < 0xdc00
def isLowSurrogate (unit : Nat) : Bool := 0xdc00 ≤ unit && unit < 0xe000

/-- The second half of a surrogate pair, `\u` included. -/
def readLowSurrogate : Text → Option (Nat × Text)
  | b :: u :: rest =>
    if b = 0x5c ∧ u = 0x75 then (readCodeUnit rest).filter fun r => isLowSurrogate r.1 else none
  | _ => none

/-- What follows `\u`. Surrogates come in pairs only. -/
def readUnicode (s : Text) : Option (Text × Text) :=
  match readCodeUnit s with
  | none => none
  | some (unit, rest) =>
    if isHighSurrogate unit then
      (readLowSurrogate rest).map fun r =>
        (utf8 (0x10000 + (unit - 0xd800) * 0x400 + (r.1 - 0xdc00)), r.2)
    else if isLowSurrogate unit then none
    else some (utf8 unit, rest)

/-- What a single character stands for behind a backslash. -/
def escaped (c : UInt8) : Option UInt8 :=
  if c = 0x22 ∨ c = 0x5c ∨ c = 0x2f then some c
  else if c = 0x62 then some 0x08
  else if c = 0x66 then some 0x0c
  else if c = 0x6e then some 0x0a
  else if c = 0x72 then some 0x0d
  else if c = 0x74 then some 0x09
  else none

def readEscape : Text → Option (Text × Text)
  | [] => none
  | c :: rest => if c = 0x75 then readUnicode rest else (escaped c).map fun d => ([d], rest)

theorem readCodeUnit_length {s rest : Text} {unit : Nat} (h : readCodeUnit s = some (unit, rest)) :
    rest.length ≤ s.length := by
  unfold readCodeUnit at h
  split at h
  · obtain ⟨_, -, h⟩ := Option.map_eq_some_iff.mp h
    cases h
    simp only [List.length_cons]
    omega
  · cases h

theorem readLowSurrogate_length {s rest : Text} {unit : Nat}
    (h : readLowSurrogate s = some (unit, rest)) : rest.length ≤ s.length := by
  unfold readLowSurrogate at h
  split at h
  · obtain ⟨-, h⟩ := Option.ite_none_right_eq_some.mp h
    have hrest := readCodeUnit_length (Option.filter_eq_some_iff.mp h).1
    simp only [List.length_cons]
    omega
  · cases h

theorem readUnicode_length {s value rest : Text} (h : readUnicode s = some (value, rest)) :
    rest.length ≤ s.length := by
  unfold readUnicode at h
  split at h
  · cases h
  · rename_i unit behind hunit
    have hbehind := readCodeUnit_length hunit
    split at h
    · obtain ⟨⟨low, last⟩, hlow, hpair⟩ := Option.map_eq_some_iff.mp h
      have hlast := readLowSurrogate_length hlow
      obtain rfl : last = rest := (Prod.mk.inj hpair).2
      omega
    · split at h
      · cases h
      · have hrest : behind = rest := (Prod.mk.inj (Option.some.inj h)).2
        exact hrest ▸ hbehind

theorem readEscape_length {s value rest : Text} (h : readEscape s = some (value, rest)) :
    rest.length ≤ s.length := by
  cases s with
  | nil => cases h
  | cons c s =>
    simp only [readEscape] at h
    split at h
    · have hrest := readUnicode_length h
      rw [List.length_cons]
      omega
    · obtain ⟨_, -, h⟩ := Option.map_eq_some_iff.mp h
      cases h
      simp

def readString : Text → Option (Text × Text)
  | [] => none
  | c :: s =>
    if c = 0x22 then some ([], s)
    else if c = 0x5c then
      match _h : readEscape s with
      | none => none
      | some (value, rest) => (readString rest).map fun r => (value ++ r.1, r.2)
    else if c < 0x20 then none
    else (readString s).map fun r => (c :: r.1, r.2)
termination_by s => s.length
decreasing_by
  · have hrest := readEscape_length _h
    simp only [List.length_cons]
    omega
  · simp

end Strings

section Numbers

def isDigit (c : UInt8) : Bool := 0x30 ≤ c && c ≤ 0x39

def readDigits (s : Text) : Option (Text × Text) :=
  if s.takeWhile isDigit = [] then none else some (s.takeWhile isDigit, s.dropWhile isDigit)

def readSign (s : Text) : Text × Text :=
  match s with
  | [] => ([], [])
  | c :: rest => if c = 0x2d then ([c], rest) else ([], s)

/-- No number but zero begins with a zero. -/
def readInteger (s : Text) : Option (Text × Text) :=
  match readDigits s with
  | none => none
  | some (digits, rest) =>
    if digits.length = 1 ∨ digits.head? ≠ some 0x30 then some (digits, rest) else none

def readFraction (s : Text) : Option (Text × Text) :=
  match s with
  | [] => some ([], [])
  | c :: rest =>
    if c = 0x2e then (readDigits rest).map fun r => (c :: r.1, r.2) else some ([], s)

def readExponent (s : Text) : Option (Text × Text) :=
  match s with
  | [] => some ([], [])
  | c :: rest =>
    if c = 0x65 ∨ c = 0x45 then
      match rest with
      | [] => none
      | d :: behind =>
        if d = 0x2b ∨ d = 0x2d then (readDigits behind).map fun r => (c :: d :: r.1, r.2)
        else (readDigits rest).map fun r => (c :: r.1, r.2)
    else some ([], s)

def readNumber (s : Text) : Option (Text × Text) := do
  let sign := readSign s
  let integer ← readInteger sign.2
  let fraction ← readFraction integer.2
  let exponent ← readExponent fraction.2
  some (sign.1 ++ integer.1 ++ fraction.1 ++ exponent.1, exponent.2)

end Numbers

def wordNull : Text := [0x6e, 0x75, 0x6c, 0x6c]
def wordTrue : Text := [0x74, 0x72, 0x75, 0x65]
def wordFalse : Text := [0x66, 0x61, 0x6c, 0x73, 0x65]

def readScalar (s : Text) : Option (Value × Text) :=
  if wordNull <+: s then some (.null, s.drop wordNull.length)
  else if wordTrue <+: s then some (.bool true, s.drop wordTrue.length)
  else if wordFalse <+: s then some (.bool false, s.drop wordFalse.length)
  else (readNumber s).map fun r => (.number r.1, r.2)

mutual

/-- A value in front of a text; `fuel` bounds the nesting and the number of items. -/
def readValue : Nat → Text → Option (Value × Text)
  | 0, _ => none
  | fuel + 1, s =>
    match skipSpace s with
    | [] => none
    | c :: rest =>
      if c = 0x22 then (readString rest).map fun r => (.string r.1, r.2)
      else if c = 0x5b then
        match expect 0x5d rest with
        | some rest => some (.array [], rest)
        | none => (readItems fuel rest).map fun r => (.array r.1, r.2)
      else if c = 0x7b then
        match expect 0x7d rest with
        | some rest => some (.object [], rest)
        | none => (readMembers fuel rest).map fun r => (.object r.1, r.2)
      else readScalar (c :: rest)

def readItems : Nat → Text → Option (List Value × Text)
  | 0, _ => none
  | fuel + 1, s =>
    match readValue fuel s with
    | none => none
    | some (item, rest) =>
      match expect 0x2c rest with
      | some rest => (readItems fuel rest).map fun r => (item :: r.1, r.2)
      | none => (expect 0x5d rest).map fun rest => ([item], rest)

def readMembers : Nat → Text → Option (List (Text × Value) × Text)
  | 0, _ => none
  | fuel + 1, s =>
    match (expect 0x22 s).bind readString with
    | none => none
    | some (key, rest) =>
      match (expect 0x3a rest).bind (readValue fuel) with
      | none => none
      | some (value, rest) =>
        match expect 0x2c rest with
        | some rest => (readMembers fuel rest).map fun r => ((key, value) :: r.1, r.2)
        | none => (expect 0x7d rest).map fun rest => ([(key, value)], rest)

end

def readJson (s : Text) : Option Value :=
  match readValue s.length s with
  | none => none
  | some (value, rest) => if skipSpace rest = [] then some value else none

/-! The rules. -/

/-- What may follow a number. -/
def Ends (rest : Text) : Prop :=
  ∀ c ∈ rest.head?, isDigit c = false ∧ c ≠ 0x2e ∧ c ≠ 0x65 ∧ c ≠ 0x45

def Reads (text : Text) (value : Value) : Prop :=
  ∀ fuel rest, text.length ≤ fuel → Ends rest → readValue fuel (text ++ rest) = some (value, rest)

def ReadsString (body value : Text) : Prop :=
  ∀ rest, readString (body ++ 0x22 :: rest) = some (value, rest)

def memberText (member : Text × Text) : Text := 0x22 :: (member.1 ++ 0x22 :: 0x3a :: member.2)

theorem skipSpace_cons {c : UInt8} (hc : isSpace c = false) (rest : Text) :
    skipSpace (c :: rest) = c :: rest := by
  simp [skipSpace, hc]

@[simp] theorem expect_quote (rest : Text) : expect 0x22 (0x22 :: rest) = some rest := rfl
@[simp] theorem expect_comma (rest : Text) : expect 0x2c (0x2c :: rest) = some rest := rfl
@[simp] theorem expect_colon (rest : Text) : expect 0x3a (0x3a :: rest) = some rest := rfl
@[simp] theorem expect_bracket (rest : Text) : expect 0x5d (0x5d :: rest) = some rest := rfl
@[simp] theorem expect_brace (rest : Text) : expect 0x7d (0x7d :: rest) = some rest := rfl

theorem expect_other {c d : UInt8} (hd : isSpace d = false) (hne : d ≠ c) (rest : Text) :
    expect c (d :: rest) = none := by
  simp [expect, skipSpace_cons hd, hne]

theorem readString_quote (rest : Text) : readString (0x22 :: rest) = some ([], rest) := by
  rw [readString, if_pos rfl]

theorem readString_plain {c : UInt8} (hquote : c ≠ 0x22) (hbackslash : c ≠ 0x5c)
    (hcontrol : ¬c < 0x20) (s : Text) :
    readString (c :: s) = (readString s).map fun r => (c :: r.1, r.2) := by
  rw [readString, if_neg hquote, if_neg hbackslash, if_neg hcontrol]

theorem readsString_plain {s : Text} (h : ∀ c ∈ s, c ≠ 0x22 ∧ c ≠ 0x5c ∧ ¬c < 0x20) :
    ReadsString s s := by
  intro rest
  induction s with
  | nil => exact readString_quote rest
  | cons c s ih =>
    obtain ⟨hquote, hbackslash, hcontrol⟩ := h c (by simp)
    rw [List.cons_append, readString_plain hquote hbackslash hcontrol,
      ih fun d hd => h d (by simp [hd]), Option.map_some]

theorem readString_escape {s value rest : Text} (h : readEscape s = some (value, rest)) :
    readString (0x5c :: s) = (readString rest).map fun r => (value ++ r.1, r.2) := by
  rw [readString, if_neg (by decide), if_pos rfl]
  split
  · rename_i hnone
    simp [h] at hnone
  · rename_i value' rest' hsome
    obtain ⟨rfl, rfl⟩ : value = value' ∧ rest = rest' := by simpa using h.symm.trans hsome
    rfl

theorem reads_string {body value : Text} (h : ReadsString body value) :
    Reads (0x22 :: (body ++ [0x22])) (.string value) := by
  intro fuel rest hfuel _
  obtain ⟨fuel, rfl⟩ := Nat.exists_eq_succ_of_ne_zero
    (Nat.ne_of_gt (Nat.lt_of_lt_of_le (by simp) hfuel))
  have hbody := h rest
  rw [List.cons_append, List.append_assoc, List.singleton_append, readValue,
    skipSpace_cons (by decide)]
  simp [hbody]

theorem expect_of_readValue {fuel : Nat} {s : Text} {r : Value × Text}
    (h : readValue fuel s = some r) : expect 0x5d s = none := by
  cases fuel with
  | zero => cases h
  | succ fuel =>
    unfold expect
    rw [readValue] at h
    split
    · rfl
    · rename_i d rest hskip
      refine if_neg fun hd => ?_
      subst hd
      rw [hskip] at h
      simp [readScalar, wordNull, wordTrue, wordFalse, readNumber, readSign, readInteger,
        readDigits, isDigit] at h

theorem readItems_intercalate {texts : List Text} {items : List Value} (hne : texts ≠ [])
    (h : List.Forall₂ Reads texts items) {fuel : Nat}
    (hfuel : ([0x2c].intercalate texts).length + 1 ≤ fuel) (rest : Text) :
    readItems fuel ([0x2c].intercalate texts ++ 0x5d :: rest) = some (items, rest) := by
  induction h generalizing fuel with
  | nil => exact absurd rfl hne
  | @cons text item texts items hitem hitems ih =>
    obtain ⟨fuel, rfl⟩ := Nat.exists_eq_succ_of_ne_zero
      (Nat.ne_of_gt (Nat.lt_of_lt_of_le (Nat.succ_pos _) hfuel))
    rw [readItems]
    cases texts with
    | nil =>
      cases hitems
      have hread := hitem fuel (0x5d :: rest)
        (by simpa [List.intercalate] using hfuel) (by simp [Ends, isDigit])
      have hnone : expect 0x2c (0x5d :: rest) = none := expect_other (by decide) (by decide) rest
      simp only [List.intercalate_singleton, hread, hnone, expect_bracket, Option.map_some]
    | cons next texts =>
      rw [List.intercalate_cons_cons] at hfuel ⊢
      simp only [List.length_append, List.length_singleton] at hfuel
      have hread := hitem fuel (0x2c :: ([0x2c].intercalate (next :: texts) ++ 0x5d :: rest))
        (by omega) (by simp [Ends, isDigit])
      have hrest : readItems fuel ([0x2c].intercalate (next :: texts) ++ 0x5d :: rest) = _ :=
        ih (by simp) (by omega)
      simp only [List.append_assoc, List.cons_append, List.nil_append, hread, expect_comma, hrest,
        Option.map_some]

theorem reads_array {texts : List Text} {items : List Value} (h : List.Forall₂ Reads texts items) :
    Reads (0x5b :: ([0x2c].intercalate texts ++ [0x5d])) (.array items) := by
  intro fuel rest hfuel _
  obtain ⟨fuel, rfl⟩ := Nat.exists_eq_succ_of_ne_zero
    (Nat.ne_of_gt (Nat.lt_of_lt_of_le (by simp) hfuel))
  have hopen : ∀ s, readValue (fuel + 1) (0x5b :: s) =
      match expect 0x5d s with
      | some rest => some (.array [], rest)
      | none => (readItems fuel s).map fun r => (.array r.1, r.2) := by
    intro s
    rw [readValue, skipSpace_cons (by decide)]
    rfl
  rw [List.cons_append, List.append_assoc, List.singleton_append, hopen]
  simp only [List.length_cons, List.length_append, List.length_nil] at hfuel
  cases h with
  | nil => simp [List.intercalate]
  | @cons text item texts items hitem hitems =>
    have hread : ∃ behind, [0x2c].intercalate (text :: texts) ++ 0x5d :: rest = text ++ behind ∧
        Ends behind := by
      cases texts with
      | nil => exact ⟨0x5d :: rest, by simp [List.intercalate], by simp [Ends, isDigit]⟩
      | cons next texts =>
        refine ⟨0x2c :: ([0x2c].intercalate (next :: texts) ++ 0x5d :: rest), ?_,
          by simp [Ends, isDigit]⟩
        rw [List.intercalate_cons_cons]
        simp
    obtain ⟨behind, htext, hends⟩ := hread
    have hnone : expect 0x5d ([0x2c].intercalate (text :: texts) ++ 0x5d :: rest) = none := by
      rw [htext]
      exact expect_of_readValue (hitem _ behind (Nat.le_refl _) hends)
    rw [hnone]
    dsimp only
    rw [readItems_intercalate (by simp) (.cons hitem hitems) (by omega), Option.map_some]

def ReadsMember (member : Text × Text) (entry : Text × Value) : Prop :=
  ReadsString member.1 entry.1 ∧ Reads member.2 entry.2

theorem readMembers_member {member : Text × Text} {entry : Text × Value}
    (h : ReadsMember member entry) {fuel : Nat} (hfuel : member.2.length ≤ fuel) {behind : Text}
    (hends : Ends behind) :
    readMembers (fuel + 1) (memberText member ++ behind) =
      match expect 0x2c behind with
      | some rest => (readMembers fuel rest).map fun r => (entry :: r.1, r.2)
      | none => (expect 0x7d behind).map fun rest => ([entry], rest) := by
  have hkey := h.1 (0x3a :: (member.2 ++ behind))
  have hvalue := h.2 fuel behind hfuel hends
  rw [memberText, readMembers]
  simp only [List.cons_append, List.append_assoc, expect_quote, Option.bind_some, hkey,
    expect_colon, hvalue]

theorem memberText_length (member : Text × Text) :
    member.2.length + 3 ≤ (memberText member).length := by
  simp only [memberText, List.length_cons, List.length_append]
  omega

theorem readMembers_intercalate {members : List (Text × Text)} {entries : List (Text × Value)}
    (hne : members ≠ []) (h : List.Forall₂ ReadsMember members entries) {fuel : Nat}
    (hfuel : ([0x2c].intercalate (members.map memberText)).length ≤ fuel) (rest : Text) :
    readMembers fuel ([0x2c].intercalate (members.map memberText) ++ 0x7d :: rest) =
      some (entries, rest) := by
  induction h generalizing fuel with
  | nil => exact absurd rfl hne
  | @cons member entry members entries hmember hmembers ih =>
    have hlength := memberText_length member
    cases members with
    | nil =>
      cases hmembers
      simp only [List.map_cons, List.map_nil, List.intercalate_singleton] at hfuel ⊢
      obtain ⟨fuel, rfl⟩ := Nat.exists_eq_succ_of_ne_zero (by omega : fuel ≠ 0)
      rw [readMembers_member hmember (by omega) (by simp [Ends, isDigit]),
        expect_other (by decide) (by decide), expect_brace, Option.map_some]
    | cons next members =>
      rw [List.map_cons, List.map_cons, List.intercalate_cons_cons, ← List.map_cons] at hfuel ⊢
      simp only [List.length_append, List.length_singleton] at hfuel
      obtain ⟨fuel, rfl⟩ := Nat.exists_eq_succ_of_ne_zero (by omega : fuel ≠ 0)
      have hrest : readMembers fuel ([0x2c].intercalate ((next :: members).map memberText) ++
          0x7d :: rest) = _ := ih (by simp) (by omega)
      simp only [List.append_assoc, List.cons_append, List.nil_append]
      rw [readMembers_member hmember (by omega) (by simp [Ends, isDigit]), expect_comma]
      simp only [hrest, Option.map_some]

theorem reads_object {members : List (Text × Text)} {entries : List (Text × Value)}
    (h : List.Forall₂ ReadsMember members entries) :
    Reads (0x7b :: ([0x2c].intercalate (members.map memberText) ++ [0x7d])) (.object entries) := by
  intro fuel rest hfuel _
  obtain ⟨fuel, rfl⟩ := Nat.exists_eq_succ_of_ne_zero
    (Nat.ne_of_gt (Nat.lt_of_lt_of_le (by simp) hfuel))
  have hopen : ∀ s, readValue (fuel + 1) (0x7b :: s) =
      match expect 0x7d s with
      | some rest => some (.object [], rest)
      | none => (readMembers fuel s).map fun r => (.object r.1, r.2) := by
    intro s
    rw [readValue, skipSpace_cons (by decide)]
    rfl
  rw [List.cons_append, List.append_assoc, List.singleton_append, hopen]
  simp only [List.length_cons, List.length_append, List.length_nil] at hfuel
  cases h with
  | nil => simp [List.intercalate]
  | @cons member entry members entries hmember hmembers =>
    have hquote : ∃ s, [0x2c].intercalate ((member :: members).map memberText) ++ 0x7d :: rest =
        0x22 :: s := by
      cases members with
      | nil => exact ⟨_, by rw [List.map_cons, List.map_nil, List.intercalate_singleton,
          memberText, List.cons_append]⟩
      | cons next members => exact ⟨_, by rw [List.map_cons, List.map_cons,
          List.intercalate_cons_cons, memberText, List.cons_append, List.cons_append,
          List.cons_append]⟩
    have hnone : expect 0x7d ([0x2c].intercalate ((member :: members).map memberText) ++
        0x7d :: rest) = none := by
      obtain ⟨s, hs⟩ := hquote
      rw [hs]
      exact expect_other (by decide) (by decide) s
    rw [hnone]
    dsimp only
    rw [readMembers_intercalate (by simp) (.cons hmember hmembers) (by omega), Option.map_some]

theorem readDigits_append {digits rest : Text} (hne : digits ≠ [])
    (hdigits : ∀ c ∈ digits, isDigit c = true) (hrest : ∀ c ∈ rest.head?, isDigit c = false) :
    readDigits (digits ++ rest) = some (digits, rest) := by
  have hstop : rest.takeWhile isDigit = [] ∧ rest.dropWhile isDigit = rest := by
    cases rest with
    | nil => exact ⟨rfl, rfl⟩
    | cons c rest =>
      have hc := hrest c rfl
      simp [hc]
  rw [readDigits, List.takeWhile_append_of_pos hdigits, List.dropWhile_append_of_pos hdigits,
    hstop.1, hstop.2, List.append_nil, if_neg hne]

def IsFraction (fraction : Text) : Prop :=
  fraction = [] ∨ ∃ digits, digits ≠ [] ∧ (∀ c ∈ digits, isDigit c = true) ∧
    fraction = 0x2e :: digits

theorem readExponent_ends {rest : Text} (h : Ends rest) : readExponent rest = some ([], rest) := by
  cases rest with
  | nil => rfl
  | cons c rest =>
    obtain ⟨-, -, he, hE⟩ := h c rfl
    simp [readExponent, he, hE]

theorem readFraction_append {fraction rest : Text} (hfraction : IsFraction fraction)
    (h : Ends rest) : readFraction (fraction ++ rest) = some (fraction, rest) := by
  rcases hfraction with rfl | ⟨digits, hne, hdigits, rfl⟩
  · cases rest with
    | nil => rfl
    | cons c rest =>
      obtain ⟨-, hdot, -⟩ := h c rfl
      simp [readFraction, hdot]
  · have hread : readDigits (digits ++ rest) = some (digits, rest) :=
      readDigits_append hne hdigits fun c hc => (h c hc).1
    simp [readFraction, hread]

theorem readNumber_append {sign integer fraction rest : Text} (hsign : sign = [] ∨ sign = [0x2d])
    (hne : integer ≠ []) (hinteger : ∀ c ∈ integer, isDigit c = true)
    (hlead : integer.length = 1 ∨ integer.head? ≠ some 0x30) (hfraction : IsFraction fraction)
    (h : Ends rest) :
    readNumber (sign ++ integer ++ fraction ++ rest) =
      some (sign ++ integer ++ fraction, rest) := by
  have hbehind : ∀ c ∈ (fraction ++ rest).head?, isDigit c = false := by
    rcases hfraction with rfl | ⟨digits, -, -, rfl⟩
    · exact fun c hc => (h c hc).1
    · rintro c hc
      obtain rfl : 0x2e = c := by simpa using hc
      decide
  have hreadSign : readSign (sign ++ integer ++ fraction ++ rest) =
      (sign, integer ++ (fraction ++ rest)) := by
    rcases hsign with rfl | rfl
    · obtain ⟨c, digits, rfl⟩ := List.exists_cons_of_ne_nil hne
      have hc : c ≠ 0x2d := by
        rintro rfl
        exact absurd (hinteger 0x2d (by simp)) (by decide)
      simp [readSign, hc]
    · simp [readSign]
  have hreadInteger : readInteger (integer ++ (fraction ++ rest)) =
      some (integer, fraction ++ rest) := by
    rw [readInteger, readDigits_append hne hinteger hbehind]
    exact if_pos hlead
  simp only [readNumber, Option.bind_eq_bind, hreadSign, hreadInteger, Option.bind_some,
    readFraction_append hfraction h, readExponent_ends h, List.append_nil]

theorem reads_number {sign integer fraction : Text} (hsign : sign = [] ∨ sign = [0x2d])
    (hne : integer ≠ []) (hinteger : ∀ c ∈ integer, isDigit c = true)
    (hlead : integer.length = 1 ∨ integer.head? ≠ some 0x30) (hfraction : IsFraction fraction) :
    Reads (sign ++ integer ++ fraction) (.number (sign ++ integer ++ fraction)) := by
  intro fuel rest hfuel h
  have hread := readNumber_append hsign hne hinteger hlead hfraction h
  obtain ⟨c, s, hs, hc⟩ : ∃ c s, sign ++ integer ++ fraction ++ rest = c :: s ∧
      (c = 0x2d ∨ isDigit c = true) := by
    obtain ⟨d, digits, rfl⟩ := List.exists_cons_of_ne_nil hne
    rcases hsign with rfl | rfl
    · exact ⟨d, digits ++ fraction ++ rest, rfl, .inr (hinteger d (by simp))⟩
    · exact ⟨0x2d, d :: digits ++ fraction ++ rest, rfl, .inl rfl⟩
  have hstart : ∀ d : UInt8, d ≠ 0x2d → isDigit d = false → c ≠ d := by
    rintro d hminus hdigit rfl
    rcases hc with rfl | hc
    · exact hminus rfl
    · simp [hdigit] at hc
  have hspace : isSpace c = false := by
    simp [isSpace, hstart 0x20 (by decide) (by decide), hstart 0x09 (by decide) (by decide),
      hstart 0x0a (by decide) (by decide), hstart 0x0d (by decide) (by decide)]
  have hnull : ¬wordNull <+: c :: s := fun hprefix =>
    hstart 0x6e (by decide) (by decide) (List.cons_prefix_cons.mp hprefix).1.symm
  have htrue : ¬wordTrue <+: c :: s := fun hprefix =>
    hstart 0x74 (by decide) (by decide) (List.cons_prefix_cons.mp hprefix).1.symm
  have hfalse : ¬wordFalse <+: c :: s := fun hprefix =>
    hstart 0x66 (by decide) (by decide) (List.cons_prefix_cons.mp hprefix).1.symm
  obtain ⟨fuel, rfl⟩ := Nat.exists_eq_succ_of_ne_zero (show fuel ≠ 0 by
    rintro rfl
    simp only [List.length_append] at hfuel
    exact hne (List.length_eq_zero_iff.mp (by omega)))
  rw [hs] at hread ⊢
  rw [readValue, skipSpace_cons hspace]
  dsimp only
  rw [if_neg (hstart _ (by decide) (by decide)), if_neg (hstart _ (by decide) (by decide)),
    if_neg (hstart _ (by decide) (by decide)), readScalar, if_neg hnull, if_neg htrue,
    if_neg hfalse, hread, Option.map_some]

def wordBool (value : Bool) : Text := if value then wordTrue else wordFalse

theorem reads_bool (value : Bool) : Reads (wordBool value) (.bool value) := by
  intro fuel rest hfuel _
  have hpos : fuel ≠ 0 := by
    rintro rfl
    cases value <;> cases hfuel
  obtain ⟨fuel, rfl⟩ := Nat.exists_eq_succ_of_ne_zero hpos
  cases value with
  | true =>
    change readValue (fuel + 1) (0x74 :: (0x72 :: 0x75 :: 0x65 :: rest)) = _
    rw [readValue, skipSpace_cons (by decide)]
    simp [readScalar, wordNull, wordTrue, List.cons_prefix_cons]
  | false =>
    change readValue (fuel + 1) (0x66 :: (0x61 :: 0x6c :: 0x73 :: 0x65 :: rest)) = _
    rw [readValue, skipSpace_cons (by decide)]
    simp [readScalar, wordNull, wordTrue, wordFalse, List.cons_prefix_cons]

theorem readJson_append {text : Text} {value : Value} (h : Reads text value) {blanks : Text}
    (hblanks : ∀ c ∈ blanks, isSpace c = true) : readJson (text ++ blanks) = some value := by
  have hends : Ends blanks := by
    intro c hc
    have hspace := hblanks c (List.mem_of_mem_head? hc)
    simp only [isSpace, Bool.or_eq_true, decide_eq_true_eq] at hspace
    rcases hspace with ((rfl | rfl) | rfl) | rfl <;> decide
  rw [readJson, h _ blanks (by simp) hends]
  have hskip : skipSpace blanks = [] := by
    rw [skipSpace, ← List.append_nil blanks, List.dropWhile_append_of_pos hblanks]
    rfl
  exact if_pos hskip

end CppSearchServer.Library.Json
