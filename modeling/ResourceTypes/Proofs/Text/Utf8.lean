import Mathlib.Data.List.Basic
import ResourceTypes.Text.Utf8

/-! # Decoding bytes

What stands in front of bytes shows as one character, a replacement where they begin none, and the
other bytes are decoded after it (`decodeLossy_cons`).  An ASCII byte is no continuation, so that
it ends a character that is cut short (`lead_append_ascii`): bytes around it are decoded each on
their own (`decodeLossy_append_ascii`).

The bytes of a character are what `lead` takes for it (`lead_encodeChar`), so that an encoded text
is decoded to itself (`decodeLossy_encode`). -/

namespace ResourceTypes.Text

/-! ### One character after the other -/

namespace Lead

/-- The number of bytes. -/
def size : Lead → Nat
  | .char _ size | .broken size => size

/-- The character that the bytes show as. -/
def shown : Lead → Char
  | .char c _ => c
  | .broken _ => '\uFFFD'

end Lead

theorem decodeLossyFrom_cons (b : UInt8) (rest : List UInt8) (done : List Char) :
    decodeLossyFrom (b :: rest) 0 done =
      decodeLossyFrom rest ((lead b rest).size - 1) ((lead b rest).shown :: done) := by
  rw [decodeLossyFrom]
  cases lead b rest <;> rfl

theorem decodeLossyFrom_eq (bytes : List UInt8) (skip : Nat) (done : List Char) :
    decodeLossyFrom bytes skip done = done.reverse ++ decodeLossy (bytes.drop skip) := by
  induction bytes generalizing skip done with
  | nil => simp [decodeLossyFrom, decodeLossy]
  | cons b rest ih =>
      cases skip with
      | zero =>
          rw [List.drop_zero, decodeLossy, decodeLossyFrom_cons, decodeLossyFrom_cons, ih,
            ih _ [_], List.reverse_cons, List.append_assoc, List.reverse_singleton]
      | succ skip => rw [decodeLossyFrom, ih, List.drop_succ_cons]

/-- What stands in front shows as one character, and the bytes behind it are decoded next. -/
theorem decodeLossy_cons (b : UInt8) (rest : List UInt8) :
    decodeLossy (b :: rest) =
      (lead b rest).shown :: decodeLossy (rest.drop ((lead b rest).size - 1)) := by
  rw [decodeLossy, decodeLossyFrom_cons, decodeLossyFrom_eq]
  rfl

/-! ### Bytes around an ASCII byte -/

section ascii

variable {c : UInt8}

theorem tail?_ascii (hc : c.toNat < 0x80) {low : Nat} (hlow : 0x80 ≤ low) (high : Nat) :
    tail? low high c = none := by
  have below : Nat.ble low c.toNat = false := by
    rw [← Bool.not_eq_true, Nat.ble_eq]
    omega
  rw [tail?, below, Bool.false_and, if_neg Bool.false_ne_true]

theorem lead_ascii (hc : c.toNat < 0x80) (rest : List UInt8) :
    lead c rest = .char (Char.ofNat c.toNat) 1 := by
  rw [lead, if_pos hc]

theorem leadLast_append_ascii (hc : c.toNat < 0x80) (value size : Nat) (rest more : List UInt8) :
    leadLast value size (rest ++ c :: more) = leadLast value size rest := by
  cases rest with
  | nil => rw [List.nil_append, leadLast, leadLast, tail?_ascii hc (Nat.le_refl _)]
  | cons b rest => rfl

theorem leadTwo_append_ascii (hc : c.toNat < 0x80) (value size : Nat) {low : Nat}
    (hlow : 0x80 ≤ low) (high : Nat) (rest more : List UInt8) :
    leadTwo value size low high (rest ++ c :: more) = leadTwo value size low high rest := by
  cases rest with
  | nil => rw [List.nil_append, leadTwo, leadTwo, tail?_ascii hc hlow]
  | cons b rest =>
      rw [List.cons_append, leadTwo, leadTwo]
      cases tail? low high b with
      | none => rfl
      | some t => exact leadLast_append_ascii hc _ _ rest more

theorem leadThree_append_ascii (hc : c.toNat < 0x80) (value : Nat) {low : Nat} (hlow : 0x80 ≤ low)
    (high : Nat) (rest more : List UInt8) :
    leadThree value low high (rest ++ c :: more) = leadThree value low high rest := by
  cases rest with
  | nil => rw [List.nil_append, leadThree, leadThree, tail?_ascii hc hlow]
  | cons b rest =>
      rw [List.cons_append, leadThree, leadThree]
      cases tail? low high b with
      | none => rfl
      | some t => exact leadTwo_append_ascii hc _ _ (Nat.le_refl _) _ rest more

/-- An ASCII byte and what stands behind it belong to no character that begins before. -/
theorem lead_append_ascii (hc : c.toNat < 0x80) (b : UInt8) (rest more : List UInt8) :
    lead b (rest ++ c :: more) = lead b rest := by
  unfold lead
  dsimp only
  rw [leadLast_append_ascii hc, leadTwo_append_ascii hc _ _ (by omega),
    leadTwo_append_ascii hc _ _ (by omega), leadTwo_append_ascii hc _ _ (by omega),
    leadThree_append_ascii hc _ (by omega), leadThree_append_ascii hc _ (by omega),
    leadThree_append_ascii hc _ (by omega)]

end ascii

theorem size_leadLast_le (value size : Nat) (rest : List UInt8) :
    (leadLast value size rest).size ≤ size + rest.length := by
  cases rest with
  | nil => exact Nat.le_refl size
  | cons b rest =>
      rw [leadLast, List.length_cons]
      cases tail? 0x80 0xBF b with
      | none => exact Nat.le_add_right size _
      | some t =>
          show size + 1 ≤ _
          omega

theorem size_leadTwo_le (value size low high : Nat) (rest : List UInt8) :
    (leadTwo value size low high rest).size ≤ size + rest.length := by
  cases rest with
  | nil => exact Nat.le_refl size
  | cons b rest =>
      rw [leadTwo, List.length_cons]
      cases tail? low high b with
      | none => exact Nat.le_add_right size _
      | some t =>
          have later := size_leadLast_le (value * 64 + t) (size + 1) rest
          dsimp only
          omega

theorem size_leadThree_le (value low high : Nat) (rest : List UInt8) :
    (leadThree value low high rest).size ≤ 1 + rest.length := by
  cases rest with
  | nil => exact Nat.le_refl 1
  | cons b rest =>
      rw [leadThree, List.length_cons]
      cases tail? low high b with
      | none => exact Nat.le_add_right 1 _
      | some t =>
          have later := size_leadTwo_le (value * 64 + t) 2 0x80 0xBF rest
          dsimp only
          omega

theorem size_lead_le (b : UInt8) (rest : List UInt8) : (lead b rest).size ≤ 1 + rest.length := by
  have either {p : Prop} [Decidable p] {x y : Lead} (hx : x.size ≤ 1 + rest.length)
      (hy : y.size ≤ 1 + rest.length) : (if p then x else y).size ≤ 1 + rest.length := by
    split
    · exact hx
    · exact hy
  have one (c : Char) : (Lead.char c 1).size ≤ 1 + rest.length := Nat.le_add_right 1 _
  have broken : (Lead.broken 1).size ≤ 1 + rest.length := Nat.le_add_right 1 _
  have two (value low high : Nat) := size_leadTwo_le value 1 low high rest
  have three (value low high : Nat) := size_leadThree_le value low high rest
  exact either (one _) <| either broken <| either (size_leadLast_le _ 1 rest) <|
    either (two 0 _ _) <| either (two 0xD _ _) <| either (two _ _ _) <|
    either (three 0 _ _) <| either (three _ _ _) <| either (three 4 _ _) broken

/-- Bytes around an ASCII byte are decoded each on their own, also where a character is cut short
before it. -/
theorem decodeLossy_append_ascii {c : UInt8} (hc : c.toNat < 0x80) (bytes more : List UInt8) :
    decodeLossy (bytes ++ c :: more) =
      decodeLossy bytes ++ Char.ofNat c.toNat :: decodeLossy more := by
  -- The bytes become fewer with every character that is decoded.
  induction hn : bytes.length using Nat.strongRecOn generalizing bytes with
  | ind n ih =>
      cases bytes with
      | nil => rw [List.nil_append, decodeLossy_cons, lead_ascii hc]; rfl
      | cons b rest =>
          have short : (lead b rest).size - 1 ≤ rest.length := by
            have bound := size_lead_le b rest
            omega
          have fewer : (rest.drop ((lead b rest).size - 1)).length < n := by
            rw [List.length_drop, ← hn, List.length_cons]
            omega
          rw [List.cons_append, decodeLossy_cons, decodeLossy_cons, lead_append_ascii hc,
            List.drop_append_of_le_length short, ih _ fewer _ rfl, List.cons_append]

/-- A character of three bytes that is cut short after two. -/
example : decodeLossy ([0xE2, 0x82] ++ 10 :: [0xAC, 0x41]) = "\uFFFD\n\uFFFDA".toList := by decide

/-! ### Encoded texts -/

/-- The continuation byte that holds six bits. -/
def tailByte (bits : Nat) : UInt8 := UInt8.ofNat (bits % 64 + 0x80)

theorem toNat_ofNat_of_lt {n : Nat} (h : n < 256) : (UInt8.ofNat n).toNat = n := by
  rw [UInt8.toNat_ofNat']
  exact Nat.mod_eq_of_lt h

theorem tail?_tailByte {low high bits : Nat} (hlow : low ≤ bits % 64 + 0x80)
    (hhigh : bits % 64 + 0x80 ≤ high) : tail? low high (tailByte bits) = some (bits % 64) := by
  have value : (tailByte bits).toNat = bits % 64 + 0x80 := toNat_ofNat_of_lt (by omega)
  rw [tail?, value, Nat.ble_eq_true_of_le hlow, Nat.ble_eq_true_of_le hhigh, Bool.and_self,
    if_pos rfl, Nat.add_sub_cancel]

theorem leadLast_tailByte (value size bits : Nat) (rest : List UInt8) :
    leadLast value size (tailByte bits :: rest) =
      .char (Char.ofNat (value * 64 + bits % 64)) (size + 1) := by
  rw [leadLast, tail?_tailByte (by omega) (by omega)]

theorem leadTwo_tailByte (value size : Nat) {low high bits : Nat} (hlow : low ≤ bits % 64 + 0x80)
    (hhigh : bits % 64 + 0x80 ≤ high) (bits' : Nat) (rest : List UInt8) :
    leadTwo value size low high (tailByte bits :: tailByte bits' :: rest) =
      .char (Char.ofNat ((value * 64 + bits % 64) * 64 + bits' % 64)) (size + 2) := by
  rw [leadTwo, tail?_tailByte hlow hhigh]
  exact leadLast_tailByte _ _ _ _

theorem leadThree_tailByte (value : Nat) {low high bits : Nat} (hlow : low ≤ bits % 64 + 0x80)
    (hhigh : bits % 64 + 0x80 ≤ high) (bits' bits'' : Nat) (rest : List UInt8) :
    leadThree value low high (tailByte bits :: tailByte bits' :: tailByte bits'' :: rest) =
      .char (Char.ofNat (((value * 64 + bits % 64) * 64 + bits' % 64) * 64 + bits'' % 64)) 4 := by
  rw [leadThree, tail?_tailByte hlow hhigh]
  exact leadTwo_tailByte _ _ (by omega) (by omega) _ _

theorem lead_ofNat_two {n : Nat} (hlow : 0xC2 ≤ n) (hhigh : n < 0xE0) (rest : List UInt8) :
    lead (UInt8.ofNat n) rest = leadLast (n - 0xC0) 1 rest := by
  have value : (UInt8.ofNat n).toNat = n := toNat_ofNat_of_lt (by omega)
  rw [lead, value, if_neg (by omega), if_neg (by omega), if_pos hhigh]

/-- The first byte of three leaves fewer second bytes where it is the first or the last but two. -/
theorem lead_ofNat_three {n : Nat} (hlow : 0xE0 ≤ n) (hhigh : n < 0xF0) (rest : List UInt8) :
    lead (UInt8.ofNat n) rest =
      leadTwo (n - 0xE0) 1 (if n = 0xE0 then 0xA0 else 0x80) (if n = 0xED then 0x9F else 0xBF)
        rest := by
  have value : (UInt8.ofNat n).toNat = n := toNat_ofNat_of_lt (by omega)
  rw [lead, value, if_neg (by omega), if_neg (by omega), if_neg (by omega)]
  by_cases first : n = 0xE0
  · subst n
    rfl
  rw [if_neg first, if_neg first]
  by_cases surrogates : n = 0xED
  · subst n
    rfl
  rw [if_neg surrogates, if_neg surrogates, if_pos hhigh]

/-- The first byte of four leaves fewer second bytes where it is the first or the last. -/
theorem lead_ofNat_four {n : Nat} (hlow : 0xF0 ≤ n) (hhigh : n < 0xF5) (rest : List UInt8) :
    lead (UInt8.ofNat n) rest =
      leadThree (n - 0xF0) (if n = 0xF0 then 0x90 else 0x80) (if n = 0xF4 then 0x8F else 0xBF)
        rest := by
  have value : (UInt8.ofNat n).toNat = n := toNat_ofNat_of_lt (by omega)
  rw [lead, value, if_neg (by omega), if_neg (by omega), if_neg (by omega), if_neg (by omega),
    if_neg (by omega), if_neg (by omega)]
  by_cases first : n = 0xF0
  · subst n
    rfl
  rw [if_neg first, if_neg first]
  by_cases last : n = 0xF4
  · subst n
    rfl
  rw [if_neg last, if_neg last, if_pos (by omega)]

/-- The bytes of a character stand in front of all that follows them. -/
theorem lead_encodeChar (c : Char) :
    ∃ b tail, String.utf8EncodeChar c = b :: tail ∧
      ∀ rest, lead b (tail ++ rest) = .char c (tail.length + 1) := by
  have valid : c.val.toNat < 0xD800 ∨ 0xDFFF < c.val.toNat ∧ c.val.toNat < 0x110000 := c.valid
  have whole : Char.ofNat c.val.toNat = c := Char.ofNat_toNat c
  rw [String.utf8EncodeChar]
  generalize c.val.toNat = v at valid whole
  split_ifs with one two three
  · refine ⟨_, [], rfl, fun rest => ?_⟩
    have value : (UInt8.ofNat v).toNat = v := toNat_ofNat_of_lt (by omega)
    rw [lead_ascii (by omega), value, whole]
    rfl
  · refine ⟨_, [tailByte v], rfl, fun rest => ?_⟩
    have bits : (v / 64 % 32 + 192 - 0xC0) * 64 + v % 64 = v := by omega
    rw [lead_ofNat_two (by omega) (by omega), List.singleton_append, leadLast_tailByte, bits, whole]
    rfl
  · refine ⟨_, [tailByte (v / 64), tailByte v], rfl, fun rest => ?_⟩
    have bits : ((v / 4096 % 16 + 224 - 0xE0) * 64 + v / 64 % 64) * 64 + v % 64 = v := by omega
    rw [lead_ofNat_three (by omega) (by omega), List.cons_append, List.singleton_append,
      leadTwo_tailByte _ _ (by split_ifs <;> omega) (by split_ifs <;> omega), bits, whole]
    rfl
  · refine ⟨_, [tailByte (v / 4096), tailByte (v / 64), tailByte v], rfl, fun rest => ?_⟩
    have bits : (((v / 262144 % 8 + 240 - 0xF0) * 64 + v / 4096 % 64) * 64 + v / 64 % 64) * 64 +
        v % 64 = v := by omega
    rw [lead_ofNat_four (by omega) (by omega), List.cons_append, List.cons_append,
      List.singleton_append, leadThree_tailByte _ (by split_ifs <;> omega)
        (by split_ifs <;> omega), bits, whole]
    rfl

/-- An encoded text is decoded to itself. -/
theorem decodeLossy_encode (s : List Char) : decodeLossy (encode s) = s := by
  induction s with
  | nil => rfl
  | cons c s ih =>
      obtain ⟨b, tail, bytes, front⟩ := lead_encodeChar c
      rw [encode, List.flatMap_cons, bytes, List.cons_append, decodeLossy_cons, front]
      simp only [Lead.size, Lead.shown, Nat.add_sub_cancel]
      rw [List.drop_left]
      exact congrArg (c :: ·) ih

end ResourceTypes.Text
