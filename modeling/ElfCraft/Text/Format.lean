import Mathlib.Data.Nat.Basic

/-!
This module contains the conversions of `printf` that lay out a number or a column of a table, and what
can be read back from a text that is put together of them.
-/

namespace ElfCraft
namespace Text

/--
What `snprintf` leaves of a text in a buffer of `size` characters, the last of which ends it.
-/
def buffered (size : Nat) (text : String) : String := String.ofList (text.toList.take (size - 1))

-- `%-10s` at `width` 10. A longer text is not cut.
def leftAligned (width : Nat) (text : String) : String :=
  text ++ String.ofList (List.replicate (width - text.length) ' ')

theorem buffered_of_lt {size : Nat} {text : String} (h : text.length < size)
    : buffered size text = text := by
  unfold buffered
  rw [List.take_of_length_le (by rw [String.length_toList]; omega), String.ofList_toList]

@[simp]
theorem length_leftAligned (width : Nat) (text : String)
    : (leftAligned width text).length = max width text.length := by
  simp only [leftAligned, String.length_append, String.length_ofList, List.length_replicate]
  omega

section Digits

def digitValue (c : Char) : Nat := if c.toNat < 58 then c.toNat - 48 else c.toNat - 87

-- The number that a text of digits denotes, the first digit is the most significant one.
def ofDigits (b : Nat) (digits : List Char) : Nat :=
  digits.foldl (fun n c => b * n + digitValue c) 0

theorem digitValue_digitChar : ∀ d < 16, digitValue (Nat.digitChar d) = d := by
  decide

theorem ofDigits_toDigits {b : Nat} (hb : 1 < b) (hb' : b ≤ 16) (n : Nat)
    : ofDigits b (Nat.toDigits b n) = n := by
  induction n using Nat.base_induction b hb with
  | single d hd =>
    simp [Nat.toDigits_of_lt_base hd, ofDigits, digitValue_digitChar d (by omega)]
  | digit n d hd hn ih =>
    rw [← Nat.toDigits_append_toDigits hb hn hd, Nat.toDigits_of_lt_base hd]
    unfold ofDigits at ih ⊢
    rw [List.foldl_append, ih]
    simp [digitValue_digitChar d (by omega)]

theorem toDigits_injective {b n m : Nat} (hb : 1 < b) (hb' : b ≤ 16)
    (h : Nat.toDigits b n = Nat.toDigits b m)
    : n = m := by
  rw [← ofDigits_toDigits hb hb' n, h, ofDigits_toDigits hb hb' m]

theorem mem_toDigits {b n : Nat} {c : Char} (hb : 1 < b) (hb' : b ≤ 16) (h : c ∈ Nat.toDigits b n)
    : c ∈ "0123456789abcdef".toList := by
  have digit : ∀ d < 16, Nat.digitChar d ∈ "0123456789abcdef".toList := by
    decide
  induction n using Nat.base_induction b hb with
  | single d hd =>
    rw [Nat.toDigits_of_lt_base hd, List.mem_singleton] at h
    rw [h]
    apply digit
    omega
  | digit n d hd hn ih =>
    rw [← Nat.toDigits_append_toDigits hb hn hd, Nat.toDigits_of_lt_base hd, List.mem_append,
      List.mem_singleton] at h
    cases h with
    | inl h => apply ih h
    | inr h =>
      rw [h]
      apply digit
      omega

end Digits

section Token

/-
A text whose fields do not hold the character behind them can be read from its front, field by field.
-/

def Free (c : Char) (text : String) : Prop := c ∉ text.toList

def Starts (c : Char) (text : String) : Prop := text.toList.head? = some c

instance (c : Char) (text : String) : Decidable (Free c text) := inferInstanceAs (Decidable (c ∉ text.toList))

instance (c : Char) (text : String) : Decidable (Starts c text) :=
  inferInstanceAs (Decidable (text.toList.head? = some c))

theorem Starts.append {c : Char} {text : String} (h : Starts c text) (rest : String)
    : Starts c (text ++ rest) := by
  unfold Starts at h ⊢
  rw [String.toList_append, List.head?_append, h]
  rfl

theorem cons_token_inj {a b x y : List Char} {c : Char} (ha : c ∉ a) (hb : c ∉ b)
    (h : a ++ c :: x = b ++ c :: y)
    : a = b ∧ x = y := by
  induction a generalizing b with
  | nil =>
    cases b with
    | nil => simpa using h
    | cons d b =>
      simp only [List.nil_append, List.cons_append, List.cons.injEq] at h
      simp [h.1] at hb
  | cons d a ih =>
    cases b with
    | nil =>
      simp only [List.nil_append, List.cons_append, List.cons.injEq] at h
      simp [h.1] at ha
    | cons e b =>
      simp only [List.cons_append, List.cons.injEq] at h
      simp only [List.mem_cons, not_or] at ha hb
      have := ih ha.2 hb.2 h.2
      simp [h.1, this]

theorem token_inj {a b x y : String} {c : Char} (ha : Free c a) (hb : Free c b) (hx : Starts c x)
    (hy : Starts c y) (h : a ++ x = b ++ y)
    : a = b ∧ x = y := by
  have ⟨xs, hxs⟩ := List.head?_eq_some_iff.mp hx
  have ⟨ys, hys⟩ := List.head?_eq_some_iff.mp hy
  have hlist := congrArg String.toList h
  rw [String.toList_append, String.toList_append, hxs, hys] at hlist
  have := cons_token_inj ha hb hlist
  constructor
  . rw [← String.toList_inj]
    apply this.1
  . rw [← String.toList_inj, hxs, hys, this.2]

/--
The columns of a row: what fills a field up is the character that ends it.
-/
theorem leftAligned_inj {width : Nat} {a b x y : String} (ha : Free ' ' a) (hb : Free ' ' b)
    (hx : Starts ' ' x) (hy : Starts ' ' y) (h : leftAligned width a ++ x = leftAligned width b ++ y)
    : a = b ∧ x = y := by
  have filled (n : Nat) (z : String) (hz : Starts ' ' z)
      : Starts ' ' (String.ofList (List.replicate n ' ') ++ z) := by
    cases n with
    | zero => simpa [Starts] using hz
    | succ n => simp [Starts, List.replicate_succ]
  unfold leftAligned at h
  rw [String.append_assoc, String.append_assoc] at h
  have ⟨hab, hxy⟩ := token_inj ha hb (filled _ _ hx) (filled _ _ hy) h
  subst hab
  constructor
  . rfl
  . exact (String.append_right_inj _).mp hxy

end Token

end Text
end ElfCraft
