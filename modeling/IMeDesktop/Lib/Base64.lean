import IMeDesktop.Lib.Span

/-! # Base64 in the alphabet for urls

Every character stands for six bits, and eight bits are a byte. Characters outside of the
alphabet are skipped, and so are the bits behind the last whole byte.
-/

namespace IMeDesktop.Lib.Base64

/-- The six bits of a character. -/
def urlValue (code : Nat) : Option Nat :=
  if 0x41 ≤ code ∧ code ≤ 0x5A then some (code - 0x41)
  else if 0x61 ≤ code ∧ code ≤ 0x7A then some (code - 0x61 + 26)
  else if 0x30 ≤ code ∧ code ≤ 0x39 then some (code - 0x30 + 52)
  else if code = 0x2D then some 62
  else if code = 0x5F then some 63
  else none

/-- `held` are `count` bits that are not in a byte yet. -/
def pack (held count : Nat) : List Nat → Bytes
  | [] => []
  | value :: rest =>
      if count < 2 then pack (held * 64 + value) (count + 6) rest
      else
        UInt8.ofNat ((held * 64 + value) / 2 ^ (count - 2)) ::
          pack ((held * 64 + value) % 2 ^ (count - 2)) (count - 2) rest

def decodeUrl (data : Bytes) : Bytes := pack 0 0 (data.filterMap fun byte => urlValue byte.toNat)

theorem length_pack (values : List Nat) {held count : Nat} (few : count < 8) :
    (pack held count values).length = (count + 6 * values.length) / 8 := by
  induction values generalizing held count with
  | nil =>
      simp only [pack, List.length_nil]
      omega
  | cons value rest ih =>
      by_cases short : count < 2
      · rw [pack, if_pos short, ih (by omega), List.length_cons]
        omega
      · rw [pack, if_neg short, List.length_cons, ih (by omega), List.length_cons]
        omega

/-- The first byte has the bits of the first character and two of the second. -/
theorem pack_two (first second : Nat) (rest : List Nat) :
    ∃ others, pack 0 0 (first :: second :: rest) = UInt8.ofNat (first * 4 + second / 16) :: others := by
  have bits : (first * 64 + second) / 2 ^ 4 = first * 4 + second / 16 := by omega
  refine ⟨pack ((first * 64 + second) % 2 ^ 4) 4 rest, ?_⟩
  simp only [pack, Nat.zero_mul, Nat.zero_add, if_false, Nat.zero_lt_succ, if_true, bits,
    show ¬ 6 < 2 by decide, Nat.reduceSub]

end IMeDesktop.Lib.Base64
