/-
  The order of texts is that of their bytes.

  The bytes of a character are its number in base 64, the digits from the second on marked as
  following bytes, and the first digit marked by how many follow.  More bytes follow where the
  number is larger, and the mark of the first byte grows with them.  So of two different
  characters the one with the smaller number has the smaller bytes, whatever comes behind, and
  comparing texts character by character is comparing them byte by byte.
-/
import Mathlib.Algebra.GroupWithZero.Nat
import Verbatim.Proofs.PathOrder

set_option autoImplicit false

namespace Verbatim.Text

/-- The bytes of the UTF-8 form. -/
def bytes (t : Text) : List UInt8 :=
  t.flatMap String.utf8EncodeChar

@[simp] theorem bytes_nil : bytes [] = [] := rfl

@[simp] theorem bytes_cons (c : Char) (rest : Text) :
    bytes (c :: rest) = String.utf8EncodeChar c ++ bytes rest := rfl

/-! ## Bytes of one character -/

/-- The larger first byte decides, and equal ones leave it to what follows. -/
theorem cons_lt_cons {a b : Nat} {as bs : List UInt8} (hle : a ≤ b) (hb : b < UInt8.size)
    (h : a = b → as < bs) : UInt8.ofNat a :: as < UInt8.ofNat b :: bs := by
  rcases Nat.lt_or_eq_of_le hle with hlt | rfl
  · refine List.Lex.rel (UInt8.lt_iff_toNat_lt.mpr ?_)
    rwa [UInt8.toNat_ofNat_of_lt' (Nat.lt_trans hlt hb), UInt8.toNat_ofNat_of_lt' hb]
  · exact List.Lex.cons (h rfl)

/-- The last digits of a number in base 64, as following bytes. -/
def following : Nat → Nat → List UInt8
  | 0, _ => []
  | n + 1, v => UInt8.ofNat (v / 64 ^ n % 64 + 128) :: following n v

/-- Of two numbers with the same digits in front, the smaller one has the smaller last digits. -/
theorem following_lt {v w n : Nat} (hlt : v < w) (hfront : v / 64 ^ n = w / 64 ^ n)
    (xs ys : List UInt8) : following n v ++ xs < following n w ++ ys := by
  induction n with
  | zero =>
      rw [Nat.pow_zero, Nat.div_one, Nat.div_one] at hfront
      exact absurd hfront (Nat.ne_of_lt hlt)
  | succ n ih =>
      have hle : v / 64 ^ n ≤ w / 64 ^ n := Nat.div_le_div_right (Nat.le_of_lt hlt)
      rw [Nat.pow_succ, ← Nat.div_div_eq_div_mul, ← Nat.div_div_eq_div_mul] at hfront
      have hsize : UInt8.size = 256 := rfl
      rw [following, following, List.cons_append, List.cons_append]
      exact cons_lt_cons (by omega) (by omega) fun heq => ih (by omega)

/-- How many bytes follow the first one of a character with a number, and the first one. -/
inductive FirstByte (v : Nat) : Nat → Nat → Prop where
  | alone : v < 128 → FirstByte v 0 v
  | ofTwo : 128 ≤ v → v < 2048 → FirstByte v 1 (v / 64 + 192)
  | ofThree : 2048 ≤ v → v < 65536 → FirstByte v 2 (v / 4096 + 224)
  | ofFour : 65536 ≤ v → v < 1114112 → FirstByte v 3 (v / 262144 + 240)

theorem exists_firstByte (c : Char) :
    ∃ n first, FirstByte c.toNat n first ∧
      String.utf8EncodeChar c = UInt8.ofNat first :: following n c.toNat := by
  have hlimit : c.toNat < 1114112 := by
    have hvalid : c.toNat < 55296 ∨ 57343 < c.toNat ∧ c.toNat < 1114112 := c.valid
    omega
  rw [String.utf8EncodeChar, show c.val.toNat = c.toNat from rfl]
  generalize c.toNat = v at hlimit
  split
  · exact ⟨0, _, .alone (by omega), rfl⟩
  split
  · refine ⟨1, _, .ofTwo (by omega) (by omega), ?_⟩
    rw [Nat.mod_eq_of_lt (show v / 64 < 32 by omega)]
    simp [following]
  split
  · refine ⟨2, _, .ofThree (by omega) (by omega), ?_⟩
    rw [Nat.mod_eq_of_lt (show v / 4096 < 16 by omega)]
    simp [following]
  · refine ⟨3, _, .ofFour (by omega) hlimit, ?_⟩
    rw [Nat.mod_eq_of_lt (show v / 262144 < 8 by omega)]
    simp [following]

/-- The first bytes of two characters decide between them, unless they are equal; then as many
bytes follow, and the digits in the first bytes are the same. -/
theorem FirstByte.compare {v w n m a b : Nat} (h : FirstByte v n a) (h' : FirstByte w m b)
    (hlt : v < w) : a ≤ b ∧ b < UInt8.size ∧ (a = b → n = m ∧ v / 64 ^ n = w / 64 ^ n) := by
  have hsize : UInt8.size = 256 := rfl
  cases h <;> cases h' <;> exact ⟨by omega, by omega, fun heq => ⟨by omega, by omega⟩⟩

/-- A character with a smaller number has smaller bytes, whatever comes behind. -/
theorem utf8EncodeChar_lt {c d : Char} (h : c.toNat < d.toNat) (xs ys : List UInt8) :
    String.utf8EncodeChar c ++ xs < String.utf8EncodeChar d ++ ys := by
  obtain ⟨n, a, hc, hcs⟩ := exists_firstByte c
  obtain ⟨m, b, hd, hds⟩ := exists_firstByte d
  obtain ⟨hle, hb, hequal⟩ := hc.compare hd h
  rw [hcs, hds, List.cons_append, List.cons_append]
  refine cons_lt_cons hle hb fun heq => ?_
  obtain ⟨rfl, hfront⟩ := hequal heq
  exact following_lt h hfront xs ys

/-! ## Texts -/

/-- A text that comes before another one has smaller bytes. -/
theorem bytes_lt_of_before {s t : Text} (h : before s t = true) : s.bytes < t.bytes := by
  fun_induction before s t with
  | case1 s => cases h
  | case2 d t =>
      obtain ⟨n, first, _, hd⟩ := exists_firstByte d
      rw [bytes_nil, bytes_cons, hd]
      exact List.nil_lt_cons _ _
  | case3 c s t ih =>
      rw [bytes_cons, bytes_cons]
      exact List.append_left_lt (ih h)
  | case4 c s d t hne =>
      rw [bytes_cons, bytes_cons]
      exact utf8EncodeChar_lt (of_decide_eq_true h) _ _

/-- A text comes before another one exactly if its bytes do. -/
theorem before_iff_bytes_lt (s t : Text) : before s t = true ↔ s.bytes < t.bytes := by
  refine ⟨bytes_lt_of_before, fun hlt => ?_⟩
  cases hst : before s t with
  | true => rfl
  | false =>
      -- Of the two, one comes first, or they are equal, and the bytes are not smaller then.
      cases hts : before t s with
      | true => exact absurd (bytes_lt_of_before hts) (List.lt_asymm hlt)
      | false =>
          rw [eq_of_not_before hst hts] at hlt
          exact absurd hlt (List.lt_irrefl _)

end Verbatim.Text
