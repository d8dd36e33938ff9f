import Mathlib.Data.String.Basic
import Mathlib.Data.UInt
import VolumeStore.Proofs.Text.Ascii

/-!
# The order of texts

Texts stand in the order of their bytes: UTF-8 gives a greater character greater bytes.
-/

namespace VolumeStore.Text

theorem cons_ofNat_lt_iff {a b : Nat} (ha : a < 256) (hb : b < 256) (x y : List UInt8) :
    UInt8.ofNat a :: x < UInt8.ofNat b :: y ↔ a < b ∨ a = b ∧ x < y := by
  have hbytes : UInt8.ofNat a = UInt8.ofNat b ↔ a = b := by
    rw [← UInt8.toNat_inj, UInt8.toNat_ofNat_of_lt' ha, UInt8.toNat_ofNat_of_lt' hb]
  rw [List.cons_lt_cons_iff, UInt8.lt_iff_toNat_lt, UInt8.toNat_ofNat_of_lt' ha,
    UInt8.toNat_ofNat_of_lt' hb, hbytes]

theorem toNat_lt_of_char (c : Char) : c.val.toNat < 0x110000 := by
  have hvalid : c.val.toNat < 0xd800 ∨ 0xdfff < c.val.toNat ∧ c.val.toNat < 0x110000 := c.valid
  omega

theorem utf8EncodeChar_append_lt {c d : Char} (h : c < d) (x y : List UInt8) :
    String.utf8EncodeChar c ++ x < String.utf8EncodeChar d ++ y := by
  have hlt : c.val.toNat < d.val.toNat := h
  have hc := toNat_lt_of_char c
  have hd := toNat_lt_of_char d
  unfold String.utf8EncodeChar
  dsimp only
  generalize c.val.toNat = m at hlt hc ⊢
  generalize d.val.toNat = n at hlt hd ⊢
  -- The bytes are the digits to base 64.
  have htwo (k : Nat) : k / 4096 = k / 64 / 64 := (Nat.div_div_eq_div_mul k 64 64).symm
  have hthree (k : Nat) : k / 262144 = k / 64 / 64 / 64 := by
    rw [Nat.div_div_eq_div_mul, Nat.div_div_eq_div_mul]
  rw [htwo, htwo, hthree, hthree]
  -- By the numbers of bytes: a longer encoding begins with a greater byte.
  split_ifs
  all_goals
    simp only [List.cons_append, List.nil_append]
    simp (disch := omega) only [cons_ofNat_lt_iff]
    omega

theorem flatMap_lt_of_lt {cs ds : List Char} (h : cs < ds) :
    cs.flatMap String.utf8EncodeChar < ds.flatMap String.utf8EncodeChar := by
  induction h with
  | nil =>
    obtain ⟨b, bs, hbytes⟩ := List.exists_cons_of_ne_nil String.utf8EncodeChar_ne_nil
    rw [List.flatMap_nil, List.flatMap_cons, hbytes]
    exact List.nil_lt_cons _ _
  | cons _ ih =>
    rw [List.flatMap_cons, List.flatMap_cons]
    exact List.append_left_lt ih
  | rel hlt =>
    rw [List.flatMap_cons, List.flatMap_cons]
    exact utf8EncodeChar_append_lt hlt _ _

theorem encode_lt_encode_iff {s t : String} : encode s < encode t ↔ s < t := by
  have hencode {s t : String} (h : s < t) : encode s < encode t := by
    rw [encode_eq_flatMap, encode_eq_flatMap]
    exact flatMap_lt_of_lt h
  refine ⟨fun h => ?_, hencode⟩
  obtain hlt | rfl | hgt := lt_trichotomy s t
  · exact hlt
  · exact absurd h (List.lt_irrefl _)
  · exact absurd (hencode hgt) (List.lt_asymm h)

end VolumeStore.Text
