import VolumeStore.Text.Utf8

/-!
# ASCII bytes of a text

A byte below 128 in the encoding of a text is a character of that text. So a separator that a text
does not hold does not turn up among its bytes.
-/

namespace VolumeStore.Text

theorem toNat_of_mem_utf8EncodeChar {b : UInt8} {c : Char} (h : b ∈ String.utf8EncodeChar c)
    (hb : b.toNat < 128) : b.toNat = c.toNat := by
  have hc : c.val.toNat = c.toNat := rfl
  unfold String.utf8EncodeChar at h
  simp only at h
  split at h
  · obtain rfl := List.mem_singleton.1 h
    rw [UInt8.toNat_ofNat']
    omega
  · split at h
    · simp only [List.mem_cons, List.not_mem_nil, or_false] at h
      rcases h with rfl | rfl <;> rw [UInt8.toNat_ofNat'] at hb <;> omega
    · split at h
      · simp only [List.mem_cons, List.not_mem_nil, or_false] at h
        rcases h with rfl | rfl | rfl <;> rw [UInt8.toNat_ofNat'] at hb <;> omega
      · simp only [List.mem_cons, List.not_mem_nil, or_false] at h
        rcases h with rfl | rfl | rfl | rfl <;> rw [UInt8.toNat_ofNat'] at hb <;> omega

theorem mem_toList_of_mem_encode {b : UInt8} {c : Char} {s : String} (hb : b.toNat < 128)
    (hc : c.toNat = b.toNat) (h : b ∈ encode s) : c ∈ s.toList := by
  rw [encode_eq_flatMap] at h
  obtain ⟨c', hmem, hin⟩ := List.mem_flatMap.1 h
  have heq : c' = c := Char.ext (UInt32.toNat_inj.1 (by
    rw [show c'.val.toNat = c'.toNat from rfl, show c.val.toNat = c.toNat from rfl, hc,
      toNat_of_mem_utf8EncodeChar hin hb]))
  exact heq ▸ hmem

end VolumeStore.Text
