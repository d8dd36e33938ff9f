import VolumeStore.Proofs.Text.Ascii
import VolumeStore.Text.Blank

/-!
# Text that is cut off

The first bytes of a text are a text themselves exactly when the cut falls between two of its
characters, and then they are the characters in front of the cut.
-/

namespace VolumeStore.Text

/-! ## Lengths and prefixes -/

theorem byteLength_eq_zero {cs : List Char} (h : byteLength cs = 0) : cs = [] := by
  cases cs with
  | nil => rfl
  | cons c cs =>
    have hc := c.utf8Size_pos
    rw [byteLength_cons] at h
    omega

theorem byteLength_le_of_isPrefix {a b : List Char} (h : a <+: b) :
    byteLength a ≤ byteLength b := by
  obtain ⟨more, rfl⟩ := h
  rw [byteLength_append]
  exact Nat.le_add_right _ _

theorem dropTrailing_isPrefix (p : Char → Bool) (cs : List Char) : dropTrailing p cs <+: cs := by
  have h : (cs.reverse.dropWhile p).reverse <+: cs.reverse.reverse :=
    List.reverse_prefix.2 (List.dropWhile_suffix p)
  rwa [List.reverse_reverse] at h

theorem isPrefix_of_byteLength_le {cs a b : List Char} (ha : a <+: cs) (hb : b <+: cs)
    (h : byteLength a ≤ byteLength b) : a <+: b := by
  rcases List.prefix_or_prefix_of_prefix ha hb with hab | ⟨more, rfl⟩
  · exact hab
  · rw [byteLength_append] at h
    have hmore : more = [] := byteLength_eq_zero (by omega)
    simp [hmore]

theorem dropBytes?_eq_some_iff {n : Nat} {cs back : List Char} :
    dropBytes? n cs = some back ↔ ∃ front, cs = front ++ back ∧ byteLength front = n := by
  constructor
  · intro h
    fun_induction dropBytes? n cs with
    | case1 cs => exact ⟨[], Option.some.inj h, rfl⟩
    | case2 n => exact absurd h (by simp)
    | case3 n c cs hc ih =>
      obtain ⟨front, rfl, hlen⟩ := ih h
      exact ⟨c :: front, rfl, by rw [byteLength_cons, hlen]; omega⟩
    | case4 n c cs hc => exact absurd h (by simp)
  · rintro ⟨front, rfl, rfl⟩
    induction front with
    | nil => simp [dropBytes?]
    | cons c front ih =>
      obtain ⟨k, hk⟩ : ∃ k, c.utf8Size + byteLength front = k + 1 :=
        ⟨c.utf8Size + byteLength front - 1, by have := c.utf8Size_pos; omega⟩
      rw [byteLength_cons, hk, List.cons_append, dropBytes?, if_pos (by omega), ← hk,
        Nat.add_sub_cancel_left, ih]

/-! ## Bytes and prefixes -/

theorem utf8EncodeChar_append_inj {c d : Char} {x y : List UInt8}
    (h : String.utf8EncodeChar c ++ x = String.utf8EncodeChar d ++ y) : c = d ∧ x = y := by
  have hdecode : ∀ (e : Char) (z : List UInt8),
      ByteArray.utf8DecodeChar? (String.utf8EncodeChar e ++ z).toByteArray 0 = some e := by
    intro e z
    rw [List.toByteArray_append, ByteArray.utf8DecodeChar?_utf8EncodeChar_append]
  have hcd : c = d := by
    have := hdecode c x
    rw [h, hdecode d y] at this
    exact (Option.some.inj this).symm
  subst hcd
  exact ⟨rfl, List.append_cancel_left h⟩

theorem isPrefix_of_encode_isPrefix {s t : String} (h : encode s <+: encode t) :
    s.toList <+: t.toList := by
  obtain ⟨more, h⟩ := h
  rw [encode_eq_flatMap, encode_eq_flatMap] at h
  generalize s.toList = cs at h ⊢
  generalize t.toList = ds at h ⊢
  induction cs generalizing ds with
  | nil => exact List.nil_prefix
  | cons c cs ih =>
    cases ds with
    | nil =>
      have hc := c.utf8Size_pos
      have hlen := congrArg List.length h
      simp only [List.flatMap_cons, List.length_append, String.length_utf8EncodeChar,
        List.flatMap_nil, List.length_nil] at hlen
      omega
    | cons d ds =>
      simp only [List.flatMap_cons, List.append_assoc] at h
      obtain ⟨rfl, hrest⟩ := utf8EncodeChar_append_inj h
      exact List.cons_prefix_cons.2 ⟨rfl, ih ds hrest⟩

theorem isPrefix_of_decode? {s p : String} {n : Nat} (h : decode? ((encode s).take n) = some p) :
    p.toList <+: s.toList := by
  have hp := eq_encode_of_decode? h
  exact isPrefix_of_encode_isPrefix (hp ▸ List.take_prefix _ _)

theorem isSome_decode?_take_iff {s : String} {n : Nat} (hn : n ≤ (encode s).length) :
    (decode? ((encode s).take n)).isSome ↔ (dropBytes? n s.toList).isSome := by
  rw [Option.isSome_iff_exists, Option.isSome_iff_exists]
  constructor
  · rintro ⟨p, hp⟩
    obtain ⟨back, hback⟩ := isPrefix_of_decode? hp
    have hlen : byteLength p.toList = n := by
      rw [← length_encode, ← eq_encode_of_decode? hp, List.length_take, Nat.min_eq_left hn]
    exact ⟨back, dropBytes?_eq_some_iff.2 ⟨p.toList, hback.symm, hlen⟩⟩
  · rintro ⟨back, hback⟩
    obtain ⟨front, hs, hlen⟩ := dropBytes?_eq_some_iff.1 hback
    refine ⟨String.ofList front, decode?_eq_some_iff.2 ?_⟩
    have hs' : s = String.ofList front ++ String.ofList back := by
      rw [← String.ofList_append, ← hs, String.ofList_toList]
    have hfront : (encode (String.ofList front)).length = n := by
      rw [length_encode, String.toList_ofList, hlen]
    rw [hs', encode_append, ← hfront, List.take_left]

end VolumeStore.Text
