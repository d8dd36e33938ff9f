/-!
# Text as bytes

The UTF-8 form of a text and the two ways back: `decode?` accepts exactly the encodings of texts,
`decodeLossy` reads any bytes and shows each longest piece that cannot be part of an encoding as the
replacement character.
-/

namespace VolumeStore.Text

def encode (s : String) : List UInt8 :=
  s.toByteArray.data.toList

def decode? (bytes : List UInt8) : Option String :=
  String.fromUTF8? ⟨bytes.toArray⟩

def byteLength (cs : List Char) : Nat :=
  cs.foldr (fun c n => c.utf8Size + n) 0

/-- Text without its first `n` bytes, unless that would cut a character in two or go past the end.
-/
def dropBytes? : Nat → List Char → Option (List Char)
  | 0, cs => some cs
  | _ + 1, [] => none
  | n + 1, c :: cs => if c.utf8Size ≤ n + 1 then dropBytes? (n + 1 - c.utf8Size) cs else none

@[simp] theorem byteLength_nil : byteLength [] = 0 := rfl

@[simp] theorem byteLength_cons (c : Char) (cs : List Char) :
    byteLength (c :: cs) = c.utf8Size + byteLength cs := rfl

@[simp] theorem byteLength_append (cs ds : List Char) :
    byteLength (cs ++ ds) = byteLength cs + byteLength ds := by
  induction cs with
  | nil => simp
  | cons c cs ih => simp [ih, Nat.add_assoc]

theorem encode_ofList (cs : List Char) :
    encode (String.ofList cs) = cs.flatMap String.utf8EncodeChar := by
  induction cs with
  | nil => rfl
  | cons c cs ih =>
    simp only [encode, String.toByteArray_ofList] at ih ⊢
    rw [List.utf8Encode_cons]
    simpa [List.utf8Encode_singleton] using ih

theorem encode_eq_flatMap (s : String) : encode s = s.toList.flatMap String.utf8EncodeChar := by
  rw [← encode_ofList, String.ofList_toList]

theorem length_encode (s : String) : (encode s).length = byteLength s.toList := by
  rw [encode_eq_flatMap]
  induction s.toList with
  | nil => rfl
  | cons c cs ih =>
    rw [List.flatMap_cons, List.length_append, ih, byteLength_cons, String.length_utf8EncodeChar]

theorem decode?_encode (s : String) : decode? (encode s) = some s := by
  have h : (⟨(encode s).toArray⟩ : ByteArray) = s.toByteArray := by simp [encode]
  simp [decode?, h, String.fromUTF8?, s.isValidUTF8, String.fromUTF8]

theorem eq_encode_of_decode? {bytes : List UInt8} {s : String} (h : decode? bytes = some s) :
    bytes = encode s := by
  simp only [decode?, String.fromUTF8?, Option.dite_none_right_eq_some, Option.some.injEq] at h
  obtain ⟨_, rfl⟩ := h
  simp [encode, String.fromUTF8]

theorem decode?_eq_some_iff {bytes : List UInt8} {s : String} :
    decode? bytes = some s ↔ bytes = encode s :=
  ⟨eq_encode_of_decode?, fun h => h ▸ decode?_encode s⟩

theorem encode_injective {s t : String} (h : encode s = encode t) : s = t := by
  simpa [decode?_encode] using congrArg decode? h

@[simp] theorem encode_append (s t : String) : encode (s ++ t) = encode s ++ encode t := by
  simp [encode, String.toByteArray_append]

@[simp] theorem encode_empty : encode "" = [] := rfl

/-! ## Reading any bytes -/

/-- What the first byte of a character asks for: how many bytes follow it, and the least and the
greatest value of the next one. -/
def following? (first : UInt8) : Option (Nat × UInt8 × UInt8) :=
  if first ≤ 0x7f then some (0, 0x80, 0xbf)
  else if 0xc2 ≤ first && first ≤ 0xdf then some (1, 0x80, 0xbf)
  else if first == 0xe0 then some (2, 0xa0, 0xbf)
  else if first == 0xed then some (2, 0x80, 0x9f)
  else if 0xe1 ≤ first && first ≤ 0xef then some (2, 0x80, 0xbf)
  else if first == 0xf0 then some (3, 0x90, 0xbf)
  else if 0xf1 ≤ first && first ≤ 0xf3 then some (3, 0x80, 0xbf)
  else if first == 0xf4 then some (3, 0x80, 0x8f)
  else none

/-- The first bytes, at most `count` of them, that may follow, the next one between `low` and
`high` and every later one any continuation. -/
def takeContinuations : Nat → UInt8 → UInt8 → List UInt8 → List UInt8
  | 0, _, _, _ => []
  | _, _, _, [] => []
  | n + 1, low, high, b :: bs =>
    if low ≤ b && b ≤ high then b :: takeContinuations n 0x80 0xbf bs else []

def assemble (first : UInt8) : List UInt8 → Char
  | [] => Char.ofNat first.toNat
  | [a] => Char.ofNat ((first.toNat % 0x20) * 0x40 + a.toNat % 0x40)
  | [a, b] => Char.ofNat ((first.toNat % 0x10) * 0x1000 + a.toNat % 0x40 * 0x40 + b.toNat % 0x40)
  | a :: b :: c :: _ =>
    Char.ofNat ((first.toNat % 0x08) * 0x40000 + a.toNat % 0x40 * 0x1000 + b.toNat % 0x40 * 0x40 +
      c.toNat % 0x40)

def replacement : Char := '\uFFFD'

/-- The character at the start of some bytes, or the replacement character when they start with
none, and the number of bytes behind the first one that it stands for. -/
def firstLossy (first : UInt8) (rest : List UInt8) : Char × Nat :=
  match following? first with
  | none => (replacement, 0)
  | some (count, low, high) =>
    let tail := takeContinuations count low high rest
    (if tail.length = count then assemble first tail else replacement, tail.length)

/-- The characters of some bytes. Each longest piece that starts a character and does not finish it,
and each byte that cannot start one, is shown as one replacement character. -/
def decodeLossyChars (bytes : List UInt8) : List Char :=
  match bytes with
  | [] => []
  | first :: rest =>
    (firstLossy first rest).1 :: decodeLossyChars (rest.drop (firstLossy first rest).2)
termination_by bytes.length
decreasing_by simp only [List.length_drop, List.length_cons]; omega

def decodeLossy (bytes : List UInt8) : String :=
  match decode? bytes with
  | some s => s
  | none => String.ofList (decodeLossyChars bytes)

@[simp] theorem decodeLossy_encode (s : String) : decodeLossy (encode s) = s := by
  simp [decodeLossy, decode?_encode]

end VolumeStore.Text
