/-!
# The bytes of a file

A file's content is a row of pieces, each a run of written bytes or a run of zeros that were never
written; so a file of many terabytes costs nothing until it is read. `toList` is the one view of a
content: the facts below say of each operation what it does to the bytes.
-/

namespace VolumeStore.Host

inductive Piece where
  | bytes (data : List UInt8)
  | zeros (count : Nat)
deriving DecidableEq, Repr

namespace Piece

def length : Piece → Nat
  | bytes data => data.length
  | zeros count => count

def toList : Piece → List UInt8
  | bytes data => data
  | zeros count => List.replicate count 0

def take (n : Nat) : Piece → Piece
  | bytes data => bytes (data.take n)
  | zeros count => zeros (min n count)

def drop (n : Nat) : Piece → Piece
  | bytes data => bytes (data.drop n)
  | zeros count => zeros (count - n)

@[simp] theorem length_toList (p : Piece) : p.toList.length = p.length := by
  cases p <;> simp [toList, length]

@[simp] theorem toList_take (n : Nat) (p : Piece) : (p.take n).toList = p.toList.take n := by
  cases p <;> simp [toList, take, List.take_replicate]

@[simp] theorem toList_drop (n : Nat) (p : Piece) : (p.drop n).toList = p.toList.drop n := by
  cases p <;> simp [toList, drop]

end Piece

structure Content where
  pieces : List Piece := []
deriving DecidableEq, Repr, Inhabited

namespace Content

def toList (c : Content) : List UInt8 :=
  c.pieces.flatMap Piece.toList

def size (c : Content) : Nat :=
  c.pieces.foldr (fun p n => p.length + n) 0

def ofList (data : List UInt8) : Content :=
  ⟨if data = [] then [] else [.bytes data]⟩

def zeros (n : Nat) : Content :=
  ⟨if n = 0 then [] else [.zeros n]⟩

def append (c d : Content) : Content :=
  ⟨c.pieces ++ d.pieces⟩

def takePieces : Nat → List Piece → List Piece
  | _, [] => []
  | n, p :: ps =>
    if n = 0 then []
    else if n ≤ p.length then [p.take n]
    else p :: takePieces (n - p.length) ps

def dropPieces : Nat → List Piece → List Piece
  | _, [] => []
  | n, p :: ps =>
    if n = 0 then p :: ps
    else if n < p.length then p.drop n :: ps
    else dropPieces (n - p.length) ps

def take (n : Nat) (c : Content) : Content :=
  ⟨takePieces n c.pieces⟩

def drop (n : Nat) (c : Content) : Content :=
  ⟨dropPieces n c.pieces⟩

def slice (offset len : Nat) (c : Content) : List UInt8 :=
  ((c.drop offset).take len).toList

def resize (n : Nat) (c : Content) : Content :=
  (c.take n).append (zeros (n - c.size))

/-- Data laid over the content at an offset. A gap behind the old end is filled with zeros, and
laying nothing over it changes nothing, whatever the offset. -/
def overlay (offset : Nat) (data : List UInt8) (c : Content) : Content :=
  if data = [] then c
  else ((c.resize offset).append (ofList data)).append (c.drop (offset + data.length))

/-! ## What the operations do to the bytes -/

@[simp] theorem length_toList (c : Content) : c.toList.length = c.size := by
  obtain ⟨ps⟩ := c
  induction ps with
  | nil => rfl
  | cons p ps ih => simpa [toList, size] using ih

@[simp] theorem toList_ofList (data : List UInt8) : (ofList data).toList = data := by
  by_cases h : data = [] <;> simp [ofList, toList, Piece.toList, h]

@[simp] theorem toList_zeros (n : Nat) : (zeros n).toList = List.replicate n 0 := by
  by_cases h : n = 0 <;> simp [zeros, toList, Piece.toList, h]

@[simp] theorem toList_append (c d : Content) : (c.append d).toList = c.toList ++ d.toList := by
  simp [append, toList]

theorem flatMap_takePieces (n : Nat) (ps : List Piece) :
    (takePieces n ps).flatMap Piece.toList = (ps.flatMap Piece.toList).take n := by
  induction ps generalizing n with
  | nil => simp [takePieces]
  | cons p ps ih =>
    unfold takePieces
    split
    · simp_all
    · split
      · rename_i h
        simp [List.take_append, Nat.sub_eq_zero_of_le h]
      · rename_i h
        have hp : p.toList.take n = p.toList := List.take_of_length_le (by simp; omega)
        simp [ih, List.take_append, hp]

theorem flatMap_dropPieces (n : Nat) (ps : List Piece) :
    (dropPieces n ps).flatMap Piece.toList = (ps.flatMap Piece.toList).drop n := by
  induction ps generalizing n with
  | nil => simp [dropPieces]
  | cons p ps ih =>
    unfold dropPieces
    split
    · simp_all
    · split
      · rename_i h
        simp [List.drop_append, Nat.sub_eq_zero_of_le (Nat.le_of_lt h)]
      · rename_i h
        have hp : p.toList.drop n = [] := List.drop_of_length_le (by simp; omega)
        simp [ih, List.drop_append, hp]

@[simp] theorem toList_take (n : Nat) (c : Content) : (c.take n).toList = c.toList.take n :=
  flatMap_takePieces n c.pieces

@[simp] theorem toList_drop (n : Nat) (c : Content) : (c.drop n).toList = c.toList.drop n :=
  flatMap_dropPieces n c.pieces

@[simp] theorem slice_eq (offset len : Nat) (c : Content) :
    c.slice offset len = (c.toList.drop offset).take len := by
  simp [slice]

@[simp] theorem toList_resize (n : Nat) (c : Content) :
    (c.resize n).toList = c.toList.take n ++ List.replicate (n - c.size) 0 := by
  simp [resize]

theorem toList_overlay (offset : Nat) {data : List UInt8} (h : data ≠ []) (c : Content) :
    (c.overlay offset data).toList =
      c.toList.take offset ++ List.replicate (offset - c.size) 0 ++ data ++
        c.toList.drop (offset + data.length) := by
  simp [overlay, h]

@[simp] theorem overlay_nil (offset : Nat) (c : Content) : c.overlay offset [] = c := by
  simp [overlay]

end Content

end VolumeStore.Host
