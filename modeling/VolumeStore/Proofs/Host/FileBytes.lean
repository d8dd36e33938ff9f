import VolumeStore.Proofs.Host.StoredFiles

/-!
# The bytes of a file after a write

What a write leaves, as bytes: the old ones with the data laid over them. Data that is written in
pieces, each behind the one before it, leaves what the whole of it leaves.
-/

namespace VolumeStore.Host

/-- Data laid over bytes from an offset on. A gap behind the old end is filled with zeros; laying
nothing over them changes nothing. -/
def overlaid (bytes : List UInt8) (offset : Nat) (data : List UInt8) : List UInt8 :=
  if data = [] then bytes
  else
    bytes.take offset ++ List.replicate (offset - bytes.length) 0 ++ data ++
      bytes.drop (offset + data.length)

variable {bytes data : List UInt8} {offset : Nat}

@[simp] theorem overlaid_nil (bytes : List UInt8) (offset : Nat) :
    overlaid bytes offset [] = bytes :=
  if_pos rfl

theorem overlaid_of_ne_nil (bytes : List UInt8) (offset : Nat) (h : data ≠ []) :
    overlaid bytes offset data =
      bytes.take offset ++ List.replicate (offset - bytes.length) 0 ++ data ++
        bytes.drop (offset + data.length) :=
  if_neg h

theorem overlaid_length (bytes data : List UInt8) :
    overlaid bytes bytes.length data = bytes ++ data := by
  by_cases h : data = []
  · rw [h, overlaid_nil, List.append_nil]
  · rw [overlaid_of_ne_nil _ _ h, List.take_length, Nat.sub_self, List.replicate_zero,
      List.append_nil, List.drop_of_length_le (Nat.le_add_right _ _), List.append_nil]

theorem length_overlaid (bytes : List UInt8) (offset : Nat) (h : data ≠ []) :
    (overlaid bytes offset data).length = max bytes.length (offset + data.length) := by
  rw [overlaid_of_ne_nil _ _ h]
  simp only [List.length_append, List.length_take, List.length_replicate, List.length_drop]
  omega

theorem length_front (bytes : List UInt8) (offset : Nat) :
    (bytes.take offset ++ List.replicate (offset - bytes.length) (0 : UInt8)).length = offset := by
  rw [List.length_append, List.length_take, List.length_replicate]
  omega

theorem overlaid_append {front : List UInt8} (hfront : front ≠ []) (back : List UInt8) :
    overlaid (overlaid bytes offset front) (offset + front.length) back =
      overlaid bytes offset (front ++ back) := by
  by_cases hback : back = []
  · rw [hback, overlaid_nil, List.append_nil]
  have hboth : front ++ back ≠ [] := fun h => hfront (List.append_eq_nil_iff.1 h).1
  have hfilled : offset + front.length - (overlaid bytes offset front).length = 0 := by
    rw [length_overlaid bytes offset hfront]
    omega
  have hlen := length_front bytes offset
  rw [overlaid_of_ne_nil _ _ hback, hfilled, List.replicate_zero, List.append_nil,
    overlaid_of_ne_nil _ _ hfront, overlaid_of_ne_nil _ _ hboth]
  have htake : ((bytes.take offset ++ List.replicate (offset - bytes.length) 0 ++ front) ++
      bytes.drop (offset + front.length)).take (offset + front.length) =
      bytes.take offset ++ List.replicate (offset - bytes.length) 0 ++ front :=
    List.take_left' (by rw [List.length_append, hlen])
  have hdrop : ((bytes.take offset ++ List.replicate (offset - bytes.length) 0 ++ front) ++
      bytes.drop (offset + front.length)).drop (offset + front.length + back.length) =
      bytes.drop (offset + (front ++ back).length) := by
    rw [← List.drop_drop, List.drop_left' (by rw [List.length_append, hlen]), List.drop_drop,
      List.length_append, Nat.add_assoc]
  rw [htake, hdrop, List.append_assoc _ front back]

theorem Content.toList_overlay_eq (c : Content) (offset : Nat) (data : List UInt8) :
    (c.overlay offset data).toList = overlaid c.toList offset data := by
  by_cases h : data = []
  · rw [h, overlay_nil, overlaid_nil]
  · rw [toList_overlay offset h, overlaid_of_ne_nil _ _ h, length_toList]

/-! ## Files rewritten in a tree -/

namespace Tree

/-- From one tree to the other, a file has got these bytes, and nothing else has changed. -/
structure Rewritten (t : Tree) (id : FileId) (data : List UInt8) (t' : Tree) : Prop where
  refilled : t.Refilled id t'
  bytes : (t'.content id).toList = data

variable {t t' t'' : Tree} {id : FileId} {data' : List UInt8}

theorem rewritten_self (t : Tree) (id : FileId) : t.Rewritten id (t.content id).toList t :=
  ⟨.kept, rfl⟩

theorem rewritten_setContent (h : id < t.contents.length) (c : Content) :
    t.Rewritten id c.toList (t.setContent id c) :=
  ⟨.of_setContent t id c, by rw [content_setContent t h, if_pos rfl]⟩

theorem Rewritten.trans (h : t.Rewritten id data t') (h' : t'.Rewritten id data' t'') :
    t.Rewritten id data' t'' :=
  ⟨h.refilled.trans h'.refilled, h'.bytes⟩

theorem Rewritten.size_content (h : t.Rewritten id data t') :
    (t'.content id).size = data.length := by
  rw [← Content.length_toList, h.bytes]

theorem Rewritten.length_contents (h : t.Rewritten id data t') :
    t'.contents.length = t.contents.length :=
  h.refilled.length_contents

end Tree

/-! ## Reading and writing -/

namespace Handle

variable {handle handle' : Handle} {t t' : Tree}

theorem read_of_lt {len : Nat} (hread : handle.access.read = true)
    (hend : handle.position + len < sizeLimit) :
    ∃ handle', handle.read t len =
      .ok (handle', ((t.content handle.file).toList.drop handle.position).take len) := by
  unfold read
  split
  next hnil =>
    rw [hnil, List.take_zero]
    exact ⟨_, rfl⟩
  · rw [if_neg (by simp [hread]), if_neg (by omega), Content.slice_eq]
    exact ⟨_, rfl⟩

theorem eq_slice_of_read {len : Nat} (h : handle.read t len = .ok (handle', data)) :
    data = ((t.content handle.file).toList.drop handle.position).take len := by
  unfold read at h
  split at h
  next hnil =>
    cases h
    rw [hnil, List.take_zero]
  split at h
  · cases h
  split at h
  · cases h
  cases h
  exact Content.slice_eq _ _ _

/-! ### A write in several calls -/

theorem taken_le (handle : Handle) (t : Tree) (len : Nat) : handle.taken t len ≤ len :=
  Nat.min_le_left _ _

theorem writePosition_add_taken_lt (hroom : handle.writePosition t + 1 < sizeLimit) (len : Nat) :
    handle.writePosition t + handle.taken t len < sizeLimit := by
  unfold taken
  omega

theorem taken_ne_zero (hroom : handle.writePosition t + 1 < sizeLimit) {len : Nat}
    (hlen : len ≠ 0) :
    handle.taken t len ≠ 0 := by
  have htransfer : 0 < maxTransfer := by decide
  unfold taken
  omega

theorem writeSome_refused {failure : Failure}
    (h : handle.writeSome t data = (.error failure, handle', t')) :
    ¬ (handle.access.isWritable = true ∧ handle.position + data.length < sizeLimit ∧
      handle.writePosition t + 1 < sizeLimit) := by
  rintro ⟨hwritable, hposition, hroom⟩
  unfold writeSome at h
  rw [if_neg (by simp [hwritable]), if_neg (Nat.not_le.2 hposition),
    if_neg (Nat.not_le.2 hroom)] at h
  cases h

theorem writeSome_step (hid : handle.file < t.contents.length) (hne : data ≠ []) {n : Nat}
    (h : handle.writeSome t data = (.ok n, handle', t')) :
    data.take n ≠ [] ∧ handle' = { handle with position := handle.writePosition t + n } ∧
      t.Rewritten handle.file
        (overlaid (t.content handle.file).toList (handle.writePosition t) (data.take n)) t' ∧
      handle'.writePosition t' = handle.writePosition t + n := by
  obtain ⟨-, -, hroom, hn, hhandle, rfl⟩ := writeSome_eq_ok h
  have hlen : data.length ≠ 0 := fun hlen => hne (List.eq_nil_of_length_eq_zero hlen)
  have htaken : n ≠ 0 ∧ n ≤ data.length :=
    hn ▸ ⟨taken_ne_zero hroom hlen, taken_le handle t data.length⟩
  have hfront : data.take n ≠ [] := by
    rw [Ne, List.take_eq_nil_iff]
    exact not_or.2 ⟨htaken.1, hne⟩
  have hwritten := Tree.rewritten_setContent hid
    ((t.content handle.file).overlay (handle.writePosition t) (data.take n))
  rw [Content.toList_overlay_eq] at hwritten
  refine ⟨hfront, hhandle, hwritten, ?_⟩
  rw [hhandle]
  by_cases happend : handle.access.append = true
  · -- Behind the old end, the file has grown by what was taken.
    have hstart : handle.writePosition t = (t.content handle.file).size := if_pos happend
    refine (if_pos happend).trans ?_
    rw [hwritten.size_content, length_overlaid _ _ hfront, hstart, Content.length_toList,
      List.length_take, Nat.min_eq_left htaken.2]
    exact Nat.max_eq_right (Nat.le_add_right _ _)
  · exact if_neg happend

theorem writePosition_writeSome_le {n : Nat}
    (h : handle.writeSome t data = (.ok n, handle', t')) :
    handle'.writePosition t' ≤ handle.writePosition t + n := by
  obtain ⟨-, -, -, -, rfl, rfl⟩ := writeSome_eq_ok h
  generalize hstart : handle.writePosition t = start
  by_cases happend : handle.access.append = true
  · have hsize : (t.content handle.file).size = start := (if_pos happend).symm.trans hstart
    rw [writePosition, if_pos happend]
    -- The end of the file is as far as the bytes reach; a file that is not stored stays empty.
    by_cases hid : handle.file < t.contents.length
    · have hwritten := Tree.rewritten_setContent hid
        ((t.content handle.file).overlay start (data.take n))
      rw [hwritten.size_content, Content.toList_overlay_eq]
      by_cases hfront : data.take n = []
      · rw [hfront, overlaid_nil, Content.length_toList, hsize]
        exact Nat.le_add_right _ _
      · have hlen := List.length_take_le n data
        rw [length_overlaid _ _ hfront, Content.length_toList, hsize]
        omega
    · rw [Tree.content_of_length_le _ (by simpa using hid)]
      exact Nat.zero_le _
  · exact Nat.le_of_eq (if_neg happend)

theorem write_of_fits (hwritable : handle.access.isWritable = true)
    (hposition : handle.position + data.length < sizeLimit)
    (hroom : handle.writePosition t + data.length < sizeLimit) :
    (handle.write t data).1 = .ok () := by
  -- Each call takes some bytes, and the rest fits behind them.
  fun_induction write handle t data with
  | case1 => rfl
  | case2 handle t data hne failure _ _ hsome =>
    have hlen := List.length_pos_iff.2 hne
    exact absurd ⟨hwritable, hposition, by omega⟩ (writeSome_refused hsome)
  | case3 handle t data hne _ _ hsome =>
    obtain ⟨-, -, hroom', hn, -, -⟩ := writeSome_eq_ok hsome
    have hlen : data.length ≠ 0 := fun hlen => hne (List.eq_nil_of_length_eq_zero hlen)
    exact absurd hn.symm (taken_ne_zero hroom' hlen)
  | case4 handle t data hne n handle' t' hsome ih =>
    have hnext := writePosition_writeSome_le hsome
    obtain ⟨-, -, -, hn, rfl, -⟩ := writeSome_eq_ok hsome
    have hle := taken_le handle t data.length
    refine ih hwritable ?_ ?_ <;> rw [List.length_drop]
    · dsimp only
      omega
    · omega

theorem tree_of_write_error (hroom : handle.writePosition t + data.length < sizeLimit)
    {failure : Failure} (h : handle.write t data = (.error failure, handle', t')) : t' = t := by
  unfold write at h
  split at h
  · cases h
  next hne =>
    split at h
    next hsome =>
      cases h
      exact (writeSome_eq_error hsome).2
    next hsome =>
      obtain ⟨-, -, hroom', hn, -, -⟩ := writeSome_eq_ok hsome
      have hlen : data.length ≠ 0 := fun hlen => hne (List.eq_nil_of_length_eq_zero hlen)
      exact absurd hn.symm (taken_ne_zero hroom' hlen)
    next n handle₁ t₁ hsome =>
      -- After a first call that succeeds, the rest is written too.
      have hnext := writePosition_writeSome_le hsome
      obtain ⟨hwritable, -, -, hn, hhandle, -⟩ := writeSome_eq_ok hsome
      have hle := taken_le handle t data.length
      have hposition : handle₁.position + (data.drop (n + 1)).length < sizeLimit := by
        rw [hhandle, List.length_drop]
        dsimp only
        omega
      have hroom' : handle₁.writePosition t₁ + (data.drop (n + 1)).length < sizeLimit := by
        rw [List.length_drop]
        omega
      have hrest := write_of_fits (by rwa [hhandle]) hposition hroom'
      rw [h] at hrest
      cases hrest

theorem fits_of_write (h : (handle.write t data).1 = .ok ()) (hne : data ≠ []) :
    handle.access.isWritable = true ∧ handle.position + data.length < sizeLimit ∧
      handle.writePosition t + data.length < sizeLimit := by
  fun_induction write handle t data with
  | case1 => exact absurd rfl hne
  | case2 => cases h
  | case3 => cases h
  | case4 handle t data _ n handle' t' hsome ih =>
    obtain ⟨hwritable, hposition, hroom, hn, rfl, -⟩ := writeSome_eq_ok hsome
    have hbelow := writePosition_add_taken_lt hroom data.length
    have hle := taken_le handle t data.length
    refine ⟨hwritable, hposition, ?_⟩
    by_cases hrest : data.drop (n + 1) = []
    · have hall := List.drop_eq_nil_iff.1 hrest
      omega
    · -- The rest begins where the position is now.
      have hend := (ih h hrest).2.1
      rw [List.length_drop] at hend
      dsimp only at hend
      omega

/-- A write succeeds exactly if the access allows it and it ends below the limit, counted from the
position and from where it begins. -/
theorem write_eq_ok_iff (handle : Handle) (t : Tree) (data : List UInt8) :
    (handle.write t data).1 = .ok () ↔
      data = [] ∨ handle.access.isWritable = true ∧ handle.position + data.length < sizeLimit ∧
        handle.writePosition t + data.length < sizeLimit := by
  constructor
  · intro hok
    by_cases hne : data = []
    · exact .inl hne
    · exact .inr (fits_of_write hok hne)
  · rintro (rfl | ⟨hwritable, hposition, hroom⟩)
    · unfold write
      rfl
    · exact write_of_fits hwritable hposition hroom

theorem append_eq_ok_iff (t : Tree) (id : FileId) (data : List UInt8) :
    (({ file := id, access := { append := true } } : Handle).write t data).1 = .ok () ↔
      data = [] ∨ (t.content id).size + data.length < sizeLimit := by
  rw [write_eq_ok_iff]
  refine or_congr_right ⟨fun h => h.2.2, fun hlt => ⟨rfl, ?_, hlt⟩⟩
  dsimp only
  omega

/-- What a write comes to: the front of the data is laid over the bytes, all of it if the write
succeeds. Otherwise it is nothing, unless the data does not fit below the limit. -/
theorem write_run (hid : handle.file < t.contents.length) (data : List UInt8) :
    ∃ n ≤ data.length, ((handle.write t data).1 = .ok () ↔ n = data.length) ∧
      t.Rewritten handle.file
        (overlaid (t.content handle.file).toList (handle.writePosition t) (data.take n))
        (handle.write t data).2.2 ∧
      (n ≠ 0 → n ≠ data.length → sizeLimit ≤ handle.writePosition t + data.length) := by
  fun_induction write handle t data with
  | case1 handle t => exact ⟨0, Nat.le_refl _, by simp, by simpa using t.rewritten_self _, by simp⟩
  | case2 handle t data hne failure _ _ hsome =>
    obtain ⟨rfl, rfl⟩ := writeSome_eq_error hsome
    have hlen := List.length_pos_iff.2 hne
    exact ⟨0, Nat.zero_le _, iff_of_false (by simp) (Nat.ne_of_lt hlen),
      by simpa using Tree.rewritten_self _ _, fun h => absurd rfl h⟩
  | case3 handle t data hne _ _ hsome => exact absurd rfl (writeSome_step hid hne hsome).1
  | case4 handle t data hne n handle' t' hsome ih =>
    obtain ⟨hfront, rfl, hwritten, hnext⟩ := writeSome_step hid hne hsome
    obtain ⟨hwritable, -, -, hn, -, -⟩ := writeSome_eq_ok hsome
    have hle := taken_le handle t data.length
    have hid' := hwritten.length_contents ▸ hid
    obtain ⟨m, hm, hok, hrest, -⟩ := ih hid'
    have hiff := hok.symm.trans (write_eq_ok_iff _ _ (data.drop (n + 1)))
    rw [hwritten.bytes, hnext] at hrest
    rw [hnext] at hiff
    rw [List.length_drop] at hm hok hiff
    refine ⟨n + 1 + m, by omega, hok.trans (by omega), ?_, fun _ hpart => ?_⟩
    · -- The rest goes right behind the front that was taken.
      have hlength : (data.take (n + 1)).length = n + 1 := by
        rw [List.length_take]
        omega
      have hboth := @overlaid_append (t.content handle.file).toList (handle.writePosition t) _
        hfront ((data.drop (n + 1)).take m)
      rw [hlength, ← List.take_add] at hboth
      exact hboth ▸ hwritten.trans hrest
    · by_contra hlt
      have := hiff.2 (.inr ⟨hwritable, by dsimp only; omega, by omega⟩)
      omega

theorem rewritten_of_write (hid : handle.file < t.contents.length)
    (h : handle.write t data = (.ok (), handle', t')) :
    t.Rewritten handle.file
      (overlaid (t.content handle.file).toList (handle.writePosition t) data) t' := by
  obtain ⟨n, -, hall, hwritten, -⟩ := write_run hid data
  rw [h] at hall hwritten
  rwa [hall.1 rfl, List.take_length] at hwritten

/-- A file that is open for appending takes the data at its end: all of it if the write succeeds,
and otherwise a beginning of it, which is empty if the file has room for the whole. -/
theorem append_run (hid : handle.file < t.contents.length) (happend : handle.access.append = true)
    (data : List UInt8) :
    ∃ piece, piece <+: data ∧
      t.Rewritten handle.file ((t.content handle.file).toList ++ piece) (handle.write t data).2.2 ∧
      ((handle.write t data).1 = .ok () → piece = data) ∧
      ((handle.write t data).1 ≠ .ok () →
        piece = [] ∨ sizeLimit ≤ (t.content handle.file).size + data.length) := by
  obtain ⟨n, -, hall, hwritten, hcut⟩ := write_run hid data
  have hstart : handle.writePosition t = (t.content handle.file).size := if_pos happend
  rw [hstart] at hcut
  rw [hstart, ← Content.length_toList, overlaid_length] at hwritten
  refine ⟨data.take n, List.take_prefix n data, hwritten, fun hok => ?_, fun hrefused => ?_⟩
  · rw [hall.1 hok, List.take_length]
  · by_cases hn : n = 0
    · exact .inl (by rw [hn, List.take_zero])
    · exact .inr (hcut hn fun hlen => hrefused (hall.2 hlen))

theorem rewritten_of_append (hid : handle.file < t.contents.length)
    (happend : handle.access.append = true) (h : handle.write t data = (.ok (), handle', t')) :
    t.Rewritten handle.file ((t.content handle.file).toList ++ data) t' := by
  obtain ⟨piece, -, hwritten, hall, -⟩ := append_run hid happend data
  rw [h] at hwritten hall
  rwa [hall rfl] at hwritten

end Handle

namespace Tree.Stored

variable {handle handle' : Handle} {t t' : Tree}

theorem setSize (h : t.Stored) {size : Nat} (hset : handle.setSize t size = .ok t') :
    StoredAfter t t' := by
  have hlt : size < sizeLimit := by
    unfold Handle.setSize at hset
    split at hset
    · cases hset
    next hle => exact Nat.lt_of_not_le hle
  rw [Handle.setSize_eq_ok hset]
  refine h.setContent _ ?_
  rw [← Content.length_toList, Content.toList_resize, List.length_append, List.length_take,
    List.length_replicate, Content.length_toList]
  omega

theorem writeSome (h : t.Stored) {n : Nat}
    (hsome : handle.writeSome t data = (.ok n, handle', t')) : StoredAfter t t' := by
  obtain ⟨-, -, hroom, hn, -, rfl⟩ := Handle.writeSome_eq_ok hsome
  have hold := h.size_lt handle.file
  have hend := Handle.writePosition_add_taken_lt hroom data.length
  refine h.setContent _ ?_
  rw [← Content.length_toList, Content.toList_overlay_eq]
  by_cases hfront : data.take n = []
  · rwa [hfront, overlaid_nil, Content.length_toList]
  · have hlen := List.length_take_le n data
    rw [length_overlaid _ _ hfront, Content.length_toList]
    omega

theorem write (h : t.Stored) (handle : Handle) (data : List UInt8) :
    StoredAfter t (handle.write t data).2.2 := by
  fun_induction Handle.write handle t data with
  | case1 => exact h.refl
  | case2 _ _ _ _ _ _ _ hsome =>
    obtain ⟨-, rfl⟩ := Handle.writeSome_eq_error hsome
    exact h.refl
  | case3 _ _ _ _ _ _ hsome => exact h.writeSome hsome
  | case4 _ _ _ _ _ _ _ hsome ih =>
    have hfirst := h.writeSome hsome
    exact hfirst.trans (ih hfirst.stored)

end Tree.Stored

end VolumeStore.Host
