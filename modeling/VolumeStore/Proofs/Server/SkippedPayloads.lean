import VolumeStore.Proofs.Server.RefusedLines

/-!
# Skipped payloads

A line that is too long is left out together with the payload that its start announces. That is the
payload which the line as a command is followed by, unless the line is cut off in front of the last
digit of the length. Then fewer bytes are left out, and the rest of the payload is read as requests.
-/

namespace VolumeStore

namespace Incoming

/-! ## Bytes that are left out -/

theorem skipAnnounced_eq (s : Incoming) (line : String) :
    s.skipAnnounced line =
      (s.takeBytes ((Command.announcedPayload? line).getD 0).toNat).map (·.2) := by
  unfold skipAnnounced
  cases Command.announcedPayload? line with
  | none => rfl
  | some len => rfl

theorem map_readPayload (s : Incoming) (c : Command) (limit : UInt64) :
    (s.readPayload c limit).map (·.2) =
      (s.takeBytes (c.payloadLength?.getD 0).toNat).map (·.2) := by
  unfold readPayload
  cases c.payloadLength? with
  | none => rfl
  | some len =>
    show ((s.takeBytes len.toNat).map _).map _ = (s.takeBytes len.toNat).map _
    cases s.takeBytes len.toNat with
    | error stop => rfl
    | ok taken =>
      dsimp only [Except.map]
      split <;> rfl

theorem eq_of_map_takeBytes_eq {m n : Nat}
    (h : ∀ (bytes : List UInt8) (ended : Bool),
      (takeBytes ⟨bytes, ended⟩ m).map (·.2) = (takeBytes ⟨bytes, ended⟩ n).map (·.2)) : m = n := by
  have henough := h (List.replicate (max m n) 0) true
  have hm : m ≤ (List.replicate (max m n) (0 : UInt8)).length := by
    rw [List.length_replicate]
    exact Nat.le_max_left m n
  have hn : n ≤ (List.replicate (max m n) (0 : UInt8)).length := by
    rw [List.length_replicate]
    exact Nat.le_max_right m n
  unfold takeBytes at henough
  rw [if_pos hm, if_pos hn] at henough
  have hrest := congrArg (fun s => s.bytes.length) (Except.ok.inj henough)
  simp only [bytes_drop, List.length_drop, List.length_replicate] at hrest
  omega

end Incoming

namespace Frame

variable {limit : UInt64} {f : Frame} {c : Command}

structure Refused (limit : UInt64) (f : Frame) (c : Command) : Prop where
  oneLine : '\n' ∉ f.line.toList
  parse : Command.parse f.line = .ok c
  tooLong : ∃ rest ended n s,
    Incoming.readLine ⟨Text.encode (f.line ++ f.lineEnd) ++ rest, ended⟩ limit = .ok (.tooLong n, s)

/-- Leaving the line out takes just the bytes that reading the payload of the command would take, on
every stream. -/
def DrainsPayload (limit : UInt64) (f : Frame) (c : Command) : Prop :=
  ∀ (rest : List UInt8) (ended : Bool) (payloadLimit : UInt64),
    (Incoming.readLine ⟨Text.encode (f.line ++ f.lineEnd) ++ rest, ended⟩ limit).map (·.2) =
      (Incoming.readPayload ⟨rest, ended⟩ c payloadLimit).map (·.2)

theorem Refused.parse_line_lineEnd (h : f.Refused limit c) :
    Command.parse (f.line ++ f.lineEnd) = .ok c :=
  f.parse_line_lineEnd.trans h.parse

theorem Refused.exists_start (h : f.Refused limit c) :
    ∃ p : String, p.toList <+: (f.line ++ f.lineEnd).toList ∧
      Text.byteLength p.toList =
        min (Incoming.lineRoom limit) (Text.byteLength (f.line ++ f.lineEnd).toList) ∧
      ∀ (rest : List UInt8) (ended : Bool),
        (Incoming.readLine ⟨Text.encode (f.line ++ f.lineEnd) ++ rest, ended⟩ limit).map (·.2) =
          Incoming.skipAnnounced ⟨rest, ended⟩ p := by
  obtain ⟨rest₀, ended₀, n, s, hread⟩ := h.tooLong
  have hlength : Text.byteLength (f.line ++ f.lineEnd).toList = f.body.length + 1 :=
    f.lineLength_eq
  -- The whole line is looked at, or as much of it as there is room for.
  obtain hfits | hroom := Nat.lt_or_ge f.body.length (Incoming.lineRoom limit)
  · refine ⟨f.line ++ f.lineEnd, List.prefix_refl _, by omega, fun rest ended => ?_⟩
    rw [readLine_closed h.oneLine hfits] at hread ⊢
    split at hread
    · cases hread
    next hlong =>
      rw [if_neg hlong]
      cases Incoming.skipAnnounced ⟨rest, ended⟩ (f.line ++ f.lineEnd) <;> rfl
  · have hpos : 0 < Incoming.lineRoom limit := by
      apply Nat.pos_of_ne_zero
      intro hzero
      rw [Incoming.readLine_of_lineRoom_eq_zero hzero] at hread
      cases hread
    rw [readLine_cut h.oneLine hpos hroom] at hread
    cases hp : Text.decode? (f.body.take (Incoming.lineRoom limit)) with
    | none =>
      rw [hp] at hread
      cases hread
    | some p =>
      have htake : (Text.encode (f.line ++ f.lineEnd)).take (Incoming.lineRoom limit) =
          f.body.take (Incoming.lineRoom limit) := by
        rw [encode_line_lineEnd, List.take_append_of_le_length hroom]
      have hstart : Text.byteLength p.toList = Incoming.lineRoom limit := by
        rw [← Text.length_encode, ← Text.eq_encode_of_decode? hp, List.length_take,
          Nat.min_eq_left hroom]
      refine ⟨p, Text.isPrefix_of_decode? (htake ▸ hp), by omega, fun rest ended => ?_⟩
      rw [readLine_cut h.oneLine hpos hroom, hp]
      dsimp only
      cases Incoming.skipAnnounced ⟨rest, ended⟩ p <;> rfl

theorem refused_of_cut {p : String} (hn : '\n' ∉ f.line.toList)
    (hparse : Command.parse f.line = .ok c) (hpos : 0 < Incoming.lineRoom limit)
    (hroom : Incoming.lineRoom limit ≤ f.body.length)
    (hp : f.body.take (Incoming.lineRoom limit) = Text.encode p) : f.Refused limit c where
  oneLine := hn
  parse := hparse
  tooLong := by
    -- Zeros will do as a payload.
    let n := ((Command.announcedPayload? p).getD 0).toNat
    have hskip : ∃ s, Incoming.skipAnnounced ⟨List.replicate n 0, true⟩ p = .ok s := by
      rw [Incoming.skipAnnounced_eq, Incoming.takeBytes,
        if_pos (Nat.le_of_eq List.length_replicate.symm)]
      exact ⟨_, rfl⟩
    obtain ⟨s, hskip⟩ := hskip
    refine ⟨List.replicate n 0, true, f.lineLength, s, ?_⟩
    rw [readLine_cut hn hpos hroom, hp, Text.decode?_encode]
    dsimp only
    rw [hskip]
    rfl

/-- What is left out for a line that is refused is the payload of the command exactly when there is
none, or the line has its length to the last digit within the room for a line. -/
theorem Refused.drainsPayload_iff (h : f.Refused limit c) :
    f.DrainsPayload limit c ↔
      c.payloadLength?.getD 0 = 0 ∨
        ∀ e ∈ Command.lengthEnd? (f.line ++ f.lineEnd), e ≤ Incoming.lineRoom limit := by
  obtain ⟨p, hp, hlength, hskips⟩ := h.exists_start
  have hparse := h.parse_line_lineEnd
  have hdrains : f.DrainsPayload limit c ↔
      (Command.announcedPayload? p).getD 0 = c.payloadLength?.getD 0 := by
    unfold DrainsPayload
    simp only [hskips, Incoming.skipAnnounced_eq, Incoming.map_readPayload]
    constructor
    · intro hsame
      exact UInt64.toNat_inj.1 (Incoming.eq_of_map_takeBytes_eq fun rest ended =>
        hsame rest ended 0)
    · intro hsame rest ended payloadLimit
      rw [hsame]
  -- The length ends within the line, so only the room counts.
  have hwithin := (Command.getD_announcedPayload?_eq_iff hparse (List.prefix_refl _)).1
    (by rw [Command.announcedPayload?_of_parse hparse])
  rw [hdrains, Command.getD_announcedPayload?_eq_iff hparse hp, hlength]
  constructor
  · rintro (hzero | hend)
    · exact .inl hzero
    · exact .inr fun e he => Nat.le_trans (hend e he) (Nat.min_le_left _ _)
  · rintro (hzero | hend)
    · exact .inl hzero
    · refine hwithin.imp id fun hline e he => ?_
      exact Nat.le_min.2 ⟨hend e he, hline e he⟩

/-! ## Both readings of a line -/

/-- The two readings of the length of a payload agree. The line of a command announces what the
command is followed by, and so does any start of an append with the space behind the length. What is
left out for the line where it is too long is the payload of the command exactly when that is empty,
or the last digit of its length lies within the room for a line. -/
theorem lengths_agree {line : String} {c : Command} (h : Command.parse line = .ok c) :
    Command.announcedPayload? line = c.payloadLength? ∧
      (∀ (len : UInt64) (path p : String), c = .append len path → p.toList <+: line.toList →
        2 ≤ p.toList.count ' ' → Command.announcedPayload? p = some len) ∧
      ∀ (limit : UInt64) (f : Frame), f.line = line → f.Refused limit c →
        (f.DrainsPayload limit c ↔
          c.payloadLength?.getD 0 = 0 ∨
            ∀ e ∈ Command.lengthEnd? (f.line ++ f.lineEnd), e ≤ Incoming.lineRoom limit) := by
  refine ⟨Command.announcedPayload?_of_parse h, fun len path p hc hp hspaces => ?_,
    fun limit f _ hrefused => hrefused.drainsPayload_iff⟩
  rw [hc] at h
  exact Command.announcedPayload?_of_append h hp hspaces

theorem longAppend_refused :
    longAppend.Refused 64
      (.append 6 "/xxxxxxxxxxxxxxxxxxxxxxxxxxxxxxxxxxxxxxxxxxxxxxxxxxxxxxxxxxé") :=
  refused_of_cut (p := "APPE 6 /xxxxxxxxxxxxxxxxxxxxxxxxxxxxxxxxxxxxxxxxxxxxxxxxxxxxxxxxxx")
    (by decide) (by decide +kernel) (by decide) (by decide +kernel) (by decide +kernel)

theorem lengths_agree_longAppend :
    longAppend.Refused 64
        (.append 6 "/xxxxxxxxxxxxxxxxxxxxxxxxxxxxxxxxxxxxxxxxxxxxxxxxxxxxxxxxxxé") ∧
      Command.announcedPayload? longAppend.line = some 6 ∧
      Command.announcedPayload? "APPE 6 " = some 6 ∧
      longAppend.DrainsPayload 64
        (.append 6 "/xxxxxxxxxxxxxxxxxxxxxxxxxxxxxxxxxxxxxxxxxxxxxxxxxxxxxxxxxxé") := by
  obtain ⟨hwhole, hstart, hdrains⟩ := lengths_agree longAppend_refused.parse
  exact ⟨longAppend_refused, hwhole, hstart _ _ _ rfl (by decide +kernel) (by decide),
    (hdrains 64 longAppend rfl longAppend_refused).2 (.inr (by decide +kernel))⟩

/-- A request to append five bytes, with so many zeros in front of the length that there is no room
for its last digit. -/
def paddedAppend : Frame :=
  ⟨"APPE 000000000000000000000000000000000000000000000000000000000000005 /f", true,
    Text.encode "NOOP\n"⟩

theorem paddedAppend_refused : paddedAppend.Refused 64 (.append 5 "/f") :=
  refused_of_cut (p := "APPE 0000000000000000000000000000000000000000000000000000000000000")
    (by decide) (by decide +kernel) (by decide) (by decide +kernel) (by decide +kernel)

/-- The payload of a line that is too long may be read as requests. -/
theorem not_forall_drainsPayload :
    ¬ ∀ (limit : UInt64) (f : Frame) (c : Command), 64 ≤ limit.toNat → f.Refused limit c →
      f.DrainsPayload limit c := by
  intro hall
  have hdrains := hall 64 paddedAppend _ (by decide) paddedAppend_refused
  obtain hzero | hwithin := paddedAppend_refused.drainsPayload_iff.1 hdrains
  · exact absurd hzero (by decide)
  · exact absurd (hwithin 68 (by decide +kernel)) (by decide)

end Frame

end VolumeStore
