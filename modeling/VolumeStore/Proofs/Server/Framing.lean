import VolumeStore.Proofs.Text.Cut
import VolumeStore.Server.Request

/-!
# Frames

A frame is one request as a client sends it: a line, the end of the line and the payload that the
line announces. Reading a request from a stream that starts with a frame takes exactly the frame,
wherever the sizes lie, as long as the room for a line does not start again from zero.
-/

namespace VolumeStore

structure Frame where
  line : String
  /-- The line is closed by a carriage return and a line feed, not by a line feed alone. -/
  crlf : Bool
  payload : List UInt8

namespace Frame

def lineEnd (f : Frame) : String :=
  if f.crlf then "\r\n" else "\n"

def bytes (f : Frame) : List UInt8 :=
  Text.encode (f.line ++ f.lineEnd) ++ f.payload

def announced (line : String) : Nat :=
  match Command.parse line with
  | .ok command => (command.payloadLength?.getD 0).toNat
  | .error _ => 0

/-- The line is one that a client may send: it is not too long, and has no line end of its own. -/
structure Lawful (limit : UInt64) (f : Frame) : Prop where
  short : Text.byteLength f.line.toList ≤ limit.toNat
  oneLine : '\n' ∉ f.line.toList
  bare : f.line.toList.getLast? ≠ some '\r'

structure Whole (limit : UInt64) (f : Frame) : Prop extends Lawful limit f where
  complete : f.payload.length = announced f.line

structure CutShort (limit : UInt64) (f : Frame) : Prop extends Lawful limit f where
  incomplete : f.payload.length < announced f.line

def request (settings : StoreSettings) (f : Frame) : Request :=
  match Command.parse f.line with
  | .error error => .malformed error
  | .ok command =>
    .command command
      (if settings.maxPayload.toNat < f.payload.length then
        .error (.payloadTooLarge f.payload.length settings.maxPayload.toNat)
      else .ok f.payload)

end Frame

/-! ## Reading a line -/

namespace Frame

variable {limit : UInt64} {f : Frame}

theorem isLineEnd_of_mem_lineEnd {c : Char} (h : c ∈ f.lineEnd.toList) :
    Text.isLineEnd c = true := by
  unfold lineEnd at h
  split at h <;> simp at h
  · rcases h with rfl | rfl <;> rfl
  · subst h
    rfl

theorem trimLineEnd_line_lineEnd (f : Frame) :
    Text.trimLineEnd (f.line ++ f.lineEnd).toList = Text.trimLineEnd f.line.toList := by
  rw [String.toList_append]
  exact Text.dropTrailing_append_of_all _ fun c hc => isLineEnd_of_mem_lineEnd hc

theorem parse_line_lineEnd (f : Frame) :
    Command.parse (f.line ++ f.lineEnd) = Command.parse f.line := by
  unfold Command.parse
  rw [f.trimLineEnd_line_lineEnd]

def body (f : Frame) : List UInt8 :=
  Text.encode f.line ++ if f.crlf then [0x0d] else []

theorem encode_line_lineEnd (f : Frame) :
    Text.encode (f.line ++ f.lineEnd) = f.body ++ [lineFeed] := by
  have hr : Text.encode "\r\n" = [0x0d, lineFeed] := by decide
  have hn : Text.encode "\n" = [lineFeed] := by decide
  unfold lineEnd body
  rw [Text.encode_append]
  split
  · rw [hr, List.append_assoc]
    rfl
  · rw [hn, List.append_nil]

theorem lineFeed_notMem_body (h : '\n' ∉ f.line.toList) : lineFeed ∉ f.body := by
  unfold body
  intro hmem
  rcases List.mem_append.1 hmem with hmem | hmem
  · exact h (Text.mem_toList_of_mem_encode (by decide) (by decide) hmem)
  · split at hmem
    · exact absurd (List.mem_singleton.1 hmem) (by decide)
    · exact absurd hmem List.not_mem_nil

theorem length_body_lt (hs : Text.byteLength f.line.toList ≤ limit.toNat) :
    f.body.length < limit.toNat + 2 := by
  have hc : (if f.crlf then [(0x0d : UInt8)] else []).length ≤ 1 := by split <;> simp
  unfold body
  rw [List.length_append, Text.length_encode]
  omega

theorem length_bytes_pos (f : Frame) : 0 < f.bytes.length := by
  unfold bytes
  rw [encode_line_lineEnd, List.length_append, List.length_append, List.length_singleton]
  omega

theorem lineRoom_eq (h : limit.toNat + 2 < UInt64.size) :
    Incoming.lineRoom limit = limit.toNat + 2 := by
  unfold Incoming.lineRoom
  rw [UInt64.toNat_add]
  exact Nat.mod_eq_of_lt h

/-- A line for which there is room is read with its end and nothing else. If it is too long all the
same, it is left out together with what it announces. -/
theorem readLine_closed (hn : '\n' ∉ f.line.toList)
    (hroom : f.body.length < Incoming.lineRoom limit) (rest : List UInt8) (ended : Bool) :
    Incoming.readLine ⟨Text.encode (f.line ++ f.lineEnd) ++ rest, ended⟩ limit =
      if Text.byteLength (Text.trimLineEnd f.line.toList) ≤ limit.toNat then
        .ok (.line (f.line ++ f.lineEnd), ⟨rest, ended⟩)
      else
        (Incoming.skipAnnounced ⟨rest, ended⟩ (f.line ++ f.lineEnd)).map fun s =>
          (.tooLong (Text.byteLength (Text.trimLineEnd f.line.toList)), s) := by
  have hline : lineBytes (Incoming.lineRoom limit) (Text.encode (f.line ++ f.lineEnd) ++ rest) =
      Text.encode (f.line ++ f.lineEnd) := by
    rw [encode_line_lineEnd, List.append_assoc]
    exact lineBytes_line (lineFeed_notMem_body hn) hroom rest
  have hclosed : isClosed (Text.encode (f.line ++ f.lineEnd)) = true := by
    rw [encode_line_lineEnd]
    simp [isClosed]
  have hne : Text.encode (f.line ++ f.lineEnd) ≠ [] := by
    rw [encode_line_lineEnd]
    simp
  have htake : Incoming.takeLine ⟨Text.encode (f.line ++ f.lineEnd) ++ rest, ended⟩
      (Incoming.lineRoom limit) = .ok (Text.encode (f.line ++ f.lineEnd), ⟨rest, ended⟩) := by
    unfold Incoming.takeLine
    simp only [hline, hclosed, Bool.true_or, if_true, Incoming.drop, List.drop_left]
  -- The whole line is taken; what is left is the test of its length.
  unfold Incoming.readLine
  rw [htake]
  simp only [bind, Except.bind, hne, if_false, Text.decode?_encode, hclosed, if_true,
    f.trimLineEnd_line_lineEnd]
  split
  · rfl
  · cases Incoming.skipAnnounced ⟨rest, ended⟩ (f.line ++ f.lineEnd) <;> rfl

theorem readLine_of_le (hs : Text.byteLength f.line.toList ≤ limit.toNat)
    (hn : '\n' ∉ f.line.toList) (hroom : limit.toNat + 2 < UInt64.size) (rest : List UInt8)
    (ended : Bool) :
    Incoming.readLine ⟨Text.encode (f.line ++ f.lineEnd) ++ rest, ended⟩ limit =
      .ok (.line (f.line ++ f.lineEnd), ⟨rest, ended⟩) := by
  have hshort : Text.byteLength (Text.trimLineEnd f.line.toList) ≤ limit.toNat :=
    Nat.le_trans (Text.byteLength_le_of_isPrefix (Text.dropTrailing_isPrefix _ _)) hs
  have hfits : f.body.length < Incoming.lineRoom limit := by
    rw [lineRoom_eq hroom]
    exact length_body_lt hs
  rw [readLine_closed hn hfits, if_pos hshort]

theorem Lawful.readLine (h : f.Lawful limit) (hroom : limit.toNat + 2 < UInt64.size)
    (rest : List UInt8) (ended : Bool) :
    Incoming.readLine ⟨Text.encode (f.line ++ f.lineEnd) ++ rest, ended⟩ limit =
      .ok (.line (f.line ++ f.lineEnd), ⟨rest, ended⟩) :=
  readLine_of_le h.short h.oneLine hroom rest ended

/-! ## Reading a frame -/

theorem announced_eq {line : String} {command : Command} (h : Command.parse line = .ok command) :
    announced line = (command.payloadLength?.getD 0).toNat := by
  unfold announced
  rw [h]

theorem Whole.readRequest {settings : StoreSettings} (h : f.Whole settings.maxCommandLength)
    (hroom : settings.maxCommandLength.toNat + 2 < UInt64.size) (rest : List UInt8) (ended : Bool) :
    Incoming.readRequest ⟨f.bytes ++ rest, ended⟩ settings =
      .ok (f.request settings, ⟨rest, ended⟩) := by
  unfold Incoming.readRequest bytes request
  rw [List.append_assoc, h.toLawful.readLine hroom]
  simp only [bind, Except.bind, f.parse_line_lineEnd]
  have hlen := h.complete
  cases hp : Command.parse f.line with
  | error error =>
    -- A line that is no command announces nothing, so the frame ends with it.
    unfold announced at hlen
    rw [hp] at hlen
    rw [List.length_eq_zero_iff.1 hlen]
    rfl
  | ok command =>
    rw [announced_eq hp] at hlen
    simp only [Incoming.readPayload]
    cases hc : command.payloadLength? with
    | none =>
      rw [hc] at hlen
      have hnil : f.payload = [] := List.length_eq_zero_iff.1 hlen
      simp [hnil, pure, Except.pure]
    | some len =>
      rw [hc, Option.getD_some] at hlen
      have htake : Incoming.takeBytes ⟨f.payload ++ rest, ended⟩ len.toNat =
          .ok (f.payload, ⟨rest, ended⟩) := by
        unfold Incoming.takeBytes
        rw [if_pos (by simp [hlen]), ← hlen, List.take_left, Incoming.drop, List.drop_left]
      simp only [htake, Except.map, UInt64.lt_iff_toNat_lt, hlen]
      split <;> rfl

theorem CutShort.readRequest {settings : StoreSettings} (h : f.CutShort settings.maxCommandLength)
    (hroom : settings.maxCommandLength.toNat + 2 < UInt64.size) :
    Incoming.readRequest ⟨f.bytes, true⟩ settings = .error .cutShort := by
  unfold Incoming.readRequest bytes
  rw [h.toLawful.readLine hroom]
  simp only [bind, Except.bind, f.parse_line_lineEnd]
  have hlen := h.incomplete
  -- Only a command can announce a payload, and only one that does can be cut short.
  cases hp : Command.parse f.line with
  | error error =>
    unfold announced at hlen
    rw [hp] at hlen
    exact absurd hlen (Nat.not_lt_zero _)
  | ok command =>
    rw [announced_eq hp] at hlen
    simp only [Incoming.readPayload]
    cases hc : command.payloadLength? with
    | none =>
      rw [hc] at hlen
      exact absurd hlen (Nat.not_lt_zero _)
    | some len =>
      rw [hc, Option.getD_some] at hlen
      have htake : Incoming.takeBytes ⟨f.payload, true⟩ len.toNat = .error .cutShort := by
        unfold Incoming.takeBytes
        rw [if_neg (Nat.not_le.2 hlen), if_pos rfl]
      simp only [htake, Except.map]

end Frame

end VolumeStore
